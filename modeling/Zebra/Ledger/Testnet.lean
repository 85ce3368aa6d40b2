import Zebra.Ledger.Upgrades
import Zebra.Testnet

namespace Zebra

open Lib Std Outcome

variable {k : TestnetConstants} {ε : Type}

/-- What every sequence of calls keeps. -/
structure ParametersBuilder.Consistent (b : ParametersBuilder) : Prop where
  post : b.postBlossomHalvingInterval = 2 * b.preBlossomHalvingInterval
  fits : I64.Fits b.postBlossomHalvingInterval
  heights : ∀ e ∈ b.activationHeights.entries, e.1 ≤ Height.max
  numerators : ∀ s ∈ b.fundingStreams, s.sumNumerators ≤ fundingStreamReceiverDenominator
  limit : ∃ compact, CompactDifficulty.toExpanded compact = some b.targetDifficultyLimit

namespace ConfiguredFundingStreams

theorem sumNumerators_convertWithDefault {s : ConfiguredFundingStreams} {default : Option FundingStreams}
    {streams : FundingStreams} (h : (s.convertWithDefault default : Exec ε _) = .ok streams) :
    streams.sumNumerators ≤ fundingStreamReceiverDenominator := by
  obtain ⟨range, -, h⟩ := bind_eq_ok.1 h
  obtain ⟨recipients, -, h⟩ := bind_eq_ok.1 h
  obtain ⟨_, -, h⟩ := bind_eq_ok.1 h
  obtain ⟨_, hsum, h⟩ := bind_eq_ok.1 h
  cases h
  exact check_eq_ok.1 hsum

end ConfiguredFundingStreams

theorem FundingStreams.sumNumerators_extend {streams extended : FundingStreams} {targetLen : Nat}
    (h : (streams.extendRecipientAddresses targetLen : Exec ε _) = .ok extended) :
    extended.sumNumerators = streams.sumNumerators := by
  obtain ⟨_, -, h⟩ := bind_eq_ok.1 h
  cases h
  rw [sumNumerators, sumNumerators, List.map_map]
  congr 1
  refine List.map_congr_left fun r _ => ?_
  dsimp only [Function.comp]
  split <;> rfl

namespace ParametersBuilder

variable {b b' : ParametersBuilder}

theorem default_consistent (k : TestnetConstants) : (default k).Consistent where
  post := rfl
  fits := by
    change I64.Fits 1680000
    decide
  heights := by
    change ∀ e ∈ testnetActivationHeights.entries, e.1 ≤ Height.max
    decide
  numerators := by
    intro s hs
    change s ∈ k.fundingStreams at hs
    simp only [TestnetConstants.fundingStreams, List.mem_cons, List.not_mem_nil, or_false] at hs
    rcases hs with rfl | rfl | rfl <;> simp [FundingStreams.sumNumerators, fundingStreamReceiverDenominator]
  limit := ⟨0x2007ffff, by
    change CompactDifficulty.toExpanded 0x2007ffff = some (0x7ffff * 2 ^ 232)
    decide⟩

theorem withActivationHeights_eq_ok {c : ConfiguredActivationHeights} (h : b.withActivationHeights c = .ok b') :
    (∀ e ∈ c.entries, e.1 ≤ Height.max) ∧
      ∃ hcheck, b' = { b with activationHeights := b.activationHeights.replace c hcheck } := by
  rw [withActivationHeights] at h
  split at h
  · cases h
  split at h
  · cases h
  rename_i hany
  split at h
  · cases h
  rename_i hcheck
  refine ⟨fun e he => ?_, hcheck, (Except.ok.inj h).symm⟩
  simp only [List.any_eq_true, decide_eq_true_eq, not_exists, not_and] at hany
  exact Nat.not_lt.1 (hany e he)

theorem withHalvingInterval_eq_ok {interval : Int} (h : b.withHalvingInterval interval = .ok b') :
    I64.Fits (interval * blossomPowTargetSpacingRatio) ∧
      b' = { b with
        preBlossomHalvingInterval := interval
        postBlossomHalvingInterval := interval * blossomPowTargetSpacingRatio } := by
  rw [withHalvingInterval] at h
  split at h
  · cases h
  obtain ⟨post, harith, h⟩ := bind_eq_ok.1 h
  cases h
  rw [I64.arith] at harith
  split at harith
  · rename_i hfits
    cases harith
    exact ⟨hfits, rfl⟩
  · cases harith

theorem withTargetDifficultyLimit_eq_ok {limit : Nat} (h : b.withTargetDifficultyLimit limit = .ok b') :
    ∃ compact targetDifficultyLimit, CompactDifficulty.toExpanded compact = some targetDifficultyLimit ∧
      b' = { b with targetDifficultyLimit } := by
  obtain ⟨compact, -, h⟩ := bind_eq_ok.1 h
  split at h
  · cases h
  · rename_i hlimit
    exact ⟨compact, _, hlimit, (Except.ok.inj h).symm⟩

theorem withFundingStreams_eq_ok {streams : List ConfiguredFundingStreams}
    (h : (b.withFundingStreams k streams : Exec ε _) = .ok b') :
    ∃ fundingStreams, (∀ s ∈ fundingStreams, s.sumNumerators ≤ fundingStreamReceiverDenominator) ∧
      b' = { b with fundingStreams, shouldLockFundingStreamAddressPeriod := true } := by
  obtain ⟨fundingStreams, hstreams, h⟩ := bind_eq_ok.1 h
  refine ⟨fundingStreams, fun s hs => ?_, (Except.ok.inj h).symm⟩
  obtain ⟨_, -, hconvert⟩ := (mem_of_mapM_eq_ok hstreams).1 hs
  exact ConfiguredFundingStreams.sumNumerators_convertWithDefault hconvert

theorem extendFundingStreams_eq_ok (h : (b.extendFundingStreams k : Exec ε _) = .ok b') :
    ∃ fundingStreams, (∀ s ∈ fundingStreams, ∃ s' ∈ b.fundingStreams, s.sumNumerators = s'.sumNumerators) ∧
      b' = { b with fundingStreams } := by
  obtain ⟨fundingStreams, hstreams, h⟩ := bind_eq_ok.1 h
  refine ⟨fundingStreams, fun s hs => ?_, (Except.ok.inj h).symm⟩
  obtain ⟨s', hs', hextend⟩ := (mem_of_mapM_eq_ok hstreams).1 hs
  obtain ⟨_, -, hextend⟩ := bind_eq_ok.1 hextend
  exact ⟨s', hs', FundingStreams.sumNumerators_extend hextend⟩

theorem withCheckpoints_eq_ok {c : ConfiguredCheckpoints} (h : b.withCheckpoints k c = .ok b') :
    ∃ checkpoints, b' = { b with checkpoints } := by
  rw [withCheckpoints.eq_def] at h
  split at h
  · exact ⟨_, (Except.ok.inj h).symm⟩
  all_goals
    split at h
    · exact ⟨_, (Except.ok.inj h).symm⟩
    · cases h

theorem Consistent.apply (hb : b.Consistent) {call : BuilderCall} (h : call.apply k b = .ok b') : b'.Consistent := by
  cases call with
  | genesisHash hash =>
    cases h
    exact { hb with }
  | activationHeights c =>
    obtain ⟨hmax, hcheck, rfl⟩ := withActivationHeights_eq_ok (lift_eq_ok.1 h)
    refine { hb with heights := fun e he => ?_ }
    rcases List.mem_append.1 he with he | he
    · exact hb.heights e (List.mem_filter.1 he).1
    · exact hmax e (c.mem_entries_of_mem_byHeight he)
  | slowStartInterval n =>
    cases h
    exact { hb with }
  | fundingStreams streams =>
    obtain ⟨_, hsum, rfl⟩ := withFundingStreams_eq_ok h
    exact { hb with numerators := hsum }
  | clearFundingStreams =>
    cases h
    exact { hb with numerators := fun s hs => nomatch hs }
  | extendFundingStreams =>
    obtain ⟨_, hsum, rfl⟩ := extendFundingStreams_eq_ok h
    refine { hb with numerators := fun s hs => ?_ }
    obtain ⟨s', hs', heq⟩ := hsum s hs
    exact heq ▸ hb.numerators s' hs'
  | targetDifficultyLimit limit =>
    obtain ⟨compact, _, hlimit, rfl⟩ := withTargetDifficultyLimit_eq_ok h
    exact { hb with limit := ⟨compact, hlimit⟩ }
  | unshieldedCoinbaseSpends allow =>
    cases h
    exact { hb with }
  | halvingInterval interval =>
    obtain ⟨hfits, rfl⟩ := withHalvingInterval_eq_ok h
    exact { hb with post := Int.mul_comm _ _, fits := hfits }
  | lockboxDisbursements disbursements =>
    cases h
    exact { hb with }
  | checkpoints c =>
    obtain ⟨_, rfl⟩ := withCheckpoints_eq_ok (lift_eq_ok.1 h)
    exact { hb with }

theorem Consistent.run (hb : b.Consistent) {calls : List BuilderCall}
    (h : calls.foldlM (BuilderCall.apply k) b = .ok b') : b'.Consistent := by
  induction calls generalizing b with
  | nil =>
    cases h
    exact hb
  | cons call calls ih =>
    rw [List.foldlM_cons] at h
    obtain ⟨b₁, happly, h⟩ := bind_eq_ok.1 h
    exact ih (hb.apply happly) h

theorem toNetwork_eq_ok {net : ConfiguredNetwork} (h : b.toNetwork k = .ok net) :
    net = b.finish k .configuredTestnet ∧
      (∀ s ∈ b.fundingStreams, (checkFundingStreamAddressPeriod s net.network : Exec ParametersBuilderError _) = .ok ()) ∧
        ∃ canopy, NetworkUpgrade.canopy.activationHeight net.network = some canopy := by
  obtain ⟨⟨⟩, hcheck, h⟩ := bind_eq_ok.1 h
  split at h
  · cases h
  obtain ⟨mandatory, hmandatory, h⟩ := bind_eq_ok.1 h
  split at h
  · cases h
  cases h
  obtain ⟨canopy, hcanopy, -⟩ := bind_eq_ok.1 hmandatory
  exact ⟨rfl, forM_eq_ok.1 hcheck, canopy, expect_eq_ok.1 hcanopy⟩

end ParametersBuilder

namespace ConfiguredActivationHeights

variable {c : ConfiguredActivationHeights}

theorem exists_byHeight {e : Nat × NetworkUpgrade} (he : e ∈ c.entries) :
    ∃ u, e.2 ≤ u ∧ (e.1, u) ∈ c.byHeight.toList := by
  have hfold : ∀ (l : List (Nat × NetworkUpgrade)) (map : KeyedMap Nat NetworkUpgrade),
      (∀ e' ∈ l, e.2 ≤ e'.2) → (∃ u, e.2 ≤ u ∧ map[e.1]? = some u) →
        ∃ u, e.2 ≤ u ∧ (l.foldl (fun map e => map.insert e.1 e.2) map)[e.1]? = some u := by
    intro l
    induction l with
    | nil => exact fun _ _ h => h
    | cons e' l ih =>
      intro map hl ⟨u, hle, hu⟩
      rw [List.forall_mem_cons] at hl
      refine ih (map.insert e'.1 e'.2) hl.2 ?_
      by_cases hk : e'.1 = e.1
      · exact ⟨e'.2, hl.1, by rw [hk, ExtTreeMap.getElem?_insert_self]⟩
      · exact ⟨u, hle, by rw [KeyedMap.getElem?_insert_of_ne hk, hu]⟩
  obtain ⟨before, after, hsplit⟩ := List.append_of_mem he
  have hasc := c.entries_ascending
  rw [hsplit, List.pairwise_append, List.pairwise_cons] at hasc
  obtain ⟨u, hle, hu⟩ := hfold after
    ((before.foldl (fun (map : KeyedMap Nat NetworkUpgrade) e => map.insert e.1 e.2) ∅).insert e.1 e.2)
    (fun e' he' => Nat.le_of_lt (hasc.2.1.1 e' he')) ⟨e.2, Nat.le_refl _, ExtTreeMap.getElem?_insert_self⟩
  refine ⟨u, hle, ExtTreeMap.mem_toList_iff_getElem?_eq_some.2 ?_⟩
  rw [byHeight, hsplit, List.foldl_append, List.foldl_cons]
  exact hu

theorem exists_forRegtest_canopy (c : ConfiguredActivationHeights) :
    ∃ height, (height, NetworkUpgrade.canopy) ∈ c.forRegtest.entries := by
  have hcanopy : c.forRegtest.canopy.isSome = true := by
    simp [forRegtest]
  obtain ⟨height, hheight⟩ := Option.isSome_iff_exists.1 hcanopy
  refine ⟨height, List.mem_filterMap.2 ⟨(c.forRegtest.canopy, .canopy), ?_, by rw [hheight]; rfl⟩⟩
  simp [fields]

end ConfiguredActivationHeights

namespace NetworkUpgrade

theorem exists_activationHeight {nu : NetworkUpgrade} {net : Network} {e : Nat × NetworkUpgrade}
    (he : e ∈ net.activationHeights) (hle : nu ≤ e.2) : ∃ height, nu.activationHeight net = some height := by
  obtain ⟨first, hfirst⟩ := Option.isSome_iff_exists.1
    (List.find?_isSome.2 ⟨e, he, decide_eq_true hle⟩ : (net.activationHeights.find? fun e => decide (nu ≤ e.2)).isSome)
  exact ⟨first.1, by rw [activationHeight_eq_find, hfirst, Option.map_some]⟩

theorem exists_of_activationHeight {nu : NetworkUpgrade} {net : Network} {height : Nat}
    (h : nu.activationHeight net = some height) : ∃ u, nu ≤ u ∧ (height, u) ∈ net.activationHeights := by
  rw [activationHeight_eq_find] at h
  obtain ⟨e, he, rfl⟩ := Option.map_eq_some_iff.1 h
  exact ⟨e.2, by simpa using List.find?_some he, List.mem_of_find?_eq_some he⟩

end NetworkUpgrade

theorem newRegtest_eq_ok {p : RegtestParameters} {net : ConfiguredNetwork} (h : newRegtest k p = .ok net) :
    ∃ b : ParametersBuilder, b.Consistent ∧ net = b.finish k .regtest ∧ b.preBlossomHalvingInterval = 144 ∧
      b.slowStartInterval = 0 ∧ ∃ e ∈ b.activationHeights.entries, NetworkUpgrade.canopy ≤ e.2 := by
  obtain ⟨b, hrun, h⟩ := bind_eq_ok.1 h
  refine ⟨b, (ParametersBuilder.default_consistent k).run hrun, (Except.ok.inj h).symm, ?_⟩
  rw [regtestCalls, List.foldlM_append] at hrun
  obtain ⟨b₁, hrun, hextend⟩ := bind_eq_ok.1 hrun
  have hlast : b.preBlossomHalvingInterval = b₁.preBlossomHalvingInterval ∧
      b.slowStartInterval = b₁.slowStartInterval ∧ b.activationHeights = b₁.activationHeights := by
    split at hextend
    · rw [List.foldlM_cons] at hextend
      obtain ⟨b₂, hcall, hrest⟩ := bind_eq_ok.1 hextend
      cases hrest
      obtain ⟨_, -, rfl⟩ := ParametersBuilder.extendFundingStreams_eq_ok hcall
      exact ⟨rfl, rfl, rfl⟩
    · cases hextend
      exact ⟨rfl, rfl, rfl⟩
  rw [hlast.1, hlast.2.1, hlast.2.2]
  simp only [List.foldlM_cons, List.foldlM_nil, BuilderCall.apply, ok_bind] at hrun
  obtain ⟨_, hlimit, hrun⟩ := bind_eq_ok.1 hrun
  obtain ⟨_, _, -, rfl⟩ := ParametersBuilder.withTargetDifficultyLimit_eq_ok hlimit
  obtain ⟨b₂, hheights, hrun⟩ := bind_eq_ok.1 hrun
  obtain ⟨b₃, hhalving, hrun⟩ := bind_eq_ok.1 hrun
  obtain ⟨b₄, hstreams, hrun⟩ := bind_eq_ok.1 hrun
  obtain ⟨b₅, hcheckpoints, hrun⟩ := bind_eq_ok.1 hrun
  cases hrun
  obtain ⟨-, _, rfl⟩ := ParametersBuilder.withActivationHeights_eq_ok (lift_eq_ok.1 hheights)
  obtain ⟨-, rfl⟩ := ParametersBuilder.withHalvingInterval_eq_ok hhalving
  obtain ⟨_, -, rfl⟩ := ParametersBuilder.withFundingStreams_eq_ok hstreams
  obtain ⟨_, rfl⟩ := ParametersBuilder.withCheckpoints_eq_ok (lift_eq_ok.1 hcheckpoints)
  obtain ⟨height, hmem⟩ := p.activationHeights.exists_forRegtest_canopy
  obtain ⟨u, hle, hu⟩ := ConfiguredActivationHeights.exists_byHeight hmem
  exact ⟨rfl, rfl, (height, u), List.mem_append_right _ hu, hle⟩

/-- What is known of the parameters of an accepted network, whose Blossom height is given. -/
structure Parameters (net : ConfiguredNetwork) (blossom : Nat) : Prop where
  post : net.network.postBlossomHalvingInterval = 2 * net.network.preBlossomHalvingInterval
  fits : I64.Fits net.network.postBlossomHalvingInterval
  shift : net.network.slowStartShift = net.network.slowStartInterval / 2
  interval_lt : net.network.slowStartInterval < 2 ^ 32
  activates : NetworkUpgrade.blossom.activationHeight net.network = some blossom
  blossom_le : blossom ≤ Height.max
  numerators : ∀ s ∈ net.network.fundingStreams, s.sumNumerators ≤ fundingStreamReceiverDenominator
  limit : ∃ compact, CompactDifficulty.toExpanded compact = some net.network.testnetTargetDifficultyLimit
  founders_length : net.network.founderAddressList.length = 48
  founders_isScriptHash : ∀ a ∈ net.network.founderAddressList, a.isScriptHash = true
  /-- The addresses of a Regtest network are not checked. -/
  variant : (net.network.variant = .configuredTestnet ∧ ∀ s ∈ net.network.fundingStreams,
      (checkFundingStreamAddressPeriod s net.network : Exec ParametersBuilderError _) = .ok ()) ∨
    (net.network.variant = .regtest ∧ net.network.preBlossomHalvingInterval = 144 ∧
      net.network.slowStartInterval = 0)

namespace ParametersBuilder

variable {b : ParametersBuilder}

theorem Consistent.parameters (hb : b.Consistent) {variant : NetworkVariant} {e : Nat × NetworkUpgrade}
    (he : e ∈ b.activationHeights.entries) (hcanopy : NetworkUpgrade.canopy ≤ e.2)
    (hvariant : (variant = .configuredTestnet ∧ ∀ s ∈ b.fundingStreams,
        (checkFundingStreamAddressPeriod s (b.finish k variant).network : Exec ParametersBuilderError _) = .ok ()) ∨
      (variant = .regtest ∧ b.preBlossomHalvingInterval = 144 ∧ b.slowStartInterval = 0)) :
    ∃ blossom, Parameters (b.finish k variant) blossom := by
  have hle : NetworkUpgrade.blossom ≤ e.2 := Nat.le_trans (by decide : 4 ≤ 6) hcanopy
  obtain ⟨blossom, hblossom⟩ : ∃ height, NetworkUpgrade.blossom.activationHeight (b.finish k variant).network = some height :=
    NetworkUpgrade.exists_activationHeight he hle
  obtain ⟨u, -, hu⟩ := NetworkUpgrade.exists_of_activationHeight hblossom
  exact ⟨blossom, {
    post := hb.post
    fits := hb.fits
    shift := rfl
    interval_lt := b.slowStartInterval.toNat_lt
    activates := hblossom
    blossom_le := hb.heights _ hu
    numerators := hb.numerators
    limit := hb.limit
    founders_length := k.founders.2
    founders_isScriptHash := k.founders_isScriptHash
    variant := hvariant.imp_right fun ⟨h, hpre, hslow⟩ =>
      ⟨h, hpre, by change b.slowStartInterval.toNat = 0; rw [hslow]; rfl⟩ }⟩

end ParametersBuilder

theorem Accepted.parameters {net : ConfiguredNetwork} (h : Accepted k net) : ∃ blossom, Parameters net blossom := by
  cases h with
  | configured hbuild hnet =>
    obtain ⟨rfl, hcheck, canopy, hcanopy⟩ := ParametersBuilder.toNetwork_eq_ok hnet
    obtain ⟨u, hle, hu⟩ := NetworkUpgrade.exists_of_activationHeight hcanopy
    exact ((ParametersBuilder.default_consistent k).run hbuild).parameters hu hle (.inl ⟨rfl, hcheck⟩)
  | regtest hnet =>
    obtain ⟨b, hb, rfl, hpre, hslow, e, he, hle⟩ := newRegtest_eq_ok hnet
    exact hb.parameters he hle (.inr ⟨rfl, hpre, hslow⟩)

end Zebra
