import Zebra.Properties.SubsidyTotal

namespace Zebra.Properties

open Lib

variable {ε : Type} {net : Network} {blossom n h : Nat}

/-- The height is the least one that has seen so many halvings. -/
def IsFirstOfHalving (net : Network) (n h : Nat) : Prop :=
  (∃ q, (halving h net : Exec SubsidyError Nat) = .ok q ∧ n ≤ q) ∧
    ∀ h' < h, ∃ q, (halving h' net : Exec SubsidyError Nat) = .ok q ∧ q < n

theorem checked_eq_some {v w : Int} : I64.checked v = some w ↔ I64.Fits v ∧ v = w := by
  rw [I64.checked, Option.ite_none_right_eq_some, Option.some.injEq]

theorem heightForHalving_eq_some (hp : HalvingParameters net blossom) (hn : 1 ≤ n)
    (hheight : (heightForHalving n net : Exec ε _) = .ok (some h)) :
    (h : Int) = min (n * net.preBlossomHalvingInterval) blossom + net.slowStartShift +
        (max 0 (n * net.preBlossomHalvingInterval - blossom) * 2 + net.slowStartShift) ∧ h ≤ Height.max := by
  rw [heightForHalving, if_neg (by omega), hp.activates] at hheight
  dsimp only at hheight
  cases hchecked : I64.checked (n * net.preBlossomHalvingInterval) with
  | none =>
    rw [hchecked, Outcome.pure_eq_ok, Except.ok.injEq] at hheight
    cases hheight
  | some unscaled =>
    rw [hchecked] at hheight
    obtain ⟨scaled, hscaled, hheight⟩ := bind_eq_ok.1 hheight
    obtain ⟨-, rfl⟩ := checked_eq_some.1 hchecked
    obtain rfl : n * net.preBlossomHalvingInterval - blossom = scaled := by
      rw [I64.arith] at hscaled
      split at hscaled
      · exact Except.ok.inj hscaled
      · cases hscaled
    have hsome := Except.ok.inj hheight
    simp only [bind, Option.bind_eq_some_iff, checked_eq_some] at hsome
    obtain ⟨_, ⟨-, rfl⟩, _, ⟨-, rfl⟩, _, ⟨-, rfl⟩, _, ⟨-, rfl⟩, height, htoU32, hmax⟩ := hsome
    rw [Option.ite_none_right_eq_some, Option.some.injEq] at hmax
    obtain ⟨hmax, rfl⟩ := hmax
    rw [I64.toU32, Option.ite_none_right_eq_some, Option.some.injEq] at htoU32
    refine ⟨?_, hmax⟩
    have hcast : ((blossomPowTargetSpacingRatio : Nat) : Int) = 2 := rfl
    rw [hcast] at htoU32
    omega

theorem halving_eq_ok_tdiv (hp : HalvingParameters net blossom) (hmax : h ≤ Height.max) {q : Nat} :
    (halving h net : Exec ε Nat) = .ok q ↔
      (h < net.slowStartShift ∧ q = 0) ∨ (net.slowStartShift ≤ h ∧ halvingDenominator net blossom h ≠ 0 ∧
        (halvingNumerator net blossom h).tdiv (halvingDenominator net blossom h) = q) := by
  have habs : ((halvingNumerator net blossom h).tdiv (halvingDenominator net blossom h)).natAbs =
    (halvingNumerator net blossom h).natAbs / (halvingDenominator net blossom h).natAbs := Int.natAbs_tdiv _ _
  rw [hp.halving_eq_ok hmax, Nat.not_lt, NonnegQuotient, ← tdiv_nonneg_iff, ← habs, and_assoc]
  have hcast : ∀ v : Int, 0 ≤ v ∧ q = v.natAbs ↔ v = q := by omega
  rw [hcast]

theorem le_tdiv_iff {a d : Int} {n : Nat} (hd : 0 < d) (hn : 1 ≤ n) : n ≤ a.tdiv d ↔ n * d ≤ a := by
  rcases Int.le_total 0 a with ha | ha
  · rw [Int.tdiv_eq_ediv_of_nonneg ha, Int.le_ediv_iff_mul_le hd]
  · have hneg : a.tdiv d ≤ 0 := by
      have := Int.tdiv_nonneg (Int.neg_nonneg.2 ha) (Int.le_of_lt hd)
      rw [Int.neg_tdiv] at this
      omega
    have hpos : 0 < n * d := Int.mul_pos (by omega) hd
    omega

theorem tdiv_nonneg_iff_of_pos {a d : Int} (hd : 0 < d) : 0 ≤ a.tdiv d ↔ - d < a := by
  rw [tdiv_nonneg_iff]
  have hmul : 0 ≤ a * d ↔ 0 ≤ a := by
    constructor
    · intro h
      by_contra hneg
      have := Int.mul_neg_of_neg_of_pos (Int.not_le.1 hneg) hd
      omega
    · intro h
      exact Int.mul_nonneg h (Int.le_of_lt hd)
  rw [hmul]
  omega

theorem mul_halvingDenominator (hp : HalvingParameters net blossom) (n h : Nat) :
    n * halvingDenominator net blossom h =
      if h < blossom then n * net.preBlossomHalvingInterval else 2 * (n * net.preBlossomHalvingInterval) := by
  rw [halvingDenominator]
  split
  · rfl
  · rw [hp.post, Int.mul_left_comm]

section positive

variable (hp : HalvingParameters net blossom) (hpos : 0 < net.preBlossomHalvingInterval) (hn : 1 ≤ n)
  (hmax : h ≤ Height.max)

include hp hpos in
theorem halvingDenominator_pos : 0 < halvingDenominator net blossom h := by
  have hpost := hp.post
  rw [halvingDenominator]
  split <;> omega

include hp hpos hn hmax

theorem exists_halving_ge : (∃ q, (halving h net : Exec ε Nat) = .ok q ∧ n ≤ q) ↔
    net.slowStartShift ≤ h ∧ n * halvingDenominator net blossom h ≤ halvingNumerator net blossom h := by
  have hd : 0 < halvingDenominator net blossom h := halvingDenominator_pos hp hpos
  simp only [halving_eq_ok_tdiv hp hmax]
  constructor
  · rintro ⟨q, ⟨-, rfl⟩ | ⟨hlow, -, hq⟩, hle⟩
    · omega
    · exact ⟨hlow, (le_tdiv_iff hd hn).1 (hq ▸ Int.ofNat_le.2 hle)⟩
  · rintro ⟨hlow, hle⟩
    have hquotient := (le_tdiv_iff hd hn).2 hle
    refine ⟨((halvingNumerator net blossom h).tdiv (halvingDenominator net blossom h)).toNat, .inr ⟨hlow, ?_, ?_⟩, ?_⟩
    all_goals omega

theorem exists_halving_lt : (∃ q, (halving h net : Exec ε Nat) = .ok q ∧ q < n) ↔
    h < net.slowStartShift ∨ (net.slowStartShift ≤ h ∧ - halvingDenominator net blossom h < halvingNumerator net blossom h ∧
      halvingNumerator net blossom h < n * halvingDenominator net blossom h) := by
  have hd : 0 < halvingDenominator net blossom h := halvingDenominator_pos hp hpos
  simp only [halving_eq_ok_tdiv hp hmax]
  rw [← tdiv_nonneg_iff_of_pos hd, ← Int.not_le, ← le_tdiv_iff hd hn, Int.not_le]
  constructor
  · rintro ⟨q, ⟨hlow, -⟩ | ⟨hlow, -, hq⟩, hlt⟩
    · exact .inl hlow
    · exact .inr ⟨hlow, by omega, by omega⟩
  · rintro (hlow | ⟨hlow, hnonneg, hlt⟩)
    · exact ⟨0, .inl ⟨hlow, rfl⟩, hn⟩
    · refine ⟨((halvingNumerator net blossom h).tdiv (halvingDenominator net blossom h)).toNat, .inr ⟨hlow, ?_, ?_⟩, ?_⟩
      all_goals omega

end positive

/-- A halving interval that is not positive never leads to a later halving. -/
theorem not_exists_halving_ge (hp : HalvingParameters net blossom) (hn : 1 ≤ n) (hpos : ¬ 0 < net.preBlossomHalvingInterval)
    (hheight : (heightForHalving n net : Exec SubsidyError _) = .ok (some h)) :
    ¬ ∃ q, (halving h net : Exec SubsidyError Nat) = .ok q ∧ n ≤ q := by
  obtain ⟨hh, hmax⟩ := heightForHalving_eq_some hp hn hheight
  have hpost := hp.post
  rintro ⟨q, hq, hle⟩
  rcases (halving_eq_ok_tdiv hp hmax).1 hq with ⟨-, rfl⟩ | ⟨hlow, hne, hquotient⟩
  · omega
  have hneg : net.preBlossomHalvingInterval < 0 := by
    rw [halvingDenominator] at hne
    split at hne <;> omega
  have hunscaled : n * net.preBlossomHalvingInterval < 0 := Int.mul_neg_of_pos_of_neg (by omega) hneg
  have hd : 0 < - halvingDenominator net blossom h := by
    rw [halvingDenominator]
    split <;> omega
  have hreached : n * - halvingDenominator net blossom h ≤ - halvingNumerator net blossom h := by
    rw [← le_tdiv_iff hd hn, Int.tdiv_neg, Int.neg_tdiv, Int.neg_neg, hquotient]
    exact Int.ofNat_le.2 hle
  rw [Int.mul_neg, mul_halvingDenominator hp, halvingNumerator] at hreached
  split at hreached <;> omega

/-- The interval is positive, and without a slow start or after Blossom the two functions count
in the same way. -/
def HalvingsInverse (net : Network) (blossom n : Nat) : Prop :=
  0 < net.preBlossomHalvingInterval ∧
    (net.slowStartShift = 0 ∨ ((blossom : Int) ≤ n * net.preBlossomHalvingInterval ∧
      (net.slowStartShift : Int) < blossom + 2 * net.preBlossomHalvingInterval))

theorem isFirstOfHalving_iff (hp : HalvingParameters net blossom) (hn : 1 ≤ n)
    (hheight : (heightForHalving n net : Exec SubsidyError _) = .ok (some h)) :
    IsFirstOfHalving net n h ↔ HalvingsInverse net blossom n := by
  by_cases hpos : 0 < net.preBlossomHalvingInterval
  · obtain ⟨hh, hmax⟩ := heightForHalving_eq_some hp hn hheight
    have hpost := hp.post
    have hunscaled : 0 < n * net.preBlossomHalvingInterval := Int.mul_pos (by omega) hpos
    rw [IsFirstOfHalving, HalvingsInverse, exists_halving_ge hp hpos hn hmax]
    constructor
    · rintro ⟨-, hleast⟩
      refine ⟨hpos, ?_⟩
      by_contra hno
      -- before Blossom the slow start is counted twice, and a long slow start has no halvings
      obtain ⟨h', hlt, hnot⟩ : ∃ h' < h, ¬ (h' < net.slowStartShift ∨ (net.slowStartShift ≤ h' ∧
          - halvingDenominator net blossom h' < halvingNumerator net blossom h' ∧
            halvingNumerator net blossom h' < n * halvingDenominator net blossom h')) := by
        simp only [mul_halvingDenominator hp]
        simp only [halvingNumerator, halvingDenominator, hpost]
        generalize n * net.preBlossomHalvingInterval = unscaled at *
        by_cases hblossom : unscaled < blossom
        · by_cases hearly : unscaled + net.slowStartShift < blossom
          · refine ⟨(unscaled + net.slowStartShift).toNat, by omega, ?_⟩
            split_ifs <;> omega
          · refine ⟨(2 * unscaled + 2 * net.slowStartShift - blossom).toNat, by omega, ?_⟩
            split_ifs <;> omega
        · refine ⟨net.slowStartShift, by omega, ?_⟩
          split_ifs <;> omega
      exact hnot ((exists_halving_lt hp hpos hn (by omega)).1 (hleast h' hlt))
    · rintro ⟨-, hcondition⟩
      constructor
      · rw [mul_halvingDenominator hp, halvingNumerator]
        generalize n * net.preBlossomHalvingInterval = unscaled at *
        split_ifs <;> omega
      · intro h' hlt
        rw [exists_halving_lt hp hpos hn (by omega), mul_halvingDenominator hp, halvingNumerator, halvingDenominator, hpost]
        generalize n * net.preBlossomHalvingInterval = unscaled at *
        split_ifs <;> omega
  · exact iff_of_false (fun h => not_exists_halving_ge hp hn hpos hheight h.1) fun h => hpos h.1

/-- Mainnet and the networks that the builder accepts. -/
inductive BuiltNetwork : Network → Prop where
  | mainnet (streams : List FundingStreams) (disbursements : Payments)
      (founders : List Address) : BuiltNetwork (.mainnet streams disbursements founders)
  | accepted {k : TestnetConstants} {net : ConfiguredNetwork} (h : Accepted k net) : BuiltNetwork net.network

theorem mainnet_halvingParameters (streams : List FundingStreams)
    (disbursements : Payments) (founders : List Address) :
    HalvingParameters (.mainnet streams disbursements founders) 653600 where
  post := rfl
  shift_lt := (by decide : 2 * 10000 < 2 ^ 32)
  activates := rfl
  blossom_le := by decide

theorem mainnet_halvingsInverse (streams : List FundingStreams) (disbursements : Payments)
    (founders : List Address) (hn : 1 ≤ n) : HalvingsInverse (.mainnet streams disbursements founders) 653600 n := by
  have hinterval : (Network.mainnet streams disbursements founders).preBlossomHalvingInterval = 840000 := rfl
  have hshift : (Network.mainnet streams disbursements founders).slowStartShift = 10000 := rfl
  rw [HalvingsInverse, hinterval, hshift]
  omega

/-- The first height of a halving is the least height with so many halvings exactly if the
interval is positive and, with a slow start, the halving falls after Blossom. -/
theorem height_for_halving_first_iff (hnet : BuiltNetwork net) (hn : 1 ≤ n)
    (hheight : (heightForHalving n net : Exec SubsidyError _) = .ok (some h)) :
    IsFirstOfHalving net n h ↔
      ∃ blossom, NetworkUpgrade.blossom.activationHeight net = some blossom ∧ HalvingsInverse net blossom n := by
  obtain ⟨blossom, hp⟩ : ∃ blossom, HalvingParameters net blossom := by
    cases hnet with
    | mainnet streams disbursements founders => exact ⟨_, mainnet_halvingParameters streams disbursements founders⟩
    | accepted haccepted =>
      obtain ⟨blossom, hp⟩ := haccepted.parameters
      exact ⟨blossom, hp.halvingParameters⟩
  rw [isFirstOfHalving_iff hp hn hheight, hp.activates]
  simp

/-- On Mainnet the first halving is at the height of Canopy. -/
theorem height_for_halving_first_mainnet :
    (heightForHalving 1 (.mainnet [] [] []) : Exec SubsidyError _) = .ok (some 1046400) ∧
      IsFirstOfHalving (.mainnet [] [] []) 1 1046400 := by
  have hheight : (heightForHalving 1 (.mainnet [] [] []) : Exec SubsidyError _) = .ok (some 1046400) := by
    decide +kernel
  refine ⟨hheight, (height_for_halving_first_iff (.mainnet [] [] []) le_rfl hheight).2 ⟨653600, rfl, ?_⟩⟩
  exact mainnet_halvingsInverse [] [] [] le_rfl

def earlyHalving : List BuilderCall :=
  [.activationHeights { canopy := some 100 }, .clearFundingStreams, .halvingInterval 10, .slowStartInterval 2,
    .checkpoints (.heightsAndHashes [(0, testnetGenesisHash), (100, 5)])]

/-- The first halving is reported at height 12, but is reached at height 11. -/
theorem earlyHalving_late :
    ∃ net, Accepted sampleConstants net ∧ (heightForHalving 1 net.network : Exec SubsidyError _) = .ok (some 12) ∧
      (halving 11 net.network : Exec SubsidyError Nat) = .ok 1 ∧ ¬ IsFirstOfHalving net.network 1 12 := by
  have hbuild : (fun net => decide ((heightForHalving 1 net.network : Exec SubsidyError _) = .ok (some 12) ∧
      (halving 11 net.network : Exec SubsidyError Nat) = .ok 1)) <$> build earlyHalving = .ok true := by
    decide +kernel
  obtain ⟨net, hnet, h⟩ := map_eq_ok.1 hbuild
  obtain ⟨hheight, hhalving⟩ := of_decide_eq_true h
  obtain ⟨b, hb, hnet⟩ := bind_eq_ok.1 hnet
  refine ⟨net, .configured hb hnet, hheight, hhalving, fun hfirst => ?_⟩
  obtain ⟨q, hq, hlt⟩ := hfirst.2 11 (by decide)
  rw [hhalving, Except.ok.injEq] at hq
  omega

end Zebra.Properties
