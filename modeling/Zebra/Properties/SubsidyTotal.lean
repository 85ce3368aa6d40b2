import Zebra.Ledger.Coinbase
import Zebra.Properties.Sample

namespace Zebra.Properties

open Lib

section total

variable [ScriptParsing]

/-- The functions of the subsidy return at a height, and the check of a coinbase transaction does
not panic, whatever block it is given. -/
structure SubsidyTotal (net : ConfiguredNetwork) (height : Nat) (expectedBlockSubsidy : Amount .nonNegative) : Prop where
  halving : (halving height net.network : Exec SubsidyError Nat).Succeeds
  blockSubsidy : (blockSubsidy height net.network).Succeeds
  foundersReward : (foundersReward net.network height : Exec SubsidyError _).Succeeds
  period : (fundingStreamAddressPeriod height net.network : Exec SubsidyError Nat).Succeeds
  address : ∀ receiver, (fundingStreamAddress height net.network receiver : Exec SubsidyError _).Succeeds
  check : ∀ b : Block, b.coinbaseHeight = some height → ¬ (subsidyIsValid b net expectedBlockSubsidy).Panics
  minerSubsidy : ∀ subsidy, Zebra.blockSubsidy height net.network = .ok subsidy →
    (minerSubsidy height net.network subsidy).Succeeds

/-- The conditions on the parameters of a network, for one height. -/
structure SupportsHeight (net : ConfiguredNetwork) (blossom height : Nat) (expectedBlockSubsidy : Amount .nonNegative) : Prop where
  halving : HalvingDefined net.network blossom height
  founders : FoundersDivisible net.network blossom height
  period : PeriodDefined net.network blossom height
  /-- The builder checks the addresses of other networks. -/
  addresses : net.network.variant = .regtest ∨ net.network.preBlossomHalvingInterval < 0 →
    IndexInRange net.network blossom height
  payments : expectedBlockSubsidy.zatoshis ≠ 0 → ¬ NetworkUpgrade.current net.network height < .canopy →
    PaymentsSupported net blossom height expectedBlockSubsidy

section

variable {net : ConfiguredNetwork} {blossom height : Nat} {expectedBlockSubsidy : Amount .nonNegative}

theorem indexInRange_iff (hp : Parameters net blossom) (hdefined : PeriodDefined net.network blossom height) :
    IndexInRange net.network blossom height ↔
      (net.network.variant = .regtest ∨ net.network.preBlossomHalvingInterval < 0 →
        IndexInRange net.network blossom height) := by
  refine ⟨fun h _ => h, fun h => ?_⟩
  by_cases hcase : net.network.variant = .regtest ∨ net.network.preBlossomHalvingInterval < 0
  · exact h hcase
  · rw [not_or] at hcase
    have hvariant : net.network.variant = .configuredTestnet := by
      rcases hp.variant with ⟨hvariant, -⟩ | ⟨hvariant, -⟩
      · exact hvariant
      · exact absurd hvariant hcase.1
    have hpost := hp.post
    have hne : net.network.postBlossomHalvingInterval ≠ 0 := by
      intro hzero
      exact hdefined.2.2.1 (by rw [periodInterval, hzero]; rfl)
    exact hp.indexInRange_of_pos hvariant (by omega) hdefined

def coinbaseBlock (height : Nat) (outputs : List Output) : Block where
  header := ⟨0, 0, 0, 0, 0⟩
  transactions := [.V5 [.coinbase height] outputs none none]
  serializedSize := 0
  authDataRoot := 0

theorem subsidyIsValid_iff (hp : Parameters net blossom) (hheight : height ≤ Height.max)
    (hhalving : HalvingDefined net.network blossom height) (hfounders : FoundersDivisible net.network blossom height)
    (hdefined : PeriodDefined net.network blossom height) (hrange : IndexInRange net.network blossom height) :
    (∀ b : Block, b.coinbaseHeight = some height → ¬ (subsidyIsValid b net expectedBlockSubsidy).Panics) ↔
      (expectedBlockSubsidy.zatoshis ≠ 0 → ¬ NetworkUpgrade.current net.network height < .canopy →
        PaymentsSupported net blossom height expectedBlockSubsidy) := by
  constructor
  · intro h hne hcanopy
    refine (hp.fundingStreamsAreValid_iff hheight hdefined hrange hne hcanopy).1 fun outputs => ?_
    have hblock := h (coinbaseBlock height outputs) rfl
    rw [subsidyIsValid, if_neg hne] at hblock
    change ¬ (if NetworkUpgrade.current net.network height < .canopy then _ else _ : Exec _ _).Panics at hblock
    rw [if_neg hcanopy] at hblock
    exact hblock
  · intro h b hb
    rw [subsidyIsValid]
    split
    · simp
    rename_i hne
    split
    · rename_i height' coinbase rest hheight' htransactions
      obtain rfl : height = height' := Option.some.inj (hb.symm.trans hheight')
      split
      · have hreward := (hp.foundersReward_succeeds_iff (ε := SubsidyBlockError) hheight).2 ⟨hhalving, hfounders⟩
        exact hp.foundersRewardIsValid_not_panics hhalving hdefined hreward _
      · rename_i hcanopy
        exact (hp.fundingStreamsAreValid_iff hheight hdefined hrange hne hcanopy).2 (h hne hcanopy) _
    · simp

end

variable {k : TestnetConstants} {net : ConfiguredNetwork} {height : Nat}

/-- Where the subsidy functions are total: exactly where the parameters support the height. -/
theorem subsidy_total_iff (haccepted : Accepted k net) (hheight : height ≤ Height.max)
    (expectedBlockSubsidy : Amount .nonNegative) : SubsidyTotal net height expectedBlockSubsidy ↔
      ∃ blossom ∈ NetworkUpgrade.blossom.activationHeight net.network,
        SupportsHeight net blossom height expectedBlockSubsidy := by
  obtain ⟨blossom, hp⟩ := haccepted.parameters
  have hactivates : ∀ P : Nat → Prop, (∃ b ∈ NetworkUpgrade.blossom.activationHeight net.network, P b) ↔ P blossom := by
    intro P
    rw [hp.activates]
    exact ⟨fun ⟨b, hb, h⟩ => (Option.some.inj hb : blossom = b) ▸ h, fun h => ⟨blossom, rfl, h⟩⟩
  rw [hactivates]
  constructor
  · intro h
    obtain ⟨hhalving, hfounders⟩ := (hp.foundersReward_succeeds_iff hheight).1 h.foundersReward
    obtain ⟨period, hperiod⟩ := h.period
    have hdefined := ((hp.fundingStreamAddressPeriod_eq_ok hheight).1 hperiod).1
    have hrange := (hp.fundingStreamAddress_succeeds_iff hheight hdefined).1 h.address
    exact {
      halving := hhalving
      founders := hfounders
      period := hdefined
      addresses := fun _ => hrange
      payments := (subsidyIsValid_iff hp hheight hhalving hfounders hdefined hrange).1 h.check }
  · intro h
    have hrange := (indexInRange_iff hp h.period).2 h.addresses
    have hhalving := (hp.halving_succeeds_iff (ε := SubsidyError) hheight).2 h.halving
    have hreward : ∀ ε, (foundersReward net.network height : Exec ε _).Succeeds :=
      fun ε => (hp.foundersReward_succeeds_iff hheight).2 ⟨h.halving, h.founders⟩
    obtain ⟨q, hq⟩ := hhalving
    obtain ⟨subsidy, hsubsidy, -⟩ := blockSubsidy_of_halving hq
    exact {
      halving := ⟨q, hq⟩
      blockSubsidy := ⟨subsidy, hsubsidy⟩
      foundersReward := hreward SubsidyError
      period := ⟨_, (hp.fundingStreamAddressPeriod_eq_ok hheight).2 ⟨h.period, rfl⟩⟩
      address := (hp.fundingStreamAddress_succeeds_iff hheight h.period).2 hrange
      check := (subsidyIsValid_iff hp hheight h.halving h.founders h.period hrange).2 h.payments
      minerSubsidy := fun subsidy hsubsidy => hp.minerSubsidy_succeeds (hreward AmountError) hsubsidy }

end total

open Sample

def sampleScript : Address := ⟨.testnet, true, 7⟩

def sampleConstants : TestnetConstants where
  ecc := .replicate 51 sampleScript
  zcashFoundation := .replicate 51 sampleScript
  majorGrants := .replicate 51 sampleScript
  postNu6 := .replicate 13 sampleScript
  postNu6_1 := .replicate 27 sampleScript
  founders := .replicate 48 sampleScript
  lockbox := sampleScript
  checkpoints := ⟨[(0, testnetGenesisHash)]⟩
  founders_isScriptHash := by
    intro a ha
    obtain rfl : a = sampleScript := List.eq_of_mem_replicate ha
    rfl

def zeroInterval : List BuilderCall :=
  [.activationHeights { canopy := some 1 }, .clearFundingStreams, .halvingInterval 0, .checkpoints (.default false)]

def build (calls : List BuilderCall) : Exec ParametersBuilderError ConfiguredNetwork :=
  calls.foldlM (BuilderCall.apply sampleConstants) (.default sampleConstants) >>= fun b => b.toNetwork sampleConstants

/-- The builder accepts a halving interval of zero, by which the number of halvings is divided. -/
theorem zeroInterval_panics :
    ∃ net, Accepted sampleConstants net ∧ (halving 10000 net.network : Exec SubsidyError Nat).Panics := by
  have hbuild : (fun net => decide (halving 10000 net.network : Exec SubsidyError Nat).Panics) <$> build zeroInterval =
      .ok true := by
    decide +kernel
  obtain ⟨net, hnet, hpanics⟩ := map_eq_ok.1 hbuild
  obtain ⟨b, hb, hnet⟩ := bind_eq_ok.1 hnet
  exact ⟨net, .configured hb hnet, of_decide_eq_true hpanics⟩

theorem regtest_parameters : ∃ net, newRegtest sampleConstants {} = .ok net ∧
    net.network.activationHeights = [(0, .genesis), (1, .canopy)] ∧ net.network.variant = .regtest ∧
      net.network.postBlossomHalvingInterval = 288 ∧ net.network.slowStartInterval = 0 ∧
        net.network.slowStartShift = 0 ∧ net.network.fundingStreams.length = 0 := by
  have hbuild : (fun net => decide (net.network.activationHeights = [(0, .genesis), (1, .canopy)] ∧
      net.network.variant = .regtest ∧ net.network.postBlossomHalvingInterval = 288 ∧
        net.network.slowStartInterval = 0 ∧ net.network.slowStartShift = 0 ∧ net.network.fundingStreams.length = 0)) <$>
          newRegtest sampleConstants {} = .ok true := by
    decide +kernel
  obtain ⟨net, hnet, h⟩ := map_eq_ok.1 hbuild
  exact ⟨net, hnet, of_decide_eq_true h⟩

theorem regtest_total : ∃ net, Accepted sampleConstants net ∧ SubsidyTotal net 1 ⟨625000000, by decide⟩ := by
  obtain ⟨net, hnet, hheights, hvariant, hpost, hslow, hshift, hstreams⟩ := regtest_parameters
  have hnone : net.network.fundingStreams = [] := List.length_eq_zero_iff.1 hstreams
  have hblossom : NetworkUpgrade.blossom.activationHeight net.network = some 1 := by
    rw [NetworkUpgrade.activationHeight, hheights]
    decide
  have hnu6_1 : NetworkUpgrade.nu6_1.activationHeight net.network = none := by
    rw [NetworkUpgrade.activationHeight, hheights]
    decide
  refine ⟨net, .regtest hnet, (subsidy_total_iff (.regtest hnet) (by decide) _).2 ⟨1, hblossom, ?_⟩⟩
  exact {
    halving := by
      refine .inr ?_
      rw [halvingNumerator, halvingDenominator, if_neg (by decide), if_neg (by decide), hpost, hshift]
      decide
    founders := by
      intro h
      rw [hslow] at h
      cases h
    period := Parameters.periodDefined_regtest hvariant hpost
    addresses := by
      intro _ streams h
      rw [Network.fundingStreamsAt, hnone] at h
      cases h
    payments := by
      intro _ _ values _
      refine ⟨fun h => ?_, fun _ streams h => ?_⟩
      · rw [hnu6_1] at h
        cases h
      · rw [Network.fundingStreamsAt, hnone] at h
        cases h }

end Zebra.Properties
