import Mathlib.Algebra.Order.BigOperators.Group.List
import Zebra.Consensus.Subsidy
import Zebra.Ledger.Testnet

namespace Zebra

open Lib Outcome

def NonnegQuotient (n d : Int) : Prop := d ≠ 0 ∧ (n.natAbs < d.natAbs ∨ 0 ≤ n * d)

instance (n d : Int) : Decidable (NonnegQuotient n d) := inferInstanceAs (Decidable (_ ∧ _))

theorem tdiv_nonneg_iff {n d : Int} : 0 ≤ n.tdiv d ↔ n.natAbs < d.natAbs ∨ 0 ≤ n * d := by
  have hsign := Int.sign_tdiv n d
  rw [← Int.sign_nonneg_iff, hsign]
  split
  · rename_i hlt
    exact ⟨fun _ => .inl hlt, fun _ => Int.le_refl 0⟩
  · rename_i hlt
    rw [← Int.sign_mul, Int.sign_nonneg_iff]
    exact ⟨.inr, fun h => h.resolve_left hlt⟩

namespace I64

variable {ε : Type}

theorem quotient_eq_ok {n d : Int} {site : Panic} {q : Nat} (hn : n.natAbs < 2 ^ 63) :
    ((I64.div n d : Exec ε Int) >>= fun index => expect (I64.toU32 index) site) = .ok q ↔
      NonnegQuotient n d ∧ n.natAbs / d.natAbs < 2 ^ 32 ∧ q = n.natAbs / d.natAbs := by
  have habs : (n.tdiv d).natAbs = n.natAbs / d.natAbs := Int.natAbs_tdiv n d
  have hle : n.natAbs / d.natAbs ≤ n.natAbs := Nat.div_le_self _ _
  by_cases hd : d = 0
  · rw [I64.div, if_pos hd, panic_bind]
    exact ⟨fun h => absurd h (panic_ne_ok _ _), fun h => absurd hd h.1.1⟩
  rw [NonnegQuotient, ← tdiv_nonneg_iff, I64.div, if_neg hd, ← habs]
  rw [← habs] at hle
  generalize n.tdiv d = quotient at hle
  have hfits : I64.Fits quotient := ⟨by omega, by omega⟩
  rw [I64.arith, if_pos hfits, ok_bind, expect_eq_ok, I64.toU32, Option.ite_none_right_eq_some]
  simp only [Option.some.injEq, hd, ne_eq, not_false_eq_true, true_and]
  omega

end I64

def halvingNumerator (net : Network) (blossom height : Nat) : Int :=
  if height < blossom then height - net.slowStartShift else height + blossom - 2 * net.slowStartShift

def halvingDenominator (net : Network) (blossom height : Nat) : Int :=
  if height < blossom then net.preBlossomHalvingInterval else net.postBlossomHalvingInterval

def HalvingDefined (net : Network) (blossom height : Nat) : Prop :=
  height < net.slowStartShift ∨
    NonnegQuotient (halvingNumerator net blossom height) (halvingDenominator net blossom height)

/-- The parameters of a network that halvings depend on. -/
structure HalvingParameters (net : Network) (blossom : Nat) : Prop where
  post : net.postBlossomHalvingInterval = 2 * net.preBlossomHalvingInterval
  shift_lt : 2 * net.slowStartShift < 2 ^ 32
  activates : NetworkUpgrade.blossom.activationHeight net = some blossom
  blossom_le : blossom ≤ Height.max

namespace HalvingParameters

variable {net : Network} {blossom height : Nat} {ε : Type}

theorem natAbs_numerator_lt (hp : HalvingParameters net blossom) (hheight : height ≤ Height.max) :
    (halvingNumerator net blossom height).natAbs < 2 ^ 32 := by
  have hshift := hp.shift_lt
  have hblossom := hp.blossom_le
  rw [Height.max] at hheight hblossom
  rw [halvingNumerator]
  split <;> omega

theorem halvingIndex_eq (hlow : ¬ height < net.slowStartShift) :
    (halvingIndex height blossom net : Exec ε Int) =
      I64.div (halvingNumerator net blossom height) (halvingDenominator net blossom height) := by
  rw [halvingIndex, if_neg hlow, halvingNumerator, halvingDenominator]
  split
  · rfl
  · congr 1
    rw [blossomPowTargetSpacingRatio]
    omega

theorem halving_eq_ok (hp : HalvingParameters net blossom) (hheight : height ≤ Height.max) {q : Nat} :
    (halving height net : Exec ε Nat) = .ok q ↔
      (height < net.slowStartShift ∧ q = 0) ∨
        (¬ height < net.slowStartShift ∧
          NonnegQuotient (halvingNumerator net blossom height) (halvingDenominator net blossom height) ∧
            q = (halvingNumerator net blossom height).natAbs / (halvingDenominator net blossom height).natAbs) := by
  rw [halving, hp.activates, expect_some, ok_bind]
  by_cases hlow : height < net.slowStartShift
  · rw [halvingIndex, if_pos hlow]
    simp [hlow, I64.toU32, eq_comm]
  · have hlt := hp.natAbs_numerator_lt hheight
    have hquotient := Nat.div_le_self (halvingNumerator net blossom height).natAbs
      (halvingDenominator net blossom height).natAbs
    rw [halvingIndex_eq hlow, I64.quotient_eq_ok (by omega)]
    simp only [hlow, false_and, not_false_eq_true, true_and, false_or]
    refine and_congr_right fun _ => and_iff_right ?_
    omega

end HalvingParameters

namespace Parameters

variable {net : ConfiguredNetwork} {blossom height : Nat} {ε : Type}

theorem shift_le (hp : Parameters net blossom) : 2 * net.network.slowStartShift < 2 ^ 32 := by
  have hshift := hp.shift
  have hlt := hp.interval_lt
  omega

theorem halvingParameters (hp : Parameters net blossom) : HalvingParameters net.network blossom :=
  ⟨hp.post, hp.shift_le, hp.activates, hp.blossom_le⟩

theorem halving_succeeds_iff (hp : Parameters net blossom) (hheight : height ≤ Height.max) :
    (halving height net.network : Exec ε Nat).Succeeds ↔ HalvingDefined net.network blossom height := by
  simp only [Succeeds, hp.halvingParameters.halving_eq_ok hheight, HalvingDefined]
  by_cases hlow : height < net.network.slowStartShift <;> simp [hlow]

end Parameters

theorem subsidyAmount_le (height : Nat) (net : Network) (halvingDiv : Nat) :
    subsidyAmount height net halvingDiv ≤ maxBlockSubsidy := by
  rw [subsidyAmount]
  split
  · rename_i hslow
    have hrate := Nat.div_mul_le_self maxBlockSubsidy net.slowStartInterval
    dsimp only
    split
    · exact (Nat.mul_le_mul_left _ (Nat.le_of_lt hslow)).trans hrate
    · exact (Nat.mul_le_mul_left _ hslow).trans hrate
  · refine (Nat.div_le_self _ _).trans ?_
    split
    · exact Nat.le_refl _
    · exact Nat.div_le_self _ _

theorem blockSubsidy_of_halving {height q : Nat} {net : Network}
    (h : (halving height net : Exec SubsidyError Nat) = .ok q) : ∃ subsidy, blockSubsidy height net = .ok subsidy ∧
      subsidy.zatoshis = if q < 64 then (subsidyAmount height net (2 ^ q) : Int) else 0 := by
  rw [blockSubsidy, halvingDivisor, h, ok_bind, pure_eq_ok, ok_bind]
  by_cases hq : q < 64
  · have hle := subsidyAmount_le height net (2 ^ q)
    have hmem : Constraint.nonNegative.Contains (subsidyAmount height net (2 ^ q) : Int) := by
      rw [maxBlockSubsidy] at hle
      simp only [Constraint.Contains, Constraint.lower, Constraint.upper, maxMoney, coin]
      omega
    refine ⟨⟨_, hmem⟩, ?_, by rw [if_pos hq]⟩
    rw [if_pos hq]
    dsimp only
    rw [Amount.tryFrom_of_contains hmem]
    rfl
  · refine ⟨.zero, ?_, by rw [if_neg hq]; rfl⟩
    rw [if_neg hq]
    rfl

theorem blockSubsidy_le {height : Nat} {net : Network} {subsidy : Amount .nonNegative}
    (h : blockSubsidy height net = .ok subsidy) : subsidy.zatoshis ≤ maxBlockSubsidy := by
  obtain ⟨_, hdivisor, -⟩ := bind_eq_ok.1 h
  obtain ⟨q, hq, -⟩ := bind_eq_ok.1 hdivisor
  obtain ⟨subsidy', hsubsidy, hvalue⟩ := blockSubsidy_of_halving hq
  obtain rfl := Except.ok.inj (hsubsidy.symm.trans h)
  have hle := subsidyAmount_le height net (2 ^ q)
  rw [hvalue]
  split <;> omega

theorem divExact_succeeds_iff {ε : Type} {C : Constraint} {a : Amount C} {n : Nat} (hn : n ≠ 0) :
    (a.divExact n : Exec ε (Amount C)).Succeeds ↔ (n : Int) ∣ a.zatoshis := by
  rw [Amount.divExact, Int.dvd_iff_emod_eq_zero]
  by_cases h : a.zatoshis % n = 0 <;> simp [hn, h, Succeeds]

/-- Before the first halving and Canopy, the subsidies of the slow start are divisible by five. -/
def FoundersDivisible (net : Network) (blossom height : Nat) : Prop :=
  height < net.slowStartInterval → NetworkUpgrade.current net height < .canopy →
    (height < net.slowStartShift ∨
      (halvingNumerator net blossom height).natAbs < (halvingDenominator net blossom height).natAbs) →
        5 ∣ maxBlockSubsidy / net.slowStartInterval * if height < net.slowStartShift then height else height + 1

theorem five_dvd_subsidyAmount_iff {height : Nat} {net : Network} : 5 ∣ subsidyAmount height net 1 ↔
    (height < net.slowStartInterval →
      5 ∣ maxBlockSubsidy / net.slowStartInterval * if height < net.slowStartShift then height else height + 1) := by
  rw [subsidyAmount]
  by_cases hslow : height < net.slowStartInterval
  · rw [if_pos hslow]
    dsimp only
    by_cases hlow : height < net.slowStartShift <;> simp [hslow, hlow]
  · rw [if_neg hslow]
    dsimp only
    split <;> simp [hslow, maxBlockSubsidy, blossomPowTargetSpacingRatio]

namespace Parameters

variable {net : ConfiguredNetwork} {blossom height : Nat} {ε : Type}

theorem halving_lt_one_iff (hp : Parameters net blossom) (hheight : height ≤ Height.max) {q : Nat}
    (hq : (halving height net.network : Exec ε Nat) = .ok q) : q < 1 ↔ height < net.network.slowStartShift ∨
      (halvingNumerator net.network blossom height).natAbs < (halvingDenominator net.network blossom height).natAbs := by
  rcases (hp.halvingParameters.halving_eq_ok hheight).1 hq with ⟨hlow, rfl⟩ | ⟨hlow, hquotient, rfl⟩
  · simp [hlow]
  · have hpos : 0 < (halvingDenominator net.network blossom height).natAbs := Int.natAbs_pos.2 hquotient.1
    rw [Nat.lt_one_iff, Nat.div_eq_zero_iff_lt hpos]
    exact ⟨.inr, fun h => h.resolve_left hlow⟩

theorem foundersReward_of_halving {q : Nat} {subsidy : Amount .nonNegative} (hq : (halving height net.network : Exec ε Nat) = .ok q)
    (hsubsidy : blockSubsidy height net.network = .ok subsidy) :
    (foundersReward net.network height : Exec ε _) =
      if q < 1 ∧ NetworkUpgrade.current net.network height < .canopy then subsidy.divExact 5 else .ok .zero := by
  rw [foundersReward, hq, ok_bind, hsubsidy]
  split <;> rfl

theorem foundersReward_succeeds_iff (hp : Parameters net blossom) (hheight : height ≤ Height.max) :
    (foundersReward net.network height : Exec ε _).Succeeds ↔
      HalvingDefined net.network blossom height ∧ FoundersDivisible net.network blossom height := by
  rw [← hp.halving_succeeds_iff hheight]
  have hfounders : ∀ q, (halving height net.network : Exec ε Nat) = .ok q →
      ((foundersReward net.network height : Exec ε _).Succeeds ↔ FoundersDivisible net.network blossom height) := by
    intro q hq
    obtain ⟨subsidy, hsubsidy, hvalue⟩ := blockSubsidy_of_halving
      ((hp.halvingParameters.halving_eq_ok hheight).2 ((hp.halvingParameters.halving_eq_ok hheight).1 hq))
    rw [foundersReward_of_halving hq hsubsidy, FoundersDivisible, ← hp.halving_lt_one_iff hheight hq]
    by_cases hfirst : q < 1 ∧ NetworkUpgrade.current net.network height < .canopy
    · obtain rfl : q = 0 := Nat.lt_one_iff.1 hfirst.1
      rw [if_pos (by decide), pow_zero] at hvalue
      rw [if_pos hfirst, divExact_succeeds_iff (by decide), hvalue, Int.natCast_dvd_natCast, five_dvd_subsidyAmount_iff]
      simp [hfirst]
    · rw [if_neg hfirst]
      refine ⟨fun _ _ hcanopy hq => absurd ⟨hq, hcanopy⟩ hfirst, fun _ => succeeds_ok _⟩
  refine ⟨fun h => ?_, fun ⟨⟨q, hq⟩, h⟩ => (hfounders q hq).2 h⟩
  obtain ⟨q, hq, -⟩ := bind_succeeds.1 h
  exact ⟨⟨q, hq⟩, (hfounders q hq).1 h⟩

end Parameters

theorem Amount.mul_of_le {a : Amount .nonNegative} {n : Nat} (h : a.zatoshis * n ≤ maxMoney) :
    ∃ b, a.mul n = .ok b ∧ b.zatoshis = a.zatoshis * n := by
  have hmem : Constraint.nonNegative.Contains (a.zatoshis * n) := ⟨Int.mul_nonneg a.valid.1 (Int.natCast_nonneg n), h⟩
  exact ⟨⟨_, hmem⟩, by rw [Amount.mul, Amount.tryFrom_of_contains hmem], rfl⟩

theorem Amount.sumFrom_of_le {l : List (Amount .nonNegative)} {acc : Amount .nonNegative}
    (h : acc.zatoshis + (l.map Amount.zatoshis).sum ≤ maxMoney) : ∃ s, Amount.sumFrom acc l = .ok s := by
  induction l generalizing acc with
  | nil => exact ⟨acc, rfl⟩
  | cons a l ih =>
    rw [List.map_cons, List.sum_cons] at h
    have hrest : 0 ≤ (l.map Amount.zatoshis).sum :=
      List.sum_nonneg fun v hv => by
        obtain ⟨a', -, rfl⟩ := List.mem_map.1 hv
        exact a'.valid.1
    have hmem : Constraint.nonNegative.Contains (acc.zatoshis + a.zatoshis) :=
      ⟨Int.add_nonneg acc.valid.1 a.valid.1, by change _ ≤ maxMoney; omega⟩
    rw [Amount.sumFrom, Amount.add, Amount.tryFrom_of_contains hmem]
    refine ih ?_
    change acc.zatoshis + a.zatoshis + _ ≤ _
    omega

theorem streamValues_le {subsidy : Amount .nonNegative} (hsubsidy : subsidy.zatoshis ≤ maxBlockSubsidy)
    {recipients : Recipients}
    (hsum : (recipients.map fun r => r.2.numerator).sum ≤ fundingStreamReceiverDenominator) :
    ∃ values, (recipients.mapM fun r => do
        let scaled ← subsidy.mul r.2.numerator
        let value ← scaled.div fundingStreamReceiverDenominator
        return (r.1, value) : Except AmountError (List (FundingStreamReceiver × Amount .nonNegative))) = .ok values ∧
      fundingStreamReceiverDenominator * (values.map fun v => v.2.zatoshis).sum ≤
        subsidy.zatoshis * (recipients.map fun r => r.2.numerator).sum := by
  induction recipients with
  | nil => exact ⟨[], rfl, by simp⟩
  | cons r recipients ih =>
    rw [List.map_cons, List.sum_cons] at hsum
    obtain ⟨values, hvalues, hle⟩ := ih (by omega)
    have hnumerator : subsidy.zatoshis * r.2.numerator ≤ maxMoney := by
      have hr : (r.2.numerator : Int) ≤ 100 := by
        rw [fundingStreamReceiverDenominator] at hsum
        omega
      calc subsidy.zatoshis * r.2.numerator ≤ subsidy.zatoshis * 100 := Int.mul_le_mul_of_nonneg_left hr subsidy.valid.1
        _ ≤ maxBlockSubsidy * 100 := Int.mul_le_mul_of_nonneg_right hsubsidy (by decide)
        _ ≤ maxMoney := by decide
    obtain ⟨scaled, hscaled, hvalue⟩ := Amount.mul_of_le hnumerator
    have hdiv : scaled.div fundingStreamReceiverDenominator =
        .ok ⟨scaled.zatoshis.tdiv fundingStreamReceiverDenominator, Amount.contains_tdiv scaled.valid _⟩ := if_neg (by decide)
    refine ⟨(r.1, ⟨scaled.zatoshis.tdiv fundingStreamReceiverDenominator, Amount.contains_tdiv scaled.valid _⟩) ::
      values, ?_, ?_⟩
    · rw [List.mapM_cons]
      exact bind_eq_ok.2 ⟨_, bind_eq_ok.2 ⟨scaled, hscaled, bind_eq_ok.2 ⟨_, hdiv, rfl⟩⟩,
        bind_eq_ok.2 ⟨values, hvalues, rfl⟩⟩
    · rw [List.map_cons, List.sum_cons, List.map_cons, List.sum_cons]
      dsimp only
      have htdiv := Int.mul_tdiv_self_le (k := (fundingStreamReceiverDenominator : Int)) scaled.valid.1
      rw [Int.natCast_add, mul_add, mul_add, ← hvalue]
      omega

namespace Parameters

variable {net : ConfiguredNetwork} {blossom height : Nat}

theorem numerators_at (hp : Parameters net blossom) {streams : FundingStreams}
    (h : net.network.fundingStreamsAt height = some streams) :
    (streams.recipients.map fun r => r.2.numerator).sum ≤ fundingStreamReceiverDenominator :=
  hp.numerators streams (List.mem_of_find?_eq_some h)

theorem fundingStreamValues_le (hp : Parameters net blossom) {subsidy : Amount .nonNegative}
    (hsubsidy : subsidy.zatoshis ≤ maxBlockSubsidy) : ∃ values, fundingStreamValues height net.network subsidy = .ok values ∧
      (values.map fun v => v.2.zatoshis).sum ≤ subsidy.zatoshis ∧
        (NetworkUpgrade.current net.network height < .canopy → values = []) := by
  have hzero : (([] : List (FundingStreamReceiver × Amount .nonNegative)).map fun v => v.2.zatoshis).sum ≤
      subsidy.zatoshis := subsidy.valid.1
  rw [fundingStreamValues]
  split
  · exact ⟨[], rfl, hzero, fun _ => rfl⟩
  rename_i hactive
  split
  · exact ⟨[], rfl, hzero, fun _ => rfl⟩
  rename_i streams hstreams
  obtain ⟨values, hvalues, hle⟩ := streamValues_le hsubsidy (hp.numerators_at hstreams)
  refine ⟨values, hvalues, ?_, fun h => absurd (.inr h) hactive⟩
  have hsum := hp.numerators_at hstreams
  have hscaled : subsidy.zatoshis * (streams.recipients.map fun r => r.2.numerator).sum ≤
      subsidy.zatoshis * fundingStreamReceiverDenominator :=
    Int.mul_le_mul_of_nonneg_left (by omega) subsidy.valid.1
  rw [fundingStreamReceiverDenominator] at hle hscaled
  omega

theorem minerSubsidy_succeeds (hp : Parameters net blossom)
    (hreward : (foundersReward net.network height : Exec AmountError _).Succeeds) {subsidy : Amount .nonNegative}
    (hsubsidy : blockSubsidy height net.network = .ok subsidy) :
    (minerSubsidy height net.network subsidy).Succeeds := by
  obtain ⟨reward, hreward⟩ := hreward
  obtain ⟨values, hvalues, hle, hnone⟩ : ∃ values, fundingStreamValues height net.network subsidy = .ok values ∧
      (values.map fun v => v.2.zatoshis).sum ≤ subsidy.zatoshis ∧
        (NetworkUpgrade.current net.network height < .canopy → values = []) := hp.fundingStreamValues_le (blockSubsidy_le hsubsidy)
  obtain ⟨q, hq, -⟩ := bind_eq_ok.1 hreward
  -- the reward and the streams are never paid together
  have hreward_le : 0 ≤ reward.zatoshis ∧ reward.zatoshis + (values.map fun v => v.2.zatoshis).sum ≤ subsidy.zatoshis := by
    refine ⟨reward.valid.1, ?_⟩
    have hnonneg : 0 ≤ subsidy.zatoshis := subsidy.valid.1
    have heq := foundersReward_of_halving hq hsubsidy
    rw [hreward] at heq
    split at heq
    · rename_i hfirst
      rw [hnone hfirst.2, List.map_nil, List.sum_nil, Int.add_zero]
      rw [Amount.divExact] at heq
      split at heq
      · cases heq
      · cases heq
        exact Int.tdiv_le_self _ hnonneg
    · cases heq
      simpa using hle
  have hmax : subsidy.zatoshis ≤ maxMoney := subsidy.valid.2
  obtain ⟨sum, hsum⟩ : ∃ s, Amount.sumFrom .zero (values.map Prod.snd) = .ok s := by
    refine Amount.sumFrom_of_le ?_
    rw [List.map_map]
    change 0 + (values.map fun v => v.2.zatoshis).sum ≤ maxMoney
    omega
  have hsum_eq : sum.zatoshis = (values.map fun v => v.2.zatoshis).sum := by
    rw [Amount.sum_eq_ok hsum, List.map_map]
    rfl
  have hrest : Constraint.nonNegative.Contains (subsidy.zatoshis - reward.zatoshis) := by
    simp only [Constraint.Contains, Constraint.lower, Constraint.upper]
    have hvalid := sum.valid.1
    simp only [Constraint.lower] at hvalid
    omega
  have hminer : Constraint.nonNegative.Contains (subsidy.zatoshis - reward.zatoshis - sum.zatoshis) := by
    simp only [Constraint.Contains, Constraint.lower, Constraint.upper]
    have hvalid := sum.valid.1
    simp only [Constraint.lower] at hvalid
    omega
  refine ⟨⟨_, hminer⟩, ?_⟩
  refine bind_eq_ok.2 ⟨reward, hreward, bind_eq_ok.2 ⟨values, lift_eq_ok.2 hvalues,
    bind_eq_ok.2 ⟨sum, lift_eq_ok.2 hsum, bind_eq_ok.2 ⟨⟨_, hrest⟩, ?_, ?_⟩⟩⟩⟩
  · exact lift_eq_ok.2 (Amount.sub_eq_ok.2 rfl)
  · exact lift_eq_ok.2 (Amount.sub_eq_ok.2 rfl)

end Parameters

def firstHalvingHeight (net : Network) (blossom : Nat) : Int :=
  if net.variant = .regtest then regtestFirstHalving
  else if net.preBlossomHalvingInterval ≤ blossom then net.preBlossomHalvingInterval + 2 * net.slowStartShift
  else 2 * net.preBlossomHalvingInterval - blossom + 2 * net.slowStartShift

def periodNumerator (net : Network) (blossom height : Nat) : Int :=
  height - firstHalvingHeight net blossom + net.postBlossomHalvingInterval

def periodInterval (net : Network) : Int := net.postBlossomHalvingInterval.tdiv 48

def PeriodDefined (net : Network) (blossom height : Nat) : Prop :=
  0 ≤ firstHalvingHeight net blossom ∧ firstHalvingHeight net blossom ≤ Height.max ∧
    NonnegQuotient (periodNumerator net blossom height) (periodInterval net)

def addressPeriod (net : Network) (blossom height : Nat) : Nat :=
  (periodNumerator net blossom height).natAbs / (periodInterval net).natAbs

namespace Parameters

variable {net : ConfiguredNetwork} {blossom height : Nat} {ε : Type}

theorem checked_bind {v : Int} {α : Type} {f : Int → Option α} (hlow : -2 ^ 63 ≤ v) (hhigh : v < 2 ^ 63) :
    (I64.checked v >>= f) = f v := by
  rw [I64.checked, if_pos ⟨hlow, hhigh⟩]
  rfl

theorem checked_bind_eq_none {v : Int} {α : Type} {f : Int → Option α} (h : f v = none) :
    (I64.checked v >>= f) = none := by
  rw [I64.checked]
  split
  · exact h
  · rfl

theorem toU32_bind {v w : Int} (hvw : v = w) :
    (I64.toU32 v >>= fun height => if height ≤ 2 ^ 31 - 1 then some height else none) =
      if 0 ≤ w ∧ w ≤ ((2 ^ 31 - 1 : Nat) : Int) then some w.toNat else none := by
  subst hvw
  rw [I64.toU32]
  by_cases h : 0 ≤ v ∧ v < 2 ^ 32
  · rw [if_pos h]
    change (if v.toNat ≤ 2 ^ 31 - 1 then some v.toNat else none) = _
    by_cases hmax : v ≤ ((2 ^ 31 - 1 : Nat) : Int)
    · rw [if_pos (by omega), if_pos ⟨h.1, hmax⟩]
    · rw [if_neg (by omega), if_neg (fun h => hmax h.2)]
  · rw [if_neg h, if_neg (by omega)]
    rfl

theorem heightForHalving_one (hp : Parameters net blossom) (hvariant : net.network.variant = .configuredTestnet) :
    (heightForHalving 1 net.network : Exec ε _) = .ok
      (if 0 ≤ firstHalvingHeight net.network blossom ∧ firstHalvingHeight net.network blossom ≤ Height.max then
        some (firstHalvingHeight net.network blossom).toNat else none) := by
  have hpost := hp.post
  obtain ⟨hlow, hhigh⟩ := hp.fits
  have hshift := hp.shift_le
  have hblossom := hp.blossom_le
  rw [Height.max] at hblossom
  have hfirst : firstHalvingHeight net.network blossom = if net.network.preBlossomHalvingInterval ≤ blossom then
      net.network.preBlossomHalvingInterval + 2 * net.network.slowStartShift
      else 2 * net.network.preBlossomHalvingInterval - blossom + 2 * net.network.slowStartShift := by
    rw [firstHalvingHeight, if_neg (by rw [hvariant]; decide)]
  rw [hfirst, heightForHalving, if_neg (by decide), hp.activates]
  have hfits : I64.Fits ((1 : Nat) * net.network.preBlossomHalvingInterval) := ⟨by omega, by omega⟩
  rw [I64.checked, if_pos hfits]
  have hscaled : I64.Fits ((1 : Nat) * net.network.preBlossomHalvingInterval - blossom) := ⟨by omega, by omega⟩
  dsimp only
  rw [I64.arith, if_pos hscaled, ok_bind, pure_eq_ok, blossomPowTargetSpacingRatio]
  congr 1
  rw [Height.max]
  -- a sum that does not fit is above the greatest height
  by_cases hearly : net.network.preBlossomHalvingInterval ≤ blossom
  · rw [if_pos hearly, min_eq_left (by omega), max_eq_left (by omega)]
    rw [checked_bind (by omega) (by omega), checked_bind (by omega) (by omega), checked_bind (by omega) (by omega),
      checked_bind (by omega) (by omega)]
    exact toU32_bind (by omega)
  · rw [if_neg hearly, min_eq_right (by omega), max_eq_right (by omega)]
    rw [checked_bind (by omega) (by omega), checked_bind (by omega) (by omega)]
    by_cases hlarge : 2 * net.network.preBlossomHalvingInterval + 2 ^ 32 < 2 ^ 63
    · rw [checked_bind (by omega) (by omega), checked_bind (by omega) (by omega)]
      exact toU32_bind (by omega)
    · rw [if_neg (by omega)]
      refine checked_bind_eq_none (checked_bind_eq_none ?_)
      rw [toU32_bind rfl, if_neg (by omega)]

theorem heightForFirstHalving_eq_ok (hp : Parameters net blossom) {first : Nat} :
    (net.network.heightForFirstHalving : Exec ε Nat) = .ok first ↔
      0 ≤ firstHalvingHeight net.network blossom ∧ firstHalvingHeight net.network blossom ≤ Height.max ∧
        (first : Int) = firstHalvingHeight net.network blossom := by
  rcases hp.variant with ⟨hvariant, -⟩ | ⟨hvariant, -, -⟩
  · rw [Network.heightForFirstHalving, hvariant]
    rw [hp.heightForHalving_one hvariant, ok_bind, expect_eq_ok, Option.ite_none_right_eq_some,
      Option.some.injEq, and_assoc]
    refine and_congr_right fun hnonneg => and_congr_right fun _ => ?_
    omega
  · rw [Network.heightForFirstHalving, hvariant, firstHalvingHeight, if_pos hvariant, regtestFirstHalving, Height.max]
    rw [pure_eq_ok, Except.ok.injEq]
    omega

theorem post_bounds (hp : Parameters net blossom) (hlow : 0 ≤ firstHalvingHeight net.network blossom)
    (hhigh : firstHalvingHeight net.network blossom ≤ Height.max) :
    net.network.postBlossomHalvingInterval.natAbs ≤ 2 ^ 33 := by
  have hpost := hp.post
  have hshift := hp.shift_le
  have hblossom := hp.blossom_le
  rw [Height.max] at hblossom hhigh
  rw [firstHalvingHeight] at hlow hhigh
  rcases hp.variant with ⟨hvariant, -⟩ | ⟨-, hpre, -⟩
  · rw [if_neg (by rw [hvariant]; decide)] at hlow hhigh
    split at hlow <;> omega
  · omega

theorem periodInterval_cases (net : Network) :
    (0 ≤ net.postBlossomHalvingInterval ∧ periodInterval net = net.postBlossomHalvingInterval / 48) ∨
      (net.postBlossomHalvingInterval < 0 ∧ periodInterval net = -(-net.postBlossomHalvingInterval / 48)) := by
  rcases Int.lt_or_le net.postBlossomHalvingInterval 0 with hneg | hnonneg
  · refine .inr ⟨hneg, ?_⟩
    rw [← Int.tdiv_eq_ediv_of_nonneg (by omega), Int.neg_tdiv, Int.neg_neg]
    rfl
  · exact .inl ⟨hnonneg, Int.tdiv_eq_ediv_of_nonneg hnonneg⟩

theorem natAbs_periodNumerator_le (hheight : height ≤ Height.max) (hlow : 0 ≤ firstHalvingHeight net.network blossom)
    (hhigh : firstHalvingHeight net.network blossom ≤ Height.max) (hne : periodInterval net.network ≠ 0)
    (hsign : 0 ≤ periodNumerator net.network blossom height * periodInterval net.network) :
    (periodNumerator net.network blossom height).natAbs ≤
      Height.max + net.network.postBlossomHalvingInterval.natAbs := by
  rw [Height.max] at *
  rcases periodInterval_cases net.network with ⟨hpost, hinterval⟩ | ⟨hpost, hinterval⟩
  · have hnonneg : 0 ≤ periodNumerator net.network blossom height :=
      nonneg_of_mul_nonneg_left hsign (by omega)
    rw [periodNumerator] at hnonneg ⊢
    omega
  · have hnonpos : periodNumerator net.network blossom height ≤ 0 := by
      by_contra hpos
      have := mul_neg_of_pos_of_neg (Int.not_le.1 hpos) (by omega : periodInterval net.network < 0)
      omega
    rw [periodNumerator] at hnonpos ⊢
    omega

theorem addressPeriod_lt (hheight : height ≤ Height.max) (h : PeriodDefined net.network blossom height) :
    addressPeriod net.network blossom height < 2 ^ 32 - 1 := by
  obtain ⟨hlow, hhigh, hne, hsign⟩ := h
  have hinterval : (periodInterval net.network).natAbs = net.network.postBlossomHalvingInterval.natAbs / 48 :=
    Int.natAbs_tdiv _ _
  have hpos : 0 < (periodInterval net.network).natAbs := Int.natAbs_pos.2 hne
  rw [addressPeriod, Nat.div_lt_iff_lt_mul hpos]
  rcases hsign with hsign | hsign
  · omega
  · have hle := natAbs_periodNumerator_le hheight hlow hhigh hne hsign
    rw [Height.max] at hle
    omega

theorem fundingStreamAddressPeriod_eq_ok (hp : Parameters net blossom) (hheight : height ≤ Height.max) {period : Nat} :
    (fundingStreamAddressPeriod height net.network : Exec ε Nat) = .ok period ↔
      PeriodDefined net.network blossom height ∧ period = addressPeriod net.network blossom height := by
  have hinterval : ∀ v : Int, I64.Fits v → (I64.div v 48 : Exec ε Int) = .ok (v.tdiv 48) := by
    intro v ⟨hlow, hhigh⟩
    have habs : (v.tdiv 48).natAbs = v.natAbs / 48 := Int.natAbs_tdiv v 48
    rw [I64.div, if_neg (by decide), I64.arith, if_pos ⟨by omega, by omega⟩]
  constructor
  · intro h
    obtain ⟨first, hfirst, h⟩ := bind_eq_ok.1 h
    obtain ⟨hlow, hhigh, hfirst⟩ := hp.heightForFirstHalving_eq_ok.1 hfirst
    rw [hfirst] at h
    obtain ⟨total, htotal, h⟩ := bind_eq_ok.1 h
    obtain ⟨interval, hdiv, h⟩ := bind_eq_ok.1 h
    rw [Network.fundingStreamAddressChangeInterval, hinterval _ hp.fits] at hdiv
    cases hdiv
    rw [I64.arith] at htotal
    split at htotal
    · cases htotal
      have hpost := hp.post_bounds hlow hhigh
      rw [Height.max] at hheight hhigh
      obtain ⟨hquotient, -, hperiod⟩ := (I64.quotient_eq_ok (by omega)).1 h
      exact ⟨⟨hlow, by rw [Height.max]; exact hhigh, hquotient⟩, hperiod⟩
    · cases htotal
  · rintro ⟨hdefined, rfl⟩
    have hlt := addressPeriod_lt hheight hdefined
    obtain ⟨hlow, hhigh, hquotient⟩ := hdefined
    have hpost := hp.post_bounds hlow hhigh
    refine bind_eq_ok.2 ⟨(firstHalvingHeight net.network blossom).toNat, hp.heightForFirstHalving_eq_ok.2
      ⟨hlow, hhigh, Int.toNat_of_nonneg hlow⟩, ?_⟩
    rw [Height.max] at hheight hhigh
    have htotal : I64.Fits (periodNumerator net.network blossom height) := by
      rw [periodNumerator]
      exact ⟨by omega, by omega⟩
    rw [Int.toNat_of_nonneg hlow]
    refine bind_eq_ok.2 ⟨_, if_pos htotal, bind_eq_ok.2 ⟨_, hinterval _ hp.fits, ?_⟩⟩
    refine (I64.quotient_eq_ok ?_).2 ⟨hquotient, ?_, rfl⟩
    · omega
    · exact Nat.lt_of_lt_of_le hlt (by decide)

theorem addressPeriod_mono (hpost : 0 < net.network.postBlossomHalvingInterval) {earlier : Nat} (hle : earlier ≤ height)
    (hearlier : PeriodDefined net.network blossom earlier) :
    addressPeriod net.network blossom earlier ≤ addressPeriod net.network blossom height := by
  obtain ⟨-, -, hne, hsign⟩ := hearlier
  rcases periodInterval_cases net.network with ⟨-, hinterval⟩ | ⟨hneg, -⟩
  · rcases hsign with hsign | hsign
    · rw [addressPeriod, Nat.div_eq_of_lt hsign]
      exact Nat.zero_le _
    · have hnonneg : 0 ≤ periodNumerator net.network blossom earlier := nonneg_of_mul_nonneg_left hsign (by omega)
      refine Nat.div_le_div_right ?_
      simp only [periodNumerator] at hnonneg ⊢
      omega
  · omega

theorem addressPeriod_anti (hpost : net.network.postBlossomHalvingInterval < 0) {earlier : Nat} (hle : earlier ≤ height)
    (hlater : PeriodDefined net.network blossom height) :
    addressPeriod net.network blossom height ≤ addressPeriod net.network blossom earlier := by
  obtain ⟨-, -, hne, hsign⟩ := hlater
  rcases periodInterval_cases net.network with ⟨hnonneg, -⟩ | ⟨-, hinterval⟩
  · omega
  · rcases hsign with hsign | hsign
    · rw [addressPeriod, Nat.div_eq_of_lt hsign]
      exact Nat.zero_le _
    · have hnonpos : periodNumerator net.network blossom height ≤ 0 := by
        by_contra hpos
        have := mul_neg_of_pos_of_neg (Int.not_le.1 hpos) (by omega : periodInterval net.network < 0)
        omega
      refine Nat.div_le_div_right ?_
      simp only [periodNumerator] at hnonpos ⊢
      omega

end Parameters

end Zebra
