import Zebra.Ledger.Difficulty
import Zebra.Properties.SubsidyTotal

namespace Zebra.Properties

open Lib Ledger DifficultySpec Outcome
open NetworkUpgrade (powAveragingWindow averagingWindowTimespanForHeight isTestnetMinDifficultyBlock)

variable {ε : Type} {a : AdjustedDifficulty}

def boundedTimespan (window : Nat) (times : List Nat) : Int :=
  let newer : Int := median (times.take powMedianBlockSpan)
  let older : Int :=
    if powAveragingWindow < times.length then median ((times.drop powAveragingWindow).take powMedianBlockSpan)
    else times.getLast?.getD 0
  max (window * 84 / 100) (min (window * 132 / 100) (window + (newer - older - window).tdiv 4))

theorem medianTimespanBounded_eq (a : AdjustedDifficulty) : a.medianTimespanBounded =
      boundedTimespan (averagingWindowTimespanForHeight a.network a.candidateHeight) a.relevantTimes := by
  have hmin : ∀ window : Nat, ((window : Int) * (100 - powMaxAdjustUpPercent)).tdiv 100 = window * 84 / 100 :=
    fun window => Int.tdiv_eq_ediv_of_nonneg (by simp only [powMaxAdjustUpPercent]; omega)
  have hmax : ∀ window : Nat, ((window : Int) * (100 + powMaxAdjustDownPercent)).tdiv 100 = window * 132 / 100 :=
    fun window => Int.tdiv_eq_ediv_of_nonneg (by simp only [powMaxAdjustDownPercent]; omega)
  have holder : (a.olderMedian : Int) =
      if powAveragingWindow < a.relevantTimes.length
      then (median ((a.relevantTimes.drop powAveragingWindow).take powMedianBlockSpan) : Int)
      else a.relevantTimes.getLast?.getD 0 := by
    rw [AdjustedDifficulty.olderMedian, List.getLast?_eq_some_getLast a.times_ne_nil, Option.getD_some]
    split
    · rw [medianTime_perm (.refl _)]
    · rfl
  simp only [AdjustedDifficulty.medianTimespanBounded, AdjustedDifficulty.medianTimespan, boundedTimespan, hmin, hmax,
    holder, AdjustedDifficulty.medianTimePast, medianTime_perm (.refl _), powDampingFactor]

variable {window mean timespan : Nat}

theorem boundedTimespan_bounds (hwindow : 100 ≤ window) (times : List Nat) :
    0 < (boundedTimespan window times).toNat ∧ (boundedTimespan window times).toNat ≤ 2 * window := by
  simp only [boundedTimespan]
  generalize (window : Int) + Int.tdiv _ _ = damped
  omega

theorem averagingWindowTimespan_ge (net : Network) (height : Nat) :
    100 ≤ averagingWindowTimespanForHeight net height := by
  rw [averagingWindowTimespan_eq, DifficultySpec.averagingWindowTimespan, powTargetSpacing]
  split <;> decide

/-- With 17 thresholds, their targets do not add up to more than 256 bits or to less than the
window. With fewer, the limit is large enough to be divided and small enough to be scaled. -/
def Adjusts (a : AdjustedDifficulty) : Prop :=
  let window := averagingWindowTimespanForHeight a.network a.candidateHeight
  if powAveragingWindow ≤ a.relevantDifficultyThresholds.length then
    powAveragingWindow * window ≤ ((a.relevantDifficultyThresholds.take powAveragingWindow).map toTarget).sum ∧
      ((a.relevantDifficultyThresholds.take powAveragingWindow).map toTarget).sum < 2 ^ 256
  else window ≤ powLimit a.network ∧ powLimit a.network / window * (boundedTimespan window a.relevantTimes).toNat < 2 ^ 256

instance (a : AdjustedDifficulty) : Decidable (Adjusts a) := by
  delta Adjusts
  infer_instance

theorem scaled_le (h : timespan ≤ 2 * window) : mean / window * timespan ≤ 2 * mean :=
  calc mean / window * timespan ≤ mean / window * (2 * window) := Nat.mul_le_mul_left _ h
    _ = 2 * (mean / window * window) := Nat.mul_left_comm _ _ _
    _ ≤ 2 * mean := Nat.mul_le_mul_left _ (Nat.div_mul_le_self _ _)

theorem scaled_eq_zero (hwindow : 0 < window) (h : 0 < timespan) : mean / window * timespan = 0 ↔ mean < window:= by
  rw [Nat.mul_eq_zero, Nat.div_eq_zero_iff_lt hwindow, or_iff_left (by omega)]

theorem thresholdBits_succeeds_of_mean (hlimit : 0 < powLimit a.network ∧ powLimit a.network < 2 ^ 256)
    (hmean : (a.meanTargetDifficulty : Exec ε Nat) = .ok mean)
    (hwindow : averagingWindowTimespanForHeight a.network a.candidateHeight = window) :
    (a.thresholdBits : Exec ε Nat).Succeeds ↔
      window ≤ mean ∧ mean / window * (boundedTimespan window a.relevantTimes).toNat < 2 ^ 256 := by
  have hge := averagingWindowTimespan_ge a.network a.candidateHeight
  rw [hwindow] at hge
  have hzero : mean / window * (boundedTimespan window a.relevantTimes).toNat = 0 ↔ mean < window :=
    scaled_eq_zero (by omega) (boundedTimespan_bounds hge _).1
  rw [thresholdBits_of_mean hmean hlimit (by rw [medianTimespanBounded_eq, hwindow])]
  split_ifs with hlarge hnone
  · exact iff_of_false (fun ⟨_, hok⟩ => panic_ne_ok _ _ hok) fun h => Nat.not_lt.2 hlarge h.2
  · exact iff_of_false (fun ⟨_, hok⟩ => panic_ne_ok _ _ hok) fun h => Nat.not_lt.2 h.1 (hzero.1 hnone)
  · exact iff_of_true ⟨_, rfl⟩ ⟨Nat.not_lt.1 (mt hzero.2 hnone), Nat.not_le.1 hlarge⟩

theorem thresholdBits_succeeds_iff
    (hvalid : ∀ bits ∈ a.relevantDifficultyThresholds, CompactDifficulty.toExpanded bits ≠ none)
    (hlimit : 0 < powLimit a.network ∧ powLimit a.network < 2 ^ 256) :
    (a.thresholdBits : Exec ε Nat).Succeeds ↔ Adjusts a := by
  have hmean := meanTargetDifficulty_eq (ε := ε) (a := a) fun bits hmem => hvalid bits (List.mem_of_mem_take hmem)
  have hge := averagingWindowTimespan_ge a.network a.candidateHeight
  rw [Adjusts]
  by_cases hmany : powAveragingWindow ≤ a.relevantDifficultyThresholds.length
  · rw [if_pos hmany] at hmean ⊢
    by_cases hfits : ((a.relevantDifficultyThresholds.take powAveragingWindow).map toTarget).sum < 2 ^ 256
    · rw [if_pos hfits] at hmean
      rw [thresholdBits_succeeds_of_mean hlimit hmean rfl, Nat.le_div_iff_mul_le (by decide), Nat.mul_comm]
      refine and_congr_right fun _ => iff_of_true ?_ hfits
      -- the mean is far below the sum, so it may double
      apply (scaled_le (boundedTimespan_bounds hge _).2).trans_lt
      rw [show powAveragingWindow = 17 from rfl] at hfits ⊢
      omega
    · rw [if_neg hfits] at hmean
      refine iff_of_false ?_ fun h => hfits h.2
      rintro ⟨bits, hok⟩
      rw [AdjustedDifficulty.thresholdBits, hmean] at hok
      exact panic_ne_ok _ _ hok
  · rw [if_neg hmany] at hmean ⊢
    exact thresholdBits_succeeds_of_mean hlimit hmean rfl

section

variable {k : TestnetConstants} {net : ConfiguredNetwork}

theorem accepted_powLimit (hnet : Accepted k net) :
    net.network.variant ≠ .mainnet ∧ powLimit net.network = net.network.testnetTargetDifficultyLimit ∧
      0 < powLimit net.network ∧ powLimit net.network < 2 ^ 256 := by
  obtain ⟨blossom, hp⟩ := hnet.parameters
  obtain ⟨compact, hcompact⟩ := hp.limit
  have hpow : net.network.variant ≠ .mainnet ∧ powLimit net.network = net.network.testnetTargetDifficultyLimit := by
    rcases hp.variant with ⟨hvariant, -⟩ | ⟨hvariant, -⟩
    all_goals
      rw [powLimit, hvariant]
      exact ⟨by decide, rfl⟩
  rw [hpow.2]
  exact ⟨hpow.1, rfl, toExpanded_bounds hcompact⟩

/-- The expected threshold is computed without overflow exactly for minimum difficulty blocks
and for contexts that adjust. -/
theorem expected_difficulty_succeeds_iff (hnet : Accepted k net) (ha : a.network = net.network)
    (hthresholds : ∀ bits ∈ a.relevantDifficultyThresholds, ∃ target, CompactDifficulty.toExpanded bits = some target ∧
      target ≤ net.network.testnetTargetDifficultyLimit) : (a.expectedDifficultyThreshold : Exec ε Nat).Succeeds ↔
      isTestnetMinDifficultyBlock a.network a.candidateHeight a.candidateTime
        (a.relevantTimes.head a.times_ne_nil) = true ∨ Adjusts a := by
  obtain ⟨hvariant, -, hlimit⟩ := accepted_powLimit hnet
  rw [← ha] at hvariant hlimit
  have hvalid : ∀ bits ∈ a.relevantDifficultyThresholds, CompactDifficulty.toExpanded bits ≠ none := by
    intro bits hmem
    obtain ⟨target, htarget, -⟩ := hthresholds bits hmem
    exact Option.ne_none_iff_exists'.2 ⟨target, htarget⟩
  rw [AdjustedDifficulty.expectedDifficultyThreshold]
  split
  · rename_i hmin
    have htest : a.network.isATestNetwork = true := decide_eq_true hvariant
    rw [check, if_pos htest, ok_bind, targetDifficultyLimit_eq, ok_bind,
      toCompact_eq hlimit.1 hlimit.2]
    exact iff_of_true ⟨_, rfl⟩ (.inl hmin)
  · rename_i hmin
    rw [thresholdBits_succeeds_iff hvalid hlimit, or_iff_right hmin]

end

def steadyContext (net : Network) (threshold : Nat) : AdjustedDifficulty where
  candidateTime := 28 * 75
  candidateHeight := 28
  network := net
  relevantDifficultyThresholds := List.replicate 28 threshold
  relevantTimes := (List.range 28).map fun i => 75 * (27 - i)
  times_ne_nil := by decide

def halfLimit : List BuilderCall :=
  [.activationHeights { canopy := some 1 }, .clearFundingStreams, .targetDifficultyLimit (2 ^ 255),
    .checkpoints (.default false)]

theorem halfLimit_accepted : ∃ net, Accepted sampleConstants net ∧ net.network.testnetTargetDifficultyLimit = 2 ^ 255 ∧
      ((steadyContext net.network 0x21008000).expectedDifficultyThreshold : Exec Empty Nat).Panics ∧
      Adjusts (steadyContext net.network 0x1f07ffff) := by
  have hbuild : (fun net => decide (net.network.testnetTargetDifficultyLimit = 2 ^ 255 ∧
      ((steadyContext net.network 0x21008000).expectedDifficultyThreshold : Exec Empty Nat).Panics ∧
        Adjusts (steadyContext net.network 0x1f07ffff))) <$> build halfLimit = .ok true := by
    decide +kernel
  obtain ⟨net, hnet, h⟩ := map_eq_ok.1 hbuild
  obtain ⟨b, hb, hnet⟩ := bind_eq_ok.1 hnet
  exact ⟨net, .configured hb hnet, of_decide_eq_true h⟩

/-- The targets of blocks that have the limit as their target do not add up. -/
theorem halfLimit_overflows : ∃ net, Accepted sampleConstants net ∧
      (∀ bits ∈ (steadyContext net.network 0x21008000).relevantDifficultyThresholds, ∃ target,
        CompactDifficulty.toExpanded bits = some target ∧ target ≤ net.network.testnetTargetDifficultyLimit) ∧
      ((steadyContext net.network 0x21008000).expectedDifficultyThreshold : Exec Empty Nat).Panics := by
  obtain ⟨net, hnet, hlimit, hpanics, -⟩ := halfLimit_accepted
  refine ⟨net, hnet, fun bits hmem => ⟨2 ^ 255, ?_, hlimit.ge⟩, hpanics⟩
  rw [List.eq_of_mem_replicate hmem]
  decide

theorem expected_difficulty_succeeds_sample : ∃ net, Accepted sampleConstants net ∧
      ((steadyContext net.network 0x1f07ffff).expectedDifficultyThreshold : Exec Empty Nat).Succeeds := by
  obtain ⟨net, hnet, hlimit, -, hadjusts⟩ := halfLimit_accepted
  refine ⟨net, hnet, (expected_difficulty_succeeds_iff hnet rfl fun bits hmem => ?_).2 (.inr hadjusts)⟩
  rw [List.eq_of_mem_replicate hmem, hlimit]
  exact ⟨0x7ffff * 2 ^ 224, by decide, by decide⟩

end Zebra.Properties
