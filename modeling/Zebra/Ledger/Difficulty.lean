import Mathlib.Algebra.Order.Floor.Semifield
import Zebra.Ledger.CompactTarget

namespace Zebra.Ledger

open Lib NetworkUpgrade Outcome

section

open DifficultySpec

variable {headers : Headers}

variable {first last : Nat} {ε : Type}

theorem map_upTo {α : Type} (f : Nat × Nat → α) (z : α) (headers : Headers) (hlast : last < headers.length) :
    (upTo first last).map (fun i => ((headers[i]?).map f).getD z) =
      ((headers.drop first).take (last + 1 - first)).map f := by
  refine List.ext_getElem ?_ ?_
  · simp only [upTo, List.length_map, List.length_range', List.length_take, List.length_drop]
    omega
  · intro i hi hi'
    simp only [upTo, List.length_map, List.length_range'] at hi
    have hin : first + i < headers.length := by omega
    simp [upTo, List.getElem?_eq_getElem hin]

theorem map_nTime (hlast : last < headers.length) :
    (upTo first last).map (nTime headers) = ((headers.drop first).take (last + 1 - first)).map Prod.snd :=
  map_upTo Prod.snd 0 headers hlast

theorem medianTime_perm {times times' : List Nat} (h : times.Perm times') :
    AdjustedDifficulty.medianTime times = median times' := by
  have hsort : times.insertionSort (· ≤ ·) = times'.insertionSort (· ≤ ·) :=
    (((List.perm_insertionSort _ _).trans h).trans (List.perm_insertionSort _ _).symm).eq_of_sortedLE
      List.sortedLE_insertionSort List.sortedLE_insertionSort
  rw [AdjustedDifficulty.medianTime, median, hsort, h.length_eq, show (times'.length + 1 + 1) / 2 - 1 = times'.length / 2 by
    omega]

structure Candidate (a : AdjustedDifficulty) (net : Network) (headers : Headers) (time : Nat) : Prop where
  candidateTime : a.candidateTime = time
  candidateHeight : a.candidateHeight = headers.length
  network : a.network = net
  thresholds : a.relevantDifficultyThresholds = (headers.reverse.take powAdjustmentBlockSpan).map Prod.fst
  times : a.relevantTimes = (headers.reverse.take powAdjustmentBlockSpan).map Prod.snd

variable {a : AdjustedDifficulty} {net : Network} {time : Nat}

theorem Candidate.ne_nil (h : Candidate a net headers time) : headers ≠ [] := by
  rintro rfl
  exact a.times_ne_nil h.times

theorem newFromHeaderTime_candidate (hne : headers ≠ []) (hmax : headers.length ≤ Height.max) :
    ∃ a, (AdjustedDifficulty.newFromHeaderTime time (headers.length - 1) net headers.reverse : Exec ε _) = .ok a ∧
      Candidate a net headers time := by
  have hpos := List.length_pos_iff.2 hne
  have hnext : Height.next (headers.length - 1) = some headers.length := Height.next_eq_some.2 ⟨by omega, hmax⟩
  have htimes : (headers.reverse.take powAdjustmentBlockSpan).map Prod.snd ≠ [] := by
    simp [powAdjustmentBlockSpan, powAveragingWindow, hne]
  rw [AdjustedDifficulty.newFromHeaderTime, hnext, expect_some, ok_bind]
  dsimp only
  rw [dif_pos htimes]
  exact ⟨_, rfl, rfl, rfl, rfl, rfl, rfl⟩

theorem Candidate.medianTimePast (h : Candidate a net headers time) :
    a.medianTimePast = medianTime headers headers.length := by
  have hpos := List.length_pos_iff.2 h.ne_nil
  have hfirst : ((headers.length : Int) - powMedianBlockSpan).toNat = headers.length - 11 := by
    simp only [powMedianBlockSpan]
    omega
  have hlast : ((headers.length : Int) - 1).toNat = headers.length - 1 := by omega
  rw [AdjustedDifficulty.medianTimePast, h.times, medianTime, hfirst, hlast]
  refine medianTime_perm ?_
  rw [map_nTime (by omega), ← List.map_take, List.take_take]
  refine List.Perm.map _ ?_
  rw [List.take_reverse, List.take_of_length_le (by simp; omega)]
  exact List.reverse_perm _

theorem Candidate.olderMedian (h : Candidate a net headers time) :
    a.olderMedian = medianTime headers ((headers.length : Int) - powAveragingWindow) := by
  have hpos := List.length_pos_iff.2 h.ne_nil
  have hwindow : powAveragingWindow = 17 := rfl
  have hspan : powMedianBlockSpan = 11 := rfl
  have hblocks : powAdjustmentBlockSpan = 28 := rfl
  have hlen : a.relevantTimes.length = min 28 headers.length := by
    rw [h.times, List.length_map, List.length_take, List.length_reverse, hblocks]
  rw [AdjustedDifficulty.olderMedian, medianTime]
  by_cases hlong : 17 < headers.length
  · have hfirst : ((headers.length : Int) - powAveragingWindow - powMedianBlockSpan).toNat = headers.length - 28 := by
      omega
    have hlast : ((headers.length : Int) - powAveragingWindow - 1).toNat = headers.length - 18 := by omega
    rw [if_pos (by omega), hfirst, hlast]
    refine medianTime_perm ?_
    rw [map_nTime (by omega), h.times, ← List.map_drop, ← List.map_take]
    refine List.Perm.map _ ?_
    rw [List.drop_take, List.drop_reverse, List.take_take, List.take_reverse, List.drop_take]
    refine (List.reverse_perm _).trans (.of_eq ?_)
    congr 1
    · simp only [List.length_take, hwindow, hspan, hblocks]
      omega
    · congr 1
      simp only [List.length_take, hwindow, hspan, hblocks]
      omega
  · -- the whole chain is in the list, so its last time is the one of the first block
    have hfirst : ((headers.length : Int) - powAveragingWindow - powMedianBlockSpan).toNat = 0 := by omega
    have hlast : ((headers.length : Int) - powAveragingWindow - 1).toNat = 0 := by omega
    rw [if_neg (by omega), hfirst, hlast]
    have htimes : a.relevantTimes = (headers.map Prod.snd).reverse := by
      rw [h.times, List.take_of_length_le (by rw [List.length_reverse]; omega), List.map_reverse]
    obtain ⟨b, rest, rfl⟩ := List.exists_cons_of_ne_nil h.ne_nil
    have hhead : a.relevantTimes.getLast a.times_ne_nil = b.2 := by simp [htimes]
    rw [hhead]
    simp [median, upTo, nTime]

theorem averagingWindowTimespan_eq (net : Network) (height : Nat) :
    averagingWindowTimespanForHeight net height = DifficultySpec.averagingWindowTimespan net height := by
  rw [averagingWindowTimespanForHeight, NetworkUpgrade.averagingWindowTimespan, DifficultySpec.averagingWindowTimespan,
    powTargetSpacing, Nat.mul_comm]
  cases current net height <;> rfl

theorem Candidate.medianTimespanBounded (h : Candidate a net headers time) :
    a.medianTimespanBounded = actualTimespanBounded net headers headers.length := by
  have hmin : (DifficultySpec.averagingWindowTimespan net headers.length * (100 - powMaxAdjustUpPercent)).tdiv 100 =
      minActualTimespan net headers.length :=
    Int.tdiv_eq_ediv_of_nonneg (by simp only [powMaxAdjustUpPercent]; omega)
  have hmax : (DifficultySpec.averagingWindowTimespan net headers.length * (100 + powMaxAdjustDownPercent)).tdiv 100 =
      maxActualTimespan net headers.length :=
    Int.tdiv_eq_ediv_of_nonneg (by simp only [powMaxAdjustDownPercent]; omega)
  simp only [AdjustedDifficulty.medianTimespanBounded, AdjustedDifficulty.medianTimespan, h.medianTimePast, h.olderMedian,
    h.network, h.candidateHeight, averagingWindowTimespan_eq, hmin, hmax]
  rfl

def windowTargets (headers : Headers) : List Nat :=
  (upTo (headers.length - powAveragingWindow) (headers.length - 1)).map fun i => toTarget (nBits headers i)

theorem totalDifficulty_eq {thresholds : List Nat}
    (hvalid : ∀ bits ∈ thresholds, CompactDifficulty.toExpanded bits ≠ none) :
    (AdjustedDifficulty.totalDifficulty thresholds : Exec ε Nat) =
      if (thresholds.map toTarget).sum < 2 ^ 256 then .ok (thresholds.map toTarget).sum
      else Outcome.panic .u256Overflow := by
  suffices h : ∀ total < 2 ^ 256, thresholds.foldlM (fun total compact => do
      let expanded ← expect (CompactDifficulty.toExpanded compact) .previousThreshold
      u256 (total + expanded)) total = (if total + (thresholds.map toTarget).sum < 2 ^ 256
        then .ok (total + (thresholds.map toTarget).sum) else Outcome.panic .u256Overflow : Exec ε Nat) by
    have hzero := h 0 (Nat.two_pow_pos _)
    rw [Nat.zero_add] at hzero
    exact hzero
  induction thresholds with
  | nil =>
    intro total htotal
    rw [List.foldlM_nil, List.map_nil, List.sum_nil, Nat.add_zero, if_pos htotal]
    rfl
  | cons bits thresholds ih =>
    intro total htotal
    obtain ⟨hbits, hrest⟩ := List.forall_mem_cons.1 hvalid
    obtain ⟨target, htarget⟩ := Option.ne_none_iff_exists'.1 hbits
    have hto : toTarget bits = target := by rw [toTarget, htarget, Option.getD_some]
    rw [List.foldlM_cons, htarget, expect_some, ok_bind, List.map_cons, List.sum_cons, hto,
      ← Nat.add_assoc]
    by_cases hfits : total + target < 2 ^ 256
    · rw [u256, check, if_pos hfits, ok_bind, pure_eq_ok, ok_bind, ih hrest _ hfits]
    · rw [u256, check, if_neg hfits, if_neg (by omega), panic_bind, panic_bind]

theorem targetDifficultyLimit_eq (net : Network) : (net.targetDifficultyLimit : Exec ε Nat) = .ok (powLimit net) := by
  rw [Network.targetDifficultyLimit, powLimit]
  cases net.variant with
  | mainnet =>
    have hbits : DifficultySpec.toCompact (2 ^ 243 - 1) = 0x1f07ffff := by decide +kernel
    have hcompact : (ExpandedDifficulty.toCompact (2 ^ 243 - 1) : Exec ε Nat) = .ok 0x1f07ffff := by
      rw [toCompact_eq (by decide) (by decide), hbits]
    have hexpanded : CompactDifficulty.toExpanded 0x1f07ffff = some (0x7ffff * 2 ^ 224) := by decide +kernel
    dsimp only
    rw [hcompact, ok_bind, hexpanded, expect_some]
  | defaultTestnet => rfl
  | regtest => rfl
  | configuredTestnet => rfl

theorem meanTargetDifficulty_eq
    (hvalid : ∀ bits ∈ a.relevantDifficultyThresholds.take powAveragingWindow, CompactDifficulty.toExpanded bits ≠ none) :
    (a.meanTargetDifficulty : Exec ε Nat) = if powAveragingWindow ≤ a.relevantDifficultyThresholds.length then
        if ((a.relevantDifficultyThresholds.take powAveragingWindow).map toTarget).sum < 2 ^ 256
        then .ok (((a.relevantDifficultyThresholds.take powAveragingWindow).map toTarget).sum / powAveragingWindow)
        else Outcome.panic .u256Overflow else .ok (powLimit a.network):= by
  rw [AdjustedDifficulty.meanTargetDifficulty, targetDifficultyLimit_eq, totalDifficulty_eq hvalid]
  split_ifs <;> rfl

theorem thresholdBits_of_mean {mean : Nat} (hmean : (a.meanTargetDifficulty : Exec ε Nat) = .ok mean)
    (hlimit : 0 < powLimit a.network ∧ powLimit a.network < 2 ^ 256) {product : Nat}
    (hproduct : mean / averagingWindowTimespanForHeight a.network a.candidateHeight * a.medianTimespanBounded.toNat =
      product) : (a.thresholdBits : Exec ε Nat) = if 2 ^ 256 ≤ product then Outcome.panic .u256Overflow
      else if product = 0 then Outcome.panic .zeroDifficulty
      else .ok (DifficultySpec.toCompact (min (powLimit a.network) product)) := by
  rw [AdjustedDifficulty.thresholdBits, hmean, ok_bind]
  dsimp only
  rw [hproduct, targetDifficultyLimit_eq, u256, check]
  by_cases hfits : product < 2 ^ 256
  · rw [if_pos hfits, if_neg (Nat.not_le.2 hfits)]
    change ExpandedDifficulty.toCompact (min (powLimit a.network) product) = _
    by_cases hzero : product = 0
    · rw [if_pos hzero, hzero, Nat.min_zero]
      rfl
    · rw [if_neg hzero, toCompact_eq (by omega) (by omega)]
  · rw [if_neg hfits, if_pos (Nat.not_lt.1 hfits)]
    rfl

theorem sum_windowTargets (hne : headers ≠ []) :
    (((headers.reverse.take powAveragingWindow).map Prod.fst).map toTarget).sum = (windowTargets headers).sum := by
  have hpos := List.length_pos_iff.2 hne
  have hslice : windowTargets headers =
      ((headers.drop (headers.length - powAveragingWindow)).map Prod.fst).map toTarget := by
    have hbits : (upTo (headers.length - powAveragingWindow) (headers.length - 1)).map (nBits headers) = _ :=
      map_upTo Prod.fst 0 headers (by omega)
    rw [List.take_of_length_le (by rw [List.length_drop]; omega)] at hbits
    rw [← hbits, List.map_map]
    rfl
  rw [hslice, List.take_reverse]
  exact (((List.reverse_perm _).map _).map _).sum_eq

/-- What the code averages: the limit if there are fewer than 17 blocks. -/
def averagedTarget (net : Network) (headers : Headers) : Nat :=
  if headers.length < powAveragingWindow then powLimit net else (windowTargets headers).sum / powAveragingWindow

/-- From height 17 on the targets are added up, and their sum has to fit. -/
def SumFits (headers : Headers) : Prop :=
  powAveragingWindow ≤ headers.length → (windowTargets headers).sum < 2 ^ 256

instance (headers : Headers) : Decidable (SumFits headers) := inferInstanceAs (Decidable (_ → _))

theorem Candidate.meanTargetDifficulty (h : Candidate a net headers time)
    (hvalid : ∀ b ∈ headers.reverse.take powAdjustmentBlockSpan, CompactDifficulty.toExpanded b.1 ≠ none) :
    (a.meanTargetDifficulty : Exec ε Nat) =
      if SumFits headers then .ok (averagedTarget net headers) else Outcome.panic .u256Overflow := by
  have hwindow : powAveragingWindow = 17 := rfl
  have hblocks : powAdjustmentBlockSpan = 28 := rfl
  have hlen : a.relevantDifficultyThresholds.length = min 28 headers.length := by
    rw [h.thresholds, List.length_map, List.length_take, List.length_reverse, hblocks]
  have hlong : powAveragingWindow ≤ a.relevantDifficultyThresholds.length ↔ powAveragingWindow ≤ headers.length := by
    omega
  have htake : a.relevantDifficultyThresholds.take powAveragingWindow =
      (headers.reverse.take powAveragingWindow).map Prod.fst := by
    rw [h.thresholds, ← List.map_take, List.take_take, Nat.min_eq_left (by omega)]
  have hbits : ∀ bits ∈ a.relevantDifficultyThresholds.take powAveragingWindow,
      CompactDifficulty.toExpanded bits ≠ none := by
    intro bits hmem
    rw [htake] at hmem
    obtain ⟨b, hb, rfl⟩ := List.mem_map.1 hmem
    exact hvalid b ((List.take_subset_take_left _ (by decide)) hb)
  rw [meanTargetDifficulty_eq hbits, htake, sum_windowTargets h.ne_nil, h.network, averagedTarget]
  by_cases hmany : powAveragingWindow ≤ headers.length
  · have hsum : SumFits headers ↔ (windowTargets headers).sum < 2 ^ 256 := ⟨fun hall => hall hmany, fun hfits _ => hfits⟩
    rw [if_pos (hlong.2 hmany), if_neg (Nat.not_lt.2 hmany)]
    simp only [hsum]
  · have hsum : SumFits headers := fun hle => absurd hle hmany
    rw [if_neg (mt hlong.1 hmany), if_pos hsum, if_pos (Nat.not_le.1 hmany)]

def scaled (net : Network) (headers : Headers) (mean : Nat) : Nat :=
  mean / DifficultySpec.averagingWindowTimespan net headers.length *
    (actualTimespanBounded net headers headers.length).toNat

/-- The target before it is bounded by the limit, as the code computes it. -/
def product (net : Network) (headers : Headers) : Nat := scaled net headers (averagedTarget net headers)

theorem mean_windowTargets (hlong : powAveragingWindow < headers.length) :
    mean (windowTargets headers) = ((windowTargets headers).sum : Rat) / (powAveragingWindow : Nat) := by
  have hlen : (windowTargets headers).length = powAveragingWindow := by
    rw [windowTargets, List.length_map, upTo, List.length_range']
    omega
  rw [mean, hlen]

theorem threshold_eq (hne : headers ≠ []) :
    threshold net headers headers.length = min (powLimit net) (scaled net headers
      (if headers.length ≤ powAveragingWindow then powLimit net
        else (windowTargets headers).sum / powAveragingWindow)) := by
  have hpos := List.length_pos_iff.2 hne
  rw [threshold, if_neg (by omega), meanTarget, scaled]
  congr 2
  by_cases hshort : headers.length ≤ powAveragingWindow
  · rw [if_pos hshort, if_pos hshort, Nat.floor_div_eq_div]
  · rw [if_neg hshort, if_neg hshort, ← windowTargets, mean_windowTargets (by omega), Nat.floor_div_natCast,
      Nat.floor_div_eq_div]

theorem averagedTarget_eq (hheight : headers.length ≠ powAveragingWindow) :
    averagedTarget net headers = if headers.length ≤ powAveragingWindow then powLimit net
      else (windowTargets headers).sum / powAveragingWindow := by
  rw [averagedTarget]
  by_cases hshort : headers.length < powAveragingWindow
  · rw [if_pos hshort, if_pos hshort.le]
  · rw [if_neg hshort, if_neg (by omega)]

section

variable (h : Candidate a net headers time)
include h

theorem Candidate.thresholdBits
    (hvalid : ∀ b ∈ headers.reverse.take powAdjustmentBlockSpan, CompactDifficulty.toExpanded b.1 ≠ none)
    (hlimit : 0 < powLimit net ∧ powLimit net < 2 ^ 256) : (a.thresholdBits : Exec ε Nat) =
      if ¬ SumFits headers ∨ 2 ^ 256 ≤ product net headers then Outcome.panic .u256Overflow
      else if product net headers = 0 then Outcome.panic .zeroDifficulty
      else .ok (DifficultySpec.toCompact (min (powLimit net) (product net headers))) := by
  by_cases hsum : SumFits headers
  · have hmean := h.meanTargetDifficulty (ε := ε) hvalid
    rw [if_pos hsum] at hmean
    have hproduct : averagedTarget net headers / averagingWindowTimespanForHeight a.network a.candidateHeight *
        a.medianTimespanBounded.toNat = product net headers := by
      rw [h.network, h.candidateHeight, h.medianTimespanBounded, averagingWindowTimespan_eq, product, scaled]
    rw [thresholdBits_of_mean hmean (h.network ▸ hlimit) hproduct, h.network]
    simp only [hsum, not_true_eq_false, false_or]
  · rw [AdjustedDifficulty.thresholdBits, h.meanTargetDifficulty hvalid, if_neg hsum, if_pos (.inl hsum)]
    rfl

theorem Candidate.head_times :
    a.relevantTimes.head a.times_ne_nil = nTime headers (headers.length - 1) := by
  have hhead : a.relevantTimes.head? = (headers.getLast?).map Prod.snd := by
    rw [h.times, List.head?_map, List.head?_take, if_neg (by decide), List.head?_reverse]
  rw [List.head?_eq_some_head a.times_ne_nil, List.getLast?_eq_getElem?] at hhead
  rw [nTime, ← hhead, Option.getD_some]

theorem Candidate.isTestnetMinDifficultyBlock_iff :
    isTestnetMinDifficultyBlock a.network a.candidateHeight a.candidateTime (a.relevantTimes.head a.times_ne_nil) = true ↔
      isMinDifficulty net headers headers.length time := by
  have hspacing : (current net headers.length).targetSpacing = powTargetSpacing net headers.length := by
    rw [powTargetSpacing]
    cases current net headers.length <;> rfl
  rw [h.network, h.candidateHeight, h.candidateTime, h.head_times, isTestnetMinDifficultyBlock,
    minimumDifficultySpacingForHeight, isMinDifficulty]
  have hstart : testnetMinimumDifficultyStartHeight = 299188 := rfl
  have hgap : testnetMinimumDifficultyGapMultiplier = 6 := rfl
  cases hvariant : net.variant with
  | mainnet => simp
  | defaultTestnet | regtest | configuredTestnet =>
    by_cases hlow : headers.length < testnetMinimumDifficultyStartHeight
    · rw [if_pos hlow]
      simp only [Bool.false_eq_true, false_iff]
      omega
    · rw [if_neg hlow, hspacing, hgap]
      simp only [decide_eq_true_eq, ne_eq, reduceCtorEq, not_false_eq_true, true_and]
      omega

theorem Candidate.expectedDifficultyThreshold
    (hlimit : 0 < powLimit net ∧ powLimit net < 2 ^ 256) : (a.expectedDifficultyThreshold : Exec ε Nat) =
      if isMinDifficulty net headers headers.length time then .ok (DifficultySpec.toCompact (powLimit net))
      else a.thresholdBits := by
  rw [AdjustedDifficulty.expectedDifficultyThreshold]
  by_cases hmin : isMinDifficulty net headers headers.length time
  · have hnetwork : net.isATestNetwork = true := decide_eq_true hmin.1
    rw [if_pos (h.isTestnetMinDifficultyBlock_iff.2 hmin), if_pos hmin, h.network, hnetwork, targetDifficultyLimit_eq]
    exact toCompact_eq hlimit.1 hlimit.2
  · rw [if_neg (mt h.isTestnetMinDifficultyBlock_iff.1 hmin), if_neg hmin]

end

end

end Zebra.Ledger
