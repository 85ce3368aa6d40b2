import Mathlib.Data.List.Sort
import Zebra.Block

namespace Zebra

open Lib Outcome

namespace NetworkUpgrade

def powAveragingWindow : Nat := 17

/-- Durations are in seconds. -/
def targetSpacing : NetworkUpgrade → Nat
  | genesis | beforeOverwinter | overwinter | sapling => 150
  | blossom | heartwood | canopy | nu5 | nu6 | nu6_1 | nu7 => 75

def averagingWindowTimespan (nu : NetworkUpgrade) : Nat := nu.targetSpacing * powAveragingWindow

def averagingWindowTimespanForHeight (net : Network) (height : Nat) : Nat := (current net height).averagingWindowTimespan

def testnetMinimumDifficultyGapMultiplier : Nat := 6

def testnetMinimumDifficultyStartHeight : Nat := 299188

def minimumDifficultySpacingForHeight (net : Network) (height : Nat) : Option Nat :=
  match net.variant with
  | .mainnet => none
  | .defaultTestnet | .regtest | .configuredTestnet =>
    if height < testnetMinimumDifficultyStartHeight then none
    else some ((current net height).targetSpacing * testnetMinimumDifficultyGapMultiplier)

/-- Block times are provided by miners, so the gap can be negative. -/
def isTestnetMinDifficultyBlock (net : Network) (blockHeight blockTime previousBlockTime : Nat) : Bool :=
  match minimumDifficultySpacingForHeight net blockHeight with
  | some minDifficultyGap => decide ((blockTime : Int) - previousBlockTime > minDifficultyGap)
  | none => false

end NetworkUpgrade

namespace Network

def isATestNetwork (net : Network) : Bool := net.variant ≠ .mainnet

def targetDifficultyLimit {ε : Type} (net : Network) : Exec ε Nat :=
  match net.variant with
  | .mainnet => do
    let compact ← ExpandedDifficulty.toCompact (2 ^ 243 - 1)
    expect (CompactDifficulty.toExpanded compact) .difficultyLimit
  | .defaultTestnet | .regtest | .configuredTestnet => return net.testnetTargetDifficultyLimit

end Network

def powMedianBlockSpan : Nat := 11

def powAdjustmentBlockSpan : Nat := NetworkUpgrade.powAveragingWindow + powMedianBlockSpan

def powDampingFactor : Int := 4

def powMaxAdjustUpPercent : Int := 16

def powMaxAdjustDownPercent : Int := 32

/-- The context of a candidate block: thresholds and times of the blocks before it, in
reverse height order. -/
structure AdjustedDifficulty where
  candidateTime : Nat
  candidateHeight : Nat
  network : Network
  relevantDifficultyThresholds : List Nat
  relevantTimes : List Nat
  times_ne_nil : relevantTimes ≠ []

namespace AdjustedDifficulty

variable {ε : Type}

def newFromHeaderTime (candidateHeaderTime previousBlockHeight : Nat) (net : Network) (context : List (Nat × Nat)) :
    Exec ε AdjustedDifficulty := do
  let candidateHeight ← expect (Height.next previousBlockHeight) .nextHeight
  let context := context.take powAdjustmentBlockSpan
  if h : context.map Prod.snd ≠ [] then
    return ⟨candidateHeaderTime, candidateHeight, net, context.map Prod.fst, context.map Prod.snd, h⟩
  else .panic .difficultyContext

def medianTime (times : List Nat) : Nat := (times.insertionSort (· ≤ ·)).getD (times.length / 2) 0

variable (a : AdjustedDifficulty)

def medianTimePast : Nat := medianTime (a.relevantTimes.take powMedianBlockSpan)

def olderMedian : Nat :=
  if NetworkUpgrade.powAveragingWindow < a.relevantTimes.length then
    medianTime ((a.relevantTimes.drop NetworkUpgrade.powAveragingWindow).take powMedianBlockSpan)
  else a.relevantTimes.getLast a.times_ne_nil

def medianTimespan : Int := (a.medianTimePast : Int) - a.olderMedian

/-- The damped timespan is truncated towards zero before it is bounded. -/
def medianTimespanBounded : Int :=
  let window : Int := NetworkUpgrade.averagingWindowTimespanForHeight a.network a.candidateHeight
  let dampedVariance := (a.medianTimespan - window).tdiv powDampingFactor
  let minMedianTimespan := (window * (100 - powMaxAdjustUpPercent)).tdiv 100
  let maxMedianTimespan := (window * (100 + powMaxAdjustDownPercent)).tdiv 100
  max minMedianTimespan (min maxMedianTimespan (window + dampedVariance))

def totalDifficulty (thresholds : List Nat) : Exec ε Nat :=
  thresholds.foldlM (fun total compact => do
    let expanded ← expect (CompactDifficulty.toExpanded compact) .previousThreshold
    u256 (total + expanded)) 0

def meanTargetDifficulty : Exec ε Nat :=
  if NetworkUpgrade.powAveragingWindow ≤ a.relevantDifficultyThresholds.length then do
    let total ← totalDifficulty (a.relevantDifficultyThresholds.take NetworkUpgrade.powAveragingWindow)
    return total / NetworkUpgrade.powAveragingWindow
  else a.network.targetDifficultyLimit

def thresholdBits : Exec ε Nat := do
  let mean ← a.meanTargetDifficulty
  let window := NetworkUpgrade.averagingWindowTimespanForHeight a.network a.candidateHeight
  let threshold ← u256 (mean / window * a.medianTimespanBounded.toNat)
  let limit ← a.network.targetDifficultyLimit
  ExpandedDifficulty.toCompact (min limit threshold)

def expectedDifficultyThreshold : Exec ε Nat :=
  if NetworkUpgrade.isTestnetMinDifficultyBlock a.network a.candidateHeight a.candidateTime
      (a.relevantTimes.head a.times_ne_nil) then do
    check a.network.isATestNetwork .minDifficultyNetwork
    let limit ← a.network.targetDifficultyLimit
    ExpandedDifficulty.toCompact limit
  else a.thresholdBits

end AdjustedDifficulty

end Zebra
