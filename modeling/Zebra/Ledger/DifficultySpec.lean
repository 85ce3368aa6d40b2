import Mathlib.Data.Rat.Floor
import Zebra.State.Check.Difficulty

/-! Difficulty adjustment as the protocol specification states it, over the whole chain of
headers. The functions have the names of the specification. -/

namespace Zebra.DifficultySpec

open NetworkUpgrade (powAveragingWindow current)

abbrev Headers := List (Nat × Nat)

variable (net : Network) (headers : Headers)

def powLimit : Nat :=
  match net.variant with
  | .mainnet => 0x7ffff * 2 ^ 224
  | .defaultTestnet | .regtest | .configuredTestnet => net.testnetTargetDifficultyLimit

def nBits (i : Nat) : Nat := ((headers[i]?).map Prod.fst).getD 0

def nTime (i : Nat) : Nat := ((headers[i]?).map Prod.snd).getD 0

def toTarget (bits : Nat) : Nat := (CompactDifficulty.toExpanded bits).getD 0

def size (target : Nat) : Nat := if target = 0 then 0 else (target.log2 + 1 + 7) / 8

/-- The leading bytes of a target, with one byte less if they would look negative. -/
def toCompact (target : Nat) : Nat :=
  let mantissa := target * 256 ^ 3 / 256 ^ size target
  if mantissa < 2 ^ 23 then mantissa + 2 ^ 24 * size target else mantissa / 256 + 2 ^ 24 * (size target + 1)

def upTo (first last : Nat) : List Nat := List.range' first (last + 1 - first)

/-- `sorted(S)` at the position `⌈(length(S) + 1) / 2⌉`, where positions start at one. -/
def median (s : List Nat) : Nat := (s.insertionSort (· ≤ ·)).getD ((s.length + 1 + 1) / 2 - 1) 0

def mean (s : List Nat) : Rat := (s.sum : Rat) / s.length

def powTargetSpacing (height : Nat) : Nat := if current net height < .blossom then 150 else 75

def averagingWindowTimespan (height : Nat) : Nat := powAveragingWindow * powTargetSpacing net height

def minActualTimespan (height : Nat) : Int := averagingWindowTimespan net height * 84 / 100

def maxActualTimespan (height : Nat) : Int := averagingWindowTimespan net height * 132 / 100

/-- The heights are clamped at zero, so this is also defined below zero. -/
def medianTime (height : Int) : Nat :=
  median ((upTo (height - powMedianBlockSpan).toNat (height - 1).toNat).map (nTime headers))

def actualTimespan (height : Nat) : Int :=
  (medianTime headers height : Int) - medianTime headers (height - powAveragingWindow)

/-- The quotient is truncated towards zero. -/
def actualTimespanDamped (height : Nat) : Int :=
  averagingWindowTimespan net height +
    (actualTimespan headers height - averagingWindowTimespan net height).tdiv powDampingFactor

def actualTimespanBounded (height : Nat) : Int :=
  max (minActualTimespan net height) (min (maxActualTimespan net height) (actualTimespanDamped net headers height))

def meanTarget (height : Nat) : Rat :=
  if height ≤ powAveragingWindow then powLimit net
  else mean ((upTo (height - powAveragingWindow) (height - 1)).map fun i => toTarget (nBits headers i))

def threshold (height : Nat) : Nat :=
  if height = 0 then powLimit net
  else
    min (powLimit net) (⌊meanTarget net headers height / averagingWindowTimespan net height⌋₊ *
      (actualTimespanBounded net headers height).toNat)

/-- Blocks of test networks that come late have the easiest target. -/
def isMinDifficulty (height time : Nat) : Prop :=
  net.variant ≠ .mainnet ∧ 299188 ≤ height ∧ nTime headers (height - 1) + 6 * powTargetSpacing net height < time

instance (height time : Nat) : Decidable (isMinDifficulty net headers height time) :=
  inferInstanceAs (Decidable (_ ∧ _))

def thresholdBits (height time : Nat) : Nat :=
  toCompact (if isMinDifficulty net headers height time then powLimit net else threshold net headers height)

end Zebra.DifficultySpec
