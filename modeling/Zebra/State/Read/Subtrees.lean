import Zebra.State.Chain
import Zebra.State.ZebraDb

namespace Zebra.Read

open Lib Std

/-- `std::ops::Bound` -/
inductive Bound where
  | included (index : Nat)
  | excluded (index : Nat)
  | unbounded
deriving DecidableEq

/-- The first index of a range, which is a `u16`. -/
def Bound.startIndex : Bound → Nat
  | .included index => index
  | .excluded index => index + 1
  | .unbounded => 0

/-- `BTreeMap::range` panics on all other ranges. -/
def Bound.Ordered : Bound → Bound → Prop
  | .excluded start, .excluded stop => start < stop
  | .included start, .included stop | .included start, .excluded stop | .excluded start, .included stop => start ≤ stop
  | .unbounded, _ | _, .unbounded => True

instance : (start stop : Bound) → Decidable (start.Ordered stop)
  | .excluded _, .excluded _ => inferInstanceAs (Decidable (_ < _))
  | .included _, .included _ | .included _, .excluded _ | .excluded _, .included _ => inferInstanceAs (Decidable (_ ≤ _))
  | .unbounded, _ | .included _, .unbounded | .excluded _, .unbounded => isTrue trivial

structure SubtreeRange where
  start : Bound
  stop : Bound
  fits : start.startIndex < 2 ^ 16
  ordered : start.Ordered stop

namespace SubtreeRange

def startIndex (range : SubtreeRange) : Nat := range.start.startIndex

def contains (range : SubtreeRange) (index : Nat) : Bool :=
  range.startIndex ≤ index &&
    match range.stop with
    | .included stop => index ≤ stop
    | .excluded stop => index < stop
    | .unbounded => true

end SubtreeRange

def subtreesInRange (subtrees : Subtrees) (range : SubtreeRange) : Subtrees := subtrees.filter fun index _ => range.contains index

/-- The loop over the subtrees of the chain, which stops at the first one that is different. -/
def addChainSubtrees : Subtrees → List (Nat × NoteCommitmentSubtreeData) → Subtrees
  | dbResults, [] => dbResults
  | dbResults, (index, subtree) :: rest =>
    match dbResults[index]? with
    | none => addChainSubtrees (dbResults.insert index subtree) rest
    | some dbSubtree => if subtree ≠ dbSubtree then dbResults else addChainSubtrees dbResults rest

def fromStartIndex (range : SubtreeRange) (results : Subtrees) : Subtrees := if range.startIndex ∈ results then results else ∅

def subtrees (chain : Option Subtrees) (disk : Subtrees) (range : SubtreeRange) : Subtrees :=
  match chain.map (subtreesInRange · range) with
  | some chainResults =>
    if range.startIndex ∈ chainResults then chainResults
    else fromStartIndex range (addChainSubtrees (subtreesInRange disk range) chainResults.toList)
  | none => fromStartIndex range (subtreesInRange disk range)

def saplingSubtrees (chain : Option Chain) (db : ZebraDb) (range : SubtreeRange) : Subtrees :=
  subtrees (chain.map (·.inner.saplingSubtrees)) db.saplingNoteCommitmentSubtree range

def orchardSubtrees (chain : Option Chain) (db : ZebraDb) (range : SubtreeRange) : Subtrees :=
  subtrees (chain.map (·.inner.orchardSubtrees)) db.orchardNoteCommitmentSubtree range

end Zebra.Read
