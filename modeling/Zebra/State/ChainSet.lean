import Zebra.State.Chain

namespace Zebra

open Lib

/-! The set of chains is a `BTreeSet` of at most eleven chains: one leaf, kept in ascending
order and searched from its lowest chain up. -/

def maxNonFinalizedChainForks : Nat := 10

namespace ChainSet

variable {ε : Type}

def insert (c : Chain) : List Chain → Exec ε (List Chain)
  | [] => return [c]
  | d :: ds => do
    match ← c.cmp d with
    | .gt => return d :: (← insert c ds)
    | .eq => return d :: ds
    | .lt => return c :: d :: ds

def remove (c : Chain) : List Chain → Exec ε (List Chain)
  | [] => return []
  | d :: ds => do
    match ← c.cmp d with
    | .gt => return d :: (← remove c ds)
    | .eq => return ds
    | .lt => return d :: ds

def retainTips (hash : BlockHash) : List Chain → Exec ε (List Chain)
  | [] => return []
  | c :: cs => do
    let tip ← c.inner.nonFinalizedTipHash
    let cs ← retainTips hash cs
    return if tip ≠ hash then c :: cs else cs

def findTip (hash : BlockHash) : List Chain → Exec ε (Option Chain)
  | [] => return none
  | c :: cs => do
    if (← c.inner.nonFinalizedTipHash) = hash then return some c else findTip hash cs

variable [ScriptParsing]

def findFork (hash : BlockHash) : List Chain → Exec ε (Option Chain)
  | [] => return none
  | c :: cs => do
    match ← c.fork hash with
    | some c => return some c
    | none => findFork hash cs

end ChainSet

end Zebra
