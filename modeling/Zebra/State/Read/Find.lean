import Zebra.State.ZebraDb
import Zebra.State.Chain

/-! Finding the blocks that a peer does not know. A chain is read from the non-finalized chain, if
there is one, and then from the finalized state. -/

namespace Zebra.Read

open Lib Outcome

variable {ε : Type} (chain : Option Chain) (db : ZebraDb)

def tip : Exec ε (Option (Nat × BlockHash)) :=
  match chain with
  | some chain => do
    let height ← chain.inner.nonFinalizedTipHeight
    let hash ← chain.inner.nonFinalizedTipHash
    return some (height, hash)
  | none => return db.tip

def tipHeight : Exec ε (Option Nat) := Option.map Prod.fst <$> tip chain db

def hashByHeight (height : Nat) : Option BlockHash :=
  (chain.bind fun chain => chain.inner.blocks[height]?.map (·.hash)).or db.hashByHeight[height]?

def chainContainsHash (hash : BlockHash) : Bool :=
  (chain.map fun chain => decide (hash ∈ chain.inner.heightByHash)).getD false || decide (hash ∈ db.heightByHash)

def heightByHash (hash : BlockHash) : Option Nat :=
  (chain.bind fun chain => chain.inner.heightByHash[hash]?).or db.heightByHash[hash]?

def maxBlockReorgHeight : Nat := 99

/-- The powers of two in the range of `u32`. -/
def locatorSteps : List Nat := (List.range 32).map (2 ^ ·)

/-- Descending heights from the tip, the distances of which double. -/
def blockLocatorHeights (tipHeight : Nat) : List Nat :=
  let minLocatorHeight := tipHeight - maxBlockReorgHeight
  let exponentialLocators := locatorSteps.filterMap fun step => if step ≤ tipHeight then some (tipHeight - step) else none
  (tipHeight :: exponentialLocators).takeWhile (fun height => minLocatorHeight < height) ++ [minLocatorHeight]

def blockLocator : Exec ε (Option (List BlockHash)) := do
  match ← tipHeight chain db with
  | none => return none
  | some tipHeight => return some ((blockLocatorHeights tipHeight).filterMap (hashByHeight chain db))

def findChainIntersection (knownBlocks : List BlockHash) : Option BlockHash :=
  if chain.isNone && db.hashByHeight.isEmpty then none else knownBlocks.find? (chainContainsHash chain db)

abbrev HeightRange := Nat × Nat

def emptyRange : HeightRange := (1, 0)

/-- `intersection_height` of a hash that is still in the chain, or of no hash. -/
def heightRange (chainTipHeight : Nat) (intersectionHeight : Option Nat) (stopHeight : Option Nat) (maxLen : Nat) :
    Exec ε HeightRange := do
  let (startHeight, maxHeight) ← match intersectionHeight with
    | some intersectionHeight => do
      check (intersectionHeight + maxLen < 2 ^ 32) .arithmetic
      pure (intersectionHeight + 1, intersectionHeight + maxLen)
    | none => pure (0, maxLen - 1)
  let finalHeight := min maxHeight chainTipHeight
  let finalHeight := (stopHeight.map fun stopHeight => min finalHeight stopHeight).getD finalHeight
  let responseLen := finalHeight + 1 - startHeight
  check (responseLen ≤ maxLen) .findLength
  return (startHeight, responseLen)

def findChainHeightRange (intersection stop : Option BlockHash) (maxLen : Nat) : Exec ε HeightRange := do
  check (0 < maxLen) .findMaxLen
  match ← tipHeight chain db with
  | none => return emptyRange
  | some chainTipHeight =>
    let stopHeight := stop.bind (heightByHash chain db)
    match intersection with
    | none => heightRange chainTipHeight none stopHeight maxLen
    | some hash =>
      match heightByHash chain db hash with
      -- a block that was just committed dropped the intersection
      | none => return emptyRange
      | some intersectionHeight => heightRange chainTipHeight (some intersectionHeight) stopHeight maxLen

/-- `Iterator::map_while`. -/
def mapWhile {α β : Type} (f : α → Option β) : List α → List β
  | [] => []
  | a :: as =>
    match f a with
    | some b => b :: mapWhile f as
    | none => []

def collectChainHashes (intersection stop : Option BlockHash) (maxLen : Nat) : Exec ε (List BlockHash) := do
  let (start, len) ← findChainHeightRange chain db intersection stop maxLen
  let hashes := mapWhile (hashByHeight chain db) (List.range' start len)
  check (∀ hash ∈ intersection, hash ∉ hashes) .findIntersection
  check (∀ hash ∈ stop, hash ∉ hashes.dropLast) .findStop
  return hashes

def findChainHashes (knownBlocks : List BlockHash) (stop : Option BlockHash) (maxLen : Nat) : Exec ε (List BlockHash) :=
  collectChainHashes chain db (findChainIntersection chain db knownBlocks) stop maxLen

end Zebra.Read
