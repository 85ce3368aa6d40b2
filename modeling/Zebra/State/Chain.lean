import Zebra.State.UpdateWith

namespace Zebra

open Lib Outcome

namespace Chain

variable {ε : Type}

section

variable [MerkleHashing]

def new (network : Network) (finalizedTipHeight : Nat) (sprout : NoteCommitmentTree .sprout)
    (sapling : NoteCommitmentTree .sapling) (orchard : NoteCommitmentTree .orchard)
    (historyTree : HistoryTree) (chainValuePools : ValueBalance .nonNegative) : Exec ε Chain := do
  let sprout ← SproutTrees.addTreeAndAnchor ⟨.empty, ∅⟩ finalizedTipHeight sprout
  let sapling ← TreeIndex.empty.addTreeAndAnchor finalizedTipHeight sapling
  let orchard ← TreeIndex.empty.addTreeAndAnchor finalizedTipHeight orchard
  let historyTreesByHeight ← HistoryTrees.add ∅ finalizedTipHeight historyTree
  return {
    network
    lastForkHeight := none
    inner := {
      toTxIndexes := .empty
      blocks := ∅
      heightByHash := ∅
      sprout, sapling, orchard, historyTreesByHeight, chainValuePools
      saplingSubtrees := ∅
      orchardSubtrees := ∅
      partialCumulativeWork := 0
      blockInfoByHeight := ∅ } }

variable [ScriptParsing] [ChainHistory]

def push (c : Chain) (b : ContextuallyVerifiedBlock) : Validated Chain := do
  let inner ← c.inner.updateChainTipWithBlockParallel c.network b
  return { c with inner := { inner with blocks := inner.blocks.insert b.height b } }

end

variable [ScriptParsing]

def popRoot (c : Chain) : Exec ε ((ContextuallyVerifiedBlock × Treestate) × Chain) := do
  let height ← c.inner.nonFinalizedRootHeight
  let treestate ← expect (c.inner.treestate height) .missingTreestate
  let saplingSubtrees :=
    if treestate.saplingSubtree.isSome then popFirst c.inner.saplingSubtrees else c.inner.saplingSubtrees
  let orchardSubtrees :=
    if treestate.orchardSubtree.isSome then popFirst c.inner.orchardSubtrees else c.inner.orchardSubtrees
  let block ← expect c.inner.blocks[height]? .emptyChain
  let inner := { c.inner with saplingSubtrees, orchardSubtrees, blocks := c.inner.blocks.erase height }
  let inner ← inner.revertChainWith c.network block .root
  return ((block, treestate), { c with inner })

def popTip (c : Chain) : Exec ε Chain := do
  let height ← c.inner.nonFinalizedTipHeight
  let block ← expect c.inner.blocks[height]? .emptyChain
  let inner := { c.inner with blocks := c.inner.blocks.erase height }
  check (inner.isEmpty = false) .emptyChain
  let inner ← inner.revertChainWith c.network block .tip
  return { c with inner }

/-- The loop of `fork`. Every round removes a block, so the number of blocks is enough fuel. -/
def revertAbove (forkTip : BlockHash) : (fuel : Nat) → Chain → Exec ε Chain
  | 0, _ => .panic .emptyChain
  | fuel + 1, c => do
    if (← c.inner.nonFinalizedTipHash) = forkTip then return c
    else
      let c ← c.popTip
      let height ← c.inner.nonFinalizedTipHeight
      revertAbove forkTip fuel { c with lastForkHeight := some height }

def fork (c : Chain) (forkTip : BlockHash) : Exec ε (Option Chain) :=
  if forkTip ∈ c.inner.heightByHash then some <$> revertAbove forkTip c.inner.blocks.size c
  else return none

def childBlocks (c : Chain) (height : Nat) : Blocks :=
  (c.inner.blocks.toList.filter (height ≤ ·.1)).map Prod.snd

/-- `Option::min`, where `None` is below every height. -/
def minHeight (a : Option Nat) (b : Nat) : Option Nat := a.map (Nat.min b)

def invalidateBlock (c : Chain) (hash : BlockHash) :
    Exec ε (Option (Chain × Blocks)) := do
  match c.inner.heightByHash[hash]? with
  | none => return none
  | some height =>
    match ← c.fork hash with
    | none => return none
    | some newChain =>
      let newChain ← newChain.popTip
      return some ({ newChain with lastForkHeight := minHeight c.lastForkHeight height },
        c.childBlocks height)

/-- The order of the chain set: cumulative work, then the hash of the tip block. Two chains
with the same tip must never be compared. -/
def cmp (c c' : Chain) : Exec ε Ordering :=
  if c.inner.partialCumulativeWork ≠ c'.inner.partialCumulativeWork then
    return compare c.inner.partialCumulativeWork c'.inner.partialCumulativeWork
  else do
    let hash ← expect (c.inner.blocks.toList.getLast?.map fun b => b.2.hash) .lastBlock
    let hash' ← expect (c'.inner.blocks.toList.getLast?.map fun b => b.2.hash) .lastBlock
    if hash = hash' then .panic .chainCmp else return compare hash hash'

end Chain

end Zebra
