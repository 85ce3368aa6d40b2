import Zebra.State.Transactions
import Zebra.State.Trees

namespace Zebra

open Lib Outcome

variable {ε : Type}

/-- Two tasks that both finish: a panic in either one aborts, and the error of the first
one wins. -/
def joinScope {α β : Type} (x : Exec ε α) (y : Exec ε β) : Exec ε (α × β) :=
  match x, y with
  | .error (.panic p), _ => .panic p
  | _, .error (.panic p) => .panic p
  | .error (.error e), _ => .fail e
  | _, .error (.error e) => .fail e
  | .ok a, .ok b => .ok (a, b)

structure Treestate where
  sprout : NoteCommitmentTree .sprout
  sapling : NoteCommitmentTree .sapling
  orchard : NoteCommitmentTree .orchard
  saplingSubtree : Option NoteCommitmentSubtree
  orchardSubtree : Option NoteCommitmentSubtree
  history : HistoryTree

/-- The first subtree that was completed at `height`. -/
def subtreeAt (subtrees : Subtrees) (height : Nat) :
    Option NoteCommitmentSubtree :=
  (subtrees.toList.find? fun s => s.2.endHeight = height).map fun s => s.2.withIndex s.1

def insertSubtree (subtrees : Subtrees) :
    Option NoteCommitmentSubtree → Subtrees
  | none => subtrees
  | some s => subtrees.insert s.index s.intoData

def popFirst {β : Type} (m : KeyedMap Nat β) : KeyedMap Nat β :=
  match m.toList.head? with
  | none => m
  | some (k, _) => m.erase k

namespace ChainInner

def isEmpty (c : ChainInner) : Bool := c.blocks.isEmpty

def maxBlockHeight (c : ChainInner) : Option Nat := c.blocks.toList.getLast?.map Prod.fst

def nonFinalizedTipHeight (c : ChainInner) : Exec ε Nat := expect c.maxBlockHeight .emptyChain

def nonFinalizedTipHash (c : ChainInner) : Exec ε BlockHash :=
  expect (c.blocks.toList.getLast?.map fun b => b.2.hash) .tipHash

def nonFinalizedRootHeight (c : ChainInner) : Exec ε Nat :=
  expect (c.blocks.toList.head?.map Prod.fst) .emptyChain

def nonFinalizedRootHash (c : ChainInner) : Exec ε BlockHash :=
  expect (c.blocks.toList.head?.map fun b => b.2.hash) .emptyChain

def saplingSubtreeForTip (c : ChainInner) : Option NoteCommitmentSubtree :=
  c.maxBlockHeight.bind (subtreeAt c.saplingSubtrees)

def orchardSubtreeForTip (c : ChainInner) : Option NoteCommitmentSubtree :=
  c.maxBlockHeight.bind (subtreeAt c.orchardSubtrees)

/-- The trees that the update of the next block starts from. -/
def noteCommitmentTreesForTip (c : ChainInner) : Exec ε NoteCommitmentTrees := do
  let sprout ← c.sprout.index.treeForTip
  let sapling ← c.sapling.treeForTip
  let orchard ← c.orchard.treeForTip
  return { sprout, sapling, orchard,
           saplingSubtree := c.saplingSubtreeForTip, orchardSubtree := c.orchardSubtreeForTip }

def treestate (c : ChainInner) (height : Nat) : Option Treestate := do
  let sprout ← c.sprout.index.tree height
  let sapling ← c.sapling.tree height
  let orchard ← c.orchard.tree height
  let history ← c.historyTreesByHeight[height]?
  return { sprout, sapling, orchard, history,
           saplingSubtree := subtreeAt c.saplingSubtrees height,
           orchardSubtree := subtreeAt c.orchardSubtrees height }

def unspentUtxos (c : ChainInner) : OrderedUtxos :=
  c.createdUtxos.filter fun o _ => o ∉ c.spentUtxos

def updateValuePools (c : ChainInner) (change : ValueBalance .negativeAllowed) (height size : Nat) :
    Validated ChainInner :=
  match c.chainValuePools.addChainValuePoolChange change with
  | .ok pools =>
    return { c with
      chainValuePools := pools
      blockInfoByHeight := c.blockInfoByHeight.insert height ⟨pools, size % 2 ^ 32⟩ }
  | .error e => .fail (.addValuePool e c.chainValuePools change (some height))

def revertValuePools (c : ChainInner) (change : ValueBalance .negativeAllowed) (height : Nat)
    (position : RevertPosition) : Exec ε ChainInner := do
  let pools ← match position with
    | .tip => unwrap (c.chainValuePools.addChainValuePoolChange change.neg) .poolRevert
    | .root => pure c.chainValuePools
  return { c with chainValuePools := pools, blockInfoByHeight := c.blockInfoByHeight.erase height }

variable [ScriptParsing]

def updateChainTipWithBlockExceptTrees (c : ChainInner) (net : Network) (b : ContextuallyVerifiedBlock) :
    Validated ChainInner := do
  let heightByHash ← c.heightByHash.insertNew b.hash b.height .duplicateBlockHash
  let work ← expect (CompactDifficulty.toWork b.block.header.difficultyThreshold) .invalidWork
  let partialCumulativeWork ← PartialCumulativeWork.add c.partialCumulativeWork work
  let idx ← c.toTxIndexes.updateTransactions net b
  let c := { c with toTxIndexes := idx, heightByHash, partialCumulativeWork }
  c.updateValuePools b.chainValuePoolChange b.height b.block.serializedSize

variable [MerkleHashing] [ChainHistory]

def updateChainTipWithBlockParallel (c : ChainInner) (net : Network) (b : ContextuallyVerifiedBlock) :
    Validated ChainInner := do
  let nct ← c.noteCommitmentTreesForTip
  let (nct, c) ← joinScope
    (mapErr .noteCommitmentTreeError (nct.updateTreesParallel b.block))
    (c.updateChainTipWithBlockExceptTrees net b)
  let sprout ← c.sprout.addTreeAndAnchor b.height nct.sprout
  let sapling ← c.sapling.addTreeAndAnchor b.height nct.sapling
  let orchard ← c.orchard.addTreeAndAnchor b.height nct.orchard
  let saplingTree ← sapling.treeForTip
  let orchardTree ← orchard.treeForTip
  let history ← HistoryTrees.forTip c.historyTreesByHeight
  let history ← mapErr .historyTreeError (history.push net b.block saplingTree.root orchardTree.root)
  let historyTreesByHeight ← HistoryTrees.add c.historyTreesByHeight b.height history
  return { c with
    sprout, sapling, orchard, historyTreesByHeight
    saplingSubtrees := insertSubtree c.saplingSubtrees nct.saplingSubtree
    orchardSubtrees := insertSubtree c.orchardSubtrees nct.orchardSubtree }

omit [MerkleHashing] [ChainHistory]

def revertChainWith (c : ChainInner) (net : Network) (b : ContextuallyVerifiedBlock)
    (position : RevertPosition) : Exec ε ChainInner := do
  let heightByHash ← c.heightByHash.removePresent b.hash .missingBlockHash
  let work ← expect (CompactDifficulty.toWork b.block.header.difficultyThreshold) .invalidWork
  let partialCumulativeWork ← PartialCumulativeWork.sub c.partialCumulativeWork work
  let idx ← c.toTxIndexes.revertTransactions net b
  let sprout ← c.sprout.removeTreeAndAnchor position b.height c.maxBlockHeight
  let sapling ← c.sapling.removeTreeAndAnchor position b.height c.maxBlockHeight
  let orchard ← c.orchard.removeTreeAndAnchor position b.height c.maxBlockHeight
  let historyTreesByHeight ← HistoryTrees.remove c.historyTreesByHeight position b.height
  let c := { c with
    toTxIndexes := idx, heightByHash, partialCumulativeWork, sprout, sapling, orchard, historyTreesByHeight }
  c.revertValuePools b.chainValuePoolChange b.height position

end ChainInner

end Zebra
