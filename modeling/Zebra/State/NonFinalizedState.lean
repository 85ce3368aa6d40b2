import Zebra.Lib.IndexMap
import Zebra.State.ChainSet
import Zebra.State.Check.Anchors
import Zebra.State.Check.Commitment
import Zebra.State.Check.Utxo

namespace Zebra

open Lib Outcome

def maxInvalidatedBlocks : Nat := 100

inductive InvalidateError where
  | blockNotFound (hash : BlockHash)
deriving DecidableEq

inductive ReconsiderError where
  | missingInvalidatedBlock (hash : BlockHash)
  | parentChainNotFound (hash : BlockHash)
  | invalidatedBlocksEmpty
deriving DecidableEq

/-- The chains are in ascending order, and the removed blocks are in the order in which
their heights were first recorded. -/
structure NonFinalizedState where
  chainSet : List Chain
  invalidatedBlocks : List (Nat × Blocks)
  network : Network
  shouldCountMetrics : Bool

namespace NonFinalizedState

variable {ε : Type} (s : NonFinalizedState)

def new (network : Network) : NonFinalizedState := ⟨[], [], network, true⟩

def bestChain : Option Chain := s.chainSet.getLast?

def findContaining (hash : BlockHash) : Option Chain :=
  s.chainSet.reverse.find? fun c => hash ∈ c.inner.heightByHash

def insertWith (c : Chain) (filter : List Chain → Exec ε (List Chain)) : Exec ε NonFinalizedState := do
  let chains ← ChainSet.insert c s.chainSet
  let chains ← filter chains
  return { s with chainSet := chains.drop (chains.length - maxNonFinalizedChainForks) }

def insert (c : Chain) : Exec ε NonFinalizedState := s.insertWith c pure

def insertUnlessEmpty (c : Chain) : Exec ε NonFinalizedState := if c.inner.isEmpty then return s else s.insert c

def updateMetricsForCommittedBlock : Exec ε Unit :=
  if s.shouldCountMetrics then do
    let best ← expect s.bestChain .noChain
    let _ ← best.inner.nonFinalizedTipHash
    return ()
  else return ()

variable [ScriptParsing]

def finalizeSideChains (root : BlockHash) : NonFinalizedState → List Chain → Exec ε NonFinalizedState
  | s, [] => return s
  | s, c :: cs => do
    if (← c.inner.nonFinalizedRootHash) ≠ root then finalizeSideChains root s cs
    else
      let ((sideRoot, _), c) ← c.popRoot
      check (sideRoot.hash = root) .rootHash
      let s ← s.insert c
      finalizeSideChains root s cs

def finalize : Exec ε ((ContextuallyVerifiedBlock × Treestate) × NonFinalizedState) := do
  let best ← expect s.chainSet.getLast? .noChain
  let sideChains := s.chainSet.dropLast
  let ((root, treestate), best) ← best.popRoot
  let s ← { s with chainSet := [] }.insertUnlessEmpty best
  let s ← finalizeSideChains root.hash s sideChains.reverse
  return ((root, treestate),
    { s with invalidatedBlocks := s.invalidatedBlocks.filter fun e => root.height ≤ e.1 })

def parentChain (parentHash : BlockHash) : Validated Chain := do
  match ← ChainSet.findTip parentHash s.chainSet.reverse with
  | some c => return c
  | none =>
    match ← ChainSet.findFork parentHash s.chainSet.reverse with
    | some c => return c
    | none => .fail .notReadyToBeCommitted

def recordInvalidated (blocks : Blocks) : Exec ε NonFinalizedState := do
  let first ← expect blocks.head? .noInvalidatedBlocks
  let entries := IndexMap.insert s.invalidatedBlocks first.height blocks
  return { s with invalidatedBlocks := entries.drop (entries.length - maxInvalidatedBlocks) }

def removeFrom (c : Chain) (hash : BlockHash) :
    Exec InvalidateError (NonFinalizedState × Blocks) := do
  if (← c.inner.nonFinalizedRootHash) = hash then
    let chains ← ChainSet.remove c s.chainSet
    return ({ s with chainSet := chains }, c.inner.blocks.toList.map Prod.snd)
  else
    let (newChain, blocks) ← expect (← c.invalidateBlock hash) .forkMissing
    let s ← s.insertWith newChain fun chains => return chains.filter fun c => hash ∉ c.inner.heightByHash
    return (s, blocks)

def invalidateBlock (hash : BlockHash) : Exec InvalidateError (BlockHash × NonFinalizedState) :=
  match s.findContaining hash with
  | none => .fail (.blockNotFound hash)
  | some c => do
    let (s, blocks) ← s.removeFrom c hash
    let s ← s.recordInvalidated blocks
    return (hash, s)

variable [MerkleHashing]

omit [ScriptParsing] in
def newChain (db : ZebraDb) (finalizedTipHeight : Nat) : Exec ε Chain := do
  let sprout ← db.sproutTreeForTip
  let sapling ← db.saplingTreeForTip
  let orchard ← db.orchardTreeForTip
  Chain.new s.network finalizedTipHeight sprout sapling orchard db.historyTree db.finalizedValuePool

variable [ChainHistory]

def pushExpected (c : Chain) (b : ContextuallyVerifiedBlock) : Exec ε Chain :=
  match c.push b with
  | .ok c => .ok c
  | .error (.panic p) => .panic p
  | .error (.error _) => .panic .reconsideredBlock

def pushAll (c : Chain) (bs : Blocks) : Exec ε Chain := bs.foldlM pushExpected c

omit [ChainHistory] in
/-- The chain that the reconsidered blocks are pushed onto. -/
def reconsiderParent (hash rootParentHash : BlockHash) (db : ZebraDb) : Exec ReconsiderError Chain :=
  if rootParentHash = db.finalizedTipHash then
    match db.finalizedTipHeight with
    | none => .fail (.parentChainNotFound hash)
    | some height => s.newChain db height
  else (s.parentChain rootParentHash).mapErr fun _ => .parentChainNotFound hash

omit [ScriptParsing] [MerkleHashing] [ChainHistory] in
def retainInvalidated (finalizedTipHeight : Option Nat) : NonFinalizedState :=
  match finalizedTipHeight with
  | none => s
  | some tip => { s with invalidatedBlocks := s.invalidatedBlocks.filter fun e => tip ≤ e.1 }

/-- The record of the block is looked up in a clone of the map, so it is not removed. -/
def reconsiderBlock (hash : BlockHash) (db : ZebraDb) :
    Exec ReconsiderError (List BlockHash × NonFinalizedState) :=
  match s.invalidatedBlocks.find? fun e => e.2.head?.map (·.hash) = some hash with
  | none => .fail (.missingInvalidatedBlock hash)
  | some (height, _) =>
    match s.invalidatedBlocks.find? fun e => e.1 = height with
    | none => .fail (.missingInvalidatedBlock hash)
    | some (_, blocks) =>
      match blocks.head? with
      | none => .fail .invalidatedBlocksEmpty
      | some root => do
        let rootParentHash := root.block.header.previousBlockHash
        let c ← s.reconsiderParent hash rootParentHash db
        let c ← pushAll c blocks
        let _ ← c.inner.nonFinalizedTipHeight
        let _ ← c.inner.nonFinalizedTipHash
        let s ← (s.retainInvalidated db.finalizedTipHeight).insertWith c (ChainSet.retainTips rootParentHash)
        s.updateMetricsForCommittedBlock
        return (blocks.map (·.hash), s)

variable [BlockHashing] [BlockCommitments]

/-- The three checks run as parallel tasks. -/
def validateAndUpdateParallel (c : Chain) (b : ContextuallyVerifiedBlock)
    (sproutFinalTreestates : SproutAnchors) : Validated Chain := do
  let historyTree ← HistoryTrees.forTip c.inner.historyTreesByHeight
  let (_, _, c) ← joinScope (Check.blockCommitmentIsValidForChainHistory b.block c.network historyTree)
    (joinScope (Check.blockSproutAnchorsReferToTreestates sproutFinalTreestates b.block b.transactionHashes b.height)
      (c.push b))
  return c

def validateAndCommit (c : Chain) (b : SemanticallyVerifiedBlock) (db : ZebraDb) :
    Validated Chain := do
  if s.invalidatedBlocks.any fun e => e.2.any fun x => x.hash = b.hash then
    .fail (.blockPreviouslyInvalidated b.hash)
  else
    let spentUtxos ← Check.transparentSpend b c.inner.unspentUtxos c.inner.spentUtxos db
    Check.blockSaplingOrchardAnchorsReferToFinalTreestates db c b
    let treestates := Check.blockFetchSproutFinalTreestates db c b
    let contextual ← (ContextuallyVerifiedBlock.withBlockAndSpentUtxos b spentUtxos).mapErr fun e =>
      .calculateBlockChainValueChange e b.height b.hash b.block.transactions.length spentUtxos.size
    validateAndUpdateParallel c contextual treestates

def commitBlock (b : SemanticallyVerifiedBlock) (db : ZebraDb) : Validated NonFinalizedState := do
  let parentHash := b.block.header.previousBlockHash
  let c ← s.parentChain parentHash
  let c ← s.validateAndCommit c b db
  let s ← s.insertWith c (ChainSet.retainTips parentHash)
  s.updateMetricsForCommittedBlock
  return s

def commitNewChain (b : SemanticallyVerifiedBlock) (db : ZebraDb) : Validated NonFinalizedState := do
  let height ← expect db.finalizedTipHeight .finalizedTip
  let c ← s.newChain db height
  let c ← s.validateAndCommit c b db
  let s ← s.insert c
  s.updateMetricsForCommittedBlock
  return s

end NonFinalizedState

end Zebra
