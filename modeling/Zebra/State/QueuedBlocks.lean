import Zebra.Lib.Buckets
import Zebra.State.NonFinalizedState

namespace Zebra

open Lib Outcome

inductive KnownBlock where
  | finalized
  | bestChain
  | sideChain
  | writeChannel
  | queue
deriving DecidableEq

inductive CommitBlockError where
  | duplicate (height : Option Nat) (location : KnownBlock)
  | writeTaskExited
deriving DecidableEq

def SemanticallyVerifiedBlock.newOutpoints (b : SemanticallyVerifiedBlock) : List OutPoint := b.newOutputs.keys

def SemanticallyVerifiedBlock.newUtxos (b : SemanticallyVerifiedBlock) : List (OutPoint × Utxo) :=
  b.newOutputs.toList.map fun x => (x.1, x.2.utxo)

def SemanticallyVerifiedBlock.parentHash (b : SemanticallyVerifiedBlock) : BlockHash := b.block.header.previousBlockHash

/-- The order in which a set of hashes is iterated, which is any. -/
structure HashOrder where
  arrange : List BlockHash → List BlockHash
  perm : ∀ hashes, (arrange hashes).Perm hashes

/-- Blocks that wait for their parents, with the hashes of the blocks by parent and by
height. -/
structure QueuedBlocks where
  blocks : KeyedMap BlockHash SemanticallyVerifiedBlock := ∅
  byParent : Buckets BlockHash BlockHash := ∅
  byHeight : Buckets Nat BlockHash := ∅
  knownUtxos : KeyedMap OutPoint Utxo := ∅

namespace QueuedBlocks

variable {ε : Type} (q : QueuedBlocks)

def queue (new : SemanticallyVerifiedBlock) : QueuedBlocks :=
  if new.hash ∈ q.blocks then q
  else
    { blocks := q.blocks.insert new.hash new
      byParent := q.byParent.add new.parentHash new.hash
      byHeight := q.byHeight.add new.height new.hash
      knownUtxos := q.knownUtxos.insertMany new.newUtxos }

/-- Take blocks out of the queue by their hashes. -/
def takeBlocks : KeyedMap BlockHash SemanticallyVerifiedBlock → List BlockHash →
    Exec ε (SemanticBlocks × KeyedMap BlockHash SemanticallyVerifiedBlock)
  | blocks, [] => return ([], blocks)
  | blocks, hash :: hashes => do
    let b ← expect blocks[hash]? .queuedBlock
    let (taken, blocks) ← takeBlocks (blocks.erase hash) hashes
    return (b :: taken, blocks)

def dequeueChildren (order : HashOrder) (parentHash : BlockHash) :
    Exec ε (SemanticBlocks × QueuedBlocks) := do
  let (children, blocks) ← takeBlocks q.blocks (order.arrange (q.byParent.bucket parentHash).keys)
  return (children,
    { blocks
      byParent := q.byParent.erase parentHash
      -- the whole bucket of a height goes
      byHeight := q.byHeight.eraseAll (children.map (·.height))
      knownUtxos := q.knownUtxos.eraseAll (children.flatMap (·.newOutpoints)) })

def removeFromParent (byParent : Buckets BlockHash BlockHash) (parentHash hash : BlockHash) :
    Exec ε (Buckets BlockHash BlockHash) := do
  let parentList ← expect byParent[parentHash]? .queuedParent
  check (hash ∈ parentList) .parentList
  if parentList.size = 1 then return byParent.erase parentHash
  else return byParent.insert parentHash (parentList.erase hash)

def expire (hash : BlockHash) : Exec ε ((BlockHash × CommitBlockError) × QueuedBlocks) := do
  let expired ← expect q.blocks[hash]? .queuedBlock
  let byParent ← removeFromParent q.byParent expired.parentHash hash
  return ((hash, .duplicate (some expired.height) .finalized),
    { q with
      blocks := q.blocks.erase hash
      byParent
      knownUtxos := q.knownUtxos.eraseAll expired.newOutpoints })

def expireAll : QueuedBlocks → List BlockHash → Exec ε (List (BlockHash × CommitBlockError) × QueuedBlocks)
  | q, [] => return ([], q)
  | q, hash :: hashes => do
    let (answer, q) ← q.expire hash
    let (answers, q) ← expireAll q hashes
    return (answer :: answers, q)

/-- Remove the blocks at or below the finalized tip, and answer their requests. -/
def pruneByHeight (order : HashOrder) (finalizedTipHeight : Nat) :
    Exec ε (List (BlockHash × CommitBlockError) × QueuedBlocks) := do
  let splitHeight ← expect (Height.next finalizedTipHeight) .splitHeight
  let expired := Std.ExtTreeMap.filter (fun height _ => decide (height < splitHeight)) q.byHeight
  let kept := Std.ExtTreeMap.filter (fun height _ => decide (splitHeight ≤ height)) q.byHeight
  expireAll { q with byHeight := kept } (expired.toList.flatMap fun e => order.arrange e.2.keys)

def clear (order : HashOrder) (error : CommitBlockError) : List (BlockHash × CommitBlockError) × QueuedBlocks :=
  ((order.arrange q.blocks.keys).map (·, error), {})

end QueuedBlocks

/-- The hashes of the blocks that were sent to the write task, in batches. -/
structure SentHashes where
  bufs : List (List (BlockHash × Nat)) := []
  currBuf : List (BlockHash × Nat) := []
  sent : KeyedMap BlockHash (List OutPoint) := ∅
  knownUtxos : KeyedMap OutPoint Utxo := ∅
  canForkChainAtHashes : Bool := false

namespace SentHashes

variable (s : SentHashes)

def add (b : SemanticallyVerifiedBlock) : SentHashes :=
  { s with
    currBuf := s.currBuf ++ [(b.hash, b.height)]
    sent := s.sent.insert b.hash b.newOutpoints
    knownUtxos := s.knownUtxos.insertMany b.newUtxos }

/-- A block of the non-finalized state, as it was before contextual verification. -/
def fromContextuallyVerified (b : ContextuallyVerifiedBlock) : SemanticallyVerifiedBlock :=
  { b with deferredPoolBalanceChange := some b.chainValuePoolChange.deferred }

/-- The blocks of one chain after another, starting with the best one. -/
def new (state : NonFinalizedState) : SentHashes :=
  let blocks := state.chainSet.reverse.flatMap fun c => c.inner.blocks.toList.map Prod.snd
  let s := (blocks.map fromContextuallyVerified).foldl add ({} : SentHashes)
  if s.sent.isEmpty then s else { s with canForkChainAtHashes := true }

def finishBatch : SentHashes :=
  if s.currBuf = [] then s else { s with bufs := s.bufs ++ [s.currBuf], currBuf := [] }

def pruneBuf (heightBound : Nat) : SentHashes → List (BlockHash × Nat) → List (BlockHash × Nat) × SentHashes
  | s, [] => ([], s)
  | s, (hash, height) :: buf =>
    if heightBound < height then ((hash, height) :: buf, s)
    else
      match s.sent[hash]? with
      | some expiredOutpoints =>
        pruneBuf heightBound { s with
          sent := s.sent.erase hash
          knownUtxos := s.knownUtxos.eraseAll expiredOutpoints } buf
      | none => pruneBuf heightBound s buf

/-- `retain_mut`: batches that are empty now are dropped. -/
def pruneBufs (heightBound : Nat) : SentHashes → List (List (BlockHash × Nat)) →
    List (List (BlockHash × Nat)) × SentHashes
  | s, [] => ([], s)
  | s, buf :: bufs =>
    let (buf, s) := pruneBuf heightBound s buf
    let (bufs, s) := pruneBufs heightBound s bufs
    (if buf = [] then bufs else buf :: bufs, s)

def pruneByHeight (heightBound : Nat) : SentHashes :=
  let s := s.finishBatch
  let (bufs, s) := pruneBufs heightBound s s.bufs
  { s with bufs }

end SentHashes

/-- What `send_ready_non_finalized_queued` changes: the queue, the sent hashes, the blocks in
the channel to the write task, and the answers to the requests of the blocks. -/
structure SendState where
  queued : QueuedBlocks
  sentHashes : SentHashes
  channel : SemanticBlocks
  answers : List (BlockHash × CommitBlockError)

namespace SendState

variable {ε : Type}

/-- The write task exited, so the block `b` comes back. -/
def writeTaskExited (order : HashOrder) (s : SendState) (b : SemanticallyVerifiedBlock) : SendState :=
  let (answers, queued) := s.queued.clear order .writeTaskExited
  { s with
    sentHashes := s.sentHashes.add b
    queued
    answers := s.answers ++ (b.hash, .writeTaskExited) :: answers }

def send (s : SendState) (b : SemanticallyVerifiedBlock) : SendState :=
  { s with
    sentHashes := s.sentHashes.add b
    channel := s.channel ++ [b] }

/-- Send the children of a parent, while the write task takes `room` more blocks before it
exits. The result has the rest of the room, or nothing if the write task exited. -/
def sendChildren (order : HashOrder) : SendState → Nat → SemanticBlocks → SendState × Option Nat
  | s, room, [] => (s, some room)
  | s, 0, b :: _ => (s.writeTaskExited order b, none)
  | s, room + 1, b :: bs => sendChildren order (s.send b) room bs

/-- The loop over the parents, the last one first. It stops early when the write task exits,
and only then the batch stays open. -/
def sendLoop (order : HashOrder) : Nat → SendState → Nat → List BlockHash → Exec ε SendState
  | 0, s, _, _ => return s
  | _ + 1, s, _, [] => return { s with sentHashes := s.sentHashes.finishBatch }
  | rounds + 1, s, room, parent :: parents => do
    let (children, queued) ← s.queued.dequeueChildren order parent
    match sendChildren order { s with queued } room children with
    | (s, some room) => sendLoop order rounds s room ((children.map (·.hash)).reverse ++ parents)
    | (s, none) => return s

/-- Send the queued descendants of `newParent`, if there is a sender to the write task. There
is a round for every queued block, one for `newParent` and one that finds no more parents. -/
def sendReadyNonFinalizedQueued (order : HashOrder) (s : SendState) (sender : Option Nat) (newParent : BlockHash) :
    Exec ε SendState :=
  match sender with
  | some room => sendLoop order (s.queued.blocks.size + 2) s room [newParent]
  | none => return s

end SendState

end Zebra
