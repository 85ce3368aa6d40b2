import Zebra.Mempool.Storage

/-! Polling the mempool while it is enabled and its tip only grows. -/

namespace Zebra

open Lib Std

variable [TransactionIds]

/-- A download task that has ended. The order and the samplers are the choices of the insertion. -/
inductive DownloadResult where
  | verified (tx : VerifiedUnminedTx) (spentMempoolOutpoints : List OutPoint) (expectedTipHeight : Option Nat)
      (order : IterationOrder TransactionHash) (samplers : Nat → WeightedSampler)
  | failed (txId : UnminedTxId) (error : TransactionDownloadVerifyError)
  | elapsed

/-- The transactions of a block that was added to the tip. -/
structure TipBlock where
  transactionHashes : List TransactionHash
  transactions : List Transaction

structure PollInput where
  results : List DownloadResult
  tipAction : Option TipBlock
  bestTipHeight : Option Nat
  order : IterationOrder TransactionHash

inductive MempoolChange where
  | added (txIds : List UnminedTxId)
  | invalidated (txIds : List UnminedTxId)
  | mined (txIds : List UnminedTxId)
deriving DecidableEq

/-- The sets of ids that one poll collects. -/
structure Collected where
  storage : Storage
  sendToPeersIds : List UnminedTxId
  invalidatedIds : List UnminedTxId
  minedMempoolIds : List UnminedTxId

namespace Mempool

variable {ε : Type} [StandardPolicy]

/-- A transaction that was verified for another tip is queued again. -/
def handleResult (now : Nat) (bestTipHeight : Option Nat) (c : Collected) : DownloadResult → Outcome MempoolPanic ε Collected
  | .verified tx spentMempoolOutpoints expectedTipHeight order samplers =>
    if bestTipHeight = expectedTipHeight then do
      let (result, storage) ← c.storage.insert now order samplers tx spentMempoolOutpoints bestTipHeight
      match result with
      | .ok insertedId => return { c with storage, sendToPeersIds := insertedId :: c.sendToPeersIds }
      | .error _ => return { c with storage, invalidatedIds := tx.transaction.id :: c.invalidatedIds }
    else return c
  | .failed txId error => do
    let storage ← c.storage.rejectIfNeeded now txId error
    return { c with storage, invalidatedIds := txId :: c.invalidatedIds }
  | .elapsed => return c

def handleTipAction (now : Nat) (order : IterationOrder TransactionHash) (c : Collected) :
    Option TipBlock → Outcome MempoolPanic ε Collected
  | none => return c
  | some block => do
    let minedIds := block.transactionHashes.eraseDups
    let (removed, storage) ← (c.storage.clearMinedDependencies minedIds).rejectAndRemoveSameEffects now order minedIds block.transactions
    return {
      storage := storage.clearTipRejections
      sendToPeersIds := c.sendToPeersIds
      invalidatedIds := c.invalidatedIds ++ removed.invalidated
      minedMempoolIds := c.minedMempoolIds ++ removed.mined }

def handleExpired (now : Nat) (order : IterationOrder TransactionHash) (c : Collected) :
    Option Nat → Outcome MempoolPanic ε Collected
  | none => return c
  | some tipHeight => do
    let (expired, storage) ← c.storage.removeExpiredTransactions now order tipHeight
    return { c with
      storage
      sendToPeersIds := c.sendToPeersIds.filter fun id => id ∉ expired
      invalidatedIds := c.invalidatedIds ++ expired }

/-- An empty set of ids is not sent. -/
def changes (c : Collected) : List MempoolChange :=
  (if c.sendToPeersIds.isEmpty then [] else [.added c.sendToPeersIds]) ++
    (if c.invalidatedIds.isEmpty then [] else [.invalidated c.invalidatedIds]) ++
    (if c.minedMempoolIds.isEmpty then [] else [.mined c.minedMempoolIds])

def pollReady (now : Nat) (storage : Storage) (input : PollInput) : Outcome MempoolPanic ε (List MempoolChange × Storage) := do
  let c ← input.results.foldlM (handleResult now input.bestTipHeight) ⟨storage, [], [], []⟩
  let c ← handleTipAction now input.order c input.tipAction
  let c ← handleExpired now input.order c input.bestTipHeight
  return (changes c, c.storage)

end Mempool

end Zebra
