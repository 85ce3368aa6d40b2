import Zebra.Lib.CancelChannels
import Zebra.Transparent

namespace Zebra

open Lib Std

/-- The id of a transaction up to version 4, or of a later one with its authorizing data. -/
inductive UnminedTxId where
  | legacy (hash : TransactionHash)
  | witnessed (id : TransactionHash) (authDigest : Nat)
deriving DecidableEq

namespace UnminedTxId

def minedId : UnminedTxId → TransactionHash
  | legacy hash => hash
  | witnessed id _ => id

def key : UnminedTxId → List Nat
  | legacy hash => [0, hash]
  | witnessed id authDigest => [1, id, authDigest]

theorem key_injective : Function.Injective key := by
  intro a b h
  cases a <;> cases b <;> simp_all [key]

instance : Ord UnminedTxId := ⟨compareOn key⟩

instance : TransOrd UnminedTxId := inferInstanceAs (TransCmp (compareOn key))

instance : LawfulEqOrd UnminedTxId := lawfulEqCmp_compareOn key_injective

end UnminedTxId

inductive QueueError where
  | alreadyQueued
  | fullQueue
deriving DecidableEq

abbrev DownloadTask := Task UnminedTxId Unit

/-- The result of a task. A verified transaction comes with its own id. -/
inductive TaskResult where
  | verified (id : UnminedTxId)
  | failed
  | cancelled
  | elapsed
deriving DecidableEq

inductive DownloadPanic where
  | queuedOnce
deriving DecidableEq

abbrev Downloads := CancelChannels UnminedTxId Unit

def maxInboundConcurrency : Nat := 25

namespace Downloads

def new : Downloads := .empty

variable (d : Downloads)

def downloadIfNeededAndVerify (txid : UnminedTxId) : Outcome DownloadPanic QueueError Downloads := do
  if d.cancelHandles[txid]?.isSome then Outcome.fail .alreadyQueued
  else if maxInboundConcurrency ≤ d.pending.length then Outcome.fail .fullQueue
  else do
    Outcome.check (d.cancelHandles[txid]? = none) .queuedOnce
    return d.push txid ()

def cancel (minedIds : List TransactionHash) : Downloads :=
  (d.cancelHandles.keys.filter fun txid => txid.minedId ∈ minedIds).foldl (fun d txid => d.removeHandle .sent txid) d

/-- The tasks are dropped before their handles are used. -/
def cancelAll : Downloads := { d with pending := [], cancelHandles := ∅ }

def resultId (t : DownloadTask) : TaskResult → Option UnminedTxId
  | .verified id => some id
  | .failed | .cancelled => some t.key
  | .elapsed => none

def pollNext (t : DownloadTask) (result : TaskResult) : Downloads :=
  match resultId t result with
  | none => d.finish t
  | some txid => (d.finish t).removeHandle .dropped txid

end Downloads

end Zebra
