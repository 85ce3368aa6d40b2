import Zebra.Mempool.VerifiedSet

namespace Zebra

open Lib Std

/-- The instants are those of the last insertion, and the order is the one of insertion. -/
structure EvictionList where
  uniqueEntries : KeyedMap TransactionHash Nat
  orderedEntries : List TransactionHash
  maxSize : Nat
  evictionMemoryTime : Nat

namespace EvictionList

variable {ε : Type}

def new (maxSize evictionMemoryTime : Nat) : EvictionList := ⟨∅, [], maxSize, evictionMemoryTime⟩

variable (l : EvictionList)

def hasExpired (now evictedAt : Nat) : Bool := l.evictionMemoryTime < now - evictedAt

def containsKey (now : Nat) (txid : TransactionHash) : Bool := l.uniqueEntries[txid]?.any fun evictedAt => !l.hasExpired now evictedAt

def popFront : Outcome MempoolPanic ε EvictionList :=
  match l.orderedEntries with
  | [] => return l
  | key :: rest => do
    Outcome.check (key ∈ l.uniqueEntries) .missingEntry
    return { l with uniqueEntries := l.uniqueEntries.erase key, orderedEntries := rest }

def pruneEntries (now : Nat) : List TransactionHash → KeyedMap TransactionHash Nat → Outcome MempoolPanic ε EvictionList
  | [], unique => return { l with uniqueEntries := unique, orderedEntries := [] }
  | key :: rest, unique => do
    let evictedAt ← Outcome.expect unique[key]? .missingEntry
    if l.hasExpired now evictedAt then pruneEntries now rest (unique.erase key)
    else return { l with uniqueEntries := unique, orderedEntries := key :: rest }

def pruneOld (now : Nat) : Outcome MempoolPanic ε EvictionList := l.pruneEntries now l.orderedEntries l.uniqueEntries

def dropOldest : Outcome MempoolPanic ε EvictionList :=
  if l.maxSize ≤ l.uniqueEntries.size then l.popFront else return l

def insert (now : Nat) (key : TransactionHash) : Outcome MempoolPanic ε EvictionList := do
  let l ← l.pruneOld now
  let l ← l.dropOldest
  Outcome.check (key ∉ l.uniqueEntries) .evictedTwice
  return { l with uniqueEntries := l.uniqueEntries.insert key now, orderedEntries := l.orderedEntries ++ [key] }

end EvictionList

inductive NonStandardTransactionError where
  | isDust
  | scriptSigTooLarge
  | scriptSigNotPushOnly
  | scriptPubKeyNonStandard
  | bareMultiSig
  | multiOpReturn
  | dataCarrierTooLarge
  | tooManySigops
  | nonStandardInputs
deriving DecidableEq

inductive ExactTipRejectionError where
  | failedVerification
  | failedStandard (error : NonStandardTransactionError)
deriving DecidableEq

inductive SameEffectsChainRejectionError where
  | expired
  | duplicateSpend
  | mined
  | randomlyEvicted
deriving DecidableEq

inductive RejectionError where
  | exactTip (error : ExactTipRejectionError)
  | sameEffectsTip (error : SameEffectsTipRejectionError)
  | sameEffectsChain (error : SameEffectsChainRejectionError)
  | nonStandardTransaction (error : NonStandardTransactionError)
deriving DecidableEq

inductive MempoolError where
  | storageExactTip (error : ExactTipRejectionError)
  | storageEffectsTip (error : SameEffectsTipRejectionError)
  | storageEffectsChain (error : SameEffectsChainRejectionError)
  | inMempool
  | nonStandardTransaction (error : NonStandardTransactionError)
deriving DecidableEq

inductive TransactionDownloadVerifyError where
  | inState
  | stateError
  | downloadFailed
  | cancelled
  | invalid
deriving DecidableEq

/-- The checks of the script library for standard transactions. -/
class StandardPolicy [TransactionIds] where
  nonStandard : VerifiedUnminedTx → Option NonStandardTransactionError

def maxEvictionMemoryEntries : Nat := 40000

structure Storage [TransactionIds] where
  verified : VerifiedSet
  tipRejectedExact : KeyedMap UnminedTxId ExactTipRejectionError
  tipRejectedSameEffects : KeyedMap TransactionHash SameEffectsTipRejectionError
  chainRejectedSameEffects : SameEffectsChainRejectionError → EvictionList
  evictionMemoryTime : Nat
  txCostLimit : Nat

structure RemovedTransactionIds where
  mined : List UnminedTxId
  invalidated : List UnminedTxId

namespace Storage

variable [TransactionIds] {ε : Type}

def new (evictionMemoryTime txCostLimit : Nat) : Storage where
  verified := .empty
  tipRejectedExact := ∅
  tipRejectedSameEffects := ∅
  chainRejectedSameEffects := fun _ => .new maxEvictionMemoryEntries evictionMemoryTime
  evictionMemoryTime := evictionMemoryTime
  txCostLimit := txCostLimit

variable (s : Storage)

def clear : Storage := new s.evictionMemoryTime s.txCostLimit

def clearTipRejections : Storage := { s with tipRejectedExact := ∅, tipRejectedSameEffects := ∅ }

def limitRejectionListMemory : Storage :=
  { s with
    tipRejectedExact := if maxEvictionMemoryEntries < s.tipRejectedExact.size then ∅ else s.tipRejectedExact
    tipRejectedSameEffects := if maxEvictionMemoryEntries < s.tipRejectedSameEffects.size then ∅ else s.tipRejectedSameEffects }

def reject (now : Nat) (txId : UnminedTxId) : RejectionError → Outcome MempoolPanic ε Storage
  | .exactTip e => return { s with tipRejectedExact := s.tipRejectedExact.insert txId e }.limitRejectionListMemory
  | .sameEffectsTip e =>
    return { s with tipRejectedSameEffects := s.tipRejectedSameEffects.insert txId.minedId e }.limitRejectionListMemory
  | .sameEffectsChain e => do
    let list ← (s.chainRejectedSameEffects e).insert now txId.minedId
    return { s with chainRejectedSameEffects := Function.update s.chainRejectedSameEffects e list }.limitRejectionListMemory
  | .nonStandardTransaction e =>
    return { s with tipRejectedExact := s.tipRejectedExact.insert txId (.failedStandard e) }.limitRejectionListMemory

def rejectAll (now : Nat) (reason : RejectionError) (txIds : List UnminedTxId) : Outcome MempoolPanic ε Storage :=
  txIds.foldlM (fun s txId => s.reject now txId reason) s

/-- The first reason of a chain rejection, in any order of the reasons. -/
def chainRejectionError (now : Nat) (txid : TransactionHash) : Option SameEffectsChainRejectionError :=
  [.expired, .duplicateSpend, .mined, .randomlyEvicted].find? fun e => (s.chainRejectedSameEffects e).containsKey now txid

def rejectionError (now : Nat) (txid : UnminedTxId) : Option MempoolError :=
  (s.tipRejectedExact[txid]?.map .storageExactTip).or <|
    (s.tipRejectedSameEffects[txid.minedId]?.map .storageEffectsTip).or <|
      (s.chainRejectionError now txid.minedId).map .storageEffectsChain

/-- The eviction loop of `insert`, with the random choice of each round. -/
def evictLoop (now : Nat) (order : IterationOrder TransactionHash) (samplers : Nat → WeightedSampler) (unminedTxId : UnminedTxId) :
    (rounds : Nat) → Except MempoolError UnminedTxId → Storage →
      Outcome MempoolPanic ε (Except MempoolError UnminedTxId × Storage)
  | 0, _, _ => Outcome.panic .endlessEviction
  | rounds + 1, result, s =>
    if s.verified.totalCost ≤ s.txCostLimit then return (result, s)
    else do
      let (victim, verified) ← s.verified.evictOne order (samplers rounds)
      let victim ← Outcome.expect victim .emptyMempool
      let s ← { s with verified }.reject now victim.transaction.id (.sameEffectsChain .randomlyEvicted)
      let result := if victim.transaction.id = unminedTxId then .error (.storageEffectsChain .randomlyEvicted) else result
      evictLoop now order samplers unminedTxId rounds result s

def evictAll (now : Nat) (order : IterationOrder TransactionHash) (samplers : Nat → WeightedSampler) (unminedTxId : UnminedTxId)
    (result : Except MempoolError UnminedTxId) : Outcome MempoolPanic ε (Except MempoolError UnminedTxId × Storage) :=
  evictLoop now order samplers unminedTxId (s.verified.transactions.size + 1) result s

def insert [StandardPolicy] (now : Nat) (order : IterationOrder TransactionHash) (samplers : Nat → WeightedSampler)
    (tx : VerifiedUnminedTx) (spentMempoolOutpoints : List OutPoint) (height : Option Nat) :
    Outcome MempoolPanic ε (Except MempoolError UnminedTxId × Storage) :=
  let unminedTxId := tx.transaction.id
  match s.rejectionError now unminedTxId with
  | some error => return (.error error, s)
  | none =>
    if s.verified.contains unminedTxId.minedId then return (.error .inMempool, s)
    else
      match StandardPolicy.nonStandard tx with
      | some error => do
        let s ← s.reject now unminedTxId (.nonStandardTransaction error)
        return (.error (.nonStandardTransaction error), s)
      | none =>
        match s.verified.insert tx spentMempoolOutpoints height with
        | .ok verified => { s with verified }.evictAll now order samplers unminedTxId (.ok unminedTxId)
        | .error error => do
          let s ← s.reject now unminedTxId (.sameEffectsTip error)
          s.evictAll now order samplers unminedTxId (.error (.storageEffectsTip error))

def clearMinedDependencies (minedIds : List TransactionHash) : Storage :=
  { s with verified := s.verified.clearMinedDependencies minedIds }

def isDuplicateSpend (transactions : List Transaction) (tx : VerifiedUnminedTx) : Bool :=
  tx.transaction.transaction.spends.any fun spend => spend ∈ transactions.flatMap Transaction.spends

def rejectAndRemoveSameEffects (now : Nat) (order : IterationOrder TransactionHash) (minedIds : List TransactionHash)
    (transactions : List Transaction) : Outcome MempoolPanic ε (RemovedTransactionIds × Storage) := do
  let (mined, verified) ← s.verified.removeAllThat order fun tx => tx.minedId ∈ minedIds
  let duplicateSpendIds := (verified.transactions.toList.filter fun e => isDuplicateSpend transactions e.2).map fun e => e.2.transaction.id
  let (invalidated, verified) ← verified.removeAllThat order fun tx => tx.transaction.id ∈ duplicateSpendIds
  let s ← { s with verified }.rejectAll now (.sameEffectsChain .mined) (minedIds.map .legacy)
  let s ← s.rejectAll now (.sameEffectsChain .duplicateSpend) duplicateSpendIds
  return (⟨mined, invalidated⟩, s)

def rejectIfNeeded (now : Nat) (txId : UnminedTxId) : TransactionDownloadVerifyError → Outcome MempoolPanic ε Storage
  | .inState | .stateError | .downloadFailed | .cancelled => return s
  | .invalid => s.reject now txId (.exactTip .failedVerification)

def isExpired (tipHeight : Nat) (tx : VerifiedUnminedTx) : Bool := tx.transaction.expiryHeight.any fun expiryHeight => expiryHeight ≤ tipHeight

/-- Dependents of expired transactions are removed too, but only the expired ones are returned. -/
def removeExpiredTransactions (now : Nat) (order : IterationOrder TransactionHash) (tipHeight : Nat) :
    Outcome MempoolPanic ε (List UnminedTxId × Storage) := do
  let expired := s.verified.transactions.toList.filter fun e => isExpired tipHeight e.2
  let (_, verified) ← s.verified.removeAllThat order fun tx => tx.minedId ∈ expired.map Prod.fst
  let s ← { s with verified }.rejectAll now (.sameEffectsChain .expired) ((expired.map Prod.fst).map .legacy)
  return (expired.map fun e => e.2.transaction.id, s)

def txIds : List UnminedTxId := s.verified.transactions.toList.map fun e => e.2.transaction.id

end Storage

end Zebra
