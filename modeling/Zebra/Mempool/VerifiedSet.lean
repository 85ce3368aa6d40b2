import Zebra.Lib.Dependencies
import Zebra.Mempool.UnminedTx

namespace Zebra

open Lib Std Outcome

abbrev TransactionDependencies := DependencyMaps TransactionHash

namespace TransactionDependencies

def add (d : TransactionDependencies) (dependent : TransactionHash) (spentMempoolOutpoints : List OutPoint) :
    TransactionDependencies :=
  d.link dependent (spentMempoolOutpoints.map OutPoint.hash)

def clearMinedDependencies (d : TransactionDependencies) (minedIds : List TransactionHash) : TransactionDependencies :=
  minedIds.foldl DependencyMaps.unlink d

def directDependents (d : TransactionDependencies) (txHash : TransactionHash) : KeyedMap TransactionHash Unit :=
  d.dependents.bucket txHash

def directDependencies (d : TransactionDependencies) (txHash : TransactionHash) : KeyedMap TransactionHash Unit :=
  d.dependencies.bucket txHash

end TransactionDependencies

inductive SameEffectsTipRejectionError where
  | spendConflict
  | missingOutput
deriving DecidableEq

inductive MempoolPanic where
  | endlessRemoval
  | endlessEviction
  | sizeUnderflow
  | costUnderflow
  | weights
  | sampledKey
  | emptyMempool
  | evictedTwice
  | missingEntry
deriving DecidableEq

abbrev MempoolExec := Outcome MempoolPanic Empty

/-- `WeightedIndex::sample`: any index with a positive weight. -/
structure WeightedSampler where
  sample : List Nat → Nat
  valid : ∀ weights, 0 < weights.sum → ∃ w, weights[sample weights]? = some w ∧ 0 < w

structure VerifiedSet [TransactionIds] where
  transactions : KeyedMap TransactionHash VerifiedUnminedTx
  transactionDependencies : TransactionDependencies
  createdOutputs : KeyedMap OutPoint Output
  transactionsSerializedSize : Nat
  totalCost : Nat
  spentOutpoints : KeyedMap OutPoint Unit
  sproutNullifiers : KeyedMap Nat Unit
  saplingNullifiers : KeyedMap Nat Unit
  orchardNullifiers : KeyedMap Nat Unit

namespace VerifiedSet

variable [TransactionIds] {ε : Type}

def empty : VerifiedSet := ⟨∅, .empty, ∅, 0, 0, ∅, ∅, ∅, ∅⟩

variable (s : VerifiedSet)

def contains (id : TransactionHash) : Bool := id ∈ s.transactions

def clear : VerifiedSet := empty

def hasConflicts {κ : Type} [Ord κ] [TransOrd κ] (set : KeyedMap κ Unit) (list : List κ) : Bool :=
  list.any fun item => item ∈ set

def hasSpendConflicts (tx : Transaction) : Bool :=
  hasConflicts s.spentOutpoints tx.spentOutpoints || hasConflicts s.sproutNullifiers tx.sproutNullifiers ||
    hasConflicts s.saplingNullifiers tx.saplingNullifiers || hasConflicts s.orchardNullifiers tx.orchardNullifiers

def outputsOf (id : TransactionHash) (tx : Transaction) : List (OutPoint × Output) :=
  tx.outputs.zipIdx.map fun e => (⟨id, e.2⟩, e.1)

def extend {κ : Type} [Ord κ] [TransOrd κ] (set : KeyedMap κ Unit) (items : List κ) : KeyedMap κ Unit :=
  set.insertMany (items.map fun item => (item, ()))

/-- The requests that wait for an output are answered elsewhere. -/
def insert (tx : VerifiedUnminedTx) (spentMempoolOutpoints : List OutPoint) (height : Option Nat) :
    Except SameEffectsTipRejectionError VerifiedSet :=
  let effects := tx.transaction.transaction
  if s.hasSpendConflicts effects then .error .spendConflict
  else if spentMempoolOutpoints.any fun o => o ∉ s.createdOutputs then .error .missingOutput
  else .ok {
    transactions := s.transactions.insert tx.minedId { tx with height }
    transactionDependencies := s.transactionDependencies.add tx.minedId spentMempoolOutpoints
    createdOutputs := s.createdOutputs.insertMany (outputsOf tx.minedId effects)
    transactionsSerializedSize := s.transactionsSerializedSize + tx.transaction.size
    totalCost := s.totalCost + tx.cost
    spentOutpoints := extend s.spentOutpoints effects.spentOutpoints
    sproutNullifiers := extend s.sproutNullifiers effects.sproutNullifiers
    saplingNullifiers := extend s.saplingNullifiers effects.saplingNullifiers
    orchardNullifiers := extend s.orchardNullifiers effects.orchardNullifiers }

def removeOutputs (tx : UnminedTx) : VerifiedSet :=
  { s with
    createdOutputs := s.createdOutputs.eraseAll ((List.range tx.transaction.outputs.length).map (OutPoint.mk tx.id.minedId))
    spentOutpoints := s.spentOutpoints.eraseAll tx.transaction.spentOutpoints
    sproutNullifiers := s.sproutNullifiers.eraseAll tx.transaction.sproutNullifiers
    saplingNullifiers := s.saplingNullifiers.eraseAll tx.transaction.saplingNullifiers
    orchardNullifiers := s.orchardNullifiers.eraseAll tx.transaction.orchardNullifiers }

/-- An unknown key is only logged. -/
def removeOne (key : TransactionHash) : Outcome MempoolPanic ε (Option VerifiedUnminedTx × VerifiedSet) :=
  match s.transactions[key]? with
  | none => return (none, s)
  | some tx => do
    check (tx.transaction.size ≤ s.transactionsSerializedSize) .sizeUnderflow
    check (tx.cost ≤ s.totalCost) .costUnderflow
    let s := { s with
      transactions := s.transactions.erase key
      transactionsSerializedSize := s.transactionsSerializedSize - tx.transaction.size
      totalCost := s.totalCost - tx.cost }
    return (some tx, s.removeOutputs tx.transaction)

def removeEach : VerifiedSet → List TransactionHash → Outcome MempoolPanic ε (List VerifiedUnminedTx × VerifiedSet)
  | s, [] => return ([], s)
  | s, key :: keys => do
    let (removed, s) ← s.removeOne key
    let (rest, s) ← removeEach s keys
    return (removed.toList ++ rest, s)

/-- The transaction itself is removed last. -/
def remove (order : IterationOrder TransactionHash) (keyToRemove : TransactionHash) :
    Outcome MempoolPanic ε (List VerifiedUnminedTx × VerifiedSet) := do
  let (all, dependencies) ← expect (s.transactionDependencies.removeAll order keyToRemove) .endlessRemoval
  { s with transactionDependencies := dependencies }.removeEach (order.arrange all.keys ++ [keyToRemove])

def evictOne (order : IterationOrder TransactionHash) (sampler : WeightedSampler) :
    Outcome MempoolPanic ε (Option VerifiedUnminedTx × VerifiedSet) := do
  let weights := s.transactions.toList.map fun e => e.2.evictionWeight
  check (0 < weights.sum) .weights
  let keyToRemove ← expect s.transactions.keys[sampler.sample weights]? .sampledKey
  let (removed, s) ← s.remove order keyToRemove
  return (removed.getLast?, s)

def clearMinedDependencies (minedIds : List TransactionHash) : VerifiedSet :=
  { s with transactionDependencies := s.transactionDependencies.clearMinedDependencies minedIds }

/-- The removed ids come with those of dependents. -/
def removeKeys (order : IterationOrder TransactionHash) :
    VerifiedSet → List TransactionHash → Outcome MempoolPanic ε (List UnminedTxId × VerifiedSet)
  | s, [] => return ([], s)
  | s, key :: keys =>
    if key ∈ s.transactions then do
      let (removed, s) ← s.remove order key
      let (rest, s) ← removeKeys order s keys
      return (removed.map (fun tx => tx.transaction.id) ++ rest, s)
    else removeKeys order s keys

def removeAllThat (order : IterationOrder TransactionHash) (predicate : VerifiedUnminedTx → Bool) :
    Outcome MempoolPanic ε (List UnminedTxId × VerifiedSet) :=
  s.removeKeys order (order.arrange ((s.transactions.filter fun _ tx => predicate tx).keys))

end VerifiedSet

end Zebra
