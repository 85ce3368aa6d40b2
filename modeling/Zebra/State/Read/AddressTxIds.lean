import Mathlib.Data.Multiset.Dedup
import Mathlib.Data.Multiset.Sort
import Zebra.State.Read.AddressBalance

namespace Zebra

open Lib Std ExtTreeMap Outcome

namespace TransactionLocation

def key (l : TransactionLocation) : List Nat := [l.height, l.index]

theorem key_injective : Function.Injective key := by
  rintro ⟨h, i⟩ ⟨h', i'⟩ hk
  simpa [key] using hk

instance : Ord TransactionLocation := ⟨compareOn key⟩

instance : TransOrd TransactionLocation := inferInstanceAs (TransCmp (compareOn key))

instance : LawfulEqOrd TransactionLocation := lawfulEqCmp_compareOn key_injective

def max (l l' : TransactionLocation) : TransactionLocation := if (compare l l').isLE then l' else l

/-- The place of a bound in the database, where heights that do not fit are cut off. -/
def onDisk (l : TransactionLocation) : TransactionLocation := { l with height := min l.height maxOnDiskHeight }

end TransactionLocation

abbrev TxIds := KeyedMap TransactionLocation TransactionHash

structure QueryHeightRange where
  first : Nat
  last : Nat

def QueryHeightRange.contains (range : QueryHeightRange) (height : Nat) : Bool :=
  range.first ≤ height && height ≤ range.last

def txIdAtLocation {ε : Type} (chainTxLocByHash : KeyedMap TransactionHash TransactionLocation) (hash : TransactionHash) :
    Exec ε (TransactionLocation × TransactionHash) := do
  let location ← expect chainTxLocByHash[hash]? .missingTransaction
  return (location, hash)

/-- The ids of the transactions that sent to or received from the address, within the range. -/
def TransparentTransfers.txIdsIn {ε : Type} (t : TransparentTransfers)
    (chainTxLocByHash : KeyedMap TransactionHash TransactionLocation) (range : QueryHeightRange) : Exec ε TxIds := do
  let ids ← (t.txIds.dedup.sort (· ≤ ·)).mapM (txIdAtLocation chainTxLocByHash)
  return ofList (ids.filter fun x => range.contains x.1.height) compare

def Chain.partialTransparentTxIds {ε : Type} (c : Chain) (addresses : List Address) (range : QueryHeightRange) :
    Exec ε TxIds := do
  let ids ← (c.partialTransparentIndexes addresses).mapM fun t => t.txIdsIn c.inner.txLocByHash range
  return ofList (ids.flatMap (·.toList)) compare

namespace AddressTransaction

/-- From the first output of the address, or from the first height of the query, to the last
possible transaction at the last height. -/
def addressIteratorRange (addressLocation : OutputLocation) (query : QueryHeightRange) :
    AddressTransaction × AddressTransaction :=
  let start := addressLocation.transactionLocation.max ⟨query.first, 0⟩
  (⟨addressLocation, start.onDisk⟩, ⟨addressLocation, (⟨query.last, 2 ^ 16 - 1⟩ : TransactionLocation).onDisk⟩)

end AddressTransaction

namespace ZebraDb

variable {ε : Type}

/-- `hash_by_tx_loc` is the inverse of `tx_loc_by_hash`. -/
def txIdByLocation (db : ZebraDb) (location : TransactionLocation) : Option TransactionHash :=
  (db.txLocByHash.toList.find? fun x => x.2 = location).map Prod.fst

def addressTransactionLocations (db : ZebraDb) (addressLocation : OutputLocation) (query : QueryHeightRange) :
    List AddressTransaction :=
  let (first, last) := AddressTransaction.addressIteratorRange addressLocation query
  db.txLocByTransparentAddrLoc.keys.filter fun t => (compare first t).isLE && (compare t last).isLE

def addressTransactionId (db : ZebraDb) (t : AddressTransaction) : Exec ε (TransactionLocation × TransactionHash) := do
  let hash ← expect (db.txIdByLocation t.transactionLocation) .missingTransaction
  return (t.transactionLocation, hash)

def addressTxIds (db : ZebraDb) (a : Address) (query : QueryHeightRange) : Exec ε TxIds := do
  match ← db.balanceByTransparentAddr.addressBalanceLocation a with
  | none => return ∅
  | some x =>
    -- the address was first used after the range
    if query.last < x.location.transactionLocation.height then return ∅
    else do
      let ids ← (db.addressTransactionLocations x.location query).mapM db.addressTransactionId
      return ofList ids compare

/-- Every address may be read from another state of the database. -/
def partialFinalizedTransparentTxIds (db : Address → ZebraDb) (addresses : List Address) (query : QueryHeightRange) :
    Exec ε TxIds := do
  let ids ← addresses.mapM fun a => (db a).addressTxIds a query
  return ofList (ids.flatMap (·.toList)) compare

end ZebraDb

namespace Read

def emptyChainTxIdsMessage : String :=
  "unable to get tx IDs: state was committing a block, and non-finalized chain is empty"

def missingBlockTxIdsMessage : String :=
  "unable to get tx IDs: state was committing a block, that is missing from the non-finalized chain, " ++
    "and the query has multiple addresses"

def finalizedTransparentTxIds {ε : Type} (addresses : List Address) (query : QueryHeightRange) (read : FinalizedRead) :
    Exec ε (TxIds × Option (Nat × Nat)) := do
  let ids ← ZebraDb.partialFinalizedTransparentTxIds read.during addresses query
  return (ids, do
    let start ← read.before.finalizedTipHeight
    let stop ← read.after.finalizedTipHeight
    return (start, stop))

/-- The query for a non-finalized chain. The finalized tip was at the height `start` before the
finalized ids were read, and at the height `stop` afterwards. -/
def overlappingTxIdChanges (chain : Chain) (addresses : List Address) (start stop : Nat) (query : QueryHeightRange) :
    Exec String TxIds := do
  let root ← chain.inner.nonFinalizedRootHeight
  let tip ← chain.inner.nonFinalizedTipHeight
  check (root ≤ start + 1) .chainGap
  if stop < start + 1 then
    -- one finalized tip: a chain that is already finalized is ignored
    if tip ≤ stop then return ∅ else chain.partialTransparentTxIds addresses query
  else if 1 < addresses.length ∧ tip < stop then .fail missingBlockTxIdsMessage
  else do
    check (addresses.length ≤ 1 ∨
      ∀ height ∈ List.range' (start + 1) (stop - start), height ∈ chain.inner.blocks) .overlapBlocks
    chain.partialTransparentTxIds addresses query

def chainTransparentTxIdChanges (chain : Option Chain) (addresses : List Address)
    (finalizedTipRange : Option (Nat × Nat)) (query : QueryHeightRange) : Exec String TxIds :=
  match finalizedTipRange with
  | none => do
    check chain.isNone .unexpectedChain
    return ∅
  | some (start, stop) =>
    match chain with
    | none =>
      if addresses.length ≤ 1 ∨ stop < start + 1 then return ∅ else .fail emptyChainTxIdsMessage
    | some chain => overlappingTxIdChanges chain addresses start stop query

def applyTxIdChanges (finalizedTxIds chainTxIds : TxIds) : TxIds :=
  ofList (finalizedTxIds.toList ++ chainTxIds.toList) compare

/-- One attempt of the query. -/
def attemptTransparentTxIds (chain : Option Chain) (addresses : List Address) (query : QueryHeightRange)
    (read : FinalizedRead) : Exec String TxIds := do
  let (finalizedTxIds, finalizedTipRange) ← finalizedTransparentTxIds addresses query read
  let chainTxIds ← chainTransparentTxIdChanges chain addresses finalizedTipRange query
  return applyTxIdChanges finalizedTxIds chainTxIds

def transparentTxIds (chain : Option Chain) (reads : Nat → FinalizedRead) (addresses : List Address)
    (query : QueryHeightRange) : Exec String TxIds :=
  retry (attemptTransparentTxIds chain addresses query) finalizedStateQueryRetries reads

end Read

end Zebra
