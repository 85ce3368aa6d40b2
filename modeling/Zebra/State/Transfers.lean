import Zebra.Block

namespace Zebra

open Lib Std Outcome

structure TransactionLocation where
  height : Nat
  index : Nat
deriving DecidableEq

def TransactionLocation.fromUsize {ε : Type} (height index : Nat) : Exec ε TransactionLocation := do
  check (index < 2 ^ 16) .transactionIndex
  return ⟨height, index⟩

structure OutputLocation where
  transactionLocation : TransactionLocation
  outputIndex : Nat
deriving DecidableEq

namespace OutputLocation

def fromOutpoint (location : TransactionLocation) (o : OutPoint) : OutputLocation := ⟨location, o.index⟩

def key (l : OutputLocation) : List Nat :=
  [l.transactionLocation.height, l.transactionLocation.index, l.outputIndex]

theorem key_injective : Function.Injective key := by
  rintro ⟨⟨h, i⟩, o⟩ ⟨⟨h', i'⟩, o'⟩ hk
  simpa [key, and_assoc] using hk

instance : Ord OutputLocation := ⟨compareOn key⟩

instance : TransOrd OutputLocation := inferInstanceAs (TransCmp (compareOn key))

instance : LawfulEqOrd OutputLocation := lawfulEqCmp_compareOn key_injective

end OutputLocation

abbrev LocatedUtxos := KeyedMap OutputLocation Utxo

def transactionLocation {ε : Type} (u : OrderedUtxo) : Exec ε TransactionLocation :=
  TransactionLocation.fromUsize u.utxo.height u.txIndexInBlock

structure TransparentTransfers where
  balance : Amount .negativeAllowed
  txIds : Multiset TransactionHash
  createdUtxos : KeyedMap OutputLocation Output
  spentUtxos : KeyedMap OutputLocation Unit

namespace TransparentTransfers

variable {ε : Type}

def default : TransparentTransfers := ⟨.zero, 0, ∅, ∅⟩

instance : Inhabited TransparentTransfers := ⟨default⟩

def isEmpty (t : TransparentTransfers) : Bool :=
  t.balance = .zero && t.txIds = 0 && t.createdUtxos.isEmpty && t.spentUtxos.isEmpty

def updateCreated (t : TransparentTransfers) (outpoint : OutPoint) (createdUtxo : OrderedUtxo) :
    Exec ε TransparentTransfers := do
  let output := createdUtxo.utxo.output
  let balance ← unwrap (t.balance.add output.value.widen) .balanceOverflow
  let location := OutputLocation.fromOutpoint (← transactionLocation createdUtxo) outpoint
  let createdUtxos ← t.createdUtxos.insertNew location output .duplicateAddressUtxo
  return { t with balance, createdUtxos, txIds := outpoint.hash ::ₘ t.txIds }

def revertCreated (t : TransparentTransfers) (outpoint : OutPoint) (createdUtxo : OrderedUtxo) :
    Exec ε TransparentTransfers := do
  let output := createdUtxo.utxo.output
  let balance ← unwrap (t.balance.sub output.value.widen) .balanceUnderflow
  let location := OutputLocation.fromOutpoint (← transactionLocation createdUtxo) outpoint
  let createdUtxos ← t.createdUtxos.removePresent location .missingAddressUtxo
  check (outpoint.hash ∈ t.txIds) .missingAddressTransaction
  return { t with balance, createdUtxos, txIds := t.txIds.erase outpoint.hash }

def updateSpent (t : TransparentTransfers) (spentOutpoint : OutPoint) (spendingTxHash : TransactionHash)
    (spentOutput : OrderedUtxo) : Exec ε TransparentTransfers := do
  let balance ← unwrap (t.balance.sub spentOutput.utxo.output.value.widen) .balanceUnderflow
  let location := OutputLocation.fromOutpoint (← transactionLocation spentOutput) spentOutpoint
  let spentUtxos ← t.spentUtxos.insertNew location () .duplicateAddressUtxo
  return { t with balance, spentUtxos, txIds := spendingTxHash ::ₘ t.txIds }

def revertSpent (t : TransparentTransfers) (spentOutpoint : OutPoint) (spendingTxHash : TransactionHash)
    (spentOutput : OrderedUtxo) : Exec ε TransparentTransfers := do
  let balance ← unwrap (t.balance.add spentOutput.utxo.output.value.widen) .balanceOverflow
  let location := OutputLocation.fromOutpoint (← transactionLocation spentOutput) spentOutpoint
  let spentUtxos ← t.spentUtxos.removePresent location .missingAddressUtxo
  check (spendingTxHash ∈ t.txIds) .missingAddressTransaction
  return { t with balance, spentUtxos, txIds := t.txIds.erase spendingTxHash }

end TransparentTransfers

end Zebra
