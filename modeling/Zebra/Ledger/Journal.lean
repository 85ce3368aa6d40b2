import Mathlib.Algebra.BigOperators.Group.Multiset.Basic
import Zebra.Lib.RunningTotal
import Zebra.State.Transactions

namespace Zebra.Ledger

open Lib

variable {ε : Type}

/-- One movement of a transparent output in the index of its address. -/
inductive Transfer where
  | received (outpoint : OutPoint) (utxo : OrderedUtxo)
  | sent (outpoint : OutPoint) (utxo : OrderedUtxo) (txId : TransactionHash)
deriving DecidableEq

namespace Transfer

def outpoint : Transfer → OutPoint
  | received o _ | sent o _ _ => o

def utxo : Transfer → OrderedUtxo
  | received _ u | sent _ u _ => u

def txId : Transfer → TransactionHash
  | received o _ => o.hash
  | sent _ _ tx => tx

def delta : Transfer → Int
  | received _ u => u.utxo.output.value.zatoshis
  | sent _ u _ => -u.utxo.output.value.zatoshis

def location (t : Transfer) : OutputLocation :=
  ⟨⟨t.utxo.utxo.height, t.utxo.txIndexInBlock⟩, t.outpoint.index⟩

def received? : Transfer → Option (OutputLocation × Output)
  | t@(received _ u) => some (t.location, u.utxo.output)
  | sent .. => none

def sent? : Transfer → Option (OutputLocation × Unit)
  | received .. => none
  | t@(sent ..) => some (t.location, ())

def write (t : TransparentTransfers) : Transfer → Exec ε TransparentTransfers
  | received o u => t.updateCreated o u
  | sent o u tx => t.updateSpent o tx u

def erase (t : TransparentTransfers) : Transfer → Exec ε TransparentTransfers
  | received o u => t.revertCreated o u
  | sent o u tx => t.revertSpent o tx u

end Transfer

/-- One write to the transaction indexes of a chain. A `fault` stands for data that is
missing from the block. -/
inductive Entry where
  | fault (p : Panic)
  | location (hash : TransactionHash) (location : TransactionLocation)
  | created (outpoint : OutPoint) (utxo : OrderedUtxo)
  | spent (outpoint : OutPoint) (txId : TransactionHash)
  | nullifier (pool : Pool) (nullifier : Nat) (txId : TransactionHash)
  | transfer (address : Address) (transfer : Transfer)
deriving DecidableEq

/-- What an entry occupies: no two entries of a chain have the same key. -/
inductive Key where
  | fault
  | location (hash : TransactionHash)
  | created (outpoint : OutPoint)
  | spent (outpoint : OutPoint)
  | nullifier (pool : Pool) (nullifier : Nat)
  | received (address : Address) (location : OutputLocation)
  | sent (address : Address) (location : OutputLocation)
deriving DecidableEq

namespace Entry

def key : Entry → Key
  | fault _ => .fault
  | location h _ => .location h
  | created o _ => .created o
  | spent o _ => .spent o
  | nullifier p n _ => .nullifier p n
  | transfer a t@(.received ..) => .received a t.location
  | transfer a t@(.sent ..) => .sent a t.location

def location? : Entry → Option (TransactionHash × TransactionLocation)
  | location h l => some (h, l)
  | _ => none

def created? : Entry → Option (OutPoint × OrderedUtxo)
  | created o u => some (o, u)
  | _ => none

def spent? : Entry → Option (OutPoint × TransactionHash)
  | spent o tx => some (o, tx)
  | _ => none

def nullifier? (p : Pool) : Entry → Option (Nat × TransactionHash)
  | nullifier p' n tx => if p' = p then some (n, tx) else none
  | _ => none

def transfer? (a : Address) : Entry → Option Transfer
  | transfer a' t => if a' = a then some t else none
  | _ => none

def delta? : Entry → Option (Address × Int)
  | transfer a t => some (a, t.delta)
  | _ => none

/-- The parts of an entry that do not depend on the chain: nothing is missing, and
transaction indexes fit into sixteen bits. -/
def Sound : Entry → Prop
  | fault _ => False
  | location _ l => l.index < 2 ^ 16
  | transfer _ t => t.utxo.txIndexInBlock < 2 ^ 16
  | created .. | spent .. | nullifier .. => True

instance : DecidablePred Sound
  | fault _ => isFalse id
  | location _ l => inferInstanceAs (Decidable (l.index < 2 ^ 16))
  | transfer _ t => inferInstanceAs (Decidable (t.utxo.txIndexInBlock < 2 ^ 16))
  | created .. | spent .. | nullifier .. => isTrue trivial

def write (idx : TxIndexes) : Entry → Validated TxIndexes
  | fault p => .panic p
  | location h l => do
    let l ← TransactionLocation.fromUsize l.height l.index
    let txLocByHash ← idx.txLocByHash.insertNew h l .duplicateTransaction
    return { idx with txLocByHash }
  | created o u => do
    let createdUtxos ← idx.createdUtxos.insertNew o u .duplicateCreatedUtxo
    return { idx with createdUtxos }
  | spent o tx => do
    let spentUtxos ← idx.spentUtxos.insertNew o tx .duplicateSpentUtxo
    return { idx with spentUtxos }
  | nullifier p n tx =>
    if n ∈ idx.nullifiers p then .fail (.duplicateNullifier p n false)
    else return idx.setNullifiers p ((idx.nullifiers p).insert n tx)
  | transfer a t => idx.updateTransfers a fun transfers => t.write transfers

def erase (idx : TxIndexes) : Entry → Exec ε TxIndexes
  | fault p => .panic p
  | location h _ => do
    let txLocByHash ← idx.txLocByHash.removePresent h .missingTransaction
    return { idx with txLocByHash }
  | created o _ => do
    let createdUtxos ← idx.createdUtxos.removePresent o .duplicateCreatedUtxo
    return { idx with createdUtxos }
  | spent o _ => do
    let spentUtxos ← idx.spentUtxos.removePresent o .duplicateSpentUtxo
    return { idx with spentUtxos }
  | nullifier p n _ => do
    let m ← (idx.nullifiers p).removePresent n .missingNullifier
    return idx.setNullifiers p m
  | transfer a t => idx.revertTransfers a fun transfers => t.erase transfers

end Entry

def writeAll (idx : TxIndexes) (es : List Entry) : Validated TxIndexes :=
  es.foldlM Entry.write idx

def eraseAll (idx : TxIndexes) (es : List Entry) : Exec ε TxIndexes := es.foldlM Entry.erase idx

def deltas (es : List Entry) : List (Address × Int) := es.filterMap Entry.delta?

def undone (l : List (Address × Int)) : List (Address × Int) := l.map fun c => (c.1, -c.2)

end Zebra.Ledger
