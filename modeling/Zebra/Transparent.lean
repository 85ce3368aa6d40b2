import Zebra.Network

namespace Zebra

open Lib Std

abbrev TransactionHash := Nat

abbrev Script := Nat

/-- What the script interpreter library reports about a locking script: the kind of
standard address it pays to, if any, and the script of a given address. -/
class ScriptParsing where
  recipient : Script → Option (Bool × Nat)
  scriptOf : Bool → Nat → Script

@[ext]
structure OutPoint where
  hash : TransactionHash
  index : Nat
deriving DecidableEq

namespace OutPoint

def key (o : OutPoint) : List Nat := [o.hash, o.index]

theorem key_injective : Function.Injective key := by
  rintro ⟨h, i⟩ ⟨h', i'⟩ hk
  simpa [key] using hk

instance : Ord OutPoint := ⟨compareOn key⟩

instance : TransOrd OutPoint := inferInstanceAs (TransCmp (compareOn key))

instance : LawfulEqOrd OutPoint := lawfulEqCmp_compareOn key_injective

end OutPoint

structure Output where
  value : Amount .nonNegative
  lockScript : Script
deriving DecidableEq

def Output.address [ScriptParsing] (o : Output) (net : Network) : Option Address :=
  (ScriptParsing.recipient o.lockScript).map fun r => ⟨net.tAddrKind, r.1, r.2⟩

inductive Input where
  | prevOut (outpoint : OutPoint)
  | coinbase (height : Nat)
deriving DecidableEq

def Input.outpoint : Input → Option OutPoint
  | prevOut o => some o
  | coinbase _ => none

structure Utxo where
  output : Output
  height : Nat
  fromCoinbase : Bool
deriving DecidableEq

structure OrderedUtxo where
  utxo : Utxo
  txIndexInBlock : Nat
deriving DecidableEq

abbrev OrderedUtxos := KeyedMap OutPoint OrderedUtxo

def OrderedUtxo.new (output : Output) (height : Nat) (txIndexInBlock : Nat) : OrderedUtxo :=
  ⟨⟨output, height, txIndexInBlock == 0⟩, txIndexInBlock⟩

end Zebra
