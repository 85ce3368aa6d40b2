import Zebra.Lib.MergeStore
import Zebra.State.AddressBalance

namespace Zebra

open Lib Std Outcome

structure AddressUnspentOutput where
  addressLocation : OutputLocation
  unspentOutputLocation : OutputLocation
deriving DecidableEq

structure AddressTransaction where
  addressLocation : OutputLocation
  transactionLocation : TransactionLocation
deriving DecidableEq

namespace AddressUnspentOutput

def key (u : AddressUnspentOutput) : List (List Nat) := [u.addressLocation.key, u.unspentOutputLocation.key]

theorem key_injective : Function.Injective key := by
  rintro ⟨a, l⟩ ⟨a', l'⟩ h
  simp only [key, List.cons.injEq, and_true] at h
  rw [OutputLocation.key_injective h.1, OutputLocation.key_injective h.2]

instance : Ord AddressUnspentOutput := ⟨compareOn key⟩

instance : TransOrd AddressUnspentOutput := inferInstanceAs (TransCmp (compareOn key))

instance : LawfulEqOrd AddressUnspentOutput := lawfulEqCmp_compareOn key_injective

end AddressUnspentOutput

namespace AddressTransaction

def key (t : AddressTransaction) : List (List Nat) :=
  [t.addressLocation.key, [t.transactionLocation.height, t.transactionLocation.index]]

theorem key_injective : Function.Injective key := by
  rintro ⟨a, ⟨h, i⟩⟩ ⟨a', ⟨h', i'⟩⟩ hk
  simp only [key, List.cons.injEq, and_true] at hk
  rw [OutputLocation.key_injective hk.1, hk.2.1, hk.2.2]

instance : Ord AddressTransaction := ⟨compareOn key⟩

instance : TransOrd AddressTransaction := inferInstanceAs (TransCmp (compareOn key))

instance : LawfulEqOrd AddressTransaction := lawfulEqCmp_compareOn key_injective

end AddressTransaction

/-- The balances, or the changes of them, that a block writes. -/
abbrev AddressBalances (C : Constraint) := KeyedMap Address (AddressBalanceLocationInner C)

namespace AddressBalances

variable {C : Constraint} {ε : Type} [ScriptParsing] (net : Network)

/-- A new output: its address gets the location of the output unless it has one. -/
def receive (m : AddressBalances C) (l : OutputLocation) (o : Output) :
    Exec ε (AddressBalances C × Option OutputLocation) :=
  match o.address net with
  | none => return (m, none)
  | some a => do
    let x ← unwrap ((m[a]?.getD (.new l)).receiveOutput o) .balanceOverflow
    return (m.insert a x, some x.location)

def spend (m : AddressBalances C) (_ : OutputLocation) (o : Output) :
    Exec ε (AddressBalances C × Option OutputLocation) :=
  match o.address net with
  | none => return (m, none)
  | some a => do
    let x ← expect m[a]? .missingAddressBalance
    let x ← unwrap (x.spendOutput o) .balanceUnderflow
    return (m.insert a x, some x.location)

omit [ScriptParsing] in
/-- One pass over the outputs of a block, in the order of their locations. It returns the
links from addresses to outputs. -/
def pass (step : AddressBalances C → OutputLocation → Output → Exec ε (AddressBalances C × Option OutputLocation)) :
    AddressBalances C → List (OutputLocation × Utxo) → Exec ε (AddressBalances C × List AddressUnspentOutput)
  | m, [] => return (m, [])
  | m, (l, u) :: us => do
    let (m, a) ← step m l u.output
    let (m, links) ← pass step m us
    return (m, (a.map fun a => ⟨a, l⟩).toList ++ links)

/-- The link from the address of a spent output to the transaction that spends it. -/
def spendingLink (m : AddressBalances C) (spent : KeyedMap OutPoint Utxo) (l : TransactionLocation) (o : OutPoint) :
    Exec ε (Option AddressTransaction) := do
  let u ← expect spent[o]? .spentOutputMissing
  match u.output.address net with
  | none => return none
  | some a =>
    let x ← expect m[a]? .missingAddressBalance
    return some ⟨x.location, l⟩

def spendingLinks (m : AddressBalances C) (spent : KeyedMap OutPoint Utxo) (height : Nat) (x : Transaction × Nat) :
    Exec ε (List AddressTransaction) := do
  let l ← TransactionLocation.fromUsize height x.2
  let links ← x.1.spentOutpoints.mapM (m.spendingLink net spent l)
  return links.reduceOption

end AddressBalances

/-- The table of balances: the database may still have to merge some of the changes. -/
abbrev BalanceTable := KeyedMap Address (MergeStore Bytes)

namespace BalanceTable

variable {C : Constraint} {ε : Type}

def get (s : MergeStore Bytes) : Exec ε (Option Bytes) :=
  if s.pending = [] then return s.base else fetchAddBalanceAndReceived s.base s.pending

def addressBalanceLocation (t : BalanceTable) (a : Address) : Exec ε (Option AddressBalanceLocation) := do
  match ← get (t[a]?.getD {}) with
  | none => return none
  | some bytes => some <$> AddressBalanceLocationInner.fromBytes .nonNegative bytes

/-- How a block updates the table: with full balances, once no format upgrade can change them
at the same time, and with changes to be merged until then. -/
structure Mode (C : Constraint) where
  start : AddressBalanceLocation → AddressBalanceLocationInner C
  write : MergeStore Bytes → Bytes → MergeStore Bytes

def insertMode : Mode .nonNegative := ⟨id, fun _ bytes => ⟨some bytes, []⟩⟩

def mergeMode : Mode .negativeAllowed := ⟨AddressBalanceLocation.intoNewChange, MergeStore.merge⟩

def readAddrLocs (t : BalanceTable) (mode : Mode C) (addresses : List Address) : Exec ε (AddressBalances C) :=
  addresses.foldlM (fun m a => do
    let x ← t.addressBalanceLocation a
    return (x.map fun x => m.insert a (mode.start x)).getD m) ∅

def writeAddrLocs (t : BalanceTable) (mode : Mode C) (m : AddressBalances C) : BalanceTable :=
  t.insertMany (m.toList.map fun x => (x.1, mode.write (t[x.1]?.getD {}) x.2.asBytes))

variable [ScriptParsing] (net : Network)

def changedAddresses (spent new : List (OutputLocation × Utxo)) : List Address :=
  ((spent ++ new).filterMap fun x => x.2.output.address net).dedup

/-- The balances after a block, with the links that it creates and deletes. -/
def prepare (t : BalanceTable) (mode : Mode C) (new spent : List (OutputLocation × Utxo)) :
    Exec ε (AddressBalances C × List AddressUnspentOutput × List AddressUnspentOutput) := do
  let m ← t.readAddrLocs mode (changedAddresses net spent new)
  let (m, created) ← AddressBalances.pass (AddressBalances.receive net) m new
  let (m, deleted) ← AddressBalances.pass (AddressBalances.spend net) m spent
  return (m, created, deleted)

end BalanceTable

end Zebra
