import Zebra.Lib.Bytes
import Zebra.State.Transfers

namespace Zebra

open Lib

/-- Heights are stored as three bytes, and higher ones as the highest that fits. -/
def maxOnDiskHeight : Nat := 2 ^ 24 - 1

def maxOnDiskOutputIndex : Nat := 2 ^ 24 - 1

namespace OutputLocation

/-- The location as it is read back: `TransactionIndex` is a `u16`. -/
def onDisk (l : OutputLocation) : OutputLocation :=
  ⟨⟨min l.transactionLocation.height maxOnDiskHeight, l.transactionLocation.index % 2 ^ 16⟩,
    min l.outputIndex maxOnDiskOutputIndex⟩

def asBytes (l : OutputLocation) : Bytes :=
  .toBE 3 (min l.transactionLocation.height maxOnDiskHeight) ++ .toBE 2 (l.transactionLocation.index % 2 ^ 16) ++
    .toBE 3 (min l.outputIndex maxOnDiskOutputIndex)

def fromBytes (bytes : Bytes) : OutputLocation :=
  ⟨⟨Bytes.ofBE (bytes.take 3), Bytes.ofBE ((bytes.drop 3).take 2)⟩, Bytes.ofBE (bytes.drop 5)⟩

@[simp] theorem length_asBytes (l : OutputLocation) : l.asBytes.length = 8 := by simp [asBytes]

theorem fromBytes_asBytes (l : OutputLocation) : fromBytes l.asBytes = l.onDisk := by
  have hheight : min l.transactionLocation.height maxOnDiskHeight < 256 ^ 3 := by
    simp only [maxOnDiskHeight]
    omega
  have houtput : min l.outputIndex maxOnDiskOutputIndex < 256 ^ 3 := by
    simp only [maxOnDiskOutputIndex]
    omega
  have hindex : l.transactionLocation.index % 2 ^ 16 < 256 ^ 2 := Nat.mod_lt _ (by decide)
  have hlen := Bytes.length_toBE 3 (min l.transactionLocation.height maxOnDiskHeight)
  have hlen' := Bytes.length_toBE 2 (l.transactionLocation.index % 2 ^ 16)
  rw [fromBytes, onDisk, asBytes, List.append_assoc, List.take_left' hlen, List.drop_left' hlen,
    List.take_left' hlen', ← List.append_assoc, List.drop_left' (by simp), Bytes.ofBE_toBE hheight,
    Bytes.ofBE_toBE hindex, Bytes.ofBE_toBE houtput]

@[simp] theorem onDisk_onDisk (l : OutputLocation) : l.onDisk.onDisk = l.onDisk := by
  simp [onDisk]

def min (l l' : OutputLocation) : OutputLocation := if compare l l' = .gt then l' else l

@[simp] theorem min_self (l : OutputLocation) : l.min l = l := by simp [min]

end OutputLocation

def saturatingAdd (a b : Nat) : Nat := min (a + b) (2 ^ 64 - 1)

/-- The balance of an address or a change of it, what the address received in total, and
where it first received an output. -/
@[ext]
structure AddressBalanceLocationInner (C : Constraint) where
  balance : Amount C
  received : Nat
  location : OutputLocation
  received_lt : received < 2 ^ 64

abbrev AddressBalanceLocation := AddressBalanceLocationInner .nonNegative

abbrev AddressBalanceLocationChange := AddressBalanceLocationInner .negativeAllowed

theorem saturatingAdd_lt (a b : Nat) : saturatingAdd a b < 2 ^ 64 := by
  rw [saturatingAdd]
  omega

namespace AddressBalanceLocationInner

variable {C : Constraint} {ε : Type}

def new (firstOutput : OutputLocation) : AddressBalanceLocationInner C := ⟨.zero, 0, firstOutput, by decide⟩

def receiveOutput (x : AddressBalanceLocationInner C) (o : Output) :
    Except AmountError (AddressBalanceLocationInner C) := do
  let balance ← Amount.tryFrom C (x.balance.zatoshis + o.value.zatoshis)
  return ⟨balance, saturatingAdd x.received o.value.zatoshis.toNat, x.location, saturatingAdd_lt _ _⟩

def spendOutput (x : AddressBalanceLocationInner C) (o : Output) :
    Except AmountError (AddressBalanceLocationInner C) := do
  let balance ← Amount.tryFrom C (x.balance.zatoshis - o.value.zatoshis)
  return { x with balance }

def add (x y : AddressBalanceLocationInner C) : Except AmountError (AddressBalanceLocationInner C) := do
  let balance ← x.balance.add y.balance
  return ⟨balance, saturatingAdd x.received y.received, x.location.min y.location, saturatingAdd_lt _ _⟩

def asBytes (x : AddressBalanceLocationInner C) : Bytes :=
  .ofInt 8 x.balance.zatoshis ++ x.location.asBytes ++ .toLE 8 x.received

/-- A value without the total that was received is in an older format. -/
def fromBytes (C : Constraint) (bytes : Bytes) : Exec ε (AddressBalanceLocationInner C) := do
  Outcome.check (16 ≤ bytes.length) .diskBytes
  let balance ← Outcome.unwrap (Amount.tryFrom C (Bytes.toInt (bytes.take 8))) .diskBytes
  let received := if 24 ≤ bytes.length then Bytes.ofLE ((bytes.drop 16).take 8) else 0
  return ⟨balance, received % 2 ^ 64, .fromBytes ((bytes.drop 8).take 8), Nat.mod_lt _ (by decide)⟩

end AddressBalanceLocationInner

/-- The change that starts from the stored location. -/
def AddressBalanceLocation.intoNewChange (x : AddressBalanceLocation) : AddressBalanceLocationChange :=
  .new x.location

def fetchAddBalanceAndReceived {ε : Type} (existing : Option Bytes) (operands : List Bytes) : Exec ε (Option Bytes) := do
  match ← (existing.toList ++ operands).mapM (AddressBalanceLocationInner.fromBytes .negativeAllowed) with
  | [] => return none
  | c :: cs =>
    let c ← cs.foldlM (fun a b => Outcome.unwrap (a.add b) .mergeOverflow) c
    return some c.asBytes

end Zebra
