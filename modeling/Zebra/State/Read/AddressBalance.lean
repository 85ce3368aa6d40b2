import Zebra.State.Read.AddressUtxos
import Zebra.State.ZebraDb

namespace Zebra

open Lib Outcome

def addU64 {ε : Type} (a b : Nat) : Exec ε Nat := do
  check (a + b < 2 ^ 64) .arithmetic
  return a + b

namespace TransparentTransfers

def received {ε : Type} (t : TransparentTransfers) : Exec ε Nat :=
  t.createdUtxos.toList.foldlM (fun sum x => addU64 sum x.2.value.zatoshis.toNat) 0

end TransparentTransfers

namespace Chain

variable {ε : Type}

def addBalanceChange (sum : Except AmountError (Amount .negativeAllowed) × Nat) (transfers : TransparentTransfers) :
    Exec ε (Except AmountError (Amount .negativeAllowed) × Nat) := do
  let balance := sum.1 >>= fun balance => balance.add transfers.balance
  let received ← transfers.received
  let received ← addU64 sum.2 received
  return (balance, received)

def partialTransparentBalanceChange (c : Chain) (addresses : List Address) : Exec ε (Amount .negativeAllowed × Nat) := do
  let (balance, received) ← (c.partialTransparentIndexes addresses).foldlM addBalanceChange (.ok .zero, 0)
  let balance ← unwrap balance .balanceOverflow
  return (balance, received)

variable [ScriptParsing]

/-- Pop root blocks until the root is at `height`. Every round raises the root. -/
def popRootsBelow (height : Nat) : Nat → Chain → Exec ε Chain
  | 0, c => return c
  | n + 1, c => do
    let root ← c.inner.nonFinalizedRootHeight
    if root < height then
      let (_, c) ← c.popRoot
      popRootsBelow height n c
    else return c

end Chain

namespace ZebraDb

variable {ε : Type}

def addressBalance (db : ZebraDb) (a : Address) : Exec ε (Option (Amount .nonNegative × Nat)) := do
  let x ← db.balanceByTransparentAddr.addressBalanceLocation a
  return x.map fun x => (x.balance, x.received)

def addFinalizedBalance (db : ZebraDb) (sum : Amount .nonNegative × Nat) (a : Address) :
    Exec ε (Amount .nonNegative × Nat) := do
  match ← db.addressBalance a with
  | none => return sum
  | some (balance, received) =>
    let balance ← unwrap (sum.1.add balance) .balanceOverflow
    return (balance, saturatingAdd sum.2 received)

/-- Every address may be read from another state of the database. -/
def partialFinalizedTransparentBalance (db : Address → ZebraDb) (addresses : List Address) :
    Exec ε (Amount .nonNegative × Nat) :=
  addresses.foldlM (fun sum a => (db a).addFinalizedBalance sum a) (.zero, 0)

end ZebraDb

namespace Read

def finalizedStateQueryRetries : Nat := 3

inductive BalanceError where
  | message (text : String)
  | amount (e : AmountError)
deriving DecidableEq

def committingMessage : String := "unable to get balance: state was committing a block"

/-- The states of the database that one attempt sees: when it reads the tip, when it reads the
balance of an address, and when it reads the tip again. -/
structure FinalizedRead where
  before : ZebraDb
  during : Address → ZebraDb
  after : ZebraDb

def FinalizedRead.of (db : ZebraDb) : FinalizedRead := ⟨db, fun _ => db, db⟩

/-- Run a query again, as long as it fails and for `n` times at most. -/
def retry {ε α : Type} (query : FinalizedRead → Exec ε α) : Nat → (Nat → FinalizedRead) → Exec ε α
  | 0, reads => query (reads 0)
  | n + 1, reads =>
    match query (reads 0) with
    | .error (.error _) => retry query n fun i => reads (i + 1)
    | result => result

def finalizedTransparentBalance (addresses : List Address) (read : FinalizedRead) :
    Exec BalanceError ((Amount .nonNegative × Nat) × Option Nat) := do
  let balance ← ZebraDb.partialFinalizedTransparentBalance read.during addresses
  if read.before.tip ≠ read.after.tip then .fail (.message committingMessage)
  else return (balance, read.after.finalizedTipHeight)

def requiredChainRoot {ε : Type} : Option Nat → Exec ε Nat
  | none => return 0
  | some tip => expect (Height.next tip) .nextHeight

def chainTransparentBalanceChange {ε : Type} [ScriptParsing] (chain : Chain) (addresses : List Address)
    (finalizedTip : Option Nat) : Exec ε (Amount .negativeAllowed × Nat) := do
  let requiredChainRoot ← requiredChainRoot finalizedTip
  let root ← chain.inner.nonFinalizedRootHeight
  check (root ≤ requiredChainRoot) .chainGap
  let tip ← chain.inner.nonFinalizedTipHeight
  if tip < requiredChainRoot then return (.zero, 0)
  else do
    let chain ← chain.popRootsBelow requiredChainRoot (requiredChainRoot - root + 1)
    chain.partialTransparentBalanceChange addresses

def applyBalanceChange (finalized : Amount .nonNegative × Nat) (change : Amount .negativeAllowed × Nat) :
    Except AmountError (Amount .nonNegative × Nat) := do
  let balance ← finalized.1.constrain .negativeAllowed
  let balance ← balance.add change.1
  let balance ← balance.constrain .nonNegative
  return (balance, saturatingAdd finalized.2 change.2)

def transparentBalance [ScriptParsing] (chain : Option Chain) (reads : Nat → FinalizedRead) (addresses : List Address) :
    Exec BalanceError (Amount .nonNegative × Nat) := do
  let (balance, finalizedTip) ← retry (finalizedTransparentBalance addresses) finalizedStateQueryRetries reads
  match chain with
  | none => return balance
  | some chain => do
    let change ← chainTransparentBalanceChange chain addresses finalizedTip
    lift .amount (applyBalanceChange balance change)

end Read

end Zebra
