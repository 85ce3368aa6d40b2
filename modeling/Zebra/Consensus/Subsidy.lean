import Zebra.Testnet

namespace Zebra

open Lib

section lookup

variable {ε : Type}

/-- The position of a receiver's address, which changes with the address period. -/
def fundingStreamAddressIndex (height : Nat) (net : Network) (receiver : FundingStreamReceiver) :
    Exec ε (Option Nat) :=
  if receiver = .deferred then return none
  else
    match net.fundingStreamsAt height with
    | none => return none
    | some streams =>
      match streams.recipient receiver with
      | none => return none
      | some recipient => do
        let period ← fundingStreamAddressPeriod height net
        if 2 ^ 32 ≤ 1 + period then return none
        else do
          let firstPeriod ← fundingStreamAddressPeriod streams.rangeStart net
          if 1 + period < firstPeriod then return none
          else do
            let index := 1 + period - firstPeriod
            Outcome.check (0 < index ∧ index ≤ recipient.addresses.length) .addressIndex
            return some (index - 1)

def fundingStreamAddress (height : Nat) (net : Network) (receiver : FundingStreamReceiver) :
    Exec ε (Option Address) := do
  let index ← fundingStreamAddressIndex height net receiver
  return do
    let index ← index
    let streams ← net.fundingStreamsAt height
    let recipient ← streams.recipient receiver
    recipient.addresses[index]?

end lookup

inductive SubsidyBlockError where
  | subsidy (error : SubsidyError)
  | other (message : String)
deriving DecidableEq

variable [ScriptParsing]

def Address.script (a : Address) : Script := ScriptParsing.scriptOf a.isScriptHash a.hash

/-- The outputs that are left after one that pays the amount to the address. -/
def hasAmount (outputs : List Output) (address : Address) (amount : Amount .nonNegative) :
    Exec SubsidyBlockError (Option (List Output)) := do
  Outcome.check (address.isScriptHash = true) .notScriptHash
  let output : Output := ⟨amount, address.script⟩
  return if output ∈ outputs then some (outputs.erase output) else none

/-- The one-time disbursements, each of which has an output and leaves the deferred pool. -/
def disburse : Payments → List Output → Amount .negativeAllowed →
    Exec SubsidyBlockError (List Output × Amount .negativeAllowed)
  | [], outputs, balance => return (outputs, balance)
  | (address, amount) :: disbursements, outputs, balance => do
    let left ← hasAmount outputs address amount
    match left with
    | none => .fail (.subsidy .oneTimeLockboxDisbursementNotFound)
    | some outputs =>
      match Amount.tryFrom .negativeAllowed (balance.zatoshis - amount.zatoshis) with
      | .ok balance => disburse disbursements outputs balance
      | .error _ => .fail (.subsidy .underflow)

def payStreams (height : Nat) (net : Network) :
    List (FundingStreamReceiver × Amount .nonNegative) → List Output → Exec SubsidyBlockError Unit
  | [], _ => return ()
  | (receiver, amount) :: streams, outputs => do
    let address ← fundingStreamAddress height net receiver
    match address with
    | none => .fail (.other "A funding stream other than the deferred pool must have an address")
    | some address => do
      let left ← hasAmount outputs address amount
      match left with
      | none => .fail (.subsidy .fundingStreamNotFound)
      | some outputs => payStreams height net streams outputs

/-- Before Canopy, the founders reward is paid until the first halving. -/
def foundersRewardIsValid (net : Network) (height : Nat) (outputs : List Output) :
    Exec SubsidyBlockError (Amount .negativeAllowed) :=
  if Height.min < height then do
    let firstHalving ← net.heightForFirstHalving
    if height < firstHalving then do
      let address ← foundersRewardAddress net height
      match address with
      | none => .fail (.other ("founders reward address must be defined for height: Height(" ++ toString height ++ ")"))
      | some address => do
        let reward ← foundersReward net height
        let left ← hasAmount outputs address reward
        match left with
        | none => .fail (.subsidy .foundersRewardNotFound)
        | some _ => return .zero
    else return .zero
  else return .zero

def lockboxIsValid (net : ConfiguredNetwork) (height : Nat) (outputs : List Output)
    (balance : Amount .negativeAllowed) : Exec SubsidyBlockError (List Output × Amount .negativeAllowed) :=
  if NetworkUpgrade.nu6_1.activationHeight net.network = some height then do
    let disbursements ← net.lockboxDisbursements height
    if disbursements.isEmpty then .fail (.other "missing lockbox disbursements for NU6.1 activation block")
    else disburse disbursements outputs balance
  else return (outputs, balance)

/-- From Canopy on, the funding streams are paid, and the change of the deferred pool is returned. -/
def fundingStreamsAreValid (net : ConfiguredNetwork) (height : Nat) (outputs : List Output)
    (expectedBlockSubsidy : Amount .nonNegative) : Exec SubsidyBlockError (Amount .negativeAllowed) := do
  let streams ← Outcome.lift (fun e => .subsidy (.invalidAmount e))
    (fundingStreamValues height net.network expectedBlockSubsidy)
  let deferred := ((streams.find? fun s => s.1 = .deferred).map Prod.snd).getD .zero
  let (outputs, balance) ← lockboxIsValid net height outputs deferred.widen
  payStreams height net.network (streams.filter fun s => s.1 ≠ .deferred) outputs
  return balance

def subsidyIsValid (b : Block) (net : ConfiguredNetwork) (expectedBlockSubsidy : Amount .nonNegative) :
    Exec SubsidyBlockError (Amount .negativeAllowed) :=
  if expectedBlockSubsidy.zatoshis = 0 then return .zero
  else
    match b.coinbaseHeight, b.transactions with
    | some height, coinbase :: _ =>
      if NetworkUpgrade.current net.network height < .canopy then
        foundersRewardIsValid net.network height coinbase.outputs
      else fundingStreamsAreValid net height coinbase.outputs expectedBlockSubsidy
    | _, _ => .fail (.subsidy .noCoinbase)

/-- The outputs, the value taken from the shielded pools and the change of the deferred pool. The
amount of a later protocol change is zero in a stable build. -/
def totalOutputValue (coinbase : Transaction) (transparent expectedDeferredPoolBalanceChange : Amount .negativeAllowed) :
    Except AmountError (Amount .negativeAllowed) := do
  let balance ← transparent.sub coinbase.saplingValueBalance.sapling
  let balance ← balance.sub coinbase.orchardValueBalance.orchard
  let balance ← balance.add expectedDeferredPoolBalanceChange
  balance.add .zero

def minerFeesAreValid (coinbase : Transaction) (height : Nat) (blockMinerFees expectedBlockSubsidy : Amount .nonNegative)
    (expectedDeferredPoolBalanceChange : Amount .negativeAllowed) (net : Network) : Except SubsidyBlockError Unit := do
  let transparent ← (Amount.sum (coinbase.outputs.map Output.value)).mapError fun _ => .subsidy .overflow
  let totalOutput ← (totalOutputValue coinbase transparent.widen expectedDeferredPoolBalanceChange).mapError
    fun _ => .subsidy .overflow
  let totalInput ← (expectedBlockSubsidy.add blockMinerFees).mapError fun _ => .subsidy .overflow
  let invalid : Bool :=
    if NetworkUpgrade.current net height < .nu6 then totalInput.zatoshis < totalOutput.zatoshis
    else totalOutput.zatoshis ≠ totalInput.zatoshis
  if invalid then .error (.subsidy .invalidMinerFees) else .ok ()

end Zebra
