import Zebra.Consensus.Subsidy

namespace Zebra

open Lib Outcome

variable [ScriptParsing] {ε : Type}

def streamPayments (net : Network) (height : Nat) (values : List (FundingStreamReceiver × Amount .nonNegative)) :
    Exec ε Payments := do
  let addresses ← values.mapM fun v => do
    let address ← fundingStreamAddress height net v.1
    return address.map fun address => (address, v.2)
  return addresses.filterMap id

/-- The miner's reward, and then the payments in the order of their scripts. `le` is the order of
the encodings of scripts, and the miner's address is its transparent part. -/
def standardCoinbaseOutputs (le : Script → Script → Bool) (net : ConfiguredNetwork) (height : Nat)
    (minerAddress : Option Address) (minerFee : Amount .nonNegative) : Exec ε (List Output) := do
  let expectedBlockSubsidy ← orPanic (blockSubsidy height net.network) .subsidy
  let values ← unwrap (fundingStreamValues height net.network expectedBlockSubsidy) .templateStreams
  let reward ← orPanic (minerSubsidy height net.network expectedBlockSubsidy) .templateReward
  let reward ← unwrap (reward.add minerFee) .templateReward
  let streams ← streamPayments net.network height values
  let disbursements ← net.lockboxDisbursements height
  let outputs := (streams ++ disbursements).map fun (address, amount) => (⟨amount, address.script⟩ : Output)
  let miner ← expect minerAddress .minerAddress
  return ⟨reward, miner.script⟩ :: outputs.mergeSort fun a b => le a.lockScript b.lockScript

end Zebra
