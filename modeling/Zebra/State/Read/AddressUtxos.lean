import Zebra.State.Chain

namespace Zebra

open Lib Std

namespace Chain

def partialTransparentIndexes (c : Chain) (addresses : List Address) : List TransparentTransfers :=
  addresses.filterMap fun a => c.inner.partialTransparentTransfers[a]?

/-- The outputs of the addresses that the blocks of the chain create, and those that they spend. -/
def partialTransparentUtxoChanges (c : Chain) (addresses : List Address) :
    KeyedMap OutputLocation Output × KeyedMap OutputLocation Unit :=
  let transfers := c.partialTransparentIndexes addresses
  (ExtTreeMap.ofList (transfers.flatMap (·.createdUtxos.toList)) compare,
    ExtTreeMap.ofList (transfers.flatMap (·.spentUtxos.toList)) compare)

end Chain

namespace Read

/-- What a query of the address outputs applies to the finalized outputs: the created outputs,
the spent ones, and the height of the last block that was considered. -/
abbrev UtxoChanges := KeyedMap OutputLocation Output × KeyedMap OutputLocation Unit × Option Nat

def noUtxoChanges (height : Option Nat) : UtxoChanges := (∅, ∅, height)

def emptyChainMessage : String :=
  "unable to get UTXOs: state was committing a block, and non-finalized chain is empty"

def missingBlockMessage : String :=
  "unable to get UTXOs: state was committing a block, that is missing from the non-finalized chain"

/-- The query for a non-finalized chain. The finalized tip was at the height `start` before the
finalized outputs were read, and at the height `stop` afterwards. -/
def overlappingUtxoChanges (chain : Chain) (addresses : List Address) (start stop : Nat) : Exec String UtxoChanges := do
  let root ← chain.inner.nonFinalizedRootHeight
  let tip ← chain.inner.nonFinalizedTipHeight
  Outcome.check (root ≤ start + 1) .chainGap
  let (created, spent) := chain.partialTransparentUtxoChanges addresses
  if stop < start + 1 then
    -- one finalized tip: a chain that is already finalized is ignored
    if tip ≤ stop then return noUtxoChanges (some stop) else return (created, spent, some tip)
  else if tip < stop then .fail missingBlockMessage
  else do
    Outcome.check (∀ height ∈ List.range' (start + 1) (stop - start), height ∈ chain.inner.blocks) .overlapBlocks
    return (created, spent, some tip)

def chainTransparentUtxoChanges (chain : Option Chain) (addresses : List Address)
    (finalizedTipRange : Option (Nat × Nat)) : Exec String UtxoChanges :=
  match finalizedTipRange with
  | none => do
    Outcome.check chain.isNone .unexpectedChain
    return noUtxoChanges none
  | some (start, stop) =>
    match chain with
    | none => if stop < start + 1 then return noUtxoChanges (some stop) else .fail emptyChainMessage
    | some chain => overlappingUtxoChanges chain addresses start stop

def applyUtxoChanges (finalizedUtxos createdChainUtxos : KeyedMap OutputLocation Output)
    (spentChainUtxos : KeyedMap OutputLocation Unit) : KeyedMap OutputLocation Output :=
  ExtTreeMap.ofList ((finalizedUtxos.toList ++ createdChainUtxos.toList).filter fun x => x.1 ∉ spentChainUtxos) compare

end Read

end Zebra
