import Zebra.State.ChainInner

namespace Zebra

open Lib Outcome

variable {ε : Type}

/-- The parts of a transaction that the chain indexes. Older versions only exist in
finalized blocks. -/
def Transaction.parts : Transaction → Exec ε (List Input × List Output × Option JoinSplitData ×
    Option (Sapling.ShieldedData Unit Nat) × Option (Sapling.ShieldedData Nat Unit) ×
    Option Orchard.ShieldedData)
  | V4 inputs outputs joinsplitData sapling => return (inputs, outputs, joinsplitData, sapling, none, none)
  | V5 inputs outputs sapling orchard => return (inputs, outputs, none, none, sapling, orchard)
  | V1 .. | V2 .. | V3 .. => .panic .oldTransactionVersion

def Transaction.isIndexed : Transaction → Bool
  | V4 .. | V5 .. => true
  | V1 .. | V2 .. | V3 .. => false

def addToNonFinalizedChainUnique (pool : Pool) (chainNullifiers : KeyedMap Nat TransactionHash)
    (nullifiers : List Nat) (revealingTxId : TransactionHash) :
    Validated (KeyedMap Nat TransactionHash) :=
  nullifiers.foldlM (fun m n =>
    if n ∈ m then .fail (.duplicateNullifier pool n false) else return m.insert n revealingTxId)
    chainNullifiers

def removeFromNonFinalizedChain (chainNullifiers : KeyedMap Nat TransactionHash) (nullifiers : List Nat) :
    Exec ε (KeyedMap Nat TransactionHash) :=
  nullifiers.foldlM (fun m n => m.removePresent n .missingNullifier) chainNullifiers

namespace TxIndexes

def updateTransfers (idx : TxIndexes) (a : Address)
    (f : TransparentTransfers → Exec ε TransparentTransfers) : Exec ε TxIndexes := do
  let transfers ← f (idx.partialTransparentTransfers.getD a .default)
  return { idx with partialTransparentTransfers := idx.partialTransparentTransfers.insert a transfers }

def revertTransfers (idx : TxIndexes) (a : Address)
    (f : TransparentTransfers → Exec ε TransparentTransfers) : Exec ε TxIndexes := do
  let transfers ← expect idx.partialTransparentTransfers[a]? .missingAddressTransfers
  let transfers ← f transfers
  return { idx with
    partialTransparentTransfers :=
      -- an address without transfers is dropped from the index
      if transfers.isEmpty then idx.partialTransparentTransfers.erase a
      else idx.partialTransparentTransfers.insert a transfers }

def updateNullifiers (idx : TxIndexes) (pool : Pool) (nullifiers : List Nat) (txId : TransactionHash) :
    Validated TxIndexes := do
  let m ← addToNonFinalizedChainUnique pool (idx.nullifiers pool) nullifiers txId
  return idx.setNullifiers pool m

def revertNullifiers (idx : TxIndexes) (pool : Pool) (nullifiers : List Nat) : Exec ε TxIndexes := do
  let m ← removeFromNonFinalizedChain (idx.nullifiers pool) nullifiers
  return idx.setNullifiers pool m

variable [ScriptParsing]

def updateOutputs (idx : TxIndexes) (net : Network) (createdOutputs : List Output)
    (creatingTxHash : TransactionHash) (blockCreatedOutputs : OrderedUtxos) :
    Exec ε TxIndexes :=
  (List.range createdOutputs.length).foldlM (fun idx outputIndex => do
    check (outputIndex < 2 ^ 32) .outputIndex
    let outpoint : OutPoint := ⟨creatingTxHash, outputIndex⟩
    let createdUtxo ← expect blockCreatedOutputs[outpoint]? .newOutputMissing
    let createdUtxos ← idx.createdUtxos.insertNew outpoint createdUtxo .duplicateCreatedUtxo
    let idx := { idx with createdUtxos }
    match createdUtxo.utxo.output.address net with
    | none => return idx
    | some a => idx.updateTransfers a fun t => t.updateCreated outpoint createdUtxo) idx

def revertOutputs (idx : TxIndexes) (net : Network) (createdOutputs : List Output)
    (creatingTxHash : TransactionHash) (blockCreatedOutputs : OrderedUtxos) :
    Exec ε TxIndexes :=
  (List.range createdOutputs.length).foldlM (fun idx outputIndex => do
    check (outputIndex < 2 ^ 32) .outputIndex
    let outpoint : OutPoint := ⟨creatingTxHash, outputIndex⟩
    let createdUtxo ← expect blockCreatedOutputs[outpoint]? .newOutputMissing
    let createdUtxos ← idx.createdUtxos.removePresent outpoint .duplicateCreatedUtxo
    let idx := { idx with createdUtxos }
    match createdUtxo.utxo.output.address net with
    | none => return idx
    | some a => idx.revertTransfers a fun t => t.revertCreated outpoint createdUtxo) idx

def updateInputs (idx : TxIndexes) (net : Network) (spendingInputs : List Input)
    (spendingTxHash : TransactionHash) (spentOutputs : OrderedUtxos) : Exec ε TxIndexes :=
  spendingInputs.foldlM (fun idx input =>
    match input.outpoint with
    | none => return idx
    | some spentOutpoint => do
      let spentUtxos ← idx.spentUtxos.insertNew spentOutpoint spendingTxHash .duplicateSpentUtxo
      let idx := { idx with spentUtxos }
      let spentOutput ← expect spentOutputs[spentOutpoint]? .spentOutputMissing
      match spentOutput.utxo.output.address net with
      | none => return idx
      | some a => idx.updateTransfers a fun t => t.updateSpent spentOutpoint spendingTxHash spentOutput) idx

def revertInputs (idx : TxIndexes) (net : Network) (spendingInputs : List Input)
    (spendingTxHash : TransactionHash) (spentOutputs : OrderedUtxos) : Exec ε TxIndexes :=
  spendingInputs.foldlM (fun idx input =>
    match input.outpoint with
    | none => return idx
    | some spentOutpoint => do
      let spentUtxos ← idx.spentUtxos.removePresent spentOutpoint .duplicateSpentUtxo
      let idx := { idx with spentUtxos }
      let spentOutput ← expect spentOutputs[spentOutpoint]? .spentOutputMissing
      match spentOutput.utxo.output.address net with
      | none => return idx
      | some a => idx.revertTransfers a fun t => t.revertSpent spentOutpoint spendingTxHash spentOutput) idx

def updateTransaction (idx : TxIndexes) (net : Network) (b : ContextuallyVerifiedBlock) (txIndex : Nat)
    (tx : Transaction) (hash : TransactionHash) : Validated TxIndexes := do
  let (inputs, outputs, joinsplitData, saplingPerSpend, saplingShared, orchard) ← tx.parts
  let location ← TransactionLocation.fromUsize b.height txIndex
  let txLocByHash ← idx.txLocByHash.insertNew hash location .duplicateTransaction
  let idx := { idx with txLocByHash }
  let idx ← idx.updateOutputs net outputs hash b.newOutputs
  let idx ← idx.updateInputs net inputs hash b.spentOutputs
  let idx ← idx.updateNullifiers .sprout ((joinsplitData.map (·.nullifiers)).getD []) hash
  let idx ← idx.updateNullifiers .sapling ((saplingPerSpend.map (·.nullifiers)).getD []) hash
  let idx ← idx.updateNullifiers .sapling ((saplingShared.map (·.nullifiers)).getD []) hash
  idx.updateNullifiers .orchard ((orchard.map (·.nullifiers)).getD []) hash

def revertTransaction (idx : TxIndexes) (net : Network) (b : ContextuallyVerifiedBlock)
    (tx : Transaction) (hash : TransactionHash) : Exec ε TxIndexes := do
  let (inputs, outputs, joinsplitData, saplingPerSpend, saplingShared, orchard) ← tx.parts
  let idx ← idx.revertOutputs net outputs hash b.newOutputs
  let idx ← idx.revertInputs net inputs hash b.spentOutputs
  let txLocByHash ← idx.txLocByHash.removePresent hash .missingTransaction
  let idx := { idx with txLocByHash }
  let idx ← idx.revertNullifiers .sprout ((joinsplitData.map (·.nullifiers)).getD [])
  let idx ← idx.revertNullifiers .sapling ((saplingPerSpend.map (·.nullifiers)).getD [])
  let idx ← idx.revertNullifiers .sapling ((saplingShared.map (·.nullifiers)).getD [])
  idx.revertNullifiers .orchard ((orchard.map (·.nullifiers)).getD [])

def updateTransactions (idx : TxIndexes) (net : Network) (b : ContextuallyVerifiedBlock) :
    Validated TxIndexes :=
  b.transactions.zipIdx.foldlM (fun idx ((tx, hash), i) => idx.updateTransaction net b i tx hash) idx

def revertTransactions (idx : TxIndexes) (net : Network) (b : ContextuallyVerifiedBlock) : Exec ε TxIndexes :=
  b.transactions.foldlM (fun idx (tx, hash) => idx.revertTransaction net b tx hash) idx

end TxIndexes

end Zebra
