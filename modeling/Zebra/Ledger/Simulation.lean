import Zebra.Ledger.Replay

namespace Zebra.Ledger

open Lib Outcome TxIndexes

variable {ε : Type} (idx : TxIndexes)

theorem writeAll_append (es es' : List Entry) :
    writeAll idx (es ++ es') = writeAll idx es >>= fun idx => writeAll idx es' :=
  List.foldlM_append

theorem eraseAll_append (es es' : List Entry) :
    (eraseAll idx (es ++ es') : Exec ε _) = eraseAll idx es >>= fun idx => eraseAll idx es' :=
  List.foldlM_append

def nullifierEntries (p : Pool) (nullifiers : List Nat) (hash : TransactionHash) : List Entry :=
  nullifiers.map fun n => .nullifier p n hash

def shieldedEntries (tx : Transaction) (hash : TransactionHash) : List Entry :=
  nullifierEntries .sprout tx.sproutNullifiers hash ++ nullifierEntries .sapling tx.saplingNullifiers hash ++
    nullifierEntries .orchard tx.orchardNullifiers hash

variable [ScriptParsing] (net : Network)

def outputEntries (created : OrderedUtxos) (hash : TransactionHash) (i : Nat) : List Entry :=
  if i < 2 ^ 32 then
    match created[(⟨hash, i⟩ : OutPoint)]? with
    | none => [.fault .newOutputMissing]
    | some u =>
      .created ⟨hash, i⟩ u ::
        ((u.utxo.output.address net).map fun a => .transfer a (.received ⟨hash, i⟩ u)).toList
  else [.fault .outputIndex]

def inputEntries (spentOutputs : OrderedUtxos) (hash : TransactionHash) : Input → List Entry
  | .coinbase _ => []
  | .prevOut o =>
    .spent o hash ::
      match spentOutputs[o]? with
      | none => [.fault .spentOutputMissing]
      | some u => ((u.utxo.output.address net).map fun a => .transfer a (.sent o u hash)).toList

def transparentEntries (b : ContextuallyVerifiedBlock) (tx : Transaction) (hash : TransactionHash) :
    List Entry :=
  (List.range tx.outputs.length).flatMap (outputEntries net b.newOutputs hash) ++
    tx.inputs.flatMap (inputEntries net b.spentOutputs hash)

def txJournal (b : ContextuallyVerifiedBlock) (tx : Transaction) (hash : TransactionHash) (i : Nat) :
    List Entry :=
  if tx.isIndexed then
    .location hash ⟨b.height, i⟩ :: (transparentEntries net b tx hash ++ shieldedEntries tx hash)
  else [.fault .oldTransactionVersion]

def txReverted (b : ContextuallyVerifiedBlock) (tx : Transaction) (hash : TransactionHash) (i : Nat) :
    List Entry :=
  if tx.isIndexed then
    transparentEntries net b tx hash ++ .location hash ⟨b.height, i⟩ :: shieldedEntries tx hash
  else [.fault .oldTransactionVersion]

def journal (b : ContextuallyVerifiedBlock) : List Entry :=
  b.transactions.zipIdx.flatMap fun x => txJournal net b x.1.1 x.1.2 x.2

def reverted (b : ContextuallyVerifiedBlock) : List Entry :=
  b.transactions.zipIdx.flatMap fun x => txReverted net b x.1.1 x.1.2 x.2

variable {net}

theorem updateOutputs_eq_writeAll (outputs : List Output) (hash : TransactionHash)
    (created : OrderedUtxos) : idx.updateOutputs net outputs hash created =
      writeAll idx ((List.range outputs.length).flatMap (outputEntries net created hash)) := by
  rw [writeAll, foldlM_flatMap, updateOutputs]
  congr 1
  funext idx i
  by_cases hi : i < 2 ^ 32
  · simp only [check, hi, if_true, ok_bind, outputEntries]
    cases created[(⟨hash, i⟩ : OutPoint)]? with
    | none => rfl
    | some u =>
      cases ha : u.utxo.output.address net with
      | none => simp [Entry.write, ha]
      | some a => simp [Entry.write, ha, Transfer.write]
  · simp only [check, hi, if_false, outputEntries]
    rfl

theorem revertOutputs_eq_eraseAll (outputs : List Output) (hash : TransactionHash)
    (created : OrderedUtxos) : (idx.revertOutputs net outputs hash created : Exec ε _) =
      eraseAll idx ((List.range outputs.length).flatMap (outputEntries net created hash)) := by
  rw [eraseAll, foldlM_flatMap, revertOutputs]
  congr 1
  funext idx i
  by_cases hi : i < 2 ^ 32
  · simp only [check, hi, if_true, ok_bind, outputEntries]
    cases created[(⟨hash, i⟩ : OutPoint)]? with
    | none => rfl
    | some u =>
      cases ha : u.utxo.output.address net with
      | none => simp [Entry.erase, ha]
      | some a => simp [Entry.erase, ha, Transfer.erase]
  · simp only [check, hi, if_false, outputEntries]
    rfl

theorem updateInputs_eq_writeAll (inputs : List Input) (hash : TransactionHash)
    (spentOutputs : OrderedUtxos) : idx.updateInputs net inputs hash spentOutputs =
      writeAll idx (inputs.flatMap (inputEntries net spentOutputs hash)) := by
  rw [writeAll, foldlM_flatMap, updateInputs]
  congr 1
  funext idx input
  cases input with
  | coinbase height => rfl
  | prevOut o =>
    simp only [Input.outpoint, inputEntries]
    cases spentOutputs[o]? with
    | none => simp [Entry.write]
    | some u =>
      cases ha : u.utxo.output.address net with
      | none => simp [Entry.write, ha]
      | some a => simp [Entry.write, ha, Transfer.write]

theorem revertInputs_eq_eraseAll (inputs : List Input) (hash : TransactionHash)
    (spentOutputs : OrderedUtxos) : (idx.revertInputs net inputs hash spentOutputs : Exec ε _) =
      eraseAll idx (inputs.flatMap (inputEntries net spentOutputs hash)) := by
  rw [eraseAll, foldlM_flatMap, revertInputs]
  congr 1
  funext idx input
  cases input with
  | coinbase height => rfl
  | prevOut o =>
    simp only [Input.outpoint, inputEntries]
    cases spentOutputs[o]? with
    | none => simp [Entry.erase]
    | some u =>
      cases ha : u.utxo.output.address net with
      | none => simp [Entry.erase, ha]
      | some a => simp [Entry.erase, ha, Transfer.erase]

omit [ScriptParsing]

theorem updateNullifiers_eq_writeAll (p : Pool) (nullifiers : List Nat) (hash : TransactionHash) :
    idx.updateNullifiers p nullifiers hash = writeAll idx (nullifierEntries p nullifiers hash) := by
  induction nullifiers generalizing idx with
  | nil => simp [updateNullifiers, addToNonFinalizedChainUnique, writeAll, nullifierEntries]
  | cons n l ih =>
    rw [nullifierEntries, List.map_cons, writeAll, List.foldlM_cons]
    by_cases hn : n ∈ idx.nullifiers p
    · simp [updateNullifiers, addToNonFinalizedChainUnique, Entry.write, hn]
    · have h := ih (idx.setNullifiers p ((idx.nullifiers p).insert n hash))
      simp only [updateNullifiers, addToNonFinalizedChainUnique,
        nullifiers_setNullifiers_self, setNullifiers_setNullifiers] at h
      simp only [updateNullifiers, addToNonFinalizedChainUnique, List.foldlM_cons, Entry.write, hn,
        if_false, pure_eq_ok, ok_bind]
      exact h

theorem revertNullifiers_eq_eraseAll (p : Pool) (nullifiers : List Nat) (hash : TransactionHash) :
    (idx.revertNullifiers p nullifiers : Exec ε _) = eraseAll idx (nullifierEntries p nullifiers hash) := by
  induction nullifiers generalizing idx with
  | nil => simp [revertNullifiers, removeFromNonFinalizedChain, eraseAll, nullifierEntries]
  | cons n l ih =>
    rw [nullifierEntries, List.map_cons, eraseAll, List.foldlM_cons]
    by_cases hn : n ∈ idx.nullifiers p
    · have h := ih (idx.setNullifiers p ((idx.nullifiers p).erase n))
      simp only [revertNullifiers, removeFromNonFinalizedChain,
        nullifiers_setNullifiers_self, setNullifiers_setNullifiers] at h
      simp only [revertNullifiers, removeFromNonFinalizedChain, List.foldlM_cons, Entry.erase,
        KeyedMap.removePresent_of_mem hn, pure_eq_ok, ok_bind]
      exact h
    · simp [revertNullifiers, removeFromNonFinalizedChain, Entry.erase, KeyedMap.removePresent, hn]

variable [ScriptParsing]

omit [ScriptParsing] in
theorem parts_of_isIndexed {tx : Transaction} (htx : tx.isIndexed = true) : ∃ joinsplitData perSpend shared orchard,
      (tx.parts : Exec ε _) = .ok (tx.inputs, tx.outputs, joinsplitData, perSpend, shared, orchard) ∧
      (joinsplitData.map (·.nullifiers)).getD [] = tx.sproutNullifiers ∧
      (perSpend.map (·.nullifiers)).getD [] ++ (shared.map (·.nullifiers)).getD [] = tx.saplingNullifiers ∧
      (orchard.map (·.nullifiers)).getD [] = tx.orchardNullifiers := by
  cases tx with
  | V4 inputs outputs joinsplitData sapling =>
    refine ⟨joinsplitData, sapling, none, none, rfl, rfl, ?_, rfl⟩
    cases sapling <;> simp [Transaction.saplingNullifiers]
  | V5 inputs outputs sapling orchard =>
    refine ⟨none, none, sapling, orchard, rfl, rfl, ?_, rfl⟩
    cases sapling <;> simp [Transaction.saplingNullifiers]
  | _ => simp [Transaction.isIndexed] at htx

omit [ScriptParsing] in
theorem parts_of_not_isIndexed {tx : Transaction} (htx : ¬ tx.isIndexed = true) :
    (tx.parts : Exec ε _) = .panic .oldTransactionVersion := by
  cases tx with
  | V4 | V5 => simp [Transaction.isIndexed] at htx
  | _ => rfl

section

variable (b : ContextuallyVerifiedBlock)
include b

theorem updateTransaction_eq_writeAll (i : Nat) (tx : Transaction)
    (hash : TransactionHash) : idx.updateTransaction net b i tx hash = writeAll idx (txJournal net b tx hash i):= by
  by_cases htx : tx.isIndexed = true
  · obtain ⟨joinsplitData, perSpend, shared, orchard, hparts, hsprout, hsapling, horchard⟩ :=
      parts_of_isIndexed htx
    rw [updateTransaction, hparts, txJournal, if_pos htx, writeAll, List.foldlM_cons]
    simp only [ok_bind, pure_eq_ok, updateOutputs_eq_writeAll, updateInputs_eq_writeAll,
      updateNullifiers_eq_writeAll, Entry.write, bind_assoc, hsprout, horchard]
    congr 1; funext location; congr 1; funext txLocByHash
    change _ = writeAll _ _
    simp only [transparentEntries, shieldedEntries, ← hsapling, nullifierEntries, List.map_append, writeAll_append,
      bind_assoc]
  · rw [updateTransaction, parts_of_not_isIndexed htx, txJournal, if_neg htx]
    rfl

theorem revertTransaction_eq_eraseAll (i : Nat) (tx : Transaction)
    (hash : TransactionHash) :
    (idx.revertTransaction net b tx hash : Exec ε _) = eraseAll idx (txReverted net b tx hash i) := by
  by_cases htx : tx.isIndexed = true
  · obtain ⟨joinsplitData, perSpend, shared, orchard, hparts, hsprout, hsapling, horchard⟩ :=
      parts_of_isIndexed htx
    rw [revertTransaction, hparts, txReverted, if_pos htx, transparentEntries, eraseAll_append,
      eraseAll_append, bind_assoc]
    simp only [ok_bind, revertOutputs_eq_eraseAll, revertInputs_eq_eraseAll,
      revertNullifiers_eq_eraseAll _ _ _ hash, hsprout, horchard]
    congr 1; funext idx; congr 1; funext idx
    rw [eraseAll, List.foldlM_cons]
    simp only [Entry.erase, bind_assoc, pure_eq_ok, ok_bind]
    congr 1; funext txLocByHash
    change _ = eraseAll _ _
    simp only [shieldedEntries, ← hsapling, nullifierEntries, List.map_append, eraseAll_append, bind_assoc]
  · rw [revertTransaction, parts_of_not_isIndexed htx, txReverted, if_neg htx]
    rfl

theorem updateTransactions_eq_writeAll :
    idx.updateTransactions net b = writeAll idx (journal net b) := by
  rw [updateTransactions, journal, writeAll, foldlM_flatMap]
  simp only [updateTransaction_eq_writeAll]
  rfl

theorem revertTransactions_eq_eraseAll :
    (idx.revertTransactions net b : Exec ε _) = eraseAll idx (reverted net b) := by
  have hzip : b.transactions = b.transactions.zipIdx.map Prod.fst := (List.zipIdx_map_fst 0 b.transactions).symm
  rw [revertTransactions, reverted, eraseAll, foldlM_flatMap, hzip, List.foldlM_map, ← hzip]
  congr 1; funext idx x
  exact revertTransaction_eq_eraseAll idx b x.2 x.1.1 x.1.2

theorem txReverted_perm (tx : Transaction) (hash : TransactionHash) (i : Nat) :
    (txReverted net b tx hash i).Perm (txJournal net b tx hash i) := by
  unfold txReverted txJournal
  split
  · exact List.perm_middle
  · exact .refl _

theorem reverted_eq_journal :
    ((reverted net b : List Entry) : Multiset Entry) = journal net b :=
  Multiset.coe_eq_coe.2 (List.Perm.flatMap_left _ fun x _ => txReverted_perm b x.1.1 x.1.2 x.2)

theorem deltas_txReverted (tx : Transaction) (hash : TransactionHash) (i : Nat) :
    deltas (txReverted net b tx hash i) = deltas (txJournal net b tx hash i) := by
  unfold txReverted txJournal
  split
  · rw [deltas, deltas, List.filterMap_append, List.filterMap_cons_none rfl, List.filterMap_cons_none rfl,
      List.filterMap_append]
  · rfl

theorem deltas_reverted : deltas (reverted net b) = deltas (journal net b) := by
  have h : ∀ tx hash i, deltas (txReverted net b tx hash i) = deltas (txJournal net b tx hash i) :=
    deltas_txReverted b
  simp only [deltas] at h
  simp only [deltas, reverted, journal, List.filterMap_flatMap, h]

end

end Zebra.Ledger
