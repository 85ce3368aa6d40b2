import Zebra.Ledger.Simulation
import Zebra.Ledger.Outputs

namespace Zebra.Ledger

open Lib Transfer

inductive KeyKind where
  | fault
  | location
  | created
  | spent
  | nullifier
  | received
  | sent
deriving DecidableEq

def Key.kind : Key → KeyKind
  | fault => .fault
  | location _ => .location
  | created _ => .created
  | spent _ => .spent
  | nullifier .. => .nullifier
  | received .. => .received
  | sent .. => .sent

def keysOf (κ : KeyKind) (es : List Entry) : List Key := (es.map Entry.key).filter (·.kind = κ)

section

variable {κ : KeyKind} {es es' : List Entry}

@[simp] theorem keysOf_nil : keysOf κ [] = [] := rfl

theorem keysOf_append : keysOf κ (es ++ es') = keysOf κ es ++ keysOf κ es' := by
  simp [keysOf]

theorem keysOf_flatMap {α : Type} (l : List α) (f : α → List Entry) :
    keysOf κ (l.flatMap f) = l.flatMap fun a => keysOf κ (f a) := by
  induction l with
  | nil => rfl
  | cons a l ih => rw [List.flatMap_cons, List.flatMap_cons, keysOf_append, ih]

theorem keysOf_cons (e : Entry) :
    keysOf κ (e :: es) = if e.key.kind = κ then e.key :: keysOf κ es else keysOf κ es := by
  simp [keysOf, List.filter_cons]

end

section

variable {α β : Type}

theorem flatMap_sublist {l : List α} {f g : α → List β} (h : ∀ a ∈ l, (f a).Sublist (g a)) :
    (l.flatMap f).Sublist (l.flatMap g) := by
  induction l with
  | nil => exact List.Sublist.slnil
  | cons a l ih =>
    rw [List.flatMap_cons, List.flatMap_cons]
    exact (h a List.mem_cons_self).append (ih fun a' ha' => h a' (List.mem_cons_of_mem _ ha'))

theorem nodup_filterMap {l : List α} {f : α → Option β} (hl : l.Nodup)
    (hf : ∀ a ∈ l, ∀ a' ∈ l, ∀ b, f a = some b → f a' = some b → a = a') : (l.filterMap f).Nodup := by
  refine List.pairwise_filterMap.2 (hl.imp_of_mem ?_)
  intro a a' ha ha' hne b hb b' hb' hbb
  exact hne (hf a ha a' ha' b hb (hbb ▸ hb'))

theorem flatMap_zipIdx (l : List α) (f : α → List β) : (l.zipIdx.flatMap fun x => f x.1) = l.flatMap f := by
  conv_rhs => rw [← List.zipIdx_map_fst 0 l, List.flatMap_map]

end

def createdOutpoints (b : ContextuallyVerifiedBlock) : List OutPoint :=
  b.transactions.flatMap fun x => (List.range x.1.outputs.length).map fun i => ⟨x.2, i⟩

def spentOutpoints (b : ContextuallyVerifiedBlock) : List OutPoint :=
  b.transactions.flatMap fun x => x.1.spentOutpoints

section

variable [ScriptParsing] {net : Network} {b : ContextuallyVerifiedBlock}

def transferKey (net : Network) (m : OrderedUtxos) (key : Address → OutputLocation → Key) (o : OutPoint) :
    Option Key :=
  m[o]?.bind fun u => (u.utxo.output.address net).map fun a => key a (outputLocation o u)

theorem keysOf_output (m : OrderedUtxos) (hash : TransactionHash) (i : Nat) :
    (keysOf .created (outputEntries net m hash i)).Sublist [.created ⟨hash, i⟩] ∧
      (keysOf .received (outputEntries net m hash i)).Sublist (transferKey net m .received ⟨hash, i⟩).toList ∧
      keysOf .location (outputEntries net m hash i) = [] ∧ keysOf .spent (outputEntries net m hash i) = [] ∧
      keysOf .sent (outputEntries net m hash i) = [] := by
  by_cases hi : i < 2 ^ 32
  · rw [outputEntries, if_pos hi]
    cases hu : m[(⟨hash, i⟩ : OutPoint)]? with
    | none => simp [keysOf, Entry.key, Key.kind]
    | some u =>
      cases ha : u.utxo.output.address net <;>
        simp [hu, ha, transferKey, keysOf, Entry.key, Key.kind, location, outputLocation, utxo,
          outpoint]
  · rw [outputEntries, if_neg hi]
    simp [keysOf, Entry.key, Key.kind]

theorem keysOf_input (m : OrderedUtxos) (hash : TransactionHash) (input : Input) :
    keysOf .spent (inputEntries net m hash input) = input.outpoint.toList.map .spent ∧
      keysOf .sent (inputEntries net m hash input) = input.outpoint.toList.filterMap (transferKey net m .sent) ∧
      keysOf .location (inputEntries net m hash input) = [] ∧ keysOf .created (inputEntries net m hash input) = [] ∧
      keysOf .received (inputEntries net m hash input) = [] := by
  cases input with
  | coinbase height => simp [inputEntries, Input.outpoint]
  | prevOut o =>
    cases hu : m[o]? with
    | none => simp [inputEntries, hu, transferKey, keysOf, Entry.key, Key.kind, Input.outpoint]
    | some u =>
      cases ha : u.utxo.output.address net <;>
        simp [inputEntries, hu, ha, transferKey, keysOf, Entry.key, Key.kind, Input.outpoint, location,
          outputLocation, utxo, outpoint]

omit [ScriptParsing] in
theorem keysOf_shielded {κ : KeyKind} (hκ : κ ≠ .nullifier) (tx : Transaction) (hash : TransactionHash) :
    keysOf κ (shieldedEntries tx hash) = [] := by
  rw [keysOf, List.filter_eq_nil_iff]
  intro k hk
  obtain ⟨e, he, rfl⟩ := List.mem_map.1 hk
  have hkind : e.key.kind = .nullifier := by
    simp only [shieldedEntries, nullifierEntries, List.mem_append, List.mem_map] at he
    rcases he with (⟨n, -, rfl⟩ | ⟨n, -, rfl⟩) | ⟨n, -, rfl⟩ <;> rfl
  simp [hkind, Ne.symm hκ]

theorem keysOf_outputs {κ : KeyKind} (m : OrderedUtxos) (hash : TransactionHash) (n : Nat)
    {f : OutPoint → Option Key} (hf : ∀ i, (keysOf κ (outputEntries net m hash i)).Sublist (f ⟨hash, i⟩).toList) :
    (keysOf κ ((List.range n).flatMap (outputEntries net m hash))).Sublist
      (((List.range n).map fun i => ⟨hash, i⟩).filterMap f) := by
  rw [keysOf_flatMap, List.filterMap_map, List.filterMap_eq_flatMap_toList]
  exact flatMap_sublist fun i _ => hf i

theorem keysOf_inputs {κ : KeyKind} (m : OrderedUtxos) (hash : TransactionHash) (tx : Transaction)
    {f : OutPoint → Option Key}
    (hf : ∀ input : Input, keysOf κ (inputEntries net m hash input) = input.outpoint.toList.filterMap f) :
    keysOf κ (tx.inputs.flatMap (inputEntries net m hash)) = tx.spentOutpoints.filterMap f := by
  rw [keysOf_flatMap, Transaction.spentOutpoints]
  simp only [hf]
  induction tx.inputs with
  | nil => rfl
  | cons input inputs ih =>
    rw [List.flatMap_cons, ih, List.filterMap_cons]
    cases input.outpoint <;> simp [List.filterMap_cons]
    cases f _ <;> rfl

theorem keysOf_txJournal {κ : KeyKind} (hf : κ ≠ .fault) (hn : κ ≠ .nullifier) (tx : Transaction) (hash : TransactionHash)
    (i : Nat) : (keysOf κ (txJournal net b tx hash i)).Sublist ((if κ = .location then [.location hash] else []) ++
        (keysOf κ ((List.range tx.outputs.length).flatMap (outputEntries net b.newOutputs hash)) ++
          keysOf κ (tx.inputs.flatMap (inputEntries net b.spentOutputs hash)))) := by
  unfold txJournal
  split
  · rw [keysOf_cons, transparentEntries, keysOf_append, keysOf_append, keysOf_shielded hn, List.append_nil]
    by_cases hκ : κ = .location
    · subst hκ
      exact List.Sublist.refl _
    · rw [if_neg (by simpa [Entry.key, Key.kind] using Ne.symm hκ), if_neg hκ, List.nil_append]
  · have hκ : keysOf κ [.fault .oldTransactionVersion] = [] := by
      simp [keysOf, Entry.key, Key.kind, Ne.symm hf]
    rw [hκ]
    exact List.nil_sublist _

variable (net b)

theorem keysOf_journal {κ : KeyKind} (hf : κ ≠ .fault) (hn : κ ≠ .nullifier) (f g : OutPoint → Option Key)
    (hout : ∀ hash i, (keysOf κ (outputEntries net b.newOutputs hash i)).Sublist (f ⟨hash, i⟩).toList)
    (hin : ∀ hash (input : Input),
      keysOf κ (inputEntries net b.spentOutputs hash input) = input.outpoint.toList.filterMap g) :
    (keysOf κ (journal net b)).Sublist (b.transactions.flatMap fun x =>
      (if κ = .location then [.location x.2] else []) ++
        (((List.range x.1.outputs.length).map fun i => (⟨x.2, i⟩ : OutPoint)).filterMap f ++
          x.1.spentOutpoints.filterMap g)) := by
  rw [journal, keysOf_flatMap, ← flatMap_zipIdx b.transactions]
  refine flatMap_sublist fun x _ => (keysOf_txJournal hf hn x.1.1 x.1.2 x.2).trans ?_
  rw [keysOf_inputs b.spentOutputs x.1.2 x.1.1 (hin x.1.2)]
  exact (List.Sublist.refl _).append ((keysOf_outputs _ _ _ (hout x.1.2)).append (List.Sublist.refl _))

theorem keysOf_received_journal : (keysOf .received (journal net b)).Sublist
      ((createdOutpoints b).filterMap (transferKey net b.newOutputs .received)) := by
  have h := keysOf_journal net b (by decide) (by decide) (transferKey net b.newOutputs .received)
    (fun _ => none) (fun hash i => (keysOf_output b.newOutputs hash i).2.1)
    (fun hash input => by simp [(keysOf_input b.spentOutputs hash input).2.2.2.2])
  simpa [createdOutpoints, List.filterMap_flatMap] using h

theorem keysOf_sent_journal : (keysOf .sent (journal net b)).Sublist
      ((spentOutpoints b).filterMap (transferKey net b.spentOutputs .sent)) := by
  have h := keysOf_journal net b (by decide) (by decide) (fun _ => none)
    (transferKey net b.spentOutputs .sent) (fun hash i => by simp [(keysOf_output b.newOutputs hash i).2.2.2.2])
    (fun hash input => (keysOf_input b.spentOutputs hash input).2.1)
  simpa [spentOutpoints, List.filterMap_flatMap] using h

end

end Zebra.Ledger
