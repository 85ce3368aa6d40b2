import Zebra.Ledger.AddressUtxos
import Zebra.Ledger.BalancePass

namespace Zebra.Ledger

open Lib Lib.RunningTotal Std Outcome Entry Transfer ExtTreeMap

def utxoEntry (x : OutPoint × OrderedUtxo) : OutputLocation × Output := (outputLocation x.1 x.2, x.2.utxo.output)

def spentUtxos (b : ContextuallyVerifiedBlock) : List (OutPoint × OrderedUtxo) :=
  (spendsOf b.block).filterMap fun x => b.spentOutputs[x.1]?.map (x.1, ·)

section

variable {b : ContextuallyVerifiedBlock} {o : OutPoint} {u : OrderedUtxo} {l l' : List (OutPoint × OrderedUtxo)}

theorem mem_spentUtxosOf : (o, u) ∈ spentUtxos b ↔ (∃ i, (o, i) ∈ spendsOf b.block) ∧ b.spentOutputs[o]? = some u := by
  simp only [spentUtxos, List.mem_filterMap, Prod.exists, Option.map_eq_some_iff, Prod.mk.injEq]
  constructor
  · rintro ⟨o', i, ho, u', hu, rfl, rfl⟩
    exact ⟨⟨i, ho⟩, hu⟩
  · rintro ⟨⟨i, ho⟩, hu⟩
    exact ⟨o, i, ho, u, hu, rfl, rfl⟩

theorem nodup_spentUtxos (h : ((spendsOf b.block).map Prod.fst).Nodup) : (spentUtxos b).Nodup := by
  refine nodup_filterMap h.of_map ?_
  rintro ⟨o, i⟩ ho ⟨o', i'⟩ ho' x hx hx'
  obtain ⟨u, -, rfl⟩ := Option.map_eq_some_iff.1 hx
  obtain ⟨u', -, heq⟩ := Option.map_eq_some_iff.1 hx'
  exact List.inj_on_of_nodup_map h ho ho' (Prod.mk.inj heq).1.symm

theorem nodup_newOutputs (b : ContextuallyVerifiedBlock) : b.newOutputs.toList.Nodup := by
  refine List.Nodup.of_map Prod.fst ?_
  rw [map_fst_toList_eq_keys]
  exact nodup_keys

variable [ScriptParsing] {net : Network} {a : Address}

theorem totalTo_map_utxoEntry : totalTo net a (l.map utxoEntry) =
      ((l.filter fun x => x.2.utxo.output.address net = some a).map fun x => x.2.utxo.output.value.zatoshis).sum := by
  rw [totalTo, paidTo, List.filter_map, List.map_map]
  rfl

theorem totalTo_filter_not (p : OutPoint × OrderedUtxo → Bool) :
    totalTo net a ((l.filter fun x => ! p x).map utxoEntry) =
      totalTo net a (l.map utxoEntry) - totalTo net a ((l.filter p).map utxoEntry) := by
  have hperm := ((List.filter_append_perm p l).map utxoEntry).symm
  rw [totalTo_perm hperm, List.map_append, totalTo_append]
  omega

def paidBy (net : Network) (b : ContextuallyVerifiedBlock) (a : Address) : Int :=
  totalTo net a (b.newOutputs.toList.map utxoEntry)

def takenBy (net : Network) (b : ContextuallyVerifiedBlock) (a : Address) : Int :=
  totalTo net a ((spentUtxos b).map utxoEntry)

end

def Entry.receivedUtxo? (a : Address) : Entry → Option (OutPoint × OrderedUtxo)
  | .transfer a' (.received o u) => if a' = a then some (o, u) else none
  | _ => none

def Entry.sentUtxo? (a : Address) : Entry → Option (OutPoint × OrderedUtxo)
  | .transfer a' (.sent o u _) => if a' = a then some (o, u) else none
  | _ => none

section

variable {a : Address} {es : List Entry} {e : Entry} {o : OutPoint} {u : OrderedUtxo} {J : Multiset Entry}

theorem receivedUtxo?_eq_some : e.receivedUtxo? a = some (o, u) ↔ e = .transfer a (.received o u) := by
  cases e with
  | transfer a' t => cases t <;> simp [receivedUtxo?]
  | _ => simp [receivedUtxo?]

theorem sentUtxo?_eq_some : e.sentUtxo? a = some (o, u) ↔ ∃ txId, e = .transfer a (.sent o u txId) := by
  cases e with
  | transfer a' t => cases t <;> simp [sentUtxo?]
  | _ => simp [sentUtxo?]

theorem gains_deltas :
    gains (deltas es) a = ((es.filterMap (receivedUtxo? a)).map fun x => x.2.utxo.output.value.zatoshis).sum := by
  induction es with
  | nil => rfl
  | cons e es ih =>
    cases e with
    | transfer a' t =>
      rw [deltas_cons_transfer, gains_cons, ih]
      cases t with
      | received o u =>
        have hvalue := value_nonneg u.utxo.output
        by_cases ha : a' = a <;> simp [receivedUtxo?, delta, ha, hvalue]
      | sent o u txId =>
        have hvalue := value_nonneg u.utxo.output
        by_cases ha : a' = a <;> simp [List.filterMap_cons, receivedUtxo?, delta, ha, hvalue]
    | _ => rwa [deltas_cons_of_ne fun _ => rfl, List.filterMap_cons_none rfl]

theorem losses_deltas :
    losses (deltas es) a = ((es.filterMap (sentUtxo? a)).map fun x => x.2.utxo.output.value.zatoshis).sum := by
  induction es with
  | nil => rfl
  | cons e es ih =>
    cases e with
    | transfer a' t =>
      rw [deltas_cons_transfer, losses_cons, ih]
      cases t with
      | received o u =>
        have hvalue := value_nonneg u.utxo.output
        by_cases ha : a' = a <;> simp [List.filterMap_cons, sentUtxo?, delta, ha, hvalue]
      | sent o u txId =>
        have hvalue := value_nonneg u.utxo.output
        by_cases ha : a' = a <;> simp [sentUtxo?, delta, ha, hvalue]
    | _ => rwa [deltas_cons_of_ne fun _ => rfl, List.filterMap_cons_none rfl]

theorem balance_add : balance (es + J) a = balance J a + gains (deltas es) a - losses (deltas es) a := by
  induction es generalizing J with
  | nil => simp [deltas]
  | cons e es ih =>
    have hperm : ((e :: es : List Entry) : Multiset Entry) + J = es + (e ::ₘ J) := by
      rw [coe_cons_add, Multiset.add_cons]
    rw [hperm, ih]
    cases e with
    | transfer a' t =>
      rw [balance_cons_transfer, step_apply, deltas_cons_transfer, gains_cons, losses_cons]
      split <;> omega
    | _ => rw [balance_cons_of_ne fun _ => rfl, deltas_cons_of_ne fun _ => rfl]

theorem keys_received (a : Address) :
    ((es.filterMap (receivedUtxo? a)).map fun x => Key.received a (outputLocation x.1 x.2)).Sublist
      (keysOf .received es) := by
  induction es with
  | nil => exact List.Sublist.slnil
  | cons e es ih =>
    rw [keysOf_cons]
    cases he : e.receivedUtxo? a with
    | none =>
      rw [List.filterMap_cons_none he]
      split
      · exact ih.cons _
      · exact ih
    | some x =>
      obtain rfl := receivedUtxo?_eq_some.1 he
      rw [List.filterMap_cons_some he]
      exact ih.cons_cons _

theorem keys_sent (a : Address) :
    ((es.filterMap (sentUtxo? a)).map fun x => Key.sent a (outputLocation x.1 x.2)).Sublist
      (keysOf .sent es) := by
  induction es with
  | nil => exact List.Sublist.slnil
  | cons e es ih =>
    rw [keysOf_cons]
    cases he : e.sentUtxo? a with
    | none =>
      rw [List.filterMap_cons_none he]
      split
      · exact ih.cons _
      · exact ih
    | some x =>
      obtain ⟨txId, rfl⟩ := sentUtxo?_eq_some.1 he
      rw [List.filterMap_cons_some he]
      exact ih.cons_cons _

end

section

variable [ScriptParsing] {net : Network} {F : Blocks} {b : ContextuallyVerifiedBlock}
  {a : Address} {o : OutPoint} {u : OrderedUtxo}

omit [ScriptParsing] in
theorem sum_values_le {l l' : List (OutPoint × OrderedUtxo)} (hl : l.Nodup) (hsub : l ⊆ l') :
    (l.map fun x => x.2.utxo.output.value.zatoshis).sum ≤ (l'.map fun x => x.2.utxo.output.value.zatoshis).sum := by
  obtain ⟨l₁, hperm, hsub⟩ := List.subperm_of_subset hl hsub
  rw [← (hperm.map _).sum_eq]
  refine (hsub.map _).sum_le_sum fun z hz => ?_
  obtain ⟨x, -, rfl⟩ := List.mem_map.1 hz
  exact value_nonneg _

theorem mem_receivedUtxos :
    (o, u) ∈ (journal net b).filterMap (receivedUtxo? a) ↔ transfer a (.received o u) ∈ journal net b := by
  simp only [List.mem_filterMap, receivedUtxo?_eq_some]
  exact ⟨fun ⟨e, he, heq⟩ => heq ▸ he, fun he => ⟨_, he, rfl⟩⟩

theorem mem_sentUtxos : (o, u) ∈ (journal net b).filterMap (sentUtxo? a) ↔
      ∃ txId, transfer a (.sent o u txId) ∈ journal net b := by
  simp only [List.mem_filterMap, sentUtxo?_eq_some]
  exact ⟨fun ⟨e, he, txId, heq⟩ => ⟨txId, heq ▸ he⟩, fun ⟨txId, he⟩ => ⟨_, he, txId, rfl⟩⟩

theorem nodup_receivedUtxos (hb : ListsOutputs b) : ((journal net b).filterMap (receivedUtxo? a)).Nodup:= by
  have hkeys : ((createdOutpoints b).filterMap (transferKey net b.newOutputs .received)).Nodup :=
    nodup_transferKeys (show ∀ b' ∈ [b], ListsOutputs b' by simpa using hb) (by simp)
      (fun _ _ _ _ h => (Key.received.inj h).2) (nodup_createdOutpoints hb) fun o _ u hu => ⟨b, by simp, hu⟩
  exact (((keys_received a).trans (keysOf_received_journal net b)).nodup hkeys).of_map

theorem gains_journal_le (hb : ListsOutputs b) : gains (deltas (journal net b)) a ≤ paidBy net b a := by
  rw [gains_deltas, paidBy, totalTo_map_utxoEntry]
  refine sum_values_le (nodup_receivedUtxos hb) ?_
  rintro ⟨o, u⟩ hu
  obtain ⟨hu, ha⟩ := received_of_mem_journal (mem_receivedUtxos.1 hu)
  exact List.mem_filter.2 ⟨mem_toList_iff_getElem?_eq_some.2 hu, by simpa using ha⟩

theorem gains_journal (hb : ListsOutputs b) (hi : Indexable b) : gains (deltas (journal net b)) a = paidBy net b a := by
  rw [gains_deltas, paidBy, totalTo_map_utxoEntry]
  refine (List.Perm.map _ ?_).sum_eq
  refine (List.perm_ext_iff_of_nodup (nodup_receivedUtxos hb) ((nodup_newOutputs b).filter _)).2 ?_
  rintro ⟨o, u⟩
  rw [mem_receivedUtxos, received_mem_journal hb hi, List.mem_filter, mem_toList_iff_getElem?_eq_some,
    decide_eq_true_eq]

variable (hF : ∀ b ∈ F, ListsOutputs b) (hheight : (F.map ContextuallyVerifiedBlock.height).Nodup) (hb : Follows F b)
  (hspends : ((spendsOf b.block).map Prod.fst).Nodup)
include hF hheight hb hspends

theorem nodup_sentUtxos : ((journal net b).filterMap (sentUtxo? a)).Nodup := by
  have hc : Connected F [b] := ⟨hb, trivial⟩
  have hkeys : ((spentOutpoints b).filterMap (transferKey net b.spentOutputs .sent)).Nodup := by
    rw [spentOutpoints_eq hb.outputs]
    refine nodup_transferKeys (hc.listsOutputs hF) (hc.nodup_heights hheight) (fun _ _ _ _ h => (Key.sent.inj h).2)
      hspends ?_
    intro o ho u hu
    obtain ⟨⟨o', i⟩, hoi, rfl⟩ := List.mem_map.1 ho
    obtain ⟨u', hu', hcreated⟩ := hb.createdIn hoi
    obtain rfl := Option.some.inj (hu.symm.trans hu')
    exact hcreated
  exact (((keys_sent a).trans (keysOf_sent_journal net b)).nodup hkeys).of_map

theorem losses_journal_le : losses (deltas (journal net b)) a ≤ takenBy net b a := by
  rw [losses_deltas, takenBy, totalTo_map_utxoEntry]
  refine sum_values_le (nodup_sentUtxos hF hheight hb hspends) ?_
  rintro ⟨o, u⟩ hu
  obtain ⟨txId, he⟩ := mem_sentUtxos.1 hu
  obtain ⟨ho, hu, ha⟩ := sent_of_mem_journal he
  exact List.mem_filter.2 ⟨mem_spentUtxosOf.2 ⟨ho, hu⟩, by simpa using ha⟩

theorem losses_journal (hi : Indexable b) : losses (deltas (journal net b)) a = takenBy net b a := by
  rw [losses_deltas, takenBy, totalTo_map_utxoEntry]
  refine (List.Perm.map _ ?_).sum_eq
  refine (List.perm_ext_iff_of_nodup (nodup_sentUtxos hF hheight hb hspends)
    ((nodup_spentUtxos hspends).filter _)).2 ?_
  rintro ⟨o, u⟩
  rw [mem_sentUtxos, sent_mem_journal hb.outputs hi, List.mem_filter, mem_spentUtxosOf, decide_eq_true_eq, and_assoc]

end

/-- The call does not abort at a balance of an address. -/
structure KeepsBalances {ε α : Type} (x : Exec ε α) : Prop where
  overflow : x ≠ .panic .balanceOverflow
  underflow : x ≠ .panic .balanceUnderflow

section

variable {ε α β : Type}

theorem keepsBalances_ok (a : α) : KeepsBalances (.ok a : Exec ε α) :=
  ⟨(panic_ne_ok _ _).symm, (panic_ne_ok _ _).symm⟩

theorem KeepsBalances.bind {x : Exec ε α} {f : α → Exec ε β} (hx : KeepsBalances x)
    (hf : ∀ a, x = .ok a → KeepsBalances (f a)) : KeepsBalances (x >>= f) := by
  cases x with
  | ok a => exact hf a rfl
  | error e =>
    refine ⟨fun h => hx.overflow ?_, fun h => hx.underflow ?_⟩
    all_goals exact congrArg Except.error (Except.error.inj h)

theorem keepsBalances_panic {p : Panic} (ho : p ≠ .balanceOverflow) (hu : p ≠ .balanceUnderflow) :
    KeepsBalances (.panic p : Exec ε α) := by
  refine ⟨fun h => ho ?_, fun h => hu ?_⟩
  all_goals exact Fault.panic.inj (Except.error.inj h)

theorem keepsBalances_check {c : Prop} [Decidable c] {p : Panic} (ho : p ≠ .balanceOverflow)
    (hu : p ≠ .balanceUnderflow) : KeepsBalances (check c p : Exec ε Unit) := by
  rw [check]
  split
  · exact keepsBalances_ok ()
  · exact keepsBalances_panic ho hu

theorem keepsBalances_insertNew {κ υ : Type} [Ord κ] [TransOrd κ] [LawfulEqOrd κ] (m : KeyedMap κ υ) (k : κ) (v : υ)
    {p : Panic} (ho : p ≠ .balanceOverflow) (hu : p ≠ .balanceUnderflow) :
    KeepsBalances (m.insertNew k v p : Exec ε _) := by
  rw [KeyedMap.insertNew]
  split
  · exact keepsBalances_panic ho hu
  · exact keepsBalances_ok _

theorem keepsBalances_fromUsize (height index : Nat) :
    KeepsBalances (TransactionLocation.fromUsize height index : Exec ε _) :=
  (keepsBalances_check (by decide) (by decide)).bind fun _ _ => keepsBalances_ok _

theorem Transfer.keepsBalances_write {t : TransparentTransfers} {x : Transfer}
    (hr : Constraint.negativeAllowed.Contains (t.balance.zatoshis + x.delta)) : KeepsBalances (x.write t : Exec ε _) := by
  cases x with
  | received o u =>
    have hadd : t.balance.add u.utxo.output.value.widen = .ok ⟨_, hr⟩ := Amount.add_eq_ok.2 rfl
    rw [write, TransparentTransfers.updateCreated, hadd]
    refine (keepsBalances_fromUsize _ _).bind fun l _ => ?_
    exact (keepsBalances_insertNew _ _ _ (by decide) (by decide)).bind fun _ _ => keepsBalances_ok _
  | sent o u txId =>
    have hsub : t.balance.sub u.utxo.output.value.widen = .ok ⟨_, hr⟩ := Amount.sub_eq_ok.2 rfl
    rw [write, TransparentTransfers.updateSpent, hsub]
    refine (keepsBalances_fromUsize _ _).bind fun l _ => ?_
    exact (keepsBalances_insertNew _ _ _ (by decide) (by decide)).bind fun _ _ => keepsBalances_ok _

/-- A fault of a journal is not one of a balance. -/
def Entry.KeepsBalances : Entry → Prop
  | .fault p => p ≠ .balanceOverflow ∧ p ≠ .balanceUnderflow
  | _ => True

variable {idx : TxIndexes} {J : Multiset Entry} {e : Entry} {es : List Entry}

theorem Entry.keepsBalances_write (h : Holds idx J) (he : e.KeepsBalances) (hr : e.InRange (e ::ₘ J)) :
    Ledger.KeepsBalances (e.write idx) := by
  cases e with
  | fault p => exact keepsBalances_panic he.1 he.2
  | location hash l =>
    refine (keepsBalances_fromUsize _ _).bind fun l _ => ?_
    exact (keepsBalances_insertNew _ _ _ (by decide) (by decide)).bind fun _ _ => keepsBalances_ok _
  | created o u => exact (keepsBalances_insertNew _ _ _ (by decide) (by decide)).bind fun _ _ => keepsBalances_ok _
  | spent o txId => exact (keepsBalances_insertNew _ _ _ (by decide) (by decide)).bind fun _ _ => keepsBalances_ok _
  | nullifier p n txId =>
    rw [write]
    split
    · exact ⟨by simp [fail, Outcome.panic], by simp [fail, Outcome.panic]⟩
    · exact keepsBalances_ok _
  | transfer a t =>
    refine KeepsBalances.bind (keepsBalances_write ?_) fun _ _ => keepsBalances_ok _
    rw [(h.transfers.represents a).balance]
    simpa [InRange, balance, transfersOf_cons_transfer, add_comm] using hr

theorem keepsBalances_writeAll (h : Holds idx J) (hes : ∀ e ∈ es, e.KeepsBalances)
    (hfit : BalancesFit (balance J) (deltas es)) : KeepsBalances (writeAll idx es) := by
  induction es generalizing idx J with
  | nil => exact keepsBalances_ok _
  | cons e es ih =>
    obtain ⟨hr, hfit⟩ := balancesFit_cons.1 hfit
    refine KeepsBalances.bind (keepsBalances_write h (hes e List.mem_cons_self) hr) fun idx' hw => ?_
    exact ih (write_holds h hw) (fun e he => hes e (List.mem_cons_of_mem _ he)) hfit

variable [ScriptParsing] {net : Network} {b : ContextuallyVerifiedBlock}

theorem keepsBalances_of_mem_journal (he : e ∈ journal net b) : e.KeepsBalances := by
  obtain ⟨i, tx, hash, -, -, he⟩ := mem_journal.1 he
  cases e with
  | fault p =>
    suffices p = .oldTransactionVersion ∨ p = .outputIndex ∨ p = .newOutputMissing ∨ p = .spentOutputMissing by
      rcases this with rfl | rfl | rfl | rfl <;> exact ⟨by decide, by decide⟩
    rw [txJournal] at he
    split at he
    · simp only [transparentEntries, shieldedEntries, nullifierEntries, List.mem_cons, List.mem_append,
        List.mem_flatMap, List.mem_map, reduceCtorEq, and_false, exists_false, or_false, false_or] at he
      rcases he with ⟨k, -, he⟩ | ⟨input, -, he⟩
      · rw [outputEntries] at he
        split at he
        · split at he <;> simp_all
        · simp_all
      · cases input with
        | coinbase height => cases he
        | prevOut o =>
          rw [inputEntries] at he
          split at he <;> simp_all
    · simp_all
  | _ => trivial

end

end Zebra.Ledger
