import Zebra.Ledger.Provenance
import Zebra.Ledger.Runs
import Zebra.State.Read.AddressUtxos

namespace Zebra.Ledger

open Lib Std Entry

section

variable [ScriptParsing] {net : Network} {b : ContextuallyVerifiedBlock} {tx : Transaction} {hash : TransactionHash}
  {i : Nat} {a : Address} {t : Transfer} {o : OutPoint} {u : OrderedUtxo}

theorem mem_txJournal_transfer (htx : tx.isIndexed = true) : transfer a t ∈ txJournal net b tx hash i ↔
      (∃ k < tx.outputs.length, transfer a t ∈ outputEntries net b.newOutputs hash k) ∨
      ∃ input ∈ tx.inputs, transfer a t ∈ inputEntries net b.spentOutputs hash input := by
  have hshielded : transfer a t ∉ shieldedEntries tx hash := by
    simp [shieldedEntries, nullifierEntries]
  simp [txJournal, htx, transparentEntries, hshielded]

theorem isIndexed_of_transfer_mem (he : transfer a t ∈ txJournal net b tx hash i) : tx.isIndexed = true := by
  by_contra htx
  simp [txJournal, htx] at he

theorem transfer_mem_outputEntries {m : OrderedUtxos} {k : Nat} :
    transfer a t ∈ outputEntries net m hash k ↔ k < 2 ^ 32 ∧ ∃ u, m[(⟨hash, k⟩ : OutPoint)]? = some u ∧
      u.utxo.output.address net = some a ∧ t = .received ⟨hash, k⟩ u := by
  rw [outputEntries]
  by_cases hk : k < 2 ^ 32
  · rw [if_pos hk, and_iff_right hk]
    cases m[(⟨hash, k⟩ : OutPoint)]? with
    | none => simp
    | some u => simp [eq_comm]
  · rw [if_neg hk]
    exact iff_of_false (by simp) fun h => hk h.1

theorem transfer_mem_inputEntries {m : OrderedUtxos} {input : Input} :
    transfer a t ∈ inputEntries net m hash input ↔ ∃ o u, input.outpoint = some o ∧ m[o]? = some u ∧
      u.utxo.output.address net = some a ∧ t = .sent o u hash := by
  cases input with
  | coinbase height => simp [inputEntries, Input.outpoint]
  | prevOut o =>
    rw [inputEntries]
    cases hm : m[o]? with
    | none => simp [Input.outpoint, hm]
    | some u => simp [Input.outpoint, hm, eq_comm]

theorem indexable_of_sound (hb : ListsOutputs b) (hs : ∀ e ∈ journal net b, e.Sound) : Indexable b := by
  have hentry : ∀ tx ∈ b.block.transactions, ∃ i hash, ∀ e ∈ txJournal net b tx hash i, e.Sound := by
    intro tx htx
    obtain ⟨i, hi⟩ := List.mem_iff_getElem?.1 htx
    have hlt : i < b.transactionHashes.length := hb.hashes ▸ (List.getElem?_eq_some_iff.1 hi).1
    exact ⟨i, _, fun e he => hs e (mem_journal.2 ⟨i, tx, _, hi, List.getElem?_eq_getElem hlt, he⟩)⟩
  have hindexed : ∀ tx ∈ b.block.transactions, tx.isIndexed = true := by
    intro tx htx
    obtain ⟨i, hash, hall⟩ := hentry tx htx
    by_contra hnot
    rw [txJournal, if_neg hnot] at hall
    exact hall _ (List.mem_singleton_self _)
  refine ⟨hindexed, fun tx htx => ?_⟩
  obtain ⟨i, hash, hall⟩ := hentry tx htx
  by_contra hlong
  -- the first output whose index does not fit is a fault
  refine hall (.fault .outputIndex) ?_
  rw [txJournal, if_pos (hindexed tx htx), transparentEntries]
  refine List.mem_cons_of_mem _ (List.mem_append_left _ (List.mem_append_left _ ?_))
  exact List.mem_flatMap.2 ⟨2 ^ 32, List.mem_range.2 (by omega), by simp [outputEntries]⟩

theorem received_of_mem_journal (he : transfer a (.received o u) ∈ journal net b) :
    b.newOutputs[o]? = some u ∧ u.utxo.output.address net = some a := by
  obtain ⟨i, tx, hash, htx, -, he⟩ := mem_journal.1 he
  rw [mem_txJournal_transfer (isIndexed_of_transfer_mem he)] at he
  rcases he with ⟨k, -, he⟩ | ⟨input, -, he⟩
  · obtain ⟨-, u', hu, ha, heq⟩ := transfer_mem_outputEntries.1 he
    obtain ⟨rfl, rfl⟩ := Transfer.received.inj heq
    exact ⟨hu, ha⟩
  · obtain ⟨o', u', -, -, -, heq⟩ := transfer_mem_inputEntries.1 he
    cases heq

theorem sent_of_mem_journal {txId : TransactionHash} (he : transfer a (.sent o u txId) ∈ journal net b) :
    (∃ i, (o, i) ∈ spendsOf b.block) ∧ b.spentOutputs[o]? = some u ∧ u.utxo.output.address net = some a := by
  obtain ⟨i, tx, hash, htx, -, he⟩ := mem_journal.1 he
  rw [mem_txJournal_transfer (isIndexed_of_transfer_mem he)] at he
  rcases he with ⟨k, -, he⟩ | ⟨input, hinput, he⟩
  · obtain ⟨-, u', -, -, heq⟩ := transfer_mem_outputEntries.1 he
    cases heq
  · obtain ⟨o', u', ho, hu, ha, heq⟩ := transfer_mem_inputEntries.1 he
    obtain ⟨rfl, rfl, rfl⟩ := Transfer.sent.inj heq
    exact ⟨⟨i, mem_spendsOf.2 ⟨tx, htx, List.mem_filterMap.2 ⟨input, hinput, ho⟩⟩⟩, hu, ha⟩

theorem received_mem_journal (hb : ListsOutputs b) (hi : Indexable b) :
    transfer a (.received o u) ∈ journal net b ↔
      b.newOutputs[o]? = some u ∧ u.utxo.output.address net = some a := by
  refine ⟨received_of_mem_journal, ?_⟩
  rw [mem_journal]
  rintro ⟨hu, ha⟩
  obtain ⟨tx, output, htx, hhash, hout, -⟩ := hb.getElem?_newOutputs.1 hu
  have hmem := List.mem_of_getElem? htx
  have hlt : o.index < tx.outputs.length := (List.getElem?_eq_some_iff.1 hout).1
  refine ⟨u.txIndexInBlock, tx, o.hash, htx, hhash, ?_⟩
  rw [mem_txJournal_transfer (hi.isIndexed tx hmem)]
  exact .inl ⟨o.index, hlt, transfer_mem_outputEntries.2 ⟨hlt.trans_le (hi.outputCount tx hmem), u, hu, ha, rfl⟩⟩

theorem sent_mem_journal (hb : ListsOutputs b) (hi : Indexable b) :
    (∃ txId, transfer a (.sent o u txId) ∈ journal net b) ↔
      (∃ i, (o, i) ∈ spendsOf b.block) ∧ b.spentOutputs[o]? = some u ∧ u.utxo.output.address net = some a := by
  constructor
  · rintro ⟨txId, he⟩
    exact sent_of_mem_journal he
  · rintro ⟨⟨i, ho⟩, hu, ha⟩
    obtain ⟨tx, htx, hspent⟩ := mem_spendsOf.1 ho
    obtain ⟨input, hinput, ho⟩ := List.mem_filterMap.1 hspent
    have hlt : i < b.transactionHashes.length := hb.hashes ▸ (List.getElem?_eq_some_iff.1 htx).1
    refine ⟨b.transactionHashes[i], mem_journal.2 ⟨i, tx, _, htx, List.getElem?_eq_getElem hlt, ?_⟩⟩
    rw [mem_txJournal_transfer (hi.isIndexed tx (List.mem_of_getElem? htx))]
    exact .inr ⟨input, hinput, transfer_mem_inputEntries.2 ⟨o, u, ho, hu, ha, rfl⟩⟩

variable {idx : TxIndexes} {bs : Blocks} {l : OutputLocation} {output : Output}

theorem Holds.indexable (h : Holds idx (blocksJournal net bs)) (hbs : ∀ b ∈ bs, ListsOutputs b) :
    ∀ b ∈ bs, Indexable b := fun b hb =>
  indexable_of_sound (hbs b hb) fun e he => h.sound e (mem_blocksJournal.2 ⟨b, hb, he⟩)

theorem mem_transfersOf_blocksJournal :
    t ∈ TransfersOf (blocksJournal net bs) a ↔ ∃ b ∈ bs, transfer a t ∈ journal net b := by
  rw [TransfersOf, Multiset.mem_filterMap]
  constructor
  · rintro ⟨e, he, ht⟩
    cases e with
    | transfer a' t' =>
      simp only [transfer?, Option.ite_none_right_eq_some, Option.some.injEq] at ht
      obtain ⟨rfl, rfl⟩ := ht
      exact mem_blocksJournal.1 he
    | _ => cases ht
  · rintro ⟨b, hb, he⟩
    exact ⟨_, mem_blocksJournal.2 ⟨b, hb, he⟩, if_pos rfl⟩

theorem createdUtxos_iff (h : Holds idx (blocksJournal net bs)) (hbs : ∀ b ∈ bs, ListsOutputs b) :
    (idx.partialTransparentTransfers.getD a .default).createdUtxos[l]? = some output ↔
      ∃ o u, CreatedIn bs o u ∧ u.utxo.output.address net = some a ∧ outputLocation o u = l ∧ u.utxo.output = output := by
  have hindexable := h.indexable hbs
  rw [(h.transfers.represents a).created.get, Multiset.mem_filterMap]
  constructor
  · rintro ⟨t, ht, heq⟩
    obtain ⟨b, hb, he⟩ := mem_transfersOf_blocksJournal.1 ht
    cases t with
    | received o u =>
      obtain ⟨hu, ha⟩ := (received_mem_journal (hbs b hb) (hindexable b hb)).1 he
      obtain ⟨hl, ho⟩ := Prod.mk.inj (Option.some.inj heq)
      exact ⟨o, u, ⟨b, hb, hu⟩, ha, hl, ho⟩
    | sent o u txId => cases heq
  · rintro ⟨o, u, ⟨b, hb, hu⟩, ha, rfl, rfl⟩
    have he := (received_mem_journal (hbs b hb) (hindexable b hb)).2 ⟨hu, ha⟩
    exact ⟨_, mem_transfersOf_blocksJournal.2 ⟨b, hb, he⟩, rfl⟩

theorem spentUtxos_iff (h : Holds idx (blocksJournal net bs)) (hbs : ∀ b ∈ bs, ListsOutputs b) :
    l ∈ (idx.partialTransparentTransfers.getD a .default).spentUtxos ↔
      ∃ b ∈ bs, ∃ o u, (∃ i, (o, i) ∈ spendsOf b.block) ∧ b.spentOutputs[o]? = some u ∧
        u.utxo.output.address net = some a ∧ outputLocation o u = l := by
  have hindexable := h.indexable hbs
  rw [(h.transfers.represents a).spent.mem_iff, Multiset.mem_map]
  simp only [Multiset.mem_filterMap]
  constructor
  · rintro ⟨x, ⟨t, ht, heq⟩, rfl⟩
    obtain ⟨b, hb, he⟩ := mem_transfersOf_blocksJournal.1 ht
    cases t with
    | received o u => cases heq
    | sent o u txId =>
      obtain ⟨ho, hu, ha⟩ := (sent_mem_journal (hbs b hb) (hindexable b hb)).1 ⟨txId, he⟩
      cases heq
      exact ⟨b, hb, o, u, ho, hu, ha, rfl⟩
  · rintro ⟨b, hb, o, u, ho, hu, ha, rfl⟩
    obtain ⟨txId, he⟩ := (sent_mem_journal (hbs b hb) (hindexable b hb)).2 ⟨ho, hu, ha⟩
    exact ⟨(outputLocation o u, ()), ⟨_, mem_transfersOf_blocksJournal.2 ⟨b, hb, he⟩, rfl⟩, rfl⟩

end

section

variable {F bs : Blocks} {o o' : OutPoint} {u u' : OrderedUtxo}

theorem mem_partialTransparentIndexes {c : Chain} {addresses : List Address} {x : TransparentTransfers → Prop}
    (hx : ¬ x .default) : (∃ t ∈ c.partialTransparentIndexes addresses, x t) ↔
      ∃ a ∈ addresses, x (c.inner.partialTransparentTransfers.getD a .default) := by
  simp only [Chain.partialTransparentIndexes, List.mem_filterMap]
  constructor
  · rintro ⟨t, ⟨a, ha, ht⟩, hxt⟩
    exact ⟨a, ha, by rwa [ExtTreeMap.getD_eq_getD_getElem?, ht]⟩
  · rintro ⟨a, ha, hxa⟩
    rw [ExtTreeMap.getD_eq_getD_getElem?] at hxa
    cases ht : c.inner.partialTransparentTransfers[a]? with
    | none => exact absurd (by rwa [ht] at hxa) hx
    | some t => exact ⟨t, ⟨a, ha, ht⟩, by rwa [ht] at hxa⟩

theorem Connected.ascending (h : Connected F bs) (hF : F.Pairwise fun b b' => b.height < b'.height) :
    (F ++ bs).Pairwise fun b b' => b.height < b'.height := by
  induction bs generalizing F with
  | nil => simpa using hF
  | cons b bs ih =>
    have hb : (F ++ [b]).Pairwise fun b b' => b.height < b'.height :=
      List.pairwise_append.2 ⟨hF, List.pairwise_singleton _ _, fun b' hb' x hx => by
        rw [List.mem_singleton.1 hx]
        exact h.1.above b' hb'⟩
    simpa using ih h.2 hb

theorem eq_of_mem_transactionHashes {bs : Blocks} {b b' : ContextuallyVerifiedBlock}
    {hash : TransactionHash} (hdistinct : (bs.flatMap (·.transactionHashes)).Nodup) (hb : b ∈ bs) (hb' : b' ∈ bs)
    (hh : hash ∈ b.transactionHashes) (hh' : hash ∈ b'.transactionHashes) : b = b' := by
  by_contra hne
  have hsymm : Std.Symm (Function.onFun List.Disjoint ContextuallyVerifiedBlock.transactionHashes) := ⟨fun _ _ hd => hd.symm⟩
  exact (List.nodup_flatMap.1 hdistinct).2.forall hb hb' hne hh hh'

theorem CreatedIn.eq_of_location (hbs : ∀ b ∈ bs, ListsOutputs b)
    (hheight : (bs.map ContextuallyVerifiedBlock.height).Nodup) (h : CreatedIn bs o u) (h' : CreatedIn bs o' u')
    (heq : outputLocation o u = outputLocation o' u') : o = o' ∧ u = u' := by
  obtain rfl := h.outpoint_eq hbs hheight h' heq
  obtain ⟨b, hb, hu⟩ := h
  obtain ⟨b', hb', hu'⟩ := h'
  have hlocation := (OutputLocation.mk.inj heq).1
  have hheights : b.height = b'.height := by
    rw [← ((hbs b hb).getElem?_newOutputs.1 hu).height, ← ((hbs b' hb').getElem?_newOutputs.1 hu').height]
    exact (TransactionLocation.mk.inj hlocation).1
  obtain rfl := List.inj_on_of_nodup_map hheight hb hb' hheights
  exact ⟨rfl, Option.some.inj (hu.symm.trans hu')⟩

theorem Linked.exists_height {net : Network} [MerkleHashing] [ChainHistory] {h k : Nat} {s : Snapshot} {rs : List Record}
    (hl : Linked net h s rs) (hlow : h < k) (hhigh : k ≤ h + rs.length) : ∃ r ∈ rs, r.block.height = k := by
  induction rs generalizing h s with
  | nil =>
    rw [List.length_nil] at hhigh
    omega
  | cons r rs ih =>
    obtain ⟨hh, -, -, hl⟩ := hl
    rw [List.length_cons] at hhigh
    by_cases hk : k = h + 1
    · exact ⟨r, List.mem_cons_self, by rw [hh, hk]⟩
    · obtain ⟨r', hr', hk'⟩ := ih hl (by omega) (by omega)
      exact ⟨r', List.mem_cons_of_mem _ hr', hk'⟩

theorem Represents.bounds {net : Network} [ScriptParsing] [MerkleHashing] [ChainHistory] {ε : Type} {c : ChainInner}
    {L : Lineage net} (h : Represents c L) (hne : L.records ≠ []) :
    ∃ root tip, (c.nonFinalizedRootHeight : Exec ε _) = .ok root ∧ (c.nonFinalizedTipHeight : Exec ε _) = .ok tip ∧
      0 < root ∧ (∀ b ∈ L.blocks, root ≤ b.height ∧ b.height ≤ tip) ∧ ∀ k, root ≤ k → k ≤ tip → k ∈ c.blocks := by
  have hl := (linked_append.1 L.linked).2
  set low := L.startHeight + L.past.length with hlow
  obtain ⟨r, rs, hr⟩ := List.exists_cons_of_ne_nil hne
  have hroot : r.block.height = low + 1 := by
    rw [hr] at hl
    exact hl.1
  have hlast := List.getLast?_eq_some_getLast hne
  obtain ⟨rs', hrs'⟩ := List.getLast?_eq_some_iff.1 hlast
  refine ⟨_, _, h.rootHeight hr, h.tipHeight hrs', by omega, ?_, ?_⟩
  · intro b hb
    obtain ⟨r', hr', rfl⟩ := List.mem_map.1 hb
    have hheight := hl.height_le r' hr'
    rw [hroot, Lineage.height_getLast? hl hlast]
    omega
  · intro k hk hk'
    rw [hroot] at hk
    rw [Lineage.height_getLast? hl hlast] at hk'
    obtain ⟨r', hr', rfl⟩ := hl.exists_height (k := k) (by omega) (by omega)
    exact KeyedMap.mem_iff_exists.2 ⟨_, h.getElem?_blocks hr'⟩

end

end Zebra.Ledger
