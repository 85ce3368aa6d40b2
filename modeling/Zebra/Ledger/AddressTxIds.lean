import Zebra.Ledger.AddressUtxos
import Zebra.State.Read.AddressTxIds

namespace Zebra.Ledger

open Lib Std

variable {ε : Type} {m : KeyedMap TransactionHash TransactionLocation} {hash' : TransactionHash}

theorem exists_txIds_mapM {α : Type} {f : α → Exec ε TxIds} {s : List α} {P : α → TransactionLocation → TransactionHash → Prop}
    (hf : ∀ x ∈ s, ∃ ids, f x = .ok ids ∧ ∀ l hash, ids[l]? = some hash ↔ P x l hash)
    (hunique : ∀ x ∈ s, ∀ y ∈ s, ∀ l hash hash', P x l hash → P y l hash' → hash = hash') :
    ∃ r, s.mapM f = .ok r ∧ ∀ l hash, (ExtTreeMap.ofList (r.flatMap (·.toList)) compare : TxIds)[l]? = some hash ↔
      ∃ x ∈ s, P x l hash := by
  obtain ⟨r, hr⟩ := exists_mapM_eq_ok fun x hx => (hf x hx).imp fun _ h => h.1
  have hmem : ∀ l hash, (l, hash) ∈ r.flatMap (·.toList) ↔ ∃ x ∈ s, P x l hash := by
    intro l hash
    simp only [List.mem_flatMap, mem_of_mapM_eq_ok hr, ExtTreeMap.mem_toList_iff_getElem?_eq_some]
    constructor
    · rintro ⟨ids, ⟨x, hx, hids⟩, hget⟩
      obtain ⟨ids', hids', hspec⟩ := hf x hx
      obtain rfl := Except.ok.inj (hids.symm.trans hids')
      exact ⟨x, hx, (hspec l hash).1 hget⟩
    · rintro ⟨x, hx, hP⟩
      obtain ⟨ids, hids, hspec⟩ := hf x hx
      exact ⟨ids, ⟨x, hx, hids⟩, (hspec l hash).2 hP⟩
  refine ⟨r, hr, fun l hash => ?_⟩
  rw [KeyedMap.getElem?_ofList_iff, hmem]
  intro l hash hash' h h'
  obtain ⟨x, hx, hP⟩ := (hmem l hash).1 h
  obtain ⟨y, hy, hP'⟩ := (hmem l hash').1 h'
  exact hunique x hx y hy l hash hash' hP hP'

theorem txIdAtLocation_eq_ok {hash : TransactionHash}
    {l : TransactionLocation} : (txIdAtLocation m hash : Exec ε _) = .ok (l, hash') ↔ m[hash]? = some l ∧ hash = hash' := by
  simp only [txIdAtLocation, bind_eq_ok, Outcome.expect_eq_ok, Outcome.pure_eq_ok, Except.ok.injEq, Prod.mk.injEq]
  constructor
  · rintro ⟨l', hl, rfl, rfl⟩
    exact ⟨hl, rfl⟩
  · rintro ⟨hl, rfl⟩
    exact ⟨l, hl, rfl, rfl⟩

theorem txIdsIn_spec {t : TransparentTransfers}
    {query : QueryHeightRange} (hlocated : ∀ hash ∈ t.txIds, ∃ l, m[hash]? = some l)
    (hunique : ∀ (hash hash' : TransactionHash) (l : TransactionLocation), m[hash]? = some l → m[hash']? = some l → hash = hash') :
    ∃ ids, (t.txIdsIn m query : Exec ε TxIds) = .ok ids ∧ ∀ l hash, ids[l]? = some hash ↔
      hash ∈ t.txIds ∧ m[hash]? = some l ∧ query.contains l.height = true := by
  have hmem : ∀ hash, hash ∈ t.txIds.dedup.sort (· ≤ ·) ↔ hash ∈ t.txIds := fun hash => by
    rw [Multiset.mem_sort, Multiset.mem_dedup]
  obtain ⟨r, hr⟩ := exists_mapM_eq_ok (l := t.txIds.dedup.sort (· ≤ ·)) (f := txIdAtLocation (ε := ε) m) fun hash hhash => by
    obtain ⟨l, hl⟩ := hlocated hash ((hmem hash).1 hhash)
    exact ⟨(l, hash), txIdAtLocation_eq_ok.2 ⟨hl, rfl⟩⟩
  have hentry : ∀ l hash, (l, hash) ∈ r.filter (fun x => query.contains x.1.height) ↔
      hash ∈ t.txIds ∧ m[hash]? = some l ∧ query.contains l.height = true := by
    intro l hash
    rw [List.mem_filter, mem_of_mapM_eq_ok hr]
    constructor
    · rintro ⟨⟨hash', hhash', heq⟩, hin⟩
      obtain ⟨hl, rfl⟩ := txIdAtLocation_eq_ok.1 heq
      exact ⟨(hmem _).1 hhash', hl, hin⟩
    · rintro ⟨hhash, hl, hin⟩
      exact ⟨⟨hash, (hmem hash).2 hhash, txIdAtLocation_eq_ok.2 ⟨hl, rfl⟩⟩, hin⟩
  refine ⟨_, by rw [TransparentTransfers.txIdsIn, hr, Outcome.ok_bind]; rfl, fun l hash => ?_⟩
  rw [KeyedMap.getElem?_ofList_iff, hentry]
  intro l hash hash' h h'
  exact hunique hash hash' l ((hentry _ _).1 h).2.1 ((hentry _ _).1 h').2.1

section

variable [ScriptParsing] {net : Network} {b : ContextuallyVerifiedBlock} {bs : Blocks}
  {idx : TxIndexes} {a : Address} {hash : TransactionHash} {l : TransactionLocation} {i : Nat}

/-- The transaction at an index of the block pays the address, or spends one of its outputs. -/
def TransfersIn (net : Network) (b : ContextuallyVerifiedBlock) (a : Address) (i : Nat) (hash : TransactionHash) : Prop :=
  b.transactionHashes[i]? = some hash ∧
    ((∃ k u, b.newOutputs[(⟨hash, k⟩ : OutPoint)]? = some u ∧ u.utxo.output.address net = some a) ∨
      ∃ o u, (o, i) ∈ spendsOf b.block ∧ b.spentOutputs[o]? = some u ∧ u.utxo.output.address net = some a)

theorem transfersIn_iff_journal (hb : ListsOutputs b) (hi : Indexable b) :
    (∃ i, TransfersIn net b a i hash) ↔ ∃ t, Entry.transfer a t ∈ journal net b ∧ t.txId = hash := by
  constructor
  · rintro ⟨i, hhash, ⟨k, u, hu, ha⟩ | ⟨o, u, ho, hu, ha⟩⟩
    · exact ⟨_, (received_mem_journal hb hi).2 ⟨hu, ha⟩, rfl⟩
    · obtain ⟨tx, htx, hspent⟩ := mem_spendsOf.1 ho
      obtain ⟨input, hinput, ho⟩ := List.mem_filterMap.1 hspent
      refine ⟨.sent o u hash, mem_journal.2 ⟨i, tx, hash, htx, hhash, ?_⟩, rfl⟩
      rw [mem_txJournal_transfer (hi.isIndexed tx (List.mem_of_getElem? htx))]
      exact .inr ⟨input, hinput, transfer_mem_inputEntries.2 ⟨o, u, ho, hu, ha, rfl⟩⟩
  · rintro ⟨t, ht, rfl⟩
    obtain ⟨i, tx, hash, htx, hhash, he⟩ := mem_journal.1 ht
    rw [mem_txJournal_transfer (isIndexed_of_transfer_mem he)] at he
    rcases he with ⟨k, -, he⟩ | ⟨input, hinput, he⟩
    · obtain ⟨-, u, hu, ha, rfl⟩ := transfer_mem_outputEntries.1 he
      exact ⟨i, hhash, .inl ⟨k, u, hu, ha⟩⟩
    · obtain ⟨o, u, ho, hu, ha, rfl⟩ := transfer_mem_inputEntries.1 he
      exact ⟨i, hhash, .inr ⟨o, u, mem_spendsOf.2 ⟨tx, htx, List.mem_filterMap.2 ⟨input, hinput, ho⟩⟩, hu, ha⟩⟩

theorem location_mem_txJournal {tx : Transaction} (htx : tx.isIndexed = true) :
    Entry.location hash' l ∈ txJournal net b tx hash i ↔ hash' = hash ∧ l = ⟨b.height, i⟩ := by
  have houtput : ∀ m k, Entry.location hash' l ∉ outputEntries net m hash k := by
    intro m k
    rw [outputEntries]
    split
    · split <;> simp
    · simp
  have hinput : ∀ m input, Entry.location hash' l ∉ inputEntries net m hash input := by
    intro m input
    cases input with
    | coinbase height => simp [inputEntries]
    | prevOut o =>
      rw [inputEntries]
      split <;> simp
  have hshielded : Entry.location hash' l ∉ shieldedEntries tx hash := by
    simp [shieldedEntries, nullifierEntries]
  simp [txJournal, htx, transparentEntries, houtput, hinput, hshielded]

variable (h : Holds idx (blocksJournal net bs)) (hbs : ∀ b ∈ bs, ListsOutputs b)
include h hbs

theorem txIds_iff : hash ∈ (idx.partialTransparentTransfers.getD a .default).txIds ↔
    ∃ b ∈ bs, ∃ i, TransfersIn net b a i hash := by
  have hindexable := h.indexable hbs
  rw [(h.transfers.represents a).txIds, Multiset.mem_map]
  constructor
  · rintro ⟨t, ht, rfl⟩
    obtain ⟨b, hb, he⟩ := mem_transfersOf_blocksJournal.1 ht
    exact ⟨b, hb, (transfersIn_iff_journal (hbs b hb) (hindexable b hb)).2 ⟨t, he, rfl⟩⟩
  · rintro ⟨b, hb, hin⟩
    obtain ⟨t, he, rfl⟩ := (transfersIn_iff_journal (hbs b hb) (hindexable b hb)).1 hin
    exact ⟨t, mem_transfersOf_blocksJournal.2 ⟨b, hb, he⟩, rfl⟩

theorem txLocByHash_iff : idx.txLocByHash[hash]? = some l ↔
    ∃ b ∈ bs, b.height = l.height ∧ b.transactionHashes[l.index]? = some hash := by
  have hindexable := h.indexable hbs
  rw [h.locations.get, Multiset.mem_filterMap]
  constructor
  · rintro ⟨e, he, hl⟩
    obtain ⟨b, hb, he⟩ := mem_blocksJournal.1 he
    obtain ⟨i, tx, hash', htx, hhash, he⟩ := mem_journal.1 he
    cases e with
    | location hash'' l' =>
      cases hl
      obtain ⟨rfl, rfl⟩ := (location_mem_txJournal (hindexable b hb |>.isIndexed tx (List.mem_of_getElem? htx))).1 he
      exact ⟨b, hb, rfl, hhash⟩
    | _ => cases hl
  · rintro ⟨b, hb, hheight, hhash⟩
    have hlt : l.index < b.block.transactions.length := (hbs b hb).hashes ▸ (List.getElem?_eq_some_iff.1 hhash).1
    refine ⟨.location hash l, mem_blocksJournal.2 ⟨b, hb, mem_journal.2 ⟨l.index, _, hash,
      List.getElem?_eq_getElem hlt, hhash, ?_⟩⟩, rfl⟩
    rw [location_mem_txJournal ((hindexable b hb).isIndexed _ (List.getElem_mem hlt)), hheight]
    exact ⟨rfl, rfl⟩

theorem partialTransparentTxIds_spec {c : Chain} (hc : c.inner.toTxIndexes = idx)
    (hheights : (bs.map ContextuallyVerifiedBlock.height).Nodup) (hdistinct : (bs.flatMap (·.transactionHashes)).Nodup)
    (addresses : List Address) (query : QueryHeightRange) :
    ∃ ids, (c.partialTransparentTxIds addresses query : Exec ε TxIds) = .ok ids ∧
      ∀ (l : TransactionLocation) (hash : TransactionHash), ids[l]? = some hash ↔ ∃ a ∈ addresses, (∃ b ∈ bs, b.height = l.height ∧ TransfersIn net b a l.index hash) ∧
        query.contains l.height = true := by
  subst hc
  have hlocated : ∀ (hash : TransactionHash) (l : TransactionLocation), c.inner.txLocByHash[hash]? = some l ↔
      ∃ b ∈ bs, b.height = l.height ∧ b.transactionHashes[l.index]? = some hash := fun _ _ => txLocByHash_iff h hbs
  have hunique : ∀ (hash hash' : TransactionHash) (l : TransactionLocation), c.inner.txLocByHash[hash]? = some l → c.inner.txLocByHash[hash']? = some l →
      hash = hash' := by
    intro hash hash' l hl hl'
    obtain ⟨b, hb, hheight, hhash⟩ := (hlocated hash l).1 hl
    obtain ⟨b', hb', hheight', hhash'⟩ := (hlocated hash' l).1 hl'
    obtain rfl := List.inj_on_of_nodup_map hheights hb hb' (hheight.trans hheight'.symm)
    exact Option.some.inj (hhash.symm.trans hhash')
  -- a transaction is at one place, so its transfers are there
  have hplace : ∀ (a : Address) (l : TransactionLocation) (hash : TransactionHash), hash ∈ (c.inner.partialTransparentTransfers.getD a .default).txIds ∧
      c.inner.txLocByHash[hash]? = some l ↔ ∃ b ∈ bs, b.height = l.height ∧ TransfersIn net b a l.index hash := by
    intro a l hash
    rw [txIds_iff h hbs, hlocated]
    constructor
    · rintro ⟨⟨b, hb, i, hin⟩, b', hb', hheight, hhash⟩
      obtain rfl := eq_of_mem_transactionHashes hdistinct hb hb' (List.mem_of_getElem? hin.1) (List.mem_of_getElem? hhash)
      have hlt := (List.getElem?_eq_some_iff.1 hin.1).1
      obtain rfl := (List.getElem?_inj hlt (hbs b hb).distinct).1 (hin.1.trans hhash.symm)
      exact ⟨b, hb, hheight, hin⟩
    · rintro ⟨b, hb, hheight, hin⟩
      exact ⟨⟨b, hb, _, hin⟩, b, hb, hheight, hin.1⟩
  have hall : ∀ t ∈ c.partialTransparentIndexes addresses, ∀ hash ∈ t.txIds, ∃ l, c.inner.txLocByHash[hash]? = some l := by
    intro t ht hash hhash
    obtain ⟨a, -, hta⟩ := List.mem_filterMap.1 ht
    have hget : c.inner.partialTransparentTransfers.getD a .default = t := by
      rw [ExtTreeMap.getD_eq_getD_getElem?, hta]
      rfl
    rw [← hget, txIds_iff h hbs] at hhash
    obtain ⟨b, hb, i, hin⟩ := hhash
    exact ⟨⟨b.height, i⟩, (hlocated _ _).2 ⟨b, hb, rfl, hin.1⟩⟩
  obtain ⟨r, hr, hspec⟩ := exists_txIds_mapM (ε := ε) (f := fun t => t.txIdsIn c.inner.txLocByHash query)
    (fun t ht => txIdsIn_spec (hall t ht) hunique)
    (fun _ _ _ _ l hash hash' hP hP' => hunique hash hash' l hP.2.1 hP'.2.1)
  refine ⟨_, by rw [Chain.partialTransparentTxIds, hr, Outcome.ok_bind]; rfl, fun l hash => ?_⟩
  rw [hspec, mem_partialTransparentIndexes (x := fun t => hash ∈ t.txIds ∧
    c.inner.txLocByHash[hash]? = some l ∧ query.contains l.height = true) (by simp [TransparentTransfers.default])]
  simp only [← and_assoc, hplace]

end

end Zebra.Ledger
