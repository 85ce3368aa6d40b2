import Zebra.State.WriteBlock
import Mathlib.Data.List.Pairwise

namespace Zebra

open Lib Std FinalizedBlock

structure Payment where
  outpoint : OutPoint
  location : OutputLocation
  output : Output
deriving DecidableEq

namespace FinalizedBlock

def payments (b : FinalizedBlock) : List Payment :=
  ((b.block.transactions.zip b.transactionHashes).mapIdx fun i x =>
    x.1.outputs.mapIdx fun j o => ⟨⟨x.2, j⟩, ⟨⟨b.height, i⟩, j⟩, o⟩).flatten

def spends (b : FinalizedBlock) : List (TransactionLocation × OutPoint) :=
  (b.block.transactions.mapIdx fun i tx => tx.spentOutpoints.map (⟨b.height, i⟩, ·)).flatten

def txLocations (b : FinalizedBlock) : List (TransactionHash × TransactionLocation) :=
  b.transactionHashes.mapIdx fun i hash => (hash, ⟨b.height, i⟩)

end FinalizedBlock

namespace Ledger

variable {b b' : FinalizedBlock} {bs : List FinalizedBlock} {p q : Payment} {l : TransactionLocation}
  {hash hash' : TransactionHash}

theorem mem_payments : p ∈ b.payments ↔ ∃ i tx hash j, b.block.transactions[i]? = some tx ∧
    b.transactionHashes[i]? = some hash ∧ tx.outputs[j]? = some p.output ∧ p.outpoint = ⟨hash, j⟩ ∧
    p.location = ⟨⟨b.height, i⟩, j⟩ := by
  simp only [payments, List.mem_flatten, List.mem_mapIdx]
  constructor
  · rintro ⟨-, ⟨i, hi, rfl⟩, hp⟩
    obtain ⟨j, hj, rfl⟩ := List.mem_mapIdx.1 hp
    rw [List.length_zip, lt_min_iff] at hi
    refine ⟨i, _, _, j, List.getElem?_eq_getElem hi.1, List.getElem?_eq_getElem hi.2, ?_, ?_, rfl⟩
    · simp only [List.getElem_zip] at hj ⊢
      exact List.getElem?_eq_getElem hj
    · simp
  · rintro ⟨i, tx, hash, j, htx, hhash, ho, hout, hloc⟩
    obtain ⟨hi, rfl⟩ := List.getElem?_eq_some_iff.1 htx
    obtain ⟨hi', rfl⟩ := List.getElem?_eq_some_iff.1 hhash
    obtain ⟨hj, ho⟩ := List.getElem?_eq_some_iff.1 ho
    refine ⟨_, ⟨i, by simp [hi, hi'], rfl⟩, List.mem_mapIdx.2 ⟨j, by simpa using hj, ?_⟩⟩
    cases p
    simp_all

theorem mem_txLocations : (hash, l) ∈ b.txLocations ↔ ∃ i, b.transactionHashes[i]? = some hash ∧ l = ⟨b.height, i⟩ := by
  simp only [txLocations, List.mem_mapIdx, Prod.mk.injEq]
  constructor
  · rintro ⟨i, hi, rfl, rfl⟩
    exact ⟨i, List.getElem?_eq_getElem hi, rfl⟩
  · rintro ⟨i, hi, rfl⟩
    obtain ⟨hlt, hhash⟩ := List.getElem?_eq_some_iff.1 hi
    exact ⟨i, hlt, hhash, rfl⟩

theorem map_fst_txLocations (b : FinalizedBlock) : b.txLocations.map Prod.fst = b.transactionHashes := by
  refine List.ext_getElem (by simp [txLocations]) fun i _ _ => ?_
  simp [txLocations]

theorem map_snd_spends (b : FinalizedBlock) :
    b.spends.map Prod.snd = b.block.transactions.flatMap Transaction.spentOutpoints := by
  rw [spends, List.map_flatten, List.flatMap_def]
  congr 1
  refine List.ext_getElem (by simp) fun i _ _ => ?_
  simp

theorem exists_txLocation (h : p ∈ b.payments) :
    ∃ l, (p.outpoint.hash, l) ∈ b.txLocations ∧ p.location = .fromOutpoint l p.outpoint := by
  obtain ⟨i, tx, hash, j, -, hhash, -, hout, hloc⟩ := mem_payments.1 h
  refine ⟨⟨b.height, i⟩, mem_txLocations.2 ⟨i, ?_, rfl⟩, ?_⟩
  · rw [hout, hhash]
  · rw [hloc, hout]
    rfl

theorem location_height (h : p ∈ b.payments) : p.location.transactionLocation.height = b.height := by
  obtain ⟨i, tx, hash, j, -, -, -, -, hloc⟩ := mem_payments.1 h
  rw [hloc]

theorem payment_eq_of_location (hp : p ∈ b.payments) (hq : q ∈ b.payments) (h : p.location = q.location) : p = q := by
  obtain ⟨i, tx, hash, j, htx, hhash, ho, hout, hloc⟩ := mem_payments.1 hp
  obtain ⟨i', tx', hash', j', htx', hhash', ho', hout', hloc'⟩ := mem_payments.1 hq
  rw [hloc, hloc', OutputLocation.mk.injEq, TransactionLocation.mk.injEq] at h
  obtain ⟨⟨-, rfl⟩, rfl⟩ := h
  obtain rfl := Option.some.inj (htx.symm.trans htx')
  obtain rfl := Option.some.inj (hhash.symm.trans hhash')
  cases p
  cases q
  simp_all

theorem txLocation_eq (hd : b.transactionHashes.Nodup) {l' : TransactionLocation} (h : (hash, l) ∈ b.txLocations)
    (h' : (hash, l') ∈ b.txLocations) : l = l' := by
  obtain ⟨i, hi, rfl⟩ := mem_txLocations.1 h
  obtain ⟨i', hi', rfl⟩ := mem_txLocations.1 h'
  have hlt := (List.getElem?_eq_some_iff.1 hi).1
  rw [(List.getElem?_inj hlt hd).1 (hi.trans hi'.symm)]

theorem payments_ascending (b : FinalizedBlock) :
    b.payments.Pairwise fun p q => compare p.location q.location = .lt := by
  have hcompare : ∀ l l' : OutputLocation, compare l l' = List.compareLex compare l.key l'.key := fun _ _ => rfl
  refine List.pairwise_flatten.2 ⟨?_, ?_⟩
  · intro ps hps
    obtain ⟨i, hi, rfl⟩ := List.mem_mapIdx.1 hps
    refine List.pairwise_iff_getElem.2 fun j j' _ _ hlt => ?_
    simp [hcompare, OutputLocation.key, List.compareLex_cons_cons, Nat.compare_eq_lt.2 hlt]
  · refine List.pairwise_iff_getElem.2 fun i i' _ _ hlt p hp q hq => ?_
    simp only [List.getElem_mapIdx, List.mem_mapIdx] at hp hq
    obtain ⟨j, -, rfl⟩ := hp
    obtain ⟨j', -, rfl⟩ := hq
    simp [hcompare, OutputLocation.key, List.compareLex_cons_cons, Nat.compare_eq_lt.2 hlt]

/-- The payments of a chain. The outputs of the genesis block are not among them. -/
def chainPayments (bs : List FinalizedBlock) : List Payment :=
  (bs.filter fun b => b.height ≠ 0).flatMap payments

def chainSpends (bs : List FinalizedBlock) : List (TransactionLocation × OutPoint) := bs.flatMap spends

def unspent (bs : List FinalizedBlock) : List Payment :=
  (chainPayments bs).filter fun p => p.outpoint ∉ (chainSpends bs).map Prod.snd

/-- The blocks have the heights, transaction hashes and new outputs of one chain. -/
structure OneChain (bs : List FinalizedBlock) : Prop where
  height : ∀ (i : Nat) (b : FinalizedBlock), bs[i]? = some b → b.height = i
  hashes : ∀ b ∈ bs, b.transactionHashes.length = b.block.transactions.length
  outputs : ∀ b ∈ bs, b.newOutputs = newOrderedOutputsWithHeight b.block b.height b.transactionHashes
  distinct : (bs.flatMap (·.transactionHashes)).Nodup

theorem mem_chainPayments : p ∈ chainPayments bs ↔ ∃ b ∈ bs, b.height ≠ 0 ∧ p ∈ b.payments := by
  simp [chainPayments, and_assoc]

theorem mem_unspent : p ∈ unspent bs ↔ p ∈ chainPayments bs ∧ p.outpoint ∉ (chainSpends bs).map Prod.snd := by
  simp [unspent]

theorem chainSpends_concat (bs : List FinalizedBlock) (b : FinalizedBlock) : chainSpends (bs ++ [b]) = chainSpends bs ++ b.spends := by
  simp [chainSpends]

theorem chainPayments_concat (h : b.height ≠ 0) : chainPayments (bs ++ [b]) = chainPayments bs ++ b.payments := by
  simp [chainPayments, h]

theorem chainPayments_concat_genesis (h : b.height = 0) : chainPayments (bs ++ [b]) = chainPayments bs := by
  simp [chainPayments, h]

namespace OneChain

variable (h : OneChain bs)
include h

theorem hashes_nodup (hb : b ∈ bs) : b.transactionHashes.Nodup :=
  (List.nodup_flatMap.1 h.distinct).1 b hb

theorem block_eq_of_height (hb : b ∈ bs) (hb' : b' ∈ bs) (heq : b.height = b'.height) : b = b' := by
  obtain ⟨i, hi⟩ := List.mem_iff_getElem?.1 hb
  obtain ⟨i', hi'⟩ := List.mem_iff_getElem?.1 hb'
  rw [h.height i b hi, h.height i' b' hi'] at heq
  subst heq
  exact Option.some.inj (hi.symm.trans hi')

theorem block_eq_of_hash (hb : b ∈ bs) (hb' : b' ∈ bs) (hh : hash ∈ b.transactionHashes)
    (hh' : hash ∈ b'.transactionHashes) : b = b' := by
  by_contra hne
  have hsymm : Std.Symm (Function.onFun List.Disjoint transactionHashes) := ⟨fun _ _ hd => hd.symm⟩
  exact (List.nodup_flatMap.1 h.distinct).2.forall hb hb' hne hh hh'

theorem hash_eq_of_txLocation (hb : b ∈ bs) (hb' : b' ∈ bs) (hh : (hash, l) ∈ b.txLocations)
    (hh' : (hash', l) ∈ b'.txLocations) : hash = hash' := by
  obtain ⟨i, hi, rfl⟩ := mem_txLocations.1 hh
  obtain ⟨i', hi', heq⟩ := mem_txLocations.1 hh'
  obtain ⟨hheight, rfl⟩ := TransactionLocation.mk.inj heq
  obtain rfl := h.block_eq_of_height hb hb' hheight
  exact Option.some.inj (hi.symm.trans hi')

theorem payment_eq_of_location (hp : p ∈ chainPayments bs) (hq : q ∈ chainPayments bs) (heq : p.location = q.location) :
    p = q := by
  obtain ⟨b, hb, -, hp⟩ := mem_chainPayments.1 hp
  obtain ⟨b', hb', -, hq⟩ := mem_chainPayments.1 hq
  have hheight : b.height = b'.height := by rw [← location_height hp, ← location_height hq, heq]
  obtain rfl := h.block_eq_of_height hb hb' hheight
  exact Ledger.payment_eq_of_location hp hq heq

theorem chainPayments_nodup : (chainPayments bs).Nodup := by
  have hascending : bs.Pairwise fun b b' => b.height ≠ b'.height := by
    refine List.pairwise_iff_getElem.2 fun i j hi hj hlt => ?_
    rw [h.height i _ (List.getElem?_eq_getElem hi), h.height j _ (List.getElem?_eq_getElem hj)]
    exact hlt.ne
  refine List.nodup_flatMap.2 ⟨fun b _ => ?_, (hascending.filter _).imp fun hne => ?_⟩
  · refine (payments_ascending b).imp ?_
    rintro p _ hlt rfl
    rw [ReflOrd.compare_self] at hlt
    exact absurd hlt (by decide)
  · intro p hp hp'
    exact hne (by rw [← location_height hp, ← location_height hp'])

theorem payment_eq_of_outpoint (hp : p ∈ chainPayments bs) (hq : q ∈ chainPayments bs) (heq : p.outpoint = q.outpoint) :
    p = q := by
  obtain ⟨b, hb, -, hpb⟩ := mem_chainPayments.1 hp
  obtain ⟨b', hb', -, hqb⟩ := mem_chainPayments.1 hq
  obtain ⟨l, hl, hloc⟩ := exists_txLocation hpb
  obtain ⟨l', hl', hloc'⟩ := exists_txLocation hqb
  have hmem : p.outpoint.hash ∈ b.transactionHashes := map_fst_txLocations b ▸ List.mem_map_of_mem hl
  have hmem' : q.outpoint.hash ∈ b'.transactionHashes := map_fst_txLocations b' ▸ List.mem_map_of_mem hl'
  rw [← heq] at hmem' hl'
  obtain rfl := h.block_eq_of_hash hb hb' hmem hmem'
  obtain rfl := txLocation_eq (h.hashes_nodup hb) hl hl'
  exact h.payment_eq_of_location hp hq (by rw [hloc, hloc', heq])

end OneChain

theorem OneChain.of_append {bs' : List FinalizedBlock} (h : OneChain (bs ++ bs')) : OneChain bs where
  height i b hb := h.height i b (List.getElem?_append_left (List.getElem?_eq_some_iff.1 hb).1 ▸ hb)
  hashes b hb := h.hashes b (List.mem_append_left _ hb)
  outputs b hb := h.outputs b (List.mem_append_left _ hb)
  distinct := by
    have hd := h.distinct
    rw [List.flatMap_append] at hd
    exact hd.of_append_left

end Ledger

end Zebra
