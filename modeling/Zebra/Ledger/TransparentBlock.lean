import Zebra.Ledger.BalancePass
import Zebra.Ledger.Payments
import Zebra.Ledger.WriteBlock

namespace Zebra

open Lib KeyedMap

namespace Payment

def entry (p : Payment) : OutputLocation × Output := (p.location, p.output)

def utxo (p : Payment) : OrderedUtxo :=
  .new p.output p.location.transactionLocation.height p.location.transactionLocation.index

end Payment

namespace Ledger

variable {ε : Type} {b : FinalizedBlock} {p q : Payment}

theorem newOrderedOutputs_eq (b : FinalizedBlock) : newOrderedOutputsWithHeight b.block b.height b.transactionHashes =
      .ofList (b.payments.map fun p => (p.outpoint, p.utxo)) := by
  rw [newOrderedOutputsWithHeight, FinalizedBlock.payments, List.map_flatten]
  congr 2
  refine List.ext_getElem (by simp) fun i _ _ => ?_
  simp only [List.getElem_mapIdx, List.getElem_map, newTransactionOrderedOutputs]
  refine List.ext_getElem (by simp) fun j _ _ => ?_
  simp [Payment.utxo]

section

variable (hd : b.transactionHashes.Nodup)
  (hnew : b.newOutputs = newOrderedOutputsWithHeight b.block b.height b.transactionHashes)

include hd in
theorem payment_eq_of_outpoint (hp : p ∈ b.payments) (hq : q ∈ b.payments) (h : p.outpoint = q.outpoint) : p = q := by
  obtain ⟨l, hl, hloc⟩ := exists_txLocation hp
  obtain ⟨l', hl', hloc'⟩ := exists_txLocation hq
  rw [← h] at hl'
  exact payment_eq_of_location hp hq (by rw [hloc, hloc', txLocation_eq hd hl hl', h])

include hd hnew in
theorem getElem?_newOutputs {o : OutPoint} {u : OrderedUtxo} :
    b.newOutputs[o]? = some u ↔ ∃ p ∈ b.payments, p.outpoint = o ∧ p.utxo = u := by
  rw [hnew, newOrderedOutputs_eq, getElem?_ofList_iff]
  · simp [and_comm]
  · intro k v v' hv hv'
    obtain ⟨p, hp, hpk⟩ := List.mem_map.1 hv
    obtain ⟨q, hq, hqk⟩ := List.mem_map.1 hv'
    obtain ⟨rfl, rfl⟩ := Prod.mk.inj hpk
    obtain ⟨hqo, rfl⟩ := Prod.mk.inj hqk
    rw [payment_eq_of_outpoint hd hp hq hqo.symm]

include hd in
theorem getElem?_txHashIndexes {hash : TransactionHash} {i : Nat} :
    b.txHashIndexes[hash]? = some i ↔ b.transactionHashes[i]? = some hash := by
  rw [FinalizedBlock.txHashIndexes, getElem?_ofList_iff]
  · simp only [List.mem_mapIdx, Prod.mk.injEq]
    constructor
    · rintro ⟨j, hj, rfl, rfl⟩
      exact List.getElem?_eq_getElem hj
    · intro h
      obtain ⟨hi, hh⟩ := List.getElem?_eq_some_iff.1 h
      exact ⟨i, hi, hh, rfl⟩
  · intro k i j hi hj
    simp only [List.mem_mapIdx, Prod.mk.injEq] at hi hj
    obtain ⟨i, hi, hik, rfl⟩ := hi
    obtain ⟨j, hj, hjk, rfl⟩ := hj
    exact (List.Nodup.getElem_inj_iff hd).1 (hik.trans hjk.symm)

include hd in
theorem lookupOutLoc_ok (hp : p ∈ b.payments) {l : OutputLocation}
    (h : (b.lookupOutLoc p.outpoint : Exec ε _) = .ok l) : l = p.location := by
  obtain ⟨i, hi, h⟩ := bind_eq_ok.1 h
  obtain ⟨tl, htl, h⟩ := bind_eq_ok.1 h
  rw [TransactionLocation.fromUsize, Outcome.check_bind_eq_ok] at htl
  rw [← Except.ok.inj h, ← Except.ok.inj htl.2]
  rw [Outcome.expect_eq_ok, getElem?_txHashIndexes hd] at hi
  obtain ⟨tl', htl', hloc⟩ := exists_txLocation hp
  rw [hloc, txLocation_eq hd htl' (mem_txLocations.2 ⟨i, hi, rfl⟩)]

include hd hnew in
theorem newOutputsByOutLoc_ok {new : LocatedUtxos} (h : (b.newOutputsByOutLoc : Exec ε _) = .ok new) :
    new.toList = b.payments.map fun p => (p.location, p.utxo.utxo) := by
  obtain ⟨outputs, ho, h⟩ := bind_eq_ok.1 h
  cases h
  have hmem : ∀ x, x ∈ outputs ↔ ∃ p ∈ b.payments, (p.location, p.utxo.utxo) = x := by
    intro x
    rw [mem_of_mapM_eq_ok ho]
    constructor
    · rintro ⟨⟨o, u⟩, hou, hx⟩
      rw [Std.ExtTreeMap.mem_toList_iff_getElem?_eq_some, getElem?_newOutputs hd hnew] at hou
      obtain ⟨p, hp, rfl, rfl⟩ := hou
      obtain ⟨l, hl, hx⟩ := bind_eq_ok.1 hx
      exact ⟨p, hp, lookupOutLoc_ok hd hp hl ▸ Except.ok.inj hx⟩
    · rintro ⟨p, hp, rfl⟩
      have hou := (getElem?_newOutputs hd hnew).2 ⟨p, hp, rfl, rfl⟩
      rw [← Std.ExtTreeMap.mem_toList_iff_getElem?_eq_some] at hou
      obtain ⟨x, hx⟩ := exists_of_mapM_eq_ok ho hou
      obtain ⟨l, hl, hx'⟩ := bind_eq_ok.1 hx
      exact ⟨_, hou, bind_eq_ok.2 ⟨l, hl, lookupOutLoc_ok hd hp hl ▸ rfl⟩⟩
  have hascending : (b.payments.map fun p => (p.location, p.utxo.utxo)).Pairwise fun x y => compare x.1 y.1 = .lt :=
    List.pairwise_map.2 (payments_ascending b)
  refine Indexes.toList_eq ⟨?_, ?_⟩ hascending
  · rw [Multiset.map_coe, Multiset.coe_nodup]
    refine List.pairwise_map.2 (hascending.imp ?_)
    intro x y hxy heq
    rw [heq, Std.ReflOrd.compare_self] at hxy
    exact absurd hxy (by decide)
  · intro l u
    rw [getElem?_ofList_iff, hmem, Multiset.mem_coe, List.mem_map]
    intro k v v' hv hv'
    obtain ⟨p, hp, hpk⟩ := (hmem _).1 hv
    obtain ⟨q, hq, hqk⟩ := (hmem _).1 hv'
    obtain ⟨rfl, rfl⟩ := Prod.mk.inj hpk
    obtain ⟨hloc, rfl⟩ := Prod.mk.inj hqk
    rw [payment_eq_of_location hp hq hloc.symm]

end

end Ledger

end Zebra
