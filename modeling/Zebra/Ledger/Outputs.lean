import Zebra.Ledger.Journal

namespace Zebra.Ledger

open Lib

/-- The new outputs of a block are the outputs of its transactions, which have distinct ids
and 16 bit positions. -/
structure ListsOutputs (b : ContextuallyVerifiedBlock) : Prop where
  hashes : b.transactionHashes.length = b.block.transactions.length
  distinct : b.transactionHashes.Nodup
  newOutputs : b.newOutputs = newOrderedOutputsWithHeight b.block b.height b.transactionHashes
  transactionCount : b.block.transactions.length ≤ 2 ^ 16

def OutputAt (b : ContextuallyVerifiedBlock) (o : OutPoint) (u : OrderedUtxo) : Prop :=
  ∃ tx output, b.block.transactions[u.txIndexInBlock]? = some tx ∧
    b.transactionHashes[u.txIndexInBlock]? = some o.hash ∧ tx.outputs[o.index]? = some output ∧
    u = .new output b.height u.txIndexInBlock

variable {b b' : ContextuallyVerifiedBlock} {o o' : OutPoint} {u u' : OrderedUtxo}

theorem mem_newOutputs_iff : (o, u) ∈ ((b.block.transactions.zip b.transactionHashes).mapIdx fun i (tx, hash) =>
      newTransactionOrderedOutputs tx hash i b.height).flatten ↔ OutputAt b o u := by
  simp only [List.mem_flatten, List.mem_mapIdx, newTransactionOrderedOutputs]
  constructor
  · rintro ⟨l, ⟨i, hi, rfl⟩, hmem⟩
    simp only [List.getElem_zip] at hmem
    obtain ⟨k, hk, heq⟩ := List.mem_mapIdx.1 hmem
    rw [Prod.mk.injEq] at heq
    obtain ⟨rfl, rfl⟩ := heq
    rw [List.length_zip, lt_min_iff] at hi
    exact ⟨_, _, List.getElem?_eq_getElem hi.1, List.getElem?_eq_getElem hi.2, List.getElem?_eq_getElem hk, rfl⟩
  · rintro ⟨tx, output, htx, hhash, hout, hu⟩
    obtain ⟨hi, rfl⟩ := List.getElem?_eq_some_iff.1 htx
    obtain ⟨hi', hhash⟩ := List.getElem?_eq_some_iff.1 hhash
    obtain ⟨hk, rfl⟩ := List.getElem?_eq_some_iff.1 hout
    refine ⟨_, ⟨u.txIndexInBlock, by simp [hi, hi'], rfl⟩, ?_⟩
    refine List.mem_mapIdx.2 ⟨o.index, by simpa using hk, ?_⟩
    rw [Prod.mk.injEq]
    exact ⟨by simp [hhash], by simpa using hu.symm⟩

theorem OutputAt.height (h : OutputAt b o u) : u.utxo.height = b.height := by
  obtain ⟨tx, output, -, -, -, hu⟩ := h
  rw [hu]
  rfl

theorem OutputAt.outpoint_eq (h : OutputAt b o u) (h' : OutputAt b o' u')
    (hi : u.txIndexInBlock = u'.txIndexInBlock) (ho : o.index = o'.index) : o = o' := by
  obtain ⟨_, _, -, hh, -⟩ := h
  obtain ⟨_, _, -, hh', -⟩ := h'
  rw [hi, hh', Option.some.injEq] at hh
  cases o
  cases o'
  simp_all

namespace ListsOutputs

theorem unique (hb : ListsOutputs b) (h : OutputAt b o u) (h' : OutputAt b o u') : u = u' := by
  obtain ⟨tx, output, htx, hh, hout, hu⟩ := h
  obtain ⟨tx', output', htx', hh', hout', hu'⟩ := h'
  have hi : u.txIndexInBlock = u'.txIndexInBlock :=
    (List.getElem?_inj (List.getElem?_eq_some_iff.1 hh).1 hb.distinct).1 (hh.trans hh'.symm)
  rw [← hi, htx, Option.some.injEq] at htx'
  subst htx'
  rw [hout, Option.some.injEq] at hout'
  rw [hu, hu', hout', hi]

theorem getElem?_newOutputs (hb : ListsOutputs b) : b.newOutputs[o]? = some u ↔ OutputAt b o u := by
  rw [hb.newOutputs, newOrderedOutputsWithHeight]
  constructor
  · intro h
    exact mem_newOutputs_iff.1 (KeyedMap.mem_of_getElem?_ofList h)
  · intro h
    have hmem : o ∈ newOrderedOutputsWithHeight b.block b.height b.transactionHashes :=
      KeyedMap.mem_ofList_iff.2 (List.mem_map.2 ⟨_, mem_newOutputs_iff.2 h, rfl⟩)
    obtain ⟨u', hu'⟩ := KeyedMap.mem_iff_exists.1 hmem
    obtain rfl := hb.unique h (mem_newOutputs_iff.1 (KeyedMap.mem_of_getElem?_ofList hu'))
    exact hu'

end ListsOutputs

def CreatedIn (bs : Blocks) (o : OutPoint) (u : OrderedUtxo) : Prop :=
  ∃ b ∈ bs, b.newOutputs[o]? = some u

theorem CreatedIn.mono {bs bs' : Blocks} (h : CreatedIn bs o u) (hsub : bs ⊆ bs') :
    CreatedIn bs' o u := by
  obtain ⟨b, hb, hu⟩ := h
  exact ⟨b, hsub hb, hu⟩

def outputLocation (o : OutPoint) (u : OrderedUtxo) : OutputLocation :=
  ⟨⟨u.utxo.height, u.txIndexInBlock⟩, o.index⟩

theorem CreatedIn.outpoint_eq {bs : Blocks} (hbs : ∀ b ∈ bs, ListsOutputs b)
    (hheight : (bs.map ContextuallyVerifiedBlock.height).Nodup) (h : CreatedIn bs o u) (h' : CreatedIn bs o' u')
    (heq : outputLocation o u = outputLocation o' u') : o = o' := by
  obtain ⟨b, hb, hu⟩ := h
  obtain ⟨b', hb', hu'⟩ := h'
  rw [(hbs b hb).getElem?_newOutputs] at hu
  rw [(hbs b' hb').getElem?_newOutputs] at hu'
  simp only [outputLocation, OutputLocation.mk.injEq, TransactionLocation.mk.injEq, hu.height, hu'.height] at heq
  obtain rfl := List.inj_on_of_nodup_map hheight hb hb' heq.1.1
  exact hu.outpoint_eq hu' heq.1.2 heq.2

def spendsOf (b : Block) : List (OutPoint × Nat) :=
  b.transactions.zipIdx.flatMap fun x => x.1.spentOutpoints.map fun o => (o, x.2)

theorem map_fst_spendsOf (b : Block) :
    (spendsOf b).map Prod.fst = b.transactions.flatMap Transaction.spentOutpoints := by
  have hzip : b.transactions = b.transactions.zipIdx.map Prod.fst := (List.zipIdx_map_fst 0 _).symm
  rw [hzip, List.flatMap_map, spendsOf, List.map_flatMap]
  simp only [List.map_map, Function.comp_def, List.map_id']

theorem mem_spendsOf {b : Block} {o : OutPoint} {i : Nat} :
    (o, i) ∈ spendsOf b ↔ ∃ tx, b.transactions[i]? = some tx ∧ o ∈ tx.spentOutpoints := by
  simp only [spendsOf, List.mem_flatMap, List.mem_map, Prod.exists, Prod.mk.injEq, List.mem_zipIdx_iff_getElem?]
  constructor
  · rintro ⟨tx, j, htx, o', ho, rfl, rfl⟩
    exact ⟨tx, htx, ho⟩
  · rintro ⟨tx, htx, ho⟩
    exact ⟨tx, i, htx, o, ho, rfl, rfl⟩

end Zebra.Ledger
