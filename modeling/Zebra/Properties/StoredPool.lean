import Zebra.Ledger.WriteBlock
import Zebra.Properties.SubtreeIndex

namespace Zebra.Properties

open Lib Lib.Series Ledger KeyedMap NoteCommitmentTree Std.ExtTreeMap

variable [MerkleHashing] {ε : Type} {p : Pool}

def leavesAfter (p : Pool) (bs : List Block) : List Nat := bs.flatMap (·.noteCommitments p)

/-- `ts` are the trees after each of the blocks. -/
structure TreesAfter (bs : List Block) (ts : List (NoteCommitmentTree p)) : Prop where
  length_eq : ts.length = bs.length
  leaves : ∀ h t, ts[h]? = some t → t.leaves = leavesAfter p (bs.take (h + 1))

def numbered (ts : List (NoteCommitmentTree p)) : List (Nat × NoteCommitmentTree p) := ts.mapIdx Prod.mk

omit [MerkleHashing] in
theorem numbered_concat (ts : List (NoteCommitmentTree p)) (t : NoteCommitmentTree p) :
    numbered (ts ++ [t]) = numbered ts ++ [(ts.length, t)] := by
  simp [numbered, List.mapIdx_append]

omit [MerkleHashing] in
theorem numbered_ascending (ts : List (NoteCommitmentTree p)) : Ascending (numbered ts) := by
  refine List.pairwise_iff_getElem.2 fun i j hi hj hlt => ?_
  simpa [numbered] using hlt

omit [MerkleHashing] in
theorem getLast?_numbered (ts : List (NoteCommitmentTree p)) : (numbered ts).getLast?.map Prod.snd = ts.getLast? := by
  rw [numbered, List.getLast?_eq_getElem?, List.getLast?_eq_getElem?]
  simp

theorem numbered_canonical (hcf : CollisionFree) (ts : List (NoteCommitmentTree p)) :
    Canonical root (numbered ts) := by
  rw [Canonical, List.isChain_iff_getElem]
  intro i hi h
  exact root_injective hcf h

/-- The table of trees by height, which leaves out the trees that repeat the one before. -/
def StoresTrees (trees : KeyedMap Nat (NoteCommitmentTree p)) (ts : List (NoteCommitmentTree p)) : Prop :=
  Indexes trees ((firsts root none (numbered ts) : List _) : Multiset _)

variable {trees : KeyedMap Nat (NoteCommitmentTree p)} {ts : List (NoteCommitmentTree p)} {t prev : NoteCommitmentTree p}

theorem StoresTrees.toList_eq (h : StoresTrees trees ts) :
    trees.toList = firsts root none (numbered ts) :=
  Indexes.toList_eq h (compare_lt_of_ascending (numbered_ascending ts).firsts)

theorem StoresTrees.storedTree (hcf : CollisionFree) (h : StoresTrees trees ts) {height tip : Nat}
    (hle : height ≤ tip) (ht : ts[height]? = some t) :
    (storedTree (some tip) trees height : Exec ε _) = .ok (some t) := by
  have hlast : ((firsts root none (numbered ts)).filter (·.1 ≤ height)).getLast?.map Prod.snd =
      some t := by
    have hcanonical := numbered_canonical hcf ts
    rw [← List.take_append_drop (height + 1) (numbered ts)] at hcanonical ⊢
    rw [getLast?_filter_firsts hcanonical, List.getLast?_take, if_neg (Nat.succ_ne_zero _)]
    · simp [numbered, ht]
    · intro x hx
      obtain ⟨i, hi, rfl⟩ := List.mem_take_iff_getElem.1 hx
      simp only [numbered, List.getElem_mapIdx]
      omega
    · intro x hx
      obtain ⟨i, hi, rfl⟩ := List.mem_drop_iff_getElem.1 hx
      simp only [numbered, List.getElem_mapIdx]
      omega
  rw [Zebra.storedTree, if_neg (by omega), h.toList_eq, hlast]
  rfl

theorem StoresTrees.add (h : StoresTrees trees ts) (hprev : ∀ t ∈ ts.getLast?, t.root = prev.root)
    (t : NoteCommitmentTree p) :
    StoresTrees (if ts.length = 0 ∨ prev.root ≠ t.root then trees.insert ts.length t else trees) (ts ++ [t]) := by
  have hfresh : ts.length ∉ trees := by
    rw [Indexes.mem_iff h, Multiset.map_coe, Multiset.mem_coe, List.mem_map]
    rintro ⟨x, hx, hlen⟩
    obtain ⟨i, hi, rfl⟩ := List.mem_mapIdx.1 (firsts_sublist.subset hx)
    simp only at hlen
    omega
  rw [StoresTrees, numbered_concat, firsts_append, lastKey_eq_getLast?, Option.or_none]
  have hkey : ((numbered ts).getLast?.map fun x => x.2.root) = ts.getLast?.map root := by
    rw [← getLast?_numbered, Option.map_map]
    rfl
  rw [hkey]
  cases hlast : ts.getLast? with
  | none =>
    have hnil : ts = [] := List.getLast?_eq_none_iff.1 hlast
    rw [if_pos (.inl (by rw [hnil]; rfl))]
    exact Indexes.concat h hfresh
  | some t' =>
    have hne : ts.length ≠ 0 := by
      rintro hzero
      rw [List.eq_nil_of_length_eq_zero hzero] at hlast
      simp at hlast
    rw [Option.map_some, hprev t' hlast]
    by_cases hr : prev.root = t.root
    · rw [if_neg (by simp [hne, hr]), hr]
      simp only [firsts, if_true, List.append_nil]
      exact h
    · rw [if_pos (.inr hr)]
      simp only [firsts, Option.some.injEq, if_neg hr]
      exact Indexes.concat h hfresh

/-- The subtrees of a pool are exactly those that the blocks complete. -/
def StoresSubtrees (subtrees : Subtrees) (bs : List Block)
    (ts : List (NoteCommitmentTree p)) : Prop :=
  ∀ index data, subtrees[index]? = some data ↔ ∃ h b t, bs[h]? = some b ∧ ts[h]? = some t ∧ Completes t b index ∧
    data = ⟨h, rootAt t index⟩

/-- The tables of a pool with trees by height. -/
structure StoresPool (trees : KeyedMap Nat (NoteCommitmentTree p)) (anchors : KeyedMap Nat Unit)
    (subtrees : Subtrees) (bs : List Block) (ts : List (NoteCommitmentTree p)) : Prop where
  after : TreesAfter bs ts
  trees : StoresTrees trees ts
  anchors : ∀ root, root ∈ anchors ↔ ∃ t ∈ ts, t.root = root
  subtrees : StoresSubtrees subtrees bs ts

/-- What a supplied or computed subtree must be: the one that the block completes. -/
def IsCompleted (t : NoteCommitmentTree p) (b : Block) (height : Nat) (subtree : Option NoteCommitmentSubtree) : Prop :=
  ∀ s, subtree = some s ↔ Completes t b s.index ∧ s.endHeight = height ∧ s.root = rootAt t s.index

variable {bs : List Block} {b : Block} {subtrees : Subtrees} {anchors : KeyedMap Nat Unit}

omit [MerkleHashing] in
theorem leavesAfter_concat (p : Pool) (bs : List Block) (b : Block) :
    leavesAfter p (bs ++ [b]) = leavesAfter p bs ++ b.noteCommitments p := by
  simp [leavesAfter]

omit [MerkleHashing] in
theorem TreesAfter.concat (h : TreesAfter bs ts) (ht : t.leaves = leavesAfter p (bs ++ [b])) :
    TreesAfter (bs ++ [b]) (ts ++ [t]) where
  length_eq := by simp [h.length_eq]
  leaves i t' hi := by
    by_cases hlt : i < ts.length
    · rw [List.getElem?_append_left hlt] at hi
      rw [h.leaves i t' hi, List.take_append_of_le_length (by rw [← h.length_eq]; omega)]
    · have hieq : i = ts.length := by
        have := (List.getElem?_eq_some_iff.1 hi).1
        simp at this
        omega
      subst hieq
      rw [List.getElem?_concat_length, Option.some.injEq] at hi
      rw [← hi, ht, List.take_of_length_le (by simp [h.length_eq])]

omit [MerkleHashing] in
theorem TreesAfter.getLast? (h : TreesAfter bs ts) : ∀ t ∈ ts.getLast?, t.leaves = leavesAfter p bs := by
  intro t ht
  rw [List.getLast?_eq_getElem?] at ht
  have hlt := (List.getElem?_eq_some_iff.1 ht).1
  rw [h.leaves _ t ht, List.take_of_length_le (by have := h.length_eq; omega)]

omit [MerkleHashing] in
theorem TreesAfter.count_le (h : TreesAfter bs ts) (hprev : prev.leaves = leavesAfter p bs) :
    ∀ t ∈ ts, t.count ≤ prev.count := by
  intro t ht
  obtain ⟨i, hi⟩ := List.mem_iff_getElem?.1 ht
  rw [← t.length_leaves, ← prev.length_leaves, h.leaves i t hi, hprev]
  have hsplit := congrArg (fun bs => (leavesAfter p bs).length) (List.take_append_drop (i + 1) bs)
  simp only [leavesAfter, List.flatMap_append, List.length_append] at hsplit ⊢
  omega

theorem completed_concat_iff (hlen : ts.length = bs.length) {index : Nat} {data : NoteCommitmentSubtreeData} :
    (∃ h b' t', (bs ++ [b])[h]? = some b' ∧ (ts ++ [t])[h]? = some t' ∧ Completes t' b' index ∧
      data = ⟨h, rootAt t' index⟩) ↔
    (∃ h b' t', bs[h]? = some b' ∧ ts[h]? = some t' ∧ Completes t' b' index ∧ data = ⟨h, rootAt t' index⟩) ∨
      Completes t b index ∧ data = ⟨bs.length, rootAt t index⟩ := by
  constructor
  · rintro ⟨h, b', t', hb, ht, hc, hd⟩
    by_cases hlt : h < bs.length
    · rw [List.getElem?_append_left hlt] at hb
      rw [List.getElem?_append_left (hlen ▸ hlt)] at ht
      exact .inl ⟨h, b', t', hb, ht, hc, hd⟩
    · have heq : h = bs.length := by
        have := (List.getElem?_eq_some_iff.1 hb).1
        simp at this
        omega
      subst heq
      rw [List.getElem?_concat_length, Option.some.injEq] at hb
      rw [← hlen, List.getElem?_concat_length, Option.some.injEq] at ht
      subst hb ht
      exact .inr ⟨hc, hd⟩
  · rintro (⟨h, b', t', hb, ht, hc, hd⟩ | ⟨hc, hd⟩)
    · refine ⟨h, b', t', ?_, ?_, hc, hd⟩
      · rw [List.getElem?_append_left (List.getElem?_eq_some_iff.1 hb).1, hb]
      · rw [List.getElem?_append_left (List.getElem?_eq_some_iff.1 ht).1, ht]
    · exact ⟨bs.length, b, t, List.getElem?_concat_length, hlen ▸ List.getElem?_concat_length, hc, hd⟩

omit [MerkleHashing] in
theorem not_completes_twice (hts : TreesAfter bs ts) (hprev : prev.leaves = leavesAfter p bs)
    (ht : t.leaves = leavesAfter p (bs ++ [b])) {index : Nat} (hc : Completes t b index) {b' : Block}
    {t' : NoteCommitmentTree p} (ht' : t' ∈ ts) : ¬ Completes t' b' index := by
  intro hc'
  have hle := hts.count_le hprev t' ht'
  have hcount : t.count = prev.count + (b.noteCommitments p).length := by
    rw [← t.length_leaves, ht, leavesAfter_concat, List.length_append, ← hprev, prev.length_leaves]
  have hlow := hc.1
  have hhigh := hc'.2
  omega

theorem StoresSubtrees.concat (h : StoresSubtrees subtrees bs ts) (hts : TreesAfter bs ts)
    (hprev : prev.leaves = leavesAfter p bs) (ht : t.leaves = leavesAfter p (bs ++ [b]))
    {subtree : Option NoteCommitmentSubtree} (hs : IsCompleted t b bs.length subtree) :
    StoresSubtrees (insertSubtree subtrees subtree) (bs ++ [b]) (ts ++ [t]) := by
  intro index data
  rw [completed_concat_iff hts.length_eq, ← h index data]
  have hnew : ∀ i, Completes t b i → subtree = some ⟨i, bs.length, rootAt t i⟩ := fun i hc => (hs _).2 ⟨hc, rfl, rfl⟩
  cases hsub : subtree with
  | none =>
    refine ⟨.inl, fun hor => hor.resolve_right ?_⟩
    rintro ⟨hc, -⟩
    have := hnew index hc
    simp [hsub] at this
  | some s =>
    obtain ⟨hc, hend, hroot⟩ := (hs s).1 hsub
    rw [insertSubtree]
    by_cases hindex : s.index = index
    · subst hindex
      rw [getElem?_insert_self, Option.some.injEq]
      constructor
      · rintro rfl
        exact .inr ⟨hc, by rw [NoteCommitmentSubtree.intoData, hend, hroot]⟩
      · rintro (hold | ⟨-, rfl⟩)
        · obtain ⟨k, b', t', -, hk, hc', -⟩ := (h _ _).1 hold
          exact absurd hc' (not_completes_twice hts hprev ht hc (List.mem_of_getElem? hk))
        · rw [NoteCommitmentSubtree.intoData, hend, hroot]
    · rw [getElem?_insert_of_ne hindex]
      refine ⟨.inl, fun hor => hor.resolve_right ?_⟩
      rintro ⟨hc', -⟩
      have := hnew index hc'
      rw [hsub, Option.some.injEq] at this
      exact hindex (by rw [this])

theorem StoresSubtrees.concat_unchanged (h : StoresSubtrees subtrees bs ts) (hts : TreesAfter bs ts)
    (hnotes : b.noteCommitments p = []) : StoresSubtrees subtrees (bs ++ [b]) (ts ++ [t]) := by
  intro index data
  rw [completed_concat_iff hts.length_eq, ← h index data]
  refine ⟨.inl, fun hor => hor.resolve_right ?_⟩
  rintro ⟨hc, -⟩
  have hlow := hc.1
  have hhigh := hc.2
  rw [hnotes, List.length_nil] at hlow
  omega

omit [MerkleHashing] in
theorem TreesAfter.eq_of_getLast? (h : TreesAfter bs ts) (hprev : prev.leaves = leavesAfter p bs) :
    ∀ t ∈ ts.getLast?, t = prev :=
  fun t ht => NoteCommitmentTree.ext ((h.getLast? t ht).trans hprev.symm)

omit [MerkleHashing] in
theorem noteCommitments_eq_nil (hprev : prev.leaves = leavesAfter p bs) (ht : prev.leaves = leavesAfter p (bs ++ [b])) :
    b.noteCommitments p = [] := by
  rw [leavesAfter_concat, ← hprev] at ht
  exact List.append_cancel_left (ht.symm.trans (List.append_nil _).symm)

theorem StoresPool.changed (h : StoresPool trees anchors subtrees bs ts) (hprev : prev.leaves = leavesAfter p bs)
    (ht : t.leaves = leavesAfter p (bs ++ [b])) (hnew : bs.length = 0 ∨ prev.root ≠ t.root)
    {subtree : Option NoteCommitmentSubtree} (hs : IsCompleted t b bs.length subtree) :
    StoresPool (trees.insert bs.length t) (anchors.insert t.root ()) (insertSubtree subtrees subtree) (bs ++ [b])
      (ts ++ [t]) where
  after := h.after.concat ht
  trees := by
    have hadd := h.trees.add (fun t' ht' => by rw [h.after.eq_of_getLast? hprev t' ht']) t
    rwa [h.after.length_eq, if_pos hnew] at hadd
  anchors root := by
    rw [mem_insert, Std.LawfulEqOrd.compare_eq_iff_eq, h.anchors]
    simp only [List.mem_append, List.mem_singleton]
    constructor
    · rintro (rfl | ⟨t', ht', rfl⟩)
      · exact ⟨t, .inr rfl, rfl⟩
      · exact ⟨t', .inl ht', rfl⟩
    · rintro ⟨t', ht' | rfl, rfl⟩
      · exact .inr ⟨t', ht', rfl⟩
      · exact .inl rfl
  subtrees := h.subtrees.concat h.after hprev ht hs

theorem StoresPool.unchanged (hcf : CollisionFree) (h : StoresPool trees anchors subtrees bs ts)
    (hprev : prev.leaves = leavesAfter p bs) (ht : t.leaves = leavesAfter p (bs ++ [b]))
    (hold : ¬ (bs.length = 0 ∨ prev.root ≠ t.root)) : StoresPool trees anchors subtrees (bs ++ [b]) (ts ++ [t]) := by
  rw [not_or, not_not] at hold
  obtain rfl := root_injective hcf hold.2
  refine ⟨h.after.concat ht, ?_, ?_, h.subtrees.concat_unchanged h.after (noteCommitments_eq_nil hprev ht)⟩
  · have hadd := h.trees.add (fun t' ht' => by rw [h.after.eq_of_getLast? hprev t' ht']) prev
    rwa [h.after.length_eq, if_neg (by simpa using hold.1)] at hadd
  · intro root
    rw [h.anchors]
    simp only [List.mem_append, List.mem_singleton]
    refine ⟨fun ⟨t', ht', hr⟩ => ⟨t', .inl ht', hr⟩, ?_⟩
    rintro ⟨t', ht' | rfl, rfl⟩
    · exact ⟨t', ht', rfl⟩
    · have hne : ts ≠ [] := by
        rintro rfl
        exact hold.1 h.after.length_eq.symm
      have hlast := List.getLast?_eq_some_getLast hne
      exact ⟨_, List.getLast_mem hne, by rw [h.after.eq_of_getLast? hprev _ hlast]⟩

/-- The tables of the Sprout pool: the trees by their anchors, and the last one. -/
structure StoresSprout (anchors : SproutAnchors)
    (tip : Option (NoteCommitmentTree .sprout)) (bs : List Block) (ts : List (NoteCommitmentTree .sprout)) : Prop where
  after : TreesAfter bs ts
  anchors : ∀ root t, anchors[root]? = some t ↔ t ∈ ts ∧ t.root = root
  tip : tip = ts.getLast?

section

variable {anchors : SproutAnchors} {tip : Option (NoteCommitmentTree .sprout)}
  {ts : List (NoteCommitmentTree .sprout)} {t prev : NoteCommitmentTree .sprout}

theorem StoresSprout.changed (hcf : CollisionFree) (h : StoresSprout anchors tip bs ts)
    (ht : t.leaves = leavesAfter .sprout (bs ++ [b])) :
    StoresSprout (anchors.insert t.root t) (some t) (bs ++ [b]) (ts ++ [t]) where
  after := h.after.concat ht
  anchors root t' := by
    simp only [List.mem_append, List.mem_singleton]
    by_cases hr : t.root = root
    · subst hr
      rw [getElem?_insert_self, Option.some.injEq]
      constructor
      · rintro rfl
        exact ⟨.inr rfl, rfl⟩
      · rintro ⟨-, hr⟩
        exact (root_injective hcf hr).symm
    · rw [getElem?_insert_of_ne hr, h.anchors]
      refine ⟨fun ⟨hm, hr'⟩ => ⟨.inl hm, hr'⟩, ?_⟩
      rintro ⟨hm | rfl, hr'⟩
      · exact ⟨hm, hr'⟩
      · exact absurd hr' hr
  tip := by simp

theorem StoresSprout.unchanged (hcf : CollisionFree) (h : StoresSprout anchors tip bs ts)
    (hprev : prev.leaves = leavesAfter .sprout bs) (ht : t.leaves = leavesAfter .sprout (bs ++ [b]))
    (hold : ¬ (bs.length = 0 ∨ prev.root ≠ t.root)) : StoresSprout anchors tip (bs ++ [b]) (ts ++ [t]) := by
  rw [not_or, not_not] at hold
  obtain rfl := root_injective hcf hold.2
  have hne : ts ≠ [] := by
    rintro rfl
    exact hold.1 h.after.length_eq.symm
  have hlast := List.getLast?_eq_some_getLast hne
  have heq := h.after.eq_of_getLast? hprev _ hlast
  refine ⟨h.after.concat ht, ?_, ?_⟩
  · intro root t'
    rw [h.anchors]
    simp only [List.mem_append, List.mem_singleton]
    refine ⟨fun ⟨hm, hr⟩ => ⟨.inl hm, hr⟩, ?_⟩
    rintro ⟨hm | rfl, hr⟩
    · exact ⟨hm, hr⟩
    · exact ⟨heq ▸ List.getLast_mem hne, hr⟩
  · rw [h.tip, hlast, heq]
    simp

end

end Zebra.Properties
