import Zebra.Ledger.Lineage

namespace Zebra.Ledger

open Lib KeyedMap NoteCommitmentTree Lineage

section

variable {m : Subtrees} {s : NoteCommitmentSubtree} {height : Nat}

theorem get_of_subtreeAt (hs : subtreeAt m height = some s) : m[s.index]? = some s.intoData ∧ s.endHeight = height := by
  obtain ⟨x, hx, rfl⟩ := Option.map_eq_some_iff.1 hs
  have hmem := List.mem_of_find?_eq_some hx
  have hheight := List.find?_some hx
  refine ⟨?_, by simpa [NoteCommitmentSubtreeData.withIndex] using hheight⟩
  exact Std.ExtTreeMap.mem_toList_iff_getElem?_eq_some.1 hmem

theorem insertSubtree_of_get (hs : m[s.index]? = some s.intoData) : insertSubtree m (some s) = m := by
  refine Std.ExtTreeMap.ext_getElem? fun k => ?_
  by_cases hk : s.index = k
  · subst hk
    simp [insertSubtree, hs]
  · exact getElem?_insert_of_ne hk

theorem insertSubtree_bind_subtreeAt (tip : Option Nat) : insertSubtree m (tip.bind (subtreeAt m)) = m := by
  cases hs : tip.bind (subtreeAt m) with
  | none => rfl
  | some s =>
    obtain ⟨height, -, hs⟩ := Option.bind_eq_some_iff.1 hs
    exact insertSubtree_of_get (get_of_subtreeAt hs).1

end

variable [MerkleHashing] {p : Pool} {tree tree' : NoteCommitmentTree p}

def completedBy (tree : NoteCommitmentTree p) (b : Block) : Option NoteCommitmentSubtree := do
  let height ← b.coinbaseHeight
  let (_, completed) ← (tree.appendAll none (b.noteCommitments p)).toOption
  completed.map fun (index, root) => ⟨index, height, root⟩

theorem insertSubtree_updatePool {m : Subtrees} {tip : Option Nat} {b : Block}
    {height : Nat} {subtree : Option NoteCommitmentSubtree} (hb : b.coinbaseHeight = some height)
    (hu : NoteCommitmentTrees.updatePool height (b.noteCommitments p) tree (tip.bind (subtreeAt m)) =
      .ok (tree', subtree)) : insertSubtree m subtree = insertSubtree m (completedBy tree b):= by
  unfold NoteCommitmentTrees.updatePool at hu
  split at hu
  · rename_i hc
    obtain ⟨rfl, rfl⟩ : tree = tree' ∧ tip.bind (subtreeAt m) = subtree := by simpa using hu
    rw [insertSubtree_bind_subtreeAt]
    simp [completedBy, hb, hc, appendAll, Except.toOption, insertSubtree]
  · obtain ⟨⟨t, completed⟩, ht, heq⟩ := bind_eq_ok.1 hu
    obtain ⟨rfl, rfl⟩ : t = tree' ∧ _ = subtree := by simpa [pure, Except.pure] using heq
    simp [completedBy, hb, ht, Except.toOption]

def completeSubtrees (tree : NoteCommitmentTree p) : Nat := tree.count / 2 ^ trackedSubtreeHeight

/-- The last of the subtrees that the leaves between two trees complete. -/
def lastCompleted (tree tree' : NoteCommitmentTree p) : Option (Nat × Nat) :=
  if completeSubtrees tree < completeSubtrees tree' then
    some (completeSubtrees tree' - 1,
      MerkleHashing.subtreeRoot p (tree'.leaves.take (completeSubtrees tree' * 2 ^ trackedSubtreeHeight)))
  else none

omit [MerkleHashing] in
theorem completeSubtrees_mono (h : tree.count ≤ tree'.count) : completeSubtrees tree ≤ completeSubtrees tree' :=
  Nat.div_le_div_right h

theorem completedSubtree_of_append {cm : Nat} (ha : tree.append cm = .ok tree') :
    tree'.completedSubtreeIndexAndRoot = lastCompleted tree tree' := by
  obtain ⟨-, hleaves⟩ := append_eq_ok.1 ha
  have hcount : tree'.count = tree.count + 1 := by
    rw [← tree'.length_leaves, ← tree.length_leaves, hleaves, List.length_append]
    rfl
  unfold completedSubtreeIndexAndRoot isCompleteSubtree
    subtreeIndex lastCompleted completeSubtrees trackedSubtreeHeight
  by_cases hm : tree'.count % 2 ^ 16 = 0
  · have hlt : tree.count / 2 ^ 16 < tree'.count / 2 ^ 16 := by omega
    have hindex : (tree'.count - 1) / 2 ^ 16 = tree'.count / 2 ^ 16 - 1 := by omega
    have htake : tree'.leaves.take (tree'.count / 2 ^ 16 * 2 ^ 16) = tree'.leaves := by
      rw [Nat.div_mul_cancel (Nat.dvd_of_mod_eq_zero hm), ← tree'.length_leaves, List.take_length]
    have hne : tree'.count ≠ 0 := by omega
    simp only [if_pos hlt, htake, hindex, hm, hne, ne_eq, not_false_eq_true, decide_true, Bool.and_self, if_true,
      if_false, Option.map_some]
  · have hlt : ¬ tree.count / 2 ^ 16 < tree'.count / 2 ^ 16 := by omega
    simp only [if_neg hlt, hm, decide_false, Bool.and_false, Bool.false_eq_true, if_false]

/-- The last subtree completed between two trees is the last one completed after a tree in
between, or the last one completed before it. -/
theorem lastCompleted_trans {tree₁ : NoteCommitmentTree p} (h : tree.leaves <+: tree₁.leaves)
    (h' : tree₁.leaves <+: tree'.leaves) :
    (lastCompleted tree₁ tree').or (lastCompleted tree tree₁) = lastCompleted tree tree' := by
  have hc : completeSubtrees tree ≤ completeSubtrees tree₁ :=
    completeSubtrees_mono (by rw [← tree.length_leaves, ← tree₁.length_leaves]; exact h.length_le)
  have hc' : completeSubtrees tree₁ ≤ completeSubtrees tree' :=
    completeSubtrees_mono (by rw [← tree₁.length_leaves, ← tree'.length_leaves]; exact h'.length_le)
  rcases Nat.lt_or_ge (completeSubtrees tree₁) (completeSubtrees tree') with hlt | hge
  · simp [lastCompleted, hlt, hc.trans_lt hlt]
  · have heq : completeSubtrees tree₁ = completeSubtrees tree' := Nat.le_antisymm hc' hge
    have hle : completeSubtrees tree₁ * 2 ^ trackedSubtreeHeight ≤ tree₁.leaves.length := by
      rw [tree₁.length_leaves]
      exact Nat.div_mul_le_self _ _
    obtain ⟨l, hl⟩ := h'
    simp only [lastCompleted, heq, lt_irrefl, if_false, Option.none_or, ← hl]
    rw [← heq, List.take_append_of_le_length hle]

theorem appendAll_spec {subtree completed : Option (Nat × Nat)} {cms : List Nat}
    (ha : tree.appendAll subtree cms = .ok (tree', completed)) :
    tree'.leaves = tree.leaves ++ cms ∧ completed = (lastCompleted tree tree').or subtree := by
  induction cms generalizing tree subtree with
  | nil =>
    obtain ⟨rfl, rfl⟩ : tree = tree' ∧ subtree = completed := by simpa [appendAll] using ha
    simp [lastCompleted]
  | cons cm cms ih =>
    obtain ⟨tree₁, h₁, ha⟩ := bind_eq_ok.1 ha
    obtain ⟨hleaves, hcompleted⟩ := ih ha
    obtain ⟨-, hleaves₁⟩ := append_eq_ok.1 h₁
    refine ⟨by simp [hleaves, hleaves₁], ?_⟩
    rw [hcompleted, ← lastCompleted_trans ⟨_, hleaves₁.symm⟩ ⟨_, hleaves.symm⟩, Option.or_assoc,
      ← completedSubtree_of_append h₁]
    cases tree₁.completedSubtreeIndexAndRoot <;> rfl

theorem completedBy_eq {b : Block} {height : Nat} (hb : b.coinbaseHeight = some height)
    (ht : treeAfter tree b = .ok tree') :
    completedBy tree b = (lastCompleted tree tree').map fun (index, root) => ⟨index, height, root⟩ := by
  obtain ⟨completed, ha⟩ := map_fst_eq_ok.1 ht
  obtain ⟨-, hc⟩ := appendAll_spec ha
  simp [completedBy, hb, ha, Except.toOption, hc]

theorem leaves_treeAfter {b : Block} (ht : treeAfter tree b = .ok tree') :
    tree'.leaves = tree.leaves ++ b.noteCommitments p := by
  obtain ⟨completed, ha⟩ := map_fst_eq_ok.1 ht
  exact (appendAll_spec ha).1

def completedFrom (p : Pool) : Snapshot → List Record → List NoteCommitmentSubtree
  | _, [] => []
  | s, r :: rs => (completedBy (s.tree p) r.block.block).toList ++ completedFrom p r.after rs

theorem completedFrom_append (p : Pool) (s : Snapshot) (rs rs' : List Record) :
    completedFrom p s (rs ++ rs') = completedFrom p s rs ++ completedFrom p (lastSnapshot s rs) rs' := by
  induction rs generalizing s with
  | nil => rfl
  | cons r rs ih => simp [completedFrom, ih]

variable [ChainHistory] {net : Network} {h : Nat} {s s' : Snapshot} {rs : List Record} {x : NoteCommitmentSubtree}

section

variable (hcf : CollisionFree)
include hcf

theorem completedBy_bounds {b : ContextuallyVerifiedBlock} (hn : s.Next net b s')
    (hx : completedBy (s.tree p) b.block = some x) :
    completeSubtrees (s.tree p) ≤ x.index ∧ x.index < completeSubtrees (s'.tree p) ∧ x.endHeight = b.height := by
  obtain ⟨tree, ht, hs'⟩ := hn.tree p
  rw [settleTree_eq hcf] at hs'
  subst hs'
  rw [completedBy_eq hn.coinbase ht, lastCompleted] at hx
  split at hx
  · rename_i hlt
    rw [Option.map_some, Option.some.injEq] at hx
    subst hx
    exact ⟨Nat.le_sub_one_of_lt hlt, Nat.sub_one_lt_of_lt hlt, rfl⟩
  · simp at hx

theorem completeSubtrees_le_of_next {b : ContextuallyVerifiedBlock}
    (hn : s.Next net b s') : completeSubtrees (s.tree p) ≤ completeSubtrees (s'.tree p) := by
  obtain ⟨tree, ht, hs'⟩ := hn.tree p
  rw [settleTree_eq hcf] at hs'
  refine completeSubtrees_mono ?_
  rw [hs', ← tree.length_leaves, ← length_leaves, leaves_treeAfter ht, List.length_append]
  exact Nat.le_add_right _ _

theorem completeSubtrees_le (hl : Linked net h s rs) :
    completeSubtrees (s.tree p) ≤ completeSubtrees ((lastSnapshot s rs).tree p) := by
  induction rs generalizing h s with
  | nil => exact le_rfl
  | cons r rs ih =>
    obtain ⟨-, -, hn, hl⟩ := hl
    rw [lastSnapshot_cons]
    exact (completeSubtrees_le_of_next hcf hn).trans (ih hl)

theorem completedFrom_bounds (hl : Linked net h s rs) (hx : x ∈ completedFrom p s rs) :
    completeSubtrees (s.tree p) ≤ x.index ∧ x.index < completeSubtrees ((lastSnapshot s rs).tree p) ∧
      h < x.endHeight := by
  induction rs generalizing h s with
  | nil => simp [completedFrom] at hx
  | cons r rs ih =>
    obtain ⟨hh, -, hn, hl⟩ := hl
    rw [lastSnapshot_cons]
    rcases List.mem_append.1 hx with hx | hx
    · obtain ⟨hle, hlt, hend⟩ := completedBy_bounds hcf hn (by simpa using hx)
      exact ⟨hle, hlt.trans_le (completeSubtrees_le hcf hl), by omega⟩
    · obtain ⟨hle, hlt, hend⟩ := ih hl hx
      exact ⟨(completeSubtrees_le_of_next hcf hn).trans hle, hlt, by omega⟩

theorem completedFrom_ascending (hl : Linked net h s rs) :
    (completedFrom p s rs).Pairwise fun x y => x.index < y.index := by
  induction rs generalizing h s with
  | nil => exact .nil
  | cons r rs ih =>
    obtain ⟨-, -, hn, hl⟩ := hl
    refine List.pairwise_append.2 ⟨?_, ih hl, ?_⟩
    · cases completedBy (s.tree p) r.block.block <;> simp
    · intro x hx y hy
      exact (completedBy_bounds hcf hn (by simpa using hx)).2.1.trans_le (completedFrom_bounds hcf hl hy).1

end

def subtreesAfterRoot (subtrees : Subtrees) (height : Nat) :
    Subtrees :=
  if (subtreeAt subtrees height).isSome then popFirst subtrees else subtrees

def Lineage.completed (L : Lineage net) (p : Pool) : List NoteCommitmentSubtree :=
  completedFrom p (lastSnapshot L.start L.past) L.records

def HoldsSubtrees (m : Subtrees) (p : Pool) (L : Lineage net) : Prop :=
  Indexes m (((L.completed p).map fun x => (x.index, x.intoData) : List _) : Multiset _)

variable {L : Lineage net} {m : Subtrees} {r : Record}

theorem Lineage.completed_extend {hh : r.block.height = L.tipHeight + 1} {hmax : L.tipHeight + 1 ≤ Height.max}
    {hn : L.tip.Next net r.block r.after} :
    (L.extend r hh hmax hn).completed p = L.completed p ++ (completedBy (L.tip.tree p) r.block.block).toList := by
  have htip : lastSnapshot (lastSnapshot L.start L.past) L.records = L.tip := (lastSnapshot_append _ _ _).symm
  simp only [completed, extend, completedFrom_append, htip, completedFrom, List.append_nil]

theorem Lineage.completed_eq_dropRoot (hr : L.records = r :: rs) :
    L.completed p = (completedBy ((lastSnapshot L.start L.past).tree p) r.block.block).toList ++
      L.dropRoot.completed p := by
  simp [completed, dropRoot, hr, completedFrom]

theorem Lineage.linked_records (L : Lineage net) :
    Linked net (L.startHeight + L.past.length) (lastSnapshot L.start L.past) L.records :=
  (linked_append.1 L.linked).2

namespace HoldsSubtrees

theorem toList_eq (hcf : CollisionFree) (hm : HoldsSubtrees m p L) :
    m.toList = (L.completed p).map fun x => (x.index, x.intoData) := by
  refine Indexes.toList_eq hm ?_
  rw [List.pairwise_map]
  exact (completedFrom_ascending hcf L.linked_records).imp fun hlt => Nat.compare_eq_lt.2 hlt

theorem insertSubtree (hcf : CollisionFree) (hm : HoldsSubtrees m p L) {hh : r.block.height = L.tipHeight + 1}
    {hmax : L.tipHeight + 1 ≤ Height.max} {hn : L.tip.Next net r.block r.after} :
    HoldsSubtrees (insertSubtree m (completedBy (L.tip.tree p) r.block.block)) p (L.extend r hh hmax hn) := by
  rw [HoldsSubtrees, completed_extend, List.map_append]
  cases hx : completedBy (L.tip.tree p) r.block.block with
  | none =>
    rw [Option.toList_none, List.map_nil, List.append_nil]
    exact hm
  | some x =>
    refine Indexes.concat hm ?_
    rw [Indexes.mem_iff hm, Multiset.map_coe, Multiset.mem_coe, List.map_map]
    intro hmem
    obtain ⟨y, hy, hxy⟩ := List.mem_map.1 hmem
    have hlt := completedFrom_ascending (p := p) hcf (L.extend r hh hmax hn).linked_records
    rw [← completed, completed_extend, hx] at hlt
    have := (List.pairwise_append.1 hlt).2.2 y hy x (by simp)
    simp only [Function.comp_apply] at hxy
    omega

theorem subtreeAt_root (hcf : CollisionFree) (hm : HoldsSubtrees m p L) (hr : L.records = r :: rs) :
    subtreeAt m r.block.height = completedBy ((lastSnapshot L.start L.past).tree p) r.block.block := by
  have hl := L.linked_records
  rw [hr] at hl
  obtain ⟨hh, -, hn, hl⟩ := hl
  have hrest : ((L.dropRoot.completed p).map fun x => (x.index, x.intoData)).find?
      (fun s => s.2.endHeight = r.block.height) = none := by
    rw [List.find?_eq_none]
    intro y hy
    obtain ⟨x, hx, rfl⟩ := List.mem_map.1 hy
    have hd := L.dropRoot.linked_records
    have := (completedFrom_bounds hcf hd hx).2.2
    simp only [dropRoot, hr, List.length_append, List.take_succ_cons, List.take_zero, List.length_singleton] at this
    have hne : x.endHeight ≠ r.block.height := by omega
    exact fun he => hne (of_decide_eq_true he)
  rw [subtreeAt, hm.toList_eq hcf, completed_eq_dropRoot hr, List.map_append, List.find?_append, hrest]
  cases hx : completedBy ((lastSnapshot L.start L.past).tree p) r.block.block with
  | none => rfl
  | some x =>
    have hend := (completedBy_bounds hcf hn hx).2.2
    simp [NoteCommitmentSubtree.intoData, NoteCommitmentSubtreeData.withIndex, ← hend]

theorem dropRoot (hcf : CollisionFree) (hm : HoldsSubtrees m p L) (hr : L.records = r :: rs) :
    HoldsSubtrees (subtreesAfterRoot m r.block.height) p L.dropRoot := by
  have hlist := hm.toList_eq hcf
  have hind := hm
  rw [HoldsSubtrees, completed_eq_dropRoot hr] at hind
  rw [completed_eq_dropRoot hr] at hlist
  rw [subtreesAfterRoot, hm.subtreeAt_root hcf hr]
  cases hx : completedBy ((lastSnapshot L.start L.past).tree p) r.block.block with
  | none =>
    rw [hx] at hind
    exact hind
  | some x =>
    rw [hx] at hind hlist
    rw [if_pos Option.isSome_some, popFirst, hlist]
    exact Indexes.erase hind

theorem insertSubtree_self (hm : HoldsSubtrees m p L) {rs' : List Record} (hr : L.records = rs ++ r :: rs') :
    Zebra.insertSubtree m (completedBy ((lastSnapshot (lastSnapshot L.start L.past) rs).tree p) r.block.block) = m:= by
  cases hx : completedBy ((lastSnapshot (lastSnapshot L.start L.past) rs).tree p) r.block.block with
  | none => rfl
  | some x =>
    refine insertSubtree_of_get ((Indexes.get hm _ _).2 ?_)
    rw [Multiset.mem_coe, completed, hr, completedFrom_append, completedFrom, hx]
    exact List.mem_map.2 ⟨x, by simp, rfl⟩

end HoldsSubtrees

end Zebra.Ledger
