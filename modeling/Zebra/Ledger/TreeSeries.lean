import Zebra.Lib.Series
import Zebra.State.Trees

namespace Zebra.Ledger

open Lib Lib.Series KeyedMap Outcome

variable {ε : Type} {p : Pool} [MerkleHashing]

/-- The trees of a pool after each of the heights that a chain still knows. -/
abbrev TreeSeries (p : Pool) := List (Nat × NoteCommitmentTree p)

/-- The indexes of a pool hold the series `s`, whose first tree is stored unless its root
is `prev`. -/
structure TracksFrom (prev : Option Nat) (t : TreeIndex p) (s : TreeSeries p) : Prop where
  trees : Indexes t.treesByHeight ((firsts NoteCommitmentTree.root prev s : TreeSeries p) : Multiset _)
  anchorsByHeight : Indexes t.anchorsByHeight ((s.map fun x => (x.1, x.2.root) : List _) : Multiset _)
  anchors : t.anchors = ((s.map fun x => x.2.root : List Nat) : Multiset Nat)

structure Tracks (t : TreeIndex p) (s : TreeSeries p) : Prop extends TracksFrom none t s where
  ascending : Ascending s
  canonical : Canonical NoteCommitmentTree.root s

/-- A tree with the root of the previous tree is not stored, so the previous tree stands
for it. -/
def settleTree (previous tree : NoteCommitmentTree p) : NoteCommitmentTree p :=
  if previous.root = tree.root then previous else tree

/-- The assumption that Merkle roots do not collide. -/
def CollisionFree : Prop := ∀ p, Function.Injective (MerkleHashing.root p)

theorem root_injective (hcf : CollisionFree) {tree tree' : NoteCommitmentTree p} (h : tree.root = tree'.root) :
    tree = tree' :=
  NoteCommitmentTree.ext (hcf p h)

theorem settleTree_eq (hcf : CollisionFree) (previous tree : NoteCommitmentTree p) : settleTree previous tree = tree := by
  unfold settleTree
  split
  · rename_i h
    exact root_injective hcf h
  · rfl

theorem root_settleTree (previous tree : NoteCommitmentTree p) : (settleTree previous tree).root = tree.root:= by
  unfold settleTree
  split <;> simp_all

variable {t t' : TreeIndex p} {s s' : TreeSeries p} {prev : Option Nat} {h : Nat}

theorem TracksFrom.unique (ht : TracksFrom prev t s) (ht' : TracksFrom prev t' s) : t = t' :=
  TreeIndex.ext (ht.trees.unique ht'.trees) (ht.anchorsByHeight.unique ht'.anchorsByHeight)
    (ht.anchors.trans ht'.anchors.symm)

omit [MerkleHashing] in
theorem compare_lt_of_ascending {β : Type} {l : List (Nat × β)} (hl : Ascending l) :
    l.Pairwise fun a b => compare a.1 b.1 = .lt :=
  hl.imp fun hab => Nat.compare_eq_lt.2 hab

namespace Tracks

theorem treesByHeight_toList (ht : Tracks t s) : t.treesByHeight.toList = firsts NoteCommitmentTree.root none s:=
  ht.trees.toList_eq (compare_lt_of_ascending ht.ascending.firsts)

theorem anchorsByHeight_toList (ht : Tracks t s) : t.anchorsByHeight.toList = s.map fun x => (x.1, x.2.root) := by
  have hasc : Ascending (s.map fun x => (x.1, x.2.root)) := by
    rw [Ascending, List.pairwise_map]
    exact ht.ascending
  exact ht.anchorsByHeight.toList_eq (compare_lt_of_ascending hasc)

theorem anchorHeights (ht : Tracks t s) : t.anchorsByHeight.toList.map Prod.fst = s.map Prod.fst := by
  rw [ht.anchorsByHeight_toList, List.map_map]
  rfl

theorem treeForTip (ht : Tracks t s) {x : Nat × NoteCommitmentTree p} (hx : s.getLast? = some x) :
    (t.treeForTip : Exec ε _) = .ok x.2 := by
  rw [TreeIndex.treeForTip, ht.treesByHeight_toList, getLast?_firsts ht.canonical, hx]
  rfl

theorem tree (ht : Tracks t (s ++ s')) (hs : ∀ x ∈ s, x.1 ≤ h) (hs' : ∀ x ∈ s', h < x.1) :
    t.tree h = s.getLast?.map Prod.snd := by
  rw [TreeIndex.tree, ht.treesByHeight_toList, getLast?_filter_firsts ht.canonical hs hs']

end Tracks

theorem TracksFrom.removeHeight {x : Nat × NoteCommitmentTree p} (ht : TracksFrom prev t (x :: s))
    (hasc : Ascending (x :: s)) :
    ∃ t', (t.removeHeight x.1 : Exec ε _) = .ok (x.2.root, t') ∧ TracksFrom (some x.2.root) t' s := by
  have ha := ht.anchorsByHeight
  rw [List.map_cons, ← Multiset.cons_coe] at ha
  have hget : t.anchorsByHeight[x.1]? = some x.2.root := by rw [ha.get]; simp
  have hmem : x.2.root ∈ t.anchors := by rw [ht.anchors]; simp
  refine ⟨⟨t.treesByHeight.erase x.1, t.anchorsByHeight.erase x.1, t.anchors.erase x.2.root⟩, ?_, ?_⟩
  · simp [TreeIndex.removeHeight, hget, hmem, check]
  · refine ⟨?_, ha.erase, by simp [ht.anchors]⟩
    have htrees := ht.trees
    rw [firsts] at htrees
    split at htrees
    · have hnot : x.1 ∉ t.treesByHeight := by
        rw [htrees.mem_iff]
        intro hx
        obtain ⟨y, hy, hxy⟩ := Multiset.mem_map.1 hx
        have hlt := List.rel_of_pairwise_cons hasc (firsts_sublist.subset (Multiset.mem_coe.1 hy))
        omega
      rwa [erase_eq_self hnot]
    · rw [← Multiset.cons_coe] at htrees
      exact htrees.erase

theorem TracksFrom.removeHeights (ht : TracksFrom prev t (s ++ s')) (hasc : Ascending (s ++ s')) :
    ∃ t', ((s.map Prod.fst).foldlM (fun t h => Prod.snd <$> t.removeHeight h) t : Exec ε _) = .ok t' ∧
      TracksFrom (lastKey NoteCommitmentTree.root prev s) t' s' := by
  induction s generalizing t prev with
  | nil => exact ⟨t, rfl, ht⟩
  | cons x s ih =>
    obtain ⟨t₁, h₁, ht₁⟩ := ht.removeHeight (ε := ε) hasc
    obtain ⟨t', h', ht'⟩ := ih ht₁ (List.Pairwise.of_cons hasc)
    refine ⟨t', ?_, ht'⟩
    rw [List.map_cons, List.foldlM_cons, h₁]
    exact h'

omit [MerkleHashing] in
theorem le_of_getLast? {x : Nat × NoteCommitmentTree p} (hasc : Ascending s) (hx : s.getLast? = some x) :
    ∀ y ∈ s, y.1 ≤ x.1 := by
  obtain ⟨l, rfl⟩ := List.getLast?_eq_some_iff.1 hx
  intro y hy
  rw [Ascending, List.pairwise_append] at hasc
  rcases List.mem_append.1 hy with hy | hy
  · exact (hasc.2.2 y hy x (by simp)).le
  · rw [List.mem_singleton.1 hy]

theorem not_mem_treesByHeight (ht : TracksFrom prev t s) (hs : ∀ x ∈ s, x.1 ≠ h) : h ∉ t.treesByHeight := by
  rw [ht.trees.mem_iff]
  intro hmem
  obtain ⟨x, hx, rfl⟩ := Multiset.mem_map.1 hmem
  exact hs x (firsts_sublist.subset (Multiset.mem_coe.1 hx)) rfl

theorem not_mem_anchorsByHeight (ht : TracksFrom prev t s) (hs : ∀ x ∈ s, x.1 ≠ h) : h ∉ t.anchorsByHeight := by
  rw [ht.anchorsByHeight.mem_iff, Multiset.map_coe, Multiset.mem_coe, List.map_map]
  intro hmem
  obtain ⟨x, hx, hxh⟩ := List.mem_map.1 hmem
  exact hs x hx hxh

theorem tracks_empty : Tracks (.empty : TreeIndex p) [] :=
  ⟨⟨indexes_empty, indexes_empty, rfl⟩, List.Pairwise.nil, List.isChain_nil⟩

theorem Tracks.add (ht : Tracks t s) (hs : ∀ x ∈ s, x.1 < h) {tree settled : NoteCommitmentTree p} {new : Bool}
    (hnew : (t.isNewTree h tree : Exec ε _) = .ok new) (hroot : settled.root = tree.root)
    (hlast : ∀ x, s.getLast? = some x → x.2.root = settled.root → x.2 = settled)
    (hkey : lastKey NoteCommitmentTree.root none s = some settled.root ↔ new = false)
    (hsame : new = true → settled = tree) :
    ∃ t', (t.addTreeAndAnchor h tree : Exec ε _) = .ok t' ∧ Tracks t' (s ++ [(h, settled)]) := by
  have hne : ∀ x ∈ s, x.1 ≠ h := fun x hx => (hs x hx).ne
  have hasc : Ascending (s ++ [(h, settled)]) := by
    rw [Ascending, List.pairwise_append]
    exact ⟨ht.ascending, List.pairwise_singleton _ _, fun x hx y hy => by rw [List.mem_singleton.1 hy]; exact hs x hx⟩
  have hcan : Canonical NoteCommitmentTree.root (s ++ [(h, settled)]) := by
    rw [Canonical, List.isChain_append]
    refine ⟨ht.canonical, List.isChain_singleton _, fun x hx y hy => ?_⟩
    obtain rfl : (h, settled) = y := by simpa using hy
    exact hlast x hx
  have hanchor := not_mem_anchorsByHeight ht.toTracksFrom hne
  have htree := not_mem_treesByHeight ht.toTracksFrom hne
  have hanchors := ht.anchorsByHeight.concat (v := settled.root) hanchor
  have hroots : settled.root ::ₘ t.anchors = (((s ++ [(h, settled)]).map fun x => x.2.root : List Nat) : Multiset Nat) := by
    rw [ht.anchors, Multiset.cons_coe, List.map_append]
    exact Multiset.coe_eq_coe.2 (List.perm_append_singleton _ _).symm
  have hstored : firsts NoteCommitmentTree.root none (s ++ [(h, settled)]) =
      firsts NoteCommitmentTree.root none s ++ firsts _ (lastKey _ none s) [(h, settled)] := firsts_append
  cases new with
  | true =>
    obtain rfl := hsame rfl
    have hk : ¬ lastKey NoteCommitmentTree.root none s = some settled.root := by simp [hkey]
    refine ⟨⟨t.treesByHeight.insert h settled, t.anchorsByHeight.insert h settled.root, settled.root ::ₘ t.anchors⟩,
      ?_, ⟨?_, by simpa using hanchors, hroots⟩, hasc, hcan⟩
    · simp [TreeIndex.addTreeAndAnchor, TreeIndex.storeTree, hnew, insertNew_of_not_mem htree,
        insertNew_of_not_mem hanchor]
    · rw [hstored, firsts, if_neg hk]
      exact ht.trees.concat htree
  | false =>
    have hk := hkey.2 rfl
    refine ⟨⟨t.treesByHeight, t.anchorsByHeight.insert h settled.root, settled.root ::ₘ t.anchors⟩,
      ?_, ⟨?_, by simpa using hanchors, hroots⟩, hasc, hcan⟩
    · simp [TreeIndex.addTreeAndAnchor, TreeIndex.storeTree, hnew, ← hroot, insertNew_of_not_mem hanchor]
    · rw [hstored, firsts, if_pos hk, firsts, List.append_nil]
      exact ht.trees

theorem isNewTree_of_none (hh : h ≤ Height.max) {tree : NoteCommitmentTree p}
    (hprev : ∀ k, h = k + 1 → t.tree k = none) : (t.isNewTree h tree : Exec ε _) = .ok true := by
  cases h with
  | zero => rfl
  | succ k =>
    have hk : Height.previous (k + 1) = some k := Height.previous_eq_some.2 ⟨rfl, by omega⟩
    simp [TreeIndex.isNewTree, Height.min, hk, hprev k rfl]

theorem isNewTree_of_some (hh : h + 1 ≤ Height.max) {previous tree : NoteCommitmentTree p}
    (hprev : t.tree h = some previous) :
    (t.isNewTree (h + 1) tree : Exec ε _) = .ok (decide (previous.root ≠ tree.root)) := by
  have hk : Height.previous (h + 1) = some h := Height.previous_eq_some.2 ⟨rfl, by omega⟩
  simp [TreeIndex.isNewTree, Height.min, hk, hprev]

theorem tracks_singleton (hh : h ≤ Height.max) (tree : NoteCommitmentTree p) :
    ∃ t, (TreeIndex.empty.addTreeAndAnchor h tree : Exec ε _) = .ok t ∧ Tracks t [(h, tree)] := by
  have hempty : Tracks (.empty : TreeIndex p) ([] ++ []) := tracks_empty
  have hnew : ((.empty : TreeIndex p).isNewTree h tree : Exec ε _) = .ok true :=
    isNewTree_of_none hh fun k _ => hempty.tree (List.forall_mem_nil _) (List.forall_mem_nil _)
  exact tracks_empty.add (by simp) hnew rfl (by simp) (by simp [lastKey]) fun _ => rfl

theorem Tracks.addNext (ht : Tracks t s) {previous : NoteCommitmentTree p} (tree : NoteCommitmentTree p)
    (hlast : s.getLast? = some (h, previous)) (hh : h + 1 ≤ Height.max) :
    ∃ t', (t.addTreeAndAnchor (h + 1) tree : Exec ε _) = .ok t' ∧
      Tracks t' (s ++ [(h + 1, settleTree previous tree)]) := by
  have hle := le_of_getLast? ht.ascending hlast
  have hprev : t.tree h = some previous := by
    have ht' : Tracks t (s ++ []) := by simpa using ht
    have htree := ht'.tree hle (by simp)
    rw [htree, hlast]
    rfl
  refine ht.add (fun x hx => Nat.lt_succ_of_le (hle x hx)) (isNewTree_of_some hh hprev) (root_settleTree _ _) ?_ ?_ ?_
  · intro x hx hr
    obtain rfl : (h, previous) = x := by simpa [hlast] using hx
    rw [root_settleTree] at hr
    simp [settleTree, hr]
  · rw [lastKey_eq_getLast?, hlast, root_settleTree]
    simp
  · intro hn
    simp only [ne_eq, decide_not, Bool.not_eq_true', decide_eq_false_iff_not] at hn
    simp [settleTree, hn]

omit [MerkleHashing] in
theorem restoreNext_of_le {tip : Option Nat} (htip : ∀ k, tip = some k → k ≤ h)
    (removed : Option (NoteCommitmentTree p)) : (t.restoreNext h tip removed : Exec ε _) = .ok t := by
  have hany : ¬ tip.any (h < ·) = true := by
    cases tip with
    | none => simp
    | some k => simpa using htip k rfl
  rw [TreeIndex.restoreNext, if_neg hany]
  rfl

theorem Tracks.removeTip_step {tree : NoteCommitmentTree p} (ht : Tracks t (s ++ [(h, tree)])) :
    ∃ t', (t.removeHeight h : Exec ε _) = .ok (tree.root, t') ∧ Tracks t' s := by
  have hanchors := ht.anchorsByHeight
  rw [List.map_append] at hanchors
  have hget : t.anchorsByHeight[h]? = some tree.root := by rw [hanchors.get]; simp
  have hmem : tree.root ∈ t.anchors := by rw [ht.anchors]; simp
  have hasc := ht.ascending
  rw [Ascending, List.pairwise_append] at hasc
  refine ⟨⟨t.treesByHeight.erase h, t.anchorsByHeight.erase h, t.anchors.erase tree.root⟩, ?_,
    ⟨?_, hanchors.unconcat.2, ?_⟩, hasc.1, (List.isChain_append.1 ht.canonical).1⟩
  · simp [TreeIndex.removeHeight, hget, hmem, check]
  · have htrees := ht.trees
    rw [firsts_append, firsts] at htrees
    split at htrees
    · rw [firsts, List.append_nil] at htrees
      have hnot : h ∉ t.treesByHeight := by
        rw [htrees.mem_iff]
        intro hx
        obtain ⟨y, hy, rfl⟩ := Multiset.mem_map.1 hx
        exact (hasc.2.2 y (firsts_sublist.subset (Multiset.mem_coe.1 hy)) (y.1, tree) (by simp)).ne rfl
      rwa [erase_eq_self hnot]
    · exact htrees.unconcat.2
  · have hperm : ((s ++ [(h, tree)]).map fun x => x.2.root).Perm (tree.root :: s.map fun x => x.2.root) := by
      rw [List.map_append]
      exact List.perm_append_singleton _ _
    rw [ht.anchors, Multiset.coe_eq_coe.2 hperm]
    simp

theorem Tracks.removeTip {tree : NoteCommitmentTree p} (ht : Tracks t (s ++ [(h, tree)])) {tip : Option Nat}
    (htip : ∀ k, tip = some k → k ≤ h) :
    ∃ t', (t.removeTreeAndAnchor .tip h tip : Exec ε _) = .ok t' ∧ Tracks t' s := by
  obtain ⟨t', h', ht'⟩ := ht.removeTip_step (ε := ε)
  refine ⟨t', ?_, ht'⟩
  simp only [TreeIndex.removeTreeAndAnchor, TreeIndex.removal, List.foldlM_cons, List.foldlM_nil, h']
  exact restoreNext_of_le htip none

theorem TracksFrom.restoreNext (prevTree : NoteCommitmentTree p) (ht : TracksFrom (some prevTree.root) t s)
    (hasc : Ascending s) {x : Nat × NoteCommitmentTree p} (hx : s.head? = some x) (hnext : x.1 = h + 1)
    (hmax : h + 1 ≤ Height.max) (hcan : prevTree.root = x.2.root → prevTree = x.2) {tip : Nat} (htip : h < tip) :
    ∃ t', (t.restoreNext h (some tip) (some prevTree) : Exec ε _) = .ok t' ∧ TracksFrom none t' s := by
  obtain ⟨s, rfl⟩ : ∃ l, s = x :: l := ⟨s.tail, by cases s <;> simp_all⟩
  have hn : Height.next h = some (h + 1) := Height.next_eq_some.2 ⟨rfl, hmax⟩
  have htrees := ht.trees
  rw [firsts] at htrees
  simp only [TreeIndex.restoreNext, Option.any_some, htip, decide_true, if_true, hn, expect_some,
    ok_bind]
  split at htrees
  · rename_i hroot
    obtain rfl := hcan (by simpa using hroot)
    have hnot : h + 1 ∉ t.treesByHeight := by
      rw [← hnext, htrees.mem_iff]
      intro hmem
      obtain ⟨y, hy, hxy⟩ := Multiset.mem_map.1 hmem
      have hlt := List.rel_of_pairwise_cons hasc (firsts_sublist.subset (Multiset.mem_coe.1 hy))
      omega
    rw [if_neg hnot]
    refine ⟨_, rfl, ?_, ht.anchorsByHeight, ht.anchors⟩
    rw [firsts_none_cons, ← Multiset.cons_coe, ← hnext]
    exact htrees.insert (hnext ▸ hnot)
  · have hmem : h + 1 ∈ t.treesByHeight := by
      rw [htrees.mem_iff, ← hnext]
      simp
    rw [if_pos hmem]
    refine ⟨_, rfl, ?_, ht.anchorsByHeight, ht.anchors⟩
    rw [firsts_none_cons]
    exact htrees

/-- What stays of a series when the heights up to `h` are removed, and the tip of the chain
that keeps it. -/
inductive Remains (h : Nat) : TreeSeries p → Option Nat → Prop
  | nothing : Remains h [] none
  | next {x : Nat × NoteCommitmentTree p} {s : TreeSeries p} {tip : Nat} (hx : x.1 = h + 1)
      (hmax : h + 1 ≤ Height.max) (htip : h < tip) : Remains h (x :: s) (some tip)

theorem Tracks.removal_root (ht : Tracks t (s ++ s')) (hs : ∀ x ∈ s, x.1 ≤ h) (hs' : ∀ x ∈ s', h < x.1) :
    t.removal h .root = (s.map Prod.fst, s.getLast?.map Prod.snd) := by
  rw [TreeIndex.removal, ht.anchorHeights, ht.tree hs hs', List.map_append, List.filter_append,
    List.filter_eq_self.2, List.filter_eq_nil_iff.2, List.append_nil]
  · simpa using fun a b hab => hs' (a, b) hab
  · simpa using fun a b hab => hs (a, b) hab

theorem Tracks.restoreNext (ht : Tracks t (s ++ s')) {last : Nat × NoteCommitmentTree p}
    (hlast : s.getLast? = some last) {tip : Option Nat} (htip : Remains h s' tip)
    (ht' : TracksFrom (lastKey NoteCommitmentTree.root none s) t' s') :
    ∃ t'', (t'.restoreNext h tip (some last.2) : Exec ε _) = .ok t'' ∧ Tracks t'' s' := by
  have hcan := List.isChain_append.1 ht.canonical
  have hasc := (List.pairwise_append.1 ht.ascending).2.1
  cases htip with
  | nothing =>
    refine ⟨t', restoreNext_of_le (by simp) _, ⟨?_, ht'.anchorsByHeight, ht'.anchors⟩, hasc, hcan.2.1⟩
    exact ht'.trees
  | next hx hmax hk =>
    rw [lastKey_eq_getLast?, hlast] at ht'
    obtain ⟨t'', h'', htr⟩ := TracksFrom.restoreNext (ε := ε) last.2 ht' hasc rfl hx hmax
      (hcan.2.2 last hlast _ rfl) hk
    exact ⟨t'', h'', htr, hasc, hcan.2.1⟩

theorem Tracks.removeRoot (ht : Tracks t (s ++ s')) (hs : ∀ x ∈ s, x.1 ≤ h) (hs' : ∀ x ∈ s', h < x.1)
    {last : Nat × NoteCommitmentTree p} (hlast : s.getLast? = some last) {tip : Option Nat} (htip : Remains h s' tip) :
    ∃ t', (t.removeTreeAndAnchor .root h tip : Exec ε _) = .ok t' ∧ Tracks t' s' := by
  obtain ⟨t₁, h₁, ht₁⟩ := ht.toTracksFrom.removeHeights (ε := ε) ht.ascending
  obtain ⟨t₂, h₂, ht₂⟩ := ht.restoreNext (ε := ε) hlast htip ht₁
  refine ⟨t₂, ?_, ht₂⟩
  simp only [TreeIndex.removeTreeAndAnchor, ht.removal_root hs hs', h₁, ok_bind, hlast, Option.map_some, h₂]

end Zebra.Ledger
