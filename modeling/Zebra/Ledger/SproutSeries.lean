import Zebra.Ledger.TreeSeries

namespace Zebra.Ledger

open Lib Lib.Series Std.ExtTreeMap Outcome

variable {ε : Type} [MerkleHashing]

structure AnchorsIndexed (m : SproutAnchors) (anchors : Multiset Nat) : Prop where
  mem_iff : ∀ a, a ∈ m ↔ a ∈ anchors
  root_eq : ∀ (a : Nat) (tree : NoteCommitmentTree .sprout), m[a]? = some tree → tree.root = a

variable {m : SproutAnchors} {anchors : Multiset Nat} {p : Pool} {t t' : TreeIndex p}
  {tree : NoteCommitmentTree .sprout} {tip : Option Nat}

theorem AnchorsIndexed.insert (hm : AnchorsIndexed m anchors) (tree : NoteCommitmentTree .sprout) :
    AnchorsIndexed (m.insert tree.root tree) (tree.root ::ₘ anchors) := by
  refine ⟨fun a => ?_, fun a tree' ha => ?_⟩
  · rw [mem_insert, Multiset.mem_cons, hm.mem_iff, Std.compare_eq_iff_eq, eq_comm]
  · by_cases h : tree.root = a
    · subst h
      simp only [getElem?_insert_self, Option.some.injEq] at ha
      rw [ha]
    · rw [KeyedMap.getElem?_insert_of_ne h] at ha
      exact hm.root_eq a tree' ha

omit [MerkleHashing] in
theorem removeHeight_anchors {h a : Nat} (hr : (t.removeHeight h : Exec ε _) = .ok (a, t')) :
    t'.anchors = t.anchors.erase a := by
  simp only [TreeIndex.removeHeight, bind_eq_ok, pure_eq_ok, Except.ok.injEq, Prod.mk.injEq] at hr
  obtain ⟨_, -, _, -, rfl, rfl⟩ := hr
  rfl

theorem AnchorsIndexed.erase (hm : AnchorsIndexed m anchors) (a : Nat) :
    AnchorsIndexed (if a ∈ anchors.erase a then m else m.erase a) (anchors.erase a) := by
  refine ⟨fun b => ?_, fun b tree hb => hm.root_eq b tree ?_⟩
  · split
    · rename_i ha
      rw [hm.mem_iff]
      by_cases hab : b = a
      · subst hab; exact ⟨fun _ => ha, Multiset.mem_of_mem_erase⟩
      · rw [Multiset.mem_erase_of_ne hab]
    · rename_i ha
      by_cases hab : b = a
      · subst hab; simp [ha]
      · rw [Multiset.mem_erase_of_ne hab, ← hm.mem_iff]
        simp [mem_erase, Ne.symm hab]
  · split at hb
    · exact hb
    · by_cases hab : a = b
      · subst hab; simp at hb
      · rwa [KeyedMap.getElem?_erase_of_ne hab] at hb

structure TracksSprout (st : SproutTrees) (s : TreeSeries .sprout) : Prop extends Tracks st.index s where
  byAnchor : AnchorsIndexed st.treesByAnchor st.index.anchors

variable {st : SproutTrees} {s s' : TreeSeries .sprout} {h : Nat}

theorem addTreeAndAnchor_anchors {tree : NoteCommitmentTree p}
    (ha : (t.addTreeAndAnchor h tree : Exec ε _) = .ok t') : t'.anchors = tree.root ::ₘ t.anchors := by
  simp only [TreeIndex.addTreeAndAnchor, bind_eq_ok, pure_eq_ok, Except.ok.injEq] at ha
  obtain ⟨_, -, _, -, _, -, rfl⟩ := ha
  rfl

theorem addTreeAndAnchor_of_index (st : SproutTrees) {t : TreeIndex .sprout}
    (hb : AnchorsIndexed st.treesByAnchor st.index.anchors)
    (ha : (st.index.addTreeAndAnchor h tree : Exec ε _) = .ok t) (ht : Tracks t s) :
    ∃ st', (st.addTreeAndAnchor h tree : Exec ε _) = .ok st' ∧ TracksSprout st' s := by
  refine ⟨⟨t, st.treesByAnchor.insert tree.root tree⟩, by simp [SproutTrees.addTreeAndAnchor, ha], ht, ?_⟩
  rw [addTreeAndAnchor_anchors ha]
  exact hb.insert tree

theorem tracksSprout_singleton (hh : h ≤ Height.max) (tree : NoteCommitmentTree .sprout) :
    ∃ st, (SproutTrees.addTreeAndAnchor ⟨.empty, ∅⟩ h tree : Exec ε _) = .ok st ∧ TracksSprout st [(h, tree)]:= by
  obtain ⟨t, ha, ht⟩ := tracks_singleton hh tree
  exact addTreeAndAnchor_of_index ⟨.empty, ∅⟩ ⟨by simp [TreeIndex.empty], by simp⟩ ha ht

namespace TracksSprout

theorem addNext (hst : TracksSprout st s) {previous : NoteCommitmentTree .sprout} (tree : NoteCommitmentTree .sprout)
    (hlast : s.getLast? = some (h, previous)) (hh : h + 1 ≤ Height.max) :
    ∃ st', (st.addTreeAndAnchor (h + 1) tree : Exec ε _) = .ok st' ∧
      TracksSprout st' (s ++ [(h + 1, settleTree previous tree)]) := by
  obtain ⟨t, ha, ht⟩ := hst.toTracks.addNext tree hlast hh
  exact addTreeAndAnchor_of_index st hst.byAnchor ha ht

end TracksSprout

theorem removeHeights_of_index (st : SproutTrees) {heights : List Nat} {t : TreeIndex .sprout}
    (hb : AnchorsIndexed st.treesByAnchor st.index.anchors)
    (hr : (heights.foldlM (fun t h => Prod.snd <$> t.removeHeight h) st.index : Exec ε _) = .ok t) :
    ∃ m, (heights.foldlM (fun s h => s.removeHeight h) st : Exec ε _) = .ok ⟨t, m⟩ ∧ AnchorsIndexed m t.anchors := by
  induction heights generalizing st with
  | nil =>
    simp only [List.foldlM_nil, pure_eq_ok, Except.ok.injEq] at hr
    exact ⟨st.treesByAnchor, by simp [← hr], hr ▸ hb⟩
  | cons h heights ih =>
    rw [List.foldlM_cons, bind_eq_ok] at hr
    obtain ⟨t₁, h₁, h₂⟩ := hr
    obtain ⟨a, ha⟩ := map_snd_eq_ok.1 h₁
    have hb₁ := hb.erase a
    rw [← removeHeight_anchors ha] at hb₁
    obtain ⟨m, hm, hbm⟩ := ih ⟨t₁, _⟩ hb₁ h₂
    refine ⟨m, ?_, hbm⟩
    rw [List.foldlM_cons, SproutTrees.removeHeight, ha]
    exact hm

omit [MerkleHashing] in
theorem restoreNext_anchors {removed : Option (NoteCommitmentTree p)}
    (hr : (t.restoreNext h tip removed : Exec ε _) = .ok t') : t'.anchors = t.anchors := by
  unfold TreeIndex.restoreNext at hr
  split at hr
  · simp only [bind_eq_ok] at hr
    obtain ⟨_, -, hr⟩ := hr
    split at hr
    · simp only [pure_eq_ok, Except.ok.injEq] at hr
      rw [hr]
    · simp only [bind_eq_ok, pure_eq_ok, Except.ok.injEq] at hr
      obtain ⟨_, -, rfl⟩ := hr
      rfl
  · simp only [pure_eq_ok, Except.ok.injEq] at hr
    rw [hr]

theorem removeTreeAndAnchor_of_index {position : RevertPosition} {t : TreeIndex .sprout}
    (hb : AnchorsIndexed st.treesByAnchor st.index.anchors)
    (hr : (st.index.removeTreeAndAnchor position h tip : Exec ε _) = .ok t) (ht : Tracks t s) :
    ∃ st', (st.removeTreeAndAnchor position h tip : Exec ε _) = .ok st' ∧ TracksSprout st' s := by
  simp only [TreeIndex.removeTreeAndAnchor, bind_eq_ok] at hr
  obtain ⟨t₁, h₁, h₂⟩ := hr
  obtain ⟨m, hm, hbm⟩ := removeHeights_of_index st hb h₁
  refine ⟨⟨t, m⟩, ?_, ht, ?_⟩
  · simp only [SproutTrees.removeTreeAndAnchor, hm, ok_bind, h₂, pure_eq_ok]
  · rw [restoreNext_anchors h₂]
    exact hbm

namespace TracksSprout

theorem removeTip (hst : TracksSprout st (s ++ [(h, tree)])) (htip : ∀ k, tip = some k → k ≤ h) :
    ∃ st', (st.removeTreeAndAnchor .tip h tip : Exec ε _) = .ok st' ∧ TracksSprout st' s := by
  obtain ⟨t, hr, ht⟩ := hst.toTracks.removeTip htip
  exact removeTreeAndAnchor_of_index hst.byAnchor hr ht

theorem removeRoot (hst : TracksSprout st (s ++ s')) (hs : ∀ x ∈ s, x.1 ≤ h) (hs' : ∀ x ∈ s', h < x.1)
    {last : Nat × NoteCommitmentTree .sprout} (hlast : s.getLast? = some last) (htip : Remains h s' tip) :
    ∃ st', (st.removeTreeAndAnchor .root h tip : Exec ε _) = .ok st' ∧ TracksSprout st' s' := by
  obtain ⟨t, hr, ht⟩ := hst.toTracks.removeRoot hs hs' hlast htip
  exact removeTreeAndAnchor_of_index hst.byAnchor hr ht

theorem unique (hcf : CollisionFree) {st st' : SproutTrees} (hst : TracksSprout st s) (hst' : TracksSprout st' s) :
    st = st' := by
  have hindex := hst.toTracksFrom.unique hst'.toTracksFrom
  refine SproutTrees.ext hindex (ext_getElem? fun a => ?_)
  have hmem : a ∈ st.treesByAnchor ↔ a ∈ st'.treesByAnchor := by
    rw [hst.byAnchor.mem_iff, hst'.byAnchor.mem_iff, hindex]
  rw [mem_iff_isSome_getElem?, mem_iff_isSome_getElem?] at hmem
  cases ha : st.treesByAnchor[a]? with
  | none => simpa [ha] using hmem
  | some tree =>
    obtain ⟨tree', ha'⟩ := Option.isSome_iff_exists.1 (hmem.1 (by simp [ha]))
    rw [ha', Option.some.injEq]
    exact root_injective hcf ((hst.byAnchor.root_eq a tree ha).trans (hst'.byAnchor.root_eq a tree' ha').symm)

end TracksSprout

end Zebra.Ledger
