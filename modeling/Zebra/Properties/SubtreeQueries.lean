import Zebra.Ledger.CompletedSubtrees
import Zebra.Properties.Sample

namespace Zebra.Properties

open Lib Std Ledger Read ExtTreeMap

section

variable [MerkleHashing] {p : Pool} {blocks blocks' : List Block} {root : Nat} {chain disk results : Subtrees} {range : SubtreeRange}

/-- The finalized state has the subtrees that its blocks complete. -/
def HoldsCompleted (p : Pool) (disk : Subtrees) (blocks : List Block) : Prop :=
  ∀ index, disk[index]? = completedSubtree p blocks index

/-- The non-finalized chain has the subtrees that its blocks complete, the first of which is at the
height `root`. -/
def HoldsCompletedFrom (p : Pool) (root : Nat) (chain : Subtrees) (blocks : List Block) : Prop :=
  ∀ index, chain[index]? = (completedSubtree p blocks index).filter fun data => root ≤ data.endHeight

def InRange (p : Pool) (range : SubtreeRange) (blocks : List Block) (results : Subtrees) : Prop :=
  ∀ index, results[index]? = if range.contains index then completedSubtree p blocks index else none

theorem InRange.mem_iff {index : Nat} (h : InRange p range blocks results) :
    index ∈ results ↔ range.contains index = true ∧ ∃ data, completedSubtree p blocks index = some data := by
  rw [mem_iff_isSome_getElem?, h index, Option.isSome_iff_exists]
  split <;> simp [*]

theorem inRange_subtreesInRange (h : HoldsCompleted p disk blocks) (range : SubtreeRange) :
    InRange p range blocks (subtreesInRange disk range) :=
  fun index => by rw [getElem?_subtreesInRange, h index]

theorem pairwise_toList (m : Subtrees) : m.toList.Pairwise fun e e' => e.1 < e'.1 :=
  m.ordered_keys_toList.imp fun h => Nat.compare_eq_lt.1 h

theorem InRange.fromStartIndex (h : InRange p range blocks results) : InRange p range blocks (fromStartIndex range results) := by
  rw [Read.fromStartIndex]
  split
  · exact h
  · rename_i hstart
    intro index
    rw [getElem?_empty]
    split
    · rename_i hcontains
      refine (Option.eq_none_iff_forall_ne_some.2 fun data hdata => hstart ?_).symm
      obtain ⟨earlier, hearlier, -⟩ := completedSubtree_of_le hdata (startIndex_le hcontains)
      exact h.mem_iff.2 ⟨contains_of_le hcontains le_rfl (startIndex_le hcontains), earlier, hearlier⟩
    · rfl

theorem mem_toList_iff (hchain : HoldsCompletedFrom p root chain blocks) {e : Nat × NoteCommitmentSubtreeData} :
    e ∈ (subtreesInRange chain range).toList ↔
      range.contains e.1 = true ∧ completedSubtree p blocks e.1 = some e.2 ∧ root ≤ e.2.endHeight := by
  rw [mem_toList_iff_getElem?_eq_some, getElem?_subtreesInRange, hchain, Option.ite_none_right_eq_some,
    Option.filter_eq_some_iff, decide_eq_true_eq]

theorem inRange_of_start_mem (hchain : HoldsCompletedFrom p root chain blocks) (hstart : range.startIndex ∈ subtreesInRange chain range) :
    InRange p range blocks (subtreesInRange chain range) := by
  intro index
  rw [getElem?_subtreesInRange]
  split
  · rename_i hcontains
    rw [hchain]
    obtain ⟨first, hfirst⟩ := KeyedMap.mem_iff_exists.1 hstart
    obtain ⟨-, hfirst, hroot⟩ := (mem_toList_iff hchain).1 (mem_toList_iff_getElem?_eq_some.2 hfirst)
    cases hdata : completedSubtree p blocks index with
    | none => rfl
    | some data =>
      obtain ⟨earlier, hearlier, hle⟩ := completedSubtree_of_le hdata (startIndex_le hcontains)
      obtain rfl := Option.some.inj (hfirst.symm.trans hearlier)
      exact Option.filter_eq_some_iff.2 ⟨rfl, decide_eq_true (hroot.trans hle)⟩
  · rfl

/-- The chain goes further than the finalized state and no subtree is different: then the results are
those of the chain. -/
theorem inRange_of_agree (hfork : blocks.take root = blocks'.take root) (hchain : HoldsCompletedFrom p root chain blocks)
    (hdisk : HoldsCompleted p disk blocks') {e : Nat × NoteCommitmentSubtreeData} (he : e ∈ (subtreesInRange chain range).toList)
    (hmissing : e.1 ∉ subtreesInRange disk range)
    (hagree : ∀ e ∈ (subtreesInRange chain range).toList, ∀ dbSubtree, (subtreesInRange disk range)[e.1]? = some dbSubtree → e.2 = dbSubtree) :
    InRange p range blocks (addChainSubtrees (subtreesInRange disk range) (subtreesInRange chain range).toList) := by
  have hdiskRange := inRange_subtreesInRange hdisk range
  obtain ⟨hcontains, hdata, -⟩ := (mem_toList_iff hchain).1 he
  intro index
  refine Option.ext fun data => ?_
  rw [getElem?_addChainSubtrees (pairwise_toList _) hagree, mem_toList_iff hchain, hdiskRange, Option.ite_none_right_eq_some,
    Option.ite_none_right_eq_some]
  constructor
  · rintro (⟨hin, hget, -⟩ | ⟨hin, hget⟩)
    · exact ⟨hin, hget⟩
    · refine ⟨hin, ?_⟩
      -- the finalized state has the index, so it is below one that is missing there
      have hle : index ≤ e.1 := by
        by_contra hgt
        obtain ⟨earlier, hearlier, -⟩ := completedSubtree_of_le hget (Nat.le_of_not_le hgt)
        exact hmissing (hdiskRange.mem_iff.2 ⟨hcontains, earlier, hearlier⟩)
      obtain ⟨own, hown, -⟩ := completedSubtree_of_le hdata hle
      by_cases hroot : root ≤ own.endHeight
      · have heq := hagree (index, own) ((mem_toList_iff hchain).2 ⟨hin, hown, hroot⟩) data (by rw [hdiskRange, if_pos hin, hget])
        exact hown.trans (congrArg some heq)
      · rw [hown, ← hget, completedSubtree_congr hfork hown (Nat.lt_of_not_le hroot)]
  · rintro ⟨hin, hget⟩
    by_cases hroot : root ≤ data.endHeight
    · exact .inl ⟨hin, hget, hroot⟩
    · exact .inr ⟨hin, completedSubtree_congr hfork hget (Nat.lt_of_not_le hroot)⟩

theorem exists_inRange (hfork : blocks.take root = blocks'.take root) (hchain : HoldsCompletedFrom p root chain blocks)
    (hdisk : HoldsCompleted p disk blocks') (range : SubtreeRange) :
    ∃ b, (b = blocks ∨ b = blocks') ∧ InRange p range b (subtrees (some chain) disk range) ∧
      (range.contains range.startIndex = true → completedSubtree p b range.startIndex = none →
        completedSubtree p blocks range.startIndex = none ∧ completedSubtree p blocks' range.startIndex = none) := by
  have hdiskRange := inRange_subtreesInRange hdisk range
  rw [subtrees, Option.map_some]
  dsimp only
  split
  · rename_i hstart
    have hinRange := inRange_of_start_mem hchain hstart
    refine ⟨blocks, .inl rfl, hinRange, fun _ hnone => ?_⟩
    obtain ⟨-, data, hdata⟩ := hinRange.mem_iff.1 hstart
    exact absurd (hdata.symm.trans hnone) (Option.some_ne_none data)
  rename_i hstart
  -- a subtree of the chain at the first index ends below its root, so the finalized state has it
  have hshared : range.contains range.startIndex = true → ∀ data, completedSubtree p blocks range.startIndex = some data →
      completedSubtree p blocks' range.startIndex = some data := fun hcontains data hdata => by
    refine completedSubtree_congr hfork hdata (Nat.lt_of_not_le fun hroot => hstart ?_)
    rw [mem_iff_isSome_getElem?, getElem?_subtreesInRange, if_pos hcontains, hchain, hdata]
    simp [hroot]
  have hdiskOnly : addChainSubtrees (subtreesInRange disk range) (subtreesInRange chain range).toList = subtreesInRange disk range →
      ∃ b, (b = blocks ∨ b = blocks') ∧
        InRange p range b (fromStartIndex range (addChainSubtrees (subtreesInRange disk range) (subtreesInRange chain range).toList)) ∧
        (range.contains range.startIndex = true → completedSubtree p b range.startIndex = none →
          completedSubtree p blocks range.startIndex = none ∧ completedSubtree p blocks' range.startIndex = none) := by
    intro heq
    rw [heq]
    refine ⟨blocks', .inr rfl, hdiskRange.fromStartIndex, fun hcontains hnone => ⟨?_, hnone⟩⟩
    refine Option.eq_none_iff_forall_ne_some.2 fun data hdata => ?_
    exact absurd ((hshared hcontains data hdata).symm.trans hnone) (Option.some_ne_none data)
  by_cases hall : ∀ e ∈ (subtreesInRange chain range).toList, e.1 ∈ subtreesInRange disk range
  · exact hdiskOnly (addChainSubtrees_of_mem hall)
  obtain ⟨e, he, hmissing⟩ : ∃ e ∈ (subtreesInRange chain range).toList, e.1 ∉ subtreesInRange disk range := by
    simpa using hall
  by_cases hagree : ∀ e ∈ (subtreesInRange chain range).toList, ∀ dbSubtree, (subtreesInRange disk range)[e.1]? = some dbSubtree → e.2 = dbSubtree
  · refine ⟨blocks, .inl rfl, (inRange_of_agree hfork hchain hdisk he hmissing hagree).fromStartIndex, fun _ hnone => ?_⟩
    obtain ⟨hcontains, hdata, -⟩ := (mem_toList_iff hchain).1 he
    obtain ⟨earlier, hearlier, -⟩ := completedSubtree_of_le hdata (startIndex_le hcontains)
    exact absurd (hearlier.symm.trans hnone) (Option.some_ne_none earlier)
  · obtain ⟨e', he', dbSubtree, hdb, hne⟩ : ∃ e ∈ (subtreesInRange chain range).toList, ∃ dbSubtree,
        (subtreesInRange disk range)[e.1]? = some dbSubtree ∧ e.2 ≠ dbSubtree := by
      simpa using hagree
    refine hdiskOnly (addChainSubtrees_of_ne (pairwise_toList _) he' hdb hne fun e'' he'' hlt => ?_)
    obtain ⟨hcontains, -, -⟩ := (mem_toList_iff hchain).1 he''
    have hlater : completedSubtree p blocks' e'.1 = some dbSubtree := by
      rw [hdiskRange] at hdb
      exact (Option.ite_none_right_eq_some.1 hdb).2
    obtain ⟨earlier, hearlier, -⟩ := completedSubtree_of_le hlater hlt.le
    exact hdiskRange.mem_iff.2 ⟨hcontains, earlier, hearlier⟩

/-- A list of subtrees in a range: it is that of one of two chains, it has no gap after the first
index, and it is only empty if neither chain has the first index there. -/
structure OneRun (p : Pool) (range : SubtreeRange) (blocks blocks' : List Block) (results : Subtrees) : Prop where
  exact : InRange p range blocks results ∨ InRange p range blocks' results
  starts : results ≠ ∅ → range.startIndex ∈ results
  gapFree : ∀ index ∈ results, ∀ earlier, range.startIndex ≤ earlier → earlier ≤ index → earlier ∈ results
  within : ∀ index ∈ results, range.startIndex ≤ index
  empty : results = ∅ → range.contains range.startIndex = true →
    completedSubtree p blocks range.startIndex = none ∧ completedSubtree p blocks' range.startIndex = none

theorem oneRun_subtrees (hfork : blocks.take root = blocks'.take root) (hchain : HoldsCompletedFrom p root chain blocks)
    (hdisk : HoldsCompleted p disk blocks') : OneRun p range blocks blocks' (subtrees (some chain) disk range) := by
  obtain ⟨b, hb, hinRange, hnone⟩ := exists_inRange hfork hchain hdisk range
  have hdown : ∀ index ∈ subtrees (some chain) disk range, ∀ earlier, range.startIndex ≤ earlier → earlier ≤ index →
      earlier ∈ subtrees (some chain) disk range := by
    intro index hindex earlier hstart hle
    obtain ⟨hcontains, data, hdata⟩ := hinRange.mem_iff.1 hindex
    obtain ⟨data', hdata', -⟩ := completedSubtree_of_le hdata hle
    exact hinRange.mem_iff.2 ⟨contains_of_le hcontains hstart hle, data', hdata'⟩
  refine ⟨?_, fun hne => ?_, hdown, fun index hindex => startIndex_le (hinRange.mem_iff.1 hindex).1, fun hempty hcontains => ?_⟩
  · rcases hb with rfl | rfl
    · exact .inl hinRange
    · exact .inr hinRange
  · obtain ⟨index, hindex⟩ := not_forall_not.1 fun hall => hne (eq_empty_iff_forall_not_mem.2 hall)
    exact hdown index hindex _ le_rfl (startIndex_le (hinRange.mem_iff.1 hindex).1)
  · have hget := hinRange range.startIndex
    rw [hempty, getElem?_empty, if_pos hcontains] at hget
    exact hnone hcontains hget.symm

end

section

open Sample

def fullBlock : Block :=
  ⟨⟨0, 0, 0, 0, 0⟩, [.V5 [] [] (some ⟨.zero, .justOutputs ⟨0 :: List.replicate (2 ^ trackedSubtreeHeight - 1) 0, List.cons_ne_nil _ _⟩⟩) none], 1000, 0⟩

theorem noteCount_fullBlock (height : Nat) : noteCount .sapling [fullBlock] height = 2 ^ trackedSubtreeHeight := by
  rw [noteCount, List.take_of_length_le (show [fullBlock].length ≤ height + 1 from Nat.le_add_left _ _)]
  change (0 :: List.replicate (2 ^ trackedSubtreeHeight - 1) 0 ++ [] ++ []).length = _
  rw [List.append_nil, List.append_nil, List.length_cons, List.length_replicate, Nat.sub_add_cancel Nat.one_le_two_pow]

def fullData : NoteCommitmentSubtreeData :=
  ⟨0, MerkleHashing.subtreeRoot .sapling ((notesOf .sapling [fullBlock]).take ((0 + 1) * 2 ^ trackedSubtreeHeight))⟩

theorem holdsCompleted_fullBlock : HoldsCompleted .sapling (ExtTreeMap.insert ∅ 0 fullData) [fullBlock] := by
  intro index
  cases index with
  | zero =>
    rw [getElem?_insert_self]
    refine (completedSubtree_eq_some.2 ⟨Nat.zero_lt_one, ?_, fun height hheight => absurd hheight (Nat.not_lt_zero height), rfl⟩).symm
    rw [noteCount_fullBlock, Nat.zero_add, Nat.one_mul]
  | succ index =>
    rw [KeyedMap.getElem?_insert_of_ne (Nat.succ_ne_zero index).symm, getElem?_empty]
    refine (Option.eq_none_iff_forall_ne_some.2 fun data hdata => ?_).symm
    obtain ⟨-, hcount, -, -⟩ := completedSubtree_eq_some.1 hdata
    rw [noteCount_fullBlock, trackedSubtreeHeight] at hcount
    omega

end

end Zebra.Properties
