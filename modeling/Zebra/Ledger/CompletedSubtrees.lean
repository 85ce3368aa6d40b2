import Zebra.State.Read.Subtrees

namespace Zebra.Ledger

open Lib Std Read ExtTreeMap

section

variable {p : Pool} {blocks blocks' : List Block} {index index' height : Nat} {data : NoteCommitmentSubtreeData}

def notesOf (p : Pool) (blocks : List Block) : List Nat := blocks.flatMap (·.noteCommitments p)

def noteCount (p : Pool) (blocks : List Block) (height : Nat) : Nat := (notesOf p (blocks.take (height + 1))).length

theorem notesOf_take_prefix (p : Pool) (blocks : List Block) (n : Nat) : notesOf p (blocks.take n) <+: notesOf p blocks := by
  conv_rhs => rw [← List.take_append_drop n blocks]
  rw [notesOf, notesOf, List.flatMap_append]
  exact List.prefix_append _ _

variable [MerkleHashing]

/-- The subtree with this index, if the chain of blocks from the genesis block on completes it: it ends
at the first height with enough notes. -/
def completedSubtree (p : Pool) (blocks : List Block) (index : Nat) : Option NoteCommitmentSubtreeData :=
  ((List.range blocks.length).find? fun height => (index + 1) * 2 ^ trackedSubtreeHeight ≤ noteCount p blocks height).map fun height =>
    ⟨height, MerkleHashing.subtreeRoot p ((notesOf p blocks).take ((index + 1) * 2 ^ trackedSubtreeHeight))⟩

theorem completedSubtree_eq_some : completedSubtree p blocks index = some data ↔
    data.endHeight < blocks.length ∧ (index + 1) * 2 ^ trackedSubtreeHeight ≤ noteCount p blocks data.endHeight ∧
      (∀ height < data.endHeight, noteCount p blocks height < (index + 1) * 2 ^ trackedSubtreeHeight) ∧
      data.root = MerkleHashing.subtreeRoot p ((notesOf p blocks).take ((index + 1) * 2 ^ trackedSubtreeHeight)) := by
  rw [completedSubtree, Option.map_eq_some_iff]
  simp only [List.find?_range_eq_some, List.mem_range, decide_eq_true_eq, Bool.not_eq_true', decide_eq_false_iff_not, Nat.not_le]
  constructor
  · rintro ⟨height, ⟨hcount, hlt, hfirst⟩, rfl⟩
    exact ⟨hlt, hcount, hfirst, rfl⟩
  · rintro ⟨hlt, hcount, hfirst, hroot⟩
    exact ⟨data.endHeight, ⟨hcount, hlt, hfirst⟩, by rw [← hroot]⟩

theorem completedSubtree_of_le (h : completedSubtree p blocks index' = some data) (hle : index ≤ index') :
    ∃ earlier, completedSubtree p blocks index = some earlier ∧ earlier.endHeight ≤ data.endHeight := by
  obtain ⟨hlt, hcount, -, -⟩ := completedSubtree_eq_some.1 h
  have henough : (index + 1) * 2 ^ trackedSubtreeHeight ≤ noteCount p blocks data.endHeight :=
    (Nat.mul_le_mul_right _ (Nat.succ_le_succ hle)).trans hcount
  cases hfind : (List.range blocks.length).find? fun height => decide ((index + 1) * 2 ^ trackedSubtreeHeight ≤ noteCount p blocks height) with
  | none =>
    have := List.find?_eq_none.1 hfind data.endHeight (List.mem_range.2 hlt)
    exact absurd (decide_eq_true henough) this
  | some height =>
    refine ⟨_, by rw [completedSubtree, hfind]; rfl, ?_⟩
    obtain ⟨-, -, hfirst⟩ := List.find?_range_eq_some.1 hfind
    by_contra hgt
    have := hfirst data.endHeight (Nat.lt_of_not_le hgt)
    simp [henough] at this

theorem completedSubtree_congr {len : Nat} (heq : blocks.take len = blocks'.take len) (h : completedSubtree p blocks index = some data)
    (hend : data.endHeight < len) : completedSubtree p blocks' index = some data := by
  obtain ⟨hlt, hcount, hfirst, hroot⟩ := completedSubtree_eq_some.1 h
  have htake : ∀ height < len, blocks'.take (height + 1) = blocks.take (height + 1) := fun height hheight => by
    have hmin : min (height + 1) len = height + 1 := Nat.min_eq_left hheight
    rw [← hmin, ← List.take_take, ← heq, List.take_take]
  have hnotes : ∀ height < len, noteCount p blocks' height = noteCount p blocks height := fun height hheight => by
    rw [noteCount, htake height hheight, noteCount]
  refine completedSubtree_eq_some.2 ⟨?_, ?_, fun height hheight => ?_, ?_⟩
  · have hlen := congrArg List.length heq
    rw [List.length_take, List.length_take] at hlen
    omega
  · rw [hnotes _ hend]
    exact hcount
  · rw [hnotes height (hheight.trans hend)]
    exact hfirst height hheight
  · have hprefix : ∀ blocks : List Block, (index + 1) * 2 ^ trackedSubtreeHeight ≤ noteCount p blocks data.endHeight →
        (notesOf p blocks).take ((index + 1) * 2 ^ trackedSubtreeHeight) =
          (notesOf p (blocks.take (data.endHeight + 1))).take ((index + 1) * 2 ^ trackedSubtreeHeight) := fun blocks hcount => by
      obtain ⟨rest, hrest⟩ := notesOf_take_prefix p blocks (data.endHeight + 1)
      rw [← hrest, List.take_append_of_le_length hcount]
    rw [hroot, hprefix blocks hcount, hprefix blocks' (by rw [hnotes _ hend]; exact hcount), htake _ hend]

end

variable {range : SubtreeRange} {index index' : Nat} {m : Subtrees} {data : NoteCommitmentSubtreeData}

theorem startIndex_le (h : range.contains index = true) : range.startIndex ≤ index :=
  of_decide_eq_true (Bool.and_eq_true_iff.1 h).1

theorem contains_of_le (h : range.contains index' = true) (hstart : range.startIndex ≤ index) (hle : index ≤ index') :
    range.contains index = true := by
  obtain ⟨-, hstop⟩ := Bool.and_eq_true_iff.1 h
  refine Bool.and_eq_true_iff.2 ⟨decide_eq_true hstart, ?_⟩
  cases hcase : range.stop with
  | included stop =>
    rw [hcase] at hstop
    exact decide_eq_true (hle.trans (of_decide_eq_true hstop))
  | excluded stop =>
    rw [hcase] at hstop
    exact decide_eq_true (hle.trans_lt (of_decide_eq_true hstop))
  | unbounded => rfl

theorem getElem?_subtreesInRange : (subtreesInRange m range)[index]? = if range.contains index then m[index]? else none := by
  rw [subtreesInRange, getElem?_filter']
  cases m[index]? <;> cases hc : range.contains index <;> simp [Option.filter, hc]

variable {results : Subtrees} {list : List (Nat × NoteCommitmentSubtreeData)}

theorem addChainSubtrees_of_mem (h : ∀ e ∈ list, e.1 ∈ results) : addChainSubtrees results list = results := by
  induction list with
  | nil => rfl
  | cons e list ih =>
    obtain ⟨dbSubtree, hdb⟩ := KeyedMap.mem_iff_exists.1 (h e List.mem_cons_self)
    rw [addChainSubtrees, hdb]
    dsimp only
    rw [ih fun e' he' => h e' (List.mem_cons_of_mem _ he'), ite_self]

theorem addChainSubtrees_of_ne {dbSubtree : NoteCommitmentSubtreeData} (hascending : list.Pairwise fun e e' => e.1 < e'.1)
    (hmem : (index, data) ∈ list) (hdb : results[index]? = some dbSubtree) (hne : data ≠ dbSubtree)
    (hbelow : ∀ e ∈ list, e.1 < index → e.1 ∈ results) : addChainSubtrees results list = results := by
  induction list with
  | nil => rfl
  | cons e list ih =>
    obtain ⟨hfirst, hascending⟩ := List.pairwise_cons.1 hascending
    rcases List.mem_cons.1 hmem with rfl | hmem
    · rw [addChainSubtrees, hdb]
      exact if_pos hne
    · have he := hbelow e List.mem_cons_self (hfirst _ hmem)
      obtain ⟨db, hget⟩ := KeyedMap.mem_iff_exists.1 he
      rw [addChainSubtrees, hget]
      dsimp only
      rw [ih hascending hmem fun e' he' => hbelow e' (List.mem_cons_of_mem _ he'), ite_self]

theorem getElem?_addChainSubtrees (hascending : list.Pairwise fun e e' => e.1 < e'.1)
    (hagree : ∀ e ∈ list, ∀ dbSubtree, results[e.1]? = some dbSubtree → e.2 = dbSubtree) :
    (addChainSubtrees results list)[index]? = some data ↔ (index, data) ∈ list ∨ results[index]? = some data := by
  induction list generalizing results with
  | nil => simp [addChainSubtrees]
  | cons e list ih =>
    obtain ⟨hfirst, hascending⟩ := List.pairwise_cons.1 hascending
    rw [addChainSubtrees, List.mem_cons]
    cases hget : results[e.1]? with
    | none =>
      have hrest : ∀ e' ∈ list, ∀ dbSubtree, (results.insert e.1 e.2)[e'.1]? = some dbSubtree → e'.2 = dbSubtree := by
        intro e' he' dbSubtree hdb
        rw [KeyedMap.getElem?_insert_of_ne (hfirst e' he').ne] at hdb
        exact hagree e' (List.mem_cons_of_mem _ he') dbSubtree hdb
      rw [ih hascending hrest]
      by_cases hindex : e.1 = index
      · subst hindex
        rw [getElem?_insert_self, hget, Prod.mk.injEq]
        simp [eq_comm, or_comm]
      · rw [KeyedMap.getElem?_insert_of_ne hindex]
        have hne : (index, data) ≠ e := by
          rintro rfl
          exact hindex rfl
        simp [hne]
    | some dbSubtree =>
      have heq := hagree e List.mem_cons_self dbSubtree hget
      dsimp only
      rw [if_neg (not_not.2 heq), ih hascending fun e' he' => hagree e' (List.mem_cons_of_mem _ he')]
      constructor
      · exact fun hor => hor.imp_left .inr
      · rintro ((rfl | hmem) | hget')
        · exact .inr (hget.trans (congrArg some heq.symm))
        · exact .inl hmem
        · exact .inr hget'

end Zebra.Ledger
