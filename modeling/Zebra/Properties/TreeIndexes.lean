import Zebra.Ledger.AddressUtxos
import Zebra.Properties.SubtreeIndex

namespace Zebra.Properties

open Lib Lib.Transition Ledger Record

/-- The blocks that a chain has lost at its root, and those that it has, after an operation. -/
def historyAfter (s : Blocks × Blocks) (op : ChainOp) :
    Blocks × Blocks :=
  match op with
  | .push _ | .fork _ => (s.1, blocksAfter s.2 op)
  | .popRoot => (s.1 ++ s.2.take 1, blocksAfter s.2 op)

/-- The blocks of a chain above the finalized tip that it started from, also those that it has lost
at its root. -/
def historyOf (ops : List ChainOp) : Blocks :=
  let s := ops.foldl historyAfter ([], [])
  s.1 ++ s.2

section

variable [MerkleHashing] {p : Pool}

def treeAfterBlocks (tree : NoteCommitmentTree p) (bs : Blocks) :
    Except NoteCommitmentTreeError (NoteCommitmentTree p) :=
  bs.foldlM (fun tree b => treeAfter tree b.block) tree

/-- The height is one of the heights from the root to the tip of the chain. -/
def InChain (c : ChainInner) (height : Nat) : Prop :=
  ∃ root tip, (c.nonFinalizedRootHeight : Validated Nat) = .ok root ∧
    (c.nonFinalizedTipHeight : Validated Nat) = .ok tip ∧ root ≤ height ∧ height ≤ tip

/-- What the indexes of a chain hold that started with the trees of `s` and has the history `bs`. -/
structure TreesConsistent (c : ChainInner) (s : Snapshot) (bs : Blocks) : Prop where
  trees : ∀ p height, InChain c height → ∃ tree,
    treeAfterBlocks (s.tree p) (bs.filter (·.height ≤ height)) = .ok tree ∧ (treesOf c p).tree height = some tree
  anchors : ∀ p, (treesOf c p).anchors = ((treesOf c p).anchorsByHeight.toList.map Prod.snd : Multiset Nat)
  anchorTrees : ∀ root, root ∈ c.sprout.treesByAnchor ↔ root ∈ c.sprout.index.anchors
  anchorRoots : ∀ (root : Nat) (tree : NoteCommitmentTree .sprout), c.sprout.treesByAnchor[root]? = some tree →
    tree.root = root

variable [ChainHistory] {net : Network} {L L' : Lineage net}

theorem treeAfterBlocks_of_linked (hcf : CollisionFree) {h : Nat} {s : Snapshot} {rs : List Record}
    (hl : Linked net h s rs) : treeAfterBlocks (s.tree p) (rs.map block) = .ok ((lastSnapshot s rs).tree p) := by
  induction rs generalizing h s with
  | nil => rfl
  | cons r rs ih =>
    obtain ⟨-, -, hnext, hl⟩ := hl
    obtain ⟨tree, htree, hafter⟩ := hnext.tree p
    rw [settleTree_eq hcf] at hafter
    rw [lastSnapshot_cons, ← ih hl, hafter, treeAfterBlocks, List.map_cons, List.foldlM_cons, htree]
    rfl

theorem filter_height_le {h : Nat} {s : Snapshot} {rs₁ rs₂ : List Record} {r : Record}
    (hl : Linked net h s (rs₁ ++ r :: rs₂)) :
    ((rs₁ ++ r :: rs₂).map block).filter (·.height ≤ r.block.height) = (rs₁ ++ [r]).map block := by
  obtain ⟨-, hr, hlt⟩ := List.pairwise_append.1 hl.ascending
  obtain ⟨hgt, -⟩ := List.pairwise_cons.1 hr
  have hlow : (rs₁.map block).filter (·.height ≤ r.block.height) = rs₁.map block := by
    refine List.filter_eq_self.2 fun b hb => ?_
    obtain ⟨r', hr', rfl⟩ := List.mem_map.1 hb
    exact decide_eq_true (hlt r' hr' r (by simp)).le
  have hhigh : (rs₂.map block).filter (·.height ≤ r.block.height) = [] := by
    refine List.filter_eq_nil_iff.2 fun b hb => ?_
    obtain ⟨r', hr', rfl⟩ := List.mem_map.1 hb
    simpa using hgt r' hr'
  simp [List.filter_append, hlow, hhigh]

variable [ScriptParsing] {c : ChainInner} {ch : Chain}

theorem InChain.exists_record (h : Represents c L) {height : Nat} (hc : InChain c height) :
    ∃ rs r rs', L.records = rs ++ r :: rs' ∧ r.block.height = height := by
  obtain ⟨root, tip, hroot, htip, hle, hge⟩ := hc
  obtain ⟨root', tip', hroot', htip', -, -, hall⟩ := h.bounds (h.records_ne_nil hroot)
  obtain rfl := Except.ok.inj (hroot.symm.trans hroot')
  obtain rfl := Except.ok.inj (htip.symm.trans htip')
  obtain ⟨x, hx, rfl⟩ := Multiset.mem_map.1 (h.blocks.mem_iff.1 (hall height hle hge))
  obtain ⟨b, hb, rfl⟩ := List.mem_map.1 (Multiset.mem_coe.1 hx)
  obtain ⟨r, hr, rfl⟩ := List.mem_map.1 hb
  obtain ⟨rs, rs', hrs⟩ := List.append_of_mem hr
  exact ⟨rs, r, rs', hrs, rfl⟩

theorem treesConsistent_of_represents (hcf : CollisionFree) (h : Represents c L) :
    TreesConsistent c L.start (L.all.map block) where
  trees p height hc := by
    obtain ⟨rs, r, rs', hr, rfl⟩ := hc.exists_record h
    have hall : L.all = (L.past ++ rs) ++ r :: rs' := by simp [Lineage.all, hr]
    have hlinked : Linked net L.startHeight L.start ((L.past ++ rs) ++ r :: rs') := hall ▸ L.linked
    refine ⟨r.after.tree p, ?_, tree_of_record h hr⟩
    have hupto : Linked net L.startHeight L.start (L.past ++ rs ++ [r]) := by
      rw [List.append_cons] at hlinked
      exact (linked_append.1 hlinked).1
    rw [hall, filter_height_le hlinked, treeAfterBlocks_of_linked hcf hupto, lastSnapshot_concat]
  anchors p := by
    have ht := tracks_treesOf h p
    rw [ht.anchors, ht.anchorsByHeight_toList, List.map_map]
    rfl
  anchorTrees := h.sprout.byAnchor.mem_iff
  anchorRoots := h.sprout.byAnchor.root_eq

theorem historyAfter_of_step {op : ChainOp} (hn : op.IsFork → (L.blocks.map ContextuallyVerifiedBlock.hash).Nodup)
    (hs : L.Step op L') :
    L'.start = L.start ∧ (L'.past.map block, L'.blocks) = historyAfter (L.past.map block, L.blocks) op := by
  have hblocks := (hs.blocks hn).1
  cases hs with
  | push => exact ⟨rfl, Prod.ext rfl hblocks⟩
  | fork => exact ⟨rfl, Prod.ext rfl hblocks⟩
  | popRoot =>
    refine ⟨rfl, Prod.ext ?_ hblocks⟩
    rw [Lineage.past_dropRoot, List.map_append, List.map_take]
    rfl

theorem historyOf_run {ch' : Chain} {ops : List ChainOp} (h : Refines ch L) (hrun : Run Chain.Step ch ops ch') :
    ∃ L' : Lineage net, Refines ch' L' ∧ L'.start = L.start ∧
      (L'.past.map block, L'.blocks) = ops.foldl historyAfter (L.past.map block, L.blocks) := by
  induction hrun generalizing L with
  | nil => exact ⟨L, h, rfl, rfl⟩
  | cons hstep _ ih =>
    obtain ⟨L₁, hL₁, h₁, -⟩ := step_sound h hstep
    obtain ⟨hstart, hhistory⟩ := historyAfter_of_step (fun _ => h.inner.nodup_hashes) hL₁
    obtain ⟨L', h', hstart', hhistory'⟩ := ih h₁
    rw [hhistory] at hhistory'
    exact ⟨L', h', hstart'.trans hstart, hhistory'⟩

theorem tree_indexes_consistent (hcf : CollisionFree) {height : Nat} (hheight : height ≤ Height.max) (s : Snapshot)
    {ch₀ : Chain} (hnew : (Chain.new net height s.sprout s.sapling s.orchard s.history s.pools :
      Exec ValidateContextError _) = .ok ch₀) {ops : List ChainOp} (hrun : Run Chain.Step ch₀ ops ch) :
    TreesConsistent ch.inner s (historyOf ops) := by
  obtain ⟨L, h, hstart, hhistory⟩ := historyOf_run (new_exact hheight s hnew).toRefines hrun
  have hall : L.all.map block = historyOf ops := by
    rw [historyOf, Lineage.all, List.map_append]
    exact congrArg (fun s => s.1 ++ s.2) hhistory
  have hconsistent := treesConsistent_of_represents hcf h.inner
  rwa [hall, hstart] at hconsistent

end

section

open Sample

theorem note_above_root_consistent :
    ∃ ch₀ ch, start .zero = .ok ch₀ ∧ Run Chain.Step ch₀ [.push withoutNotes, .push withNote, .popRoot] ch ∧
      ∃ tree, treeAfterBlocks .empty [withoutNotes, withNote] = .ok tree ∧ tree.leaves = [7] ∧
        ch.inner.sapling.tree 12 = some tree := by
  obtain ⟨ch₀, hnew, ch, hrun, hroot, htip⟩ : ∃ ch₀ ∈ (start .zero).toOption,
      ∃ ch ∈ ch₀.performAll [.push withoutNotes, .push withNote, .popRoot],
        (ch.inner.nonFinalizedRootHeight : Validated Nat).toOption = some 12 ∧
        (ch.inner.nonFinalizedTipHeight : Validated Nat).toOption = some 12 := by decide +kernel
  have hnew := Outcome.toOption_eq_some.1 hnew
  have hrun := Chain.run_iff_performAll.2 hrun
  have hc : InChain ch.inner 12 :=
    ⟨12, 12, Outcome.toOption_eq_some.1 hroot, Outcome.toOption_eq_some.1 htip, le_rfl, le_rfl⟩
  obtain ⟨tree, htree, hlookup⟩ := (tree_indexes_consistent collisionFree (by decide)
    ⟨.empty, .empty, .empty, some ⟨network, .nu6, 1, ∅, 10⟩, .zero⟩ hnew hrun).trees .sapling 12 hc
  refine ⟨ch₀, ch, hnew, hrun, tree, htree, ?_, hlookup⟩
  cases htree
  rfl

end

end Zebra.Properties
