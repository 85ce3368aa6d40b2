import Zebra.Properties.NodeSample
import Zebra.Properties.StoredPool

namespace Zebra.Properties

open Lib Lib.Transition Ledger Std.ExtTreeMap Outcome

section

variable [MerkleHashing] {ε : Type} {p : Pool} {db db' : ZebraDb} {bs : List Block} {b : Block}

/-- The trees after each block of a chain. -/
structure ChainTrees where
  sprout : List (NoteCommitmentTree .sprout)
  sapling : List (NoteCommitmentTree .sapling)
  orchard : List (NoteCommitmentTree .orchard)

def ChainTrees.concat (ts : ChainTrees) (t : Treestate) : ChainTrees :=
  ⟨ts.sprout ++ [t.sprout], ts.sapling ++ [t.sapling], ts.orchard ++ [t.orchard]⟩

/-- The shielded tables describe a chain. -/
structure DescribesShielded (t : ShieldedTables) (bs : List Block) (ts : ChainTrees) : Prop where
  heights : ∀ h, h ∈ t.hashByHeight ↔ h < bs.length
  sproutNullifiers : ∀ n, n ∈ t.sproutNullifiers ↔ n ∈ bs.flatMap (·.nullifiers .sprout)
  saplingNullifiers : ∀ n, n ∈ t.saplingNullifiers ↔ n ∈ bs.flatMap (·.nullifiers .sapling)
  orchardNullifiers : ∀ n, n ∈ t.orchardNullifiers ↔ n ∈ bs.flatMap (·.nullifiers .orchard)
  sprout : StoresSprout t.sproutAnchors t.sproutTree bs ts.sprout
  sapling : StoresPool t.saplingTrees t.saplingAnchors t.saplingSubtrees bs ts.sapling
  orchard : StoresPool t.orchardTrees t.orchardAnchors t.orchardSubtrees bs ts.orchard

variable {ts : ChainTrees}

theorem DescribesShielded.finalizedTipHeight (h : DescribesShielded (shieldedOf db) bs ts) :
    db.finalizedTipHeight = if bs.length = 0 then none else some (bs.length - 1) := by
  have hkeys : db.hashByHeight.toList.map Prod.fst = List.range bs.length := KeyedMap.map_fst_toList_eq_range h.heights
  rw [ZebraDb.finalizedTipHeight, ZebraDb.tip, ← List.getLast?_map, hkeys, List.getLast?_range]

/-- The trees after the blocks; before the first block no subtree is complete. -/
structure TreesMatch (trees : NoteCommitmentTrees) (bs : List Block) : Prop where
  sprout : trees.sprout.leaves = leavesAfter .sprout bs
  sapling : trees.sapling.leaves = leavesAfter .sapling bs
  orchard : trees.orchard.leaves = leavesAfter .orchard bs
  noSubtree : bs = [] → trees.saplingSubtree = none ∧ trees.orchardSubtree = none

theorem DescribesShielded.sproutTreeForTip (h : DescribesShielded (shieldedOf db) bs ts) {t : NoteCommitmentTree .sprout}
    (ht : (db.sproutTreeForTip : Exec ε _) = .ok t) : t.leaves = leavesAfter .sprout bs := by
  unfold ZebraDb.sproutTreeForTip at ht
  split at ht
  · next hempty =>
      have hnil : bs = [] := by
        refine List.eq_nil_of_length_eq_zero (Nat.eq_zero_of_not_pos fun hpos => ?_)
        have hmem := (h.heights 0).2 hpos
        rw [show (shieldedOf db).hashByHeight = ∅ from isEmpty_iff.1 hempty] at hmem
        simp at hmem
      rw [← Except.ok.inj ht, hnil]
      rfl
  · rw [expect_eq_ok] at ht
    exact h.sprout.after.getLast? t (h.sprout.tip ▸ ht)

theorem StoresPool.treeForTip (hcf : CollisionFree) {trees : KeyedMap Nat (NoteCommitmentTree p)}
    {anchors : KeyedMap Nat Unit} {subtrees : Subtrees}
    {ts : List (NoteCommitmentTree p)} {t : NoteCommitmentTree p} {tip : Option Nat}
    (h : StoresPool trees anchors subtrees bs ts)
    (htip : tip = if bs.length = 0 then none else some (bs.length - 1))
    (ht : (match tip with
      | none => return .empty
      | some height => do
        let tree ← storedTree tip trees height
        expect tree .finalizedTree : Exec ε _) = .ok t) : t.leaves = leavesAfter p bs := by
  have hlen := h.after.length_eq
  by_cases hne : bs.length = 0
  · rw [htip, if_pos hne] at ht
    rw [← Except.ok.inj ht, List.eq_nil_of_length_eq_zero hne]
    rfl
  · have hlt : bs.length - 1 < ts.length := by omega
    have hstored := List.getElem?_eq_getElem hlt
    rw [htip, if_neg hne] at ht
    obtain ⟨t', ht', ht⟩ := bind_eq_ok.1 ht
    obtain rfl := Except.ok.inj ((h.trees.storedTree hcf le_rfl hstored).symm.trans ht')
    rw [← Except.ok.inj ht, h.after.leaves _ _ hstored, List.take_of_length_le (by omega)]

theorem DescribesShielded.treesForTip (hcf : CollisionFree) (h : DescribesShielded (shieldedOf db) bs ts)
    {trees : NoteCommitmentTrees} (ht : (db.noteCommitmentTreesForTip : Exec ε _) = .ok trees) : TreesMatch trees bs := by
  obtain ⟨sprout, hsprout, ht⟩ := bind_eq_ok.1 ht
  obtain ⟨sapling, hsapling, ht⟩ := bind_eq_ok.1 ht
  obtain ⟨orchard, horchard, ht⟩ := bind_eq_ok.1 ht
  rw [← Except.ok.inj ht]
  refine ⟨h.sproutTreeForTip hsprout, h.sapling.treeForTip hcf h.finalizedTipHeight hsapling,
    h.orchard.treeForTip hcf h.finalizedTipHeight horchard, ?_⟩
  rintro rfl
  have htip := h.finalizedTipHeight
  simp [ZebraDb.subtreeForTip, htip]

theorem DescribesShielded.previousTrees (hcf : CollisionFree) (h : DescribesShielded (shieldedOf db) bs ts)
    {prev : Option NoteCommitmentTrees} (hprev : ∀ trees ∈ prev, TreesMatch trees bs)
    {sprout : NoteCommitmentTree .sprout} {sapling : NoteCommitmentTree .sapling} {orchard : NoteCommitmentTree .orchard}
    (hsprout : (DiskWriteBatch.previousTree prev (·.sprout) db.sproutTreeForTip : Exec ε _) = .ok sprout)
    (hsapling : (DiskWriteBatch.previousTree prev (·.sapling) db.saplingTreeForTip : Exec ε _) = .ok sapling)
    (horchard : (DiskWriteBatch.previousTree prev (·.orchard) db.orchardTreeForTip : Exec ε _) = .ok orchard) :
    sprout.leaves = leavesAfter .sprout bs ∧ sapling.leaves = leavesAfter .sapling bs ∧
      orchard.leaves = leavesAfter .orchard bs := by
  cases prev with
  | none =>
    exact ⟨h.sproutTreeForTip hsprout, h.sapling.treeForTip hcf h.finalizedTipHeight hsapling,
      h.orchard.treeForTip hcf h.finalizedTipHeight horchard⟩
  | some trees =>
    have hmatch := hprev trees rfl
    rw [← Except.ok.inj hsprout, ← Except.ok.inj hsapling, ← Except.ok.inj horchard]
    exact ⟨hmatch.sprout, hmatch.sapling, hmatch.orchard⟩

/-- The treestate after a block. Its subtrees matter only where the tree has changed. -/
structure TreestateAfter (t : Treestate) (bs : List Block) (b : Block) : Prop where
  sprout : t.sprout.leaves = leavesAfter .sprout (bs ++ [b])
  sapling : t.sapling.leaves = leavesAfter .sapling (bs ++ [b])
  orchard : t.orchard.leaves = leavesAfter .orchard (bs ++ [b])
  saplingSubtree : bs = [] ∨ b.noteCommitments .sapling ≠ [] → IsCompleted t.sapling b bs.length t.saplingSubtree
  orchardSubtree : bs = [] ∨ b.noteCommitments .orchard ≠ [] → IsCompleted t.orchard b bs.length t.orchardSubtree

theorem first_or_notes {prev t : NoteCommitmentTree p} (hprev : prev.leaves = leavesAfter p bs)
    (ht : t.leaves = leavesAfter p (bs ++ [b])) (hnew : bs.length = 0 ∨ prev.root ≠ t.root) :
    bs = [] ∨ b.noteCommitments p ≠ [] := by
  refine hnew.imp List.eq_nil_of_length_eq_zero fun hr hnil => hr ?_
  rw [leavesAfter_concat, hnil, List.append_nil, ← hprev] at ht
  rw [NoteCommitmentTree.ext ht]

theorem StoresPool.concat (hcf : CollisionFree) {trees : KeyedMap Nat (NoteCommitmentTree p)}
    {anchors : KeyedMap Nat Unit} {subtrees : Subtrees} {ts : List (NoteCommitmentTree p)}
    {prev t : NoteCommitmentTree p} {subtree : Option NoteCommitmentSubtree}
    (h : StoresPool trees anchors subtrees bs ts) (hprev : prev.leaves = leavesAfter p bs)
    (ht : t.leaves = leavesAfter p (bs ++ [b]))
    (hs : bs = [] ∨ b.noteCommitments p ≠ [] → IsCompleted t b bs.length subtree) :
    StoresPool (if bs.length = 0 ∨ prev.root ≠ t.root then trees.insert bs.length t else trees)
      (if bs.length = 0 ∨ prev.root ≠ t.root then anchors.insert t.root () else anchors)
      (if bs.length = 0 ∨ prev.root ≠ t.root then insertSubtree subtrees subtree else subtrees) (bs ++ [b]) (ts ++ [t]) := by
  by_cases hnew : bs.length = 0 ∨ prev.root ≠ t.root
  · simp only [if_pos hnew]
    exact h.changed hprev ht hnew (hs (first_or_notes hprev ht hnew))
  · simp only [if_neg hnew]
    exact h.unchanged hcf hprev ht hnew

theorem StoresSprout.concat (hcf : CollisionFree) {anchors : SproutAnchors}
    {tip : Option (NoteCommitmentTree .sprout)} {ts : List (NoteCommitmentTree .sprout)}
    {prev t : NoteCommitmentTree .sprout} (h : StoresSprout anchors tip bs ts)
    (hprev : prev.leaves = leavesAfter .sprout bs) (ht : t.leaves = leavesAfter .sprout (bs ++ [b])) :
    StoresSprout (if bs.length = 0 ∨ prev.root ≠ t.root then anchors.insert t.root t else anchors)
      (if bs.length = 0 ∨ prev.root ≠ t.root then some t else tip) (bs ++ [b]) (ts ++ [t]) := by
  by_cases hnew : bs.length = 0 ∨ prev.root ≠ t.root
  · simp only [if_pos hnew]
    exact h.changed hcf ht
  · simp only [if_neg hnew]
    exact h.unchanged hcf hprev ht hnew

variable [ScriptParsing] {fb : FinalizedBlock} {prev : Option NoteCommitmentTrees}

theorem DescribesShielded.writeBlockWith (hcf : CollisionFree) {C : Constraint} {mode : BalanceTable.Mode C}
    (h : DescribesShielded (shieldedOf db) bs ts) (hprev : ∀ trees ∈ prev, TreesMatch trees bs)
    (hheight : fb.height = bs.length) (hafter : TreestateAfter fb.treestate bs fb.block)
    (hw : db.writeBlockWith mode fb prev = .ok db') :
    DescribesShielded (shieldedOf db') (bs ++ [fb.block]) (ts.concat fb.treestate) := by
  obtain ⟨_, _, _, trees, _, hwrites⟩ := writeBlockWith_ok hw
  obtain ⟨sprout, sapling, orchard, hsprout, hsapling, horchard, htrees⟩ := prepareTrees_ok hwrites.treesBatch
  obtain ⟨hsprout, hsapling, horchard⟩ := h.previousTrees hcf hprev hsprout hsapling horchard
  obtain ⟨_, _, _, hbatch, hsproutN, hsaplingN, horchardN⟩ := shieldedOf_prepareNullifierBatch
    (fb.block.transactions.mapIdx fun i tx => (tx, (⟨fb.height, i⟩ : TransactionLocation)))
  rw [hwrites.shielded, htrees, hbatch]
  have hnullifiers : ∀ f : Transaction → List Nat, (fb.block.transactions.mapIdx fun i tx =>
      (tx, (⟨fb.height, i⟩ : TransactionLocation))).flatMap (fun x => f x.1) = fb.block.transactions.flatMap f := by
    intro f
    rw [List.flatMap_def, List.flatMap_def]
    congr 1
    refine List.ext_getElem (by simp) fun i _ _ => ?_
    simp
  refine { heights := fun k => ?_, sproutNullifiers := fun n => ?_, saplingNullifiers := fun n => ?_,
           orchardNullifiers := fun n => ?_, sprout := ?_, sapling := ?_, orchard := ?_ }
  · have hk := h.heights k
    simp only [treesWritten, shieldedOf, mem_insert, Std.LawfulEqOrd.compare_eq_iff_eq,
      List.length_append, List.length_singleton] at hk ⊢
    rw [hk, hheight]
    omega
  · refine (hsproutN n).trans ?_
    rw [hnullifiers, List.flatMap_append, List.mem_append, List.flatMap_singleton]
    exact or_congr (h.sproutNullifiers n) Iff.rfl
  · refine (hsaplingN n).trans ?_
    rw [hnullifiers, List.flatMap_append, List.mem_append, List.flatMap_singleton]
    exact or_congr (h.saplingNullifiers n) Iff.rfl
  · refine (horchardN n).trans ?_
    rw [hnullifiers, List.flatMap_append, List.mem_append, List.flatMap_singleton]
    exact or_congr (h.orchardNullifiers n) Iff.rfl
  · have hs := h.sprout.concat hcf hsprout hafter.sprout
    rw [← hheight] at hs
    exact hs
  · have hs := h.sapling.concat hcf hsapling hafter.sapling hafter.saplingSubtree
    rw [← hheight] at hs
    exact hs
  · have hs := h.orchard.concat hcf horchard hafter.orchard hafter.orchardSubtree
    rw [← hheight] at hs
    exact hs

omit [ScriptParsing] in
theorem updatePool_spec {tree tree' : NoteCommitmentTree p} {subtree subtree' : Option NoteCommitmentSubtree}
    (hfew : (b.noteCommitments p).length < 2 ^ trackedSubtreeHeight) (hleaves : tree.leaves = leavesAfter p bs)
    (hnone : bs = [] → subtree = none)
    (hu : NoteCommitmentTrees.updatePool bs.length (b.noteCommitments p) tree subtree = .ok (tree', subtree')) :
    tree'.leaves = leavesAfter p (bs ++ [b]) ∧
      (bs = [] ∨ b.noteCommitments p ≠ [] → IsCompleted tree' b bs.length subtree') := by
  unfold NoteCommitmentTrees.updatePool at hu
  rw [leavesAfter_concat, ← hleaves]
  split at hu
  · next hnil =>
      cases hu
      refine ⟨by rw [hnil, List.append_nil], fun hor s => ?_⟩
      rw [hnone (hor.resolve_right (not_not.2 hnil))]
      simp only [reduceCtorEq, Completes, hnil, List.length_nil, false_iff]
      omega
  · next hne =>
      obtain ⟨⟨tree₁, completed⟩, ha, hu⟩ := bind_eq_ok.1 hu
      cases hu
      obtain ⟨hleaves', hc⟩ := appendAll_spec ha
      refine ⟨hleaves', fun _ s => ?_⟩
      rw [Option.or_none] at hc
      rw [hc, Option.map_eq_some_iff]
      constructor
      · rintro ⟨⟨index, root⟩, hl, rfl⟩
        obtain ⟨hcompletes, hroot⟩ := (lastCompleted_eq_some hleaves' hfew).1 hl
        exact ⟨hcompletes, rfl, hroot⟩
      · rintro ⟨hcompletes, hend, hroot⟩
        exact ⟨(s.index, s.root), (lastCompleted_eq_some hleaves' hfew).2 ⟨hcompletes, hroot⟩, by rw [← hend]⟩

/-- Every pool of a block has fewer notes than a subtree has leaves. -/
def FewNotesIn (b : Block) : Prop := ∀ p, (b.noteCommitments p).length < 2 ^ trackedSubtreeHeight

omit [ScriptParsing] in
theorem treestateAfter_updateTreesParallel {trees trees' : NoteCommitmentTrees} {history : HistoryTree}
    (hfew : FewNotesIn b) (hcoinbase : b.coinbaseHeight = some bs.length) (h : TreesMatch trees bs)
    (hu : trees.updateTreesParallel b = .ok trees') : TreestateAfter { trees' with history } bs b := by
  obtain ⟨height, hheight, hu⟩ := bind_eq_ok.1 hu
  obtain rfl : height = bs.length := Option.some.inj ((expect_eq_ok.1 hheight).symm.trans hcoinbase)
  obtain ⟨⟨sprout, _⟩, hsprout, hu⟩ := bind_eq_ok.1 hu
  obtain ⟨⟨sapling, saplingSubtree⟩, hsapling, hu⟩ := bind_eq_ok.1 hu
  obtain ⟨⟨orchard, orchardSubtree⟩, horchard, hu⟩ := bind_eq_ok.1 hu
  cases hu
  have hsprout := updatePool_spec (hfew .sprout) h.sprout (fun _ => rfl) (lift_eq_ok.1 hsprout)
  have hsapling := updatePool_spec (hfew .sapling) h.sapling (fun hnil => (h.noSubtree hnil).1)
    (lift_eq_ok.1 hsapling)
  have horchard := updatePool_spec (hfew .orchard) h.orchard (fun hnil => (h.noSubtree hnil).2)
    (lift_eq_ok.1 horchard)
  exact ⟨hsprout.1, hsapling.1, horchard.1, hsapling.2, horchard.2⟩

theorem DescribesShielded.writeBlock (hcf : CollisionFree) {finished : Bool}
    (h : DescribesShielded (shieldedOf db) bs ts) (hprev : ∀ trees ∈ prev, TreesMatch trees bs)
    (hheight : fb.height = bs.length) (hafter : TreestateAfter fb.treestate bs fb.block)
    (hw : db.writeBlock finished fb prev = .ok db') :
    DescribesShielded (shieldedOf db') (bs ++ [fb.block]) (ts.concat fb.treestate) := by
  unfold ZebraDb.writeBlock at hw
  split at hw
  · exact h.writeBlockWith hcf hprev hheight hafter hw
  · exact h.writeBlockWith hcf hprev hheight hafter hw

theorem DescribesShielded.height_eq (h : DescribesShielded (shieldedOf db) bs ts)
    (hc : (db.checkChainOrder fb : Exec ε _) = .ok ()) : fb.height = bs.length := by
  rw [ZebraDb.checkChainOrder, h.finalizedTipHeight] at hc
  by_cases hne : bs.length = 0
  · rw [if_pos hne] at hc
    simp only [check_bind_eq_ok] at hc
    have := check_eq_ok.1 hc.2
    omega
  · rw [if_neg hne] at hc
    simp only [check_bind_eq_ok] at hc
    omega

theorem TreestateAfter.treesMatch {t : Treestate} (h : TreestateAfter t bs b) :
    TreesMatch t.noteCommitmentTrees (bs ++ [b]) :=
  ⟨h.sprout, h.sapling, h.orchard, fun hnil => absurd hnil (by simp)⟩

variable [BlockHashing] [BlockCommitments] [ChainHistory]

/-- What is assumed of a block that is committed after `bs`: a supplied treestate is correct. -/
def SuppliedCorrectly (bs : List Block) : FinalizableBlock → Prop
  | .checkpoint b => b.block.coinbaseHeight = some b.height
  | .contextual b treestate => TreestateAfter treestate bs b.block

theorem DescribesShielded.commit (hcf : CollisionFree) {finished : Bool} {fb : FinalizableBlock} {hash : BlockHash}
    {trees : NoteCommitmentTrees} (h : DescribesShielded (shieldedOf db) bs ts)
    (hprev : ∀ trees ∈ prev, TreesMatch trees bs) (hfew : FewNotesIn fb.innerBlock) (hs : SuppliedCorrectly bs fb)
    (hc : db.commitFinalizedDirect finished fb prev = .ok (db', hash, trees)) :
    (∃ ts', DescribesShielded (shieldedOf db') (bs ++ [fb.innerBlock]) ts') ∧ TreesMatch trees (bs ++ [fb.innerBlock]) := by
  obtain ⟨⟨b, prev'⟩, hb, hc⟩ := bind_eq_ok.1 hc
  obtain ⟨_, horder, hc⟩ := bind_eq_ok.1 hc
  obtain ⟨db₁, hw, hc⟩ := bind_eq_ok.1 hc
  obtain ⟨rfl, rfl, rfl⟩ : db₁ = db' ∧ b.hash = hash ∧ b.treestate.noteCommitmentTrees = trees := by
    simpa using Except.ok.inj hc
  have hheight := h.height_eq horder
  -- the block that is written, its treestate and the trees before it
  have hblock : b.block = fb.innerBlock ∧ TreestateAfter b.treestate bs b.block ∧
      ∀ trees ∈ prev', TreesMatch trees bs := by
    cases fb with
    | checkpoint cb =>
      obtain ⟨trees, htrees, hb⟩ := bind_eq_ok.1 hb
      obtain ⟨nct, hnct, hb⟩ := bind_eq_ok.1 hb
      obtain ⟨_, -, hb⟩ := bind_eq_ok.1 hb
      obtain ⟨history, -, hb⟩ := bind_eq_ok.1 hb
      cases hb
      have hmatch : TreesMatch trees bs := by
        cases prev with
        | none => exact h.treesForTip hcf htrees
        | some given => exact Except.ok.inj htrees ▸ hprev given rfl
      refine ⟨rfl, ?_, ?_⟩
      · exact treestateAfter_updateTreesParallel hfew (hs.trans (congrArg some hheight)) hmatch
          (mapErr_eq_ok.1 hnct)
      · rintro _ ⟨⟩
        exact hmatch
    | contextual cb treestate =>
      cases hb
      exact ⟨rfl, hs, hprev⟩
  obtain ⟨hblock, hafter, hprev'⟩ := hblock
  rw [← hblock]
  exact ⟨⟨_, h.writeBlock hcf hprev' hheight hafter hw⟩, hafter.treesMatch⟩

/-- A call of `commit_finalized_direct`, with the trees that the call before returned or
without them. -/
structure CommitCall where
  finishedFormatUpgrades : Bool
  block : FinalizableBlock
  passTrees : Bool

/-- The database and the trees that the last call returned. -/
inductive CommitStep : ZebraDb × Option NoteCommitmentTrees → CommitCall → ZebraDb × Option NoteCommitmentTrees → Prop
  | commit {db db' : ZebraDb} {last : Option NoteCommitmentTrees} {call : CommitCall} {hash : BlockHash}
      {trees : NoteCommitmentTrees} :
      db.commitFinalizedDirect call.finishedFormatUpgrades call.block (if call.passTrees then last else none) =
        .ok (db', hash, trees) → CommitStep (db, last) call (db', some trees)

def committedBlocks (calls : List CommitCall) : List Block := calls.map (·.block.innerBlock)

/-- Blocks with few notes, whose treestates, where they are supplied, are correct. -/
structure CommitsChain (bs : List Block) (calls : List CommitCall) : Prop where
  fewNotes : ∀ call ∈ calls, FewNotesIn call.block.innerBlock
  supplied : ∀ i call, calls[i]? = some call → SuppliedCorrectly (bs ++ committedBlocks (calls.take i)) call.block

omit [ScriptParsing] [BlockHashing] [BlockCommitments] [ChainHistory] in
theorem CommitsChain.tail {call : CommitCall} {calls : List CommitCall} (h : CommitsChain bs (call :: calls)) :
    CommitsChain (bs ++ [call.block.innerBlock]) calls where
  fewNotes c hc := h.fewNotes c (List.mem_cons_of_mem _ hc)
  supplied i c hi := by
    have hs := h.supplied (i + 1) c hi
    rwa [List.take_succ_cons, committedBlocks, List.map_cons, List.append_cons] at hs

theorem describesShielded_run (hcf : CollisionFree) {calls : List CommitCall} {s s' : ZebraDb × Option NoteCommitmentTrees}
    (hr : Run CommitStep s calls s') (hv : CommitsChain bs calls) (hd : DescribesShielded (shieldedOf s.1) bs ts)
    (hlast : ∀ trees ∈ s.2, TreesMatch trees bs) :
    ∃ ts', DescribesShielded (shieldedOf s'.1) (bs ++ committedBlocks calls) ts' := by
  induction hr generalizing bs ts with
  | nil =>
    rw [committedBlocks, List.map_nil, List.append_nil]
    exact ⟨ts, hd⟩
  | @cons _ _ _ call _ hs _ ih =>
    cases hs with
    | @commit _ _ last _ _ _ hc =>
      have hprev : ∀ trees ∈ (if call.passTrees then last else none), TreesMatch trees bs := by
        split
        · exact hlast
        · simp
      have hsupplied := hv.supplied 0 call rfl
      rw [List.take_zero, committedBlocks, List.map_nil, List.append_nil] at hsupplied
      obtain ⟨⟨ts', hd'⟩, hmatch⟩ := hd.commit hcf hprev (hv.fewNotes call List.mem_cons_self) hsupplied hc
      rw [committedBlocks, List.map_cons, List.append_cons]
      refine ih hv.tail hd' ?_
      rintro _ ⟨⟩
      exact hmatch

def rootAfter (p : Pool) (bs : List Block) (height : Nat) : Nat :=
  MerkleHashing.root p (leavesAfter p (bs.take (height + 1)))

/-- The block at a height adds the last leaf of a subtree. -/
def CompletedAt (p : Pool) (bs : List Block) (index height : Nat) : Prop :=
  (leavesAfter p (bs.take height)).length < (index + 1) * 2 ^ trackedSubtreeHeight ∧
    (index + 1) * 2 ^ trackedSubtreeHeight ≤ (leavesAfter p (bs.take (height + 1))).length

/-- The root of the subtree that the block at a height completes. -/
def subtreeRootAfter (p : Pool) (bs : List Block) (index height : Nat) : Nat :=
  MerkleHashing.subtreeRoot p ((leavesAfter p (bs.take (height + 1))).take ((index + 1) * 2 ^ trackedSubtreeHeight))

/-- The shielded indexes of the database describe the chain exactly. -/
structure ShieldedExact (db : ZebraDb) (bs : List Block) : Prop where
  tip : db.finalizedTipHeight = if bs.length = 0 then none else some (bs.length - 1)
  saplingTrees : ∀ h < bs.length, ∃ t, (db.saplingTreeByHeight h : Validated _) = .ok (some t) ∧
    t.leaves = leavesAfter .sapling (bs.take (h + 1))
  orchardTrees : ∀ h < bs.length, ∃ t, (db.orchardTreeByHeight h : Validated _) = .ok (some t) ∧
    t.leaves = leavesAfter .orchard (bs.take (h + 1))
  sproutAnchors : ∀ root, root ∈ db.sproutAnchors ↔ ∃ h < bs.length, rootAfter .sprout bs h = root
  saplingAnchors : ∀ root, db.containsSaplingAnchor root ↔ ∃ h < bs.length, rootAfter .sapling bs h = root
  orchardAnchors : ∀ root, db.containsOrchardAnchor root ↔ ∃ h < bs.length, rootAfter .orchard bs h = root
  sproutTrees : ∀ root ∈ db.sproutAnchors, ∃ t, db.sproutTreeByAnchor root = some t ∧ t.root = root
  nullifiers : ∀ p n, db.containsNullifier p n ↔ n ∈ bs.flatMap (·.nullifiers p)
  saplingSubtrees : ∀ index data, db.saplingNoteCommitmentSubtree[index]? = some data ↔
    CompletedAt .sapling bs index data.endHeight ∧ data.root = subtreeRootAfter .sapling bs index data.endHeight
  orchardSubtrees : ∀ index data, db.orchardNoteCommitmentSubtree[index]? = some data ↔
    CompletedAt .orchard bs index data.endHeight ∧ data.root = subtreeRootAfter .orchard bs index data.endHeight

omit [ScriptParsing] [BlockHashing] [BlockCommitments] [ChainHistory] in
theorem TreesAfter.exists_root_iff {ts : List (NoteCommitmentTree p)} (h : TreesAfter bs ts) {root : Nat} :
    (∃ t ∈ ts, t.root = root) ↔ ∃ height < bs.length, rootAfter p bs height = root := by
  constructor
  · rintro ⟨t, ht, rfl⟩
    obtain ⟨i, hi⟩ := List.mem_iff_getElem?.1 ht
    refine ⟨i, h.length_eq ▸ (List.getElem?_eq_some_iff.1 hi).1, ?_⟩
    rw [rootAfter, ← h.leaves i t hi]
    rfl
  · rintro ⟨height, hlt, rfl⟩
    have hi := List.getElem?_eq_getElem (h.length_eq ▸ hlt : height < ts.length)
    refine ⟨_, List.mem_of_getElem? hi, ?_⟩
    rw [rootAfter, ← h.leaves height _ hi]
    rfl

omit [ScriptParsing] [BlockHashing] [BlockCommitments] [ChainHistory] in
theorem TreesAfter.completes_iff {ts : List (NoteCommitmentTree p)} (h : TreesAfter bs ts) {height index : Nat}
    {t : NoteCommitmentTree p} (hb : bs[height]? = some b) (ht : ts[height]? = some t) :
    Completes t b index ↔ CompletedAt p bs index height := by
  have hafter : leavesAfter p (bs.take (height + 1)) = leavesAfter p (bs.take height) ++ b.noteCommitments p := by
    rw [List.take_add_one, hb, Option.toList_some, leavesAfter_concat]
  have hcount : t.count = (leavesAfter p (bs.take height)).length + (b.noteCommitments p).length := by
    rw [← t.length_leaves, h.leaves height t ht, hafter, List.length_append]
  rw [Completes, CompletedAt, hafter, List.length_append, hcount]
  omega

omit [ScriptParsing] [BlockHashing] [BlockCommitments] [ChainHistory] in
theorem StoresPool.subtrees_iff {trees : KeyedMap Nat (NoteCommitmentTree p)} {anchors : KeyedMap Nat Unit}
    {subtrees : Subtrees} {ts : List (NoteCommitmentTree p)}
    (h : StoresPool trees anchors subtrees bs ts) (index : Nat) (data : NoteCommitmentSubtreeData) :
    subtrees[index]? = some data ↔
      CompletedAt p bs index data.endHeight ∧ data.root = subtreeRootAfter p bs index data.endHeight := by
  rw [h.subtrees index data]
  constructor
  · rintro ⟨height, b, t, hb, ht, hc, rfl⟩
    refine ⟨(h.after.completes_iff hb ht).1 hc, ?_⟩
    rw [subtreeRootAfter, ← h.after.leaves height t ht]
    rfl
  · rintro ⟨hc, hroot⟩
    have hlt : data.endHeight < bs.length := by
      by_contra hge
      rw [CompletedAt, List.take_of_length_le (by omega), List.take_of_length_le (by omega)] at hc
      omega
    have hb := List.getElem?_eq_getElem hlt
    have ht := List.getElem?_eq_getElem (h.after.length_eq ▸ hlt : data.endHeight < ts.length)
    refine ⟨data.endHeight, _, _, hb, ht, (h.after.completes_iff hb ht).2 hc, ?_⟩
    rw [rootAt, h.after.leaves _ _ ht]
    exact congrArg (NoteCommitmentSubtreeData.mk data.endHeight) hroot

omit [ScriptParsing] [BlockHashing] [BlockCommitments] [ChainHistory] in
theorem StoresPool.treeByHeight (hcf : CollisionFree) {trees : KeyedMap Nat (NoteCommitmentTree p)}
    {anchors : KeyedMap Nat Unit} {subtrees : Subtrees} {ts : List (NoteCommitmentTree p)}
    (h : StoresPool trees anchors subtrees bs ts) {height : Nat} (hlt : height < bs.length) :
    ∃ t, (storedTree (some (bs.length - 1)) trees height : Exec ε _) = .ok (some t) ∧
      t.leaves = leavesAfter p (bs.take (height + 1)) := by
  have ht := List.getElem?_eq_getElem (h.after.length_eq ▸ hlt : height < ts.length)
  exact ⟨_, h.trees.storedTree hcf (by omega) ht, h.after.leaves _ _ ht⟩

omit [ScriptParsing] [BlockHashing] [BlockCommitments] [ChainHistory] in
theorem describesShielded_empty (net : Network) :
    DescribesShielded (shieldedOf { network := net }) [] ⟨[], [], []⟩ where
  heights _ := by simp [shieldedOf]
  sproutNullifiers _ := by simp [shieldedOf]
  saplingNullifiers _ := by simp [shieldedOf]
  orchardNullifiers _ := by simp [shieldedOf]
  sprout := ⟨⟨rfl, by simp⟩, by simp [shieldedOf], rfl⟩
  sapling := ⟨⟨rfl, by simp⟩, KeyedMap.indexes_empty, by simp [shieldedOf], by simp [StoresSubtrees, shieldedOf]⟩
  orchard := ⟨⟨rfl, by simp⟩, KeyedMap.indexes_empty, by simp [shieldedOf], by simp [StoresSubtrees, shieldedOf]⟩

/-- The shielded indexes describe exactly the chain that was committed, whether trees are
computed or supplied, passed along or read from the database. -/
theorem shielded_indexes_exact (hcf : CollisionFree) {net : Network} {calls : List CommitCall}
    {last : Option NoteCommitmentTrees} (hr : Run CommitStep ({ network := net }, none) calls (db, last))
    (hv : CommitsChain [] calls) : ShieldedExact db (committedBlocks calls) := by
  obtain ⟨ts, hd⟩ := describesShielded_run hcf hr hv (describesShielded_empty net) (by simp)
  rw [List.nil_append] at hd
  have htip := hd.finalizedTipHeight
  refine ⟨htip, fun h hlt => ?_, fun h hlt => ?_, fun root => ?_, fun root => ?_, fun root => ?_, fun root hroot => ?_,
    fun p n => ?_, hd.sapling.subtrees_iff, hd.orchard.subtrees_iff⟩
  · rw [ZebraDb.saplingTreeByHeight, htip, if_neg (by omega)]
    exact hd.sapling.treeByHeight hcf hlt
  · rw [ZebraDb.orchardTreeByHeight, htip, if_neg (by omega)]
    exact hd.orchard.treeByHeight hcf hlt
  · rw [← hd.sprout.after.exists_root_iff, mem_iff_isSome_getElem?, Option.isSome_iff_exists]
    exact exists_congr fun t => hd.sprout.anchors root t
  · rw [← hd.sapling.after.exists_root_iff, ← hd.sapling.anchors root, ZebraDb.containsSaplingAnchor, decide_eq_true_iff]
    rfl
  · rw [← hd.orchard.after.exists_root_iff, ← hd.orchard.anchors root, ZebraDb.containsOrchardAnchor, decide_eq_true_iff]
    rfl
  · have ht := getElem?_eq_some_getElem hroot
    exact ⟨_, ht, ((hd.sprout.anchors root _).1 ht).2⟩
  · rw [ZebraDb.containsNullifier, decide_eq_true_iff]
    cases p with
    | sprout => exact hd.sproutNullifiers n
    | sapling => exact hd.saplingNullifiers n
    | orchard => exact hd.orchardNullifiers n

end

section

open Sample

def oneNote : NoteCommitmentTree .sapling := ⟨[7], 1, rfl, by decide⟩

def suppliedTreestate : Treestate := ⟨.empty, oneNote, .empty, none, none, none⟩

def threeCommits : List CommitCall :=
  [⟨true, .checkpoint (semanticBlock 0 7 genesisPreviousBlockHash []), true⟩,
    ⟨true, .checkpoint (semanticBlock 1 8 7 [(1, .V5 [] [] (some ⟨.zero, .justOutputs ⟨[7], seven_ne_nil⟩⟩) none)]), false⟩,
    ⟨true, .contextual (contextualBlock (semanticBlock 2 9 8 []) []) suppliedTreestate, true⟩]

theorem threeCommits_valid : CommitsChain [] threeCommits where
  fewNotes call hc p := by
    simp only [threeCommits, List.mem_cons, List.not_mem_nil, or_false] at hc
    rcases hc with rfl | rfl | rfl <;> cases p <;> decide
  supplied i call hi := by
    match i with
    | 0 => exact (Option.some.inj hi) ▸ rfl
    | 1 => exact (Option.some.inj hi) ▸ rfl
    | 2 =>
      cases hi
      exact ⟨rfl, rfl, rfl, fun h => absurd h (by decide), fun h => absurd h (by decide)⟩
    | i + 3 => simp [threeCommits] at hi

theorem threeCommits_indexed : ∃ db last, Run CommitStep ({ network := network }, none) threeCommits (db, last) ∧
    ShieldedExact db (committedBlocks threeCommits) := by
  have hrun : ∃ x ∈ (ZebraDb.commitFinalizedDirect { network := network } true (threeCommits[0].block) none).toOption,
      ∃ y ∈ (x.1.commitFinalizedDirect true (threeCommits[1].block) none).toOption,
      ∃ z ∈ (y.1.commitFinalizedDirect true (threeCommits[2].block) (some y.2.2)).toOption, True := by
    decide +kernel
  obtain ⟨x, hx, y, hy, z, hz, -⟩ := hrun
  have hr : Run CommitStep ({ network := network }, none) threeCommits (z.1, some z.2.2) :=
    .cons (.commit (toOption_eq_some.1 hx)) (.cons (.commit (toOption_eq_some.1 hy))
      (.cons (.commit (toOption_eq_some.1 hz)) (.nil _)))
  exact ⟨z.1, _, hr, shielded_indexes_exact collisionFree hr threeCommits_valid⟩

end

end Zebra.Properties
