import Zebra.Properties.Sample

namespace Zebra.Properties

open Lib Lib.Transition Ledger Lineage

section

variable [MerkleHashing] {p : Pool}

def Completes (tree : NoteCommitmentTree p) (b : Block) (index : Nat) : Prop :=
  tree.count < (index + 1) * 2 ^ trackedSubtreeHeight + (b.noteCommitments p).length ∧
    (index + 1) * 2 ^ trackedSubtreeHeight ≤ tree.count

def rootAt (tree : NoteCommitmentTree p) (index : Nat) : Nat :=
  MerkleHashing.subtreeRoot p (tree.leaves.take ((index + 1) * 2 ^ trackedSubtreeHeight))

def treesOf (c : ChainInner) : (p : Pool) → TreeIndex p
  | .sprout => c.sprout.index
  | .sapling => c.sapling
  | .orchard => c.orchard

/-- Sprout has no subtrees. -/
def subtreesOf (c : ChainInner) : Pool → Subtrees
  | .sprout => ∅
  | .sapling => c.saplingSubtrees
  | .orchard => c.orchardSubtrees

def treeOf (t : Treestate) : (p : Pool) → NoteCommitmentTree p
  | .sprout => t.sprout
  | .sapling => t.sapling
  | .orchard => t.orchard

def subtreeOf (t : Treestate) : Pool → Option NoteCommitmentSubtree
  | .sprout => none
  | .sapling => t.saplingSubtree
  | .orchard => t.orchardSubtree

/-- The block is in the chain and completes the subtree with this index, where `tree` is the
final tree of the block. -/
structure CompletedInChain (c : ChainInner) (p : Pool) (b : ContextuallyVerifiedBlock) (tree : NoteCommitmentTree p)
    (index : Nat) : Prop where
  block : c.blocks[b.height]? = some b
  finalTree : (treesOf c p).tree b.height = some tree
  completes : Completes tree b.block index

/-- The subtrees of a pool are exactly those that the blocks of the chain complete. -/
def SubtreesExact (c : ChainInner) (p : Pool) : Prop :=
  ∀ index data, (subtreesOf c p)[index]? = some data ↔
    ∃ b tree, CompletedInChain c p b tree index ∧ data = ⟨b.height, rootAt tree index⟩

/-- A step that the subtrees survive: a pushed block has fewer notes than a subtree has
leaves, and a fork removes no block that completes a subtree. -/
def KeepsSubtrees (ch : Chain) : ChainOp → Prop
  | .push b => ∀ p, (b.block.noteCommitments p).length < 2 ^ trackedSubtreeHeight
  | .fork hash => ∀ p ≠ Pool.sprout, ∀ k, ch.inner.heightByHash[hash]? = some k →
      ∀ b tree index, CompletedInChain ch.inner p b tree index → b.height ≤ k
  | .popRoot => True

variable [ScriptParsing] [ChainHistory] {net : Network} {c : ChainInner} {ch ch' : Chain} {L L' : Lineage net} {r : Record}
  {rs rs' : List Record}

theorem tracks_treesOf (h : Represents c L) : (p : Pool) → Tracks (treesOf c p) (L.series fun s => s.tree p)
  | .sprout => h.sprout.toTracks
  | .sapling => h.sapling
  | .orchard => h.orchard

theorem tree_of_record (h : Represents c L) (hr : L.records = rs ++ r :: rs') :
    (treesOf c p).tree r.block.height = some (r.after.tree p) := by
  have hsplit : L.kept = (if L.past.isEmpty then [(L.startHeight, L.start)] else []) ++
      rs.map (fun r => (r.block.height, r.after)) ++ [(r.block.height, r.after)] ++
      rs'.map fun r => (r.block.height, r.after) := by
    simp [kept, hr]
  have hasc := L.ascending_kept
  have ht := tracks_treesOf h p
  rw [series, hsplit, List.map_append] at ht
  rw [hsplit] at hasc
  obtain ⟨hlow, -, hhigh⟩ := List.pairwise_append.1 hasc
  have htree := ht.tree (h := r.block.height) ?_ ?_
  · rw [htree, List.map_append, List.getLast?_append]
    simp
  · intro x hx
    obtain ⟨y, hy, rfl⟩ := List.mem_map.1 hx
    rcases List.mem_append.1 hy with hy | hy
    · exact ((List.pairwise_append.1 hlow).2.2 y hy _ (List.mem_singleton_self _)).le
    · rw [List.mem_singleton.1 hy]
  · intro x hx
    obtain ⟨y, hy, rfl⟩ := List.mem_map.1 hx
    exact hhigh (r.block.height, r.after) (by simp) y hy

omit [ScriptParsing] in
omit [ScriptParsing] [ChainHistory] in
theorem lastCompleted_eq_some {tree tree' : NoteCommitmentTree p} {b : Block}
    (hleaves : tree'.leaves = tree.leaves ++ b.noteCommitments p)
    (hfew : (b.noteCommitments p).length < 2 ^ trackedSubtreeHeight) {index root : Nat} :
    lastCompleted tree tree' = some (index, root) ↔ Completes tree' b index ∧ root = rootAt tree' index := by
  have hcount : tree'.count = tree.count + (b.noteCommitments p).length := by
    rw [← tree'.length_leaves, hleaves, List.length_append, NoteCommitmentTree.length_leaves]
  have hbefore : completeSubtrees tree = tree.count / 2 ^ 16 := rfl
  have hafter : completeSubtrees tree' = tree'.count / 2 ^ 16 := rfl
  rw [trackedSubtreeHeight] at hfew
  rw [lastCompleted, Completes, rootAt, trackedSubtreeHeight]
  constructor
  · intro hx
    by_cases hlt : completeSubtrees tree < completeSubtrees tree'
    · rw [if_pos hlt, Option.some.injEq, Prod.mk.injEq] at hx
      obtain ⟨rfl, rfl⟩ := hx
      have hindex : completeSubtrees tree' - 1 + 1 = completeSubtrees tree' := by omega
      simp only [hindex]
      exact ⟨by omega, trivial⟩
    · simp [if_neg hlt] at hx
  · rintro ⟨⟨hlow, hhigh⟩, hroot⟩
    have hindex : completeSubtrees tree' = index + 1 := by omega
    rw [if_pos (by omega), hindex, hroot]
    rfl

theorem completedBy_eq_some (hcf : CollisionFree) {s s' : Snapshot} {b : ContextuallyVerifiedBlock}
    (hn : s.Next net b s') (hfew : (b.block.noteCommitments p).length < 2 ^ trackedSubtreeHeight)
    {x : NoteCommitmentSubtree} :
    completedBy (s.tree p) b.block = some x ↔
      Completes (s'.tree p) b.block x.index ∧ x.endHeight = b.height ∧ x.root = rootAt (s'.tree p) x.index := by
  obtain ⟨tree, ht, hs'⟩ := hn.tree p
  rw [settleTree_eq hcf] at hs'
  rw [completedBy_eq hn.coinbase ht, hs', Option.map_eq_some_iff]
  constructor
  · rintro ⟨⟨index, root⟩, hx, rfl⟩
    obtain ⟨hc, rfl⟩ := (lastCompleted_eq_some (leaves_treeAfter ht) hfew).1 hx
    exact ⟨hc, rfl, rfl⟩
  · rintro ⟨hc, hend, hroot⟩
    refine ⟨(x.index, x.root), (lastCompleted_eq_some (leaves_treeAfter ht) hfew).2 ⟨hc, hroot⟩, ?_⟩
    rw [← hend]

omit [ScriptParsing] [ChainHistory] in
theorem mem_completedFrom {s : Snapshot} {x : NoteCommitmentSubtree} :
    x ∈ completedFrom p s rs ↔ ∃ rs₁ r rs₂, rs = rs₁ ++ r :: rs₂ ∧
      completedBy ((lastSnapshot s rs₁).tree p) r.block.block = some x := by
  induction rs generalizing s with
  | nil => simp [completedFrom]
  | cons r rs ih =>
    rw [completedFrom, List.mem_append, Option.mem_toList, ih]
    constructor
    · rintro (hx | ⟨rs₁, r', rs₂, rfl, hx⟩)
      · exact ⟨[], r, rs, rfl, hx⟩
      · exact ⟨r :: rs₁, r', rs₂, rfl, by rwa [lastSnapshot_cons]⟩
    · rintro ⟨rs₁, r', rs₂, hrs, hx⟩
      cases rs₁ with
      | nil =>
        obtain ⟨rfl, -⟩ := List.cons.inj hrs
        exact .inl hx
      | cons r₁ rs₁ =>
        obtain ⟨rfl, rfl⟩ := List.cons.inj hrs
        rw [lastSnapshot_cons] at hx
        exact .inr ⟨rs₁, r', rs₂, rfl, hx⟩

/-- Every block of the chain has fewer notes than a subtree has leaves. -/
def FewNotes (L : Lineage net) : Prop :=
  ∀ b ∈ L.blocks, ∀ p, (b.block.noteCommitments p).length < 2 ^ trackedSubtreeHeight

omit [ScriptParsing] in
theorem next_of_records (hr : L.records = rs ++ r :: rs') :
    (lastSnapshot (lastSnapshot L.start L.past) rs).Next net r.block r.after := by
  have hl := L.linked_records
  rw [hr] at hl
  exact (linked_append.1 hl).2.2.2.1

theorem mem_completed (hcf : CollisionFree) (h : Represents c L) (hfew : FewNotes L) {x : NoteCommitmentSubtree} :
    x ∈ L.completed p ↔
      ∃ b tree, CompletedInChain c p b tree x.index ∧ x.endHeight = b.height ∧ x.root = rootAt tree x.index := by
  rw [completed, mem_completedFrom]
  constructor
  · rintro ⟨rs, r, rs', hr, hx⟩
    have hmem : r ∈ L.records := by simp [hr]
    obtain ⟨hc, hend, hroot⟩ := (completedBy_eq_some hcf (next_of_records hr)
      (hfew r.block (List.mem_map_of_mem hmem) p)).1 hx
    exact ⟨r.block, r.after.tree p, ⟨h.getElem?_blocks hmem, tree_of_record h hr, hc⟩, hend, hroot⟩
  · rintro ⟨b, tree, ⟨hb, ht, hc⟩, hend, hroot⟩
    obtain ⟨b', hb', heq⟩ := List.mem_map.1 (Multiset.mem_coe.1 ((h.blocks.get _ _).1 hb))
    rw [Prod.mk.injEq] at heq
    obtain rfl := heq.2
    obtain ⟨r, hmem, rfl⟩ := List.mem_map.1 hb'
    obtain ⟨rs, rs', hr⟩ := List.append_of_mem hmem
    obtain rfl : r.after.tree p = tree := by simpa [tree_of_record h hr] using ht
    exact ⟨rs, r, rs', hr, (completedBy_eq_some hcf (next_of_records hr) (hfew r.block hb' p)).2 ⟨hc, hend, hroot⟩⟩

theorem subtreesExact_of_holds (hcf : CollisionFree) (h : Represents c L) (hfew : FewNotes L)
    (hm : HoldsSubtrees (subtreesOf c p) p L) : SubtreesExact c p := by
  intro index data
  rw [KeyedMap.Indexes.get hm, Multiset.mem_coe, List.mem_map]
  constructor
  · rintro ⟨x, hx, heq⟩
    rw [Prod.mk.injEq] at heq
    obtain ⟨rfl, rfl⟩ := heq
    obtain ⟨b, tree, hc, hend, hroot⟩ := (mem_completed hcf h hfew).1 hx
    refine ⟨b, tree, hc, ?_⟩
    rw [NoteCommitmentSubtree.intoData, hend, hroot]
  · rintro ⟨b, tree, hc, rfl⟩
    refine ⟨⟨index, b.height, rootAt tree index⟩, (mem_completed hcf h hfew).2 ⟨b, tree, hc, rfl, rfl⟩, rfl⟩

theorem getElem?_heightByHash (h : Represents c L) (hr : r ∈ L.records) :
    c.heightByHash[r.block.hash]? = some r.block.height := by
  rw [h.heightByHash.get]
  exact Multiset.mem_coe.2 (List.mem_map.2 ⟨r.block, List.mem_map_of_mem hr, rfl⟩)

theorem completed_of_fork (hcf : CollisionFree) (hp : p ≠ .sprout) (h : Refines ch L) (hfew : FewNotes L) {op : ChainOp}
    (hs : L.Step op L') (hfork : op.IsFork) (hkeeps : KeepsSubtrees ch op) : L'.completed p = L.completed p := by
  cases hs with
  | push => exact absurd hfork id
  | popRoot => exact absurd hfork id
  | @fork r rs removed hr hfit =>
    have htake : (L.take (rs.length + 1)).completed p =
        completedFrom p (lastSnapshot L.start L.past) (rs ++ [r]) := by
      rw [← List.length_singleton, ← List.length_append, completed, records_take hr]
      rfl
    have hnone : completedFrom p (lastSnapshot (lastSnapshot L.start L.past) (rs ++ [r])) removed = [] := by
      rw [List.eq_nil_iff_forall_not_mem]
      intro x hx
      obtain ⟨rs₁, r', rs₂, hrem, hx⟩ := mem_completedFrom.1 hx
      rw [← lastSnapshot_append] at hx
      have hr' : L.records = (rs ++ [r] ++ rs₁) ++ r' :: rs₂ := by simp [hr, hrem]
      have hmem : r' ∈ L.records := by simp [hr']
      obtain ⟨hc, -⟩ := (completedBy_eq_some hcf (next_of_records hr')
        (hfew r'.block (List.mem_map_of_mem hmem) p)).1 hx
      have hle := hkeeps p hp r.block.height (getElem?_heightByHash h.inner (by simp [hr])) r'.block _ x.index
        ⟨h.inner.getElem?_blocks hmem, tree_of_record h.inner hr', hc⟩
      have hlt := L.linked_records.ascending
      rw [hr', List.append_assoc, List.append_assoc] at hlt
      have := (List.pairwise_append.1 (List.pairwise_append.1 hlt).2.1).2.2 r (by simp) r' (by simp)
      omega
    rw [htake, completed, hr, completedFrom_append p _ (rs ++ [r]), hnone, List.append_nil]

/-- What a run that keeps the subtrees maintains. -/
structure HoldsExactly (ch : Chain) (L : Lineage net) : Prop extends RefinesExactly ch L where
  few : FewNotes L

theorem holdsExactly_step (hcf : CollisionFree) (h : HoldsExactly ch L) {op : ChainOp} (hs : ch.Step op ch')
    (hkeeps : KeepsSubtrees ch op) : ∃ L' : Lineage net, HoldsExactly ch' L' := by
  obtain ⟨L', hL', h'⟩ := step_exact hcf h.toRefinesExactly hs fun L' hL' hf =>
    ⟨completed_of_fork hcf (by decide) h.toRefines h.few hL' hf hkeeps,
      completed_of_fork hcf (by decide) h.toRefines h.few hL' hf hkeeps⟩
  refine ⟨L', h', ?_⟩
  intro b hb
  rw [(hL'.blocks fun _ => h.inner.nodup_hashes).1] at hb
  cases op with
  | push b' =>
    rcases List.mem_append.1 hb with hb | hb
    · exact h.few b hb
    · rw [List.mem_singleton.1 hb]
      exact hkeeps
  | fork hash => exact h.few b (List.mem_of_mem_take hb)
  | popRoot => exact h.few b (List.mem_of_mem_tail hb)

theorem popRoot_subtree (hcf : CollisionFree) (h : HoldsExactly ch L) (hp : p ≠ .sprout)
    {x : ContextuallyVerifiedBlock × Treestate} (hx : (ch.popRoot : Validated _) = .ok (x, ch'))
    (s : NoteCommitmentSubtree) :
    subtreeOf x.2 p = some s ↔ Completes (treeOf x.2 p) x.1.block s.index ∧ s.endHeight = x.1.height ∧
      s.root = rootAt (treeOf x.2 p) s.index := by
  cases hrec : L.records with
  | nil =>
    have hb : ch.inner.blocks.toList = [] := by simp [h.inner.blocks_toList, blocks, hrec]
    simp [Chain.popRoot, ChainInner.nonFinalizedRootHeight, hb] at hx
  | cons r rs =>
    obtain ⟨hblock, htree, -⟩ := (popRoot_spec h.network h.inner hrec).2 x ch' hx
    rw [h.inner.treestate_root hrec, Option.some.injEq] at htree
    have hnext : (lastSnapshot L.start L.past).Next net r.block r.after :=
      next_of_records (hrec.trans (List.nil_append _).symm)
    have hiff := completedBy_eq_some (p := p) (x := s) hcf hnext
      (h.few r.block (by simp [blocks, hrec]) p)
    rw [hblock, ← htree]
    cases p with
    | sprout => exact absurd rfl hp
    | sapling =>
      rw [subtreeOf, h.sapling.subtreeAt_root hcf hrec]
      exact hiff
    | orchard =>
      rw [subtreeOf, h.orchard.subtreeAt_root hcf hrec]
      exact hiff

theorem subtrees_exact (hcf : CollisionFree) {height : Nat} (hheight : height ≤ Height.max)
    {sprout : NoteCommitmentTree .sprout} {sapling : NoteCommitmentTree .sapling}
    {orchard : NoteCommitmentTree .orchard} {history : HistoryTree} {pools : ValueBalance .nonNegative}
    {ch₀ : Chain} (hnew : (Chain.new net height sprout sapling orchard history pools :
      Exec ValidateContextError _) = .ok ch₀)
    {ops : List ChainOp} (hrun : Run (fun ch op ch' => ch.Step op ch' ∧ KeepsSubtrees ch op) ch₀ ops ch)
    (hp : p ≠ .sprout) :
    SubtreesExact ch.inner p ∧
      ∀ x ch', (ch.popRoot : Exec ValidateContextError _) = .ok (x, ch') →
        ∀ s, subtreeOf x.2 p = some s ↔ Completes (treeOf x.2 p) x.1.block s.index ∧ s.endHeight = x.1.height ∧
          s.root = rootAt (treeOf x.2 p) s.index := by
  have h₀ : ∃ L : Lineage net, HoldsExactly ch₀ L := by
    refine ⟨_, new_exact hheight ⟨sprout, sapling, orchard, history, pools⟩ hnew, ?_⟩
    intro b hb
    simp [blocks, fresh] at hb
  obtain ⟨L, h⟩ := hrun.invariant (P := fun ch => ∃ L : Lineage net, HoldsExactly ch L)
    (fun ch op ch' h hs => h.elim fun L h => holdsExactly_step hcf h hs.1 hs.2) h₀
  refine ⟨?_, fun x ch' hx => popRoot_subtree hcf h hp hx⟩
  cases p with
  | sprout => exact absurd rfl hp
  | sapling => exact subtreesExact_of_holds hcf h.inner h.few h.sapling
  | orchard => exact subtreesExact_of_holds hcf h.inner h.few h.orchard

omit [ScriptParsing] in
theorem next_of_sapling (hcf : CollisionFree) {s : Snapshot} {b : ContextuallyVerifiedBlock}
    (hcb : b.block.coinbaseHeight = some b.height) (hsprout : b.block.noteCommitments .sprout = [])
    (horchard : b.block.noteCommitments .orchard = []) {sapling : NoteCommitmentTree .sapling}
    (hsapling : treeAfter s.sapling b.block = .ok sapling) {history : HistoryTree}
    (hhist : s.history.push net b.block sapling.root s.orchard.root = .ok history) {pools : ValueBalance .nonNegative}
    (hpools : s.pools.addChainValuePoolChange b.chainValuePoolChange = .ok pools) :
    s.Next net b ⟨s.sprout, sapling, s.orchard, history, pools⟩ where
  coinbase := hcb
  sprout := ⟨s.sprout, by rw [treeAfter, hsprout]; rfl, by rw [settleTree_eq hcf]⟩
  sapling := ⟨sapling, hsapling, by rw [settleTree_eq hcf]⟩
  orchard := ⟨s.orchard, by rw [treeAfter, horchard]; rfl, by rw [settleTree_eq hcf]⟩
  history := hhist
  pools := hpools

end

section

open Sample

def almostComplete : NoteCommitmentTree .sapling where
  leaves := List.replicate 65535 0
  count := 65535
  length_leaves := List.length_replicate
  count_le := by decide

def beforeNote : Snapshot :=
  ⟨.empty, almostComplete, .empty, some ⟨network, .nu6, 1, ∅, 10⟩, .zero⟩

def withoutNotes : ContextuallyVerifiedBlock := contextualBlock (semanticBlock 11 11 10 []) []

def withNote : ContextuallyVerifiedBlock :=
  contextualBlock (semanticBlock 12 12 11 [(1, .V5 [] [] (some ⟨.zero, .justOutputs ⟨[7], seven_ne_nil⟩⟩) none)]) []

theorem exists_lineages : ∃ L₁ L₂ L₃ : Lineage network,
    (fresh network 10 beforeNote).Step (.push withoutNotes) L₁ ∧ L₁.Step (.push withNote) L₂ ∧
      L₂.Step (.fork 11) L₃ ∧ L₁.tip.sapling = almostComplete ∧ L₃.blocks = [withoutNotes] := by
  let complete : NoteCommitmentTree .sapling :=
    ⟨List.replicate 65535 0 ++ [7], 65536, by rw [List.length_append, List.length_replicate]; rfl, by decide⟩
  obtain ⟨history₁, hh₁, history₂, hh₂⟩ : ∃ history₁,
      beforeNote.history.push network withoutNotes.block almostComplete.root beforeNote.orchard.root = .ok history₁ ∧
      ∃ history₂, history₁.push network withNote.block complete.root beforeNote.orchard.root = .ok history₂ :=
    ⟨_, rfl, _, rfl⟩
  have hn₁ : beforeNote.Next network withoutNotes ⟨.empty, almostComplete, .empty, history₁, .zero⟩ :=
    next_of_sapling collisionFree rfl rfl rfl rfl hh₁ rfl
  have hn₂ : Snapshot.Next network ⟨.empty, almostComplete, .empty, history₁, .zero⟩ withNote
      ⟨.empty, complete, .empty, history₂, .zero⟩ :=
    next_of_sapling collisionFree rfl rfl rfl rfl hh₂ rfl
  have hp₁ : Pushable (fresh network 10 beforeNote) withoutNotes _ :=
    ⟨hn₁, by decide, by decide, by decide, by decide, by decide, by decide +kernel⟩
  let L₁ := (fresh network 10 beforeNote).extend ⟨withoutNotes, _⟩ rfl (by decide) hn₁
  have hb₁ : L₁.blocks = [withoutNotes] := rfl
  have hmax₁ : L₁.tipHeight + 1 ≤ Height.max := Nat.le_of_ble_eq_true rfl
  have hp₂ : Pushable L₁ withNote _ :=
    ⟨hn₂, by rw [hb₁]; decide, by decide, by rw [hb₁]; decide, by decide, by rw [hb₁]; decide,
      by rw [hb₁]; decide +kernel⟩
  let L₂ := L₁.extend ⟨withNote, _⟩ rfl hmax₁ hn₂
  refine ⟨L₁, L₂, L₂.take 1, .push (.inl rfl) rfl (by decide) hp₁, .push (.inl rfl) rfl hmax₁ hp₂, ?_, rfl, rfl⟩
  have hr₂ : L₂.records = [] ++ [⟨withoutNotes, _⟩] ++ [⟨withNote, _⟩] := rfl
  have hfit : TipRevertsFit network [withoutNotes] [withNote] := by decide +kernel
  exact .fork hr₂ hfit

/-- The steps from the new chain over both blocks, and the fork back to the first one, which
keeps the subtree of the second one. -/
theorem exists_steps : ∃ ch₀ ch₁ ch₂ ch₃ : Chain,
    (Chain.new network 10 .empty almostComplete .empty (some ⟨network, .nu6, 1, ∅, 10⟩) .zero :
      Validated _) = .ok ch₀ ∧
    ch₀.Step (.push withoutNotes) ch₁ ∧ ch₁.Step (.push withNote) ch₂ ∧ ch₂.Step (.fork 11) ch₃ ∧
    0 ∈ ch₂.inner.saplingSubtrees ∧ 0 ∈ ch₃.inner.saplingSubtrees ∧
    ∀ (b : ContextuallyVerifiedBlock) (k : Nat), ch₃.inner.blocks[k]? = some b → b = withoutNotes := by
  obtain ⟨L₁, L₂, L₃, hs₁, hs₂, hs₃, htip, hblocks⟩ := exists_lineages
  obtain ⟨ch₀, hnew, h₀, -⟩ := new_spec network (by decide : 10 ≤ Height.max) beforeNote
  obtain ⟨ch₁, hc₁, h₁, -⟩ := step_complete h₀ hs₁
  obtain ⟨ch₂, hc₂, h₂, hsub₂, -⟩ := step_complete h₁ hs₂
  obtain ⟨ch₃, hc₃, h₃, hsub₃, -⟩ := step_complete h₂ hs₃
  obtain ⟨root, hroot⟩ : ∃ root, completedBy L₁.tip.sapling withNote.block = some ⟨0, 12, root⟩ :=
    htip ▸ ⟨_, rfl⟩
  have hmem : 0 ∈ ch₂.inner.saplingSubtrees := by
    rw [hsub₂]
    simp [subtreesAfter, Snapshot.tree, hroot, insertSubtree]
  refine ⟨ch₀, ch₁, ch₂, ch₃, hnew, hc₁, hc₂, hc₃, hmem, by rw [hsub₃]; exact hmem, ?_⟩
  intro b k hb
  have hb := (h₃.inner.blocks.get _ _).1 hb
  rw [hblocks, List.map_singleton, Multiset.mem_coe, List.mem_singleton, Prod.mk.injEq] at hb
  exact hb.2

theorem subtrees_exact_one :
    ∃ ch₀ ch : Chain, Run Chain.Step ch₀ [.push withoutNotes, .push withNote] ch ∧
      0 ∈ ch.inner.saplingSubtrees ∧ SubtreesExact ch.inner .sapling := by
  obtain ⟨ch₀, ch₁, ch₂, -, hnew, hs₁, hs₂, -, hmem, -⟩ := exists_steps
  have hkeeps₁ : KeepsSubtrees ch₀ (.push withoutNotes) := by
    intro p
    cases p <;> decide
  have hkeeps₂ : KeepsSubtrees ch₁ (.push withNote) := by
    intro p
    cases p <;> decide
  exact ⟨ch₀, ch₂, .cons hs₁ (.cons hs₂ (.nil _)), hmem, (subtrees_exact collisionFree (by decide) hnew
    (.cons ⟨hs₁, hkeeps₁⟩ (.cons ⟨hs₂, hkeeps₂⟩ (.nil _))) (by decide)).1⟩

/-- After the fork the chain keeps a subtree that its only block, which has no notes, cannot
have completed. -/
theorem fork_keeps_stale_subtree :
    ∃ ch₀ ch : Chain,
      (Chain.new network 10 .empty almostComplete .empty (some ⟨network, .nu6, 1, ∅, 10⟩) .zero :
        Exec ValidateContextError _) = .ok ch₀ ∧
      Run Chain.Step ch₀ [.push withoutNotes, .push withNote, .fork 11] ch ∧ ¬ SubtreesExact ch.inner .sapling := by
  obtain ⟨ch₀, ch₁, ch₂, ch₃, hnew, hs₁, hs₂, hs₃, -, hmem, hblocks⟩ := exists_steps
  refine ⟨ch₀, ch₃, hnew, .cons hs₁ (.cons hs₂ (.cons hs₃ (.nil _))), ?_⟩
  intro hexact
  obtain ⟨data, hdata⟩ := KeyedMap.mem_iff_exists.1 hmem
  obtain ⟨b, tree, ⟨hb, -, hlow, hhigh⟩, -⟩ := (hexact 0 data).1 hdata
  obtain rfl := hblocks b b.height hb
  exact absurd (hhigh.trans_lt hlow) (lt_irrefl _)

end

end Zebra.Properties
