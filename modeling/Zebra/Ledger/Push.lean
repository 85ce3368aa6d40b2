import Zebra.Ledger.Subtrees

namespace Zebra.Ledger

open Lib Lib.Series Outcome

section

variable {ε α β : Type}

theorem joinScope_eq_ok {x : Exec ε α} {y : Exec ε β} {a : α} {b : β} :
    joinScope x y = .ok (a, b) ↔ x = .ok a ∧ y = .ok b := by
  rcases x with (_ | _) | _ <;> rcases y with (_ | _) | _ <;> simp [joinScope]

end

section

variable [MerkleHashing]

theorem map_fst_updatePool {p : Pool} (height : Nat) (b : Block) (tree : NoteCommitmentTree p)
    (subtree : Option NoteCommitmentSubtree) :
    Prod.fst <$> NoteCommitmentTrees.updatePool height (b.noteCommitments p) tree subtree = treeAfter tree b := by
  unfold NoteCommitmentTrees.updatePool treeAfter
  split
  · rename_i hc
    rw [hc]
    rfl
  · cases tree.appendAll none (b.noteCommitments p) <;> rfl

theorem updateTreesParallel_eq_ok {b : Block} {t t' : NoteCommitmentTrees} :
    t.updateTreesParallel b = .ok t' ↔ ∃ height, b.coinbaseHeight = some height ∧
      treeAfter t.sprout b = .ok t'.sprout ∧
      NoteCommitmentTrees.updatePool height (b.noteCommitments .sapling) t.sapling t.saplingSubtree =
        .ok (t'.sapling, t'.saplingSubtree) ∧
      NoteCommitmentTrees.updatePool height (b.noteCommitments .orchard) t.orchard t.orchardSubtree =
        .ok (t'.orchard, t'.orchardSubtree) := by
  obtain ⟨sp, sa, ss, o, os⟩ := t'
  simp only [NoteCommitmentTrees.updateTreesParallel, bind_eq_ok, expect_eq_ok, lift_eq_ok,
    Prod.exists, pure_eq_ok, Except.ok.injEq, NoteCommitmentTrees.mk.injEq]
  constructor
  · rintro ⟨height, hh, _, x, h₁, _, _, h₂, _, _, h₃, rfl, rfl, rfl, rfl, rfl⟩
    refine ⟨height, hh, ?_, h₂, h₃⟩
    rw [← map_fst_updatePool height b t.sprout none, h₁]
    rfl
  · rintro ⟨height, hh, h₁, h₂, h₃⟩
    rw [← map_fst_updatePool height b t.sprout none, map_fst_eq_ok] at h₁
    obtain ⟨x, h₁⟩ := h₁
    exact ⟨height, hh, _, x, h₁, _, _, h₂, _, _, h₃, rfl, rfl, rfl, rfl, rfl⟩

end

variable [ScriptParsing] {net : Network} {c c' : ChainInner} {b : ContextuallyVerifiedBlock}

theorem updateExceptTrees_eq_ok :
    c.updateChainTipWithBlockExceptTrees net b = .ok c' ↔
      b.hash ∉ c.heightByHash ∧ ∃ work, CompactDifficulty.toWork b.block.header.difficultyThreshold = some work ∧
      c.partialCumulativeWork + work ≤ u128Max ∧
      ∃ idx, writeAll c.toTxIndexes (journal net b) = .ok idx ∧
      ∃ pools, c.chainValuePools.addChainValuePoolChange b.chainValuePoolChange = .ok pools ∧
      c' = { c with
        toTxIndexes := idx
        heightByHash := c.heightByHash.insert b.hash b.height
        partialCumulativeWork := c.partialCumulativeWork + work
        chainValuePools := pools
        blockInfoByHeight := c.blockInfoByHeight.insert b.height ⟨pools, b.block.serializedSize % 2 ^ 32⟩ } := by
  have hpools : ∀ c : ChainInner, c.updateValuePools b.chainValuePoolChange b.height b.block.serializedSize = .ok c' ↔
      ∃ pools, c.chainValuePools.addChainValuePoolChange b.chainValuePoolChange = .ok pools ∧
      c' = { c with
        chainValuePools := pools
        blockInfoByHeight := c.blockInfoByHeight.insert b.height ⟨pools, b.block.serializedSize % 2 ^ 32⟩ } := by
    intro c
    unfold ChainInner.updateValuePools
    split
    · rename_i pools hp
      simp [hp, eq_comm]
    · rename_i e hp
      simp [hp]
  simp only [ChainInner.updateChainTipWithBlockExceptTrees, bind_eq_ok, KeyedMap.insertNew_eq_ok,
    expect_eq_ok, PartialCumulativeWork.add_eq_ok, updateTransactions_eq_writeAll, hpools]
  constructor
  · rintro ⟨_, ⟨hh, rfl⟩, work, hw, _, ⟨hmax, rfl⟩, idx, hidx, pools, hp, rfl⟩
    exact ⟨hh, work, hw, hmax, idx, hidx, pools, hp, rfl⟩
  · rintro ⟨hh, work, hw, hmax, idx, hidx, pools, hp, rfl⟩
    exact ⟨_, ⟨hh, rfl⟩, work, hw, _, ⟨hmax, rfl⟩, idx, hidx, pools, hp, rfl⟩

variable [MerkleHashing] [ChainHistory] {L : Lineage net}

namespace Represents

theorem historyForTip {ε : Type} (h : Represents c L) (hL : L.Live) :
    (HistoryTrees.forTip c.historyTreesByHeight : Exec ε _) = .ok L.tip.history := by
  rw [HistoryTrees.forTip, h.history.toList_eq (compare_lt_of_ascending (L.ascending_series _)),
    L.getLast?_series _ hL]
  rfl

omit [ScriptParsing] in
theorem height_not_mem {β : Type} {f : Snapshot → β} {m : KeyedMap Nat β}
    (hm : KeyedMap.Indexes m ((L.series f : List _) : Multiset _)) (hL : L.Live) : L.tipHeight + 1 ∉ m := by
  rw [hm.mem_iff, Multiset.map_coe, Multiset.mem_coe]
  intro hmem
  obtain ⟨x, hx, hxh⟩ := List.mem_map.1 hmem
  have hle : x.1 ≤ L.tipHeight := by
    obtain ⟨l, hl⟩ := List.getLast?_eq_some_iff.1 (L.getLast?_series f hL)
    have hasc := L.ascending_series f
    rw [hl] at hx hasc
    rcases List.mem_append.1 hx with hx | hx
    · exact ((List.pairwise_append.1 hasc).2.2 x hx _ (List.mem_singleton_self _)).le
    · rw [List.mem_singleton.1 hx]
  omega

end Represents

def tipTrees (c : ChainInner) (s : Snapshot) : NoteCommitmentTrees where
  sprout := s.sprout
  sapling := s.sapling
  saplingSubtree := c.saplingSubtreeForTip
  orchard := s.orchard
  orchardSubtree := c.orchardSubtreeForTip

theorem Represents.noteCommitmentTreesForTip {ε : Type} (h : Represents c L) (hL : L.Live) :
    (c.noteCommitmentTreesForTip : Exec ε _) = .ok (tipTrees c L.tip) := by
  simp only [ChainInner.noteCommitmentTreesForTip, h.sprout.treeForTip (L.getLast?_series _ hL),
    h.sapling.treeForTip (L.getLast?_series _ hL), h.orchard.treeForTip (L.getLast?_series _ hL), ok_bind]
  rfl

theorem update_of_trees (h : Represents c L) (hL : L.Live) (hh : b.height = L.tipHeight + 1)
    (hmax : L.tipHeight + 1 ≤ Height.max) {nct : NoteCommitmentTrees} {c₁ : ChainInner}
    (hnct : (tipTrees c L.tip).updateTreesParallel b.block = .ok nct)
    (hc₁ : c.updateChainTipWithBlockExceptTrees net b = .ok c₁) :
    ∃ sprout sapling orchard,
      TracksSprout sprout (L.series Snapshot.sprout ++ [(L.tipHeight + 1, settleTree L.tip.sprout nct.sprout)]) ∧
      Tracks sapling (L.series Snapshot.sapling ++ [(L.tipHeight + 1, settleTree L.tip.sapling nct.sapling)]) ∧
      Tracks orchard (L.series Snapshot.orchard ++ [(L.tipHeight + 1, settleTree L.tip.orchard nct.orchard)]) ∧
      c.updateChainTipWithBlockParallel net b =
        mapErr .historyTreeError (L.tip.history.push net b.block nct.sapling.root nct.orchard.root) >>=
        fun history => .ok { c₁ with
          sprout, sapling, orchard
          historyTreesByHeight := c.historyTreesByHeight.insert b.height history
          saplingSubtrees := insertSubtree c.saplingSubtrees nct.saplingSubtree
          orchardSubtrees := insertSubtree c.orchardSubtrees nct.orchardSubtree } := by
  obtain ⟨sprout, hsprout, hts⟩ := h.sprout.addNext (ε := ValidateContextError) nct.sprout
    (L.getLast?_series _ hL) hmax
  obtain ⟨sapling, hsapling, hta⟩ := h.sapling.addNext (ε := ValidateContextError) nct.sapling
    (L.getLast?_series _ hL) hmax
  obtain ⟨orchard, horchard, hto⟩ := h.orchard.addNext (ε := ValidateContextError) nct.orchard
    (L.getLast?_series _ hL) hmax
  refine ⟨sprout, sapling, orchard, hts, hta, hto, ?_⟩
  have hframe : c₁.sprout = c.sprout ∧ c₁.sapling = c.sapling ∧ c₁.orchard = c.orchard ∧
      c₁.historyTreesByHeight = c.historyTreesByHeight ∧ c₁.saplingSubtrees = c.saplingSubtrees ∧
      c₁.orchardSubtrees = c.orchardSubtrees := by
    obtain ⟨-, _, -, -, _, -, _, -, rfl⟩ := updateExceptTrees_eq_ok.1 hc₁
    exact ⟨rfl, rfl, rfl, rfl, rfl, rfl⟩
  obtain ⟨fs, fa, fo, fh, fas, fos⟩ := hframe
  have hjoin := joinScope_eq_ok.2 ⟨mapErr_eq_ok (f := ValidateContextError.noteCommitmentTreeError).2 hnct, hc₁⟩
  have hsaTip : (sapling.treeForTip : Validated _) = .ok (settleTree L.tip.sapling nct.sapling) :=
    hta.treeForTip List.getLast?_concat
  have horTip : (orchard.treeForTip : Validated _) = .ok (settleTree L.tip.orchard nct.orchard) :=
    hto.treeForTip List.getLast?_concat
  have hadd : ∀ tree, (HistoryTrees.add c.historyTreesByHeight (L.tipHeight + 1) tree : Validated _) =
      .ok (c.historyTreesByHeight.insert (L.tipHeight + 1) tree) :=
    fun tree => KeyedMap.insertNew_of_not_mem (Represents.height_not_mem h.history hL) _
  simp only [ChainInner.updateChainTipWithBlockParallel, h.noteCommitmentTreesForTip hL, hjoin, ok_bind, hh,
    fs, fa, fo, fh, fas, fos, hsprout, hsapling, horchard, hsaTip, horTip, h.historyForTip hL, root_settleTree, hadd,
    pure_eq_ok]

/-- When a block can be pushed onto a chain with history `L`, and what holds after it. -/
structure Pushable (L : Lineage net) (b : ContextuallyVerifiedBlock) (s' : Snapshot) : Prop where
  next : L.tip.Next net b s'
  hash : b.hash ∉ L.blocks.map ContextuallyVerifiedBlock.hash
  validWork : (CompactDifficulty.toWork b.block.header.difficultyThreshold).isSome
  workMax : totalWork L.blocks + workOf b ≤ u128Max
  sound : ∀ e ∈ journal net b, e.Sound
  distinct : ((((journal net b : List Entry) : Multiset Entry) + blocksJournal net L.blocks).map Entry.key).Nodup
  fits : BalancesFit (balance (blocksJournal net L.blocks)) (deltas (journal net b))

omit [MerkleHashing] [ChainHistory] in
theorem blocksJournal_concat (bs : Blocks) (b : ContextuallyVerifiedBlock) :
    blocksJournal net (bs ++ [b]) = (journal net b : List Entry) + blocksJournal net bs := by
  simp [blocksJournal, add_comm]

omit [ScriptParsing] [MerkleHashing] [ChainHistory] in
theorem totalWork_concat (bs : Blocks) (b : ContextuallyVerifiedBlock) :
    totalWork (bs ++ [b]) = totalWork bs + workOf b := by
  simp [totalWork]

theorem Represents.hash_mem_iff (h : Represents c L) {hash : BlockHash} :
    hash ∈ c.heightByHash ↔ hash ∈ L.blocks.map ContextuallyVerifiedBlock.hash := by
  rw [h.heightByHash.mem_iff, Multiset.map_coe, Multiset.mem_coe, List.map_map]
  rfl

theorem Represents.block_height_not_mem (h : Represents c L) : L.tipHeight + 1 ∉ c.blocks := by
  rw [h.blocks.mem_iff, Multiset.map_coe, Multiset.mem_coe, List.map_map]
  intro hmem
  obtain ⟨b, hb, hbh⟩ := List.mem_map.1 hmem
  obtain ⟨r, hr, rfl⟩ := List.mem_map.1 hb
  have := L.linked.height_le r (List.mem_append_right _ hr)
  simp only [Function.comp_apply, Lineage.tipHeight, Lineage.all] at hbh
  omega

theorem Represents.extend (h : Represents c L) (hh : b.height = L.tipHeight + 1)
    (hmax : L.tipHeight + 1 ≤ Height.max) (hL : L.Live) {s' : Snapshot} (hp : Pushable L b s') {idx : TxIndexes}
    (hidx : writeAll c.toTxIndexes (journal net b) = .ok idx) {sprout : SproutTrees} {sapling : TreeIndex .sapling}
    {orchard : TreeIndex .orchard} (saplingSubtrees orchardSubtrees : Subtrees)
    (hsprout : TracksSprout sprout (L.series Snapshot.sprout ++ [(L.tipHeight + 1, s'.sprout)]))
    (hsapling : Tracks sapling (L.series Snapshot.sapling ++ [(L.tipHeight + 1, s'.sapling)]))
    (horchard : Tracks orchard (L.series Snapshot.orchard ++ [(L.tipHeight + 1, s'.orchard)])) :
    Represents
      { toTxIndexes := idx
        blocks := c.blocks.insert b.height b
        heightByHash := c.heightByHash.insert b.hash b.height
        sprout, sapling, saplingSubtrees, orchard, orchardSubtrees
        historyTreesByHeight := c.historyTreesByHeight.insert b.height s'.history
        partialCumulativeWork := c.partialCumulativeWork + workOf b
        chainValuePools := s'.pools
        blockInfoByHeight := c.blockInfoByHeight.insert b.height ⟨s'.pools, b.block.serializedSize % 2 ^ 32⟩ }
      (L.extend ⟨b, s'⟩ hh hmax hp.next) := by
  have hblocks : (L.extend ⟨b, s'⟩ hh hmax hp.next).blocks = L.blocks ++ [b] := L.blocks_extend
  have hinfo : b.height ∉ c.blockInfoByHeight := by
    rw [h.info.mem_iff, hh]
    have := h.block_height_not_mem
    rw [h.blocks.mem_iff] at this
    simpa [Lineage.blocks] using this
  exact {
    blocks := by
      rw [hblocks, List.map_append]
      exact h.blocks.concat (hh ▸ h.block_height_not_mem)
    heightByHash := by
      rw [hblocks, List.map_append]
      exact h.heightByHash.concat (mt h.hash_mem_iff.1 hp.hash)
    transactions := by
      rw [hblocks, blocksJournal_concat]
      exact writeAll_holds h.transactions hidx
    sprout := by rw [Lineage.series_extend]; exact hsprout
    sapling := by rw [Lineage.series_extend]; exact hsapling
    orchard := by rw [Lineage.series_extend]; exact horchard
    history := by
      rw [Lineage.series_extend, ← hh]
      exact h.history.concat (hh ▸ height_not_mem h.history hL)
    validWork := by
      rw [hblocks]
      simpa [or_imp, forall_and] using ⟨h.validWork, hp.validWork⟩
    work := by rw [hblocks, totalWork_concat, ← h.work]
    workMax := by rw [hblocks, totalWork_concat]; exact hp.workMax
    pools := by rw [Lineage.tip_extend]
    info := by
      rw [Lineage.extend, List.map_append]
      exact h.info.concat hinfo }

theorem update_represents (h : Represents c L) (hL : L.Live) (hh : b.height = L.tipHeight + 1)
    (hmax : L.tipHeight + 1 ≤ Height.max) (hcb : b.block.coinbaseHeight = some b.height)
    (hu : c.updateChainTipWithBlockParallel net b = .ok c') :
    (∃ s', ∃ hp : Pushable L b s',
      Represents { c' with blocks := c'.blocks.insert b.height b } (L.extend ⟨b, s'⟩ hh hmax hp.next)) ∧
      c'.saplingSubtrees = insertSubtree c.saplingSubtrees (completedBy L.tip.sapling b.block) ∧
      c'.orchardSubtrees = insertSubtree c.orchardSubtrees (completedBy L.tip.orchard b.block) := by
  have hu' := hu
  simp only [ChainInner.updateChainTipWithBlockParallel, h.noteCommitmentTreesForTip hL, ok_bind,
    bind_eq_ok] at hu'
  obtain ⟨⟨nct, c₁⟩, hjoin, -⟩ := hu'
  obtain ⟨hnct, hc₁⟩ := joinScope_eq_ok.1 hjoin
  rw [mapErr_eq_ok] at hnct
  obtain ⟨sprout, sapling, orchard, hts, hta, hto, heq⟩ := update_of_trees h hL hh hmax hnct hc₁
  rw [heq, bind_eq_ok] at hu
  obtain ⟨history, hhist, hc'⟩ := hu
  rw [mapErr_eq_ok] at hhist
  obtain ⟨hhash, work, hwork, hwmax, idx, hidx, pools, hpools, rfl⟩ := updateExceptTrees_eq_ok.1 hc₁
  obtain ⟨height, hcb', hsp, hsa, hor⟩ := updateTreesParallel_eq_ok.1 hnct
  have hsa' := (map_fst_updatePool _ _ _ _).symm.trans (map_fst_eq_ok.2 ⟨_, hsa⟩)
  have hor' := (map_fst_updatePool _ _ _ _).symm.trans (map_fst_eq_ok.2 ⟨_, hor⟩)
  have hwo : workOf b = work := by simp [workOf, hwork]
  obtain ⟨hsound, hdist, hfits⟩ := (writeAll_succeeds h.transactions).1 ⟨idx, hidx⟩
  let s' : Snapshot := ⟨settleTree L.tip.sprout nct.sprout, settleTree L.tip.sapling nct.sapling,
    settleTree L.tip.orchard nct.orchard, history, pools⟩
  have hp : Pushable L b s' := {
    next := {
      coinbase := hcb
      sprout := ⟨_, hsp, rfl⟩
      sapling := ⟨_, hsa', rfl⟩
      orchard := ⟨_, hor', rfl⟩
      history := by rw [root_settleTree, root_settleTree]; exact hhist
      pools := h.pools ▸ hpools }
    hash := mt h.hash_mem_iff.2 hhash
    validWork := by simp [hwork]
    workMax := by rw [hwo, ← h.work]; exact hwmax
    sound := hsound
    distinct := hdist
    fits := hfits }
  have hr := h.extend hh hmax hL hp hidx (insertSubtree c.saplingSubtrees nct.saplingSubtree)
    (insertSubtree c.orchardSubtrees nct.orchardSubtree) hts hta hto
  rw [hwo] at hr
  rw [Except.ok.injEq] at hc'
  subst hc'
  exact ⟨⟨s', hp, hr⟩, insertSubtree_updatePool hcb' hsa, insertSubtree_updatePool hcb' hor⟩

theorem updateExceptTrees_of_pushable (h : Represents c L) {s' : Snapshot} (hp : Pushable L b s') :
    ∃ c₁, c.updateChainTipWithBlockExceptTrees net b = .ok c₁ := by
  obtain ⟨work, hwork⟩ := Option.isSome_iff_exists.1 hp.validWork
  have hwo : workOf b = work := by simp [workOf, hwork]
  obtain ⟨idx, hidx⟩ := (writeAll_succeeds h.transactions).2 ⟨hp.sound, hp.distinct, hp.fits⟩
  have hmax : c.partialCumulativeWork + work ≤ u128Max := by
    rw [h.work, ← hwo]
    exact hp.workMax
  exact ⟨_, updateExceptTrees_eq_ok.2 ⟨mt h.hash_mem_iff.1 hp.hash, work, hwork, hmax, idx, hidx, s'.pools,
    h.pools ▸ hp.next.pools, rfl⟩⟩

omit [ScriptParsing] in
theorem updateTreesParallel_of_next {s s' : Snapshot} (hn : s.Next net b s') (c : ChainInner) :
    ∃ nct, (tipTrees c s).updateTreesParallel b.block = .ok nct ∧
      s'.sapling.root = nct.sapling.root ∧ s'.orchard.root = nct.orchard.root := by
  obtain ⟨sprout, hsp, -⟩ := hn.sprout
  obtain ⟨sapling, hsa, hsar⟩ := hn.sapling
  obtain ⟨orchard, hor, horr⟩ := hn.orchard
  obtain ⟨saplingSubtree, hsas⟩ := map_fst_eq_ok.1 ((map_fst_updatePool b.height _ _ c.saplingSubtreeForTip).trans hsa)
  obtain ⟨orchardSubtree, hors⟩ := map_fst_eq_ok.1 ((map_fst_updatePool b.height _ _ c.orchardSubtreeForTip).trans hor)
  refine ⟨⟨sprout, sapling, saplingSubtree, orchard, orchardSubtree⟩,
    updateTreesParallel_eq_ok.2 ⟨b.height, hn.coinbase, hsp, hsas, hors⟩, ?_, ?_⟩
  · rw [hsar, root_settleTree]
  · rw [horr, root_settleTree]

theorem update_of_pushable (h : Represents c L) (hL : L.Live) (hh : b.height = L.tipHeight + 1)
    (hmax : L.tipHeight + 1 ≤ Height.max) {s' : Snapshot} (hp : Pushable L b s') :
    ∃ c', c.updateChainTipWithBlockParallel net b = .ok c' := by
  obtain ⟨c₁, hc₁⟩ := updateExceptTrees_of_pushable h hp
  obtain ⟨nct, hnct, hsa, hor⟩ := updateTreesParallel_of_next hp.next c
  obtain ⟨sprout, sapling, orchard, -, -, -, heq⟩ := update_of_trees h hL hh hmax hnct hc₁
  rw [heq, ← hsa, ← hor, hp.next.history]
  exact ⟨_, rfl⟩

end Zebra.Ledger
