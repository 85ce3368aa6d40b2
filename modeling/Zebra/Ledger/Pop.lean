import Mathlib.Algebra.Order.BigOperators.Group.List
import Mathlib.Algebra.Order.Group.Nat
import Zebra.Ledger.Push

namespace Zebra.Ledger

open Lib Lib.Series KeyedMap Outcome

variable [ScriptParsing] [MerkleHashing] [ChainHistory] {ε : Type} {net : Network} {c : ChainInner} {L : Lineage net}
  {r : Record} {rs : List Record}

/-- A chain without the block of a record, with what is left of the other indexes. -/
def withoutBlock (c : ChainInner) (r : Record) (idx : TxIndexes) (sprout : SproutTrees) (sapling : TreeIndex .sapling)
    (orchard : TreeIndex .orchard) (history : HistoryTrees) (pools : ValueBalance .nonNegative) : ChainInner :=
  { c with
    toTxIndexes := idx
    blocks := c.blocks.erase r.block.height
    heightByHash := c.heightByHash.erase r.block.hash
    partialCumulativeWork := c.partialCumulativeWork - workOf r.block
    sprout, sapling, orchard
    historyTreesByHeight := history
    chainValuePools := pools
    blockInfoByHeight := c.blockInfoByHeight.erase r.block.height }

omit [ScriptParsing] in
theorem toList_blocks {L : Lineage net} {m : KeyedMap Nat ContextuallyVerifiedBlock}
    (hm : Indexes m ((L.blocks.map fun b => (b.height, b) : List _) : Multiset _)) :
    m.toList = L.blocks.map fun b => (b.height, b) := by
  refine hm.toList_eq (compare_lt_of_ascending ?_)
  rw [Ascending, List.pairwise_map, Lineage.blocks, List.pairwise_map]
  exact (linked_append.1 L.linked).2.ascending

namespace Represents

section

variable (h : Represents c L)
include h

theorem blocks_toList : c.blocks.toList = L.blocks.map fun b => (b.height, b) :=
  toList_blocks h.blocks

theorem map_snd_blocks : c.blocks.toList.map Prod.snd = L.blocks := by
  rw [h.blocks_toList, List.map_map]
  exact List.map_id _

theorem records_ne_nil {root : Nat} (hroot : (c.nonFinalizedRootHeight : Exec ε _) = .ok root) :
    L.records ≠ [] := by
  intro hnil
  rw [ChainInner.nonFinalizedRootHeight, h.blocks_toList, Lineage.blocks, hnil] at hroot
  exact absurd hroot (panic_ne_ok _ _)

theorem tipHeight (hr : L.records = rs ++ [r]) :
    (c.nonFinalizedTipHeight : Exec ε _) = .ok r.block.height := by
  rw [ChainInner.nonFinalizedTipHeight, ChainInner.maxBlockHeight, h.blocks_toList, Lineage.blocks_eq_dropTip hr]
  simp

theorem tipHash (hr : L.records = rs ++ [r]) :
    (c.nonFinalizedTipHash : Exec ε _) = .ok r.block.hash := by
  rw [ChainInner.nonFinalizedTipHash, h.blocks_toList, Lineage.blocks_eq_dropTip hr]
  simp

theorem rootHeight (hr : L.records = r :: rs) :
    (c.nonFinalizedRootHeight : Exec ε _) = .ok r.block.height := by
  rw [ChainInner.nonFinalizedRootHeight, h.blocks_toList, Lineage.blocks_eq_dropRoot hr]
  simp

theorem getElem?_blocks (hr : r ∈ L.records) : c.blocks[r.block.height]? = some r.block := by
  rw [h.blocks.get]
  exact Multiset.mem_coe.2 (List.mem_map.2 ⟨r.block, List.mem_map_of_mem hr, rfl⟩)

theorem workOf_eq (hr : r ∈ L.records) :
    CompactDifficulty.toWork r.block.block.header.difficultyThreshold = some (workOf r.block) := by
  obtain ⟨w, hw⟩ := Option.isSome_iff_exists.1 (h.validWork r.block (List.mem_map_of_mem hr))
  simp [workOf, hw]

theorem hash_mem (hr : r ∈ L.records) : r.block.hash ∈ c.heightByHash :=
  h.hash_mem_iff.2 (List.mem_map_of_mem (List.mem_map_of_mem hr))

theorem sub_work (hr : r ∈ L.records) :
    (PartialCumulativeWork.sub c.partialCumulativeWork (workOf r.block) : Exec ε _) =
      .ok (c.partialCumulativeWork - workOf r.block) := by
  have hle : workOf r.block ≤ c.partialCumulativeWork := by
    rw [h.work, totalWork]
    exact List.single_le_sum (by simp) _ (List.mem_map_of_mem (List.mem_map_of_mem hr))
  simp [PartialCumulativeWork.sub, hle]

end

end Represents

def RevertFits (net : Network) (bs : Blocks) (b : ContextuallyVerifiedBlock) : Prop :=
  BalancesFit (balance (blocksJournal net bs)) (undone (deltas (journal net b)))

instance (net : Network) (bs : Blocks) (b : ContextuallyVerifiedBlock) :
    Decidable (RevertFits net bs b) := inferInstanceAs (Decidable (BalancesFit _ _))

section

variable {L' : Lineage net} {idx : TxIndexes} {sprout : SproutTrees} {sapling : TreeIndex .sapling} {orchard : TreeIndex .orchard}
  {history : HistoryTrees}

theorem revertChainWith_eq (h : Represents c L) (hr : r ∈ L.records) {position : RevertPosition}
    (saplingSubtrees orchardSubtrees : Subtrees)
    (hsprout : (c.sprout.removeTreeAndAnchor position r.block.height
      ((c.blocks.erase r.block.height).toList.getLast?.map Prod.fst) : Exec ε _) = .ok sprout)
    (hsapling : (c.sapling.removeTreeAndAnchor position r.block.height
      ((c.blocks.erase r.block.height).toList.getLast?.map Prod.fst) : Exec ε _) = .ok sapling)
    (horchard : (c.orchard.removeTreeAndAnchor position r.block.height
      ((c.blocks.erase r.block.height).toList.getLast?.map Prod.fst) : Exec ε _) = .ok orchard)
    (hhistory : (HistoryTrees.remove c.historyTreesByHeight position r.block.height : Exec ε _) = .ok history)
    (hpools : ∀ c' : ChainInner, c'.chainValuePools = c.chainValuePools →
      (c'.revertValuePools r.block.chainValuePoolChange r.block.height position : Exec ε _) =
        .ok { c' with chainValuePools := L'.tip.pools, blockInfoByHeight := c'.blockInfoByHeight.erase r.block.height }) :
    ({ c with blocks := c.blocks.erase r.block.height, saplingSubtrees, orchardSubtrees }.revertChainWith net r.block position :
        Exec ε _) =
      eraseAll c.toTxIndexes (reverted net r.block) >>= fun idx => .ok (withoutBlock { c with saplingSubtrees, orchardSubtrees }
        r idx sprout sapling orchard history L'.tip.pools) := by
  simp only [ChainInner.revertChainWith, removePresent_of_mem (h.hash_mem hr), h.workOf_eq hr, h.sub_work hr,
    ChainInner.maxBlockHeight, hsprout, hsapling, horchard, hhistory, expect_some, ok_bind,
    revertTransactions_eq_eraseAll]
  congr 1
  funext idx
  exact hpools _ rfl

variable (h : Represents c L) (hperm : L.records.Perm (r :: L'.records))
include h hperm

theorem Represents.blocks_erase : Indexes (c.blocks.erase r.block.height)
    ((L'.blocks.map fun b => (b.height, b) : List _) : Multiset _) :=
  h.blocks.erase_of_perm ((hperm.map Record.block).map _)

theorem Represents.withoutBlock (hidx : Holds idx (blocksJournal net L'.blocks))
    (hsprout : TracksSprout sprout (L'.series Snapshot.sprout)) (hsapling : Tracks sapling (L'.series Snapshot.sapling))
    (horchard : Tracks orchard (L'.series Snapshot.orchard))
    (hhistory : Indexes history ((L'.series Snapshot.history : List _) : Multiset _))
    (saplingSubtrees orchardSubtrees : Subtrees) :
    Represents (Ledger.withoutBlock { c with saplingSubtrees, orchardSubtrees } r idx sprout sapling orchard history
      L'.tip.pools) L' := by
  have hblocks : L.blocks.Perm (r.block :: L'.blocks) := hperm.map Record.block
  have hwork : totalWork L.blocks = workOf r.block + totalWork L'.blocks := (hblocks.map workOf).sum_eq
  exact {
    blocks := h.blocks_erase hperm
    heightByHash := h.heightByHash.erase_of_perm (hblocks.map _)
    transactions := hidx
    sprout := hsprout
    sapling := hsapling
    orchard := horchard
    history := hhistory
    validWork := fun b hb => h.validWork b (hblocks.mem_iff.2 (List.mem_cons_of_mem _ hb))
    work := by
      rw [Ledger.withoutBlock, h.work, hwork, Nat.add_sub_cancel_left]
    workMax := by
      have := h.workMax
      omega
    pools := rfl
    info := h.info.erase_of_perm (hperm.map _) }

theorem eraseAll_reverted {α : Type} (f : TxIndexes → α) :
    ((eraseAll c.toTxIndexes (reverted net r.block) >>= fun idx => .ok (f idx) : Exec ε α).Succeeds ↔
      RevertFits net L.blocks r.block) ∧
    ∀ x, (eraseAll c.toTxIndexes (reverted net r.block) >>= fun idx => .ok (f idx) : Exec ε α) = .ok x →
      ∃ idx, Holds idx (blocksJournal net L'.blocks) ∧ f idx = x := by
  have hbs : blocksJournal net L.blocks =
      ((journal net r.block : List Entry) : Multiset Entry) + blocksJournal net L'.blocks :=
    ((hperm.map Record.block).map _).sum_eq
  have hidx := h.transactions
  rw [hbs, ← reverted_eq_journal] at hidx
  constructor
  · have hsucc := eraseAll_succeeds (ε := ε) hidx
    rw [deltas_reverted, reverted_eq_journal, ← hbs] at hsucc
    rw [bind_succeeds, RevertFits, ← hsucc]
    simp [Succeeds]
  · intro x hx
    obtain ⟨idx, he, hx⟩ := bind_eq_ok.1 hx
    exact ⟨idx, eraseAll_holds hidx he, Except.ok.inj hx⟩

end

theorem Lineage.perm_dropTip (hr : L.records = rs ++ [r]) : L.records.Perm (r :: L.dropTip.records) := by
  rw [Lineage.records_eq_dropTip hr]
  exact List.perm_append_singleton _ _

theorem Lineage.perm_dropRoot (hr : L.records = r :: rs) : L.records.Perm (r :: L.dropRoot.records) := by
  rw [Lineage.records_eq_dropRoot hr]

theorem revert_tip (h : Represents c L) (hr : L.records = rs ++ [r]) :
    ∃ sprout sapling orchard,
      TracksSprout sprout (L.dropTip.series Snapshot.sprout) ∧ Tracks sapling (L.dropTip.series Snapshot.sapling) ∧
      Tracks orchard (L.dropTip.series Snapshot.orchard) ∧
      ({ c with blocks := c.blocks.erase r.block.height }.revertChainWith net r.block .tip : Exec ε _) =
        eraseAll c.toTxIndexes (reverted net r.block) >>= fun idx => .ok (withoutBlock c r idx sprout sapling orchard
          (c.historyTreesByHeight.erase r.block.height) L.dropTip.tip.pools) := by
  have hlink := Lineage.linked_dropTip hr
  have htip : ∀ k, (c.blocks.erase r.block.height).toList.getLast?.map Prod.fst = some k → k ≤ r.block.height := by
    intro k hk
    rw [toList_blocks (h.blocks_erase (Lineage.perm_dropTip hr)), List.getLast?_map, Option.map_map,
      Option.map_eq_some_iff] at hk
    obtain ⟨b, hb, rfl⟩ := hk
    obtain ⟨r', hr', rfl⟩ := List.mem_map.1 (List.mem_of_getLast? hb)
    have := L.dropTip.linked.height_le r' (List.mem_append_right _ hr')
    have := hlink.1
    simp only [Function.comp_apply, Lineage.tipHeight, Lineage.all] at *
    omega
  obtain ⟨sprout, hsprout, hts⟩ := TracksSprout.removeTip (Lineage.series_eq_dropTip _ hr ▸ h.sprout) htip
  obtain ⟨sapling, hsapling, hta⟩ := Tracks.removeTip (Lineage.series_eq_dropTip _ hr ▸ h.sapling) htip
  obtain ⟨orchard, horchard, hto⟩ := Tracks.removeTip (Lineage.series_eq_dropTip _ hr ▸ h.orchard) htip
  have hhist : r.block.height ∈ c.historyTreesByHeight := by
    have hh := h.history
    rw [Lineage.series_eq_dropTip _ hr] at hh
    exact hh.unconcat.1
  refine ⟨sprout, sapling, orchard, hts, hta, hto, ?_⟩
  refine revertChainWith_eq h (by simp [hr]) _ _ hsprout hsapling horchard (removePresent_of_mem hhist _) ?_
  intro c' hc'
  have hp := ValueBalance.addChainValuePoolChange_neg hlink.2.2.1.pools
  have hpools : c'.chainValuePools = r.after.pools := hc'.trans (h.pools.trans (by rw [Lineage.tip_of_records hr]))
  simp [ChainInner.revertValuePools, hpools, hp, unwrap]

theorem popTip_spec {ch : Chain} (hnet : ch.network = net) (h : Represents ch.inner L) (hr : L.records = rs ++ [r])
    (hrs : rs ≠ []) :
    ((ch.popTip : Exec ε _).Succeeds ↔ RevertFits net L.blocks r.block) ∧
      ∀ ch', (ch.popTip : Exec ε _) = .ok ch' →
        Represents ch'.inner L.dropTip ∧ ch'.network = net ∧ ch'.lastForkHeight = ch.lastForkHeight ∧
        ch'.inner.saplingSubtrees = ch.inner.saplingSubtrees ∧
        ch'.inner.orchardSubtrees = ch.inner.orchardSubtrees := by
  subst hnet
  obtain ⟨sprout, sapling, orchard, hts, hta, hto, heq⟩ := revert_tip (ε := ε) h hr
  have hget : ch.inner.blocks[r.block.height]? = some r.block := h.getElem?_blocks (by simp [hr])
  have hempty : ({ ch.inner with blocks := ch.inner.blocks.erase r.block.height } : ChainInner).isEmpty = false := by
    rw [ChainInner.isEmpty, ← Std.ExtTreeMap.isEmpty_toList, toList_blocks (h.blocks_erase (Lineage.perm_dropTip hr))]
    simpa [Lineage.blocks, Lineage.dropTip, hr] using hrs
  let after (idx : TxIndexes) : Chain :=
    { ch with inner :=
        withoutBlock ch.inner r idx sprout sapling orchard (ch.inner.historyTreesByHeight.erase r.block.height) L.dropTip.tip.pools }
  have hpop : (ch.popTip : Exec ε _) =
      (eraseAll ch.inner.toTxIndexes (reverted ch.network r.block) >>= fun idx => .ok (after idx)) := by
    simp only [Chain.popTip, h.tipHeight hr, hget, expect_some, ok_bind, hempty, check,
      if_true, heq, bind_assoc, pure_eq_ok, after]
  obtain ⟨hsucc, hholds⟩ := eraseAll_reverted h (Lineage.perm_dropTip hr) after
  rw [hpop]
  refine ⟨hsucc, fun ch' hch' => ?_⟩
  obtain ⟨idx, hidx, rfl⟩ := hholds ch' hch'
  have hhistory := h.history
  rw [Lineage.series_eq_dropTip _ hr] at hhistory
  exact ⟨h.withoutBlock (Lineage.perm_dropTip hr) hidx hts hta hto hhistory.unconcat.2 _ _, rfl, rfl, rfl, rfl⟩

omit [ScriptParsing] in
theorem remains_dropRoot {p : Pool} (f : Snapshot → NoteCommitmentTree p) (hr : L.records = r :: rs) :
    Remains r.block.height (L.dropRoot.series f)
      (L.dropRoot.blocks.getLast?.map ContextuallyVerifiedBlock.height) := by
  have hlink := (linked_append.1 L.linked).2
  rw [hr] at hlink
  obtain ⟨hh, -, -, hlink⟩ := hlink
  cases rs with
  | nil =>
    have hs : L.dropRoot.series f = [] := by simp [Lineage.series, Lineage.kept, Lineage.dropRoot, hr]
    have hb : L.dropRoot.blocks = [] := by simp [Lineage.blocks, Lineage.dropRoot, hr]
    rw [hs, hb]
    exact .nothing
  | cons r₂ rs =>
    have hs : L.dropRoot.series f =
        (r₂.block.height, f r₂.after) :: rs.map fun r => (r.block.height, f r.after) := by
      simp [Lineage.series, Lineage.kept, Lineage.dropRoot, hr]
    have hb : L.dropRoot.blocks = (r₂ :: rs).map Record.block := by
      simp [Lineage.blocks, Lineage.dropRoot, hr]
    obtain ⟨rl, hrl⟩ := Option.ne_none_iff_exists'.1 (mt List.getLast?_eq_none_iff.1 (List.cons_ne_nil r₂ rs))
    rw [hs, hb, List.getLast?_map, hrl]
    have hle := hlink.height_le rl (List.mem_of_getLast? hrl)
    exact .next (by rw [hlink.1, hh]) (hh ▸ hlink.2.1) (hh ▸ hle.1)

omit [ScriptParsing] in
theorem getLast?_keptRoot {β : Type} (f : Snapshot → β) :
    ((L.keptRoot r).map fun x => (x.1, f x.2)).getLast? = some (r.block.height, f r.after) := by
  simp [Lineage.keptRoot]

omit [ScriptParsing] in
theorem keptRoot_le {β : Type} (f : Snapshot → β) (hr : L.records = r :: rs) :
    ∀ x ∈ (L.keptRoot r).map (fun x => (x.1, f x.2)), x.1 ≤ r.block.height := by
  intro x hx
  obtain ⟨y, hy, rfl⟩ := List.mem_map.1 hx
  exact Lineage.height_le_keptRoot hr y hy

omit [ScriptParsing] in
theorem lt_series_dropRoot {β : Type} (f : Snapshot → β) (hr : L.records = r :: rs) :
    ∀ x ∈ L.dropRoot.series f, r.block.height < x.1 := by
  intro x hx
  obtain ⟨y, hy, rfl⟩ := List.mem_map.1 hx
  exact Lineage.height_lt_dropRoot hr y hy

theorem Represents.treestate_root (h : Represents c L) (hr : L.records = r :: rs) :
    c.treestate r.block.height = some {
      sprout := r.after.sprout
      sapling := r.after.sapling
      orchard := r.after.orchard
      saplingSubtree := subtreeAt c.saplingSubtrees r.block.height
      orchardSubtree := subtreeAt c.orchardSubtrees r.block.height
      history := r.after.history } := by
  have hsprout := Tracks.tree (Lineage.series_eq_dropRoot Snapshot.sprout hr ▸ h.sprout.toTracks)
    (keptRoot_le _ hr) (lt_series_dropRoot _ hr)
  have hsapling := Tracks.tree (Lineage.series_eq_dropRoot Snapshot.sapling hr ▸ h.sapling)
    (keptRoot_le _ hr) (lt_series_dropRoot _ hr)
  have horchard := Tracks.tree (Lineage.series_eq_dropRoot Snapshot.orchard hr ▸ h.orchard)
    (keptRoot_le _ hr) (lt_series_dropRoot _ hr)
  rw [getLast?_keptRoot] at hsprout hsapling horchard
  have hhist : c.historyTreesByHeight[r.block.height]? = some r.after.history := by
    rw [h.history.get, Lineage.series_eq_dropRoot _ hr]
    exact Multiset.mem_coe.2 (List.mem_append_left _ (List.mem_of_getLast? (getLast?_keptRoot _)))
  simp [ChainInner.treestate, hsprout, hsapling, horchard, hhist]

omit [ScriptParsing] in
theorem indexes_filter_dropRoot {β : Type} (f : Snapshot → β) {m : KeyedMap Nat β}
    (hm : Indexes m ((L.series f : List _) : Multiset _)) (hr : L.records = r :: rs) :
    Indexes (m.filter fun h _ => r.block.height < h) ((L.dropRoot.series f : List _) : Multiset _) := by
  rw [Lineage.series_eq_dropRoot f hr] at hm
  have hfilter : (((L.keptRoot r).map (fun x => (x.1, f x.2)) ++ L.dropRoot.series f).filter
      fun x => r.block.height < x.1) = L.dropRoot.series f := by
    rw [List.filter_append, List.filter_eq_nil_iff.2, List.nil_append, List.filter_eq_self]
    · exact fun x hx => decide_eq_true (lt_series_dropRoot f hr x hx)
    · exact fun x hx => by simpa using keptRoot_le f hr x hx
  have := hm.filter fun h _ => decide (r.block.height < h)
  simpa only [Multiset.filter_coe, Bool.decide_eq_true, hfilter] using this

theorem revert_root (h : Represents c L) (hr : L.records = r :: rs) :
    ∃ sprout sapling orchard,
      TracksSprout sprout (L.dropRoot.series Snapshot.sprout) ∧ Tracks sapling (L.dropRoot.series Snapshot.sapling) ∧
      Tracks orchard (L.dropRoot.series Snapshot.orchard) ∧
      ∀ saplingSubtrees orchardSubtrees,
        ({ c with blocks := c.blocks.erase r.block.height, saplingSubtrees, orchardSubtrees }.revertChainWith net r.block .root :
            Exec ε _) =
          eraseAll c.toTxIndexes (reverted net r.block) >>= fun idx => .ok (withoutBlock
            { c with saplingSubtrees, orchardSubtrees } r idx sprout sapling orchard
            (c.historyTreesByHeight.filter fun h _ => r.block.height < h) L.dropRoot.tip.pools) := by
  have htip : (c.blocks.erase r.block.height).toList.getLast?.map Prod.fst =
      L.dropRoot.blocks.getLast?.map ContextuallyVerifiedBlock.height := by
    rw [toList_blocks (h.blocks_erase (Lineage.perm_dropRoot hr)), List.getLast?_map, Option.map_map]
    rfl
  obtain ⟨sprout, hsprout, hts⟩ := TracksSprout.removeRoot
    (Lineage.series_eq_dropRoot _ hr ▸ h.sprout) (keptRoot_le _ hr) (lt_series_dropRoot _ hr)
    (getLast?_keptRoot _) (htip ▸ remains_dropRoot Snapshot.sprout hr)
  obtain ⟨sapling, hsapling, hta⟩ := Tracks.removeRoot
    (Lineage.series_eq_dropRoot _ hr ▸ h.sapling) (keptRoot_le _ hr) (lt_series_dropRoot _ hr)
    (getLast?_keptRoot _) (htip ▸ remains_dropRoot Snapshot.sapling hr)
  obtain ⟨orchard, horchard, hto⟩ := Tracks.removeRoot
    (Lineage.series_eq_dropRoot _ hr ▸ h.orchard) (keptRoot_le _ hr) (lt_series_dropRoot _ hr)
    (getLast?_keptRoot _) (htip ▸ remains_dropRoot Snapshot.orchard hr)
  refine ⟨sprout, sapling, orchard, hts, hta, hto, fun saplingSubtrees orchardSubtrees => ?_⟩
  refine revertChainWith_eq h (by simp [hr]) _ _ hsprout hsapling horchard rfl ?_
  intro c' hc'
  rw [Lineage.tip_dropRoot, ← h.pools, ← hc']
  rfl

theorem popRoot_spec {ch : Chain} (hnet : ch.network = net) (h : Represents ch.inner L)
    (hr : L.records = r :: rs) :
    ((ch.popRoot : Exec ε _).Succeeds ↔ RevertFits net L.blocks r.block) ∧
      ∀ x ch', (ch.popRoot : Exec ε _) = .ok (x, ch') →
        x.1 = r.block ∧ ch.inner.treestate r.block.height = some x.2 ∧
        Represents ch'.inner L.dropRoot ∧ ch'.network = net ∧ ch'.lastForkHeight = ch.lastForkHeight ∧
        ch'.inner.saplingSubtrees = subtreesAfterRoot ch.inner.saplingSubtrees r.block.height ∧
        ch'.inner.orchardSubtrees = subtreesAfterRoot ch.inner.orchardSubtrees r.block.height := by
  subst hnet
  obtain ⟨sprout, sapling, orchard, hts, hta, hto, heq⟩ := revert_root (ε := ε) h hr
  have hget : ch.inner.blocks[r.block.height]? = some r.block := h.getElem?_blocks (by simp [hr])
  obtain ⟨treestate, htreestate, hsub, hsub'⟩ : ∃ treestate, ch.inner.treestate r.block.height = some treestate ∧
      treestate.saplingSubtree = subtreeAt ch.inner.saplingSubtrees r.block.height ∧
      treestate.orchardSubtree = subtreeAt ch.inner.orchardSubtrees r.block.height :=
    ⟨_, h.treestate_root hr, rfl, rfl⟩
  let rest : ChainInner := { ch.inner with
    saplingSubtrees := subtreesAfterRoot ch.inner.saplingSubtrees r.block.height
    orchardSubtrees := subtreesAfterRoot ch.inner.orchardSubtrees r.block.height }
  let history := ch.inner.historyTreesByHeight.filter fun h _ => r.block.height < h
  let after (idx : TxIndexes) : Chain :=
    { ch with inner := withoutBlock rest r idx sprout sapling orchard history L.dropRoot.tip.pools }
  have hpop : (ch.popRoot : Exec ε _) = (eraseAll ch.inner.toTxIndexes (reverted ch.network r.block) >>= fun idx =>
      .ok ((r.block, treestate), after idx)) := by
    simp only [Chain.popRoot, h.rootHeight hr, hget, htreestate, hsub, hsub', expect_some, ok_bind,
      heq, bind_assoc, pure_eq_ok, subtreesAfterRoot, after, rest, history]
  obtain ⟨hsucc, hholds⟩ := eraseAll_reverted h (Lineage.perm_dropRoot hr) fun idx =>
    ((r.block, treestate), after idx)
  rw [hpop]
  refine ⟨hsucc, fun x ch' hch' => ?_⟩
  obtain ⟨idx, hidx, heq⟩ := hholds _ hch'
  obtain ⟨rfl, rfl⟩ := Prod.mk.inj heq
  exact ⟨rfl, htreestate, h.withoutBlock (Lineage.perm_dropRoot hr) hidx hts hta hto
    (indexes_filter_dropRoot _ h.history hr) _ _, rfl, rfl, rfl, rfl⟩

end Zebra.Ledger
