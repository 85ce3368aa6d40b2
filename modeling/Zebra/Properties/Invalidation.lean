import Zebra.Ledger.Descends
import Zebra.Properties.NodeSample

namespace Zebra.Properties

open Lib Lib.Transition Ledger

/-- No chain keeps a descendant of the block, no other block is lost, and every lost block is
recorded. -/
structure InvalidationComplete (s : NonFinalizedState) (hash : BlockHash) (s' : NonFinalizedState) : Prop where
  removed : ∀ c ∈ s'.chainSet, ∀ x, Descends s hash x → x ∉ c.inner.heightByHash
  kept : ∀ b ∈ allBlocks s, ¬ Descends s hash b.hash → ∃ c ∈ s'.chainSet, b.hash ∈ c.inner.heightByHash
  recorded : ∀ b ∈ allBlocks s, (∀ c ∈ s'.chainSet, b.hash ∉ c.inner.heightByHash) →
    ∃ e ∈ s'.invalidatedBlocks, ∃ y ∈ e.2, y.hash = b.hash

/-- The records that stay when a branch is recorded under `height`: that height's record is
replaced, and the oldest one makes room for a new height. -/
def survivingRecords (s : NonFinalizedState) (height : Nat) : List (Nat × Blocks) :=
  if height ∈ s.invalidatedBlocks.map Prod.fst then s.invalidatedBlocks.filter fun e => e.1 ≠ height
  else s.invalidatedBlocks.drop (s.invalidatedBlocks.length + 1 - maxInvalidatedBlocks)

/-- The best chain that contains the block also contains its descendants, unless they are in
a record that stays. -/
def DescendantsOnBest (s : NonFinalizedState) (hash : BlockHash) : Prop :=
  ∀ c ∈ s.findContaining hash, ∀ height, c.inner.heightByHash[hash]? = some height →
    ∀ b ∈ allBlocks s, Descends s hash b.hash →
      b.hash ∈ c.inner.heightByHash ∨ ∃ e ∈ survivingRecords s height, ∃ y ∈ e.2, y.hash = b.hash

theorem mem_recorded_iff {s : NonFinalizedState} {height : Nat} {bs : Blocks}
    (hlen : s.invalidatedBlocks.length ≤ maxInvalidatedBlocks) {e : Nat × Blocks} :
    e ∈ (IndexMap.insert s.invalidatedBlocks height bs).drop
        ((IndexMap.insert s.invalidatedBlocks height bs).length - maxInvalidatedBlocks) ↔
      e = (height, bs) ∨ e ∈ survivingRecords s height := by
  unfold survivingRecords
  split
  · rename_i hk
    have hdrop : (IndexMap.insert s.invalidatedBlocks height bs).length - maxInvalidatedBlocks = 0 := by
      rw [IndexMap.insert, if_pos hk, List.length_map]
      omega
    rw [hdrop, List.drop_zero, List.mem_filter]
    refine ⟨fun h => ?_, ?_⟩
    · simpa using IndexMap.mem_insert h
    · rintro (rfl | ⟨he, hne⟩)
      · exact IndexMap.self_mem_insert
      · exact IndexMap.mem_insert_of_ne he (by simpa using hne)
  · rename_i hk
    rw [IndexMap.insert, if_neg hk, List.length_append, List.length_singleton,
      List.drop_append_of_le_length (by simp [maxInvalidatedBlocks]), List.mem_append, List.mem_singleton, or_comm]

section

variable [ScriptParsing] [MerkleHashing] [ChainHistory] [BlockHashing] {net : Network} {tip : Nat × BlockHash}
  {s s' : NonFinalizedState} {hash hash' : BlockHash}

/-- `c'` is the chain `c` of the state without the block `b` and those above it. -/
structure Cut (net : Network) (tip : Nat × BlockHash) (s : NonFinalizedState) (c c' : Chain)
    (b : ContextuallyVerifiedBlock) (removed : Blocks) : Prop where
  known : Known tip.2 tip.1
  chains : ∀ d ∈ s.chainSet, Rooted net tip d
  mem : c ∈ s.chainSet
  rooted : Rooted net tip c'
  blocks : blocksOf c = blocksOf c' ++ b :: removed

namespace Cut

variable {c c' d : Chain} {b y : ContextuallyVerifiedBlock} {removed : Blocks} {x : BlockHash}

section

variable (h : Cut net tip s c c' b removed)
include h

theorem length_lt : (blocksOf c').length < (blocksOf c).length := by
  simp [h.blocks]

theorem hash_getElem :
    ((blocksOf c).get ⟨(blocksOf c').length, h.length_lt⟩).hash = b.hash := by
  simp [h.blocks]

theorem mem_allBlocks : b.hash ∈ (allBlocks s).map (·.hash) :=
  List.mem_map_of_mem (Ledger.mem_allBlocks.2 ⟨c, h.mem, by simp [h.blocks]⟩)

theorem not_mem : b.hash ∉ c'.inner.heightByHash := by
  rw [h.rooted.mem_iff]
  have hn := (h.chains c h.mem).nodup
  rw [h.blocks, List.map_append, List.nodup_append] at hn
  exact fun hm => hn.2.2 _ hm b.hash (by simp) rfl

end

theorem not_mem_of_descends (hdet : HashDetermines) (h : Cut net tip s c c' b removed)
    (hd : (d = c' ∨ d ∈ s.chainSet) ∧ b.hash ∉ d.inner.heightByHash) (hx : Descends s b.hash x) :
    x ∉ d.inner.heightByHash := by
  obtain ⟨rfl | hd, hnot⟩ := hd
  · intro hxd
    obtain ⟨y, hy, rfl⟩ := List.mem_map.1 (h.rooted.mem_iff.1 hxd)
    obtain ⟨i, hi, rfl⟩ := List.getElem_of_mem hy
    have hi' : i < (blocksOf c).length := hi.trans h.length_lt
    have hget : (blocksOf c)[i] = (blocksOf d)[i] := by simp [h.blocks, hi]
    obtain ⟨j, hj, hji, hjh⟩ := (descends_iff hdet h.known h.chains h.mem_allBlocks h.mem hi').1 (hget ▸ hx)
    have := (h.chains c h.mem).index_eq hdet (h.chains c h.mem) hj h.length_lt (hjh.trans h.hash_getElem.symm)
    omega
  · intro hxd
    obtain ⟨y, hy, rfl⟩ := List.mem_map.1 ((h.chains d hd).mem_iff.1 hxd)
    obtain ⟨i, hi, rfl⟩ := List.getElem_of_mem hy
    obtain ⟨j, hj, -, hjh⟩ := (descends_iff hdet h.known h.chains h.mem_allBlocks hd hi).1 hx
    exact hnot ((h.chains d hd).mem_iff.2 (List.mem_map.2 ⟨_, List.getElem_mem hj, hjh⟩))

/-- Every other block is in a remaining chain: the chains with the block share those below
it with the new chain. -/
theorem exists_mem (hdet : HashDetermines) (h : Cut net tip s c c' b removed) (hy : y ∈ allBlocks s)
    (hnd : ¬ Descends s b.hash y.hash) :
    ∃ d, ((d = c' ∨ d ∈ s.chainSet) ∧ b.hash ∉ d.inner.heightByHash) ∧ y.hash ∈ d.inner.heightByHash := by
  obtain ⟨d, hd, hyd⟩ := Ledger.mem_allBlocks.1 hy
  by_cases hbd : b.hash ∈ d.inner.heightByHash
  · have hroot := h.chains d hd
    obtain ⟨i, hi, rfl⟩ := List.getElem_of_mem hyd
    obtain ⟨z, hz, hzb⟩ := List.mem_map.1 (hroot.mem_iff.1 hbd)
    obtain ⟨j, hj, rfl⟩ := List.getElem_of_mem hz
    have heq := hzb.trans h.hash_getElem.symm
    obtain rfl : j = (blocksOf c').length := hroot.index_eq hdet (h.chains c h.mem) hj h.length_lt heq
    have hij : i < (blocksOf c').length := by
      by_contra hle
      exact hnd ((descends_iff hdet h.known h.chains h.mem_allBlocks hd hi).2 ⟨_, hj, by omega, hzb⟩)
    have hbelow := hroot.chained.hash_eq_of_le hdet (h.chains c h.mem).chained hj h.length_lt heq hij.le
    have hi' : i < (blocksOf c).length := hij.trans h.length_lt
    have hget : (blocksOf c)[i] = (blocksOf c')[i] := by simp [h.blocks, hij]
    refine ⟨c', ⟨.inl rfl, h.not_mem⟩, ?_⟩
    rw [h.rooted.mem_iff, hbelow, hget]
    exact List.mem_map_of_mem (List.getElem_mem hij)
  · exact ⟨d, ⟨.inr hd, hbd⟩, (h.chains d hd).mem_iff.2 (List.mem_map_of_mem hyd)⟩

theorem mem_iff_of_descends (hdet : HashDetermines) (h : Cut net tip s c c' b removed) (hx : Descends s b.hash x) :
    x ∈ c.inner.heightByHash ↔ x ∈ (b :: removed).map (·.hash) := by
  rw [(h.chains c h.mem).mem_iff, h.blocks, List.map_append, List.mem_append]
  refine ⟨fun hm => hm.resolve_left fun hm => ?_, .inr⟩
  exact h.not_mem_of_descends hdet ⟨.inl rfl, h.not_mem⟩ hx (h.rooted.mem_iff.2 hm)

omit [ScriptParsing] [MerkleHashing] [ChainHistory] [BlockHashing] in
theorem mem_chains {chains : List Chain} (hperm : chains.Perm (c' :: s.chainSet)) (hmem : c ∈ s.chainSet)
    (hcont : hash ∈ c.inner.heightByHash) (hfew : s.chainSet.length ≤ maxNonFinalizedChainForks) :
    d ∈ (chains.filter fun c => hash ∉ c.inner.heightByHash).drop
        ((chains.filter fun c => hash ∉ c.inner.heightByHash).length - maxNonFinalizedChainForks) ↔
      (d = c' ∨ d ∈ s.chainSet) ∧ hash ∉ d.inner.heightByHash := by
  have hlt : (chains.filter fun c => hash ∉ c.inner.heightByHash).length < chains.length :=
    List.length_filter_lt_length_iff_exists.2 ⟨c, hperm.mem_iff.2 (List.mem_cons_of_mem _ hmem), by simpa using hcont⟩
  have hlen := hperm.length_eq
  rw [List.length_cons] at hlen
  rw [Nat.sub_eq_zero_of_le (by omega), List.drop_zero, List.mem_filter, hperm.mem_iff, List.mem_cons]
  simp

end Cut

theorem invalidateBlock_complete_iff (hdet : HashDetermines) (htip : Known tip.2 tip.1)
    (hs : ∀ c ∈ s.chainSet, Rooted net tip c) (hsort : s.chainSet.Pairwise Below)
    (hfew : s.chainSet.length ≤ maxNonFinalizedChainForks) (hlen : s.invalidatedBlocks.length ≤ maxInvalidatedBlocks)
    (h : s.invalidateBlock hash = .ok (hash', s')) : InvalidationComplete s hash s' ↔ DescendantsOnBest s hash := by
  obtain ⟨c, c', b, removed, s₁, hfind, hc', hblocks, rfl, -, hins, hrec⟩ := invalidateBlock_eq_ok hs hsort h
  obtain ⟨hmem, hcont⟩ := findContaining_eq_some hfind
  have hcut : Cut net tip s c c' b removed := ⟨htip, hs, hmem, hc', hblocks⟩
  obtain ⟨chains, chains', hchains, hfil, rfl⟩ := insertWith_eq_ok hins
  cases hfil
  rw [recordInvalidated_eq_ok] at hrec
  cases hrec
  have hmemc : ∀ d, _ ↔ _ := fun d => Cut.mem_chains (d := d) (ChainSet.insert_perm hchains) hmem hcont hfew
  have hheight : c.inner.heightByHash[b.hash]? = some b.height :=
    (hs c hmem).getElem?_heightByHash.2 ⟨b, by simp [hblocks], rfl, rfl⟩
  constructor
  · intro hcomp d hd height hheight' y hy hdesc
    obtain rfl : d = c := by simpa [hfind] using hd.symm
    obtain rfl : height = b.height := by simpa [hheight] using hheight'.symm
    obtain ⟨e, he, z, hz, hzy⟩ := hcomp.recorded y hy fun d hd => hcut.not_mem_of_descends hdet ((hmemc d).1 hd) hdesc
    rcases (mem_recorded_iff hlen).1 he with rfl | he
    · exact .inl ((hcut.mem_iff_of_descends hdet hdesc).2 (List.mem_map.2 ⟨z, hz, hzy⟩))
    · exact .inr ⟨e, he, z, hz, hzy⟩
  · intro hcond
    refine ⟨fun d hd x hx => hcut.not_mem_of_descends hdet ((hmemc d).1 hd) hx, ?_, ?_⟩
    · intro y hy hnd
      obtain ⟨d, hd, hyd⟩ := hcut.exists_mem hdet hy hnd
      exact ⟨d, (hmemc d).2 hd, hyd⟩
    · intro y hy hgone
      have hdesc : Descends s b.hash y.hash := by
        by_contra hnd
        obtain ⟨d, hd, hyd⟩ := hcut.exists_mem hdet hy hnd
        exact hgone d ((hmemc d).2 hd) hyd
      rcases hcond c hfind b.height hheight y hy hdesc with hm | ⟨e, he, hz⟩
      · obtain ⟨z, hz, hzy⟩ := List.mem_map.1 ((hcut.mem_iff_of_descends hdet hdesc).1 hm)
        exact ⟨_, (mem_recorded_iff hlen).2 (.inl rfl), z, hz, hzy⟩
      · exact ⟨e, (mem_recorded_iff hlen).2 (.inr he), hz⟩

variable [BlockCommitments]

/-- In every reachable state, an invalidation is complete exactly when no descendant of the
block is on another fork. -/
theorem invalidation_complete_iff (hdet : HashDetermines) {db : ZebraDb}
    (hdb : ∀ tip, db.tip = some tip → Known tip.2 tip.1) {ops : List NodeOp} {n : NodeState}
    (hr : Run NodeState.Step ⟨NonFinalizedState.new net, db⟩ ops n)
    (h : n.nonFinalized.invalidateBlock hash = .ok (hash', s')) :
    InvalidationComplete n.nonFinalized hash s' ↔ DescendantsOnBest n.nonFinalized hash := by
  have hsound := sound_of_run hdet hdb hr
  have hne : n.nonFinalized.chainSet ≠ [] := by
    intro hnil
    simp [NonFinalizedState.invalidateBlock, NonFinalizedState.findContaining, hnil] at h
  obtain ⟨tip, -, hknown, hrooted⟩ := hsound.exists_tip hne
  exact invalidateBlock_complete_iff hdet hknown hrooted hsound.sorted hsound.few hsound.fewRecords h

end

section

open Sample

def middle : SemanticallyVerifiedBlock := child 12 root.hash 1 []
def top : SemanticallyVerifiedBlock := child 13 middle.hash 1 []
def otherTop : SemanticallyVerifiedBlock := child 13 middle.hash 2 []

theorem invalidation_complete_single : ∃ (n : NodeState) (s' : NonFinalizedState),
      Run NodeState.Step node [.commitNewChain root, .commitBlock middle, .commitBlock top] n ∧
      n.nonFinalized.invalidateBlock middle.hash = .ok (middle.hash, s') ∧
      InvalidationComplete n.nonFinalized middle.hash s' := by
  have hrun : ∃ n ∈ node.performAll [.commitNewChain root, .commitBlock middle, .commitBlock top],
      (∃ x ∈ (n.nonFinalized.invalidateBlock middle.hash).toOption, x.1 = middle.hash) ∧
      ∀ c ∈ n.nonFinalized.findContaining middle.hash, ∀ b ∈ allBlocks n.nonFinalized,
        b.hash ∈ c.inner.heightByHash := by
    decide +kernel
  obtain ⟨n, hn, ⟨⟨h', s'⟩, hs, rfl⟩, hbest⟩ := hrun
  have hs := Outcome.toOption_eq_some.1 hs
  have hr := NodeState.run_of_performAll hn
  refine ⟨n, s', hr, hs, (invalidation_complete_iff hashDetermines node_known hr hs).2 ?_⟩
  intro c hc height _ b hb _
  exact .inl (hbest c hc b hb)

/-- Two blocks on top of the invalidated one: both are removed, and only the one on the best
chain is recorded. -/
theorem invalidation_loses_sibling : ∃ (n : NodeState) (s' : NonFinalizedState), Run NodeState.Step node
        [.commitNewChain root, .commitBlock middle, .commitBlock top, .commitBlock otherTop] n ∧
      n.nonFinalized.invalidateBlock middle.hash = .ok (middle.hash, s') ∧
      ¬ InvalidationComplete n.nonFinalized middle.hash s' := by
  have hrun : ∃ n ∈ node.performAll
        [.commitNewChain root, .commitBlock middle, .commitBlock top, .commitBlock otherTop],
      ∃ x ∈ (n.nonFinalized.invalidateBlock middle.hash).toOption, x.1 = middle.hash ∧
        ∃ b ∈ allBlocks n.nonFinalized, (∀ c ∈ x.2.chainSet, b.hash ∉ c.inner.heightByHash) ∧
          ∀ e ∈ x.2.invalidatedBlocks, ∀ y ∈ e.2, y.hash ≠ b.hash := by
    decide +kernel
  obtain ⟨n, hn, ⟨h', s'⟩, hs, rfl, b, hb, hgone, hlost⟩ := hrun
  refine ⟨n, s', NodeState.run_of_performAll hn, Outcome.toOption_eq_some.1 hs, ?_⟩
  intro hcomplete
  obtain ⟨e, he, y, hy, hyb⟩ := hcomplete.recorded b hb hgone
  exact hlost e he y hy hyb

end

end Zebra.Properties
