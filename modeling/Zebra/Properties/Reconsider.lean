import Zebra.Properties.ForkReplay
import Zebra.Properties.Invalidation
import Zebra.Properties.SubtreeIndex

namespace Zebra.Properties

open Lib Lib.Transition Ledger Outcome ChainSet NonFinalizedState Record Lineage

section

variable {ε : Type} {s s' : NonFinalizedState} {c c' : Chain}

theorem insertWith_single {filter : List Chain → Exec ε (List Chain)} (hc : s.chainSet = [c])
    (hd : Distinguished c' c) (hfil : ∀ cs, cs.Perm [c', c] → filter cs = .ok [c']) :
    s.insertWith c' filter = .ok { s with chainSet := [c'] } := by
  have hdist : ∀ c ∈ s.chainSet, Distinguished c' c := by simpa [hc] using hd
  obtain ⟨chains, hins⟩ := insert_succeeds hdist
  have hperm := insert_perm hins
  rw [hc] at hperm
  rw [insertWith, hins, ok_bind, hfil chains hperm, ok_bind]
  rfl

theorem filter_pair {p : Chain → Bool} {cs : List Chain} (h : cs.Perm [c', c]) (hp : p c' = true)
    (hn : p c = false) : cs.filter p = [c'] := by
  have := h.filter p
  rwa [List.filter_cons_of_pos hp, List.filter_cons_of_neg (by simp [hn]), List.filter_nil,
    List.perm_singleton] at this

theorem distinguished_of_append {d : Chain} {bs bs' : Blocks} (hc : blocksOf c = bs)
    (hd : blocksOf d = bs ++ bs') (hbs : bs ≠ []) (hbs' : bs' ≠ []) (hn : ((bs ++ bs').map (·.hash)).Nodup) :
    ∃ h h', tipHashOf c = some h ∧ tipHashOf d = some h' ∧ h ≠ h' := by
  refine ⟨(bs.getLast hbs).hash, (bs'.getLast hbs').hash, ?_, ?_, ?_⟩
  · rw [tipHashOf, hc, List.getLast?_eq_some_getLast hbs, Option.map_some]
  · rw [tipHashOf, hd, List.getLast?_append_of_ne_nil _ hbs', List.getLast?_eq_some_getLast hbs', Option.map_some]
  · rw [List.map_append, List.nodup_append] at hn
    exact hn.2.2 _ (List.mem_map_of_mem (List.getLast_mem hbs)) _ (List.mem_map_of_mem (List.getLast_mem hbs'))

end

section

variable [ScriptParsing] [MerkleHashing] [ChainHistory] {s s' : NonFinalizedState} {c c' : Chain} {hash : BlockHash}
  {L : Lineage s.network} {r : Record} {rs removed : List Record}

def recorded (s : NonFinalizedState) (b : ContextuallyVerifiedBlock) (bs : Blocks) :
    List (Nat × Blocks) :=
  (IndexMap.insert s.invalidatedBlocks b.height (b :: bs)).drop
    ((IndexMap.insert s.invalidatedBlocks b.height (b :: bs)).length - maxInvalidatedBlocks)

theorem invalidateBlock_single (hc : s.chainSet = [c]) (h : Refines c L) (hr : L.records = rs ++ r :: removed)
    (hrs : rs ≠ []) :
    ((∃ s₁, s.invalidateBlock r.block.hash = .ok (r.block.hash, s₁)) ↔
        TipRevertsFit s.network (rs.map block) ((r :: removed).map block)) ∧
      ∀ s₁, s.invalidateBlock r.block.hash = .ok (r.block.hash, s₁) → ∃ c', Refines c' (L.take rs.length) ∧
        c'.inner.saplingSubtrees = c.inner.saplingSubtrees ∧ c'.inner.orchardSubtrees = c.inner.orchardSubtrees ∧
        s₁ = { s with
          chainSet := [c']
          invalidatedBlocks := recorded s r.block (removed.map block) } := by
  have hmem : r.block.hash ∈ c.inner.heightByHash := h.inner.hash_mem (by simp [hr])
  have hnodup := h.inner.nodup_hashes
  have hblocks : L.blocks = rs.map block ++ (r :: removed).map block := by
    rw [blocks, hr, List.map_append]
  rw [hblocks] at hnodup
  have hfind : s.findContaining r.block.hash = some c := by simp [findContaining, hc, hmem]
  obtain ⟨r₀, rs₀, rfl⟩ := List.exists_cons_of_ne_nil hrs
  have hroot : (c.inner.nonFinalizedRootHash : Exec InvalidateError _) = .ok r₀.block.hash := by
    rw [nonFinalizedRootHash_eq_ok, h.inner.blocksOf_eq, hblocks]
    rfl
  have hne : r₀.block.hash ≠ r.block.hash := by
    rw [List.map_append, List.nodup_append] at hnodup
    exact hnodup.2.2 _ (by simp) _ (by simp)
  obtain ⟨hsucc, hres⟩ := invalidateBlock_spec h hr hrs
  -- the call is the cut of the chain and then the record
  have hcall : ∀ c', (c.invalidateBlock r.block.hash : Exec InvalidateError _) =
        .ok (some (c', (r :: removed).map block)) → Refines c' (L.take (r₀ :: rs₀).length) →
      s.invalidateBlock r.block.hash = .ok (r.block.hash, { s with
        chainSet := [c']
        invalidatedBlocks := recorded s r.block (removed.map block) }) := by
    intro c' hc' href
    have hblocks' := href.inner.blocksOf_eq
    rw [blocks_take hr] at hblocks'
    have hd := distinguished_of_append hblocks' (h.inner.blocksOf_eq.trans hblocks) (by simp) (by simp) hnodup
    have hnot : r.block.hash ∉ c'.inner.heightByHash := by
      rw [href.inner.hash_mem_iff, blocks_take hr]
      rw [List.map_append, List.nodup_append] at hnodup
      intro hmem'
      exact hnodup.2.2 _ hmem' r.block.hash (by simp) rfl
    have hins : s.insertWith c' (fun chains => return chains.filter fun c => r.block.hash ∉ c.inner.heightByHash) =
        (.ok { s with chainSet := [c'] } : Exec InvalidateError _) :=
      insertWith_single hc (.inr hd) fun cs hcs =>
        congrArg Except.ok (filter_pair hcs (by simpa using hnot) (by simpa using hmem))
    simp only [invalidateBlock, hfind, removeFrom, hroot, ok_bind, hne,
      if_false, hc', expect_some, hins]
    rfl
  have hfit : ∀ s₁, s.invalidateBlock r.block.hash = .ok (r.block.hash, s₁) →
      (c.invalidateBlock r.block.hash : Exec InvalidateError _).Succeeds := by
    intro s₁ hs₁
    simp only [invalidateBlock, hfind, removeFrom, hroot, ok_bind, hne,
      if_false] at hs₁
    obtain ⟨x, hx, -⟩ := bind_eq_ok.1 hs₁
    obtain ⟨o, ho, -⟩ := bind_eq_ok.1 hx
    exact ⟨o, ho⟩
  refine ⟨⟨?_, ?_⟩, ?_⟩
  · rintro ⟨s₁, hs₁⟩
    exact hsucc.1 (hfit s₁ hs₁)
  · intro hrev
    obtain ⟨o, ho⟩ := hsucc.2 hrev
    obtain ⟨c', rfl, href, -⟩ := hres o ho
    exact ⟨_, hcall c' ho href⟩
  · intro s₁ hs₁
    obtain ⟨o, ho⟩ := hfit s₁ hs₁
    obtain ⟨c', rfl, href, hsap, horch⟩ := hres o ho
    rw [hcall c' ho href] at hs₁
    exact ⟨c', href, hsap, horch, (congrArg Prod.snd (Except.ok.inj hs₁)).symm⟩

omit [ScriptParsing] [MerkleHashing] [ChainHistory] in
theorem find_record {l : List (Nat × Blocks)} (hkeys : (l.map Prod.fst).Nodup) {k : Nat}
    {bs : Blocks} (he : (k, bs) ∈ l) : l.find? (fun e => e.1 = k) = some (k, bs) := by
  cases hf : l.find? fun e => e.1 = k with
  | none => simpa using List.find?_eq_none.1 hf _ he
  | some e =>
    have hk : e.1 = k := by simpa using List.find?_some hf
    rw [List.inj_on_of_nodup_map hkeys (List.mem_of_find?_eq_some hf) he hk]

variable {ε : Type} {db : ZebraDb} {hashes : List BlockHash} {parent : BlockHash}

omit [ChainHistory] [MerkleHashing] in
theorem parentChain_single (hc : s.chainSet = [c]) (htip : tipHashOf c = some parent) :
    s.parentChain parent = .ok c := by
  have hfind : (findTip parent s.chainSet.reverse : Validated _) = .ok (some c) := by
    rw [hc, List.reverse_singleton, findTip, nonFinalizedTipHash_eq_ok.2 htip, ok_bind, if_pos rfl]
    rfl
  rw [parentChain, hfind, ok_bind]
  rfl

omit [ScriptParsing] [MerkleHashing] [ChainHistory] in
theorem tipHeight_of_tipHash (h : tipHashOf c = some hash) :
    ∃ k, (c.inner.nonFinalizedTipHeight : Exec ε _) = .ok k := by
  rw [← tip_of_blocks] at h
  obtain ⟨x, hx, -⟩ := Option.map_eq_some_iff.1 h
  exact ⟨x.1, by rw [ChainInner.nonFinalizedTipHeight, ChainInner.maxBlockHeight, hx]; rfl⟩

omit [ScriptParsing] [MerkleHashing] [ChainHistory] in
theorem updateMetrics_single (hc : s.chainSet = [c]) (h : tipHashOf c = some hash) :
    (s.updateMetricsForCommittedBlock : Exec ε _) = .ok () := by
  unfold updateMetricsForCommittedBlock
  split
  · rw [bestChain, hc, List.getLast?_singleton, expect_some, ok_bind,
      nonFinalizedTipHash_eq_ok.2 h, ok_bind]
    rfl
  · rfl

/-- Reconsidering a block whose parent is the tip of the only chain pushes its record onto
that chain. The record stays, unless the finalized tip is above it. -/
theorem reconsiderBlock_single {b : ContextuallyVerifiedBlock} {bs : Blocks}
    (hc : s.chainSet = [c]) (hkeys : (s.invalidatedBlocks.map Prod.fst).Nodup)
    (hrec : (b.height, b :: bs) ∈ s.invalidatedBlocks)
    (hfirst : ∀ e ∈ s.invalidatedBlocks, e.2.head?.map (·.hash) = some b.hash → e.1 = b.height)
    (htip : tipHashOf c = some b.block.header.previousBlockHash)
    (hdb : b.block.header.previousBlockHash ≠ db.finalizedTipHash)
    (hpushed : ∀ c', (pushAll c (b :: bs) : Exec ReconsiderError _) = .ok c' →
      ∃ h, tipHashOf c' = some h ∧ h ≠ b.block.header.previousBlockHash) :
    s.reconsiderBlock b.hash db = .ok (hashes, s') ↔
      ∃ c', (pushAll c (b :: bs) : Exec ReconsiderError _) = .ok c' ∧
        hashes = (b :: bs).map (·.hash) ∧
        s' = { s.retainInvalidated db.finalizedTipHeight with chainSet := [c'] } := by
  obtain ⟨e, he⟩ : ∃ e, s.invalidatedBlocks.find? (fun e => e.2.head?.map (·.hash) = some b.hash) = some e := by
    rw [← Option.isSome_iff_exists, List.find?_isSome]
    exact ⟨_, hrec, by simp⟩
  have hheight := hfirst e (List.mem_of_find?_eq_some he) (by simpa using List.find?_some he)
  have hparent : s.reconsiderParent b.hash b.block.header.previousBlockHash db = .ok c := by
    rw [reconsiderParent, if_neg hdb, parentChain_single hc htip]
    rfl
  have hcall : s.reconsiderBlock b.hash db = (do
      let c ← pushAll c (b :: bs)
      let _ ← c.inner.nonFinalizedTipHeight
      let _ ← c.inner.nonFinalizedTipHash
      let s ← (s.retainInvalidated db.finalizedTipHeight).insertWith c
        (retainTips b.block.header.previousBlockHash)
      s.updateMetricsForCommittedBlock
      return ((b :: bs).map (·.hash), s)) := by
    obtain ⟨k, bs'⟩ := e
    obtain rfl : k = b.height := hheight
    simp only [reconsiderBlock, he, find_record hkeys hrec, List.head?_cons, hparent, ok_bind]
  rw [hcall, bind_eq_ok]
  refine exists_congr fun c' => and_congr_right fun hpush => ?_
  obtain ⟨h, hh, hne⟩ := hpushed c' hpush
  have hins : (s.retainInvalidated db.finalizedTipHeight).insertWith c'
      (retainTips b.block.header.previousBlockHash) =
        (.ok { s.retainInvalidated db.finalizedTipHeight with chainSet := [c'] } : Exec ReconsiderError _) := by
    refine insertWith_single (c := c) ?_ (.inr ⟨h, _, hh, htip, hne⟩) ?_
    · cases hf : db.finalizedTipHeight <;> exact hc
    · intro cs hcs
      rw [retainTips_eq_ok]
      refine ⟨?_, filter_pair hcs (by simp [hh, hne]) (by simp [htip])⟩
      intro d hd
      rcases List.mem_pair.1 (hcs.mem_iff.1 hd) with rfl | rfl
      · simp [hh]
      · simp [htip]
  obtain ⟨k, hk⟩ := tipHeight_of_tipHash (ε := ReconsiderError) hh
  rw [hk, ok_bind, nonFinalizedTipHash_eq_ok.2 hh, ok_bind, hins, ok_bind,
    updateMetrics_single rfl hh, ok_bind]
  exact ⟨fun h => (Prod.mk.inj (Except.ok.inj h)).imp Eq.symm Eq.symm, fun h => by rw [h.1, h.2]; rfl⟩

end

def blocksBelow (c : Chain) (hash : BlockHash) : Blocks :=
  (blocksOf c).takeWhile fun b => b.hash ≠ hash

def blocksFrom (c : Chain) (hash : BlockHash) : Blocks :=
  (blocksOf c).dropWhile fun b => b.hash ≠ hash

theorem blocks_split {c : Chain} {bs bs' : Blocks} {b : ContextuallyVerifiedBlock}
    (hc : blocksOf c = bs ++ b :: bs') (hn : ((blocksOf c).map (·.hash)).Nodup) :
    blocksBelow c b.hash = bs ∧ blocksFrom c b.hash = b :: bs' := by
  rw [hc, List.map_append, List.nodup_append] at hn
  have hne : ∀ x ∈ bs, decide (x.hash ≠ b.hash) = true := by
    intro x hx
    exact decide_eq_true (hn.2.2 _ (List.mem_map_of_mem hx) _ (by simp))
  rw [blocksBelow, blocksFrom, hc, List.takeWhile_append_of_pos hne, List.dropWhile_append_of_pos hne]
  simp

section

variable [ScriptParsing] [MerkleHashing] [ChainHistory]

theorem tree_before {net : Network} {c : ChainInner} {L : Lineage net} {r : Record} {rs removed : List Record}
    {p : Pool} (h : Represents c L) (hr : L.records = rs ++ r :: removed) (hrs : rs ≠ []) :
    (treesOf c p).tree (r.block.height - 1) = some ((lastSnapshot (lastSnapshot L.start L.past) rs).tree p) := by
  obtain ⟨rs, q, rfl⟩ := (List.eq_nil_or_concat' rs).resolve_left hrs
  have hq : L.records = rs ++ q :: r :: removed := by simpa using hr
  have hheight : r.block.height - 1 = q.block.height := by
    rw [height_of_records hr, height_of_records hq, List.length_append, List.length_singleton]
    omega
  rw [hheight, tree_of_record h hq, lastSnapshot_concat]

theorem subtrees_restored_iff (hcf : CollisionFree) {net : Network} {c : ChainInner} {L : Lineage net} {r : Record}
    {rs removed : List Record} {p : Pool} (h : Represents c L) (hr : L.records = rs ++ r :: removed) (hrs : rs ≠ []) :
    insertSubtrees (subtreesOf c p) (completedFrom p (L.take rs.length).tip (r :: removed)) = subtreesOf c p ↔
      ∀ b ∈ (r :: removed).map block, ∀ tree, (treesOf c p).tree (b.height - 1) = some tree →
        ∀ x, completedBy tree b.block = some x → (subtreesOf c p)[x.index]? = some x.intoData := by
  have hl := L.linked_records
  rw [hr] at hl
  have hasc := completedFrom_ascending (p := p) hcf (linked_append.1 hl).2
  rw [tip_take hr, insertSubtrees_eq_self_iff hasc]
  constructor
  · intro hall b hb tree ht x hx
    obtain ⟨r', hr', rfl⟩ := List.mem_map.1 hb
    obtain ⟨rs₁, rs₂, hsplit⟩ := List.append_of_mem hr'
    have hrec : L.records = (rs ++ rs₁) ++ r' :: rs₂ := by rw [hr, hsplit, List.append_assoc]
    rw [tree_before h hrec (by simp [hrs]), Option.some.injEq] at ht
    refine hall x (mem_completedFrom.2 ⟨rs₁, r', rs₂, hsplit, ?_⟩)
    rwa [← lastSnapshot_append, ht]
  · intro hall x hx
    obtain ⟨rs₁, r', rs₂, hsplit, hx⟩ := mem_completedFrom.1 hx
    have hrec : L.records = (rs ++ rs₁) ++ r' :: rs₂ := by rw [hr, hsplit, List.append_assoc]
    rw [← lastSnapshot_append] at hx
    refine hall r'.block (List.mem_map_of_mem (by simp [hsplit])) _ (tree_before h hrec (by simp [hrs])) x hx

/-- Invalidating a block and then reconsidering it brings the only chain back, answers with
the hashes that were taken off it, and leaves none of them recorded. -/
def Undoes (s : NonFinalizedState) (c : Chain) (hash : BlockHash) (db : ZebraDb) : Prop :=
  ∃ s₁ s₂ c₂, s.invalidateBlock hash = .ok (hash, s₁) ∧
    s₁.reconsiderBlock hash db = .ok ((blocksFrom c hash).map (·.hash), s₂) ∧ s₂.chainSet = [c₂] ∧
    c₂.inner = c.inner ∧ ∀ e ∈ s₂.invalidatedBlocks, ∀ b ∈ e.2, b.hash ∉ (blocksFrom c hash).map (·.hash)

/-- When an invalidation of the only chain can be undone: the transfers of the removed blocks
fit while they are taken off and put back, the chain still has the subtrees that they
complete, and the finalized tip is above their record and below every other record of one
of them. -/
structure Undoable (s : NonFinalizedState) (c : Chain) (hash : BlockHash) (db : ZebraDb) : Prop where
  reverts : TipRevertsFit s.network (blocksBelow c hash) (blocksFrom c hash)
  pushes : OpsFit s.network (blocksBelow c hash) ((blocksFrom c hash).map .push)
  subtrees : ∀ p ≠ Pool.sprout, ∀ b ∈ blocksFrom c hash, ∀ tree, (treesOf c.inner p).tree (b.height - 1) = some tree →
    ∀ x, completedBy tree b.block = some x → (subtreesOf c.inner p)[x.index]? = some x.intoData
  records : ∃ tip ∈ db.finalizedTipHeight, ∀ height, c.inner.heightByHash[hash]? = some height →
    height < tip ∧ ∀ e ∈ survivingRecords s height, tip ≤ e.1 →
      ∀ b ∈ e.2, b.hash ∉ (blocksFrom c hash).map (·.hash)

theorem reconsiderBlock_records {s s' : NonFinalizedState} {hash : BlockHash} {db : ZebraDb} {hashes : List BlockHash}
    (h : s.reconsiderBlock hash db = .ok (hashes, s')) :
    s'.invalidatedBlocks = (s.retainInvalidated db.finalizedTipHeight).invalidatedBlocks := by
  unfold reconsiderBlock at h
  split at h
  · simp at h
  · split at h
    · simp at h
    · split at h
      · simp at h
      · obtain ⟨c₀, -, h⟩ := bind_eq_ok.1 h
        obtain ⟨c, -, h⟩ := bind_eq_ok.1 h
        obtain ⟨_, -, h⟩ := bind_eq_ok.1 h
        obtain ⟨_, -, h⟩ := bind_eq_ok.1 h
        obtain ⟨s₁, hins, h⟩ := bind_eq_ok.1 h
        obtain ⟨_, -, h⟩ := bind_eq_ok.1 h
        obtain ⟨-, rfl⟩ := Prod.mk.injEq .. ▸ Except.ok.inj h
        obtain ⟨-, -, -, -, rfl⟩ := insertWith_eq_ok hins
        rfl

omit [ScriptParsing] [MerkleHashing] [ChainHistory] in
theorem unrecorded_iff {s s₁ : NonFinalizedState} {b : ContextuallyVerifiedBlock} {bs : Blocks}
    (hlen : s.invalidatedBlocks.length ≤ maxInvalidatedBlocks) (hrec : s₁.invalidatedBlocks = recorded s b bs)
    {tip : Option Nat} :
    (∀ e ∈ (s₁.retainInvalidated tip).invalidatedBlocks, ∀ x ∈ e.2, x.hash ∉ (b :: bs).map (·.hash)) ↔
      ∃ t ∈ tip, b.height < t ∧ ∀ e ∈ survivingRecords s b.height, t ≤ e.1 →
        ∀ x ∈ e.2, x.hash ∉ (b :: bs).map (·.hash) := by
  have hmem : ∀ e, e ∈ s₁.invalidatedBlocks ↔ e = (b.height, b :: bs) ∨ e ∈ survivingRecords s b.height := by
    intro e
    rw [hrec]
    exact mem_recorded_iff hlen
  have hself : b.hash ∈ (b :: bs).map (·.hash) := by simp
  cases tip with
  | none =>
    refine ⟨fun h => absurd hself (h _ ((hmem _).2 (.inl rfl)) b (by simp)), ?_⟩
    rintro ⟨t, ht, -⟩
    simp at ht
  | some t =>
    have hretain : ∀ e, e ∈ (s₁.retainInvalidated (some t)).invalidatedBlocks ↔ e ∈ s₁.invalidatedBlocks ∧ t ≤ e.1 := by
      intro e
      rw [retainInvalidated, List.mem_filter, decide_eq_true_eq]
    constructor
    · intro h
      refine ⟨t, rfl, ?_, fun e he hle => h e ((hretain e).2 ⟨(hmem e).2 (.inr he), hle⟩)⟩
      by_contra hle
      exact h _ ((hretain _).2 ⟨(hmem _).2 (.inl rfl), Nat.le_of_not_lt hle⟩) b (by simp) hself
    · rintro ⟨t', ht', hlt, hrest⟩ e he
      cases ht'
      obtain ⟨he, hle⟩ := (hretain e).1 he
      rcases (hmem e).1 he with rfl | he
      · exact absurd hle (by simpa using hlt)
      · exact hrest e he hle

section

variable [BlockHashing] {tip : Nat × BlockHash} {s s₁ s₂ : NonFinalizedState} {c c' : Chain} {db : ZebraDb}
  {L : Lineage s.network} {r : Record} {rs removed : List Record}

-- a chain on top of a known block, and a block above its root
variable (hknown : Known tip.2 tip.1) (href : Refines c L) (hbase : L.startHeight + L.past.length = tip.1)
  (hchain : Chained tip.2 L.blocks) (hr : L.records = rs ++ r :: removed) (hrs : rs ≠ [])

include hknown href hbase hchain hr in
theorem known_parent : r.block.block.header.previousBlockHash = lastHash tip.2 (rs.map block) ∧
    Known r.block.block.header.previousBlockHash (tip.1 + rs.length) ∧ r.block.height = tip.1 + rs.length + 1 ∧
    Known r.block.hash r.block.height ∧ Consecutive (tip.1 + rs.length) ((r :: removed).map block) := by
  have hrooted : Rooted s.network tip c := ⟨L, href, hbase, hchain⟩
  have hcons := hrooted.consecutive
  have hblocks : L.blocks = rs.map block ++ (r :: removed).map block := by
    rw [blocks, hr, List.map_append]
  rw [href.inner.blocksOf_eq, hblocks, consecutive_append] at hcons
  rw [hblocks, chained_append] at hchain
  have hlast := known_lastHash hknown hchain.1 hcons.1
  rw [List.length_map] at hlast hcons
  exact ⟨hchain.2.1, hchain.2.1 ▸ hlast, hcons.2.1, known_of_mem hchain.2 hcons.2 (by simp), hcons.2⟩

include hknown href hbase hchain hr hrs in
theorem reconsiderBlock_after (hdet : HashDetermines) (hc' : Refines c' (L.take rs.length)) (hs₁ : s₁.chainSet = [c'])
    (hkeys : (s₁.invalidatedBlocks.map Prod.fst).Nodup) (hdetached : ∀ e ∈ s₁.invalidatedBlocks, Detached e)
    (hrec : (r.block.height, r.block :: removed.map block) ∈ s₁.invalidatedBlocks)
    (hdb : r.block.block.header.previousBlockHash ≠ db.finalizedTipHash) {hashes : List BlockHash} :
    s₁.reconsiderBlock r.block.hash db = .ok (hashes, s₂) ↔
      ∃ c₂, Run Chain.Step c' (((r :: removed).map block).map .push) c₂ ∧
        hashes = ((r :: removed).map block).map (·.hash) ∧
        s₂ = { s₁.retainInvalidated db.finalizedTipHeight with chainSet := [c₂] } := by
  obtain ⟨hparent, -, hheight, hblock, hcons⟩ := known_parent hknown href hbase hchain hr
  have hblocks' : blocksOf c' = rs.map block := by rw [hc'.inner.blocksOf_eq, blocks_take hr]
  have hne' : rs.map block ≠ [] := by simpa using hrs
  have htip : tipHashOf c' = some r.block.block.header.previousBlockHash := by
    rw [tipHashOf, hblocks', hparent, lastHash, List.getLast?_eq_some_getLast hne']
    rfl
  have hth : c'.tipHeight = some (tip.1 + rs.length) := by
    rw [hc'.inner.tipHeight_eq (.inr (by rwa [records_take hr])), tipHeight_take hr, hbase]
  have hrun : ∀ c₂, (pushAll c' ((r :: removed).map block) : Exec ReconsiderError _) = .ok c₂ ↔
      Run Chain.Step c' (((r :: removed).map block).map .push) c₂ := fun _ => pushAll_iff_run hcons hc' hth
  have hfirst : ∀ e ∈ s₁.invalidatedBlocks, e.2.head?.map (·.hash) = some r.block.hash → e.1 = r.block.height := by
    intro e he hhead
    obtain ⟨b, hb, hbh⟩ := Option.map_eq_some_iff.1 hhead
    obtain ⟨parent, height, hk, hkey, -, hch, hco⟩ := hdetached e he
    have hbk := known_of_mem hch hco (List.mem_of_mem_head? hb)
    have hbe : b.height = height + 1 := by
      obtain ⟨bs, hbs⟩ := List.head?_eq_some_iff.1 hb
      rw [hbs] at hco
      exact hco.1
    rw [hkey, ← hbe]
    exact (hbh ▸ hbk).unique hdet hblock
  have hpushed : ∀ c₂, (pushAll c' (r.block :: removed.map block) : Exec ReconsiderError _) =
      .ok c₂ → ∃ h, tipHashOf c₂ = some h ∧ h ≠ r.block.block.header.previousBlockHash := by
    intro c₂ hc₂
    have href₂ := ((pushBack_spec href.inner hr hrs hc').2 c₂ ((hrun c₂).1 hc₂)).1
    have hblocks₂ : blocksOf c₂ = rs.map block ++ (r :: removed).map block := by
      rw [href₂.inner.blocksOf_eq, blocks, hr, List.map_append]
    have hn := href₂.inner.nodup_hashes
    rw [← href₂.inner.blocksOf_eq, hblocks₂] at hn
    obtain ⟨h, h', hh, hh', hne⟩ := distinguished_of_append hblocks' hblocks₂ hne' (by simp) hn
    obtain rfl : r.block.block.header.previousBlockHash = h := by simpa [htip] using hh
    exact ⟨h', hh', hne.symm⟩
  rw [reconsiderBlock_single hs₁ hkeys hrec hfirst htip hdb hpushed]
  exact exists_congr fun c₂ => and_congr_left fun _ => hrun c₂

omit [BlockHashing] in
include href hr hrs in
theorem restored_iff (hcf : CollisionFree) (hc' : Refines c' (L.take rs.length))
    (hsap : c'.inner.saplingSubtrees = c.inner.saplingSubtrees)
    (horch : c'.inner.orchardSubtrees = c.inner.orchardSubtrees) {c₂ : Chain}
    (hrun : Run Chain.Step c' (((r :: removed).map block).map .push) c₂) :
    c₂.inner = c.inner ↔ ∀ p ≠ Pool.sprout, ∀ b ∈ (r :: removed).map block, ∀ tree,
      (treesOf c.inner p).tree (b.height - 1) = some tree →
        ∀ x, completedBy tree b.block = some x → (subtreesOf c.inner p)[x.index]? = some x.intoData := by
  obtain ⟨href₂, hsap₂, horch₂⟩ := (pushBack_spec href.inner hr hrs hc').2 c₂ hrun
  rw [hsap] at hsap₂
  rw [horch] at horch₂
  constructor
  · intro heq p hp
    rw [heq] at hsap₂ horch₂
    rw [← subtrees_restored_iff hcf href.inner hr hrs]
    cases p with
    | sprout => exact absurd rfl hp
    | sapling => exact hsap₂.symm
    | orchard => exact horch₂.symm
  · intro hsub
    have hkept := fun p hp => (subtrees_restored_iff hcf href.inner hr hrs).2 (hsub p hp)
    exact eq_of_withoutSubtrees (href₂.inner.unique hcf href.inner) (hsap₂.trans (hkept .sapling (by decide)))
      (horch₂.trans (hkept .orchard (by decide)))

end

theorem undoes_iff [BlockHashing] [BlockCommitments] (hdet : HashDetermines) (hcf : CollisionFree) {net : Network}
    {db : ZebraDb} (hdb : ∀ tip, db.tip = some tip → Known tip.2 tip.1) {ops : List NodeOp} {n : NodeState}
    (hrun : Run NodeState.Step ⟨NonFinalizedState.new net, db⟩ ops n) {c : Chain}
    (hc : n.nonFinalized.chainSet = [c]) {hash : BlockHash} (hmem : hash ∈ c.inner.heightByHash)
    (hroot : (blocksOf c).head?.map (·.hash) ≠ some hash) {db' : ZebraDb}
    (hdb' : ∀ tip, db'.tip = some tip → Known tip.2 tip.1) :
    Undoes n.nonFinalized c hash db' ↔ Undoable n.nonFinalized c hash db' := by
  have hsound := sound_of_run hdet hdb hrun
  obtain rfl := hsound.network
  obtain ⟨tip, -, hknown, hrooted⟩ := hsound.exists_tip (by simp [hc])
  obtain ⟨L, href, hbase, hchain⟩ := hrooted c (by simp [hc])
  obtain ⟨k, hk⟩ := KeyedMap.mem_iff_exists.1 hmem
  obtain ⟨rs, r, removed, hr, rfl, rfl⟩ := exists_record_of_hash href.inner hk
  have hr : L.records = rs ++ r :: removed := by simpa using hr
  have hblocks : blocksOf c = rs.map block ++ r.block :: removed.map block := by
    rw [href.inner.blocksOf_eq, blocks, hr, List.map_append, List.map_cons]
  have hrs : rs ≠ [] := by
    rintro rfl
    exact hroot (by rw [hblocks]; rfl)
  obtain ⟨hbelow, hfrom⟩ := blocks_split hblocks (href.inner.blocksOf_eq ▸ href.inner.nodup_hashes)
  obtain ⟨hsucc, hinv⟩ := invalidateBlock_single hc href hr hrs
  obtain ⟨-, hparent, hheight, -⟩ := known_parent hknown href hbase hchain hr
  have hne : ∀ t ∈ db'.finalizedTipHeight, r.block.height < t →
      r.block.block.header.previousBlockHash ≠ db'.finalizedTipHash := by
    intro t ht hlt heq
    obtain ⟨x, hx, rfl⟩ := Option.map_eq_some_iff.1 ht
    rw [ZebraDb.finalizedTipHash, hx, Option.map_some, Option.getD_some] at heq
    have := (heq ▸ hparent).unique hdet (hdb' x hx)
    omega
  -- the call that reconsiders the block, in the state that its invalidation leaves
  have hafter : ∀ s₁ c', s₁ = { n.nonFinalized with
        chainSet := [c']
        invalidatedBlocks := recorded n.nonFinalized r.block (removed.map block) } →
      n.nonFinalized.invalidateBlock r.block.hash = .ok (r.block.hash, s₁) → Refines c' (L.take rs.length) →
      r.block.block.header.previousBlockHash ≠ db'.finalizedTipHash → ∀ hashes s₂,
      (s₁.reconsiderBlock r.block.hash db' = .ok (hashes, s₂) ↔
        ∃ c₂, Run Chain.Step c' (((r :: removed).map block).map .push) c₂ ∧
          hashes = ((r :: removed).map block).map (·.hash) ∧
          s₂ = { s₁.retainInvalidated db'.finalizedTipHeight with chainSet := [c₂] }) := by
    intro s₁ c' hs₁ hok hc' hne hashes s₂
    have hsound₁ := hsound.step hdet (.invalidateBlock hok)
    refine reconsiderBlock_after hknown href hbase hchain hr hrs hdet hc' (by rw [hs₁]) hsound₁.keys hsound₁.detached ?_ hne
    rw [hs₁]
    exact (mem_recorded_iff hsound.fewRecords).2 (.inl rfl)
  constructor
  · rintro ⟨s₁, s₂, c₂, hok, hre, hset, hinner, hgone⟩
    obtain ⟨c', hc', hsap, horch, hs₁⟩ := hinv s₁ hok
    rw [reconsiderBlock_records hre, hfrom, unrecorded_iff hsound.fewRecords (by rw [hs₁])] at hgone
    obtain ⟨t, ht, hlt, hrest⟩ := hgone
    obtain ⟨c₃, hback, -, rfl⟩ := (hafter s₁ c' hs₁ hok hc' (hne t ht hlt) _ s₂).1 hre
    obtain rfl : c₃ = c₂ := by simpa using hset
    refine ⟨?_, ?_, ?_, t, ht, ?_⟩
    · rw [hbelow, hfrom]
      exact hsucc.1 ⟨s₁, hok⟩
    · rw [hbelow, hfrom]
      exact (pushBack_spec href.inner hr hrs hc').1.1 ⟨c₃, hback⟩
    · rw [hfrom]
      exact (restored_iff href hr hrs hcf hc' hsap horch hback).1 hinner
    · intro height hheight'
      obtain rfl : r.block.height = height := by simpa [hk] using hheight'
      rw [hfrom]
      exact ⟨hlt, hrest⟩
  · rintro ⟨hrev, hpush, hsub, t, ht, hrec⟩
    rw [hbelow, hfrom] at hrev hpush
    rw [hfrom] at hsub
    obtain ⟨hlt, hrest⟩ := hrec _ hk
    obtain ⟨s₁, hok⟩ := hsucc.2 hrev
    obtain ⟨c', hc', hsap, horch, hs₁⟩ := hinv s₁ hok
    obtain ⟨c₂, hback⟩ := (pushBack_spec href.inner hr hrs hc').1.2 hpush
    refine ⟨s₁, { s₁.retainInvalidated db'.finalizedTipHeight with chainSet := [c₂] }, c₂, hok, ?_, rfl,
      (restored_iff href hr hrs hcf hc' hsap horch hback).2 hsub, ?_⟩
    · exact (hafter s₁ c' hs₁ hok hc' (hne t ht hlt) _ _).2 ⟨c₂, hback, by rw [hfrom]; rfl, rfl⟩
    · rw [hfrom]
      refine (unrecorded_iff hsound.fewRecords (by rw [hs₁])).2 ⟨t, ht, hlt, ?_⟩
      rwa [hfrom] at hrest

end

section

open Sample

def farDb : ZebraDb := dbAt 20 (child 20 0 0 []).hash

theorem farDb_known : ∀ tip, farDb.tip = some tip → Known tip.2 tip.1 := by
  intro tip h
  obtain rfl : (20, (child 20 0 0 []).hash) = tip := Option.some.inj h
  exact ⟨(child 20 0 0 []).block, rfl, rfl⟩

theorem undoes_far :
    ∃ (n : NodeState) (c : Chain),
      Run NodeState.Step node [.commitNewChain root, .commitBlock middle, .commitBlock top] n ∧
      n.nonFinalized.chainSet = [c] ∧ Undoes n.nonFinalized c middle.hash farDb := by
  have hrun : ∃ n ∈ node.performAll [.commitNewChain root, .commitBlock middle, .commitBlock top],
      n.nonFinalized.invalidatedBlocks.length = 0 ∧ n.nonFinalized.chainSet.length = 1 ∧
      ∀ c ∈ n.nonFinalized.chainSet, c.inner.heightByHash[middle.hash]? = some 12 ∧
        (blocksOf c).head?.map (·.hash) ≠ some middle.hash ∧
        TipRevertsFit n.nonFinalized.network (blocksBelow c middle.hash) (blocksFrom c middle.hash) ∧
        OpsFit n.nonFinalized.network (blocksBelow c middle.hash) ((blocksFrom c middle.hash).map .push) ∧
        ∀ p ∈ [Pool.sapling, .orchard], ∀ b ∈ blocksFrom c middle.hash,
          ∀ tree ∈ (treesOf c.inner p).tree (b.height - 1), completedBy tree b.block = none := by
    decide +kernel
  obtain ⟨n, hn, hnone, hone, hall⟩ := hrun
  obtain ⟨c, hc⟩ := List.length_eq_one_iff.1 hone
  obtain ⟨hheight, hroot, hrev, hpush, hsub⟩ := hall c (by simp [hc])
  have hr := NodeState.run_of_performAll hn
  have hmem : middle.hash ∈ c.inner.heightByHash := by
    rw [← Std.ExtTreeMap.isSome_getElem?_iff_mem, hheight]
    rfl
  refine ⟨n, c, hr, hc, (undoes_iff hashDetermines collisionFree node_known hr hc hmem hroot farDb_known).2 ?_⟩
  refine ⟨hrev, hpush, ?_, 20, rfl, ?_⟩
  · intro p hp b hb tree ht x hx
    have hp' : p ∈ [Pool.sapling, .orchard] := by
      cases p with
      | sprout => exact absurd rfl hp
      | sapling => decide
      | orchard => decide
    simp [hsub p hp' b hb tree ht] at hx
  · intro height hh
    obtain rfl : 12 = height := by simpa [hheight] using hh
    refine ⟨by decide, ?_⟩
    intro e he
    rw [survivingRecords, List.length_eq_zero_iff.1 hnone] at he
    simp at he

def isInvalidated (hash : BlockHash) : Validated NonFinalizedState → Bool
  | .error (.error (.blockPreviouslyInvalidated h)) => h = hash
  | _ => false

/-- The reconsidered blocks are back in the chain, and still recorded as invalidated. -/
theorem reconsider_keeps_record :
    ∃ (n : NodeState) (c : Chain),
      Run NodeState.Step node [.commitNewChain root, .commitBlock middle, .commitBlock top] n ∧
      n.nonFinalized.chainSet = [c] ∧ middle.hash ∈ c.inner.heightByHash ∧
      (blocksOf c).head?.map (·.hash) ≠ some middle.hash ∧
      (∃ s₁ s₂, n.nonFinalized.invalidateBlock middle.hash = .ok (middle.hash, s₁) ∧
        s₁.reconsiderBlock middle.hash n.db = .ok ([middle.hash, top.hash], s₂) ∧
        s₂.commitBlock middle n.db = .error (.error (.blockPreviouslyInvalidated middle.hash))) ∧
      ¬ Undoes n.nonFinalized c middle.hash n.db := by
  have hrun : ∃ n ∈ node.performAll [.commitNewChain root, .commitBlock middle, .commitBlock top],
      n.nonFinalized.chainSet.length = 1 ∧
      (∀ c ∈ n.nonFinalized.chainSet, middle.hash ∈ c.inner.heightByHash ∧
        (blocksOf c).head?.map (·.hash) ≠ some middle.hash ∧
        middle.hash ∈ (blocksFrom c middle.hash).map (·.hash)) ∧
      ∃ x ∈ (n.nonFinalized.invalidateBlock middle.hash).toOption, x.1 = middle.hash ∧
        ∃ y ∈ (x.2.reconsiderBlock middle.hash n.db).toOption, y.1 = [middle.hash, top.hash] ∧
          (∃ e ∈ y.2.invalidatedBlocks, ∃ b ∈ e.2, b.hash = middle.hash) ∧
          isInvalidated middle.hash (y.2.commitBlock middle n.db) := by
    decide +kernel
  obtain ⟨n, hn, hone, hall, ⟨h₁, s₁⟩, hs₁, rfl, ⟨hashes, s₂⟩, hs₂, hhashes, ⟨e, he, b, hb, hbh⟩, hcommit⟩ := hrun
  obtain ⟨c, hc⟩ := List.length_eq_one_iff.1 hone
  obtain ⟨hmem, hroot, hfrom⟩ := hall c (by simp [hc])
  rw [Option.mem_def, toOption_eq_some] at hs₁ hs₂
  simp only at hhashes hs₂ he hcommit
  subst hhashes
  refine ⟨n, c, NodeState.run_of_performAll hn, hc, hmem, hroot, ⟨s₁, s₂, hs₁, hs₂, ?_⟩, ?_⟩
  · unfold isInvalidated at hcommit
    split at hcommit
    · rename_i hash heq
      rw [heq, of_decide_eq_true hcommit]
    · simp at hcommit
  · rintro ⟨s₁', s₂', c₂, hok, hre, -, -, hgone⟩
    obtain rfl : s₁ = s₁' := by simpa [hs₁] using hok
    obtain rfl : s₂ = s₂' := by
      rw [hs₂] at hre
      exact congrArg Prod.snd (Except.ok.inj hre)
    exact hgone e he b hb (hbh ▸ hfrom)

end

end Zebra.Properties
