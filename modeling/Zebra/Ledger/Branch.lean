import Zebra.Ledger.ChainSet
import Zebra.Ledger.Runs

namespace Zebra.Ledger

open Lib

section

variable [BlockHashing]

/-- Every block names the one before it as its parent, and the first one names `parent`. -/
def Chained (parent : BlockHash) : Blocks → Prop
  | [] => True
  | b :: bs => b.block.header.previousBlockHash = parent ∧ b.hash = BlockHashing.hash b.block ∧ Chained b.hash bs

def lastHash (parent : BlockHash) (bs : Blocks) : BlockHash :=
  (bs.getLast?.map (·.hash)).getD parent

variable {parent : BlockHash} {bs bs' : Blocks} {b : ContextuallyVerifiedBlock}

omit [BlockHashing] in
@[simp] theorem lastHash_nil : lastHash parent [] = parent := rfl

omit [BlockHashing] in
@[simp] theorem lastHash_cons : lastHash parent (b :: bs) = lastHash b.hash bs := by
  cases bs <;> simp [lastHash, List.getLast?_cons]

omit [BlockHashing] in
@[simp] theorem lastHash_concat : lastHash parent (bs ++ [b]) = b.hash := by
  simp [lastHash]

theorem chained_append : Chained parent (bs ++ bs') ↔ Chained parent bs ∧ Chained (lastHash parent bs) bs' := by
  induction bs generalizing parent with
  | nil => simp [Chained]
  | cons b bs ih => simp [Chained, ih, and_assoc]

theorem Chained.hash_eq (h : Chained parent bs) (hb : b ∈ bs) : b.hash = BlockHashing.hash b.block := by
  induction bs generalizing parent with
  | nil => simp at hb
  | cons b' bs ih =>
    rcases List.mem_cons.1 hb with rfl | hb
    · exact h.2.1
    · exact ih h.2.2 hb

end

variable [ScriptParsing] [MerkleHashing] [ChainHistory] [BlockHashing] {net : Network} {tip : Nat × BlockHash}

/-- A chain on top of the finalized block `tip`. -/
def Rooted (net : Network) (tip : Nat × BlockHash) (c : Chain) : Prop :=
  ∃ L : Lineage net, Refines c L ∧ L.startHeight + L.past.length = tip.1 ∧ Chained tip.2 L.blocks

omit [BlockHashing] in
theorem Represents.blocksOf_eq {c : Chain} {L : Lineage net} (h : Represents c.inner L) : blocksOf c = L.blocks := by
  exact h.map_snd_blocks

section

variable {c : Chain} {L : Lineage net} {r : Record} {rs removed : List Record}

omit [BlockHashing] in
theorem childBlocks_eq (h : Represents c.inner L) (hr : L.records = rs ++ r :: removed) :
    c.childBlocks r.block.height = (r :: removed).map Record.block := by
  have hasc := (linked_append.1 L.linked).2.ascending
  rw [hr] at hasc
  obtain ⟨-, hasc, hlt⟩ := List.pairwise_append.1 hasc
  rw [Chain.childBlocks, h.blocks_toList, List.filter_map, List.map_map, Lineage.blocks, hr, List.map_append,
    List.filter_append, List.map_append]
  have hbelow : (rs.map Record.block).filter ((fun e : Nat × ContextuallyVerifiedBlock => r.block.height ≤ e.1) ∘
      fun b => (b.height, b)) = [] := by
    refine List.filter_eq_nil_iff.2 ?_
    intro b hb
    obtain ⟨r', hr', rfl⟩ := List.mem_map.1 hb
    have := hlt r' hr' r List.mem_cons_self
    simpa using this
  have habove : ((r :: removed).map Record.block).filter
      ((fun e : Nat × ContextuallyVerifiedBlock => r.block.height ≤ e.1) ∘ fun b => (b.height, b)) =
      (r :: removed).map Record.block := by
    refine List.filter_eq_self.2 ?_
    intro b hb
    obtain ⟨r', hr', rfl⟩ := List.mem_map.1 hb
    rcases List.mem_cons.1 hr' with rfl | hr'
    · simp
    · simpa using ((List.pairwise_cons.1 hasc).1 r' hr').le
  rw [hbelow, habove]
  simp [Function.comp_def]

omit [MerkleHashing] [ChainHistory] [BlockHashing] in
theorem exists_fork {ε : Type} {hash : BlockHash} (hmem : hash ∈ c.inner.heightByHash) {o : Option Chain}
    (ho : (c.fork hash : Exec ε _) = .ok o) : ∃ c', o = some c' := by
  rw [Chain.fork, if_pos hmem] at ho
  obtain ⟨c', -, heq⟩ := map_eq_ok.1 ho
  exact ⟨c', heq.symm⟩

omit [BlockHashing] in
theorem invalidateBlock_spec {ε : Type} (h : Refines c L) (hr : L.records = rs ++ r :: removed) (hrs : rs ≠ []) :
    ((c.invalidateBlock r.block.hash : Exec ε _).Succeeds ↔
        TipRevertsFit net (rs.map Record.block) ((r :: removed).map Record.block)) ∧
      ∀ o, (c.invalidateBlock r.block.hash : Exec ε _) = .ok o →
        ∃ c', o = some (c', (r :: removed).map Record.block) ∧ Refines c' (L.take rs.length) ∧
          c'.inner.saplingSubtrees = c.inner.saplingSubtrees ∧ c'.inner.orchardSubtrees = c.inner.orchardSubtrees := by
  have hr' : L.records = rs ++ [r] ++ removed := by simpa using hr
  have hheight : c.inner.heightByHash[r.block.hash]? = some r.block.height := by
    rw [h.inner.heightByHash.get]
    simp [Lineage.blocks, hr]
  have hmem : r.block.hash ∈ c.inner.heightByHash := h.inner.hash_mem (by simp [hr])
  obtain ⟨hsucc, hres⟩ := fork_spec h.network h.inner hr'
  have htake : (L.take (rs.length + 1)).records = rs ++ [r] := by
    rw [← Lineage.records_take hr', List.length_append, List.length_singleton]
  have hblocks : (L.take (rs.length + 1)).blocks = rs.map Record.block ++ [r.block] := by
    simp [Lineage.blocks, htake]
  have hdrop : (L.take (rs.length + 1)).dropTip = L.take rs.length :=
    Lineage.ext rfl rfl rfl (by simp [Lineage.dropTip, htake, Lineage.records_take hr])
  -- the fork at the block, then the block itself
  have hfit : TipRevertsFit net (rs.map Record.block) ((r :: removed).map Record.block) ↔
      RevertFits net (L.take (rs.length + 1)).blocks r.block ∧
        TipRevertsFit net ((rs ++ [r]).map Record.block) (removed.map Record.block) := by
    rw [hblocks, List.map_append]
    exact Iff.rfl
  rw [hfit]
  refine ⟨?_, ?_⟩
  · rw [← hsucc]
    unfold Chain.invalidateBlock
    simp only [hheight]
    constructor
    · intro hs
      obtain ⟨o, ho, hs⟩ := Outcome.bind_succeeds.1 hs
      refine ⟨?_, ⟨o, ho⟩⟩
      obtain ⟨c₁, rfl⟩ := exists_fork hmem ho
      obtain ⟨hrep, hnet, -⟩ := hres c₁ ho
      obtain ⟨c₂, hc₂, -⟩ := Outcome.bind_succeeds.1 hs
      exact (popTip_spec hnet hrep htake hrs).1.1 ⟨c₂, hc₂⟩
    · rintro ⟨hfit, o, ho⟩
      refine Outcome.bind_succeeds.2 ⟨o, ho, ?_⟩
      obtain ⟨c₁, rfl⟩ := exists_fork hmem ho
      obtain ⟨hrep, hnet, -⟩ := hres c₁ ho
      obtain ⟨c₂, hc₂⟩ := (popTip_spec hnet hrep htake hrs).1.2 hfit
      exact Outcome.bind_succeeds.2 ⟨c₂, hc₂, _, rfl⟩
  · intro o ho
    unfold Chain.invalidateBlock at ho
    simp only [hheight] at ho
    obtain ⟨o₁, ho₁, ho⟩ := bind_eq_ok.1 ho
    obtain ⟨c₁, rfl⟩ := exists_fork hmem ho₁
    obtain ⟨hrep, hnet, hsap, horch⟩ := hres c₁ ho₁
    obtain ⟨c₂, hc₂, ho⟩ := bind_eq_ok.1 ho
    obtain ⟨hrep₂, hnet₂, -, hsap₂, horch₂⟩ := (popTip_spec hnet hrep htake hrs).2 c₂ hc₂
    cases ho
    rw [childBlocks_eq h.inner hr]
    exact ⟨_, rfl, ⟨hnet₂, hdrop ▸ hrep₂⟩, hsap₂.trans hsap, horch₂.trans horch⟩

end

namespace Rooted

variable {c c' : Chain} {hash : BlockHash} {b : ContextuallyVerifiedBlock}

section

variable (h : Rooted net tip c)
include h

theorem chained : Chained tip.2 (blocksOf c) := by
  obtain ⟨L, href, -, hc⟩ := h
  rwa [href.inner.blocksOf_eq]

theorem nodup : ((blocksOf c).map (·.hash)).Nodup := by
  obtain ⟨L, href, -⟩ := h
  rw [href.inner.blocksOf_eq]
  exact href.inner.nodup_hashes

theorem mem_iff : hash ∈ c.inner.heightByHash ↔ hash ∈ (blocksOf c).map (·.hash) := by
  obtain ⟨L, href, -⟩ := h
  rw [href.inner.hash_mem_iff, href.inner.blocksOf_eq]

theorem height {i : Nat} (hi : (blocksOf c)[i]? = some b) :
    b.height = tip.1 + i + 1 ∧ b.block.coinbaseHeight = some b.height := by
  obtain ⟨L, href, hbase, -⟩ := h
  rw [href.inner.blocksOf_eq, Lineage.blocks, List.getElem?_map] at hi
  obtain ⟨r, hr, rfl⟩ := Option.map_eq_some_iff.1 hi
  have hlen := (List.getElem?_eq_some_iff.1 hr).1
  have hl := (linked_append.1 L.linked).2
  rw [← List.take_append_drop i L.records, linked_append] at hl
  have hdrop : L.records.drop i = r :: L.records.drop (i + 1) := by
    rw [← List.getElem_cons_drop hlen, (List.getElem?_eq_some_iff.1 hr).2]
  obtain ⟨-, hl⟩ := hl
  rw [hdrop] at hl
  refine ⟨?_, hl.2.2.1.coinbase⟩
  rw [hl.1, List.length_take]
  omega

theorem getElem?_heightByHash {k : Nat} :
    c.inner.heightByHash[hash]? = some k ↔ ∃ b ∈ blocksOf c, b.hash = hash ∧ b.height = k := by
  obtain ⟨L, href, -⟩ := h
  rw [href.inner.heightByHash.get, href.inner.blocksOf_eq]
  simp

theorem tipHeight (hne : blocksOf c ≠ []) :
    c.tipHeight = some (tip.1 + (blocksOf c).length) := by
  obtain ⟨L, href, hbase, -⟩ := h
  rw [href.inner.blocksOf_eq] at hne ⊢
  have hL : L.Live := .inr (by simpa [Lineage.blocks] using hne)
  rw [href.inner.tipHeight_eq hL, Lineage.tipHeight, Lineage.all, List.length_append, ← hbase, Lineage.blocks,
    List.length_map, Nat.add_assoc]

theorem push (hn : c.IsNext b) (hp : c.push b = .ok c')
    (hparent : b.block.header.previousBlockHash = lastHash tip.2 (blocksOf c))
    (hhash : b.hash = BlockHashing.hash b.block) : Rooted net tip c' ∧ blocksOf c' = blocksOf c ++ [b] := by
  obtain ⟨L, href, hbase, hc⟩ := h
  obtain ⟨L', hL', href', -⟩ := step_sound href (.push hn hp)
  have hblocks := (hL'.blocks fun _ => href.inner.nodup_hashes).1
  rw [href.inner.blocksOf_eq] at hparent ⊢
  rw [href'.inner.blocksOf_eq, hblocks]
  refine ⟨⟨L', href', ?_, ?_⟩, rfl⟩
  · cases hL'
    exact hbase
  · rw [hblocks]
    exact chained_append.2 ⟨hc, hparent, hhash, trivial⟩

theorem fork {ε : Type} (hf : (c.fork hash : Exec ε _) = .ok (some c')) :
    Rooted net tip c' ∧ tipHashOf c' = some hash ∧ ∃ removed, blocksOf c = blocksOf c' ++ removed := by
  obtain ⟨L, href, hbase, hc⟩ := h
  have hmem : hash ∈ L.blocks.map ContextuallyVerifiedBlock.hash := by
    by_contra hn
    rw [fork_eq_none href.inner hn] at hf
    simp at hf
  obtain ⟨b, hb, rfl⟩ := List.mem_map.1 hmem
  obtain ⟨r, hr, rfl⟩ := List.mem_map.1 hb
  obtain ⟨rs, removed, hrec⟩ := List.append_of_mem hr
  have hrec' : L.records = rs ++ [r] ++ removed := by simpa using hrec
  obtain ⟨hrep, hnet, -⟩ := (fork_spec href.network href.inner hrec').2 c' hf
  have hblocks : (L.take (rs.length + 1)).blocks = (rs ++ [r]).map Record.block := by
    rw [← Lineage.blocks_take hrec', List.length_append, List.length_singleton]
  have hall : L.blocks = (L.take (rs.length + 1)).blocks ++ removed.map Record.block := by
    rw [hblocks, Lineage.blocks, hrec', List.map_append]
  refine ⟨⟨_, ⟨hnet, hrep⟩, hbase, ?_⟩, ?_, removed.map Record.block, ?_⟩
  · rw [hall] at hc
    exact (chained_append.1 hc).1
  · simp [tipHashOf, hrep.blocksOf_eq, hblocks]
  · rw [href.inner.blocksOf_eq, hrep.blocksOf_eq, hall]

theorem invalidateBlock {ε : Type} (hmem : hash ∈ c.inner.heightByHash)
    (hroot : (blocksOf c).head?.map (·.hash) ≠ some hash) {o : Option (Chain × Blocks)}
    (ho : (c.invalidateBlock hash : Exec ε _) = .ok o) :
    ∃ c' b removed, o = some (c', b :: removed) ∧ Rooted net tip c' ∧ blocksOf c = blocksOf c' ++ b :: removed ∧
      b.hash = hash ∧ blocksOf c' ≠ [] := by
  obtain ⟨L, href, hbase, hc⟩ := h
  obtain ⟨b, hb, rfl⟩ := List.mem_map.1 (href.inner.hash_mem_iff.1 hmem)
  obtain ⟨r, hr, rfl⟩ := List.mem_map.1 hb
  obtain ⟨rs, removed, hrec⟩ := List.append_of_mem hr
  have hrs : rs ≠ [] := by
    rintro rfl
    exact hroot (by simp [href.inner.blocksOf_eq, Lineage.blocks, hrec])
  obtain ⟨c', rfl, href', -⟩ := (invalidateBlock_spec href hrec hrs).2 o ho
  have hblocks := Lineage.blocks_take hrec
  have hall : L.blocks = (L.take rs.length).blocks ++ (r :: removed).map Record.block := by
    rw [hblocks, Lineage.blocks, hrec, List.map_append]
  rw [hall] at hc
  refine ⟨c', r.block, removed.map Record.block, rfl, ⟨_, href', hbase, (chained_append.1 hc).1⟩, ?_, rfl, ?_⟩
  · rw [href.inner.blocksOf_eq, href'.inner.blocksOf_eq, hall, List.map_cons]
  · rw [href'.inner.blocksOf_eq, hblocks]
    simpa using hrs

theorem popRoot {ε : Type} {x : ContextuallyVerifiedBlock × Treestate}
    (hp : (c.popRoot : Exec ε _) = .ok (x, c')) :
    Rooted net (x.1.height, x.1.hash) c' ∧ blocksOf c = x.1 :: blocksOf c' := by
  obtain ⟨L, href, hbase, hc⟩ := h
  cases hrec : L.records with
  | nil =>
    have hb : c.inner.blocks.toList = [] := by simp [href.inner.blocks_toList, Lineage.blocks, hrec]
    simp [Chain.popRoot, ChainInner.nonFinalizedRootHeight, hb] at hp
  | cons r rs =>
    obtain ⟨hx, -, hrep, hnet, -⟩ := (popRoot_spec href.network href.inner hrec).2 x c' hp
    have hblocks := Lineage.blocks_eq_dropRoot hrec
    have hl := (linked_append.1 L.linked).2
    rw [hrec] at hl
    rw [hblocks] at hc
    rw [href.inner.blocksOf_eq, hrep.blocksOf_eq, hx]
    refine ⟨⟨L.dropRoot, ⟨hnet, hrep⟩, ?_, hc.2.2⟩, hblocks⟩
    simp only [Lineage.dropRoot, hrec, hl.1, List.take_succ_cons, List.take_zero,
      List.length_append, List.length_singleton]
    omega

end

end Rooted

end Zebra.Ledger
