import Zebra.Ledger.Simulation
import Zebra.Ledger.SproutSeries
import Zebra.State.Chain

namespace Zebra.Ledger

open Lib Lib.Series KeyedMap

/-- What holds after a block: the final trees of the pools, the history tree and the value
pools. -/
@[ext]
structure Snapshot where
  sprout : NoteCommitmentTree .sprout
  sapling : NoteCommitmentTree .sapling
  orchard : NoteCommitmentTree .orchard
  history : HistoryTree
  pools : ValueBalance .nonNegative

def Snapshot.tree (s : Snapshot) : (p : Pool) → NoteCommitmentTree p
  | .sprout => s.sprout
  | .sapling => s.sapling
  | .orchard => s.orchard

structure Record where
  block : ContextuallyVerifiedBlock
  after : Snapshot

variable {s : Snapshot} {b : ContextuallyVerifiedBlock} {h : Nat} {β : Type}

section

variable [MerkleHashing]

def treeAfter {p : Pool} (tree : NoteCommitmentTree p) (b : Block) :
    Except NoteCommitmentTreeError (NoteCommitmentTree p) :=
  Prod.fst <$> tree.appendAll none (b.noteCommitments p)

variable [ChainHistory]

/-- `s'` is what holds after the block `b` when `s` held before it. -/
structure Snapshot.Next (net : Network) (s : Snapshot) (b : ContextuallyVerifiedBlock) (s' : Snapshot) : Prop where
  coinbase : b.block.coinbaseHeight = some b.height
  sprout : ∃ tree, treeAfter s.sprout b.block = .ok tree ∧ s'.sprout = settleTree s.sprout tree
  sapling : ∃ tree, treeAfter s.sapling b.block = .ok tree ∧ s'.sapling = settleTree s.sapling tree
  orchard : ∃ tree, treeAfter s.orchard b.block = .ok tree ∧ s'.orchard = settleTree s.orchard tree
  history : s.history.push net b.block s'.sapling.root s'.orchard.root = .ok s'.history
  pools : s.pools.addChainValuePoolChange b.chainValuePoolChange = .ok s'.pools

theorem Snapshot.Next.unique {net : Network} {s₁ s₂ : Snapshot}
    (h₁ : s.Next net b s₁) (h₂ : s.Next net b s₂) : s₁ = s₂ := by
  obtain ⟨t, ht, hs⟩ := h₁.sprout
  obtain ⟨t', ht', hs'⟩ := h₂.sprout
  obtain ⟨u, hu, ha⟩ := h₁.sapling
  obtain ⟨u', hu', ha'⟩ := h₂.sapling
  obtain ⟨v, hv, ho⟩ := h₁.orchard
  obtain ⟨v', hv', ho'⟩ := h₂.orchard
  obtain rfl : t = t' := by simpa [ht] using ht'
  obtain rfl : u = u' := by simpa [hu] using hu'
  obtain rfl : v = v' := by simpa [hv] using hv'
  have hh := h₁.history
  rw [ha, ho, ← ha', ← ho', h₂.history] at hh
  have hp := h₁.pools.symm.trans h₂.pools
  exact Snapshot.ext (hs.trans hs'.symm) (ha.trans ha'.symm) (ho.trans ho'.symm)
    (by simpa using hh.symm) (by simpa using hp)

theorem Snapshot.Next.tree {net : Network} {s' : Snapshot} (h : s.Next net b s') :
    (p : Pool) → ∃ tree, treeAfter (s.tree p) b.block = .ok tree ∧ s'.tree p = settleTree (s.tree p) tree
  | .sprout => h.sprout
  | .sapling => h.sapling
  | .orchard => h.orchard

def Linked (net : Network) : Nat → Snapshot → List Record → Prop
  | _, _, [] => True
  | h, s, r :: rs =>
    r.block.height = h + 1 ∧ h + 1 ≤ Height.max ∧ s.Next net r.block r.after ∧ Linked net (h + 1) r.after rs

end

def lastSnapshot (s : Snapshot) (rs : List Record) : Snapshot := (rs.getLast?.map Record.after).getD s

@[simp] theorem lastSnapshot_nil (s : Snapshot) : lastSnapshot s [] = s := rfl

@[simp] theorem lastSnapshot_concat (s : Snapshot) (rs : List Record) (r : Record) :
    lastSnapshot s (rs ++ [r]) = r.after := by
  simp [lastSnapshot]

@[simp] theorem lastSnapshot_cons (s : Snapshot) (r : Record) (rs : List Record) :
    lastSnapshot s (r :: rs) = lastSnapshot r.after rs := by
  cases rs <;> simp [lastSnapshot, List.getLast?_cons]

theorem lastSnapshot_append (s : Snapshot) (rs rs' : List Record) :
    lastSnapshot s (rs ++ rs') = lastSnapshot (lastSnapshot s rs) rs' := by
  induction rs generalizing s with
  | nil => rfl
  | cons r rs ih => rw [List.cons_append, lastSnapshot_cons, lastSnapshot_cons, ih]

variable [MerkleHashing] [ChainHistory] {net : Network}

theorem linked_append {rs rs' : List Record} :
    Linked net h s (rs ++ rs') ↔ Linked net h s rs ∧ Linked net (h + rs.length) (lastSnapshot s rs) rs' := by
  induction rs generalizing h s with
  | nil => simp [Linked]
  | cons r rs ih =>
    simp only [List.cons_append, Linked, ih, lastSnapshot_cons, List.length_cons, and_assoc]
    rw [Nat.add_assoc h 1, Nat.add_comm 1]

theorem Linked.height_le {rs : List Record} (hl : Linked net h s rs) :
    ∀ r ∈ rs, h < r.block.height ∧ r.block.height ≤ h + rs.length := by
  induction rs generalizing h s with
  | nil => simp
  | cons r rs ih =>
    obtain ⟨hh, -, -, hl⟩ := hl
    intro r' hr'
    rw [List.length_cons]
    rcases List.mem_cons.1 hr' with rfl | hr'
    · omega
    · have := ih hl r' hr'
      omega

theorem Linked.tipHeight_le {rs : List Record} (hl : Linked net h s rs) (hh : h ≤ Height.max) :
    h + rs.length ≤ Height.max := by
  induction rs generalizing h s with
  | nil => exact hh
  | cons r rs ih =>
    have := ih hl.2.2.2 hl.2.1
    rw [List.length_cons]
    omega

theorem Linked.ascending {rs : List Record} (hl : Linked net h s rs) :
    rs.Pairwise fun r r' => r.block.height < r'.block.height := by
  induction rs generalizing h s with
  | nil => exact .nil
  | cons r rs ih =>
    obtain ⟨hh, -, -, hl⟩ := hl
    refine List.pairwise_cons.2 ⟨fun r' hr' => ?_, ih hl⟩
    have := hl.height_le r' hr'
    omega

/-- The history of a chain: the blocks pushed since the finalized tip it started from, of
which those in `past` were finalized. -/
@[ext]
structure Lineage (net : Network) where
  startHeight : Nat
  start : Snapshot
  past : List Record
  records : List Record
  linked : Linked net startHeight start (past ++ records)

namespace Lineage

variable (L : Lineage net)

def all : List Record := L.past ++ L.records

def tip : Snapshot := lastSnapshot L.start L.all

def tipHeight : Nat := L.startHeight + L.all.length

/-- The snapshots whose trees the chain still knows. Those of the finalized tip are dropped
with the first finalized block. -/
def kept : List (Nat × Snapshot) :=
  (if L.past.isEmpty then [(L.startHeight, L.start)] else []) ++
    L.records.map fun r => (r.block.height, r.after)

def series {β : Type} (f : Snapshot → β) : List (Nat × β) := L.kept.map fun x => (x.1, f x.2)

def blocks : Blocks := L.records.map Record.block

/-- A chain that can be extended: it was never empty after it lost its starting trees. -/
def Live : Prop := L.past = [] ∨ L.records ≠ []

theorem height_getLast? {rs : List Record} {r : Record} (hl : Linked net h s rs)
    (hr : rs.getLast? = some r) : r.block.height = h + rs.length := by
  obtain ⟨rs, rfl⟩ := List.getLast?_eq_some_iff.1 hr
  obtain ⟨-, hh, -⟩ := linked_append.1 hl
  rw [hh, List.length_append]
  rfl

theorem getLast?_kept (hL : L.Live) : L.kept.getLast? = some (L.tipHeight, L.tip) := by
  rcases hr : L.records.getLast? with _ | r
  · have hrec : L.records = [] := List.getLast?_eq_none_iff.1 hr
    have hpast : L.past = [] := hL.resolve_right (by simp [hrec])
    simp [kept, tipHeight, tip, all, hrec, hpast]
  · have hall : L.all.getLast? = some r := by simp [all, List.getLast?_append, hr]
    have hh := height_getLast? L.linked hall
    rw [kept, List.getLast?_append, List.getLast?_map, hr]
    simp only [Option.map_some, Option.some_or, hh, tipHeight, tip, lastSnapshot, hall, Option.getD_some]
    rfl

theorem ascending_kept : Ascending L.kept := by
  obtain ⟨hpast, hrec⟩ := linked_append.1 L.linked
  have hasc : Ascending (L.records.map fun r => (r.block.height, r.after)) := by
    rw [Ascending, List.pairwise_map]
    exact hrec.ascending
  unfold kept
  split
  · refine List.pairwise_append.2 ⟨List.pairwise_singleton _ _, hasc, ?_⟩
    intro x hx y hy
    obtain ⟨r, hr, rfl⟩ := List.mem_map.1 hy
    obtain rfl : x = _ := by simpa using hx
    have := hrec.height_le r hr
    simp only
    omega
  · exact hasc

theorem ascending_series (f : Snapshot → β) : Ascending (L.series f) := by
  rw [Ascending, series, List.pairwise_map]
  exact L.ascending_kept

def extend (r : Record) (hh : r.block.height = L.tipHeight + 1) (hmax : L.tipHeight + 1 ≤ Height.max)
    (hn : L.tip.Next net r.block r.after) : Lineage net where
  startHeight := L.startHeight
  start := L.start
  past := L.past
  records := L.records ++ [r]
  linked := by
    rw [← List.append_assoc]
    exact linked_append.2 ⟨L.linked, hh, hmax, hn, trivial⟩

section

variable {L} {r : Record} {hh : r.block.height = L.tipHeight + 1} {hmax : L.tipHeight + 1 ≤ Height.max}
  {hn : L.tip.Next net r.block r.after}

theorem records_extend : (L.extend r hh hmax hn).records = L.records ++ [r] := rfl

theorem kept_extend : (L.extend r hh hmax hn).kept = L.kept ++ [(L.tipHeight + 1, r.after)] := by
  simp [kept, extend, hh]

theorem series_extend (f : Snapshot → β) :
    (L.extend r hh hmax hn).series f = L.series f ++ [(L.tipHeight + 1, f r.after)] := by
  simp [series, kept_extend]

theorem tip_extend : (L.extend r hh hmax hn).tip = r.after := by
  simp [tip, all, extend, ← List.append_assoc]

theorem blocks_extend : (L.extend r hh hmax hn).blocks = L.blocks ++ [r.block] := by
  simp [blocks, extend]

end

def dropTip : Lineage net where
  startHeight := L.startHeight
  start := L.start
  past := L.past
  records := L.records.dropLast
  linked := by
    have h := L.linked
    cases hr : L.records using List.reverseRecOn with
    | nil => simpa [hr] using h
    | append_singleton rs r =>
      rw [hr, ← List.append_assoc] at h
      simpa using (linked_append.1 h).1

def dropRoot : Lineage net where
  startHeight := L.startHeight
  start := L.start
  past := L.past ++ L.records.take 1
  records := L.records.drop 1
  linked := by
    rw [List.append_assoc, List.take_append_drop]
    exact L.linked

section

variable {L} {r : Record} {rs : List Record}

theorem records_dropRoot : L.dropRoot.records = L.records.drop 1 := rfl

theorem past_dropRoot : L.dropRoot.past = L.past ++ L.records.take 1 := rfl

theorem records_eq_dropTip (hr : L.records = rs ++ [r]) : L.records = L.dropTip.records ++ [r] := by
  simp [dropTip, hr]

theorem records_eq_dropRoot (hr : L.records = r :: rs) : L.records = r :: L.dropRoot.records := by
  simp [dropRoot, hr]

theorem kept_eq_dropTip (hr : L.records = rs ++ [r]) : L.kept = L.dropTip.kept ++ [(r.block.height, r.after)]:= by
  simp [kept, dropTip, hr]

theorem series_eq_dropTip (f : Snapshot → β) (hr : L.records = rs ++ [r]) :
    L.series f = L.dropTip.series f ++ [(r.block.height, f r.after)] := by
  simp [series, kept_eq_dropTip hr]

section

variable (hr : L.records = rs ++ [r])
include hr

theorem blocks_eq_dropTip : L.blocks = L.dropTip.blocks ++ [r.block] := by
  simp [blocks, dropTip, hr]

theorem linked_dropTip : Linked net L.dropTip.tipHeight L.dropTip.tip [r]:= by
  have h := L.linked
  rw [hr, ← List.append_assoc, linked_append] at h
  simpa [dropTip, tip, tipHeight, all, hr] using h.2

theorem tip_of_records : L.tip = r.after := by
  simp [tip, all, hr, ← List.append_assoc]

theorem tipHeight_of_records : L.tipHeight = r.block.height := by
  rw [(linked_dropTip hr).1]
  simp [tipHeight, all, dropTip, hr, Nat.add_assoc]

end

theorem blocks_eq_dropRoot (hr : L.records = r :: rs) : L.blocks = r.block :: L.dropRoot.blocks := by
  simp [blocks, dropRoot, hr]

theorem all_dropRoot : L.dropRoot.all = L.all := by
  rw [all, dropRoot, List.append_assoc, List.take_append_drop]
  rfl

theorem tip_dropRoot : L.dropRoot.tip = L.tip := by
  rw [tip, tip, all_dropRoot]
  rfl

def keptRoot (L : Lineage net) (r : Record) : List (Nat × Snapshot) :=
  (if L.past.isEmpty then [(L.startHeight, L.start)] else []) ++ [(r.block.height, r.after)]

theorem kept_eq_dropRoot (hr : L.records = r :: rs) : L.kept = L.keptRoot r ++ L.dropRoot.kept := by
  simp [kept, keptRoot, dropRoot, hr]

theorem series_eq_dropRoot (f : Snapshot → β) (hr : L.records = r :: rs) :
    L.series f = (L.keptRoot r).map (fun x => (x.1, f x.2)) ++ L.dropRoot.series f := by
  simp [series, kept_eq_dropRoot hr]

theorem height_le_keptRoot (hr : L.records = r :: rs) : ∀ x ∈ L.keptRoot r, x.1 ≤ r.block.height := by
  have hasc := L.ascending_kept
  rw [kept_eq_dropRoot hr] at hasc
  have hlt := (List.pairwise_append.1 hasc).1
  rw [keptRoot] at hlt ⊢
  intro x hx
  rcases List.mem_append.1 hx with hx | hx
  · exact ((List.pairwise_append.1 hlt).2.2 x hx _ (List.mem_singleton_self _)).le
  · rw [List.mem_singleton.1 hx]

theorem height_lt_dropRoot (hr : L.records = r :: rs) : ∀ x ∈ L.dropRoot.kept, r.block.height < x.1 := by
  have hasc := L.ascending_kept
  rw [kept_eq_dropRoot hr] at hasc
  exact fun x hx => (List.pairwise_append.1 hasc).2.2 (r.block.height, r.after) (by simp [keptRoot]) x hx

end

theorem getLast?_series (f : Snapshot → β) (hL : L.Live) : (L.series f).getLast? = some (L.tipHeight, f L.tip):= by
  rw [series, List.getLast?_map, L.getLast?_kept hL]
  rfl

end Lineage

def workOf (b : ContextuallyVerifiedBlock) : Nat :=
  (CompactDifficulty.toWork b.block.header.difficultyThreshold).getD 0

def totalWork (bs : Blocks) : Nat := (bs.map workOf).sum

variable [ScriptParsing]

def blocksJournal (net : Network) (bs : Blocks) : Multiset Entry :=
  (bs.map fun b => ((journal net b : List Entry) : Multiset Entry)).sum

/-- The indexes of a chain represent its history. -/
structure Represents (c : ChainInner) (L : Lineage net) : Prop where
  blocks : Indexes c.blocks ((L.blocks.map fun b => (b.height, b) : List _) : Multiset _)
  heightByHash : Indexes c.heightByHash ((L.blocks.map fun b => (b.hash, b.height) : List _) : Multiset _)
  transactions : Holds c.toTxIndexes (blocksJournal net L.blocks)
  sprout : TracksSprout c.sprout (L.series Snapshot.sprout)
  sapling : Tracks c.sapling (L.series Snapshot.sapling)
  orchard : Tracks c.orchard (L.series Snapshot.orchard)
  history : Indexes c.historyTreesByHeight ((L.series Snapshot.history : List _) : Multiset _)
  validWork : ∀ b ∈ L.blocks, (CompactDifficulty.toWork b.block.header.difficultyThreshold).isSome
  work : c.partialCumulativeWork = totalWork L.blocks
  workMax : totalWork L.blocks ≤ u128Max
  pools : c.chainValuePools = L.tip.pools
  info : Indexes c.blockInfoByHeight
    ((L.records.map fun r => (r.block.height, BlockInfo.mk r.after.pools (r.block.block.serializedSize % 2 ^ 32)) :
      List _) : Multiset _)

end Zebra.Ledger
