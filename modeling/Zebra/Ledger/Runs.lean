import Zebra.Ledger.Fork
import Zebra.State.Runs

namespace Zebra.Ledger

open Lib Lib.Transition KeyedMap

variable [ScriptParsing] {net : Network}

def keptByFork (bs : Blocks) (hash : BlockHash) : Blocks :=
  bs.take (bs.findIdx (·.hash = hash) + 1)

def blocksAfter (bs : Blocks) : ChainOp → Blocks
  | .push b => bs ++ [b]
  | .fork hash => keptByFork bs hash
  | .popRoot => bs.tail

/-- The operation keeps the address balances of the chain in range, whatever the order of
its transfers. -/
def FitsStep (net : Network) (bs : Blocks) : ChainOp → Prop
  | .push b => BalancesFit (balance (blocksJournal net bs)) (deltas (journal net b))
  | .fork hash => TipRevertsFit net (keptByFork bs hash) (bs.drop (keptByFork bs hash).length)
  | .popRoot => ∀ b ∈ bs.head?, RevertFits net bs b

instance (bs : Blocks) : (op : ChainOp) → Decidable (FitsStep net bs op)
  | .push _ => inferInstanceAs (Decidable (BalancesFit _ _))
  | .fork _ => inferInstanceAs (Decidable (TipRevertsFit net _ _))
  | .popRoot => inferInstanceAs (Decidable (∀ b ∈ bs.head?, RevertFits net bs b))

def OpsFit (net : Network) : Blocks → List ChainOp → Prop
  | _, [] => True
  | bs, op :: ops => FitsStep net bs op ∧ OpsFit net (blocksAfter bs op) ops

instance decidableOpsFit (net : Network) :
    (bs : Blocks) → (ops : List ChainOp) → Decidable (OpsFit net bs ops)
  | _, [] => isTrue trivial
  | bs, op :: ops =>
    haveI := decidableOpsFit net (blocksAfter bs op) ops
    inferInstanceAs (Decidable (_ ∧ _))

theorem opsFit_append {bs : Blocks} {ops ops' : List ChainOp} :
    OpsFit net bs (ops ++ ops') ↔ OpsFit net bs ops ∧ OpsFit net (ops.foldl blocksAfter bs) ops' := by
  induction ops generalizing bs with
  | nil => simp [OpsFit]
  | cons op ops ih => simp [OpsFit, ih, and_assoc]

omit [ScriptParsing] in
theorem foldl_blocksAfter_pushes (bs bs' : Blocks) :
    (bs'.map .push).foldl blocksAfter bs = bs ++ bs' := by
  induction bs' generalizing bs with
  | nil => simp
  | cons b bs' ih => simp [blocksAfter, ih]

variable [MerkleHashing] [ChainHistory]

/-- What a successful operation does to the history of a chain. -/
inductive Lineage.Step : Lineage net → ChainOp → Lineage net → Prop
  | push {L : Lineage net} {b : ContextuallyVerifiedBlock} {s' : Snapshot} (hL : L.Live)
      (hh : b.height = L.tipHeight + 1) (hmax : L.tipHeight + 1 ≤ Height.max) (hp : Pushable L b s') :
      Step L (.push b) (L.extend ⟨b, s'⟩ hh hmax hp.next)
  | fork {L : Lineage net} {r : Record} {rs removed : List Record} (hr : L.records = rs ++ [r] ++ removed)
      (hfit : TipRevertsFit net ((rs ++ [r]).map Record.block) (removed.map Record.block)) :
      Step L (.fork r.block.hash) (L.take (rs.length + 1))
  | popRoot {L : Lineage net} {r : Record} {rs : List Record} (hr : L.records = r :: rs)
      (hfit : RevertFits net L.blocks r.block) : Step L .popRoot L.dropRoot

structure Refines (ch : Chain) (L : Lineage net) : Prop where
  network : ch.network = net
  inner : Represents ch.inner L

variable {ch ch' : Chain} {L L' : Lineage net} {op : ChainOp}

theorem Represents.tipHeight_eq (h : Represents ch.inner L) (hL : L.Live) : ch.tipHeight = some L.tipHeight := by
  rw [Chain.tipHeight, h.history.toList_eq (compare_lt_of_ascending (L.ascending_series _)), L.getLast?_series _ hL]
  rfl

theorem Represents.live (h : Represents ch.inner L) {k : Nat} (hk : ch.tipHeight = some k) : L.Live := by
  rw [Chain.tipHeight, h.history.toList_eq (compare_lt_of_ascending (L.ascending_series _))] at hk
  by_contra hL
  simp only [Lineage.Live, not_or, ne_eq, not_not] at hL
  simp [Lineage.series, Lineage.kept, hL.1, hL.2] at hk

/-- The subtrees of a pool after an operation on a chain with history `L`. -/
def subtreesAfter (L : Lineage net) (p : Pool) (m : Subtrees) :
    ChainOp → Subtrees
  | .push b => insertSubtree m (completedBy (L.tip.tree p) b.block)
  | .fork _ => m
  | .popRoot => (L.records.head?.map fun r => subtreesAfterRoot m r.block.height).getD m

theorem step_sound (h : Refines ch L) (hs : ch.Step op ch') : ∃ L' : Lineage net, L.Step op L' ∧ Refines ch' L' ∧
      ch'.inner.saplingSubtrees = subtreesAfter L .sapling ch.inner.saplingSubtrees op ∧
      ch'.inner.orchardSubtrees = subtreesAfter L .orchard ch.inner.orchardSubtrees op := by
  obtain ⟨rfl, h⟩ := h
  cases hs with
  | @push _ b hnext hpush =>
    obtain ⟨k, hk, hkb⟩ := Option.map_eq_some_iff.1 hnext.height
    have hL := h.live hk
    obtain rfl : L.tipHeight = k := by simpa [h.tipHeight_eq hL] using hk
    obtain ⟨inner, hu, heq⟩ := bind_eq_ok.1 hpush
    cases heq
    obtain ⟨⟨s', hp, hrep⟩, hsap, horch⟩ := update_represents h hL hkb.symm (hkb ▸ hnext.height_le)
      hnext.coinbaseHeight hu
    exact ⟨_, .push hL hkb.symm (hkb ▸ hnext.height_le) hp, ⟨rfl, hrep⟩, hsap, horch⟩
  | @fork _ hash hfork =>
    by_cases hmem : hash ∈ L.blocks.map ContextuallyVerifiedBlock.hash
    · obtain ⟨b, hb, rfl⟩ := List.mem_map.1 hmem
      obtain ⟨r, hr, rfl⟩ := List.mem_map.1 hb
      obtain ⟨rs, removed, hrec⟩ := List.append_of_mem hr
      have hrec' : L.records = rs ++ [r] ++ removed := by simpa using hrec
      obtain ⟨hsucc, hres⟩ := fork_spec rfl h hrec'
      obtain ⟨hrep, hnet, hsap, horch⟩ := hres ch' hfork
      exact ⟨_, .fork hrec' (hsucc.1 ⟨_, hfork⟩), ⟨hnet, hrep⟩, hsap, horch⟩
    · rw [fork_eq_none h hmem] at hfork
      simp at hfork
  | @popRoot _ x hpop =>
    cases hrec : L.records with
    | nil =>
      have hb : ch.inner.blocks.toList = [] := by simp [h.blocks_toList, Lineage.blocks, hrec]
      simp [Chain.popRoot, ChainInner.nonFinalizedRootHeight, hb] at hpop
    | cons r rs =>
      obtain ⟨hsucc, hres⟩ := popRoot_spec rfl h hrec
      obtain ⟨-, -, hrep, hnet, -, hsap, horch⟩ := hres x ch' hpop
      refine ⟨_, .popRoot hrec (hsucc.1 ⟨_, hpop⟩), ⟨hnet, hrep⟩, ?_, ?_⟩
      · simpa [subtreesAfter, hrec] using hsap
      · simpa [subtreesAfter, hrec] using horch

theorem step_exists (h : Refines ch L) (hs : L.Step op L') : ∃ ch', ch.Step op ch' := by
  obtain ⟨rfl, h⟩ := h
  cases hs with
  | @push b s' hL hh hmax hp =>
    obtain ⟨inner, hu⟩ := update_of_pushable h hL hh hmax hp
    refine ⟨_, .push ⟨?_, hh ▸ hmax, hp.next.coinbase⟩ (bind_eq_ok.2 ⟨inner, hu, rfl⟩)⟩
    rw [h.tipHeight_eq hL, hh]
    rfl
  | @fork r rs removed hr hfit =>
    obtain ⟨hsucc, -⟩ := fork_spec rfl h hr
    obtain ⟨o, ho⟩ := hsucc.2 hfit
    have ho' := ho
    rw [Chain.fork, if_pos (h.hash_mem (by simp [hr]))] at ho'
    obtain ⟨ch', -, rfl⟩ := map_eq_ok.1 ho'
    exact ⟨ch', .fork ho⟩
  | @popRoot r rs hr hfit =>
    obtain ⟨⟨x, ch'⟩, hx⟩ := (popRoot_spec rfl h hr).1.2 hfit
    exact ⟨ch', .popRoot hx⟩

omit [ScriptParsing] in
theorem length_eq_of_hash {rs rs' removed removed' : List Record} {r r' : Record}
    (hn : (L.blocks.map ContextuallyVerifiedBlock.hash).Nodup) (hr : L.records = rs ++ [r] ++ removed)
    (hr' : L.records = rs' ++ [r'] ++ removed') (hhash : r.block.hash = r'.block.hash) : rs.length = rs'.length := by
  refine (List.getElem?_inj (by simp [Lineage.blocks, hr]) hn).1 ?_
  have hi : L.records[rs.length]? = some r := by simp [hr]
  have hi' : L.records[rs'.length]? = some r' := by simp [hr']
  simp [Lineage.blocks, hi, hi', hhash]

theorem Lineage.Step.unique (hn : op.IsFork → (L.blocks.map ContextuallyVerifiedBlock.hash).Nodup) {L₁ L₂ : Lineage net}
    (h₁ : L.Step op L₁) (h₂ : L.Step op L₂) : L₁ = L₂ := by
  cases h₁ with
  | @push b s₁ _ _ _ hp₁ =>
    cases h₂ with
    | @push _ s₂ _ _ _ hp₂ =>
      obtain rfl := hp₁.next.unique hp₂.next
      rfl
  | @fork r rs removed hr hfit =>
    generalize hh : r.block.hash = hash at h₂
    cases h₂ with
    | @fork r' rs' removed' hr' =>
      rw [length_eq_of_hash (hn trivial) hr hr' hh]
  | popRoot =>
    cases h₂
    rfl

omit [ScriptParsing] in
theorem keptByFork_eq {rs removed : List Record} {r : Record}
    (hn : (L.blocks.map ContextuallyVerifiedBlock.hash).Nodup) (hr : L.records = rs ++ [r] ++ removed) :
    keptByFork L.blocks r.block.hash = (rs ++ [r]).map Record.block := by
  have hbs : L.blocks = rs.map Record.block ++ r.block :: removed.map Record.block := by
    simp [Lineage.blocks, hr]
  have hi : (rs.map Record.block).findIdx (·.hash = r.block.hash) = (rs.map Record.block).length := by
    rw [List.findIdx_eq_length]
    intro b hb
    rw [hbs, List.map_append, List.map_cons] at hn
    refine decide_eq_false fun he => ?_
    exact List.disjoint_of_nodup_append hn (List.mem_map_of_mem hb) (by simp [he])
  have hi' : L.blocks.findIdx (·.hash = r.block.hash) = rs.length := by
    rw [hbs, List.findIdx_append, hi, List.findIdx_cons]
    simp
  rw [keptByFork, hi', Lineage.blocks, hr, ← List.map_take, List.take_left' (by simp)]

theorem fitsStep_fork {rs removed : List Record} {r : Record}
    (hn : (L.blocks.map ContextuallyVerifiedBlock.hash).Nodup) (hr : L.records = rs ++ [r] ++ removed) :
    FitsStep net L.blocks (.fork r.block.hash) ↔
      TipRevertsFit net ((rs ++ [r]).map Record.block) (removed.map Record.block) := by
  rw [FitsStep, keptByFork_eq hn hr, Lineage.blocks, hr, ← List.map_drop, List.length_map, List.drop_left]

theorem Lineage.Step.blocks (hn : op.IsFork → (L.blocks.map ContextuallyVerifiedBlock.hash).Nodup) (hs : L.Step op L') :
    L'.blocks = blocksAfter L.blocks op ∧ FitsStep net L.blocks op := by
  cases hs with
  | push hL hh hmax hp => exact ⟨blocks_extend, hp.fits⟩
  | @fork r rs removed hr hfit =>
    refine ⟨?_, (fitsStep_fork (hn trivial) hr).2 hfit⟩
    rw [blocksAfter, keptByFork_eq (hn trivial) hr, ← Lineage.blocks_take hr, List.length_append,
      List.length_singleton]
  | @popRoot r rs hr hfit =>
    refine ⟨by rw [blocksAfter, blocks_eq_dropRoot hr, List.tail_cons], ?_⟩
    intro b hb
    obtain rfl : r.block = b := by simpa [blocks_eq_dropRoot hr] using hb
    exact hfit

def withoutSubtrees (c : ChainInner) : ChainInner := { c with saplingSubtrees := ∅, orchardSubtrees := ∅ }

theorem Represents.unique (hcf : CollisionFree) {c c' : ChainInner} (h : Represents c L) (h' : Represents c' L) :
    withoutSubtrees c = withoutSubtrees c' := by
  have hidx := h.transactions.unique h'.transactions
  obtain ⟨idx, _, _, _, _, _, _, _, _, _, _, _⟩ := c
  obtain ⟨idx', _, _, _, _, _, _, _, _, _, _, _⟩ := c'
  obtain rfl : idx = idx' := hidx
  simp only [withoutSubtrees, ChainInner.mk.injEq, true_and]
  exact ⟨h.blocks.unique h'.blocks, h.heightByHash.unique h'.heightByHash, h.sprout.unique hcf h'.sprout,
    h.sapling.toTracksFrom.unique h'.sapling.toTracksFrom, h.orchard.toTracksFrom.unique h'.orchard.toTracksFrom,
    h.history.unique h'.history, h.work.trans h'.work.symm, h.pools.trans h'.pools.symm, h.info.unique h'.info⟩

omit [ScriptParsing] [MerkleHashing] [ChainHistory] in
theorem eq_of_withoutSubtrees {c c' : ChainInner} (h : withoutSubtrees c = withoutSubtrees c')
    (hsap : c.saplingSubtrees = c'.saplingSubtrees) (horch : c.orchardSubtrees = c'.orchardSubtrees) : c = c' := by
  obtain ⟨idx, _, _, _, _, _, _, _, _, _, _, _⟩ := c
  obtain ⟨idx', _, _, _, _, _, _, _, _, _, _, _⟩ := c'
  simp only [withoutSubtrees, ChainInner.mk.injEq, true_and] at h
  simp only at hsap horch
  obtain ⟨rfl, rfl, rfl, rfl, rfl, rfl, rfl, rfl, rfl, rfl⟩ := h
  subst hsap horch
  rfl

def Lineage.fresh (net : Network) (height : Nat) (s : Snapshot) : Lineage net where
  startHeight := height
  start := s
  past := []
  records := []
  linked := trivial

theorem new_spec {ε : Type} (net : Network) {height : Nat} (hh : height ≤ Height.max) (s : Snapshot) :
    ∃ ch, (Chain.new net height s.sprout s.sapling s.orchard s.history s.pools : Exec ε _) = .ok ch ∧
      Refines ch (Lineage.fresh net height s) ∧ ch.inner.saplingSubtrees = ∅ ∧ ch.inner.orchardSubtrees = ∅ := by
  obtain ⟨sprout, hsprout, hts⟩ := tracksSprout_singleton (ε := ε) hh s.sprout
  obtain ⟨sapling, hsapling, hta⟩ := tracks_singleton (ε := ε) hh s.sapling
  obtain ⟨orchard, horchard, hto⟩ := tracks_singleton (ε := ε) hh s.orchard
  have hhist : (HistoryTrees.add ∅ height s.history : Exec ε _) = .ok ((∅ : HistoryTrees).insert height s.history) :=
    insertNew_of_not_mem (by simp) _
  refine ⟨_, by simp only [Chain.new, hsprout, hsapling, horchard, hhist, Outcome.ok_bind]; rfl, ⟨rfl, ?_⟩, rfl, rfl⟩
  exact {
    blocks := indexes_empty
    heightByHash := indexes_empty
    transactions := holds_empty
    sprout := hts
    sapling := hta
    orchard := hto
    history := indexes_empty.concat (l := []) (by simp)
    validWork := by simp [Lineage.blocks, Lineage.fresh]
    work := rfl
    workMax := Nat.zero_le _
    pools := rfl
    info := indexes_empty }

structure RefinesExactly (ch : Chain) (L : Lineage net) : Prop extends Refines ch L where
  sapling : HoldsSubtrees ch.inner.saplingSubtrees .sapling L
  orchard : HoldsSubtrees ch.inner.orchardSubtrees .orchard L

theorem subtreesAfter_holds (hcf : CollisionFree) {p : Pool} {m : Subtrees}
    (hm : HoldsSubtrees m p L) (hs : L.Step op L') (hfork : op.IsFork → L'.completed p = L.completed p) :
    HoldsSubtrees (subtreesAfter L p m op) p L' := by
  cases hs with
  | @push b s' hL hh hmax hp => exact hm.insertSubtree (r := ⟨b, s'⟩) hcf
  | fork hr hfit =>
    rw [HoldsSubtrees, hfork trivial]
    exact hm
  | popRoot hr hfit =>
    simp only [subtreesAfter, hr, List.head?_cons, Option.map_some, Option.getD_some]
    exact hm.dropRoot hcf hr

theorem step_exact (hcf : CollisionFree) (h : RefinesExactly ch L) (hs : ch.Step op ch')
    (hfork : ∀ L' : Lineage net, L.Step op L' → op.IsFork →
      L'.completed .sapling = L.completed .sapling ∧ L'.completed .orchard = L.completed .orchard) :
    ∃ L' : Lineage net, L.Step op L' ∧ RefinesExactly ch' L' := by
  obtain ⟨L', hL', href, hsap, horch⟩ := step_sound h.toRefines hs
  refine ⟨L', hL', href, ?_, ?_⟩
  · rw [hsap]
    exact subtreesAfter_holds hcf h.sapling hL' fun hf => (hfork L' hL' hf).1
  · rw [horch]
    exact subtreesAfter_holds hcf h.orchard hL' fun hf => (hfork L' hL' hf).2

theorem new_exact {ε : Type} {height : Nat} (hh : height ≤ Height.max) (s : Snapshot)
    (hnew : (Chain.new net height s.sprout s.sapling s.orchard s.history s.pools : Exec ε _) = .ok ch) :
    RefinesExactly ch (Lineage.fresh net height s) := by
  obtain ⟨ch', hnew', href, hsap, horch⟩ := new_spec (ε := ε) net hh s
  obtain rfl : ch' = ch := by simpa [hnew'] using hnew
  refine ⟨href, ?_, ?_⟩
  · rw [hsap]
    exact indexes_empty
  · rw [horch]
    exact indexes_empty

theorem step_complete (h : Refines ch L) (hs : L.Step op L') : ∃ ch', ch.Step op ch' ∧ Refines ch' L' ∧
      ch'.inner.saplingSubtrees = subtreesAfter L .sapling ch.inner.saplingSubtrees op ∧
      ch'.inner.orchardSubtrees = subtreesAfter L .orchard ch.inner.orchardSubtrees op := by
  obtain ⟨ch', hch'⟩ := step_exists h hs
  obtain ⟨L'', hs', hres⟩ := step_sound h hch'
  obtain rfl := hs.unique (fun _ => h.inner.nodup_hashes) hs'
  exact ⟨ch', hch', hres⟩

theorem run_sound {ops : List ChainOp} (h : Refines ch L) (hr : Run Chain.Step ch ops ch') :
    ∃ L' : Lineage net, Run Lineage.Step L ops L' ∧ Refines ch' L' := by
  refine hr.simulate (fun ch L op ch' h hs => ?_) h
  obtain ⟨L', hL', href, -⟩ := step_sound h hs
  exact ⟨L', hL', href⟩

theorem run_complete {ops : List ChainOp} (h : Refines ch L) (hr : Run Lineage.Step L ops L') :
    ∃ ch', Run Chain.Step ch ops ch' ∧ Refines ch' L' := by
  refine hr.simulate (R := fun L ch => Refines ch L) (fun L ch op L' h hs => ?_) h
  obtain ⟨ch', hch', href, -⟩ := step_complete h hs
  exact ⟨ch', hch', href⟩

theorem run_exact (hcf : CollisionFree) {ops : List ChainOp} (h : RefinesExactly ch L)
    (hops : ∀ op ∈ ops, ¬ op.IsFork) (hr : Run Chain.Step ch ops ch') :
    ∃ L' : Lineage net, Run Lineage.Step L ops L' ∧ RefinesExactly ch' L' ∧
      L'.blocks = ops.foldl blocksAfter L.blocks := by
  induction hr generalizing L with
  | nil ch => exact ⟨L, .nil L, h, rfl⟩
  | cons hs _ ih =>
    obtain ⟨L₁, hL₁, h₁⟩ := step_exact hcf h hs fun _ _ hf => absurd hf (hops _ (by simp))
    obtain ⟨L', hL', h', hblocks⟩ := ih h₁ fun op hop => hops op (by simp [hop])
    rw [(hL₁.blocks fun _ => h.inner.nodup_hashes).1] at hblocks
    exact ⟨L', .cons hL₁ hL', h', hblocks⟩

theorem run_fits {ops : List ChainOp} (h : Refines ch L) (hr : Run Chain.Step ch ops ch') :
    OpsFit net L.blocks ops := by
  induction hr generalizing L with
  | nil ch => trivial
  | cons hs _ ih =>
    obtain ⟨L₁, hL₁, h₁, -⟩ := step_sound h hs
    obtain ⟨hblocks, hfit⟩ := hL₁.blocks fun _ => h.inner.nodup_hashes
    exact ⟨hfit, hblocks ▸ ih h₁⟩

theorem run_complete_exact (hcf : CollisionFree) {ops : List ChainOp} (h : RefinesExactly ch L)
    (hops : ∀ op ∈ ops, ¬ op.IsFork) (hr : Run Lineage.Step L ops L') :
    ∃ ch', Run Chain.Step ch ops ch' ∧ RefinesExactly ch' L' := by
  induction hr generalizing ch with
  | nil => exact ⟨ch, .nil ch, h⟩
  | cons hs _ ih =>
    obtain ⟨ch₁, hs₁, h₁, hsap, horch⟩ := step_complete h.toRefines hs
    have hnf := hops _ List.mem_cons_self
    have h₁' : RefinesExactly ch₁ _ := ⟨h₁, hsap ▸ subtreesAfter_holds hcf h.sapling hs fun hf => absurd hf hnf,
      horch ▸ subtreesAfter_holds hcf h.orchard hs fun hf => absurd hf hnf⟩
    obtain ⟨ch', hr', h'⟩ := ih h₁' fun op hop => hops op (by simp [hop])
    exact ⟨ch', .cons hs₁ hr', h'⟩

omit [MerkleHashing] [ChainHistory] in
theorem blocksJournal_le (net : Network) {bs bs' : Blocks} (h : bs.Sublist bs') :
    blocksJournal net bs ≤ blocksJournal net bs' := by
  induction h with
  | slnil => exact le_rfl
  | cons b _ ih => exact ih.trans (Multiset.le_add_left _ _)
  | cons_cons b _ ih => simpa [blocksJournal] using ih

theorem pushable_of_sublist {c : ChainInner} (h : Represents c L) {M : Lineage net} {r : Record}
    (hsub : (M.blocks ++ [r.block]).Sublist L.blocks) (hn : M.tip.Next net r.block r.after)
    (hfit : FitsStep net M.blocks (.push r.block)) : Pushable M r.block r.after := by
  have hJ := blocksJournal_le net hsub
  rw [blocksJournal_concat] at hJ
  exact {
    next := hn
    hash := by
      have hnd := (hsub.map ContextuallyVerifiedBlock.hash).nodup h.nodup_hashes
      rw [List.map_append] at hnd
      exact fun hm => List.disjoint_of_nodup_append hnd hm (by simp)
    validWork := h.validWork r.block (hsub.subset (by simp))
    workMax := by
      have hw := (hsub.map workOf).sum_le_sum (by simp)
      rw [List.map_append, List.sum_append] at hw
      exact (by simpa [totalWork] using hw : _ ≤ totalWork L.blocks).trans h.workMax
    sound := fun e he => h.transactions.sound e (Multiset.mem_of_le hJ (by simp [he]))
    distinct := Multiset.nodup_of_le (Multiset.map_le_map hJ) h.transactions.distinct
    fits := hfit }

theorem run_unique {ops : List ChainOp} (hops : ∀ op ∈ ops, ¬ op.IsFork) {L₁ L₂ : Lineage net}
    (h₁ : Run Lineage.Step L ops L₁) (h₂ : Run Lineage.Step L ops L₂) : L₁ = L₂ := by
  induction h₁ with
  | nil => exact (run_nil_iff.1 h₂).symm
  | cons hs _ ih =>
    obtain ⟨M, hM, h₂⟩ := run_cons_iff.1 h₂
    obtain rfl := hs.unique (fun hf => absurd hf (hops _ List.mem_cons_self)) hM
    exact ih (fun op hop => hops op (by simp [hop])) h₂

theorem records_of_pushes {bs : Blocks} (hr : Run Lineage.Step L (bs.map .push) L') :
    L'.startHeight = L.startHeight ∧ L'.start = L.start ∧ L'.past = L.past ∧
      ∃ rs, L'.records = L.records ++ rs ∧ rs.map Record.block = bs := by
  induction bs generalizing L with
  | nil =>
    obtain rfl := run_nil_iff.1 hr
    exact ⟨rfl, rfl, rfl, [], by simp⟩
  | cons b bs ih =>
    obtain ⟨L₁, hs, hr⟩ := run_cons_iff.1 hr
    cases hs with
    | @push _ s' hL hh hmax hp =>
      obtain ⟨hh', hs', hp', rs, hrs, hbs⟩ := ih hr
      refine ⟨hh', hs', hp', ⟨b, s'⟩ :: rs, ?_, by simp [hbs]⟩
      rw [hrs, Lineage.records_extend]
      simp

theorem run_pushes {c : ChainInner} (h : Represents c L) (M : Lineage net) (rs : List Record) (hM : M.Live)
    (hl : Linked net M.tipHeight M.tip rs) (hsub : (M.blocks ++ rs.map Record.block).Sublist L.blocks)
    (hfit : OpsFit net M.blocks (rs.map fun r => .push r.block)) :
    ∃ M', Run Lineage.Step M (rs.map fun r => .push r.block) M' ∧ M'.startHeight = M.startHeight ∧
      M'.start = M.start ∧ M'.past = M.past ∧ M'.records = M.records ++ rs := by
  induction rs generalizing M with
  | nil => exact ⟨M, .nil M, rfl, rfl, rfl, by simp⟩
  | cons r rs ih =>
    obtain ⟨hh, hmax, hn, hl⟩ := hl
    have hp : Pushable M r.block r.after :=
      pushable_of_sublist h (.trans (List.Sublist.append_left (by simp) _) hsub) hn hfit.1
    have htip : (M.extend r hh hmax hn).tip = r.after := Lineage.tip_extend
    have hheight : (M.extend r hh hmax hn).tipHeight = M.tipHeight + 1 := by
      simp [Lineage.tipHeight, Lineage.all, Lineage.extend, Nat.add_assoc]
    obtain ⟨M', hr, hh', hs', hp', hrec⟩ := ih (M.extend r hh hmax hn)
      (.inr (by simp [Lineage.records_extend])) (by rwa [htip, hheight])
      (by rw [Lineage.blocks_extend]; simpa using hsub) (by rw [Lineage.blocks_extend]; exact hfit.2)
    exact ⟨M', .cons (.push hM hh hmax hp) hr, hh', hs', hp', by simp [hrec, Lineage.records_extend]⟩

end Zebra.Ledger
