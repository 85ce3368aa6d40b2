import Zebra.Properties.Sample

namespace Zebra.Properties

open Lib Lib.Transition Ledger Lineage ChainOp

section

variable [ScriptParsing] [MerkleHashing] [ChainHistory] {net : Network} {ch : Chain} {L L' M : Lineage net}
  {r : Record} {rs : List Record}

omit [ScriptParsing] in
def since (n : Nat) (L : Lineage net) (hp : L.past = []) : Lineage net where
  startHeight := L.startHeight + (L.records.take n).length
  start := lastSnapshot L.start (L.records.take n)
  past := []
  records := L.records.drop n
  linked := by
    have h := L.linked
    rw [hp, List.nil_append, ← List.take_append_drop n L.records] at h
    exact (linked_append.1 h).2

def finalized : Nat → Lineage net → Lineage net
  | 0, L => L
  | n + 1, L => finalized n L.dropRoot

omit [ScriptParsing] in
theorem finalized_records (n : Nat) : (finalized n L).records = L.records.drop n := by
  induction n generalizing L with
  | zero => rfl
  | succ n ih => rw [finalized, ih, records_dropRoot, List.drop_drop, Nat.add_comm]

omit [ScriptParsing] in
theorem finalized_past (n : Nat) : (finalized n L).past = L.past ++ L.records.take n := by
  induction n generalizing L with
  | zero => simp [finalized]
  | succ n ih =>
    rw [finalized, ih, past_dropRoot, records_dropRoot, List.append_assoc, Nat.add_comm, List.take_add]

omit [ScriptParsing] in
theorem finalized_start (n : Nat) :
    (finalized n L).start = L.start ∧ (finalized n L).startHeight = L.startHeight ∧ (finalized n L).tip = L.tip := by
  induction n generalizing L with
  | zero => exact ⟨rfl, rfl, rfl⟩
  | succ n ih => exact ⟨ih.1, ih.2.1, ih.2.2.trans tip_dropRoot⟩

variable {n : Nat} {c : ChainInner} {ch₀ : Chain}

theorem run_popRoots (hn : n ≤ L.records.length) (hfit : OpsFit net L.blocks (List.replicate n .popRoot)) :
    Run Lineage.Step L (List.replicate n .popRoot) (finalized n L) := by
  induction n generalizing L with
  | zero => exact .nil L
  | succ n ih =>
    obtain ⟨r, rs, hr⟩ := List.exists_cons_of_length_pos (Nat.zero_lt_of_lt hn)
    have hroot := hfit.1 r.block (by simp [blocks, hr])
    have htail : L.dropRoot.blocks = blocksAfter L.blocks .popRoot := by
      rw [blocksAfter, blocks_eq_dropRoot hr, List.tail_cons]
    refine .cons (.popRoot hr hroot) (ih ?_ (htail ▸ hfit.2))
    rw [records_dropRoot, List.length_drop]
    omega

theorem eq_finalized (hr : Run Lineage.Step L (List.replicate n .popRoot) L') : L' = finalized n L := by
  induction n generalizing L with
  | zero => exact run_nil_iff.1 hr
  | succ n ih =>
    obtain ⟨L₁, hs, hr⟩ := run_cons_iff.1 hr
    cases hs with
    | popRoot => exact ih hr

/-- Two histories that a chain cannot tell apart. -/
structure Alike (L L' : Lineage net) : Prop where
  kept : L.kept = L'.kept
  records : L.records = L'.records
  tip : L.tip = L'.tip
  before : lastSnapshot L.start L.past = lastSnapshot L'.start L'.past

theorem Alike.represents (ha : Alike L L') (h : Represents c L) : Represents c L' := by
  have hblocks : L.blocks = L'.blocks := by rw [blocks, ha.records, blocks]
  have hseries : ∀ {β : Type} (f : Snapshot → β), L.series f = L'.series f := fun f => by
    rw [series, ha.kept, series]
  exact {
    blocks := hblocks ▸ h.blocks
    heightByHash := hblocks ▸ h.heightByHash
    transactions := hblocks ▸ h.transactions
    sprout := hseries _ ▸ h.sprout
    sapling := hseries _ ▸ h.sapling
    orchard := hseries _ ▸ h.orchard
    history := hseries _ ▸ h.history
    validWork := hblocks ▸ h.validWork
    work := hblocks ▸ h.work
    workMax := hblocks ▸ h.workMax
    pools := ha.tip ▸ h.pools
    info := ha.records ▸ h.info }

theorem Alike.inner_eq (hcf : CollisionFree) {ch ch' : Chain} (ha : Alike L L') (h : RefinesExactly ch L)
    (h' : RefinesExactly ch' L') : ch.inner = ch'.inner := by
  have hsub : ∀ {m p}, HoldsSubtrees m p L → HoldsSubtrees m p L' := fun {m p} hm => by
    rwa [HoldsSubtrees, completed, ha.before, ha.records] at hm
  exact eq_of_withoutSubtrees ((ha.represents h.inner).unique hcf h'.inner)
    (KeyedMap.Indexes.unique (hsub h.sapling) h'.sapling) (KeyedMap.Indexes.unique (hsub h.orchard) h'.orchard)

omit [ScriptParsing] in
theorem alike_finalized_since (hp : L.past = []) (hn : n < L.records.length) :
    Alike (finalized (n + 1) L) (since n L hp).dropRoot := by
  have hpast : (finalized (n + 1) L).past = L.records.take (n + 1) := by rw [finalized_past, hp, List.nil_append]
  have hpast' : (since n L hp).dropRoot.past = (L.records.drop n).take 1 := by
    rw [past_dropRoot]
    rfl
  have hrec : (finalized (n + 1) L).records = (since n L hp).dropRoot.records := by
    rw [finalized_records, records_dropRoot]
    exact (List.drop_drop).symm
  have hne : L.records.take (n + 1) ≠ [] := by
    rw [ne_eq, List.take_eq_nil_iff]
    rintro (h | h)
    · omega
    · simp [h] at hn
  have hne' : (L.records.drop n).take 1 ≠ [] := by
    rw [ne_eq, List.take_eq_nil_iff, List.drop_eq_nil_iff]
    omega
  exact {
    kept := by simp [kept, hpast, hpast', hne, hne', hrec]
    records := hrec
    tip := by
      rw [(finalized_start _).2.2, tip_dropRoot, tip, Lineage.all, hp, List.nil_append,
        ← List.take_append_drop n L.records, lastSnapshot_append]
      rfl
    before := by
      rw [hpast, hpast', (finalized_start _).1, List.take_add, lastSnapshot_append]
      rfl }

def TipTreesAre (c : ChainInner) (t : Treestate) : Prop :=
  (c.sprout.index.treeForTip : Validated _) = .ok t.sprout ∧
    (c.sapling.treeForTip : Validated _) = .ok t.sapling ∧
    (c.orchard.treeForTip : Validated _) = .ok t.orchard ∧
    (HistoryTrees.forTip c.historyTreesByHeight : Validated _) = .ok t.history

theorem tipTreesAre_iff (h : Represents c L) (hL : L.Live) {t : Treestate} :
    TipTreesAre c t ↔ t.sprout = L.tip.sprout ∧ t.sapling = L.tip.sapling ∧ t.orchard = L.tip.orchard ∧
      t.history = L.tip.history := by
  rw [TipTreesAre, h.sprout.treeForTip (L.getLast?_series _ hL), h.sapling.treeForTip (L.getLast?_series _ hL),
    h.orchard.treeForTip (L.getLast?_series _ hL), h.historyForTip hL]
  simp only [Except.ok.injEq, eq_comm]

theorem exists_tipTrees {chk : Chain} (h₀ : Refines ch₀ L) (hL : L.past = []) (bs : Blocks)
    (hk : Run Chain.Step ch₀ (bs.map .push) chk) : ∃ t, TipTreesAre chk.inner t := by
  obtain ⟨Lk, hLk, hk⟩ := run_sound h₀ hk
  have hp : Lk.past = [] := (records_of_pushes hLk).2.2.1.trans hL
  exact ⟨⟨Lk.tip.sprout, Lk.tip.sapling, Lk.tip.orchard, none, none, Lk.tip.history⟩,
    (tipTreesAre_iff hk.inner (.inl hp)).2 ⟨rfl, rfl, rfl, rfl⟩⟩

theorem popRoot_finalized {chb chp : Chain} (h₀ : Refines ch₀ L) (hL : L.past = [] ∧ L.records = [])
    {bs rest : Blocks} {b : ContextuallyVerifiedBlock}
    (hch : Run Chain.Step ch₀ ((bs ++ b :: rest).map .push) ch) (hb : Run Chain.Step ch₀ ((bs ++ [b]).map .push) chb)
    (hp : Run Chain.Step ch (List.replicate bs.length .popRoot) chp)
    {x : ContextuallyVerifiedBlock × Treestate} {chp' : Chain}
    (hx : (chp.popRoot : Validated _) = .ok (x, chp')) : x.1 = b ∧ TipTreesAre chb.inner x.2:= by
  obtain ⟨Lb, hLb, hrb⟩ := run_sound h₀ hb
  obtain ⟨L', hL', hch⟩ := run_sound h₀ hch
  obtain ⟨Lp, hLp, hp⟩ := run_sound hch hp
  obtain rfl := eq_finalized hLp
  rw [List.append_cons, List.map_append, run_append_iff] at hL'
  obtain ⟨Lm, hLm, hL'⟩ := hL'
  obtain rfl := run_unique (not_isFork_pushes _) hLb hLm
  obtain ⟨-, -, hpast, rs, hrs, hbs⟩ := records_of_pushes hLb
  obtain ⟨-, -, -, rs', hrs', -⟩ := records_of_pushes hL'
  rw [hL.2, List.nil_append] at hrs
  obtain ⟨rs, rl, rfl, hlen, hrl⟩ := List.map_eq_append_iff.1 hbs
  obtain ⟨r, rfl, rfl⟩ := List.map_eq_singleton_iff.1 hrl
  have hrec : (finalized bs.length L').records = r :: rs' := by
    rw [finalized_records, hrs', hrs, ← hlen, List.length_map, List.append_assoc, List.drop_left]
    rfl
  obtain ⟨hx₁, hx₂, -⟩ := (popRoot_spec hp.network hp.inner hrec).2 x chp' hx
  rw [hp.inner.treestate_root hrec, Option.some.injEq] at hx₂
  have htip : Lb.tip = r.after := tip_of_records hrs
  refine ⟨hx₁, (tipTreesAre_iff hrb.inner (.inr (by simp [hrs]))).2 ?_⟩
  rw [htip, ← hx₂]
  exact ⟨rfl, rfl, rfl, rfl⟩

theorem run_since (h : Represents c L) (hp : L.past = []) (hn : n < L.records.length)
    (hfit : OpsFit net [] ((L.blocks.drop n).map .push ++ [.popRoot])) :
    Run Lineage.Step (fresh net (since n L hp).startHeight (since n L hp).start)
      ((L.blocks.drop n).map .push ++ [.popRoot]) (since n L hp).dropRoot := by
  obtain ⟨hpush, hroot⟩ := opsFit_append.1 hfit
  have hblocks : L.blocks.drop n = (L.records.drop n).map Record.block := by rw [blocks, List.map_drop]
  rw [foldl_blocksAfter_pushes, List.nil_append] at hroot
  rw [hblocks, List.map_map] at hpush ⊢
  obtain ⟨M, hM, hh, hs, hpast, hrec⟩ := run_pushes h
    (fresh net (since n L hp).startHeight (since n L hp).start) (L.records.drop n) (.inl rfl) (since n L hp).linked
    (by rw [← hblocks]; exact List.drop_sublist _ _) hpush
  obtain rfl : M = since n L hp := Lineage.ext hh hs hpast hrec
  refine run_append_iff.2 ⟨_, hM, .cons ?_ (.nil _)⟩
  obtain ⟨r, rs, hr⟩ := List.exists_cons_of_length_pos (l := L.records.drop n) (by rw [List.length_drop]; omega)
  refine .popRoot (L := since n L hp) hr ?_
  have hb : (since n L hp).blocks = L.blocks.drop n := hblocks.symm
  rw [hb]
  exact hroot.1 r.block (by simp [hblocks, hr])

theorem finalize_eq_replay_iff (hcf : CollisionFree) {height : Nat} (hheight : height ≤ Height.max)
    {sprout : NoteCommitmentTree .sprout} {sapling : NoteCommitmentTree .sapling}
    {orchard : NoteCommitmentTree .orchard} {history : HistoryTree} {pools : ValueBalance .nonNegative}
    {ch₀ chk : Chain} (hnew : (Chain.new net height sprout sapling orchard history pools :
      Exec ValidateContextError _) = .ok ch₀) {before after : List ContextuallyVerifiedBlock} (hafter : after ≠ [])
    (hk : Run Chain.Step ch₀ (before.map .push) chk) (hn : Run Chain.Step chk (after.map .push) ch)
    {t : Treestate} (ht : TipTreesAre chk.inner t) {tipHeight : Nat} (htip : chk.tipHeight = some tipHeight) :
    ((∃ chL chN chR, Run Chain.Step ch (List.replicate (before.length + 1) .popRoot) chL ∧
        (Chain.new net tipHeight t.sprout t.sapling t.orchard t.history chk.inner.chainValuePools :
          Exec ValidateContextError _) = .ok chN ∧
        Run Chain.Step chN (after.map .push ++ [.popRoot]) chR ∧ chL.inner = chR.inner) ↔
      OpsFit net [] ((before ++ after).map .push ++ List.replicate (before.length + 1) .popRoot) ∧
        OpsFit net [] (after.map .push ++ [.popRoot])) ∧ ∀ bs b rest chb chp x chp', before ++ after = bs ++ b :: rest →
      Run Chain.Step ch₀ ((bs ++ [b]).map .push) chb → Run Chain.Step ch (List.replicate bs.length .popRoot) chp →
      (chp.popRoot : Exec ValidateContextError _) = .ok (x, chp') → x.1 = b ∧ TipTreesAre chb.inner x.2 := by
  have h₀ := new_exact hheight ⟨sprout, sapling, orchard, history, pools⟩ hnew
  have hrun : Run Chain.Step ch₀ ((before ++ after).map .push) ch := by
    rw [List.map_append]
    exact run_append_iff.2 ⟨chk, hk, hn⟩
  refine ⟨?_, fun bs b rest chb chp x chp' hsplit hb hp hx =>
    popRoot_finalized h₀.toRefines ⟨rfl, rfl⟩ (hsplit ▸ hrun) hb hp hx⟩
  obtain ⟨Lk, hLk, hk', -⟩ := run_exact hcf h₀ (not_isFork_pushes _) hk
  obtain ⟨L, hL, h, -⟩ := run_exact hcf hk' (not_isFork_pushes _) hn
  obtain ⟨hkh, hks, hkp, rs, hkr, hbefore⟩ := records_of_pushes hLk
  obtain ⟨hLh, hLs, hLp, rs', hLr, hafter'⟩ := records_of_pushes hL
  have hpast : L.past = [] := hLp.trans hkp
  have hkr' : Lk.records = rs := hkr
  have hlen : before.length = rs.length := by rw [← hbefore, List.length_map]
  have htake : L.records.take before.length = rs := by rw [hLr, hkr', hlen, List.take_left]
  have hkLive : Lk.Live := .inl hkp
  obtain rfl : Lk.tipHeight = tipHeight := by simpa [hk'.inner.tipHeight_eq hkLive] using htip
  obtain ⟨hts, hta, hto, hth⟩ := (tipTreesAre_iff hk'.inner hkLive).1 ht
  rw [hts, hta, hto, hth, hk'.inner.pools]
  have hmax : Lk.tipHeight ≤ Height.max := Lk.linked.tipHeight_le (by rw [hkh]; exact hheight)
  obtain ⟨chN, hchN, hrefN, -⟩ := new_spec (ε := ValidateContextError) net hmax Lk.tip
  have hexN := new_exact hmax Lk.tip hchN
  have hsince : (since before.length L hpast).startHeight = Lk.tipHeight ∧
      (since before.length L hpast).start = Lk.tip := by
    simp only [since, htake, tipHeight, tip, Lineage.all, hkp, hkr', hLh, hLs]
    exact ⟨rfl, rfl⟩
  have hlen' : before.length < L.records.length := by
    have : 0 < rs'.length := by
      have := congrArg List.length hafter'
      rw [List.length_map] at this
      exact this ▸ List.length_pos_iff.2 hafter
    rw [hLr, hkr', List.length_append]
    omega
  have hdrop : L.blocks.drop before.length = after := by
    rw [blocks, ← List.map_drop, hLr, hkr', hlen, List.drop_left, hafter']
  have hblocks : L.blocks = before ++ after := by
    rw [blocks, hLr, hkr', List.map_append, hbefore, hafter']
  constructor
  · rintro ⟨chL, chN', chR, hL, hN', hR, -⟩
    obtain rfl : chN = chN' := by simpa [hchN] using hN'
    exact ⟨run_fits h₀.toRefines (run_append_iff.2 ⟨ch, hrun, hL⟩), run_fits hrefN hR⟩
  · rintro ⟨hfit, hfit'⟩
    obtain ⟨-, hroots⟩ := opsFit_append.1 hfit
    rw [foldl_blocksAfter_pushes, List.nil_append, ← hblocks] at hroots
    obtain ⟨chL, hL, hexL⟩ := run_complete_exact hcf h (not_isFork_popRoots _) (run_popRoots hlen' hroots)
    have hR := run_since h.inner hpast hlen' (by rwa [hdrop])
    rw [hdrop, hsince.1, hsince.2] at hR
    have hops : ∀ op ∈ after.map push ++ [.popRoot], ¬ op.IsFork := by
      intro op hop
      rcases List.mem_append.1 hop with hop | hop
      · exact not_isFork_pushes after op hop
      · exact not_isFork_popRoots 1 op hop
    obtain ⟨chR, hR, hexR⟩ := run_complete_exact hcf hexN hops hR
    exact ⟨chL, chN, chR, hL, hchN, hR, (alike_finalized_since hpast hlen').inner_eq hcf hexL hexR⟩

end

open Sample

def paySelf (value : Amount .nonNegative) : ContextuallyVerifiedBlock :=
  contextualBlock (semanticBlock 11 11 10 [(1, .V5 [.prevOut ⟨100, 0⟩] [pay value 1] none none)])
    [(⟨100, 0⟩, ⟨⟨pay value 1, 5, false⟩, 1⟩)]

def payNext (value : Amount .nonNegative) : ContextuallyVerifiedBlock :=
  contextualBlock (semanticBlock 12 12 11 [(2, .V5 [.prevOut ⟨1, 0⟩] [pay value 2] none none)])
    [(⟨1, 0⟩, ⟨⟨pay value 1, 11, false⟩, 1⟩)]

theorem finalize_eq_replay_small : ∃ ch₀ chk ch t chL chN chR, start ⟨100, by decide⟩ = .ok ch₀ ∧
      Run Chain.Step ch₀ [.push (paySelf ⟨100, by decide⟩)] chk ∧ TipTreesAre chk.inner t ∧
      Run Chain.Step chk [.push (payNext ⟨100, by decide⟩)] ch ∧ Run Chain.Step ch [.popRoot, .popRoot] chL ∧
      (Chain.new network 11 t.sprout t.sapling t.orchard t.history chk.inner.chainValuePools :
        Exec ValidateContextError _) = .ok chN ∧
      Run Chain.Step chN [.push (payNext ⟨100, by decide⟩), .popRoot] chR ∧ chL.inner = chR.inner := by
  obtain ⟨ch₀, hnew, chk, hk, ch, hn, htip, hfit⟩ : ∃ ch₀ ∈ (start ⟨100, by decide⟩).toOption,
      ∃ chk ∈ ch₀.performAll [.push (paySelf ⟨100, by decide⟩)],
      ∃ ch ∈ chk.performAll [.push (payNext ⟨100, by decide⟩)], chk.tipHeight = some 11 ∧
      OpsFit network [] [.push (paySelf ⟨100, by decide⟩), .push (payNext ⟨100, by decide⟩), .popRoot, .popRoot] ∧
      OpsFit network [] [.push (payNext ⟨100, by decide⟩), .popRoot] := by decide +kernel
  have hnew := Outcome.toOption_eq_some.1 hnew
  have hk : Run Chain.Step ch₀ ([paySelf ⟨100, by decide⟩].map .push) chk := Chain.run_iff_performAll.2 hk
  have hn : Run Chain.Step chk ([payNext ⟨100, by decide⟩].map .push) ch := Chain.run_iff_performAll.2 hn
  obtain ⟨t, ht⟩ := exists_tipTrees (new_exact (by decide)
    ⟨.empty, .empty, .empty, some ⟨network, .nu6, 1, ∅, 10⟩, ⟨⟨100, by decide⟩, .zero, .zero, .zero, .zero⟩⟩
    hnew).toRefines rfl _ hk
  obtain ⟨chL, chN, chR, hres⟩ :=
    (finalize_eq_replay_iff collisionFree (by decide) hnew (by simp) hk hn ht htip).1.2 hfit
  exact ⟨ch₀, chk, ch, t, chL, chN, chR, hnew, hk, ht, hn, hres⟩

/-- With an output worth more than half of the money supply, the first root cannot be
finalized. -/
theorem popRoot_panics : ∃ ch₀ ∈ (start ⟨1200000000000000, by decide⟩).toOption,
      ∃ ch ∈ ch₀.performAll [.push (paySelf ⟨1200000000000000, by decide⟩),
          .push (payNext ⟨1200000000000000, by decide⟩)], (ch.popRoot : Exec ValidateContextError _).Panics:= by
  decide +kernel

end Zebra.Properties
