import Zebra.Ledger.Pop

namespace Zebra.Ledger

open Lib Outcome Record

variable [ScriptParsing] [MerkleHashing] [ChainHistory] {ε : Type} {net : Network} {L : Lineage net} {r : Record}
  {rs removed : List Record}

omit [ScriptParsing] in
def Lineage.take (L : Lineage net) (n : Nat) : Lineage net where
  startHeight := L.startHeight
  start := L.start
  past := L.past
  records := L.records.take n
  linked := by
    have h := L.linked
    rw [← List.take_append_drop n L.records, ← List.append_assoc] at h
    exact (linked_append.1 h).1

omit [ScriptParsing] in
theorem Lineage.records_take {L : Lineage net} (hr : L.records = rs ++ removed) : (L.take rs.length).records = rs := by
  rw [take]
  simp [hr]

omit [ScriptParsing] in
theorem Lineage.blocks_take {L : Lineage net} (hr : L.records = rs ++ removed) :
    (L.take rs.length).blocks = rs.map block := by
  rw [blocks, records_take hr]

omit [ScriptParsing] in
theorem Lineage.take_dropTip (L : Lineage net) {n : Nat} (hn : n < L.records.length) : L.dropTip.take n = L.take n := by
  refine Lineage.ext rfl rfl rfl ?_
  simp only [take, dropTip, List.dropLast_eq_take, List.take_take]
  rw [Nat.min_eq_left (by omega)]

omit [ScriptParsing] in
theorem Lineage.take_length (L : Lineage net) : L.take L.records.length = L :=
  Lineage.ext rfl rfl rfl (by simp [take])

/-- Taking the `removed` blocks off the tip of a chain, on top of the blocks `bs`, keeps the
address balances in range. -/
def TipRevertsFit (net : Network) :
    (bs removed : Blocks) → Prop
  | _, [] => True
  | bs, b :: removed => RevertFits net (bs ++ [b]) b ∧ TipRevertsFit net (bs ++ [b]) removed

instance decidableTipRevertsFit (net : Network) :
    (bs removed : Blocks) → Decidable (TipRevertsFit net bs removed)
  | _, [] => isTrue trivial
  | bs, b :: removed =>
    haveI := decidableTipRevertsFit net (bs ++ [b]) removed
    inferInstanceAs (Decidable (_ ∧ _))

omit [MerkleHashing] [ChainHistory] in
theorem tipRevertsFit_concat {bs removed : Blocks} {b : ContextuallyVerifiedBlock} :
    TipRevertsFit net bs (removed ++ [b]) ↔ TipRevertsFit net bs removed ∧ RevertFits net (bs ++ removed ++ [b]) b := by
  induction removed generalizing bs with
  | nil => simp [TipRevertsFit]
  | cons b' removed ih => simp [TipRevertsFit, ih, and_assoc]

theorem Represents.nodup_hashes {c : ChainInner} (h : Represents c L) :
    (L.blocks.map ContextuallyVerifiedBlock.hash).Nodup := by
  have hn := h.heightByHash.nodup
  rw [Multiset.map_coe, Multiset.coe_nodup, List.map_map] at hn
  exact hn

variable {ch : Chain} {hash : BlockHash}

theorem revertAbove_round (hnet : ch.network = net) (h : Represents ch.inner L) {r' : Record}
    (hr : L.records = rs ++ [r] ++ [r']) (hne : r'.block.hash ≠ hash) (fuel : Nat) :
    (Chain.revertAbove hash (fuel + 1) ch : Exec ε _) = ch.popTip >>= fun ch₁ =>
      Chain.revertAbove hash fuel { ch₁ with lastForkHeight := some r.block.height } := by
  simp only [Chain.revertAbove, h.tipHash hr, ok_bind, if_neg hne]
  refine bind_congr_ok fun ch₁ h₁ => ?_
  obtain ⟨hrep, -⟩ := (popTip_spec hnet h hr (by simp)).2 ch₁ h₁
  rw [hrep.tipHeight (List.append_cancel_right ((Lineage.records_eq_dropTip hr).symm.trans hr)), ok_bind]

theorem revertAbove_spec (hnet : ch.network = net) (h : Represents ch.inner L)
    (hr : L.records = rs ++ [r] ++ removed) {fuel : Nat} (hfuel : removed.length < fuel) :
    ((Chain.revertAbove r.block.hash fuel ch : Exec ε _).Succeeds ↔
        TipRevertsFit net ((rs ++ [r]).map block) (removed.map block)) ∧
      ∀ ch', (Chain.revertAbove r.block.hash fuel ch : Exec ε _) = .ok ch' →
        Represents ch'.inner (L.take (rs.length + 1)) ∧ ch'.network = net ∧
        ch'.inner.saplingSubtrees = ch.inner.saplingSubtrees ∧
        ch'.inner.orchardSubtrees = ch.inner.orchardSubtrees := by
  obtain ⟨fuel, rfl⟩ : ∃ k, fuel = k + 1 := ⟨fuel - 1, by omega⟩
  induction removed using List.reverseRecOn generalizing ch L fuel with
  | nil =>
    rw [List.append_nil] at hr
    have hL : L.take (rs.length + 1) = L := by
      have := L.take_length
      rwa [hr, List.length_append] at this
    simp only [Chain.revertAbove, h.tipHash hr, ok_bind, if_true, pure_eq_ok, hL]
    refine ⟨by simp [Succeeds, TipRevertsFit], ?_⟩
    rintro ch' ⟨⟩
    exact ⟨h, hnet, rfl, rfl⟩
  | append_singleton removed r' ih =>
    rw [List.length_append, List.length_singleton] at hfuel
    obtain ⟨fuel, rfl⟩ : ∃ k, fuel = k + 1 := ⟨fuel - 1, by omega⟩
    rw [← List.append_assoc] at hr
    have hne : r'.block.hash ≠ r.block.hash := by
      have hn := h.nodup_hashes
      simp only [Lineage.blocks, hr, List.map_append, List.map_cons, List.map_nil] at hn
      intro he
      exact List.disjoint_of_nodup_append hn (a := r.block.hash) (by simp) (by simp [he])
    obtain ⟨rs', r'', hr''⟩ : ∃ rs' r'', rs ++ [r] ++ removed = rs' ++ [r''] :=
      List.eq_nil_or_concat' (rs ++ [r] ++ removed) |>.resolve_left (by simp)
    obtain ⟨hsucc, hpop⟩ := popTip_spec hnet h hr (by simp)
    have hdrop : L.dropTip.records = rs ++ [r] ++ removed :=
      List.append_cancel_right ((Lineage.records_eq_dropTip hr).symm.trans hr)
    have hblocks : (rs ++ [r]).map block ++ removed.map block ++ [r'.block] = L.blocks := by
      simp [Lineage.blocks, hr]
    have hmap : (removed ++ [r']).map block = removed.map block ++ [r'.block] := List.map_append
    rw [revertAbove_round hnet h (hr'' ▸ hr) hne, hmap, tipRevertsFit_concat, hblocks, ← hsucc,
      bind_succeeds]
    have ih' := fun (ch₁ : Chain) hnet₁ hrep =>
      @ih L.dropTip { ch₁ with lastForkHeight := some r''.block.height } hnet₁ hrep hdrop fuel (by omega)
    refine ⟨⟨?_, ?_⟩, ?_⟩
    · rintro ⟨ch₁, h₁, hs⟩
      obtain ⟨hrep, hnet₁, -⟩ := hpop ch₁ h₁
      exact ⟨(ih' ch₁ hnet₁ hrep).1.1 hs, ch₁, h₁⟩
    · rintro ⟨hfit, ch₁, h₁⟩
      obtain ⟨hrep, hnet₁, -⟩ := hpop ch₁ h₁
      exact ⟨ch₁, h₁, (ih' ch₁ hnet₁ hrep).1.2 hfit⟩
    · intro ch' hch'
      obtain ⟨ch₁, h₁, hch'⟩ := bind_eq_ok.1 hch'
      obtain ⟨hrep, hnet₁, -, hsap, horch⟩ := hpop ch₁ h₁
      obtain ⟨hrep', hnet', hsap', horch'⟩ := (ih' ch₁ hnet₁ hrep).2 ch' hch'
      rw [L.take_dropTip (by rw [hr]; simp)] at hrep'
      exact ⟨hrep', hnet', hsap'.trans hsap, horch'.trans horch⟩

theorem fork_spec (hnet : ch.network = net) (h : Represents ch.inner L) (hr : L.records = rs ++ [r] ++ removed) :
    ((ch.fork r.block.hash : Exec ε _).Succeeds ↔
        TipRevertsFit net ((rs ++ [r]).map block) (removed.map block)) ∧
      ∀ ch', (ch.fork r.block.hash : Exec ε _) = .ok (some ch') →
        Represents ch'.inner (L.take (rs.length + 1)) ∧ ch'.network = net ∧
        ch'.inner.saplingSubtrees = ch.inner.saplingSubtrees ∧
        ch'.inner.orchardSubtrees = ch.inner.orchardSubtrees := by
  have hmem : r.block.hash ∈ ch.inner.heightByHash := h.hash_mem (by simp [hr])
  have hsize : ch.inner.blocks.size = L.records.length := by
    rw [← Std.ExtTreeMap.length_toList, h.blocks_toList]
    simp [Lineage.blocks]
  obtain ⟨hsucc, hres⟩ := revertAbove_spec (ε := ε) hnet h hr
    (show removed.length < ch.inner.blocks.size by rw [hsize, hr]; simp; omega)
  rw [Chain.fork, if_pos hmem, ← hsucc]
  refine ⟨by simp [Succeeds, map_eq_ok], fun ch' hch' => ?_⟩
  obtain ⟨ch₁, h₁, heq⟩ := map_eq_ok.1 hch'
  obtain rfl := Option.some.inj heq
  exact hres ch₁ h₁

theorem fork_eq_none (h : Represents ch.inner L)
    (hn : hash ∉ L.blocks.map ContextuallyVerifiedBlock.hash) : (ch.fork hash : Exec ε _) = .ok none := by
  rw [Chain.fork, if_neg (mt h.hash_mem_iff.1 hn)]
  rfl

end Zebra.Ledger
