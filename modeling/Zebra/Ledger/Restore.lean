import Zebra.Ledger.Detached

namespace Zebra.Ledger

open Lib Lib.Transition Lineage Record NonFinalizedState

def insertSubtrees (m : Subtrees) (xs : List NoteCommitmentSubtree) :
    Subtrees :=
  xs.foldl (fun m x => insertSubtree m (some x)) m

variable {m : Subtrees} {xs : List NoteCommitmentSubtree}

theorem insertSubtrees_toList_append {x : Option NoteCommitmentSubtree} :
    insertSubtrees m (x.toList ++ xs) = insertSubtrees (insertSubtree m x) xs := by
  cases x <;> rfl

theorem getElem?_insertSubtrees_of_lt {i : Nat} (hi : ∀ x ∈ xs, i < x.index) : (insertSubtrees m xs)[i]? = m[i]?:= by
  induction xs generalizing m with
  | nil => rfl
  | cons x xs ih =>
    rw [insertSubtrees, List.foldl_cons]
    refine (ih fun y hy => hi y (List.mem_cons_of_mem _ hy)).trans ?_
    have hx := hi x List.mem_cons_self
    rw [insertSubtree, Std.ExtTreeMap.getElem?_insert, if_neg]
    rw [Nat.compare_eq_eq]
    omega

theorem insertSubtrees_eq_self_iff (hxs : xs.Pairwise fun x y => x.index < y.index) :
    insertSubtrees m xs = m ↔ ∀ x ∈ xs, m[x.index]? = some x.intoData := by
  constructor
  · intro h x hx
    obtain ⟨l, r, rfl⟩ := List.append_of_mem hx
    have hr := (List.pairwise_cons.1 (List.pairwise_append.1 hxs).2.1).1
    rw [← h, insertSubtrees, List.foldl_append, List.foldl_cons]
    refine (getElem?_insertSubtrees_of_lt hr).trans ?_
    rw [insertSubtree, Std.ExtTreeMap.getElem?_insert_self]
  · intro h
    induction xs with
    | nil => rfl
    | cons x xs ih =>
      rw [insertSubtrees, List.foldl_cons, insertSubtree_of_get (h x List.mem_cons_self)]
      exact ih (List.pairwise_cons.1 hxs).2 fun y hy => h y (List.mem_cons_of_mem _ hy)

variable [ScriptParsing] [MerkleHashing] [ChainHistory] {net : Network} {ch ch' : Chain} {M L : Lineage net}
  {r : Record} {rs removed : List Record} {bs : Blocks}

omit [ScriptParsing] in
theorem height_of_records (hr : L.records = rs ++ r :: removed) :
    r.block.height = L.startHeight + L.past.length + rs.length + 1 := by
  have hl := L.linked_records
  rw [hr] at hl
  exact (linked_append.1 hl).2.1

omit [ScriptParsing] in
theorem tip_take (hr : L.records = rs ++ removed) :
    (L.take rs.length).tip = lastSnapshot (lastSnapshot L.start L.past) rs := by
  rw [tip, Lineage.all, records_take hr, lastSnapshot_append]
  rfl

omit [ScriptParsing] in
theorem tipHeight_take (hr : L.records = rs ++ removed) :
    (L.take rs.length).tipHeight = L.startHeight + L.past.length + rs.length := by
  rw [tipHeight, Lineage.all, records_take hr, List.length_append, ← Nat.add_assoc]
  rfl

theorem pushes_sound (h : Refines ch M) (hr : Run Chain.Step ch (bs.map .push) ch') :
    ∃ (M' : Lineage net) (rs : List Record), Run Lineage.Step M (bs.map .push) M' ∧ Refines ch' M' ∧
      M'.records = M.records ++ rs ∧
      ch'.inner.saplingSubtrees = insertSubtrees ch.inner.saplingSubtrees (completedFrom .sapling M.tip rs) ∧
      ch'.inner.orchardSubtrees = insertSubtrees ch.inner.orchardSubtrees (completedFrom .orchard M.tip rs) := by
  induction bs generalizing ch M with
  | nil =>
    obtain rfl := run_nil_iff.1 hr
    exact ⟨M, [], .nil M, h, by simp, rfl, rfl⟩
  | cons b bs ih =>
    obtain ⟨ch₁, hs, hr⟩ := run_cons_iff.1 hr
    obtain ⟨M₁, hM₁, h₁, hsap₁, horch₁⟩ := step_sound h hs
    obtain ⟨M', rs, hrun, h', hrec, hsap, horch⟩ := ih h₁ hr
    cases hM₁ with
    | @push _ s' hL hh hmax hp =>
      rw [hsap₁, tip_extend, subtreesAfter, ← insertSubtrees_toList_append] at hsap
      rw [horch₁, tip_extend, subtreesAfter, ← insertSubtrees_toList_append] at horch
      refine ⟨M', ⟨b, s'⟩ :: rs, .cons (.push hL hh hmax hp) hrun, h', ?_, hsap, horch⟩
      rw [hrec, records_extend, List.append_assoc]
      rfl

/-- The blocks above `rs` can be pushed back as far as their transfers fit, and then the
chain has its history again. -/
theorem pushBack_spec {c : ChainInner} (h : Represents c L) (hr : L.records = rs ++ removed) (hrs : rs ≠ [])
    (hch : Refines ch (L.take rs.length)) : ((∃ ch', Run Chain.Step ch ((removed.map block).map .push) ch') ↔
        OpsFit net (rs.map block) ((removed.map block).map .push)) ∧
      ∀ ch', Run Chain.Step ch ((removed.map block).map .push) ch' → Refines ch' L ∧ ch'.inner.saplingSubtrees =
          insertSubtrees ch.inner.saplingSubtrees (completedFrom .sapling (L.take rs.length).tip removed) ∧
        ch'.inner.orchardSubtrees =
          insertSubtrees ch.inner.orchardSubtrees (completedFrom .orchard (L.take rs.length).tip removed) := by
  have hblocks := blocks_take hr
  have hrecords := records_take hr
  have hback : OpsFit net (rs.map block) ((removed.map block).map .push) →
      Run Lineage.Step (L.take rs.length) ((removed.map block).map .push) L := by
    intro hfit
    have hlinked : Linked net (L.take rs.length).tipHeight (L.take rs.length).tip removed := by
      have hl := L.linked_records
      rw [hr] at hl
      have hl := (linked_append.1 hl).2
      rwa [tip_take hr, tipHeight_take hr]
    rw [List.map_map, ← hblocks] at hfit
    obtain ⟨M', hrun, hheight, hstart, hpast, hrec⟩ := run_pushes h (L.take rs.length) removed
      (.inr (by rwa [hrecords])) hlinked (by simp [blocks, hrecords, hr]) hfit
    obtain rfl : M' = L := Lineage.ext hheight hstart hpast (by rw [hrec, hrecords, hr])
    rwa [List.map_map]
  have hfits : ∀ ch', Run Chain.Step ch ((removed.map block).map .push) ch' →
      OpsFit net (rs.map block) ((removed.map block).map .push) := fun ch' hrun => by
    simpa [hblocks] using run_fits hch hrun
  refine ⟨⟨?_, ?_⟩, ?_⟩
  · rintro ⟨ch', hrun⟩
    exact hfits ch' hrun
  · intro hfit
    obtain ⟨ch', hrun, -⟩ := run_complete hch (hback hfit)
    exact ⟨ch', hrun⟩
  · intro ch' hrun
    obtain ⟨M', rs', hM', href, hrec, hsap, horch⟩ := pushes_sound hch hrun
    obtain rfl := run_unique (by simp [ChainOp.IsFork]) hM' (hback (hfits ch' hrun))
    obtain rfl : rs' = removed := by
      rw [hr, hrecords] at hrec
      exact (List.append_cancel_left hrec).symm
    exact ⟨href, hsap, horch⟩

theorem pushAll_iff_run {ε : Type} {height : Nat} (hcons : Consecutive height bs) (hch : Refines ch M)
    (htip : ch.tipHeight = some height) :
    (pushAll ch bs : Exec ε _) = .ok ch' ↔ Run Chain.Step ch (bs.map .push) ch' := by
  induction bs generalizing ch M height with
  | nil =>
    rw [List.map_nil, run_nil_iff, eq_comm]
    exact ⟨fun h => Except.ok.inj h, fun h => h ▸ rfl⟩
  | cons b bs ih =>
    obtain ⟨hk, hmax, hcb, hcons⟩ := hcons
    have hnext : ch.IsNext b := ⟨by rw [htip, hk, Option.map_some], hmax, hcb⟩
    have hpushed : ∀ ch₁, (pushExpected ch b : Exec ε _) = .ok ch₁ ↔ ch.push b = .ok ch₁ := by
      intro ch₁
      unfold pushExpected
      split <;> simp_all
    have htip₁ : ∀ ch₁, ch.push b = .ok ch₁ → ∃ M₁ : Lineage net, Refines ch₁ M₁ ∧ ch₁.tipHeight = some (height + 1) := by
      intro ch₁ hpush
      obtain ⟨M₁, hM₁, h₁, -⟩ := step_sound hch (.push hnext hpush)
      refine ⟨M₁, h₁, ?_⟩
      cases hM₁ with
      | @push _ s' hL hh hmax hp =>
        rw [h₁.inner.tipHeight_eq (.inr (by simp [records_extend])), tipHeight_of_records
          records_extend, hk]
    rw [List.map_cons, run_cons_iff, pushAll, List.foldlM_cons, bind_eq_ok]
    refine exists_congr fun ch₁ => ?_
    rw [hpushed]
    constructor
    · rintro ⟨hpush, hrest⟩
      obtain ⟨M₁, h₁, ht₁⟩ := htip₁ ch₁ hpush
      exact ⟨.push hnext hpush, (ih hcons h₁ ht₁).1 hrest⟩
    · rintro ⟨hs, hrest⟩
      cases hs with
      | push _ hpush =>
        obtain ⟨M₁, h₁, ht₁⟩ := htip₁ ch₁ hpush
        exact ⟨hpush, (ih hcons h₁ ht₁).2 hrest⟩

end Zebra.Ledger
