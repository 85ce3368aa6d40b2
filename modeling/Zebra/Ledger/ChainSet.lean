import Zebra.State.NonFinalizedState

namespace Zebra.Ledger

open Lib Outcome

def blocksOf (c : Chain) : Blocks := c.inner.blocks.toList.map Prod.snd

def tipHashOf (c : Chain) : Option BlockHash := (blocksOf c).getLast?.map (·.hash)

def Below (c d : Chain) : Prop :=
  c.inner.partialCumulativeWork < d.inner.partialCumulativeWork ∨
    c.inner.partialCumulativeWork = d.inner.partialCumulativeWork ∧
      ∃ h h', tipHashOf c = some h ∧ tipHashOf d = some h' ∧ h < h'

/-- Two chains that the chain set can tell apart. -/
def Distinguished (c d : Chain) : Prop :=
  c.inner.partialCumulativeWork ≠ d.inner.partialCumulativeWork ∨
    ∃ h h', tipHashOf c = some h ∧ tipHashOf d = some h' ∧ h ≠ h'

variable {ε : Type} {c d e : Chain} {cs ds : List Chain}

theorem Below.trans (h : Below c d) (h' : Below d e) : Below c e := by
  rcases h with h | ⟨hw, a, b, ha, hb, hab⟩ <;> rcases h' with h' | ⟨hw', a', b', ha', hb', hab'⟩
  · exact .inl (h.trans h')
  · exact .inl (hw' ▸ h)
  · exact .inl (hw ▸ h')
  · obtain rfl : b = a' := by simpa [hb] using ha'
    exact .inr ⟨hw.trans hw', a, b', ha, hb', hab.trans hab'⟩

theorem Below.irrefl : ¬ Below c c := by
  rintro (h | ⟨-, a, b, ha, hb, hab⟩)
  · exact lt_irrefl _ h
  · obtain rfl : a = b := by simpa [ha] using hb
    exact lt_irrefl _ hab

theorem tip_of_blocks (c : Chain) : (c.inner.blocks.toList.getLast?.map fun b => b.2.hash) = tipHashOf c:= by
  rw [tipHashOf, blocksOf, List.getLast?_map, Option.map_map]
  rfl

variable {hash : BlockHash}

theorem nonFinalizedTipHash_eq_ok : (c.inner.nonFinalizedTipHash : Exec ε _) = .ok hash ↔ tipHashOf c = some hash:= by
  rw [ChainInner.nonFinalizedTipHash, expect_eq_ok, ← tip_of_blocks]

theorem nonFinalizedRootHash_eq_ok :
    (c.inner.nonFinalizedRootHash : Exec ε _) = .ok hash ↔ (blocksOf c).head?.map (·.hash) = some hash := by
  rw [ChainInner.nonFinalizedRootHash, expect_eq_ok, blocksOf, List.head?_map, Option.map_map]
  rfl

theorem cmp_eq_ok {o : Ordering} (h : (c.cmp d : Exec ε _) = .ok o) : o = .lt ∧ Below c d ∨ o = .gt ∧ Below d c := by
  unfold Chain.cmp at h
  split at h
  · rename_i hw
    cases h
    rcases lt_or_gt_of_ne hw with hw | hw
    · exact .inl ⟨Nat.compare_eq_lt.2 hw, .inl hw⟩
    · exact .inr ⟨Nat.compare_eq_gt.2 hw, .inl hw⟩
  · rename_i hw
    rw [tip_of_blocks, tip_of_blocks, bind_eq_ok] at h
    obtain ⟨a, ha, h⟩ := h
    obtain ⟨b, hb, h⟩ := bind_eq_ok.1 h
    rw [expect_eq_ok] at ha hb
    split at h
    · simp at h
    · rename_i hab
      cases h
      rcases lt_or_gt_of_ne hab with hab | hab
      · exact .inl ⟨Nat.compare_eq_lt.2 hab, .inr ⟨not_not.1 hw, a, b, ha, hb, hab⟩⟩
      · exact .inr ⟨Nat.compare_eq_gt.2 hab, .inr ⟨(not_not.1 hw).symm, b, a, hb, ha, hab⟩⟩

theorem cmp_succeeds_iff : (c.cmp d : Exec ε _).Succeeds ↔ Distinguished c d := by
  unfold Chain.cmp Distinguished
  split
  · rename_i hw
    simp [hw]
  · rename_i hw
    rw [tip_of_blocks, tip_of_blocks]
    cases tipHashOf c <;> cases tipHashOf d <;> simp [not_not.1 hw, Succeeds]
    rename_i a b
    by_cases hab : a = b <;> simp [hab]

namespace ChainSet

open Zebra.ChainSet

theorem insert_eq_ok (h : (insert c cs : Exec ε _) = .ok ds) :
    ∃ l r, cs = l ++ r ∧ ds = l ++ c :: r ∧ (∀ d ∈ l, Below d c) ∧ ∀ d ∈ r.head?, Below c d := by
  induction cs generalizing ds with
  | nil =>
    cases h
    exact ⟨[], [], rfl, rfl, by simp, by simp⟩
  | cons d cs ih =>
    rw [Zebra.ChainSet.insert, bind_eq_ok] at h
    obtain ⟨o, ho, h⟩ := h
    obtain ⟨rfl, hb⟩ | ⟨rfl, hb⟩ := cmp_eq_ok ho
    · cases h
      exact ⟨[], d :: cs, rfl, rfl, by simp, by simpa using hb⟩
    · obtain ⟨ds', hds', h⟩ := bind_eq_ok.1 h
      cases h
      obtain ⟨l, r, rfl, rfl, hl, hr⟩ := ih hds'
      exact ⟨d :: l, r, rfl, rfl, by simpa using ⟨hb, hl⟩, hr⟩

theorem insert_perm (h : (insert c cs : Exec ε _) = .ok ds) : ds.Perm (c :: cs) := by
  obtain ⟨l, r, rfl, rfl, -⟩ := insert_eq_ok h
  exact List.perm_middle

theorem insert_sorted (hs : cs.Pairwise Below) (h : (insert c cs : Exec ε _) = .ok ds) : ds.Pairwise Below := by
  obtain ⟨l, r, rfl, rfl, hl, hr⟩ := insert_eq_ok h
  obtain ⟨hsl, hsr, hlr⟩ := List.pairwise_append.1 hs
  have hcr : ∀ d ∈ r, Below c d := by
    cases r with
    | nil => simp
    | cons e r =>
      have hce : Below c e := hr e rfl
      intro d hd
      rcases List.mem_cons.1 hd with rfl | hd
      · exact hce
      · exact hce.trans ((List.pairwise_cons.1 hsr).1 d hd)
  refine List.pairwise_append.2 ⟨hsl, List.pairwise_cons.2 ⟨hcr, hsr⟩, ?_⟩
  intro a ha b hb
  rcases List.mem_cons.1 hb with rfl | hb
  · exact hl a ha
  · exact hlr a ha b hb

theorem insert_succeeds (h : ∀ d ∈ cs, Distinguished c d) : (insert c cs : Exec ε _).Succeeds := by
  induction cs with
  | nil => exact ⟨_, rfl⟩
  | cons d cs ih =>
    obtain ⟨o, ho⟩ := cmp_succeeds_iff.2 (h d List.mem_cons_self)
    rw [Zebra.ChainSet.insert, bind_succeeds]
    refine ⟨o, ho, ?_⟩
    obtain ⟨ds, hds⟩ := ih fun d hd => h d (List.mem_cons_of_mem _ hd)
    obtain ⟨rfl, -⟩ | ⟨rfl, -⟩ := cmp_eq_ok ho
    · exact ⟨_, rfl⟩
    · exact ⟨d :: ds, by rw [hds]; rfl⟩

theorem remove_ne_ok (hs : cs.Pairwise Below) (hc : c ∈ cs) : (remove c cs : Exec ε _) ≠ .ok ds := by
  induction cs generalizing ds with
  | nil => simp at hc
  | cons d cs ih =>
    intro h
    rw [remove, bind_eq_ok] at h
    obtain ⟨o, ho, h⟩ := h
    rcases List.mem_cons.1 hc with rfl | hc
    · obtain ⟨-, hb⟩ | ⟨-, hb⟩ := cmp_eq_ok ho
      · exact hb.irrefl
      · exact hb.irrefl
    · obtain ⟨-, hb⟩ | ⟨rfl, -⟩ := cmp_eq_ok ho
      · exact (hb.trans ((List.pairwise_cons.1 hs).1 c hc)).irrefl
      · obtain ⟨ds', hds', -⟩ := bind_eq_ok.1 h
        exact ih (List.pairwise_cons.1 hs).2 hc hds'

theorem retainTips_eq_ok : (retainTips hash cs : Exec ε _) = .ok ds ↔
      (∀ c ∈ cs, (tipHashOf c).isSome) ∧ cs.filter (fun c => tipHashOf c ≠ some hash) = ds := by
  induction cs generalizing ds with
  | nil => simp [retainTips]
  | cons c cs ih =>
    rw [retainTips, bind_eq_ok]
    simp only [nonFinalizedTipHash_eq_ok, bind_eq_ok, ih, pure_eq_ok, Except.ok.injEq]
    cases hc : tipHashOf c with
    | none => simp [hc]
    | some tip => by_cases ht : tip = hash <;> simp [hc, ht]

theorem findTip_eq_ok {o : Option Chain} (h : (findTip hash cs : Exec ε _) = .ok o) : match o with
    | some c => c ∈ cs ∧ tipHashOf c = some hash | none => ∀ c ∈ cs, ∃ tip, tipHashOf c = some tip ∧ tip ≠ hash:= by
  induction cs with
  | nil =>
    cases h
    simp
  | cons c cs ih =>
    rw [findTip, bind_eq_ok] at h
    obtain ⟨tip, ht, h⟩ := h
    rw [nonFinalizedTipHash_eq_ok] at ht
    split at h
    · rename_i heq
      cases h
      exact ⟨List.mem_cons_self, heq ▸ ht⟩
    · rename_i hne
      have := ih h
      cases o with
      | some d => exact ⟨List.mem_cons_of_mem _ this.1, this.2⟩
      | none =>
        intro d hd
        rcases List.mem_cons.1 hd with rfl | hd
        · exact ⟨tip, ht, hne⟩
        · exact this d hd

theorem findFork_eq_ok [ScriptParsing] (h : (findFork hash cs : Exec ε _) = .ok (some d)) :
    ∃ c ∈ cs, (c.fork hash : Exec ε _) = .ok (some d) := by
  induction cs with
  | nil => simp [findFork] at h
  | cons c cs ih =>
    rw [findFork, bind_eq_ok] at h
    obtain ⟨o, ho, h⟩ := h
    cases o with
    | some c' =>
      cases h
      exact ⟨c, List.mem_cons_self, ho⟩
    | none =>
      obtain ⟨c', hc', hf⟩ := ih h
      exact ⟨c', List.mem_cons_of_mem _ hc', hf⟩

end ChainSet

end Zebra.Ledger
