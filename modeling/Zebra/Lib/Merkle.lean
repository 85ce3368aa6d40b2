import Mathlib.Logic.Function.Basic
import Mathlib.Data.List.Basic

namespace Zebra.Lib.Merkle

variable {α : Type} (node : α → α → α)

/-- The next level of a tree: neighbours are paired, the last node of an odd level with
itself. -/
def pairUp : List α → List α
  | [] => []
  | [a] => [node a a]
  | a :: b :: l => node a b :: pairUp l

theorem length_pairUp (l : List α) : (pairUp node l).length = (l.length + 1) / 2 := by
  fun_induction pairUp node l with
  | case1 => simp
  | case2 a => simp
  | case3 a b l ih =>
    simp only [List.length_cons, ih]
    omega

/-- Go up until one node is left, or for at most `levels` levels. -/
def climb : Nat → List α → List α
  | 0, l => l
  | levels + 1, l => if 1 < l.length then climb levels (pairUp node l) else l

def root (l : List α) : Option α := (climb node l.length l).head?

/-- Nodes by their height over the leaves; a leaf is not a pair. -/
inductive Level : Nat → α → Prop
  | leaf {x : α} : (∀ a b, x ≠ node a b) → Level 0 x
  | pair {k : Nat} {a b : α} : Level k a → Level k b → Level (k + 1) (node a b)

/-- The second list goes on after the first one with members of the first one. -/
def Repeats (l l' : List α) : Prop := ∃ t, l' = l ++ t ∧ t ⊆ l

variable {node} {l l' : List α}

theorem climb_eq_of_le {m n : Nat} (hm : l.length ≤ m) (hn : l.length ≤ n) : climb node m l = climb node n l := by
  induction m generalizing n l with
  | zero =>
    rw [List.eq_nil_of_length_eq_zero (Nat.le_zero.1 hm)]
    cases n <;> simp [climb]
  | succ m ih =>
    cases n with
    | zero =>
      rw [List.eq_nil_of_length_eq_zero (Nat.le_zero.1 hn)]
      simp [climb]
    | succ n =>
      rw [climb, climb]
      split
      · have hlen := length_pairUp node l
        exact ih (by omega) (by omega)
      · rfl

@[simp] theorem root_singleton (a : α) : root node [a] = some a := rfl

theorem root_pairUp (h : 1 < l.length) : root node l = root node (pairUp node l) := by
  obtain ⟨n, hn⟩ := Nat.exists_eq_add_of_lt h
  have hlen := length_pairUp node l
  rw [root, root, show l.length = 1 + n + 1 from hn, climb, if_pos h, climb_eq_of_le (by omega) (Nat.le_refl _)]

theorem Level.unique (hinj : Function.Injective2 node) {k k' : Nat} {x : α} (h : Level node k x) (h' : Level node k' x) :
    k = k' := by
  induction h generalizing k' with
  | leaf hleaf =>
    cases h' with
    | leaf _ => rfl
    | pair _ _ => exact absurd rfl (hleaf _ _)
  | @pair k a b _ _ iha _ =>
    generalize hx : node a b = x at h'
    cases h' with
    | leaf hleaf => exact absurd hx.symm (hleaf a b)
    | pair ha' hb' => rw [iha ((hinj hx).1 ▸ ha')]

theorem level_pairUp {k : Nat} (h : ∀ x ∈ l, Level node k x) : ∀ x ∈ pairUp node l, Level node (k + 1) x := by
  fun_induction pairUp node l with
  | case1 => simp
  | case2 a => simpa using Level.pair (h a (by simp)) (h a (by simp))
  | case3 a b l ih =>
    intro x hx
    rcases List.mem_cons.1 hx with rfl | hx
    · exact .pair (h a (by simp)) (h b (by simp))
    · exact ih (fun y hy => h y (by simp [hy])) x hx

theorem exists_level_root {k n : Nat} (hn : l.length ≤ n) (h : ∀ x ∈ l, Level node k x) (hne : l ≠ []) :
    ∃ r k', root node l = some r ∧ Level node k' r ∧ k ≤ k' ∧ (1 < l.length ↔ k < k') := by
  induction n generalizing k l with
  | zero => exact absurd (List.eq_nil_of_length_eq_zero (Nat.le_zero.1 hn)) hne
  | succ n ih =>
    by_cases hlen : 1 < l.length
    · have hup := length_pairUp node l
      have hne' : pairUp node l ≠ [] := by
        intro hnil
        rw [hnil, List.length_nil] at hup
        omega
      obtain ⟨r, k', hr, hk', hle, -⟩ := ih (by omega) (level_pairUp h) hne'
      exact ⟨r, k', (root_pairUp hlen).trans hr, hk', by omega, fun _ => hle, fun _ => hlen⟩
    · obtain ⟨a, rfl⟩ : ∃ a, l = [a] := by
        rw [← List.length_eq_one_iff]
        have := List.length_pos_iff.2 hne
        omega
      exact ⟨a, k, rfl, h a (by simp), Nat.le_refl k, by simp⟩

theorem subset_of_pairUp_subset (hinj : Function.Injective2 node) (h : pairUp node l ⊆ pairUp node l') : l ⊆ l' := by
  have hmem : ∀ {a b : α}, node a b ∈ pairUp node l' → a ∈ l' ∧ b ∈ l' := by
    intro a b hab
    clear h
    fun_induction pairUp node l' with
    | case1 => simp at hab
    | case2 c =>
      obtain ⟨rfl, rfl⟩ := hinj (List.mem_singleton.1 hab)
      simp
    | case3 c d l' ih =>
      rcases List.mem_cons.1 hab with heq | hab
      · obtain ⟨rfl, rfl⟩ := hinj heq
        simp
      · simp [ih hab]
  fun_induction pairUp node l with
  | case1 => simp
  | case2 a => simpa using (hmem (h (List.mem_singleton.2 rfl))).1
  | case3 a b l ih =>
    obtain ⟨ha, hb⟩ := hmem (h List.mem_cons_self)
    exact List.cons_subset.2 ⟨ha, List.cons_subset.2 ⟨hb, ih fun x hx => h (List.mem_cons_of_mem _ hx)⟩⟩

/-- Going up one level can only hide that an odd level repeats its last node. -/
theorem repeats_of_pairUp (hinj : Function.Injective2 node) {m t : List α} (hm : l ⊆ m)
    (h : pairUp node l' = pairUp node l ++ t) (ht : t ⊆ pairUp node m) :
    (∃ s, l' = l ++ s ∧ s ⊆ m) ∨ ∃ a ∈ l', l = l' ++ [a] := by
  fun_induction pairUp node l generalizing l' with
  | case1 =>
    refine .inl ⟨l', rfl, subset_of_pairUp_subset hinj ?_⟩
    rwa [h, List.nil_append]
  | case2 a =>
    have ha : a ∈ m := hm (by simp)
    match l' with
    | [] => simp [pairUp] at h
    | [b] =>
      simp only [pairUp, List.singleton_append, List.cons.injEq] at h
      obtain ⟨rfl, -⟩ := hinj h.1
      exact .inl ⟨[], by simp, by simp⟩
    | b :: c :: l' =>
      simp only [pairUp, List.singleton_append, List.cons.injEq] at h
      obtain ⟨rfl, rfl⟩ := hinj h.1
      refine .inl ⟨c :: l', rfl, List.cons_subset.2 ⟨ha, subset_of_pairUp_subset hinj (h.2 ▸ ht)⟩⟩
  | case3 a b l ih =>
    match l' with
    | [] => simp [pairUp] at h
    | [c] =>
      simp only [pairUp, List.cons_append, List.cons.injEq, List.nil_eq, List.append_eq_nil_iff] at h
      obtain ⟨rfl, rfl⟩ := hinj h.1
      obtain rfl : l = [] := by
        have hlen := length_pairUp node l
        rw [h.2.1, List.length_nil] at hlen
        exact List.eq_nil_of_length_eq_zero (by omega)
      exact .inr ⟨c, by simp, rfl⟩
    | c :: d :: l' =>
      simp only [pairUp, List.cons_append, List.cons.injEq] at h
      obtain ⟨rfl, rfl⟩ := hinj h.1
      have hl : l ⊆ m := fun x hx => hm (by simp [hx])
      rcases ih hl h.2 with ⟨s, rfl, hs⟩ | ⟨e, he, rfl⟩
      · exact .inl ⟨s, rfl, hs⟩
      · exact .inr ⟨e, by simp [he], rfl⟩

theorem Repeats.of_pairUp (hinj : Function.Injective2 node) (h : Repeats (pairUp node l) (pairUp node l')) :
    Repeats l l' ∨ Repeats l' l := by
  obtain ⟨t, heq, ht⟩ := h
  rcases repeats_of_pairUp hinj (List.Subset.refl l) heq ht with ⟨s, hs, hsub⟩ | ⟨a, ha, hl⟩
  · exact .inl ⟨s, hs, hsub⟩
  · exact .inr ⟨[a], hl, by simpa using ha⟩

theorem Repeats.eq_of_nodup (h : Repeats l l') (hnd : l'.Nodup) : l = l' := by
  obtain ⟨t, rfl, ht⟩ := h
  cases t with
  | nil => simp
  | cons a t =>
    have hdis := (List.nodup_append.1 hnd).2.2 a (ht List.mem_cons_self) a List.mem_cons_self
    exact absurd rfl hdis

/-- Trees over nodes of one level with the same root differ by repetitions only. -/
theorem repeats_of_root_eq (hinj : Function.Injective2 node) {k n : Nat} (hn : l.length ≤ n)
    (hl : ∀ x ∈ l, Level node k x) (hl' : ∀ x ∈ l', Level node k x) (hne : l ≠ []) (hne' : l' ≠ [])
    (h : root node l = root node l') : Repeats l l' ∨ Repeats l' l := by
  induction n generalizing k l l' with
  | zero => exact absurd (List.eq_nil_of_length_eq_zero (Nat.le_zero.1 hn)) hne
  | succ n ih =>
    obtain ⟨r, kr, hr, hkr, -, hk⟩ := exists_level_root (Nat.le_refl _) hl hne
    obtain ⟨r', kr', hr', hkr', -, hk'⟩ := exists_level_root (Nat.le_refl _) hl' hne'
    obtain rfl : r = r' := Option.some.inj (hr.symm.trans (h.trans hr'))
    obtain rfl := hkr.unique hinj hkr'
    -- the level of the root says whether there is another level in between
    by_cases hlt : k < kr
    · have hlen := hk.2 hlt
      have hlen' := hk'.2 hlt
      rw [root_pairUp hlen, root_pairUp hlen'] at h
      have hup := length_pairUp node l
      have hup' := length_pairUp node l'
      have hrep := ih (by omega) (level_pairUp hl) (level_pairUp hl') (List.ne_nil_of_length_pos (by omega))
        (List.ne_nil_of_length_pos (by omega)) h
      rcases hrep with hrep | hrep
      · exact hrep.of_pairUp hinj
      · exact (hrep.of_pairUp hinj).symm
    · have hlen := List.length_pos_iff.2 hne
      have hlen' := List.length_pos_iff.2 hne'
      obtain ⟨a, rfl⟩ := List.length_eq_one_iff.1 (show l.length = 1 by omega)
      obtain ⟨b, rfl⟩ := List.length_eq_one_iff.1 (show l'.length = 1 by omega)
      rw [root_singleton, root_singleton, Option.some.injEq] at h
      exact .inl ⟨[], by simp [h], by simp⟩

/-- Among lists of distinct leaves the root determines the list. -/
theorem eq_of_root_eq (hinj : Function.Injective2 node) (hl : ∀ x ∈ l, ∀ a b, x ≠ node a b)
    (hl' : ∀ x ∈ l', ∀ a b, x ≠ node a b) (hne : l ≠ []) (hne' : l' ≠ []) (hnd : l.Nodup) (hnd' : l'.Nodup)
    (h : root node l = root node l') : l = l' := by
  rcases repeats_of_root_eq hinj (Nat.le_refl _) (fun x hx => .leaf (hl x hx)) (fun x hx => .leaf (hl' x hx)) hne hne' h
    with hrep | hrep
  · exact hrep.eq_of_nodup hnd'
  · exact (hrep.eq_of_nodup hnd).symm

end Zebra.Lib.Merkle
