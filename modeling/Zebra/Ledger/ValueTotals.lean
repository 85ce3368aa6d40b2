import Mathlib.Algebra.Order.BigOperators.Group.List
import Zebra.Block

namespace Zebra

open Lib

def TotalsFit (C : Constraint) (total : Int) : List Int → Prop
  | [] => True
  | v :: l => C.Contains (total + v) ∧ TotalsFit C (total + v) l

instance TotalsFit.decidable {C : Constraint} : (total : Int) → (l : List Int) → Decidable (TotalsFit C total l)
  | _, [] => isTrue trivial
  | total, v :: l =>
    have := TotalsFit.decidable (C := C) (total + v) l
    inferInstanceAs (Decidable (_ ∧ _))

theorem totalsFit_zeros {C : Constraint} {total : Int} (h : C.Contains total) {l : List Int} (hl : ∀ v ∈ l, v = 0) :
    TotalsFit C total l := by
  induction l with
  | nil => trivial
  | cons v l ih =>
    rw [List.forall_mem_cons] at hl
    rw [TotalsFit, hl.1, Int.add_zero]
    exact ⟨h, ih hl.2⟩

namespace Amount

theorem exists_sumFrom {acc : Amount .nonNegative} {l : List (Amount .nonNegative)}
    (h : acc.zatoshis + (l.map zatoshis).sum ≤ maxMoney) : ∃ s, sumFrom acc l = .ok s := by
  induction l generalizing acc with
  | nil => exact ⟨acc, rfl⟩
  | cons a l ih =>
    rw [List.map_cons, List.sum_cons] at h
    have hrest : 0 ≤ (l.map zatoshis).sum := List.sum_nonneg fun v hv => by
      obtain ⟨b, -, rfl⟩ := List.mem_map.1 hv
      exact b.valid.1
    have hmem : Constraint.nonNegative.Contains (acc.zatoshis + a.zatoshis) :=
      ⟨Int.add_nonneg acc.valid.1 a.valid.1, by change acc.zatoshis + a.zatoshis ≤ maxMoney; omega⟩
    have hadd : acc.add a = .ok ⟨_, hmem⟩ := tryFrom_of_contains hmem
    rw [sumFrom, hadd]
    apply ih
    change acc.zatoshis + a.zatoshis + _ ≤ _
    omega

theorem exists_sum_iff {l : List (Amount .nonNegative)} : (∃ s, sum l = .ok s) ↔ (l.map zatoshis).sum ≤ maxMoney:= by
  constructor
  · rintro ⟨s, hs⟩
    rw [← sum_eq_ok hs]
    exact s.valid.2
  · intro h
    apply exists_sumFrom
    rwa [zatoshis_zero, Int.zero_add]

end Amount

inductive ValuePool where
  | transparent
  | sprout
  | sapling
  | orchard
  | deferred
deriving DecidableEq

namespace ValueBalance

variable {C : Constraint} {v w u : ValueBalance C} {l : List (ValueBalance C)}

def amount (v : ValueBalance C) : ValuePool → Amount C
  | .transparent => v.transparent
  | .sprout => v.sprout
  | .sapling => v.sapling
  | .orchard => v.orchard
  | .deferred => v.deferred

def zatoshis (v : ValueBalance C) (pool : ValuePool) : Int := (v.amount pool).zatoshis

theorem contains_zatoshis (v : ValueBalance C) (pool : ValuePool) : C.Contains (v.zatoshis pool) :=
  (v.amount pool).valid

theorem add_eq_ok_zatoshis : v.add w = .ok u ↔ ∀ pool, u.zatoshis pool = v.zatoshis pool + w.zatoshis pool := by
  rw [add_eq_ok]
  constructor
  · rintro ⟨h₁, h₂, h₃, h₄, h₅⟩ (_ | _ | _ | _ | _)
    exacts [h₁, h₂, h₃, h₄, h₅]
  · intro h
    exact ⟨h .transparent, h .sprout, h .sapling, h .orchard, h .deferred⟩

theorem exists_add_iff : (∃ u, v.add w = .ok u) ↔ ∀ pool, C.Contains (v.zatoshis pool + w.zatoshis pool) := by
  constructor
  · rintro ⟨u, hu⟩ pool
    rw [← add_eq_ok_zatoshis.1 hu]
    exact u.contains_zatoshis pool
  · intro h
    exact ⟨⟨⟨_, h .transparent⟩, ⟨_, h .sprout⟩, ⟨_, h .sapling⟩, ⟨_, h .orchard⟩, ⟨_, h .deferred⟩⟩,
      add_eq_ok.2 ⟨rfl, rfl, rfl, rfl, rfl⟩⟩

theorem foldlM_add_eq_ok (h : l.foldlM add v = .ok u) (pool : ValuePool) :
    u.zatoshis pool = v.zatoshis pool + (l.map (·.zatoshis pool)).sum := by
  induction l generalizing v with
  | nil =>
    cases h
    simp
  | cons w l ih =>
    rw [List.foldlM_cons] at h
    obtain ⟨t, ht, h⟩ := bind_eq_ok.1 h
    rw [ih h, add_eq_ok_zatoshis.1 ht, List.map_cons, List.sum_cons, Int.add_assoc]

theorem exists_foldlM_add_iff :
    (∃ u, l.foldlM add v = .ok u) ↔ ∀ pool, TotalsFit C (v.zatoshis pool) (l.map (·.zatoshis pool)) := by
  induction l generalizing v with
  | nil => exact iff_of_true ⟨v, rfl⟩ fun _ => trivial
  | cons w l ih =>
    simp only [List.foldlM_cons, bind_eq_ok, List.map_cons, TotalsFit, forall_and, ← exists_add_iff]
    constructor
    · rintro ⟨u, t, ht, hu⟩
      refine ⟨⟨t, ht⟩, fun pool => ?_⟩
      rw [← add_eq_ok_zatoshis.1 ht]
      exact ih.1 ⟨u, hu⟩ pool
    · rintro ⟨⟨t, ht⟩, hrest⟩
      obtain ⟨u, hu⟩ := ih.2 fun pool => (add_eq_ok_zatoshis.1 ht pool).symm ▸ hrest pool
      exact ⟨u, t, ht, hu⟩

@[simp] theorem zatoshis_fromTransparentAmount (a : Amount C) (pool : ValuePool) :
    (fromTransparentAmount a).zatoshis pool = if pool = .transparent then a.zatoshis else 0 := by
  cases pool <;> rfl

@[simp] theorem zatoshis_fromSproutAmount (a : Amount C) (pool : ValuePool) :
    (fromSproutAmount a).zatoshis pool = if pool = .sprout then a.zatoshis else 0 := by
  cases pool <;> rfl

@[simp] theorem zatoshis_fromSaplingAmount (a : Amount C) (pool : ValuePool) :
    (fromSaplingAmount a).zatoshis pool = if pool = .sapling then a.zatoshis else 0 := by
  cases pool <;> rfl

@[simp] theorem zatoshis_fromOrchardAmount (a : Amount C) (pool : ValuePool) :
    (fromOrchardAmount a).zatoshis pool = if pool = .orchard then a.zatoshis else 0 := by
  cases pool <;> rfl

theorem zatoshis_neg (v : ValueBalance C) (pool : ValuePool) : v.neg.zatoshis pool = - v.zatoshis pool := by
  cases pool <;> rfl

theorem zatoshis_zero (pool : ValuePool) : (zero : ValueBalance C).zatoshis pool = 0 := by
  cases pool <;> rfl

theorem sum_eq_ok_zatoshis (h : sum l = .ok u) (pool : ValuePool) :
    u.zatoshis pool = (l.map (·.zatoshis pool)).sum := by
  rw [foldlM_add_eq_ok h, zatoshis_zero, Int.zero_add]

theorem exists_sum_iff : (∃ u, sum l = .ok u) ↔ ∀ pool, TotalsFit C 0 (l.map (·.zatoshis pool)) := by
  rw [sum, exists_foldlM_add_iff]
  simp only [zatoshis_zero]

end ValueBalance

end Zebra
