import Mathlib.Data.List.Chain
import Mathlib.Data.List.Induction
import Mathlib.Tactic.Common

namespace Zebra.Lib.Series

/-! A series gives a value to each of an ascending list of heights. It is stored without
repetitions: a value is kept only where it differs, by a key `r`, from the one before. -/

variable {β ρ : Type} [DecidableEq ρ] {r : β → ρ} {prev : Option ρ} {l l' : List (Nat × β)} {x : Nat × β}

/-- The values that are stored when the series follows a value with key `prev`. -/
def firsts (r : β → ρ) : Option ρ → List (Nat × β) → List (Nat × β)
  | _, [] => []
  | prev, x :: l =>
    if prev = some (r x.2) then firsts r (some (r x.2)) l else x :: firsts r (some (r x.2)) l

def lastKey (r : β → ρ) : Option ρ → List (Nat × β) → Option ρ
  | prev, [] => prev
  | _, x :: l => lastKey r (some (r x.2)) l

def Ascending (l : List (Nat × β)) : Prop := l.Pairwise fun x y => x.1 < y.1

/-- A value that is not stored equals the stored one. -/
def Canonical (r : β → ρ) (l : List (Nat × β)) : Prop := l.IsChain fun x y => r x.2 = r y.2 → x.2 = y.2

theorem firsts_append : firsts r prev (l ++ l') = firsts r prev l ++ firsts r (lastKey r prev l) l':= by
  induction l generalizing prev with
  | nil => rfl
  | cons x l ih =>
    simp only [List.cons_append, firsts, lastKey, ih]
    split <;> simp

theorem firsts_sublist : (firsts r prev l).Sublist l := by
  induction l generalizing prev with
  | nil => exact .slnil
  | cons x l ih =>
    rw [firsts]
    split
    · exact ih.cons x
    · exact ih.cons_cons x

omit [DecidableEq ρ] in
theorem lastKey_eq_getLast? : lastKey r prev l = (l.getLast?.map fun x => r x.2).or prev := by
  induction l generalizing prev with
  | nil => rfl
  | cons x l ih =>
    rw [lastKey, ih]
    cases l <;> simp [List.getLast?_cons]

theorem Ascending.firsts (h : Ascending l) : Ascending (firsts r prev l) := h.sublist firsts_sublist

/-- The last stored value is the last value of the series. -/
theorem getLast?_firsts (h : Canonical r l) : (firsts r none l).getLast?.map Prod.snd = l.getLast?.map Prod.snd:= by
  induction l using List.reverseRecOn with
  | nil => rfl
  | append_singleton l x ih =>
    rw [Canonical, List.isChain_append] at h
    have ih := ih h.1
    rw [firsts_append, lastKey_eq_getLast?, Option.or_none]
    cases hl : l.getLast? with
    | none => simp [firsts]
    | some y =>
      rw [hl] at ih
      have hxy := h.2.2 y hl x rfl
      by_cases hk : r y.2 = r x.2
      · simpa [firsts, hk, ← hxy hk] using ih
      · simp [firsts, hk]

/-- The stored values up to a height are those of the series up to that height. -/
theorem filter_firsts {h : Nat} (hl : ∀ x ∈ l, x.1 ≤ h) (hl' : ∀ x ∈ l', h < x.1) :
    (firsts r prev (l ++ l')).filter (·.1 ≤ h) = firsts r prev l := by
  rw [firsts_append, List.filter_append, List.filter_eq_self.2, List.filter_eq_nil_iff.2, List.append_nil]
  · intro x hx
    have := hl' x (firsts_sublist.subset hx)
    simpa using this
  · intro x hx
    simpa using hl x (firsts_sublist.subset hx)

/-- The value at a height is the last one stored at or below it. -/
theorem getLast?_filter_firsts {h : Nat} (hc : Canonical r (l ++ l')) (hl : ∀ x ∈ l, x.1 ≤ h)
    (hl' : ∀ x ∈ l', h < x.1) :
    ((firsts r none (l ++ l')).filter (·.1 ≤ h)).getLast?.map Prod.snd = l.getLast?.map Prod.snd := by
  rw [filter_firsts hl hl', getLast?_firsts (List.isChain_append.1 hc).1]

theorem firsts_none_cons : firsts r none (x :: l) = x :: firsts r (some (r x.2)) l := by
  simp [firsts]

end Zebra.Lib.Series
