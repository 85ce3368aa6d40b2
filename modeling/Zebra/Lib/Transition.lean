import Mathlib.Order.Basic

namespace Zebra.Lib.Transition

inductive Run {S O : Type} (step : S → O → S → Prop) : S → List O → S → Prop
  | nil (s : S) : Run step s [] s
  | cons {s s' s'' : S} {o : O} {os : List O} : step s o s' → Run step s' os s'' → Run step s (o :: os) s''

section

variable {S O : Type} {step : S → O → S → Prop} {s s' s'' : S} {o : O} {os os' : List O}

@[simp] theorem run_nil_iff : Run step s [] s' ↔ s' = s := by
  constructor
  · rintro ⟨⟩
    rfl
  · rintro rfl
    exact .nil s'

theorem run_cons_iff : Run step s (o :: os) s'' ↔ ∃ s', step s o s' ∧ Run step s' os s'' := by
  constructor
  · rintro (_ | ⟨h, hs⟩)
    exact ⟨_, h, hs⟩
  · rintro ⟨s', h, hs⟩
    exact .cons h hs

theorem run_append_iff : Run step s (os ++ os') s'' ↔ ∃ s', Run step s os s' ∧ Run step s' os' s'' := by
  induction os generalizing s with
  | nil => simp
  | cons o os ih =>
    simp only [List.cons_append, run_cons_iff, ih]
    constructor
    · rintro ⟨t, ht, u, hu, hr⟩
      exact ⟨u, ⟨t, ht, hu⟩, hr⟩
    · rintro ⟨u, ⟨t, ht, hu⟩, hr⟩
      exact ⟨t, ht, u, hu, hr⟩

theorem Run.invariant {P : S → Prop} (hstep : ∀ s o s', P s → step s o s' → P s') (hr : Run step s os s')
    (hs : P s) : P s' := by
  induction hr with
  | nil => exact hs
  | cons h _ ih => exact ih (hstep _ _ _ hs h)

theorem Run.simulate {T : Type} {step' : T → O → T → Prop} {R : S → T → Prop}
    (hstep : ∀ s t o s', R s t → step s o s' → ∃ t', step' t o t' ∧ R s' t') (hr : Run step s os s') {t : T}
    (hs : R s t) : ∃ t', Run step' t os t' ∧ R s' t' := by
  induction hr generalizing t with
  | nil => exact ⟨t, .nil t, hs⟩
  | cons h _ ih =>
    obtain ⟨t₁, ht, hR⟩ := hstep _ _ _ _ hs h
    obtain ⟨t₂, hrun, hR⟩ := ih hR
    exact ⟨t₂, .cons ht hrun, hR⟩

end

end Zebra.Lib.Transition
