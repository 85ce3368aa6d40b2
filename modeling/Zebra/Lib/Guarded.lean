import Zebra.Lib.Outcome

/-! Runs of a fallible step, each input of which meets a condition on the state before it. -/

namespace Zebra.Lib

variable {σ ι π ε : Type} {step : σ → ι → Outcome π ε σ} {C : σ → ι → Prop} {s s' : σ} {inputs : List ι}

/-- Every input meets the condition in the state it comes to. -/
def Guarded (step : σ → ι → Outcome π ε σ) (C : σ → ι → Prop) : σ → List ι → Prop
  | _, [] => True
  | s, i :: inputs => C s i ∧ ∀ s', step s i = .ok s' → Guarded step C s' inputs

namespace Guarded

instance decidable [∀ s i, Decidable (C s i)] : (s : σ) → (inputs : List ι) → Decidable (Guarded step C s inputs)
  | _, [] => isTrue trivial
  | s, i :: inputs =>
    match h : step s i with
    | .ok next =>
      have : Decidable (Guarded step C next inputs) := decidable next inputs
      decidable_of_iff (C s i ∧ Guarded step C next inputs)
        (and_congr_right fun _ => ⟨fun hnext _ heq => Except.ok.inj (h.symm.trans heq) ▸ hnext, fun hall => hall next h⟩)
    | .error _ => decidable_of_iff (C s i) ⟨fun hC => ⟨hC, fun _ heq => nomatch h.symm.trans heq⟩, And.left⟩

theorem invariant {P : σ → Prop} (hstep : ∀ s i s', P s → C s i → step s i = .ok s' → P s')
    (hC : Guarded step C s inputs) (h : inputs.foldlM step s = .ok s') (hP : P s) : P s' := by
  induction inputs generalizing s with
  | nil =>
    cases h
    exact hP
  | cons i inputs ih =>
    rw [List.foldlM_cons] at h
    obtain ⟨next, hnext, h⟩ := bind_eq_ok.1 h
    exact ih (hC.2 next hnext) h (hstep s i next hP hC.1 hnext)

theorem exists_invariant {P : σ → Prop} (hsucceeds : ∀ s i, P s → C s i → (step s i).Succeeds)
    (hstep : ∀ s i s', P s → C s i → step s i = .ok s' → P s') (hC : Guarded step C s inputs) (hP : P s) :
    ∃ s', inputs.foldlM step s = .ok s' ∧ P s' := by
  induction inputs generalizing s with
  | nil => exact ⟨s, rfl, hP⟩
  | cons i inputs ih =>
    obtain ⟨next, hnext⟩ := hsucceeds s i hP hC.1
    obtain ⟨s', hs', hP'⟩ := ih (hC.2 next hnext) (hstep s i next hP hC.1 hnext)
    exact ⟨s', by rw [List.foldlM_cons, hnext]; exact hs', hP'⟩

end Guarded

end Zebra.Lib
