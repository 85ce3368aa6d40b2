import Mathlib.Algebra.Order.Ring.Int
import Mathlib.Logic.Function.Basic

namespace Zebra.Lib.RunningTotal

variable {α : Type} [DecidableEq α] {lo hi : Int} {b : α → Int}

def step (b : α → Int) (c : α × Int) : α → Int := Function.update b c.1 (b c.1 + c.2)

/-- Every total that a list of changes runs through lies between `lo` and `hi`. -/
def Fits (lo hi : Int) (b : α → Int) : List (α × Int) → Prop
  | [] => True
  | c :: l => (lo ≤ b c.1 + c.2 ∧ b c.1 + c.2 ≤ hi) ∧ Fits lo hi (step b c) l

instance Fits.decidable : (b : α → Int) → (l : List (α × Int)) → Decidable (Fits lo hi b l)
  | _, [] => isTrue trivial
  | b, c :: l =>
    have := Fits.decidable (step b c) l
    inferInstanceAs (Decidable (_ ∧ _))

@[simp] theorem fits_nil : Fits lo hi b [] := trivial

theorem fits_cons {c : α × Int} {l : List (α × Int)} :
    Fits lo hi b (c :: l) ↔ (lo ≤ b c.1 + c.2 ∧ b c.1 + c.2 ≤ hi) ∧ Fits lo hi (step b c) l := Iff.rfl

def gains (l : List (α × Int)) (a : α) : Int := (l.map fun c => if c.1 = a then max c.2 0 else 0).sum

def losses (l : List (α × Int)) (a : α) : Int := gains (l.map fun c => (c.1, -c.2)) a

variable {l : List (α × Int)} {a : α}

@[simp] theorem gains_nil : gains ([] : List (α × Int)) a = 0 := rfl

@[simp] theorem losses_nil : losses ([] : List (α × Int)) a = 0 := rfl

theorem gains_cons (c : α × Int) : gains (c :: l) a = (if c.1 = a then max c.2 0 else 0) + gains l a := by
  rw [gains, List.map_cons, List.sum_cons, ← gains]

theorem losses_cons (c : α × Int) : losses (c :: l) a = (if c.1 = a then max (-c.2) 0 else 0) + losses l a :=
  gains_cons (c.1, -c.2)

theorem gains_nonneg : 0 ≤ gains l a := by
  induction l with
  | nil => exact Int.le_refl 0
  | cons c l ih =>
    rw [gains_cons]
    split <;> omega

theorem losses_nonneg : 0 ≤ losses l a := gains_nonneg

theorem step_apply (c : α × Int) : step b c a = b a + if c.1 = a then c.2 else 0 := by
  by_cases ha : c.1 = a
  · subst ha
    simp [step]
  · simp [step, ha, Function.update_of_ne (Ne.symm ha)]

/-- Totals that have room for all gains and all losses at once fit in any order of the changes. -/
theorem fits_of_gross (hgains : ∀ a, b a + gains l a ≤ hi) (hlosses : ∀ a, lo ≤ b a - losses l a) : Fits lo hi b l := by
  induction l generalizing b with
  | nil => exact fits_nil
  | cons c l ih =>
    simp only [gains_cons] at hgains
    simp only [losses_cons] at hlosses
    refine ⟨?_, ih (fun a => ?_) fun a => ?_⟩
    · have hgain := hgains c.1
      have hloss := hlosses c.1
      rw [if_pos rfl] at hgain hloss
      have hnonneg := gains_nonneg (l := l) (a := c.1)
      have hnonneg' := losses_nonneg (l := l) (a := c.1)
      omega
    · have hgain := hgains a
      rw [step_apply]
      split at hgain <;> simp_all <;> omega
    · have hloss := hlosses a
      rw [step_apply]
      split at hloss <;> simp_all <;> omega

end Zebra.Lib.RunningTotal
