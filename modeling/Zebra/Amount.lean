import Mathlib.Algebra.BigOperators.Group.List.Basic
import Mathlib.Algebra.Order.Ring.Int
import Zebra.Lib.Outcome

namespace Zebra

inductive Constraint where
  | negativeAllowed
  | nonNegative
  | negativeOrZero
deriving DecidableEq

def coin : Int := 100000000

def maxMoney : Int := 21000000 * coin

namespace Constraint

def lower : Constraint → Int
  | negativeAllowed => -maxMoney
  | nonNegative => 0
  | negativeOrZero => -maxMoney

def upper : Constraint → Int
  | negativeAllowed => maxMoney
  | nonNegative => maxMoney
  | negativeOrZero => 0

def Contains (C : Constraint) (value : Int) : Prop := C.lower ≤ value ∧ value ≤ C.upper

instance (C : Constraint) (value : Int) : Decidable (C.Contains value) :=
  inferInstanceAs (Decidable (_ ∧ _))

theorem zero_mem (C : Constraint) : C.Contains 0 := by
  cases C <;> decide

theorem Contains.negativeAllowed {C : Constraint} {v : Int} (h : C.Contains v) :
    Constraint.negativeAllowed.Contains v := by
  cases C <;> simp only [Contains, lower, upper, maxMoney, coin] at h ⊢ <;> omega

theorem Contains.neg {C : Constraint} {v : Int} (h : C.Contains v) : Constraint.negativeAllowed.Contains (-v):= by
  cases C <;> simp only [Contains, lower, upper, maxMoney, coin] at h ⊢ <;> omega

end Constraint

/-- A number of zatoshis in the valid range of its constraint. Sums and differences of
two amounts stay far inside an `i64`, so unbounded integers lose nothing. -/
@[ext]
structure Amount (C : Constraint) where
  zatoshis : Int
  valid : C.Contains zatoshis
deriving DecidableEq

inductive AmountError where
  | constraint (value : Int) (range : Constraint)
  | multiplicationOverflow (amount : Int) (multiplier : Nat) (overflowingResult : Int)
  | divideByZero (amount : Int)
  | sumOverflow (partialSum : Int) (remainingItems : Nat)
deriving DecidableEq

namespace Amount

variable {C : Constraint}

def tryFrom (C : Constraint) (value : Int) : Except AmountError (Amount C) :=
  if h : C.Contains value then .ok ⟨value, h⟩ else .error (.constraint value C)

def constrain (a : Amount C) (C' : Constraint) : Except AmountError (Amount C') :=
  tryFrom C' a.zatoshis

/-- Constraining to `NegativeAllowed`, which the source always unwraps. -/
def widen (a : Amount C) : Amount .negativeAllowed := ⟨a.zatoshis, a.valid.negativeAllowed⟩

def zero : Amount C := ⟨0, C.zero_mem⟩

instance : Inhabited (Amount C) := ⟨zero⟩

def add (a b : Amount C) : Except AmountError (Amount C) := tryFrom C (a.zatoshis + b.zatoshis)

def sub (a b : Amount C) : Except AmountError (Amount C) := tryFrom C (a.zatoshis - b.zatoshis)

def neg (a : Amount C) : Amount .negativeAllowed := ⟨-a.zatoshis, a.valid.neg⟩

def mul (a : Amount C) (n : Nat) : Except AmountError (Amount C) :=
  match tryFrom C (a.zatoshis * n) with
  | .ok b => .ok b
  | .error _ => .error (.multiplicationOverflow a.zatoshis n (a.zatoshis * n))

def sumFrom (acc : Amount C) : List (Amount C) → Except AmountError (Amount C)
  | [] => .ok acc
  | a :: l =>
    match acc.add a with
    | .ok s => sumFrom s l
    | .error (.constraint value _) => .error (.sumOverflow value l.length)
    | .error e => .error e

def sum (l : List (Amount C)) : Except AmountError (Amount C) := sumFrom zero l

@[simp] theorem zatoshis_zero : (zero : Amount C).zatoshis = 0 := rfl

@[simp] theorem zatoshis_neg (a : Amount C) : a.neg.zatoshis = -a.zatoshis := rfl

@[simp] theorem zatoshis_widen (a : Amount C) : a.widen.zatoshis = a.zatoshis := rfl

theorem tryFrom_eq_ok {v : Int} {a : Amount C} : tryFrom C v = .ok a ↔ a.zatoshis = v := by
  unfold tryFrom
  split
  · rw [Except.ok.injEq, Amount.ext_iff]
    exact eq_comm
  · rename_i h
    refine ⟨nofun, fun hv => absurd a.valid (hv ▸ h)⟩

theorem tryFrom_of_contains {v : Int} (h : C.Contains v) : tryFrom C v = .ok ⟨v, h⟩ := by
  simp [tryFrom, h]

theorem constrain_eq_ok {C' : Constraint} {a : Amount C} {b : Amount C'} :
    a.constrain C' = .ok b ↔ b.zatoshis = a.zatoshis := tryFrom_eq_ok

theorem add_eq_ok {a b c : Amount C} : a.add b = .ok c ↔ c.zatoshis = a.zatoshis + b.zatoshis :=
  tryFrom_eq_ok

theorem sub_eq_ok {a b c : Amount C} : a.sub b = .ok c ↔ c.zatoshis = a.zatoshis - b.zatoshis :=
  tryFrom_eq_ok

theorem sumFrom_eq_ok {acc s : Amount C} {l : List (Amount C)} (h : sumFrom acc l = .ok s) :
    s.zatoshis = acc.zatoshis + (l.map zatoshis).sum := by
  induction l generalizing acc with
  | nil => simp_all [sumFrom]
  | cons a l ih =>
    rw [sumFrom] at h
    cases ha : acc.add a with
    | ok t =>
      rw [ha] at h
      rw [ih h, add_eq_ok.1 ha, List.map_cons, List.sum_cons]
      omega
    | error e => rw [ha] at h; cases e <;> simp at h

theorem sum_eq_ok {s : Amount C} {l : List (Amount C)} (h : sum l = .ok s) : s.zatoshis = (l.map zatoshis).sum:= by
  simpa using sumFrom_eq_ok h

end Amount

end Zebra
