import Mathlib.Data.List.Basic
import Mathlib.Data.List.Forall2
import Mathlib.Tactic.Common

namespace Zebra.Lib

/-- How a computation stops early: it aborts at a site of type `π`, or it returns an error. -/
inductive Fault (π ε : Type) where
  | panic (p : π)
  | error (e : ε)
deriving DecidableEq, Repr

abbrev Outcome (π ε α : Type) := Except (Fault π ε) α

theorem bind_eq_ok {ε α β : Type} {x : Except ε α} {f : α → Except ε β} {b : β} :
    (x >>= f) = .ok b ↔ ∃ a, x = .ok a ∧ f a = .ok b := by
  cases x <;> simp [bind, Except.bind]

theorem mapError_eq_ok {ε ε' α : Type} {f : ε → ε'} {x : Except ε α} {a : α} : x.mapError f = .ok a ↔ x = .ok a:= by
  cases x <;> simp [Except.mapError]

theorem map_eq_ok {ε α β : Type} {x : Except ε α} {f : α → β} {b : β} : f <$> x = .ok b ↔ ∃ a, x = .ok a ∧ f a = b:= by
  cases x <;> simp [Functor.map, Except.map]

theorem mapM_eq_ok {ε α β : Type} {f : α → Except ε β} {l : List α} {r : List β} :
    l.mapM f = .ok r ↔ List.Forall₂ (fun a b => f a = .ok b) l r := by
  induction l generalizing r with
  | nil => simp [pure, Except.pure, eq_comm]
  | cons a l ih =>
    rw [List.mapM_cons, bind_eq_ok, List.forall₂_cons_left_iff]
    simp only [bind_eq_ok, ih, pure, Except.pure, Except.ok.injEq]
    constructor
    · rintro ⟨b, hb, r, hr, rfl⟩
      exact ⟨b, r, hb, hr, rfl⟩
    · rintro ⟨b, r, hb, hr, rfl⟩
      exact ⟨b, hb, r, hr, rfl⟩

theorem mem_of_mapM_eq_ok {ε α β : Type} {f : α → Except ε β} {l : List α} {r : List β} (h : l.mapM f = .ok r) {b : β} :
    b ∈ r ↔ ∃ a ∈ l, f a = .ok b := by
  rw [mapM_eq_ok] at h
  induction h with
  | nil => simp
  | cons hb _ ih => simp [ih, hb, eq_comm]

theorem exists_of_mapM_eq_ok {ε α β : Type} {f : α → Except ε β} {l : List α} {r : List β} (h : l.mapM f = .ok r)
    {a : α} (ha : a ∈ l) : ∃ b, f a = .ok b := by
  rw [mapM_eq_ok] at h
  induction h with
  | nil => cases ha
  | cons hb _ ih =>
    rcases List.mem_cons.1 ha with rfl | ha
    · exact ⟨_, hb⟩
    · exact ih ha

theorem exists_mapM_eq_ok {ε α β : Type} {f : α → Except ε β} {l : List α} (h : ∀ a ∈ l, ∃ b, f a = .ok b) :
    ∃ r, l.mapM f = .ok r := by
  induction l with
  | nil => exact ⟨[], rfl⟩
  | cons a l ih =>
    obtain ⟨b, hb⟩ := h a List.mem_cons_self
    obtain ⟨r, hr⟩ := ih fun a ha => h a (List.mem_cons_of_mem _ ha)
    exact ⟨b :: r, mapM_eq_ok.2 (.cons hb (mapM_eq_ok.1 hr))⟩

theorem forM_eq_ok {ε α : Type} {f : α → Except ε PUnit} {l : List α} : l.forM f = .ok () ↔ ∀ a ∈ l, f a = .ok ():= by
  induction l with
  | nil => simp [pure, Except.pure]
  | cons a l ih =>
    rw [List.forM, bind_eq_ok, List.forall_mem_cons, ← ih]
    exact ⟨fun ⟨(), ha, hl⟩ => ⟨ha, hl⟩, fun ⟨ha, hl⟩ => ⟨(), ha, hl⟩⟩

theorem eq_map_of_mapM_eq_ok {ε α β : Type} {f : α → Except ε β} {g : α → β} {l : List α} {r : List β}
    (hf : ∀ a ∈ l, ∀ b, f a = .ok b → b = g a) (h : l.mapM f = .ok r) : r = l.map g := by
  rw [mapM_eq_ok] at h
  induction h with
  | nil => rfl
  | cons hb _ ih =>
    rw [List.map_cons, hf _ List.mem_cons_self _ hb, ih fun a ha => hf a (List.mem_cons_of_mem _ ha)]

theorem map_fst_eq_ok {ε α β : Type} {x : Except ε (α × β)} {a : α} : Prod.fst <$> x = .ok a ↔ ∃ b, x = .ok (a, b):= by
  cases x <;> simp [Functor.map, Except.map, Prod.ext_iff]

theorem map_snd_eq_ok {ε α β : Type} {x : Except ε (α × β)} {b : β} : Prod.snd <$> x = .ok b ↔ ∃ a, x = .ok (a, b):= by
  cases x <;> simp [Functor.map, Except.map, Prod.ext_iff]

namespace Outcome

variable {π ε α β σ : Type}

def panic (p : π) : Outcome π ε α := .error (.panic p)

def fail (e : ε) : Outcome π ε α := .error (.error e)

/-- `Option::expect`: abort at `p` when the value is missing. -/
def expect (o : Option α) (p : π) : Outcome π ε α :=
  match o with
  | some a => .ok a
  | none => panic p

/-- `assert!`: abort at `p` unless the condition holds. -/
def check (c : Prop) [Decidable c] (p : π) : Outcome π ε Unit :=
  if c then .ok () else panic p

/-- `Result::expect`: abort at `p` on any error. -/
def unwrap (x : Except ε' α) (p : π) : Outcome π ε α :=
  match x with
  | .ok a => .ok a
  | .error _ => panic p

/-- `Result::map_err` followed by `?`. -/
def lift (f : ε' → ε) (x : Except ε' α) : Outcome π ε α :=
  match x with
  | .ok a => .ok a
  | .error e => fail (f e)

/-- `Result::map_err` on a computation that can also abort. -/
def mapErr (f : ε → ε') : Outcome π ε α → Outcome π ε' α
  | .ok a => .ok a
  | .error (.panic p) => .error (.panic p)
  | .error (.error e) => .error (.error (f e))

/-- `Result::expect` on a computation that can also abort. -/
def orPanic (x : Outcome π ε' α) (p : π) : Outcome π ε α :=
  match x with
  | .ok a => .ok a
  | .error (.panic p) => .error (.panic p)
  | .error (.error _) => panic p

def Panics (x : Outcome π ε α) : Prop := ∃ p, x = panic p

def Succeeds (x : Outcome π ε α) : Prop := ∃ a, x = .ok a

instance (x : Outcome π ε α) : Decidable x.Panics :=
  match x with
  | .ok _ => isFalse fun ⟨_, h⟩ => nomatch h
  | .error (.panic p) => isTrue ⟨p, rfl⟩
  | .error (.error _) => isFalse fun ⟨_, h⟩ => nomatch h

variable {x : Outcome π ε α} {p : π} {c : Prop} {step : σ → α → Outcome π ε σ} {s : σ}

theorem toOption_eq_some {a : α} : x.toOption = some a ↔ x = .ok a := by
  cases x <;> simp [Except.toOption]

@[simp] theorem expect_some (a : α) (p : π) : (expect (some a) p : Outcome π ε α) = .ok a := rfl

@[simp] theorem expect_none (p : π) : (expect none p : Outcome π ε α) = panic p := rfl

@[simp] theorem ok_bind (a : α) (f : α → Outcome π ε β) : ((.ok a : Outcome π ε α) >>= f) = f a := rfl

@[simp] theorem pure_eq_ok (a : α) : (pure a : Outcome π ε α) = .ok a := rfl

@[simp] theorem bind_ok (x : Outcome π ε α) : (x >>= fun a => (.ok a : Outcome π ε α)) = x := by
  cases x <;> rfl

@[simp] theorem panic_bind (p : π) (f : α → Outcome π ε β) : ((panic p : Outcome π ε α) >>= f) = panic p:= rfl

@[simp] theorem fail_bind (e : ε) (f : α → Outcome π ε β) : ((fail e : Outcome π ε α) >>= f) = fail e:= rfl

@[simp] theorem panic_ne_ok (p : π) (a : α) : (panic p : Outcome π ε α) ≠ .ok a := by
  simp [panic]

@[simp] theorem fail_ne_ok (e : ε) (a : α) : (fail e : Outcome π ε α) ≠ .ok a := by
  simp [fail]

@[simp] theorem panics_panic (p : π) : Panics (panic p : Outcome π ε α) := ⟨p, rfl⟩

@[simp] theorem not_panics_ok (a : α) : ¬ Panics (.ok a : Outcome π ε α) := by
  simp [Panics, panic]

@[simp] theorem not_panics_fail (e : ε) : ¬ Panics (fail e : Outcome π ε α) := by
  simp [Panics, panic, fail]

@[simp] theorem succeeds_ok (a : α) : Succeeds (.ok a : Outcome π ε α) := ⟨a, rfl⟩

theorem map_eq_panic {f : α → β} : f <$> x = panic p ↔ x = panic p := by
  cases x <;> simp [Functor.map, Except.map, panic]

theorem bind_panics {f : α → Outcome π ε β} : Panics (x >>= f) ↔ Panics x ∨ ∃ a, x = .ok a ∧ Panics (f a):= by
  cases x with
  | ok a => simp
  | error e => simp [bind, Except.bind, Panics, panic]

theorem bind_congr_ok {f g : α → Outcome π ε β} (h : ∀ a, x = .ok a → f a = g a) : x >>= f = x >>= g:= by
  cases x with
  | error e => rfl
  | ok a => exact h a rfl

theorem bind_succeeds {f : α → Outcome π ε β} : Succeeds (x >>= f) ↔ ∃ a, x = .ok a ∧ Succeeds (f a):= by
  cases x with
  | ok a => simp
  | error e => simp [bind, Except.bind, Succeeds]

theorem expect_eq_ok {o : Option α} {a : α} : (expect o p : Outcome π ε α) = .ok a ↔ o = some a:= by
  cases o <;> simp [expect]

theorem check_eq_ok [Decidable c] {u : Unit} : (check c p : Outcome π ε Unit) = .ok u ↔ c:= by
  by_cases h : c <;> simp [check, h]

theorem check_bind_eq_ok [Decidable c] {f : Unit → Outcome π ε β} {b : β} :
    ((check c p : Outcome π ε Unit) >>= f) = .ok b ↔ c ∧ f () = .ok b := by
  by_cases h : c <;> simp [check, h]

theorem unwrap_eq_ok {x : Except ε' α} {a : α} : (unwrap x p : Outcome π ε α) = .ok a ↔ x = .ok a:= by
  cases x <;> simp [unwrap]

theorem lift_eq_ok {f : ε' → ε} {x : Except ε' α} {a : α} : (lift f x : Outcome π ε α) = .ok a ↔ x = .ok a:= by
  cases x <;> simp [lift]

theorem mapErr_eq_ok {f : ε → ε'} {a : α} : x.mapErr f = .ok a ↔ x = .ok a := by
  rcases x with (_ | _) | _ <;> simp [mapErr]

theorem orPanic_eq_ok {x : Outcome π ε' α} {a : α} : (orPanic x p : Outcome π ε α) = .ok a ↔ x = .ok a := by
  rcases x with (p | e) | b <;> simp [orPanic, panic]

theorem not_panics_of_ok {a : α} (h : x = .ok a) : ¬ Panics x := by
  subst h; simp

namespace Infallible

end Infallible

theorem foldlM_flatMap {ι : Type} (l : List ι) (g : ι → List α) (f : σ → α → Outcome π ε σ) (s : σ) :
    (l.flatMap g).foldlM f s = l.foldlM (fun s i => (g i).foldlM f s) s := by
  induction l generalizing s with
  | nil => rfl
  | cons i l ih => simp only [List.flatMap_cons, List.foldlM_append, List.foldlM_cons, ih]

/-- The rule for a loop: an invariant that every successful round keeps holds at the end. -/
theorem foldlM_invariant {I : List α → σ → Prop} (hstep : ∀ a l s s', step s a = .ok s' → I (a :: l) s → I l s')
    {l : List α} {s' : σ} (h : l.foldlM step s = .ok s') (hI : I l s) : I [] s' := by
  induction l generalizing s with
  | nil =>
    simp only [List.foldlM_nil, pure_eq_ok, Except.ok.injEq] at h
    exact h ▸ hI
  | cons a l ih =>
    rw [List.foldlM_cons, bind_eq_ok] at h
    obtain ⟨s₁, h₁, h₂⟩ := h
    exact ih h₂ (hstep a l s s₁ h₁ hI)

theorem foldlM_succeeds {p : α → Prop} (hstep : ∀ s a, Succeeds (step s a) ↔ p a)
    {l : List α} : Succeeds (l.foldlM step s) ↔ ∀ a ∈ l, p a := by
  induction l generalizing s with
  | nil => simp [pure_eq_ok]
  | cons a l ih =>
    rw [List.foldlM_cons, bind_succeeds, List.forall_mem_cons, ← hstep s a]
    simp only [ih]
    exact exists_and_right

end Outcome

end Zebra.Lib
