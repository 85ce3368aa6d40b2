import Mathlib.Data.List.Basic
import Mathlib.Data.List.Forall2
import Mathlib.Data.Vector.Basic
import Mathlib.Tactic.Common

/-! Computations that read values from a stream of tokens, and rules for what they read. -/

namespace Zebra.Lib

/-- A computation that reads from the front of a list of tokens. -/
def Reader (ε τ α : Type) := List τ → Except ε (α × List τ)

namespace Reader

variable {ε τ α β : Type}

protected def pure (a : α) : Reader ε τ α := fun input => .ok (a, input)

protected def bind (p : Reader ε τ α) (f : α → Reader ε τ β) : Reader ε τ β := fun input =>
  match p input with
  | .ok (a, rest) => f a rest
  | .error e => .error e

instance : Monad (Reader ε τ) where
  pure := Reader.pure
  bind := Reader.bind

def fail (e : ε) : Reader ε τ α := fun _ => .error e

def lift (x : Except ε α) : Reader ε τ α := fun input =>
  match x with
  | .ok a => .ok (a, input)
  | .error e => .error e

def exactly (eof : ε) (n : Nat) : Reader ε τ (List.Vector τ n) := fun input =>
  if h : n ≤ input.length then .ok (⟨input.take n, List.length_take_of_le h⟩, input.drop n) else .error eof

def times (p : Reader ε τ α) : Nat → Reader ε τ (List α)
  | 0 => pure []
  | n + 1 => do
    let a ← p
    let as ← times p n
    return a :: as

/-- A reader that sees only the next `n` tokens. -/
def limit (n : Nat) (p : Reader ε τ α) : Reader ε τ α := fun input =>
  match p (input.take n) with
  | .ok (a, rest) => .ok (a, rest ++ input.drop n)
  | .error e => .error e

/-- Every value is read from tokens that are related to it by `P`, and it is read from the same
tokens whatever follows them. -/
def Reads (p : Reader ε τ α) (P : α → List τ → Prop) : Prop :=
  ∀ input a rest, p input = .ok (a, rest) →
    ∃ read, input = read ++ rest ∧ P a read ∧ ∀ more, p (read ++ more) = .ok (a, more)

variable {p : Reader ε τ α} {f : α → Reader ε τ β} {P Q : α → List τ → Prop} {R : β → List τ → Prop}

theorem reads_pure {a : α} (h : P a []) : Reads (pure a : Reader ε τ α) P := by
  intro input a' rest heq
  cases heq
  exact ⟨[], rfl, h, fun _ => rfl⟩

theorem reads_fail (e : ε) : Reads (fail e : Reader ε τ α) P := fun _ _ _ heq => nomatch heq

theorem Reads.mono (h : Reads p P) (hPQ : ∀ a read, P a read → Q a read) : Reads p Q := by
  intro input a rest heq
  obtain ⟨read, hinput, hP, hmore⟩ := h input a rest heq
  exact ⟨read, hinput, hPQ a read hP, hmore⟩

/-- What a sequence of readers reads: the second one is judged with the tokens of the first one
before its own. -/
theorem Reads.bind (hp : Reads p P) (hf : ∀ a read, P a read → Reads (f a) fun b read' => R b (read ++ read')) :
    Reads (p >>= f) R := by
  have hbind : ∀ input, (p >>= f) input = match p input with
    | .ok (a, rest) => f a rest
    | .error e => .error e := fun _ => rfl
  intro input b rest heq
  rw [hbind] at heq
  cases hpi : p input with
  | error e =>
    rw [hpi] at heq
    cases heq
  | ok x =>
    obtain ⟨a, middle⟩ := x
    rw [hpi] at heq
    obtain ⟨read, rfl, hP, hmore⟩ := hp input a middle hpi
    obtain ⟨read', rfl, hR, hmore'⟩ := hf a read hP middle b rest heq
    refine ⟨read ++ read', (List.append_assoc _ _ _).symm, hR, fun more => ?_⟩
    rw [hbind, List.append_assoc, hmore]
    exact hmore' more

theorem reads_lift {x : Except ε α} (h : ∀ a, x = .ok a → P a []) : Reads (lift x : Reader ε τ α) P := by
  cases x with
  | error e => exact reads_fail e
  | ok a => exact reads_pure (h a rfl)

theorem Reads.ite {c : Prop} [Decidable c] {q : Reader ε τ α} (hp : c → Reads p P) (hq : ¬ c → Reads q P) :
    Reads (if c then p else q) P := by
  by_cases hc : c
  · rw [if_pos hc]
    exact hp hc
  · rw [if_neg hc]
    exact hq hc

theorem reads_exactly (eof : ε) (n : Nat) :
    Reads (exactly eof n : Reader ε τ (List.Vector τ n)) fun a read => read = a.toList := by
  intro input a rest heq
  rw [exactly] at heq
  split at heq
  · rename_i hn
    cases heq
    have hlen : (input.take n).length = n := List.length_take_of_le hn
    refine ⟨input.take n, (List.take_append_drop n input).symm, rfl, fun more => ?_⟩
    rw [exactly, dif_pos (by rw [List.length_append, hlen]; omega)]
    simp only [List.take_left' hlen, List.drop_left' hlen]
  · cases heq

/-- A list of values, each read from its own part of the tokens. -/
def Each (P : α → List τ → Prop) (as : List α) (read : List τ) : Prop :=
  ∃ parts, List.Forall₂ P as parts ∧ read = parts.flatten

theorem each_nil : Each P [] [] := ⟨[], .nil, rfl⟩

theorem Each.cons {a : α} {as : List α} {part read : List τ} (ha : P a part) (h : Each P as read) :
    Each P (a :: as) (part ++ read) := by
  obtain ⟨parts, hparts, rfl⟩ := h
  exact ⟨part :: parts, .cons ha hparts, rfl⟩

theorem Reads.times (h : Reads p P) (n : Nat) : Reads (p.times n) fun as read => as.length = n ∧ Each P as read := by
  induction n with
  | zero => exact reads_pure ⟨rfl, each_nil⟩
  | succ n ih =>
    refine h.bind fun a part ha => ih.bind fun as read has => reads_pure ⟨?_, ?_⟩
    · rw [List.length_cons, has.1]
    · rw [List.append_nil]
      exact has.2.cons ha

theorem Reads.limit (h : Reads p P) (n : Nat) : Reads (p.limit n) P := by
  intro input a rest heq
  rw [Reader.limit] at heq
  cases hp : p (input.take n) with
  | error e =>
    rw [hp] at heq
    cases heq
  | ok x =>
    obtain ⟨a', rest'⟩ := x
    rw [hp] at heq
    cases heq
    obtain ⟨read, hinput, hP, hmore⟩ := h _ _ _ hp
    have hlen : read.length ≤ n := by
      have := congrArg List.length hinput
      rw [List.length_take, List.length_append] at this
      omega
    refine ⟨read, ?_, hP, fun more => ?_⟩
    · rw [← List.append_assoc, ← hinput, List.take_append_drop]
    · rw [Reader.limit, List.take_append, List.take_of_length_le hlen, hmore]
      dsimp only
      rw [List.drop_append, List.drop_of_length_le hlen, List.nil_append, List.take_append_drop]

end Reader

end Zebra.Lib
