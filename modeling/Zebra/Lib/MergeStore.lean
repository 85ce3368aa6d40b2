import Mathlib.Data.List.Basic

namespace Zebra.Lib

/-- What a store with a merge operator keeps for one key: a value, and the operands written
after it, in order. -/
structure MergeStore (β : Type) where
  base : Option β := none
  pending : List β := []

namespace MergeStore

variable {σ β : Type}

/-- `Merges base xs y`: the merge operator combines the operands `xs`, after the value
`base` if there is one, into `y`. -/
abbrev Operator (β : Type) := Option β → List β → β → Prop

/-- The store may combine any contiguous operands into one, and the first ones into its
value, whenever it likes. -/
inductive Compacts (Merges : Operator β) : MergeStore β → MergeStore β → Prop
  | operands {base : Option β} {l xs r : List β} {y : β} (hxs : xs ≠ []) (hy : Merges none xs y) :
      Compacts Merges ⟨base, l ++ xs ++ r⟩ ⟨base, l ++ y :: r⟩
  | value {base : Option β} {xs r : List β} {y : β} (hy : Merges base xs y) :
      Compacts Merges ⟨base, xs ++ r⟩ ⟨some y, r⟩

def merge (s : MergeStore β) (y : β) : MergeStore β := ⟨s.base, s.pending ++ [y]⟩

/-- Operands that lead from one state to another, one change after the other. -/
inductive Path (Carries : σ → σ → β → Prop) : σ → List β → σ → Prop
  | nil (a : σ) : Path Carries a [] a
  | cons {a b c : σ} {y : β} {ys : List β} : Carries a b y → Path Carries b ys c → Path Carries a (y :: ys) c

section

variable {Carries : σ → σ → β → Prop} {a b c : σ} {xs ys : List β}

theorem path_append : Path Carries a (xs ++ ys) c ↔ ∃ b, Path Carries a xs b ∧ Path Carries b ys c := by
  induction xs generalizing a with
  | nil =>
    refine ⟨fun h => ⟨a, .nil a, h⟩, ?_⟩
    rintro ⟨b, ⟨⟩, h⟩
    exact h
  | cons x xs ih =>
    constructor
    · rintro (_ | ⟨hx, h⟩)
      obtain ⟨b, hb, h⟩ := ih.1 h
      exact ⟨b, .cons hx hb, h⟩
    · rintro ⟨b, _ | ⟨hx, hb⟩, h⟩
      exact .cons hx (ih.2 ⟨b, hb, h⟩)

theorem path_singleton {y : β} : Path Carries a [y] b ↔ Carries a b y := by
  refine ⟨?_, fun h => .cons h (.nil b)⟩
  rintro (_ | ⟨h, ⟨⟩⟩)
  exact h

end

/-- The laws of a merge operator for values of type `σ`: `Holds a x` says that `x` stores the
value `a`, and `Carries a b y` that the operand `y` carries the change from `a` to `b`.
Operands along a path always combine, to the change along the whole path. -/
structure Laws (Merges : Operator β) (Carries : σ → σ → β → Prop) (Holds : σ → β → Prop) (empty : σ) : Prop where
  carries : ∀ {a b xs}, xs ≠ [] → Path Carries a xs b → ∃ y, Merges none xs y ∧ Carries a b y
  holds : ∀ {a b x xs}, Holds a x → Path Carries a xs b → ∃ y, Merges (some x) xs y ∧ Holds b y
  start : ∀ {b xs}, xs ≠ [] → Path Carries empty xs b → ∃ y, Merges none xs y ∧ Holds b y
  functional : ∀ {base xs y y'}, Merges base xs y → Merges base xs y' → y = y'
  nonempty : ∀ {y}, ¬ Merges none [] y

def Represents (Carries : σ → σ → β → Prop) (Holds : σ → β → Prop) (empty : σ) (s : MergeStore β) (v : σ) : Prop :=
  ∃ a, (∀ x ∈ s.base, Holds a x) ∧ (s.base = none → a = empty) ∧ Path Carries a s.pending v

variable {Merges : Operator β} {Carries : σ → σ → β → Prop} {Holds : σ → β → Prop} {empty : σ} {s s' : MergeStore β}
  {v w : σ} {y : β}

theorem represents_empty : Represents Carries Holds empty {} empty :=
  ⟨empty, by simp, fun _ => rfl, .nil empty⟩

theorem Represents.merge (h : Represents Carries Holds empty s v) (hy : Carries v w y) :
    Represents Carries Holds empty (s.merge y) w := by
  obtain ⟨a, hbase, hempty, hpath⟩ := h
  exact ⟨a, hbase, hempty, path_append.2 ⟨v, hpath, path_singleton.2 hy⟩⟩

section

variable (hlaws : Laws Merges Carries Holds empty)
include hlaws

theorem Represents.exists_value (h : Represents Carries Holds empty s v)
    {xs r : List β} (hs : s.pending = xs ++ r) (hne : s.base = none → xs ≠ []) :
    ∃ y b, Merges s.base xs y ∧ Holds b y ∧ Path Carries b r v := by
  obtain ⟨a, hbase, hempty, hpath⟩ := h
  rw [hs, path_append] at hpath
  obtain ⟨b, hxs, hr⟩ := hpath
  cases hb : s.base with
  | none =>
    obtain ⟨y, hy, hh⟩ := hlaws.start (hne hb) (hempty hb ▸ hxs)
    exact ⟨y, b, hy, hh, hr⟩
  | some x =>
    obtain ⟨y, hy, hh⟩ := hlaws.holds (hbase x hb) hxs
    exact ⟨y, b, hy, hh, hr⟩

theorem Represents.exists_operand (h : Represents Carries Holds empty s v)
    {l xs r : List β} (hs : s.pending = l ++ xs ++ r) (hxs : xs ≠ []) : ∃ y, Merges none xs y := by
  obtain ⟨a, -, -, hpath⟩ := h
  rw [hs, path_append] at hpath
  obtain ⟨c, hpath, -⟩ := hpath
  obtain ⟨b, -, hpath⟩ := path_append.1 hpath
  obtain ⟨y, hy, -⟩ := hlaws.carries hxs hpath
  exact ⟨y, hy⟩

theorem Represents.compacts (h : Represents Carries Holds empty s v)
    (hc : Compacts Merges s s') : Represents Carries Holds empty s' v := by
  cases hc with
  | @operands base l xs r y hxs hy =>
    obtain ⟨a, hbase, hempty, hpath⟩ := h
    obtain ⟨c, hl, hr⟩ := path_append.1 hpath
    obtain ⟨b, hl, hmid⟩ := path_append.1 hl
    obtain ⟨y', hy', hcar⟩ := hlaws.carries hxs hmid
    obtain rfl := hlaws.functional hy hy'
    exact ⟨a, hbase, hempty, path_append.2 ⟨b, hl, .cons hcar hr⟩⟩
  | @value base xs r y hy =>
    have hne : base = none → xs ≠ [] := by
      rintro rfl rfl
      exact hlaws.nonempty hy
    obtain ⟨y', b, hy', hh, hr⟩ := h.exists_value hlaws rfl hne
    obtain rfl := hlaws.functional hy hy'
    exact ⟨b, fun x hx => Option.some.inj hx ▸ hh, nofun, hr⟩

theorem Represents.read (h : Represents Carries Holds empty s v)
    (hne : s.base = none → s.pending ≠ []) : ∃ y, Merges s.base s.pending y ∧ Holds v y := by
  obtain ⟨y, b, hy, hh, hr⟩ := h.exists_value hlaws (List.append_nil _).symm hne
  obtain rfl : b = v := by
    cases hr
    rfl
  exact ⟨y, hy, hh⟩

end

end MergeStore

end Zebra.Lib
