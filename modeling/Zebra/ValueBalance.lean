import Zebra.Amount

namespace Zebra

open Lib

@[ext]
structure ValueBalance (C : Constraint) where
  transparent : Amount C
  sprout : Amount C
  sapling : Amount C
  orchard : Amount C
  deferred : Amount C
deriving DecidableEq

inductive ValueBalanceError where
  | transparent (e : AmountError)
  | sprout (e : AmountError)
  | sapling (e : AmountError)
  | orchard (e : AmountError)
  | deferred (e : AmountError)
deriving DecidableEq

namespace ValueBalance

variable {C : Constraint}

def zero : ValueBalance C := ⟨.zero, .zero, .zero, .zero, .zero⟩

def fromTransparentAmount (a : Amount C) : ValueBalance C := { zero with transparent := a }

def fromSproutAmount (a : Amount C) : ValueBalance C := { zero with sprout := a }

def fromSaplingAmount (a : Amount C) : ValueBalance C := { zero with sapling := a }

def fromOrchardAmount (a : Amount C) : ValueBalance C := { zero with orchard := a }

def setDeferredAmount (v : ValueBalance C) (a : Amount C) : ValueBalance C := { v with deferred := a }

/-- Apply a fallible operation to each pool in turn; the first failing pool names the error. -/
def mapPools {D E : Constraint} (f : Amount C → Amount D → Except AmountError (Amount E))
    (v : ValueBalance C) (w : ValueBalance D) : Except ValueBalanceError (ValueBalance E) := do
  let transparent ← (f v.transparent w.transparent).mapError .transparent
  let sprout ← (f v.sprout w.sprout).mapError .sprout
  let sapling ← (f v.sapling w.sapling).mapError .sapling
  let orchard ← (f v.orchard w.orchard).mapError .orchard
  let deferred ← (f v.deferred w.deferred).mapError .deferred
  return { transparent, sprout, sapling, orchard, deferred }

def add (v w : ValueBalance C) : Except ValueBalanceError (ValueBalance C) := mapPools Amount.add v w

def constrain (v : ValueBalance C) (C' : Constraint) : Except ValueBalanceError (ValueBalance C') :=
  mapPools (fun a _ => a.constrain C') v v

def neg (v : ValueBalance C) : ValueBalance .negativeAllowed :=
  ⟨v.transparent.neg, v.sprout.neg, v.sapling.neg, v.orchard.neg, v.deferred.neg⟩

def widen (v : ValueBalance C) : ValueBalance .negativeAllowed :=
  ⟨v.transparent.widen, v.sprout.widen, v.sapling.widen, v.orchard.widen, v.deferred.widen⟩

def sum (l : List (ValueBalance C)) : Except ValueBalanceError (ValueBalance C) := l.foldlM add zero

def remainingTransactionValue (v : ValueBalance .negativeAllowed) : Except AmountError (Amount .nonNegative) := do
  let a ← v.transparent.add v.sprout
  let a ← a.add v.sapling
  let a ← a.add v.orchard
  a.constrain .nonNegative

def addChainValuePoolChange (pools : ValueBalance .nonNegative) (change : ValueBalance .negativeAllowed) :
    Except ValueBalanceError (ValueBalance .nonNegative) := do
  let sum ← pools.widen.add change
  sum.constrain .nonNegative

variable {v : ValueBalance C} {p u : ValueBalance .nonNegative} {d : ValueBalance .negativeAllowed}

theorem mapPools_eq_ok {D E : Constraint} {f : Amount C → Amount D → Except AmountError (Amount E)} {w : ValueBalance D} {u : ValueBalance E} :
    mapPools f v w = .ok u ↔ f v.transparent w.transparent = .ok u.transparent ∧ f v.sprout w.sprout = .ok u.sprout ∧
      f v.sapling w.sapling = .ok u.sapling ∧ f v.orchard w.orchard = .ok u.orchard ∧
      f v.deferred w.deferred = .ok u.deferred := by
  simp only [mapPools, bind_eq_ok, mapError_eq_ok, pure, Except.pure, Except.ok.injEq]
  constructor
  · rintro ⟨t, ht, sp, hsp, sa, hsa, o, ho, d, hd, rfl⟩
    exact ⟨ht, hsp, hsa, ho, hd⟩
  · rintro ⟨ht, hsp, hsa, ho, hd⟩
    exact ⟨_, ht, _, hsp, _, hsa, _, ho, _, hd, rfl⟩

theorem add_eq_ok {w u : ValueBalance C} : v.add w = .ok u ↔
      u.transparent.zatoshis = v.transparent.zatoshis + w.transparent.zatoshis ∧
      u.sprout.zatoshis = v.sprout.zatoshis + w.sprout.zatoshis ∧
      u.sapling.zatoshis = v.sapling.zatoshis + w.sapling.zatoshis ∧
      u.orchard.zatoshis = v.orchard.zatoshis + w.orchard.zatoshis ∧
      u.deferred.zatoshis = v.deferred.zatoshis + w.deferred.zatoshis := by
  simp only [add, mapPools_eq_ok, Amount.add_eq_ok]

theorem constrain_eq_ok {C' : Constraint} {u : ValueBalance C'} : v.constrain C' = .ok u ↔
      u.transparent.zatoshis = v.transparent.zatoshis ∧ u.sprout.zatoshis = v.sprout.zatoshis ∧
      u.sapling.zatoshis = v.sapling.zatoshis ∧ u.orchard.zatoshis = v.orchard.zatoshis ∧
      u.deferred.zatoshis = v.deferred.zatoshis := by
  simp only [constrain, mapPools_eq_ok, Amount.constrain_eq_ok]

theorem addChainValuePoolChange_eq_ok : p.addChainValuePoolChange d = .ok u ↔ p.widen.add d = .ok u.widen:= by
  simp only [addChainValuePoolChange, bind_eq_ok, constrain_eq_ok]
  constructor
  · rintro ⟨s, hs, h⟩
    have hsu : s = u.widen := by
      obtain ⟨h₁, h₂, h₃, h₄, h₅⟩ := h
      ext <;> simp [widen, *]
    rwa [← hsu]
  · intro h
    exact ⟨u.widen, h, rfl, rfl, rfl, rfl, rfl⟩

theorem addChainValuePoolChange_neg
    (h : p.addChainValuePoolChange d = .ok u) : u.addChainValuePoolChange d.neg = .ok p := by
  rw [addChainValuePoolChange_eq_ok, add_eq_ok] at h ⊢
  simp only [widen, neg, Amount.zatoshis_widen, Amount.zatoshis_neg] at h ⊢
  omega

end ValueBalance

end Zebra
