import Mathlib.Algebra.Group.Nat.Defs
import Zebra.Panic

namespace Zebra

open Lib Outcome

def u128Max : Nat := 2 ^ 128 - 1

/-- The results of 256-bit additions and multiplications, which abort when they overflow. -/
def u256 {ε : Type} (n : Nat) : Exec ε Nat := do
  check (n < 2 ^ 256) .u256Overflow
  return n

/-- The target of a compact difficulty, `None` if it is negative, zero or too large. -/
def CompactDifficulty.toExpanded (compact : Nat) : Option Nat :=
  if compact / 2 ^ 23 % 2 = 1 then none
  else
    let mantissa := compact % 2 ^ 23
    let exponent : Int := ((compact / 2 ^ 24 : Nat) : Int) - 3
    let normalised : Option (Nat × Nat) :=
      if 32 ≤ exponent then none
      else if exponent = 31 then
        if mantissa ≤ 255 then some (mantissa * 2 ^ 16, 29) else none
      else if exponent = 30 then
        if mantissa ≤ 65535 then some (mantissa * 2 ^ 8, 29) else none
      else if exponent < 0 then some (mantissa / 2 ^ (exponent.natAbs * 8), 0)
      else some (mantissa, exponent.toNat)
    match normalised with
    | none => none
    | some (m, e) => if m * 256 ^ e = 0 then none else some (m * 256 ^ e)

/-- The compact difficulty of a target, which loses all but the leading bits of the target. -/
def ExpandedDifficulty.toCompact {ε : Type} (expanded : Nat) : Exec ε Nat := do
  check (0 < expanded) .zeroDifficulty
  let size := (expanded.log2 + 1) / 8 + 1
  let mantissa := if expanded < 2 ^ 23 then expanded * 2 ^ (8 * (3 - size)) else expanded / 2 ^ (8 * (size - 3))
  check (size < 34) .compactSize
  check (mantissa < 2 ^ 23) .compactMantissa
  check (0 < mantissa) .compactMantissa
  return mantissa + size * 2 ^ 24

/-- The work of a target: `2 ^ 256 / (target + 1)` without leaving 256 bits. -/
def Work.tryFrom (expanded : Nat) : Option Nat :=
  let result := (2 ^ 256 - 1 - expanded) / (expanded + 1) + 1
  if result ≤ u128Max then some result else none

def CompactDifficulty.toWork (compact : Nat) : Option Nat :=
  (toExpanded compact).bind Work.tryFrom

/-! The same computations with every 256-bit operation checked. -/

/-- Mantissa and exponent before they are multiplied. -/
def CompactDifficulty.normalise (compact : Nat) : Option (Nat × Nat) :=
  if compact / 2 ^ 23 % 2 = 1 then none
  else
    let mantissa := compact % 2 ^ 23
    let exponent : Int := ((compact / 2 ^ 24 : Nat) : Int) - 3
    if 32 ≤ exponent then none
    else if exponent = 31 then
      if mantissa ≤ 255 then some (mantissa * 2 ^ 16, 29) else none
    else if exponent = 30 then
      if mantissa ≤ 65535 then some (mantissa * 2 ^ 8, 29) else none
    else if exponent < 0 then some (mantissa / 2 ^ (exponent.natAbs * 8), 0)
    else some (mantissa, exponent.toNat)

def CompactDifficulty.toExpandedU256 {ε : Type} (compact : Nat) : Exec ε (Option Nat) :=
  match normalise compact with
  | none => return none
  | some (mantissa, exponent) => do
    let power ← u256 (256 ^ exponent)
    let result ← u256 (mantissa * power)
    return if result = 0 then none else some result

/-- The complement `!expanded` cannot overflow. -/
def Work.tryFromU256 {ε : Type} (expanded : Nat) : Exec ε (Option Nat) := do
  let divisor ← u256 (expanded + 1)
  let result ← u256 ((2 ^ 256 - 1 - expanded) / divisor + 1)
  return if result ≤ u128Max then some result else none

def CompactDifficulty.toWorkU256 {ε : Type} (compact : Nat) : Exec ε (Option Nat) := do
  match ← toExpandedU256 compact with
  | none => return none
  | some expanded => Work.tryFromU256 expanded

namespace PartialCumulativeWork

variable {ε : Type}

def add (total work : Nat) : Exec ε Nat :=
  if total + work ≤ u128Max then .ok (total + work) else .panic .workOverflow

def sub (total work : Nat) : Exec ε Nat :=
  if work ≤ total then .ok (total - work) else .panic .workUnderflow

theorem add_eq_ok {total work sum : Nat} :
    (add total work : Exec ε Nat) = .ok sum ↔ total + work ≤ u128Max ∧ sum = total + work := by
  by_cases h : total + work ≤ u128Max
  · simp [add, h, eq_comm]
  · simp [add, h]

end PartialCumulativeWork

end Zebra
