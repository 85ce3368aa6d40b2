import Mathlib.Algebra.Order.Ring.Int
import Mathlib.Data.List.Basic
import Mathlib.Tactic.Common

namespace Zebra.Lib

abbrev Bytes := List UInt8

namespace Bytes

/-- The `w` lowest bytes of `n`, least significant first. -/
def toLE : Nat → Nat → Bytes
  | 0, _ => []
  | w + 1, n => .ofNat n :: toLE w (n / 256)

def ofLE : Bytes → Nat
  | [] => 0
  | b :: bs => b.toNat + 256 * ofLE bs

@[simp] theorem length_toLE (w n : Nat) : (toLE w n).length = w := by
  induction w generalizing n with
  | zero => rfl
  | succ w ih => simp [toLE, ih]

theorem getD_toLE {w i : Nat} (h : i < w) (n : Nat) : (toLE w n).getD i 0 = .ofNat (n / 256 ^ i) := by
  induction w generalizing i n with
  | zero => cases h
  | succ w ih =>
    cases i with
    | zero => rw [toLE, List.getD_cons_zero, Nat.pow_zero, Nat.div_one]
    | succ i =>
      rw [toLE, List.getD_cons_succ, ih (Nat.lt_of_succ_lt_succ h), Nat.div_div_eq_div_mul, Nat.pow_succ, Nat.mul_comm]

theorem ofLE_toLE {w n : Nat} (h : n < 256 ^ w) : ofLE (toLE w n) = n := by
  induction w generalizing n with
  | zero => simpa [toLE, ofLE, eq_comm] using h
  | succ w ih =>
    have hdiv : n / 256 < 256 ^ w := by
      rw [Nat.div_lt_iff_lt_mul (by decide)]
      exact h
    have hbyte : (UInt8.ofNat n).toNat = n % 256 := rfl
    rw [toLE, ofLE, ih hdiv, hbyte]
    exact Nat.mod_add_div n 256

theorem ofLE_lt (bs : Bytes) : ofLE bs < 256 ^ bs.length := by
  induction bs with
  | nil => decide
  | cons b bs ih =>
    have hb : b.toNat < 256 := b.toNat_lt
    rw [ofLE, List.length_cons, Nat.pow_succ]
    omega

theorem toLE_ofLE (bs : Bytes) : toLE bs.length (ofLE bs) = bs := by
  induction bs with
  | nil => rfl
  | cons b bs ih =>
    have hb : b.toNat < 256 := b.toNat_lt
    have hdiv : (b.toNat + 256 * ofLE bs) / 256 = ofLE bs := by omega
    have hbyte : UInt8.ofNat (b.toNat + 256 * ofLE bs) = b := by
      apply UInt8.toNat_inj.1
      rw [UInt8.toNat_ofNat']
      omega
    rw [List.length_cons, ofLE, toLE, hdiv, hbyte, ih]

/-- The `w` lowest bytes of `n`, most significant first. -/
def toBE (w n : Nat) : Bytes := (toLE w n).reverse

def ofBE (bs : Bytes) : Nat := ofLE bs.reverse

@[simp] theorem length_toBE (w n : Nat) : (toBE w n).length = w := by simp [toBE]

theorem ofBE_toBE {w n : Nat} (h : n < 256 ^ w) : ofBE (toBE w n) = n := by
  rw [ofBE, toBE, List.reverse_reverse, ofLE_toLE h]

def ofInt (w : Nat) (z : Int) : Bytes := toLE w (z % 256 ^ w).toNat

def toInt (bs : Bytes) : Int :=
  if 2 * ofLE bs < 256 ^ bs.length then ofLE bs else ofLE bs - 256 ^ bs.length

@[simp] theorem length_ofInt (w : Nat) (z : Int) : (ofInt w z).length = w := by simp [ofInt]

theorem toInt_ofInt {w : Nat} {z : Int} (hlow : -(256 ^ w) ≤ 2 * z) (hhigh : 2 * z < 256 ^ w) :
    toInt (ofInt w z) = z := by
  have hpow : (0 : Int) < 256 ^ w := Int.pow_pos (by decide)
  have hcast : ((256 ^ w : Nat) : Int) = 256 ^ w := Int.natCast_pow 256 w
  have hmod := Int.emod_nonneg z hpow.ne'
  have hlt := Int.emod_lt_of_pos z hpow
  have hval : ((ofLE (ofInt w z) : Nat) : Int) = z % 256 ^ w := by
    rw [ofInt, ofLE_toLE (by omega), Int.toNat_of_nonneg hmod]
  have hcase : z % 256 ^ w = z ∧ 0 ≤ z ∨ z % 256 ^ w = z + 256 ^ w ∧ z < 0 := by
    rcases Int.lt_or_le z 0 with hz | hz
    · refine .inr ⟨?_, hz⟩
      rw [← Int.add_emod_right, Int.emod_eq_of_lt (by omega) (by omega)]
    · exact .inl ⟨Int.emod_eq_of_lt hz (by omega), hz⟩
  rw [toInt, length_ofInt]
  split <;> omega

theorem ofInt_toInt (bs : Bytes) : ofInt bs.length (toInt bs) = bs := by
  have hlt : ((ofLE bs : Nat) : Int) < 256 ^ bs.length := by exact_mod_cast ofLE_lt bs
  have hmod : toInt bs % 256 ^ bs.length = ofLE bs := by
    rw [toInt]
    split
    · exact Int.emod_eq_of_lt (by omega) hlt
    · rw [Int.sub_emod_right]
      exact Int.emod_eq_of_lt (by omega) hlt
  rw [ofInt, hmod, Int.toNat_natCast, toLE_ofLE]

end Bytes

end Zebra.Lib
