import Zebra.Ledger.DifficultySpec

/-! The floating-point format of targets. A compact difficulty has a sign bit, a mantissa of
23 bits and an exponent to the base 256. -/

namespace Zebra.Ledger

open Lib CompactDifficulty Outcome DifficultySpec

section

variable {ε : Type} {target : Nat}

def mantissa (target size : Nat) : Nat := target * 2 ^ 24 / 2 ^ (8 * size)

variable {size k m e compact : Nat}

theorem mantissa_of_le (h : size ≤ 3) : mantissa target size = target * 2 ^ (8 * (3 - size)) := by
  rw [mantissa, show 24 = 8 * (3 - size) + 8 * size by omega, Nat.pow_add, ← Nat.mul_assoc,
    Nat.mul_div_cancel _ (Nat.two_pow_pos _)]

theorem mantissa_of_ge (h : 3 ≤ size) : mantissa target size = target / 2 ^ (8 * (size - 3)) := by
  rw [mantissa, show 8 * size = 8 * (size - 3) + 24 by omega, Nat.pow_add,
    Nat.mul_div_mul_right _ _ (Nat.two_pow_pos _)]

theorem mantissa_succ (target size : Nat) : mantissa target size / 256 = mantissa target (size + 1) := by
  rw [mantissa, mantissa, Nat.div_div_eq_div_mul, show (256 : Nat) = 2 ^ 8 from rfl, ← Nat.pow_add, Nat.mul_succ]

theorem mantissa_lt (h : target < 2 ^ (8 * size - 1)) (hsize : 0 < size) : mantissa target size < 2 ^ 23:= by
  rw [mantissa, Nat.div_lt_iff_lt_mul (Nat.two_pow_pos _), ← Nat.pow_add]
  calc target * 2 ^ 24 < 2 ^ (8 * size - 1) * 2 ^ 24 := Nat.mul_lt_mul_of_pos_right h (Nat.two_pow_pos _)
    _ = 2 ^ (23 + 8 * size) := by rw [← Nat.pow_add]; congr 1; omega

theorem le_mantissa (h : 2 ^ (8 * size + k) ≤ target * 2 ^ 24) : 2 ^ k ≤ mantissa target size := by
  rw [mantissa, Nat.le_div_iff_mul_le (Nat.two_pow_pos _), ← Nat.pow_add, Nat.add_comm]
  exact h

def compactSize (target : Nat) : Nat := (target.log2 + 1) / 8 + 1

theorem mantissa_code (hne : target ≠ 0) : (if target < 2 ^ 23 then target * 2 ^ (8 * (3 - compactSize target))
      else target / 2 ^ (8 * (compactSize target - 3))) = mantissa target (compactSize target) := by
  have hsize : compactSize target = (target.log2 + 1) / 8 + 1 := rfl
  by_cases hsmall : target < 2 ^ 23
  · have hlog : target.log2 < 23 := (Nat.log2_lt hne).2 hsmall
    rw [if_pos hsmall, mantissa_of_le (by omega)]
  · have hlog : 23 ≤ target.log2 := (Nat.le_log2 hne).2 (Nat.not_lt.1 hsmall)
    rw [if_neg hsmall, mantissa_of_ge (by omega)]

theorem mul_pow_lt (hm : m < 2 ^ 24) (he : e ≤ 29) : m * 256 ^ e + 1 < 2 ^ 256 :=
  calc m * 256 ^ e + 1 < m * 256 ^ 29 + 256 ^ 29 :=
        Nat.add_lt_add_of_le_of_lt (Nat.mul_le_mul_left _ (Nat.pow_le_pow_right (by decide) he)) (by decide)
    _ = (m + 1) * 256 ^ 29 := (Nat.succ_mul _ _).symm
    _ ≤ 2 ^ 24 * 256 ^ 29 := Nat.mul_le_mul_right _ hm
    _ = 2 ^ 256 := by decide

def targetValue (compact : Nat) : Nat := compact % 2 ^ 23 * 256 ^ (compact / 2 ^ 24) / 256 ^ 3

theorem targetValue_of_ge (h : compact / 2 ^ 24 = e + 3) : targetValue compact = compact % 2 ^ 23 * 256 ^ e:= by
  rw [targetValue, h, Nat.pow_add, ← Nat.mul_assoc, Nat.mul_div_cancel _ (by decide)]

theorem targetValue_of_le (h : compact / 2 ^ 24 + e = 3) : targetValue compact = compact % 2 ^ 23 / 256 ^ e:= by
  rw [targetValue, ← h, Nat.pow_add, Nat.mul_comm (256 ^ _) (256 ^ e),
    Nat.mul_div_mul_right _ _ (Nat.pow_pos (by decide))]

theorem normalise_eq_some (h : normalise compact = some (m, e)) :
    compact / 2 ^ 23 % 2 ≠ 1 ∧ m < 2 ^ 24 ∧ e ≤ 29 ∧ m * 256 ^ e = targetValue compact := by
  have hmantissa : compact % 2 ^ 23 < 2 ^ 23 := Nat.mod_lt _ (by decide)
  simp only [normalise] at h
  split_ifs at h with hsign hlarge h31 hm h30 hm hneg
  · cases h
    rw [targetValue_of_ge (show compact / 2 ^ 24 = 31 + 3 by omega), Nat.mul_assoc]
    exact ⟨hsign, by omega, le_rfl, rfl⟩
  · cases h
    rw [targetValue_of_ge (show compact / 2 ^ 24 = 30 + 3 by omega), Nat.mul_assoc]
    exact ⟨hsign, by omega, le_rfl, rfl⟩
  · cases h
    have hshift : compact / 2 ^ 24 + (((compact / 2 ^ 24 : Nat) : Int) - 3).natAbs = 3 := by omega
    rw [targetValue_of_le hshift, Nat.pow_zero, Nat.mul_one, Nat.mul_comm _ 8, Nat.pow_mul]
    exact ⟨hsign, (Nat.div_le_self _ _).trans_lt (by omega), by omega, rfl⟩
  · cases h
    rw [targetValue_of_ge (show compact / 2 ^ 24 = (((compact / 2 ^ 24 : Nat) : Int) - 3).toNat + 3 by omega)]
    exact ⟨hsign, by omega, by omega, rfl⟩

theorem le_targetValue (hm : 2 ^ k ≤ compact % 2 ^ 23) (he : e + 3 ≤ compact / 2 ^ 24)
    (hbits : 256 ≤ k + 8 * e) : 2 ^ 256 ≤ targetValue compact := by
  obtain ⟨e', he'⟩ := Nat.exists_eq_add_of_le' he
  rw [targetValue_of_ge (show compact / 2 ^ 24 = (e' + e) + 3 by omega), show (256 : Nat) = 2 ^ 8 from rfl, ← Nat.pow_mul]
  calc 2 ^ (2 ^ 8) ≤ 2 ^ (k + 8 * (e' + e)) := Nat.pow_le_pow_right (by decide) (by omega)
    _ = 2 ^ k * 2 ^ (8 * (e' + e)) := Nat.pow_add _ _ _
    _ ≤ compact % 2 ^ 23 * 2 ^ (8 * (e' + e)) := Nat.mul_le_mul_right _ hm

theorem normalise_eq_none (h : normalise compact = none) :
    compact / 2 ^ 23 % 2 = 1 ∨ targetValue compact = 0 ∨ 2 ^ 256 ≤ targetValue compact := by
  simp only [normalise] at h
  split_ifs at h with hsign hlarge h31 hm h30 hm hneg
  · exact .inl hsign
  · -- any mantissa but zero is shifted out of the 256 bits
    right
    rcases Nat.eq_zero_or_pos (compact % 2 ^ 23) with hzero | hpos
    · left
      rw [targetValue, hzero, Nat.zero_mul, Nat.zero_div]
    · right
      exact le_targetValue (k := 0) (e := 32) hpos (by omega) (by decide)
  · exact .inr (.inr (le_targetValue (k := 8) (e := 31) (by omega) (by omega) (by decide)))
  · exact .inr (.inr (le_targetValue (k := 16) (e := 30) (by omega) (by omega) (by decide)))

theorem toExpanded_eq_bind (compact : Nat) : toExpanded compact =
    (normalise compact).bind fun p => if p.1 * 256 ^ p.2 = 0 then none else some (p.1 * 256 ^ p.2) := by
  by_cases hsign : compact / 2 ^ 23 % 2 = 1
  · rw [toExpanded, normalise, if_pos hsign, if_pos hsign, Option.bind_none]
  · rw [toExpanded, normalise, if_neg hsign, if_neg hsign]
    dsimp only
    generalize (if (32 : Int) ≤ _ then none else _ : Option (Nat × Nat)) = normalised
    cases normalised <;> rfl

theorem toExpanded_eq (compact : Nat) : toExpanded compact =
      if compact / 2 ^ 23 % 2 = 1 ∨ targetValue compact = 0 ∨ 2 ^ 256 ≤ targetValue compact then none
      else some (targetValue compact) := by
  rw [toExpanded_eq_bind]
  cases h : normalise compact with
  | none => rw [Option.bind_none, if_pos (normalise_eq_none h)]
  | some p =>
    obtain ⟨hsign, hm, he, hvalue⟩ := normalise_eq_some h
    have hfits : targetValue compact < 2 ^ 256 := hvalue ▸ Nat.lt_of_succ_lt (mul_pow_lt hm he)
    simp only [Option.bind_some, hvalue, or_iff_right hsign, or_iff_left (Nat.not_le.2 hfits)]

theorem toExpanded_eq_some : toExpanded compact = some target ↔
      compact / 2 ^ 23 % 2 ≠ 1 ∧ targetValue compact = target ∧ 0 < target ∧ target < 2 ^ 256 := by
  rw [toExpanded_eq, Option.ite_none_left_eq_some, Option.some.injEq]
  constructor
  · rintro ⟨h, rfl⟩
    push Not at h
    exact ⟨h.1, rfl, Nat.pos_of_ne_zero h.2.1, h.2.2⟩
  · rintro ⟨hsign, rfl, hpos, hlt⟩
    exact ⟨by omega, rfl⟩

theorem toExpanded_bounds (h : toExpanded compact = some target) : 0 < target ∧ target < 2 ^ 256 :=
  (toExpanded_eq_some.1 h).2.2

theorem toExpandedU256_eq (compact : Nat) : (toExpandedU256 compact : Exec ε _) = .ok (toExpanded compact) := by
  rw [toExpanded_eq, toExpandedU256]
  cases h : normalise compact with
  | none => rw [if_pos (normalise_eq_none h), pure_eq_ok]
  | some p =>
    obtain ⟨hsign, hm, he, hvalue⟩ := normalise_eq_some h
    have hfits : targetValue compact < 2 ^ 256 := hvalue ▸ Nat.lt_of_succ_lt (mul_pow_lt hm he)
    have hpower : 256 ^ p.2 < 2 ^ 256 :=
      Nat.one_mul (256 ^ p.2) ▸ Nat.lt_of_succ_lt (mul_pow_lt (by decide : 1 < 2 ^ 24) he)
    simp only [u256, check, if_pos hpower, ok_bind, pure_eq_ok, hvalue, if_pos hfits,
      or_iff_right hsign, or_iff_left (Nat.not_le.2 hfits)]

theorem toExpanded_succ_lt (h : toExpanded compact = some target) : target + 1 < 2 ^ 256 := by
  rw [toExpanded_eq_bind, Option.bind_eq_some_iff] at h
  obtain ⟨p, hp, hvalue⟩ := h
  obtain ⟨-, hm, he, -⟩ := normalise_eq_some hp
  rw [Option.ite_none_left_eq_some, Option.some.injEq] at hvalue
  exact hvalue.2 ▸ mul_pow_lt hm he

theorem complement_div (h : target < 2 ^ 256) : (2 ^ 256 - 1 - target) / (target + 1) + 1 = 2 ^ 256 / (target + 1):= by
  rw [Nat.div_eq_sub_div (Nat.succ_pos target) h, Nat.sub_sub, Nat.add_comm 1 target]

theorem work_tryFrom_eq (h : target < 2 ^ 256) : Work.tryFrom target =
      if 2 ^ 256 / (target + 1) ≤ u128Max then some (2 ^ 256 / (target + 1)) else none := by
  rw [Work.tryFrom, complement_div h]

theorem work_tryFromU256_eq (hpos : 0 < target) (h : target + 1 < 2 ^ 256) :
    (Work.tryFromU256 target : Exec ε _) = .ok (Work.tryFrom target) := by
  have hquotient : 2 ^ 256 / (target + 1) < 2 ^ 256 := Nat.div_lt_self (by decide) (by omega)
  rw [← complement_div (by omega)] at hquotient
  simp only [Work.tryFromU256, Work.tryFrom, u256, check, if_pos h, if_pos hquotient, ok_bind,
    pure_eq_ok]

theorem toWorkU256_eq (compact : Nat) : (toWorkU256 compact : Exec ε _) = .ok (toWork compact) := by
  rw [toWorkU256, toExpandedU256_eq, ok_bind, toWork]
  cases h : toExpanded compact with
  | none => rfl
  | some target => exact work_tryFromU256_eq (toExpanded_bounds h).1 (toExpanded_succ_lt h)

theorem mantissa_compactSize_lt (target : Nat) : mantissa target (compactSize target) < 2 ^ 23 := by
  have hhigh : target < 2 ^ (target.log2 + 1) := Nat.lt_log2_self
  apply mantissa_lt
  · exact hhigh.trans_le (Nat.pow_le_pow_right (by decide) (by rw [compactSize]; omega))
  · exact Nat.succ_pos _

theorem two_pow_le_scaled (hne : target ≠ 0) (hk : k ≤ target.log2 + 24) : 2 ^ k ≤ target * 2 ^ 24 :=
  calc 2 ^ k ≤ 2 ^ (target.log2 + 24) := Nat.pow_le_pow_right (by decide) hk
    _ = 2 ^ target.log2 * 2 ^ 24 := Nat.pow_add _ _ _
    _ ≤ target * 2 ^ 24 := Nat.mul_le_mul_right _ (Nat.log2_self_le hne)

theorem specCompact_eq (hne : target ≠ 0) :
    toCompact target = mantissa target (compactSize target) + compactSize target * 2 ^ 24 := by
  have hspec : toCompact target =
      if mantissa target (size target) < 2 ^ 23
      then mantissa target (size target) + 2 ^ 24 * size target
      else mantissa target (size target) / 256 + 2 ^ 24 * (size target + 1) := by
    rw [toCompact, mantissa, show (256 : Nat) ^ 3 = 2 ^ 24 from rfl, show (256 : Nat) = 2 ^ 8 from rfl,
      ← Nat.pow_mul]
  have hbytes : size target = (target.log2 + 1 + 7) / 8 := if_neg hne
  have hsize : compactSize target = (target.log2 + 1) / 8 + 1 := rfl
  by_cases hfull : (target.log2 + 1) % 8 = 0
  · -- the leading byte has its highest bit set, so the specification takes one more byte
    have hsucc : compactSize target = size target + 1 := by omega
    have hlarge : 2 ^ 23 ≤ mantissa target (size target) :=
      le_mantissa (two_pow_le_scaled hne (by omega))
    rw [hspec, if_neg (Nat.not_lt.2 hlarge), mantissa_succ, ← hsucc, Nat.mul_comm]
  · have hsame : compactSize target = size target := by omega
    rw [hspec, ← hsame, if_pos (mantissa_compactSize_lt target), Nat.mul_comm]

/-- A target between zero and the largest 256-bit number has a compact form, the one of the
specification. -/
theorem toCompact_eq (hpos : 0 < target) (hlt : target < 2 ^ 256) :
    (ExpandedDifficulty.toCompact target : Exec ε Nat) = .ok (toCompact target) := by
  have hne : target ≠ 0 := by omega
  have hlog : target.log2 < 256 := (Nat.log2_lt hne).2 hlt
  have hsize : compactSize target = (target.log2 + 1) / 8 + 1 := rfl
  have hmantissa : 0 < mantissa target (compactSize target) :=
    (Nat.two_pow_pos 15).trans_le (le_mantissa (two_pow_le_scaled hne (by omega)))
  rw [specCompact_eq hne]
  simp only [ExpandedDifficulty.toCompact, ← hsize, mantissa_code hne, check, if_pos hpos,
    if_pos (mantissa_compactSize_lt target), if_pos hmantissa, if_pos (show compactSize target < 34 by omega)]
  rfl

/-- The leading 16 to 23 bits of a target, as many as leave out whole bytes. -/
def leading (target : Nat) : Nat :=
  let bits := target.log2 + 1
  target / 2 ^ (bits - (16 + bits % 8)) * 2 ^ (bits - (16 + bits % 8))

theorem leading_eq (target : Nat) :
    leading target = target / 2 ^ (8 * (compactSize target - 3)) * 2 ^ (8 * (compactSize target - 3)) := by
  have hlost : target.log2 + 1 - (16 + (target.log2 + 1) % 8) = 8 * (compactSize target - 3) := by
    rw [compactSize]
    omega
  simp only [leading, hlost]

theorem leading_le (target : Nat) : leading target ≤ target := Nat.div_mul_le_self _ _

theorem leading_pos (hpos : 0 < target) : 0 < leading target := by
  have hlow : 2 ^ target.log2 ≤ target := Nat.log2_self_le (by omega)
  apply Nat.mul_pos
  · exact Nat.div_pos ((Nat.pow_le_pow_right (by decide) (by omega)).trans hlow) (Nat.two_pow_pos _)
  · exact Nat.two_pow_pos _

theorem targetValue_specCompact (hne : target ≠ 0) : targetValue (toCompact target) = leading target := by
  have hm := mantissa_compactSize_lt target
  have hmantissa : toCompact target % 2 ^ 23 = mantissa target (compactSize target) := by
    rw [specCompact_eq hne]
    omega
  have hexponent : toCompact target / 2 ^ 24 = compactSize target := by
    rw [specCompact_eq hne]
    omega
  rw [leading_eq]
  rcases Nat.le_total 3 (compactSize target) with hsize | hsize
  · rw [targetValue_of_ge (show _ = (compactSize target - 3) + 3 by omega), hmantissa, mantissa_of_ge hsize,
      show (256 : Nat) = 2 ^ 8 from rfl, ← Nat.pow_mul]
  · rw [targetValue_of_le (show _ + (3 - compactSize target) = 3 by omega), hmantissa, mantissa_of_le hsize,
      show (256 : Nat) = 2 ^ 8 from rfl, ← Nat.pow_mul, Nat.mul_div_cancel _ (Nat.two_pow_pos _),
      Nat.sub_eq_zero_of_le hsize, Nat.mul_zero, Nat.pow_zero, Nat.div_one, Nat.mul_one]

theorem toExpanded_specCompact (hpos : 0 < target) (hlt : target < 2 ^ 256) :
    toExpanded (toCompact target) = some (leading target) := by
  have hm := mantissa_compactSize_lt target
  rw [toExpanded_eq_some, targetValue_specCompact (by omega)]
  have hsign : toCompact target / 2 ^ 23 % 2 ≠ 1 := by
    rw [specCompact_eq (by omega)]
    omega
  exact ⟨hsign, rfl, leading_pos hpos, (leading_le target).trans_lt hlt⟩

theorem leading_targetValue (hne : targetValue compact ≠ 0) : leading (targetValue compact) = targetValue compact:= by
  have hm : compact % 2 ^ 23 < 2 ^ 23 := Nat.mod_lt _ (by decide)
  rw [leading_eq]
  apply Nat.div_mul_cancel
  rcases Nat.le_total 3 (compact / 2 ^ 24) with hlarge | hsmall
  · obtain ⟨e, he⟩ := Nat.exists_eq_add_of_le' hlarge
    have hvalue : targetValue compact = compact % 2 ^ 23 * 2 ^ (8 * e) := by
      rw [targetValue_of_ge he, show (256 : Nat) = 2 ^ 8 from rfl, ← Nat.pow_mul]
    have hbits : (targetValue compact).log2 < 23 + 8 * e := by
      rw [Nat.log2_lt hne, hvalue, Nat.pow_add]
      exact Nat.mul_lt_mul_of_pos_right hm (Nat.two_pow_pos _)
    have hlost : 8 * (compactSize (targetValue compact) - 3) ≤ 8 * e := by
      rw [compactSize]
      omega
    exact (Nat.pow_dvd_pow 2 hlost).trans (hvalue ▸ Nat.dvd_mul_left _ _)
  · obtain ⟨e, he⟩ := Nat.exists_eq_add_of_le hsmall
    have hbits : (targetValue compact).log2 < 23 := by
      rw [Nat.log2_lt hne, targetValue_of_le he.symm]
      exact (Nat.div_le_self _ _).trans_lt hm
    have hlost : compactSize (targetValue compact) - 3 = 0 := by
      rw [compactSize]
      omega
    rw [hlost, Nat.mul_zero, Nat.pow_zero]
    exact Nat.one_dvd _

end

end Zebra.Ledger
