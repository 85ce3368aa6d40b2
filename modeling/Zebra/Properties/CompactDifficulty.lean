import Zebra.Ledger.CompactTarget

namespace Zebra.Properties

open Lib Ledger CompactDifficulty

/-- The conversions are those of the specification: a compact form keeps the leading bits of
a target, an expanded value has a compact form that expands to it again, and a compact form
is rejected exactly if it is negative, zero or too large. -/
theorem compact_difficulty_conversions {ε : Type} : (∀ v : Nat, 0 < v → v < 2 ^ 256 →
      ∃ c, (ExpandedDifficulty.toCompact v : Exec ε Nat) = .ok c ∧ c = DifficultySpec.toCompact v ∧
        toExpanded c = some (leading v) ∧ leading v ≤ v) ∧ (∀ (c : UInt32) (v : Nat), toExpanded c.toNat = some v →
      ∃ c', (ExpandedDifficulty.toCompact v : Exec ε Nat) = .ok c' ∧ toExpanded c' = some v) ∧
    (∀ c : UInt32, toExpanded c.toNat = none ↔
      c.toNat / 2 ^ 23 % 2 = 1 ∨ targetValue c.toNat = 0 ∨ 2 ^ 256 ≤ targetValue c.toNat) := by
  refine ⟨?_, ?_, ?_⟩
  · intro v hpos hlt
    exact ⟨_, toCompact_eq hpos hlt, rfl, toExpanded_specCompact hpos hlt, leading_le v⟩
  · intro c v h
    obtain ⟨-, rfl, hpos, hlt⟩ := toExpanded_eq_some.1 h
    refine ⟨_, toCompact_eq hpos hlt, ?_⟩
    rw [toExpanded_specCompact hpos hlt, leading_targetValue (Nat.ne_of_gt hpos)]
  · intro c
    rw [toExpanded_eq]
    split_ifs with h
    · exact iff_of_true rfl h
    · exact iff_of_false id h

theorem compact_difficulty_conversions_sample :
    (∃ c, (ExpandedDifficulty.toCompact 0x92345678 : Exec Empty Nat) = .ok c ∧ toExpanded c = some 0x92340000) ∧
      (∃ c, (ExpandedDifficulty.toCompact 0x92340000 : Exec Empty Nat) = .ok c ∧ toExpanded c = some 0x92340000) ∧
      toExpanded 0x04923456 = none := by
  obtain ⟨hcompact, hexpanded, hnone⟩ := compact_difficulty_conversions
  obtain ⟨c, hc, -, hleading, -⟩ := hcompact 0x92345678 (by decide) (by decide)
  refine ⟨⟨c, hc, hleading⟩, hexpanded 0x05009234 0x92340000 (by decide), (hnone 0x04923456).2 (by decide)⟩

/-- The work of a target is `⌊2 ^ 256 / (target + 1)⌋` if that has 128 bits. No 256-bit
operation overflows on the way, and an easier target never has more work. -/
theorem compact_difficulty_work {ε : Type} (c : UInt32) :
    (toWorkU256 c.toNat : Exec ε (Option Nat)) = .ok (toWork c.toNat) ∧
      (toExpanded c.toNat = none → toWork c.toNat = none) ∧ ∀ t, toExpanded c.toNat = some t →
        toWork c.toNat = (if 2 ^ 256 / (t + 1) < 2 ^ 128 then some (2 ^ 256 / (t + 1)) else none) ∧
        1 ≤ 2 ^ 256 / (t + 1) ∧
        ∀ (c' : UInt32) (t' work : Nat), toExpanded c'.toNat = some t' → t ≤ t' → toWork c.toNat = some work →
          ∃ work', toWork c'.toNat = some work' ∧ 1 ≤ work' ∧ work' ≤ work := by
  refine ⟨toWorkU256_eq _, fun h => by rw [toWork, h, Option.bind_none], ?_⟩
  have hwork : ∀ (c : UInt32) (t : Nat), toExpanded c.toNat = some t →
      toWork c.toNat = (if 2 ^ 256 / (t + 1) < 2 ^ 128 then some (2 ^ 256 / (t + 1)) else none) ∧
        1 ≤ 2 ^ 256 / (t + 1) := by
    intro c t h
    have hlt := (toExpanded_bounds h).2
    constructor
    · rw [toWork, h, Option.bind_some, work_tryFrom_eq hlt]
      simp only [u128Max, Nat.le_sub_one_iff_lt (Nat.two_pow_pos 128)]
    · exact Nat.div_pos hlt (Nat.succ_pos t)
  intro t ht
  refine ⟨(hwork c t ht).1, (hwork c t ht).2, ?_⟩
  intro c' t' work ht' hle h
  rw [(hwork c t ht).1, Option.ite_none_right_eq_some, Option.some.injEq] at h
  obtain ⟨hfits, rfl⟩ := h
  have hless : 2 ^ 256 / (t' + 1) ≤ 2 ^ 256 / (t + 1) := Nat.div_le_div_left (Nat.succ_le_succ hle) (Nat.succ_pos t)
  exact ⟨_, by rw [(hwork c' t' ht').1, if_pos (hless.trans_lt hfits)], (hwork c' t' ht').2, hless⟩

theorem compact_difficulty_work_sample :
    toWork 0x1d00ffff = some 4295032833 ∧ ∃ work, toWork 0x1d0fffff = some work ∧ 1 ≤ work ∧ work ≤ 4295032833 := by
  obtain ⟨-, -, h⟩ := compact_difficulty_work (ε := Empty) 0x1d00ffff
  obtain ⟨hwork, -, hmono⟩ := h (0xffff * 256 ^ 26) (by decide)
  exact ⟨hwork, hmono 0x1d0fffff (0xfffff * 256 ^ 26) _ (by decide) (by decide) hwork⟩

end Zebra.Properties
