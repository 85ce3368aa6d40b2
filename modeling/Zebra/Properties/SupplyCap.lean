import Mathlib.Algebra.BigOperators.Intervals
import Mathlib.Algebra.BigOperators.Ring.Finset
import Mathlib.Algebra.Order.BigOperators.Group.Finset
import Zebra.Ledger.Upgrades
import Zebra.Subsidy

namespace Zebra.Properties

open Lib Finset Outcome

def halvedTotal (reward period n : Nat) : Nat := ∑ m ∈ range n, reward / 2 ^ (m / period)

variable {period n height : Nat}

theorem halvedTotal_add (reward k : Nat) {r : Nat} (hr : r ≤ period) :
    halvedTotal reward period (k * period + r) = halvedTotal reward period (k * period) + r * (reward / 2 ^ k) := by
  rw [halvedTotal, sum_range_add, ← halvedTotal]
  congr 1
  have hdiv : ∀ x ∈ range r, reward / 2 ^ ((k * period + x) / period) = reward / 2 ^ k := by
    intro x hx
    have hlt : x < period := (mem_range.1 hx).trans_le hr
    rw [Nat.mul_comm, Nat.mul_add_div (by omega), Nat.div_eq_of_lt hlt, Nat.add_zero]
  rw [sum_const_nat hdiv, card_range]

theorem halvedTotal_periods (reward period k : Nat) :
    2 ^ k * halvedTotal reward period (k * period) + 2 * (period * reward) ≤ 2 ^ k * (2 * (period * reward)) := by
  induction k with
  | zero => simp [halvedTotal]
  | succ k ih =>
    have hstep := halvedTotal_add reward k (Nat.le_refl period)
    have hfloor : 2 ^ k * (period * (reward / 2 ^ k)) ≤ period * reward := by
      rw [Nat.mul_left_comm]
      exact Nat.mul_le_mul_left _ (Nat.mul_div_le _ _)
    rw [Nat.succ_mul, hstep, Nat.pow_succ', Nat.mul_assoc, Nat.mul_assoc, Nat.mul_add]
    omega

theorem halvedTotal_mono (reward period : Nat) {n' : Nat} (h : n ≤ n') :
    halvedTotal reward period n ≤ halvedTotal reward period n' :=
  sum_le_sum_of_subset (range_mono h)

theorem halvedTotal_le (reward n : Nat) (hperiod : 0 < period) :
    halvedTotal reward period n ≤ 2 * (period * reward) := by
  have hn : n ≤ n * period := Nat.le_mul_of_pos_right n hperiod
  have hbound := halvedTotal_periods reward period n
  have hle : 2 ^ n * halvedTotal reward period (n * period) ≤ 2 ^ n * (2 * (period * reward)) := by omega
  exact (halvedTotal_mono reward period hn).trans (Nat.le_of_mul_le_mul_left hle (Nat.two_pow_pos n))

/-- The subsidy of a Mainnet block: a ramp in two parts, the full subsidy until Blossom, and a
half of it that halves every 1680000 blocks. -/
def mainnetZatoshis (height : Nat) : Nat :=
  if height < 10000 then 62500 * height
  else if height < 20000 then 62500 * (height + 1)
  else if height < 653600 then 1250000000
  else 625000000 / 2 ^ ((height + 633600) / 1680000)

variable (streams : List FundingStreams) (disbursements : Payments)
  (founders : List Address)

theorem mainnet_blossom :
    NetworkUpgrade.blossom.activationHeight (.mainnet streams disbursements founders) = some 653600 := rfl

theorem mainnet_halving {ε : Type} (h : height < 2 ^ 32) :
    (halving height (.mainnet streams disbursements founders) : Exec ε Nat) =
      .ok (if height < 653600 then 0 else (height + 633600) / 1680000) := by
  have hindex : (halvingIndex height 653600 (.mainnet streams disbursements founders) : Exec ε Int) =
      .ok ((if height < 653600 then 0 else (height + 633600) / 1680000 : Nat) : Int) := by
    change (if height < 10000 then _ else if height < 653600 then I64.div ((height : Int) - 10000) (840000 : Nat)
      else I64.div ((653600 - 10000) * 2 + ((height : Int) - 653600)) (1680000 : Nat)) = _
    by_cases hshift : height < 10000
    · rw [if_pos hshift, if_pos (by omega)]
      rfl
    rw [if_neg hshift]
    by_cases hblossom : height < 653600
    · have hcast : (height : Int) - 10000 = ((height - 10000 : Nat) : Int) := by omega
      rw [if_pos hblossom, if_pos hblossom, hcast, I64.div_natCast (by decide) (by omega),
        Nat.div_eq_of_lt (by omega)]
    · have hcast : (653600 - 10000) * 2 + ((height : Int) - 653600) = ((height + 633600 : Nat) : Int) := by omega
      rw [if_neg hblossom, if_neg hblossom, hcast, I64.div_natCast (by decide) (by omega)]
  have hu32 : (if height < 653600 then 0 else (height + 633600) / 1680000) < 2 ^ 32 := by
    split <;> omega
  rw [halving, mainnet_blossom, expect_some, ok_bind, hindex, ok_bind,
    I64.toU32_natCast hu32, expect_some]

theorem mainnet_current_lt_blossom :
    NetworkUpgrade.current (.mainnet streams disbursements founders) height < .blossom ↔ height < 653600 := by
  rw [NetworkUpgrade.current_lt_iff_activationHeight, mainnet_blossom]
  simp

theorem div_two_pow_eq_zero (h : 64 ≤ n) : 625000000 / 2 ^ n = 0 := by
  refine Nat.div_eq_of_lt ?_
  calc 625000000 < 2 ^ 64 := by decide
    _ ≤ 2 ^ n := Nat.pow_le_pow_right (by decide) h

theorem mainnetZatoshis_le (height : Nat) : mainnetZatoshis height ≤ maxBlockSubsidy := by
  have hdiv : 625000000 / 2 ^ ((height + 633600) / 1680000) ≤ 625000000 := Nat.div_le_self _ _
  unfold mainnetZatoshis maxBlockSubsidy
  split_ifs <;> omega

theorem mainnet_subsidyAmount (height : Nat) : subsidyAmount height (.mainnet streams disbursements founders)
      (2 ^ (if height < 653600 then 0 else (height + 633600) / 1680000)) = mainnetZatoshis height := by
  have hrate : maxBlockSubsidy / 20000 = 62500 := by decide
  have hbase : maxBlockSubsidy / blossomPowTargetSpacingRatio = 625000000 := by decide
  have hinterval : (Network.mainnet streams disbursements founders).slowStartInterval = 20000 := rfl
  have hshift : (Network.mainnet streams disbursements founders).slowStartShift = 10000 := rfl
  rw [subsidyAmount, mainnetZatoshis, hinterval, hshift, hrate, hbase]
  simp only [mainnet_current_lt_blossom]
  split_ifs <;> first | rfl | omega

theorem mainnet_blockSubsidy (h : height < 2 ^ 32) :
    ∃ a : Amount .nonNegative, blockSubsidy height (.mainnet streams disbursements founders) = .ok a ∧
      a.zatoshis = mainnetZatoshis height := by
  rw [blockSubsidy, halvingDivisor, mainnet_halving streams disbursements founders h, ok_bind,
    pure_eq_ok, ok_bind]
  by_cases hindex : (if height < 653600 then 0 else (height + 633600) / 1680000) < 64
  · have hamount := mainnet_subsidyAmount streams disbursements founders height
    have hvalid : Constraint.nonNegative.Contains (mainnetZatoshis height : Int) := by
      have hle := mainnetZatoshis_le height
      simp only [Constraint.Contains, Constraint.lower, Constraint.upper, maxMoney, coin, maxBlockSubsidy] at hle ⊢
      omega
    rw [if_pos hindex]
    refine ⟨⟨_, hvalid⟩, ?_, rfl⟩
    dsimp only
    rw [hamount, Amount.tryFrom_of_contains hvalid]
    rfl
  · rw [if_neg hindex]
    refine ⟨_, rfl, ?_⟩
    have hblossom : ¬ height < 653600 := fun hlt => hindex (by rw [if_pos hlt]; decide)
    rw [if_neg hblossom] at hindex
    rw [mainnetZatoshis, if_neg (by omega), if_neg (by omega), if_neg hblossom,
      div_two_pow_eq_zero (Nat.not_lt.1 hindex)]
    rfl

/-- The slow start. The length of its halves is a variable, so that no sum is a closed number
that the kernel would add up. -/
theorem sum_mainnetZatoshis_ramp (hn : n = 10000) :
    ∑ height ∈ range (n + n), mainnetZatoshis height = 62500 * (n * (n + 1) + 2 * ∑ x ∈ range n, x) := by
  have hlow : ∀ x ∈ range n, mainnetZatoshis x = 62500 * x := fun x hx => if_pos (hn ▸ mem_range.1 hx)
  have hhigh : ∀ x ∈ range n, mainnetZatoshis (n + x) = 62500 * (n + 1 + x) := fun x hx => by
    have hlt := mem_range.1 hx
    rw [mainnetZatoshis, if_neg (by omega), if_pos (by omega)]
    omega
  rw [sum_range_add, sum_congr rfl hlow, sum_congr rfl hhigh, ← mul_sum, ← mul_sum, sum_add_distrib,
    sum_const_nat (fun _ _ => rfl), card_range]
  omega

theorem sum_mainnetZatoshis_full : ∑ height ∈ range 653600, mainnetZatoshis height = 804500000000000 := by
  have hids : ∑ x ∈ range 10000, x = 49995000 := by
    have hdouble := sum_range_id_mul_two 10000
    omega
  have hramp : ∑ height ∈ range 20000, mainnetZatoshis height = 12500000000000 := by
    have hhalves := sum_mainnetZatoshis_ramp rfl
    rwa [hids] at hhalves
  have hconst : ∀ x ∈ range 633600, mainnetZatoshis (20000 + x) = 1250000000 := fun x hx => by
    have hlt := mem_range.1 hx
    rw [mainnetZatoshis, if_neg (by omega), if_neg (by omega), if_pos (by omega)]
  rw [show 653600 = 20000 + 633600 from rfl, sum_range_add, hramp, sum_const_nat hconst, card_range]

theorem halvedTotal_blossom : halvedTotal 625000000 1680000 1287200 = 804500000000000 := by
  have hadd := halvedTotal_add 625000000 0 (show 1287200 ≤ 1680000 by decide)
  rw [Nat.zero_mul, Nat.zero_add] at hadd
  rw [hadd]
  rfl

theorem sum_mainnetZatoshis_le (n : Nat) : ∑ height ∈ range n, mainnetZatoshis height ≤ 2100000000000000 := by
  by_cases hn : n ≤ 653600
  · calc ∑ height ∈ range n, mainnetZatoshis height ≤ ∑ height ∈ range 653600, mainnetZatoshis height :=
          sum_le_sum_of_subset (range_mono hn)
      _ ≤ 2100000000000000 := by rw [sum_mainnetZatoshis_full]; decide
  · -- the blocks before Blossom are worth two steps of the halving reward each
    obtain ⟨m, rfl⟩ := Nat.exists_eq_add_of_le (Nat.le_of_not_le hn)
    have htail : ∀ x ∈ range m, mainnetZatoshis (653600 + x) = 625000000 / 2 ^ ((1287200 + x) / 1680000) :=
      fun x _ => by
        rw [mainnetZatoshis, if_neg (by omega), if_neg (by omega), if_neg (by omega)]
        rw [show 653600 + x + 633600 = 1287200 + x by omega]
    calc ∑ height ∈ range (653600 + m), mainnetZatoshis height
        = halvedTotal 625000000 1680000 (1287200 + m) := by
          rw [sum_range_add, sum_mainnetZatoshis_full, sum_congr rfl htail, halvedTotal, sum_range_add, ← halvedTotal,
            halvedTotal_blossom]
      _ ≤ 2 * (1680000 * 625000000) := halvedTotal_le _ _ (by decide)
      _ = 2100000000000000 := by decide

theorem mapM_blockSubsidy {heights : List Nat} (h : ∀ height ∈ heights, height < 2 ^ 32) :
    ∃ subsidies : List (Amount .nonNegative),
      heights.mapM (fun height => blockSubsidy height (.mainnet streams disbursements founders)) = .ok subsidies ∧
        (subsidies.map Amount.zatoshis).sum = ((heights.map mainnetZatoshis).sum : Nat) := by
  induction heights with
  | nil => exact ⟨[], rfl, rfl⟩
  | cons height heights ih =>
    obtain ⟨hheight, hrest⟩ := List.forall_mem_cons.1 h
    obtain ⟨a, ha, hz⟩ := mainnet_blockSubsidy streams disbursements founders hheight
    obtain ⟨subsidies, hsubsidies, hsum⟩ := ih hrest
    refine ⟨a :: subsidies, ?_, ?_⟩
    · rw [List.mapM_cons, ha, ok_bind, hsubsidies]
      rfl
    · rw [List.map_cons, List.sum_cons, hz, hsum, List.map_cons, List.sum_cons, Nat.cast_add]

theorem sum_range'_eq (n : Nat) :
    ((List.range' 1 n).map mainnetZatoshis).sum = ∑ height ∈ range (n + 1), mainnetZatoshis height := by
  induction n with
  | zero => rfl
  | succ n ih =>
    rw [List.range'_1_concat, List.map_append, List.sum_append, ih, sum_range_succ _ (n + 1), Nat.add_comm 1 n]
    rfl

/-- The subsidies of all Mainnet blocks up to any height are computed without a panic or an
error, and their sum is at most the money supply. -/
theorem mainnet_supply_cap (last : UInt32) : ∃ subsidies : List (Amount .nonNegative),
    (List.range' 1 last.toNat).mapM (fun height => blockSubsidy height (.mainnet streams disbursements founders)) =
      .ok subsidies ∧ (subsidies.map Amount.zatoshis).sum ≤ maxMoney := by
  have hheights : ∀ height ∈ List.range' 1 last.toNat, height < 2 ^ 32 := by
    intro height hmem
    have hlast := last.toNat_lt
    have hrange := List.mem_range'_1.1 hmem
    omega
  obtain ⟨subsidies, hsubsidies, hsum⟩ := mapM_blockSubsidy streams disbursements founders hheights
  refine ⟨subsidies, hsubsidies, ?_⟩
  have hle := sum_mainnetZatoshis_le (last.toNat + 1)
  rw [← sum_range'_eq] at hle
  rw [hsum]
  exact Int.ofNat_le.2 hle

end Zebra.Properties
