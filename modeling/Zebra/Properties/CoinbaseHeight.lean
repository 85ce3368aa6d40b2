import Mathlib.Data.List.GetD
import Zebra.Serialization.Transparent

namespace Zebra.Properties

open Lib Serialization Bytes

variable {w least most h : Nat} {data : Bytes}

theorem parsePushedHeight_toLE (op : UInt8) (hleast : least ≤ h) (hmost : h ≤ most) (hsmall : 2 * h < 256 ^ (w + 1)) :
    parsePushedHeight (w + 1) least most (op :: (toLE (w + 1) h ++ data)) = .ok (h, data) := by
  have hlen : (toLE (w + 1) h).length = w + 1 := length_toLE _ _
  have hlast : ((op :: (toLE (w + 1) h ++ data)).getD (w + 1) 0).toNat < 0x80 := by
    rw [List.getD_cons_succ, List.getD_append _ _ _ _ (by omega), getD_toLE (Nat.lt_succ_self w), UInt8.toNat_ofNat']
    have hquotient : h / 256 ^ w < 0x80 := by
      apply Nat.div_lt_of_lt_mul
      rw [Nat.pow_succ] at hsmall
      omega
    exact (Nat.mod_le _ _).trans_lt hquotient
  have hbytes : ofLE (((op :: (toLE (w + 1) h ++ data)).drop 1).take (w + 1)) = h := by
    rw [List.drop_succ_cons, List.drop_zero, List.take_append_of_le_length (Nat.le_of_eq hlen.symm),
      List.take_of_length_le (Nat.le_of_eq hlen), ofLE_toLE (by omega)]
  have hrest : (op :: (toLE (w + 1) h ++ data)).drop (w + 1 + 1) = data := by
    rw [List.drop_succ_cons, List.drop_append_of_le_length (Nat.le_of_eq hlen.symm), List.drop_of_length_le
      (Nat.le_of_eq hlen), List.nil_append]
  rw [parsePushedHeight, if_pos ⟨by simp, hlast⟩, hbytes, hrest]
  exact if_pos ⟨hleast, hmost⟩

theorem toLE_append_eq_genesis : 4 :: (toLE 4 h ++ data) = genesisCoinbaseData ∧ h < 256 ^ 4 ↔
      h = 520617983 ∧ data = genesisCoinbaseData.drop 5 := by
  constructor
  · rintro ⟨heq, hlt⟩
    have htake := congrArg (fun bytes : Bytes => (bytes.drop 1).take 4) heq
    have hdrop := congrArg (fun bytes : Bytes => bytes.drop 5) heq
    simp only [List.drop_succ_cons, List.drop_zero] at htake hdrop
    rw [List.take_left' (length_toLE 4 h)] at htake
    rw [List.drop_left' (length_toLE 4 h)] at hdrop
    refine ⟨?_, hdrop⟩
    rw [← ofLE_toLE hlt, htake]
    rfl
  · rintro ⟨rfl, rfl⟩
    exact ⟨rfl, by decide⟩

theorem cons_ne_genesis {op : UInt8} (hop : op ≠ 4) (bytes : Bytes) : op :: bytes ≠ genesisCoinbaseData :=
  fun heq => hop (List.head_eq_of_cons_eq heq)

theorem writeCoinbaseHeight_parses (data : Bytes) (hpos : 1 ≤ h) (hmax : h ≤ Height.max) :
    ∃ height, writeCoinbaseHeight h data = .ok height ∧
      (height ++ data = genesisCoinbaseData ↔ h = 520617983 ∧ data = genesisCoinbaseData.drop 5) ∧
      (height ++ data ≠ genesisCoinbaseData → parseCoinbaseHeight (height ++ data) = .ok (h, data)) := by
  have hlimit : Height.max = 2147483647 := rfl
  -- one byte for the opcode and the pushed bytes of a height that is not the one of genesis
  have pushed (op : UInt8) (w : Nat) (hop : op ≠ 4) (hne : h ≠ 520617983)
      (hwrite : writeCoinbaseHeight h data = .ok (op :: toLE w h))
      (hparse : parseCoinbaseHeight (op :: (toLE w h ++ data)) = .ok (h, data)) :
      ∃ height, writeCoinbaseHeight h data = .ok height ∧
        (height ++ data = genesisCoinbaseData ↔ h = 520617983 ∧ data = genesisCoinbaseData.drop 5) ∧
        (height ++ data ≠ genesisCoinbaseData → parseCoinbaseHeight (height ++ data) = .ok (h, data)) :=
    ⟨_, hwrite, iff_of_false (cons_ne_genesis hop _) (fun heq => hne heq.1), fun _ => hparse⟩
  by_cases h16 : h ≤ 16
  · have hop : (UInt8.ofNat (0x50 + h)).toNat = 0x50 + h := by
      rw [UInt8.toNat_ofNat']
      omega
    refine pushed (.ofNat (0x50 + h)) 0 ?_ (by omega) ?_ ?_
    · rintro heq
      rw [heq] at hop
      have : (4 : UInt8).toNat = 4 := rfl
      omega
    · rw [writeCoinbaseHeight, if_neg (by omega), if_pos h16]
      rfl
    · simp only [parseCoinbaseHeight, hop]
      rw [if_pos (by omega), Nat.add_sub_cancel_left]
      rfl
  by_cases h127 : h ≤ 127
  · refine pushed 1 1 (by decide) (by omega) ?_ ?_
    · rw [writeCoinbaseHeight, if_neg (by omega), if_neg h16, if_pos h127]
      rfl
    · exact parsePushedHeight_toLE 1 (by omega) h127 (by omega)
  by_cases h32767 : h ≤ 32767
  · refine pushed 2 2 (by decide) (by omega) ?_ ?_
    · rw [writeCoinbaseHeight, if_neg (by omega), if_neg h16, if_neg h127, if_pos h32767]
      rfl
    · exact parsePushedHeight_toLE 2 (by omega) h32767 (by omega)
  by_cases h8388607 : h ≤ 8388607
  · refine pushed 3 3 (by decide) (by omega) ?_ ?_
    · rw [writeCoinbaseHeight, if_neg (by omega), if_neg h16, if_neg h127, if_neg h32767, if_pos h8388607]
      rfl
    · exact parsePushedHeight_toLE 3 (by omega) h8388607 (by omega)
  · refine ⟨4 :: toLE 4 h, ?_, ?_, ?_⟩
    · rw [writeCoinbaseHeight, if_neg (by omega), if_neg h16, if_neg h127, if_neg h32767, if_neg h8388607, if_pos hmax]
      rfl
    · rw [← toLE_append_eq_genesis, List.cons_append]
      exact (and_iff_left (by omega)).symm
    · intro hne
      rw [List.cons_append] at hne ⊢
      exact (if_neg hne).trans (parsePushedHeight_toLE 4 (by omega) hmax (by omega))

/-- The height of a coinbase script is a prefix that is written in one way. The script of the
genesis block, which has no height, takes the place of one script with a height. -/
theorem coinbase_height_encoding :
    (∀ (h : Nat) (data : Bytes), 1 ≤ h → h ≤ Height.max → ∃ height, writeCoinbaseHeight h data = .ok height ∧
      (parseCoinbaseHeight (height ++ data) = .ok (h, data) ↔ ¬ (h = 520617983 ∧ data = genesisCoinbaseData.drop 5))) ∧
    ∀ (script data : Bytes) (h : Nat), parseCoinbaseHeight script = .ok (h, data) →
      ∃ height, writeCoinbaseHeight h data = .ok height ∧ height ++ data = script := by
  constructor
  · intro h data hpos hmax
    obtain ⟨height, hwrite, hgenesis, hparse⟩ := writeCoinbaseHeight_parses data hpos hmax
    refine ⟨height, hwrite, ?_⟩
    rw [← hgenesis]
    constructor
    · intro hok heq
      have hzero : parseCoinbaseHeight genesisCoinbaseData = .ok (0, genesisCoinbaseData) := rfl
      rw [heq, hzero, Except.ok.injEq, Prod.mk.injEq] at hok
      omega
    · exact hparse
  · intro script data h hparse
    exact parseCoinbaseHeight_eq_ok hparse

theorem coinbase_height_encoding_sample : ∃ height, writeCoinbaseHeight 2726400 [7, 7] = .ok height ∧
      parseCoinbaseHeight (height ++ [7, 7]) = .ok (2726400, [7, 7]) := by
  obtain ⟨height, hwrite, hparse⟩ := coinbase_height_encoding.1 2726400 [7, 7] (by decide) (by decide)
  exact ⟨height, hwrite, hparse.2 (by decide)⟩

/-- The script for the height 520617983 and the rest of the genesis data is read as genesis. -/
theorem coinbase_height_encoding_genesis :
    ¬ ∀ (h : Nat) (data height : Bytes), 1 ≤ h → h ≤ Height.max → writeCoinbaseHeight h data = .ok height →
      minCoinbaseDataLen ≤ (height ++ data).length → (height ++ data).length ≤ maxCoinbaseDataLen →
      parseCoinbaseHeight (height ++ data) = .ok (h, data) := by
  intro hall
  have hparse := hall 520617983 (genesisCoinbaseData.drop 5) (genesisCoinbaseData.take 5) (by decide) (by decide) rfl
    (by decide) (by decide)
  have hgenesis : parseCoinbaseHeight (genesisCoinbaseData.take 5 ++ genesisCoinbaseData.drop 5) =
    .ok (0, genesisCoinbaseData) := rfl
  rw [hgenesis, Except.ok.injEq, Prod.mk.injEq] at hparse
  exact absurd hparse.1 (by decide)

end Zebra.Properties
