import Zebra.Mempool.Downloads
import Zebra.Transaction

namespace Zebra

open Lib Std

/-- A transaction id is a hash of the effects of a transaction, so it determines them. -/
class TransactionIds where
  effects : TransactionHash → Transaction

/-- The ledger's transactions leave out the expiry height, so it comes beside the transaction. -/
structure UnminedTx [TransactionIds] where
  id : UnminedTxId
  transaction : Transaction
  size : Nat
  conventionalFee : Amount .nonNegative
  expiryHeight : Option Nat
  commits : TransactionIds.effects id.minedId = transaction
deriving DecidableEq

def mempoolTransactionCostThreshold : Nat := 10000

def mempoolTransactionLowFeePenalty : Nat := 40000

/-- A transaction that passed the checks of the transaction verifier. It has an input that is not
the one of a coinbase transaction. -/
structure VerifiedUnminedTx [TransactionIds] where
  transaction : UnminedTx
  minerFee : Amount .nonNegative
  legacySigopCount : Nat
  p2shSigopCount : Nat
  unpaidActions : Nat
  feeWeightRatio : Rat
  height : Option Nat
  hasInputs : transaction.transaction.hasTransparentOrShieldedInputs = true
  nonCoinbase : transaction.transaction.isValidNonCoinbase = true
deriving DecidableEq

namespace VerifiedUnminedTx

variable [TransactionIds] (tx : VerifiedUnminedTx)

def minedId : TransactionHash := tx.transaction.id.minedId

def paysConventionalFee : Bool := tx.transaction.conventionalFee.zatoshis ≤ tx.minerFee.zatoshis

def cost : Nat := max tx.transaction.size mempoolTransactionCostThreshold

def evictionWeight : Nat := if tx.paysConventionalFee then tx.cost else tx.cost + mempoolTransactionLowFeePenalty

theorem cost_pos : 0 < tx.cost := Nat.lt_of_lt_of_le (by decide) (Nat.le_max_right _ _)

theorem evictionWeight_pos : 0 < tx.evictionWeight := by
  rw [evictionWeight]
  split
  · exact tx.cost_pos
  · exact Nat.add_pos_left tx.cost_pos _

end VerifiedUnminedTx

/-- What only one transaction can spend or reveal. -/
inductive MempoolSpend where
  | outpoint (o : OutPoint)
  | sprout (nullifier : Nat)
  | sapling (nullifier : Nat)
  | orchard (nullifier : Nat)
deriving DecidableEq

namespace Transaction

def spends (tx : Transaction) : List MempoolSpend :=
  tx.spentOutpoints.map .outpoint ++ tx.sproutNullifiers.map .sprout ++ tx.saplingNullifiers.map .sapling ++
    tx.orchardNullifiers.map .orchard

variable {tx : Transaction}

theorem spentOutpoints_ne_nil (hinputs : tx.inputs ≠ []) (hvalid : tx.isValidNonCoinbase = true) : tx.spentOutpoints ≠ [] := by
  obtain ⟨input, hinput⟩ := List.exists_mem_of_ne_nil _ hinputs
  obtain ⟨o, ho⟩ := Option.isSome_iff_exists.1 (List.all_eq_true.1 hvalid input hinput)
  exact List.ne_nil_of_mem (List.mem_filterMap.2 ⟨input, hinput, ho⟩)

theorem sproutNullifiers_ne_nil (h : 0 < tx.joinsplitCount) : tx.sproutNullifiers ≠ [] := by
  rw [joinsplitCount] at h
  rw [sproutNullifiers]
  cases hdata : tx.joinsplitData with
  | none => simp [hdata] at h
  | some d => simp [JoinSplitData.nullifiers, JoinSplitData.joinsplits]

theorem saplingNullifiers_ne_nil (h : 0 < tx.saplingSpendsCount) : tx.saplingNullifiers ≠ [] := by
  unfold saplingSpendsCount at h
  unfold saplingNullifiers
  split at h
  · exact List.map_eq_nil_iff.not.2 (List.ne_nil_of_length_pos h)
  · exact List.map_eq_nil_iff.not.2 (List.ne_nil_of_length_pos h)
  · exact absurd h (Nat.lt_irrefl 0)

theorem orchardNullifiers_ne_nil (h : (tx.orchardShieldedData.map (·.enableSpends)).getD false = true) :
    tx.orchardNullifiers ≠ [] := by
  rw [orchardNullifiers]
  cases hdata : tx.orchardShieldedData with
  | none => simp [hdata] at h
  | some d => exact List.map_eq_nil_iff.not.2 d.actions.nonempty

theorem spends_ne_nil (hinputs : tx.hasTransparentOrShieldedInputs = true) (hvalid : tx.isValidNonCoinbase = true) :
    tx.spends ≠ [] := by
  rw [hasTransparentOrShieldedInputs, hasShieldedInputs] at hinputs
  simp only [Bool.or_eq_true, Bool.not_eq_true', decide_eq_true_eq, List.isEmpty_eq_false_iff] at hinputs
  rw [spends]
  rcases hinputs with h | (h | h) | h
  · have := spentOutpoints_ne_nil h hvalid
    simp [this]
  · have := sproutNullifiers_ne_nil h
    simp [this]
  · have := saplingNullifiers_ne_nil h
    simp [this]
  · have := orchardNullifiers_ne_nil h
    simp [this]

end Transaction

end Zebra
