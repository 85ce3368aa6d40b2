import Zebra.Ledger.Runs

/-! Parameters and blocks for concrete chains: a small network, stand-ins for the libraries
and blocks built the way the state builds them. -/

namespace Zebra.Sample

open Lib Ledger

scoped instance scripts : ScriptParsing where
  recipient script := some (false, script)
  scriptOf _ hash := hash

def code : List Nat → Nat
  | [] => 0
  | n :: l => 2 ^ n * (2 * code l + 1)

theorem two_pow_mul_odd {m n a b : Nat} (h : 2 ^ m * (2 * a + 1) = 2 ^ n * (2 * b + 1)) : m = n ∧ a = b := by
  induction m generalizing n with
  | zero =>
    cases n with
    | zero => omega
    | succ n =>
      rw [Nat.pow_succ, Nat.mul_right_comm] at h
      omega
  | succ m ih =>
    cases n with
    | zero =>
      rw [Nat.pow_succ, Nat.mul_right_comm] at h
      omega
    | succ n =>
      obtain ⟨rfl, rfl⟩ := ih (by
        rw [Nat.pow_succ, Nat.pow_succ, Nat.mul_right_comm, Nat.mul_right_comm (2 ^ n)] at h
        exact Nat.eq_of_mul_eq_mul_right Nat.two_pos h)
      exact ⟨rfl, rfl⟩

theorem code_injective : Function.Injective code := by
  intro l l' h
  induction l generalizing l' with
  | nil =>
    cases l' with
    | nil => rfl
    | cons n l' => simp [code] at h
  | cons n l ih =>
    cases l' with
    | nil => simp [code] at h
    | cons n' l' =>
      obtain ⟨rfl, hc⟩ := two_pow_mul_odd h
      rw [ih hc]

scoped instance hashing : MerkleHashing where
  root _ := code
  subtreeRoot _ := List.length

theorem collisionFree : CollisionFree := fun _ => code_injective

/-- History trees whose peaks are all that was ever appended. -/
scoped instance chainHistory : ChainHistory where
  leaf _ b _ _ := b.header.previousBlockHash
  appendLeaf _ _ _ leaf := some [leaf]
  newFromCache _ _ _ := true
  hash _ size _ := size

def network : Network where
  variant := .configuredTestnet
  activationHeights := [(0, .genesis), (1, .nu6)]
  ascending := by decide
  genesisFirst := rfl
  slowStartInterval := 0
  slowStartShift := 0
  preBlossomHalvingInterval := 144
  postBlossomHalvingInterval := 288
  fundingStreams := []
  lockboxDisbursements := []
  founderAddressList := []
  shouldAllowUnshieldedCoinbaseSpends := true

theorem hundred_valid : Constraint.nonNegative.Contains 100 := by decide

theorem thirty_valid : Constraint.nonNegative.Contains 30 := by decide

theorem seven_ne_nil : [7] ≠ ([] : List Nat) := by decide

def pay (value : Amount .nonNegative) (address : Nat) : Output := ⟨value, address⟩

def semanticBlock (height hash parent : Nat) (txs : List (TransactionHash × Transaction)) :
    SemanticallyVerifiedBlock :=
  let txs := (1000 + height, .V5 [.coinbase height] [] none none) :: txs
  let block : Block := ⟨⟨parent, 0, 0, 0, 0x200f0f0f⟩, txs.map Prod.snd, 1000, 0⟩
  { block, hash, height
    newOutputs := newOrderedOutputsWithHeight block height (txs.map Prod.fst)
    transactionHashes := txs.map Prod.fst
    deferredPoolBalanceChange := none }

/-- The block with the outputs it spends, as `with_block_and_spent_utxos` builds it. -/
def contextualBlock (b : SemanticallyVerifiedBlock) (spent : List (OutPoint × OrderedUtxo)) :
    ContextuallyVerifiedBlock :=
  match ContextuallyVerifiedBlock.withBlockAndSpentUtxos b (.ofList spent) with
  | .ok c => c
  | .error _ => { b with spentOutputs := ∅, chainValuePoolChange := .zero }

def start (transparent : Amount .nonNegative) : Validated Chain :=
  Chain.new network 10 .empty .empty .empty (some ⟨network, .nu6, 1, ∅, 10⟩) ⟨transparent, .zero, .zero, .zero, .zero⟩

end Zebra.Sample
