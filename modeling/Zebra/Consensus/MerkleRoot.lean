import Mathlib.Data.List.Dedup
import Zebra.Block
import Zebra.Lib.Merkle

namespace Zebra

open Lib

/-- The double SHA-256 of two hashes. -/
class TransactionHashing where
  hash : Nat → Nat → Nat

inductive BlockError where
  | badMerkleRoot (actual expected : Nat)
  | duplicateTransaction
  | wrongTransactionConsensusBranchId
deriving DecidableEq

/-- `networkUpgrades` are those that the version 5 transactions of the block name. -/
def Block.checkTransactionNetworkUpgradeConsistency (b : Block) (networkUpgrades : List NetworkUpgrade)
    (net : Network) : Exec BlockError Unit := do
  let height ← Outcome.expect b.coinbaseHeight .coinbaseHeight
  let blockNu := NetworkUpgrade.current net height
  if networkUpgrades.any fun nu => nu ≠ blockNu then .fail .wrongTransactionConsensusBranchId else return ()

variable [TransactionHashing]

/-- The Merkle root of the transactions of a block. Pairing up the hashes until one is left
aborts at `hashes[0]` when there are none. -/
def merkleRoot {ε : Type} (hashes : List TransactionHash) : Exec ε Nat :=
  Outcome.expect (Merkle.root TransactionHashing.hash hashes) .emptyMerkleTree

def merkleRootValidity (net : Network) (b : Block) (networkUpgrades : List NetworkUpgrade)
    (transactionHashes : List TransactionHash) : Exec BlockError Unit := do
  b.checkTransactionNetworkUpgradeConsistency networkUpgrades net
  let root ← merkleRoot transactionHashes
  if b.header.merkleRoot ≠ root then .fail (.badMerkleRoot root b.header.merkleRoot)
  -- a set of the hashes drops the repetitions
  else if transactionHashes.length ≠ transactionHashes.dedup.length then .fail .duplicateTransaction
  else return ()

theorem merkleRootValidity_eq_ok {net : Network} {b : Block} {networkUpgrades : List NetworkUpgrade}
    {hashes : List TransactionHash} (h : merkleRootValidity net b networkUpgrades hashes = .ok ()) :
    Merkle.root TransactionHashing.hash hashes = some b.header.merkleRoot ∧ hashes ≠ [] ∧ hashes.Nodup := by
  obtain ⟨_, -, h⟩ := bind_eq_ok.1 h
  obtain ⟨root, hroot, h⟩ := bind_eq_ok.1 h
  rw [merkleRoot, Outcome.expect_eq_ok] at hroot
  split at h
  · simp at h
  · next heq =>
      split at h
      · simp at h
      · next hlen =>
          rw [not_not] at heq hlen
          refine ⟨heq ▸ hroot, ?_, ?_⟩
          · rintro rfl
            simp [Merkle.root, Merkle.climb] at hroot
          · rw [← (List.dedup_sublist hashes).eq_of_length hlen.symm]
            exact List.nodup_dedup hashes

end Zebra
