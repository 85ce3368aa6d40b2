import Mathlib.Data.Nat.Pairing
import Zebra.Consensus.MerkleRoot
import Zebra.Properties.Sample

namespace Zebra.Properties

open Lib

section

variable [TransactionHashing]

/-- The Merkle root of the header binds the transactions: of the lists of transaction hashes
that are accepted with one root there is only one. -/
theorem merkle_root_binds_transactions (hinj : Function.Injective2 TransactionHashing.hash) {net net' : Network}
    {b b' : Block} {nus nus' : List NetworkUpgrade} {hashes hashes' : List TransactionHash}
    (hleaf : ∀ t ∈ hashes ++ hashes', ∀ h₁ h₂, t ≠ TransactionHashing.hash h₁ h₂)
    (hheader : b.header.merkleRoot = b'.header.merkleRoot) (h : merkleRootValidity net b nus hashes = .ok ())
    (h' : merkleRootValidity net' b' nus' hashes' = .ok ()) : hashes = hashes' := by
  obtain ⟨hroot, hne, hnd⟩ := merkleRootValidity_eq_ok h
  obtain ⟨hroot', hne', hnd'⟩ := merkleRootValidity_eq_ok h'
  refine Merkle.eq_of_root_eq hinj (fun t ht => hleaf t ?_) (fun t ht => hleaf t ?_) hne hne' hnd hnd' ?_
  · exact List.mem_append_left _ ht
  · exact List.mem_append_right _ ht
  · rw [hroot, hroot', hheader]

end

section

open Sample

scoped instance oddPairs : TransactionHashing where
  hash h₁ h₂ := 2 * Nat.pair h₁ h₂ + 1

theorem oddPairs_injective : Function.Injective2 (TransactionHashing.hash : Nat → Nat → Nat) := by
  intro a a' b b' h
  refine Nat.pair_eq_pair.1 ?_
  simp only [TransactionHashing.hash] at h
  omega

def threeTransactions : Block :=
  ⟨⟨0, 4821, 0, 0, 0⟩, [.V5 [.coinbase 1] [] none none], 0, 0⟩

theorem threeTransactions_binds : merkleRootValidity network threeTransactions [.nu6] [0, 2, 4] = .ok () ∧
      ∀ hashes, (∀ t ∈ hashes, t % 2 = 0) → merkleRootValidity network threeTransactions [.nu6] hashes = .ok () →
        hashes = [0, 2, 4] := by
  have hok : merkleRootValidity network threeTransactions [.nu6] [0, 2, 4] = .ok () := by decide +kernel
  refine ⟨hok, fun hashes heven h => ?_⟩
  refine merkle_root_binds_transactions oddPairs_injective (fun t ht h₁ h₂ heq => ?_) rfl h hok
  have ht : t % 2 = 0 := by
    rcases List.mem_append.1 ht with ht | ht
    · exact heven t ht
    · exact (by decide : ∀ t ∈ [0, 2, 4], t % 2 = 0) t ht
  have hodd : (2 * Nat.pair h₁ h₂ + 1) % 2 = 0 := by
    rw [heq] at ht
    exact ht
  omega

end

end Zebra.Properties
