import Zebra.Serialization.Basic

namespace Zebra.Serialization

open Lib Reader

inductive ProofSystem where
  | bctv14
  | groth16
deriving DecidableEq

def ProofSystem.proofLen : ProofSystem → Nat
  | bctv14 => 296
  | groth16 => 192

structure JoinSplit (P : ProofSystem) where
  vpubOld : Amount .nonNegative
  vpubNew : Amount .nonNegative
  anchor : Octets 32
  nullifiers : Octets 32 × Octets 32
  commitments : Octets 32 × Octets 32
  ephemeralKey : Octets 32
  randomSeed : Octets 32
  vmacs : Octets 32 × Octets 32
  zkproof : Octets P.proofLen
  encCiphertexts : Octets 601 × Octets 601
deriving DecidableEq

namespace JoinSplit

variable {P : ProofSystem}

instance : ZcashSerialize (JoinSplit P) where
  zcashSerialize j := writeAll [zcashSerialize j.vpubOld, zcashSerialize j.vpubNew, writeExact j.anchor,
    writeExact j.nullifiers.1, writeExact j.nullifiers.2, writeExact j.commitments.1, writeExact j.commitments.2,
    writeExact j.ephemeralKey, writeExact j.randomSeed, writeExact j.vmacs.1, writeExact j.vmacs.2,
    writeExact j.zkproof, writeExact j.encCiphertexts.1, writeExact j.encCiphertexts.2]

instance : ZcashDeserialize (JoinSplit P) where
  zcashDeserialize := do
    let vpubOld ← zcashDeserialize
    let vpubNew ← zcashDeserialize
    let anchor ← readExact 32
    let nullifier₁ ← readExact 32
    let nullifier₂ ← readExact 32
    let commitment₁ ← readExact 32
    let commitment₂ ← readExact 32
    let ephemeralKey ← readExact 32
    let randomSeed ← readExact 32
    let vmac₁ ← readExact 32
    let vmac₂ ← readExact 32
    let zkproof ← readExact P.proofLen
    let encCiphertext₁ ← readExact 601
    let encCiphertext₂ ← readExact 601
    return {
      vpubOld, vpubNew, anchor, nullifiers := (nullifier₁, nullifier₂), commitments := (commitment₁, commitment₂),
      ephemeralKey, randomSeed, vmacs := (vmac₁, vmac₂), zkproof, encCiphertexts := (encCiphertext₁, encCiphertext₂) }

def sizeWithoutZkproof : Nat := 8 + 8 + 32 + (32 * 2) + (32 * 2) + 32 + 32 + (32 * 2) + (601 * 2)

instance : TrustedPreallocate (JoinSplit P) := ⟨(maxBlockBytes - 1) / (sizeWithoutZkproof + P.proofLen)⟩

theorem canonical : Canonical (JoinSplit P) := by
  refine Amount.canonical_nonNegative.bind fun _ _ hold => Amount.canonical_nonNegative.bind fun _ _ hnew => ?_
  refine (readExact_writes 32).bind fun _ _ hanchor => ?_
  refine (readExact_writes 32).bind fun _ _ hnullifier₁ => (readExact_writes 32).bind fun _ _ hnullifier₂ => ?_
  refine (readExact_writes 32).bind fun _ _ hcommitment₁ => (readExact_writes 32).bind fun _ _ hcommitment₂ => ?_
  refine (readExact_writes 32).bind fun _ _ hkey => (readExact_writes 32).bind fun _ _ hseed => ?_
  refine (readExact_writes 32).bind fun _ _ hvmac₁ => (readExact_writes 32).bind fun _ _ hvmac₂ => ?_
  refine (readExact_writes P.proofLen).bind fun _ _ hproof => ?_
  refine (readExact_writes 601).bind fun _ _ hnote₁ => (readExact_writes 601).bind fun _ _ hnote₂ => reads_pure ?_
  have hnotes := writeAll_cons hproof (writeAll_cons hnote₁ (writeAll_cons hnote₂ writeAll_nil))
  have hkeys := writeAll_cons hkey (writeAll_cons hseed (writeAll_cons hvmac₁ (writeAll_cons hvmac₂ hnotes)))
  have hcommitments := writeAll_cons hcommitment₁ (writeAll_cons hcommitment₂ hkeys)
  have hnullifiers := writeAll_cons hnullifier₁ (writeAll_cons hnullifier₂ hcommitments)
  exact writeAll_cons hold (writeAll_cons hnew (writeAll_cons hanchor hnullifiers))

end JoinSplit

structure JoinSplitData (P : ProofSystem) where
  first : JoinSplit P
  rest : List (JoinSplit P)
  pubKey : Octets 32
  sig : Octets 64
deriving DecidableEq

namespace JoinSplitData

variable {P : ProofSystem}

/-- The field of a transaction: a transaction without JoinSplits has an empty list of them, and
neither key nor signature. -/
instance : ZcashSerialize (Option (JoinSplitData P)) where
  zcashSerialize
    | none => zcashSerializeEmptyList
    | some data => writeAll [zcashSerialize (data.first :: data.rest), writeExact data.pubKey, writeExact data.sig]

def deserializeAuth : List (JoinSplit P) → Read (Option (JoinSplitData P))
  | [] => return none
  | first :: rest => do
    let pubKey ← readExact 32
    let sig ← readExact 64
    return some ⟨first, rest, pubKey, sig⟩

instance : ZcashDeserialize (Option (JoinSplitData P)) where
  zcashDeserialize := do
    let joinsplits ← (zcashDeserialize : Read (List (JoinSplit P)))
    deserializeAuth joinsplits

theorem canonical : Canonical (Option (JoinSplitData P)) := by
  refine JoinSplit.canonical.vec.bind fun joinsplits read hjoinsplits => ?_
  cases joinsplits with
  | nil =>
    refine reads_pure ?_
    rw [List.append_nil, ← hjoinsplits]
    exact zcashSerializeEmptyList_eq
  | cons first rest =>
    refine (readExact_writes 32).bind fun _ _ hkey => (readExact_writes 64).bind fun _ _ hsig => reads_pure ?_
    exact writeAll_cons hjoinsplits (writeAll_cons hkey (writeAll_cons hsig writeAll_nil))

end JoinSplitData

end Zebra.Serialization
