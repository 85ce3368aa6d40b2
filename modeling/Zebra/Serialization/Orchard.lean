import Zebra.Serialization.Sapling

namespace Zebra.Serialization.Orchard

open Lib Reader

structure SpendAuthSig where
  bytes : Octets 64
deriving DecidableEq

instance : ZcashSerialize SpendAuthSig := ⟨fun sig => writeExact sig.bytes⟩

instance : ZcashDeserialize SpendAuthSig where
  zcashDeserialize := do
    let bytes ← readExact 64
    return ⟨bytes⟩

theorem SpendAuthSig.canonical : Canonical SpendAuthSig :=
  (readExact_writes 64).bind fun _ _ h => reads_pure (by rwa [List.append_nil])

structure Flags where
  enableSpends : Bool
  enableOutputs : Bool
deriving DecidableEq

namespace Flags

def bits (flags : Flags) : Nat := flags.enableSpends.toNat + 2 * flags.enableOutputs.toNat

/-- The flags of a byte, whose other bits are reserved. -/
def fromBits (n : Nat) : Option Flags := if n < 4 then some ⟨n % 2 = 1, n / 2 % 2 = 1⟩ else none

theorem bits_fromBits {n : Nat} {flags : Flags} (h : fromBits n = some flags) : flags.bits = n := by
  rw [fromBits, Option.ite_none_right_eq_some] at h
  obtain ⟨hn, rfl⟩ : n < 4 ∧ (⟨n % 2 = 1, n / 2 % 2 = 1⟩ : Flags) = flags := ⟨h.1, Option.some.inj h.2⟩
  have hcases : n = 0 ∨ n = 1 ∨ n = 2 ∨ n = 3 := by omega
  rcases hcases with rfl | rfl | rfl | rfl <;> rfl

instance : ZcashSerialize Flags := ⟨fun flags => writeUInt 1 flags.bits⟩

instance : ZcashDeserialize Flags where
  zcashDeserialize := do
    let n ← readUInt 1
    match fromBits n with
    | some flags => return flags
    | none => .parse "invalid reserved orchard flags"

theorem canonical : Canonical Flags := by
  refine (readUInt_reads 1).bind fun n read hn => ?_
  cases hflags : fromBits n with
  | none => exact reads_fail _
  | some flags =>
    refine reads_pure ?_
    rw [List.append_nil]
    exact (congrArg (writeUInt 1) (bits_fromBits hflags)).trans hn.2

end Flags

/-- A randomised key stays a string of bytes, and the encoding of the identity is refused. -/
def readRandomizedKey : Read (Octets 32) := do
  let bytes ← readExact 32
  if bytes = List.Vector.replicate 32 0 then .parse "Orchard action rk must not be the identity point"
  else return bytes

theorem readRandomizedKey_reads : Reads readRandomizedKey fun bytes read => writeExact bytes = .ok read :=
  (readExact_writes 32).bind fun _ _ h => .ite (fun _ => reads_fail _) fun _ => reads_pure (by rwa [List.append_nil])

variable [CurveLibraries]

abbrev ValueCommitment := CurveLibraries.pallasPoint.Value

abbrev EphemeralPublicKey := CurveLibraries.pallasPoint.Value

abbrev Nullifier := CurveLibraries.pallasBase.Value

abbrev Root := CurveLibraries.pallasBase.Value

def readValueCommitment : Read ValueCommitment :=
  CurveLibraries.pallasPoint.read "Invalid pallas::Affine value" fun _ => .ok ()

def readNullifier : Read Nullifier :=
  CurveLibraries.pallasBase.read "Invalid pallas::Base value for orchard Nullifier" fun _ => .ok ()

def readNoteCommitment : Read CurveLibraries.pallasBase.Value :=
  CurveLibraries.pallasBase.read "Invalid pallas::Base, input not canonical" fun _ => .ok ()

def readEphemeralPublicKey : Read EphemeralPublicKey :=
  CurveLibraries.pallasPoint.read "Invalid pallas::Affine value for Orchard EphemeralPublicKey" fun point =>
    if CurveLibraries.isIdentity point then
      .fail (.parse "pallas::Affine value for Orchard EphemeralPublicKey is the identity")
    else .ok ()

def readRoot : Read Root :=
  CurveLibraries.pallasBase.read "Invalid pallas::Base value for Orchard note commitment tree root" fun _ => .ok ()

structure Action where
  cv : ValueCommitment
  nullifier : Nullifier
  rk : Octets 32
  cmX : CurveLibraries.pallasBase.Value
  ephemeralKey : EphemeralPublicKey
  encCiphertext : Octets 580
  outCiphertext : Octets 80

namespace Action

instance : ZcashSerialize Action where
  zcashSerialize a := writeAll [CurveLibraries.pallasPoint.write a.cv, CurveLibraries.pallasBase.write a.nullifier,
    writeExact a.rk, CurveLibraries.pallasBase.write a.cmX, CurveLibraries.pallasPoint.write a.ephemeralKey,
    writeExact a.encCiphertext, writeExact a.outCiphertext]

instance : ZcashDeserialize Action where
  zcashDeserialize := do
    let cv ← readValueCommitment
    let nullifier ← readNullifier
    let rk ← readRandomizedKey
    let cmX ← readNoteCommitment
    let ephemeralKey ← readEphemeralPublicKey
    let encCiphertext ← readExact 580
    let outCiphertext ← readExact 80
    return { cv, nullifier, rk, cmX, ephemeralKey, encCiphertext, outCiphertext }

def actionSize : Nat := 5 * 32 + 580 + 80

def authorizedActionSize : Nat := actionSize + 64

instance : TrustedPreallocate Action := ⟨(maxBlockBytes - 1) / authorizedActionSize⟩

theorem canonical : Canonical Action := by
  refine (Encoding.read_reads _ _ _).bind fun _ _ hcv => (Encoding.read_reads _ _ _).bind fun _ _ hnullifier => ?_
  refine readRandomizedKey_reads.bind fun _ _ hrk => (Encoding.read_reads _ _ _).bind fun _ _ hcm => ?_
  refine (Encoding.read_reads _ _ _).bind fun _ _ hkey => (readExact_writes 580).bind fun _ _ hnote => ?_
  refine (readExact_writes 80).bind fun _ _ hout => reads_pure ?_
  have hnotes := writeAll_cons hkey (writeAll_cons hnote (writeAll_cons hout writeAll_nil))
  exact writeAll_cons hcv (writeAll_cons hnullifier (writeAll_cons hrk (writeAll_cons hcm hnotes)))

end Action

instance : TrustedPreallocate SpendAuthSig := ⟨maxAllocation Action⟩

structure AuthorizedAction where
  action : Action
  spendAuthSig : SpendAuthSig

structure ShieldedData where
  flags : Flags
  valueBalance : Amount .negativeAllowed
  sharedAnchor : Root
  proof : Bytes
  actions : AtLeastOne AuthorizedAction
  bindingSig : Octets 64

namespace ShieldedData

instance : ZcashSerialize (Option ShieldedData) where
  zcashSerialize
    | none => zcashSerializeEmptyList
    | some data => writeAll [zcashSerialize (data.actions.val.map (·.action)), zcashSerialize data.flags,
        zcashSerialize data.valueBalance, CurveLibraries.pallasBase.write data.sharedAnchor,
        zcashSerializeBytes data.proof, zcashSerializeExternalCount (data.actions.val.map (·.spendAuthSig)),
        writeExact data.bindingSig]

def authorize (actions : List Action) (sigs : List SpendAuthSig) :
    Exec SerializationError (AtLeastOne AuthorizedAction) :=
  match AtLeastOne.tryFrom ((actions.zip sigs).map fun p => ⟨p.1, p.2⟩) with
  | some authorized => .ok authorized
  | none => .fail (.parse "vector length out of bounds")

def deserializeParts (actions : List Action) : Read (Option ShieldedData) := do
  let flags ← zcashDeserialize
  let valueBalance ← zcashDeserialize
  let sharedAnchor ← readRoot
  let proof ← zcashDeserializeBytes
  let sigs ← (zcashDeserializeExternalCount actions.length : Read (List SpendAuthSig))
  let bindingSig ← readExact 64
  let actions ← .lift (authorize actions sigs)
  return some { flags, valueBalance, sharedAnchor, proof, actions, bindingSig }

instance : ZcashDeserialize (Option ShieldedData) where
  zcashDeserialize := do
    let actions ← (zcashDeserialize : Read (List Action))
    if actions.isEmpty then return none else deserializeParts actions

theorem authorize_eq_ok {actions : List Action} {sigs : List SpendAuthSig} {authorized : AtLeastOne AuthorizedAction}
    (hlen : sigs.length = actions.length) (h : authorize actions sigs = .ok authorized) :
    authorized.val.map (·.action) = actions ∧ authorized.val.map (·.spendAuthSig) = sigs := by
  rw [authorize] at h
  split at h
  · rename_i htry
    cases h
    rw [AtLeastOne.tryFrom_eq_some htry, List.map_map, List.map_map]
    exact ⟨List.map_fst_zip hlen.ge, List.map_snd_zip hlen.le⟩
  · cases h

theorem canonical : Canonical (Option ShieldedData) := by
  refine Action.canonical.vec.bind fun actions _ hactions => .ite (fun hempty => ?_) fun _ => ?_
  · obtain rfl := List.isEmpty_iff.1 hempty
    refine reads_pure ?_
    rw [List.append_nil, ← hactions]
    exact zcashSerializeEmptyList_eq
  refine Flags.canonical.bind fun _ _ hflags => Amount.canonical_negativeAllowed.bind fun _ _ hbalance => ?_
  refine (Encoding.read_reads _ _ _).bind fun _ _ hanchor => zcashDeserializeBytes_reads.bind fun _ _ hproof => ?_
  refine (SpendAuthSig.canonical.externalCount _).bind fun sigs _ ⟨hlen, hsigs⟩ => ?_
  refine (readExact_writes 64).bind fun _ _ hbinding => ?_
  refine Reads.bind (P := fun authorized read => authorize actions sigs = .ok authorized ∧ read = [])
    (reads_lift fun _ h => ⟨h, rfl⟩) ?_
  rintro authorized _ ⟨hauthorized, rfl⟩
  refine reads_pure ?_
  obtain ⟨haction, hsig⟩ := authorize_eq_ok hlen hauthorized
  rw [← haction] at hactions
  rw [← hsig] at hsigs
  have hauth := writeAll_cons hproof (writeAll_cons hsigs (writeAll_cons hbinding writeAll_nil))
  exact writeAll_cons hactions (writeAll_cons hflags (writeAll_cons hbalance (writeAll_cons hanchor hauth)))

end ShieldedData

end Zebra.Serialization.Orchard
