import Zebra.Serialization.Basic

namespace Zebra.Serialization

open Lib Reader Outcome

/-- The 32-byte encoding of a type of the cryptography libraries. Only the encoding of a value
decodes to it. -/
structure Encoding where
  Value : Type
  fromBytes : Octets 32 → Option Value
  toBytes : Value → Octets 32
  canonical : ∀ {bytes : Octets 32} {value : Value}, fromBytes bytes = some value → toBytes value = bytes

/-- The points and field elements of the cryptography libraries, and the tests on them. -/
class CurveLibraries where
  valueCommitment : Encoding
  extractedNoteCommitment : Encoding
  jubjubPoint : Encoding
  jubjubBase : Encoding
  verificationKey : Encoding
  isSmallOrder : jubjubPoint.Value → Bool
  pallasPoint : Encoding
  pallasBase : Encoding
  isIdentity : pallasPoint.Value → Bool

namespace Encoding

def write (e : Encoding) (value : e.Value) : Write := writeExact (e.toBytes value)

def decode (e : Encoding) (invalid : String) (bytes : Octets 32) : Exec SerializationError e.Value :=
  match e.fromBytes bytes with
  | some value => .ok value
  | none => .fail (.parse invalid)

/-- A value that decodes, and passes a test on it. -/
def read (e : Encoding) (invalid : String) (test : e.Value → Exec SerializationError Unit) : Read e.Value := do
  let bytes ← readExact 32
  .lift do
    let value ← e.decode invalid bytes
    test value
    return value

theorem decode_eq_ok {e : Encoding} {invalid : String} {bytes : Octets 32} {value : e.Value}
    (h : e.decode invalid bytes = .ok value) : e.toBytes value = bytes := by
  rw [decode] at h
  split at h
  · rename_i hfrom
    exact Except.ok.inj h ▸ e.canonical hfrom
  · cases h

theorem read_reads (e : Encoding) (invalid : String) (test : e.Value → Exec SerializationError Unit) :
    Reads (e.read invalid test) fun value bytes => e.write value = .ok bytes := by
  refine (readExact_writes 32).bind fun bytes read hread => reads_lift fun value hvalue => ?_
  obtain ⟨value', hdecode, hvalue⟩ := bind_eq_ok.1 hvalue
  obtain ⟨_, -, hvalue⟩ := bind_eq_ok.1 hvalue
  obtain rfl : value' = value := Except.ok.inj hvalue
  rw [write, decode_eq_ok hdecode, List.append_nil]
  exact hread

end Encoding

/-- A vector with at least one entry. -/
abbrev AtLeastOne (α : Type) := {vec : List α // vec ≠ []}

def AtLeastOne.tryFrom {α : Type} : List α → Option (AtLeastOne α)
  | [] => none
  | first :: rest => some ⟨first :: rest, List.cons_ne_nil first rest⟩

theorem AtLeastOne.tryFrom_eq_some {α : Type} {vec : List α} {vec' : AtLeastOne α} (h : tryFrom vec = some vec') :
    vec'.val = vec := by
  cases vec with
  | nil => cases h
  | cons first rest => exact congrArg Subtype.val (Option.some.inj h).symm

structure Groth16Proof where
  bytes : Octets 192
deriving DecidableEq

instance : ZcashSerialize Groth16Proof := ⟨fun proof => writeExact proof.bytes⟩

instance : ZcashDeserialize Groth16Proof where
  zcashDeserialize := do
    let bytes ← readExact 192
    return ⟨bytes⟩

theorem Groth16Proof.canonical : Canonical Groth16Proof :=
  (readExact_writes 192).bind fun _ _ h => reads_pure (by rwa [List.append_nil])

namespace Sapling

structure SpendAuthSig where
  bytes : Octets 64
deriving DecidableEq

instance : ZcashSerialize SpendAuthSig := ⟨fun sig => writeExact sig.bytes⟩

instance : ZcashDeserialize SpendAuthSig where
  zcashDeserialize := do
    let bytes ← readExact 64
    return ⟨bytes⟩

theorem SpendAuthSig.canonical : Canonical SpendAuthSig :=
  (readExact_writes 64).bind fun _ _ h => reads_pure (by rwa [List.append_nil])

variable [CurveLibraries]

abbrev ValueCommitment := CurveLibraries.valueCommitment.Value

abbrev ExtractedNoteCommitment := CurveLibraries.extractedNoteCommitment.Value

abbrev EphemeralPublicKey := CurveLibraries.jubjubPoint.Value

abbrev ValidatingKey := CurveLibraries.verificationKey.Value

abbrev Root := CurveLibraries.jubjubBase.Value

def readValueCommitment : Read ValueCommitment :=
  CurveLibraries.valueCommitment.read "invalid ValueCommitment bytes" fun _ => .ok ()

def readExtractedNoteCommitment : Read ExtractedNoteCommitment :=
  CurveLibraries.extractedNoteCommitment.read "invalid ExtractedNoteCommitment bytes" fun _ => .ok ()

def readEphemeralPublicKey : Read EphemeralPublicKey :=
  CurveLibraries.jubjubPoint.read "Invalid jubjub::AffinePoint value for Sapling EphemeralPublicKey" fun point =>
    if CurveLibraries.isSmallOrder point then
      .fail (.parse "jubjub::AffinePoint value for Sapling EphemeralPublicKey point is of small order")
    else .ok ()

def readValidatingKey : Read ValidatingKey :=
  CurveLibraries.verificationKey.read "Invalid redjubjub::ValidatingKey for Sapling ValidatingKey" fun key => do
    let point ← expect (CurveLibraries.jubjubPoint.fromBytes (CurveLibraries.verificationKey.toBytes key))
      .validatingKeyPoint
    if CurveLibraries.isSmallOrder point then
      .fail (.parse "jubjub::AffinePoint value for Sapling ValidatingKey is of small order")
    else .ok ()

def readRoot : Read Root :=
  CurveLibraries.jubjubBase.read "Invalid jubjub::Base value for Sapling note commitment tree root" fun _ => .ok ()

inductive AnchorVariant where
  | perSpendAnchor
  | sharedAnchor
deriving DecidableEq

def AnchorVariant.Shared : AnchorVariant → Type
  | perSpendAnchor => Unit
  | sharedAnchor => Root

def AnchorVariant.PerSpend : AnchorVariant → Type
  | perSpendAnchor => Root
  | sharedAnchor => Unit

structure Spend (A : AnchorVariant) where
  cv : ValueCommitment
  perSpendAnchor : A.PerSpend
  nullifier : Octets 32
  rk : ValidatingKey
  zkproof : Groth16Proof
  spendAuthSig : SpendAuthSig

structure Output where
  cv : ValueCommitment
  cmU : ExtractedNoteCommitment
  ephemeralKey : EphemeralPublicKey
  encCiphertext : Octets 580
  outCiphertext : Octets 80
  zkproof : Groth16Proof

inductive TransferData (A : AnchorVariant) where
  | spendsAndMaybeOutputs (sharedAnchor : A.Shared) (spends : AtLeastOne (Spend A)) (maybeOutputs : List Output)
  | justOutputs (outputs : AtLeastOne Output)

structure ShieldedData (A : AnchorVariant) where
  valueBalance : Amount .negativeAllowed
  transfers : TransferData A
  bindingSig : Octets 64

namespace TransferData

variable {A : AnchorVariant}

def spends : TransferData A → List (Spend A)
  | spendsAndMaybeOutputs _ spends _ => spends.val
  | justOutputs _ => []

def outputs : TransferData A → List Output
  | spendsAndMaybeOutputs _ _ maybeOutputs => maybeOutputs
  | justOutputs outputs => outputs.val

def sharedAnchor : TransferData A → Option A.Shared
  | spendsAndMaybeOutputs sharedAnchor _ _ => some sharedAnchor
  | justOutputs _ => none

end TransferData

instance : ZcashSerialize (Spend .perSpendAnchor) where
  zcashSerialize s := writeAll [CurveLibraries.valueCommitment.write s.cv,
    CurveLibraries.jubjubBase.write s.perSpendAnchor, writeExact s.nullifier,
    CurveLibraries.verificationKey.write s.rk, zcashSerialize s.zkproof, zcashSerialize s.spendAuthSig]

instance : ZcashDeserialize (Spend .perSpendAnchor) where
  zcashDeserialize := do
    let cv ← readValueCommitment
    let perSpendAnchor ← readRoot
    let nullifier ← readExact 32
    let rk ← readValidatingKey
    let zkproof ← zcashDeserialize
    let spendAuthSig ← zcashDeserialize
    return { cv, perSpendAnchor, nullifier, rk, zkproof, spendAuthSig }

def sharedAnchorSpendSize : Nat := 32 + 32 + 32 + 192 + 64

def anchorPerSpendSize : Nat := sharedAnchorSpendSize + 32

instance : TrustedPreallocate (Spend .perSpendAnchor) := ⟨(maxBlockBytes - 1) / anchorPerSpendSize⟩

theorem Spend.canonical_perSpendAnchor : Canonical (Spend .perSpendAnchor) := by
  refine (Encoding.read_reads _ _ _).bind fun _ _ hcv => (Encoding.read_reads _ _ _).bind fun _ _ hanchor => ?_
  refine (readExact_writes 32).bind fun _ _ hnullifier => (Encoding.read_reads _ _ _).bind fun _ _ hrk => ?_
  refine Groth16Proof.canonical.bind fun _ _ hproof => SpendAuthSig.canonical.bind fun _ _ hsig => reads_pure ?_
  have hauth := writeAll_cons hrk (writeAll_cons hproof (writeAll_cons hsig writeAll_nil))
  exact writeAll_cons hcv (writeAll_cons hanchor (writeAll_cons hnullifier hauth))

structure OutputInTransactionV4 where
  output : Output

namespace OutputInTransactionV4

instance : ZcashSerialize OutputInTransactionV4 where
  zcashSerialize o := writeAll [CurveLibraries.valueCommitment.write o.output.cv,
    CurveLibraries.extractedNoteCommitment.write o.output.cmU, CurveLibraries.jubjubPoint.write o.output.ephemeralKey,
    writeExact o.output.encCiphertext, writeExact o.output.outCiphertext, zcashSerialize o.output.zkproof]

instance : ZcashDeserialize OutputInTransactionV4 where
  zcashDeserialize := do
    let cv ← readValueCommitment
    let cmU ← readExtractedNoteCommitment
    let ephemeralKey ← readEphemeralPublicKey
    let encCiphertext ← readExact 580
    let outCiphertext ← readExact 80
    let zkproof ← zcashDeserialize
    return ⟨{ cv, cmU, ephemeralKey, encCiphertext, outCiphertext, zkproof }⟩

def outputSize : Nat := 32 + 32 + 32 + 580 + 80 + 192

instance : TrustedPreallocate OutputInTransactionV4 := ⟨(maxBlockBytes - 1) / outputSize⟩

theorem canonical : Canonical OutputInTransactionV4 := by
  refine (Encoding.read_reads _ _ _).bind fun _ _ hcv => (Encoding.read_reads _ _ _).bind fun _ _ hcm => ?_
  refine (Encoding.read_reads _ _ _).bind fun _ _ hkey => (readExact_writes 580).bind fun _ _ hnote => ?_
  refine (readExact_writes 80).bind fun _ _ hout => Groth16Proof.canonical.bind fun _ _ hproof => reads_pure ?_
  have hnotes := writeAll_cons hnote (writeAll_cons hout (writeAll_cons hproof writeAll_nil))
  exact writeAll_cons hcv (writeAll_cons hcm (writeAll_cons hkey hnotes))

end OutputInTransactionV4

structure SpendPrefixInTransactionV5 where
  cv : ValueCommitment
  nullifier : Octets 32
  rk : ValidatingKey

namespace SpendPrefixInTransactionV5

instance : ZcashSerialize SpendPrefixInTransactionV5 where
  zcashSerialize s := writeAll [CurveLibraries.valueCommitment.write s.cv, writeExact s.nullifier,
    CurveLibraries.verificationKey.write s.rk]

instance : ZcashDeserialize SpendPrefixInTransactionV5 where
  zcashDeserialize := do
    let cv ← readValueCommitment
    let nullifier ← readExact 32
    let rk ← readValidatingKey
    return { cv, nullifier, rk }

instance : TrustedPreallocate SpendPrefixInTransactionV5 := ⟨(maxBlockBytes - 1) / sharedAnchorSpendSize⟩

theorem canonical : Canonical SpendPrefixInTransactionV5 := by
  refine (Encoding.read_reads _ _ _).bind fun _ _ hcv => (readExact_writes 32).bind fun _ _ hnullifier => ?_
  refine (Encoding.read_reads _ _ _).bind fun _ _ hrk => reads_pure ?_
  exact writeAll_cons hcv (writeAll_cons hnullifier (writeAll_cons hrk writeAll_nil))

end SpendPrefixInTransactionV5

structure OutputPrefixInTransactionV5 where
  cv : ValueCommitment
  cmU : ExtractedNoteCommitment
  ephemeralKey : EphemeralPublicKey
  encCiphertext : Octets 580
  outCiphertext : Octets 80

namespace OutputPrefixInTransactionV5

instance : ZcashSerialize OutputPrefixInTransactionV5 where
  zcashSerialize o := writeAll [CurveLibraries.valueCommitment.write o.cv,
    CurveLibraries.extractedNoteCommitment.write o.cmU, CurveLibraries.jubjubPoint.write o.ephemeralKey,
    writeExact o.encCiphertext, writeExact o.outCiphertext]

instance : ZcashDeserialize OutputPrefixInTransactionV5 where
  zcashDeserialize := do
    let cv ← readValueCommitment
    let cmU ← readExtractedNoteCommitment
    let ephemeralKey ← readEphemeralPublicKey
    let encCiphertext ← readExact 580
    let outCiphertext ← readExact 80
    return { cv, cmU, ephemeralKey, encCiphertext, outCiphertext }

instance : TrustedPreallocate OutputPrefixInTransactionV5 := ⟨maxAllocation OutputInTransactionV4⟩

theorem canonical : Canonical OutputPrefixInTransactionV5 := by
  refine (Encoding.read_reads _ _ _).bind fun _ _ hcv => (Encoding.read_reads _ _ _).bind fun _ _ hcm => ?_
  refine (Encoding.read_reads _ _ _).bind fun _ _ hkey => (readExact_writes 580).bind fun _ _ hnote => ?_
  refine (readExact_writes 80).bind fun _ _ hout => reads_pure ?_
  have hnotes := writeAll_cons hnote (writeAll_cons hout writeAll_nil)
  exact writeAll_cons hcv (writeAll_cons hcm (writeAll_cons hkey hnotes))

end OutputPrefixInTransactionV5

instance : TrustedPreallocate SpendAuthSig := ⟨maxAllocation SpendPrefixInTransactionV5⟩

instance : TrustedPreallocate Groth16Proof :=
  ⟨max (maxAllocation SpendPrefixInTransactionV5) (maxAllocation OutputPrefixInTransactionV5)⟩

def Spend.intoV5Parts (s : Spend .sharedAnchor) : SpendPrefixInTransactionV5 × Groth16Proof × SpendAuthSig :=
  (⟨s.cv, s.nullifier, s.rk⟩, s.zkproof, s.spendAuthSig)

def Spend.fromV5Parts (p : SpendPrefixInTransactionV5) (zkproof : Groth16Proof) (spendAuthSig : SpendAuthSig) :
    Spend .sharedAnchor :=
  { cv := p.cv, perSpendAnchor := (), nullifier := p.nullifier, rk := p.rk, zkproof, spendAuthSig }

def Output.intoV5Parts (o : Output) : OutputPrefixInTransactionV5 × Groth16Proof :=
  (⟨o.cv, o.cmU, o.ephemeralKey, o.encCiphertext, o.outCiphertext⟩, o.zkproof)

def Output.fromV5Parts (p : OutputPrefixInTransactionV5) (zkproof : Groth16Proof) : Output :=
  { cv := p.cv, cmU := p.cmU, ephemeralKey := p.ephemeralKey, encCiphertext := p.encCiphertext,
    outCiphertext := p.outCiphertext, zkproof }

def writeSharedAnchor : Option Root → Write
  | some anchor => CurveLibraries.jubjubBase.write anchor
  | none => .ok []

/-- The proofs and signatures of the spends and outputs are in arrays of their own, after all
their other fields. -/
instance : ZcashSerialize (Option (ShieldedData .sharedAnchor)) where
  zcashSerialize
    | none => writeAll [zcashSerializeEmptyList, zcashSerializeEmptyList]
    | some data =>
      let spends := data.transfers.spends.map Spend.intoV5Parts
      let outputs := data.transfers.outputs.map Output.intoV5Parts
      writeAll [zcashSerialize (spends.map (·.1)), zcashSerialize (outputs.map (·.1)),
        zcashSerialize data.valueBalance, writeSharedAnchor data.transfers.sharedAnchor,
        zcashSerializeExternalCount (spends.map (·.2.1)), zcashSerializeExternalCount (spends.map (·.2.2)),
        zcashSerializeExternalCount (outputs.map (·.2)), writeExact data.bindingSig]

def readSharedAnchor (spendsCount : Nat) : Read (Option Root) :=
  if 0 < spendsCount then do
    let anchor ← readRoot
    return some anchor
  else return none

def sharedTransfers (sharedAnchor : Option Root) (spends : List (Spend .sharedAnchor)) (outputs : List Output) :
    Exec SerializationError (TransferData .sharedAnchor) :=
  match sharedAnchor with
  | some anchor => do
    let spends ← expect (AtLeastOne.tryFrom spends) .sharedAnchorSpends
    return .spendsAndMaybeOutputs anchor spends outputs
  | none => do
    let outputs ← expect (AtLeastOne.tryFrom outputs) .shieldedOutputs
    return .justOutputs outputs

def deserializeV5Arrays (spendPrefixes : List SpendPrefixInTransactionV5)
    (outputPrefixes : List OutputPrefixInTransactionV5) : Read (Option (ShieldedData .sharedAnchor)) := do
  let valueBalance ← zcashDeserialize
  let sharedAnchor ← readSharedAnchor spendPrefixes.length
  let spendProofs ← (zcashDeserializeExternalCount spendPrefixes.length : Read (List Groth16Proof))
  let spendSigs ← (zcashDeserializeExternalCount spendPrefixes.length : Read (List SpendAuthSig))
  let outputProofs ← (zcashDeserializeExternalCount outputPrefixes.length : Read (List Groth16Proof))
  let bindingSig ← readExact 64
  let spends := ((spendPrefixes.zip spendProofs).zip spendSigs).map fun p => Spend.fromV5Parts p.1.1 p.1.2 p.2
  let outputs := (outputPrefixes.zip outputProofs).map fun p => Output.fromV5Parts p.1 p.2
  let transfers ← .lift (sharedTransfers sharedAnchor spends outputs)
  return some { valueBalance, transfers, bindingSig }

def deserializeV5SaplingShieldedData (isCoinbase : Bool) : Read (Option (ShieldedData .sharedAnchor)) := do
  let spendCount ← (zcashDeserialize : Read CompactSizeMessage)
  if isCoinbase ∧ 0 < spendCount.toUsize then .parse "coinbase transaction must not have Sapling spends"
  else do
    let spendPrefixes ← (zcashDeserializeExternalCount spendCount.toUsize : Read (List SpendPrefixInTransactionV5))
    let outputPrefixes ← (zcashDeserialize : Read (List OutputPrefixInTransactionV5))
    if spendPrefixes.isEmpty ∧ outputPrefixes.isEmpty then return none
    else deserializeV5Arrays spendPrefixes outputPrefixes

theorem readSharedAnchor_reads (spendsCount : Nat) : Reads (readSharedAnchor spendsCount) fun anchor read =>
    (anchor = none → spendsCount = 0) ∧ writeSharedAnchor anchor = .ok read := by
  refine .ite (fun _ => (Encoding.read_reads _ _ _).bind fun anchor read hread => reads_pure ?_) fun hzero => ?_
  · rw [List.append_nil]
    exact ⟨(nomatch ·), hread⟩
  · exact reads_pure ⟨fun _ => by omega, rfl⟩

theorem sharedTransfers_eq_ok {sharedAnchor : Option Root} {spends : List (Spend .sharedAnchor)}
    {outputs : List Output} {transfers : TransferData .sharedAnchor} (hnone : sharedAnchor = none → spends = [])
    (h : sharedTransfers sharedAnchor spends outputs = .ok transfers) :
    transfers.sharedAnchor = sharedAnchor ∧ transfers.spends = spends ∧ transfers.outputs = outputs := by
  cases sharedAnchor with
  | none =>
    obtain ⟨some, hsome, h⟩ := bind_eq_ok.1 h
    cases h
    exact ⟨rfl, (hnone rfl).symm, AtLeastOne.tryFrom_eq_some (expect_eq_ok.1 hsome)⟩
  | some anchor =>
    obtain ⟨some, hsome, h⟩ := bind_eq_ok.1 h
    cases h
    exact ⟨rfl, AtLeastOne.tryFrom_eq_some (expect_eq_ok.1 hsome), rfl⟩

variable {ps : List SpendPrefixInTransactionV5} {proofs : List Groth16Proof} {sigs : List SpendAuthSig}

theorem map_intoV5Parts_spends (hproofs : proofs.length = ps.length) (hsigs : sigs.length = ps.length) :
    (((ps.zip proofs).zip sigs).map fun p => Spend.fromV5Parts p.1.1 p.1.2 p.2).map Spend.intoV5Parts =
      ps.zip (proofs.zip sigs) := by
  induction ps generalizing proofs sigs with
  | nil => rfl
  | cons p ps ih =>
    obtain ⟨proof, proofs, rfl⟩ := List.exists_cons_of_length_eq_add_one hproofs
    obtain ⟨sig, sigs, rfl⟩ := List.exists_cons_of_length_eq_add_one hsigs
    simp only [List.zip_cons_cons, List.map_cons]
    rw [ih (Nat.succ.inj hproofs) (Nat.succ.inj hsigs)]
    rfl

theorem map_intoV5Parts_outputs (ps : List OutputPrefixInTransactionV5) (proofs : List Groth16Proof) :
    ((ps.zip proofs).map fun p => Output.fromV5Parts p.1 p.2).map Output.intoV5Parts = ps.zip proofs := by
  rw [List.map_map]
  exact List.map_id _

theorem zcashSerialize_some {data : ShieldedData .sharedAnchor} {outputPs : List OutputPrefixInTransactionV5}
    {outputProofs : List Groth16Proof} (hproofs : proofs.length = ps.length) (hsigs : sigs.length = ps.length)
    (houtputProofs : outputProofs.length = outputPs.length)
    (hspends : data.transfers.spends = ((ps.zip proofs).zip sigs).map fun p => Spend.fromV5Parts p.1.1 p.1.2 p.2)
    (houtputs : data.transfers.outputs = (outputPs.zip outputProofs).map fun p => Output.fromV5Parts p.1 p.2) :
    zcashSerialize (some data) = writeAll [zcashSerialize ps, zcashSerialize outputPs, zcashSerialize data.valueBalance,
      writeSharedAnchor data.transfers.sharedAnchor, zcashSerializeExternalCount proofs,
      zcashSerializeExternalCount sigs, zcashSerializeExternalCount outputProofs, writeExact data.bindingSig] := by
  have hparts : data.transfers.spends.map Spend.intoV5Parts = ps.zip (proofs.zip sigs) := by
    rw [hspends, map_intoV5Parts_spends hproofs hsigs]
  have houtputParts : data.transfers.outputs.map Output.intoV5Parts = outputPs.zip outputProofs := by
    rw [houtputs, map_intoV5Parts_outputs]
  have hzip : (proofs.zip sigs).length = ps.length := by rw [List.length_zip, hproofs, hsigs, Nat.min_self]
  have hps : (ps.zip (proofs.zip sigs)).map (·.1) = ps := List.map_fst_zip hzip.ge
  have hrest : (ps.zip (proofs.zip sigs)).map (·.2) = proofs.zip sigs := List.map_snd_zip hzip.le
  have hfirst : (proofs.zip sigs).map (·.1) = proofs := List.map_fst_zip (by omega)
  have hsecond : (proofs.zip sigs).map (·.2) = sigs := List.map_snd_zip (by omega)
  have houtputPs : (outputPs.zip outputProofs).map (·.1) = outputPs := List.map_fst_zip (by omega)
  have houtputRest : (outputPs.zip outputProofs).map (·.2) = outputProofs := List.map_snd_zip (by omega)
  have hproofsPart : (ps.zip (proofs.zip sigs)).map (·.2.1) = proofs := by
    calc _ = ((ps.zip (proofs.zip sigs)).map (·.2)).map (·.1) := List.map_map.symm
      _ = proofs := by rw [hrest, hfirst]
  have hsigsPart : (ps.zip (proofs.zip sigs)).map (·.2.2) = sigs := by
    calc _ = ((ps.zip (proofs.zip sigs)).map (·.2)).map (·.2) := List.map_map.symm
      _ = sigs := by rw [hrest, hsecond]
  simp only [zcashSerialize]
  rw [hparts, houtputParts, hps, hproofsPart, hsigsPart, houtputPs, houtputRest]

theorem deserializeV5Arrays_reads {spendPrefixes : List SpendPrefixInTransactionV5}
    {outputPrefixes : List OutputPrefixInTransactionV5} {spendsRead outputsRead : Bytes}
    (hspends : zcashSerialize spendPrefixes = .ok spendsRead)
    (houtputs : zcashSerialize outputPrefixes = .ok outputsRead) :
    Reads (deserializeV5Arrays spendPrefixes outputPrefixes) fun data read =>
      zcashSerialize data = .ok (spendsRead ++ (outputsRead ++ read)) := by
  refine Amount.canonical_negativeAllowed.bind fun balance _ hbalance => ?_
  refine (readSharedAnchor_reads _).bind fun anchor _ ⟨hnone, hanchor⟩ => ?_
  refine (Groth16Proof.canonical.externalCount _).bind fun proofs _ ⟨hproofsLen, hproofs⟩ => ?_
  refine (SpendAuthSig.canonical.externalCount _).bind fun sigs _ ⟨hsigsLen, hsigs⟩ => ?_
  refine (Groth16Proof.canonical.externalCount _).bind fun outputProofs _ ⟨houtputProofsLen, houtputProofs⟩ => ?_
  refine (readExact_writes 64).bind fun bindingSig _ hsig => ?_
  refine Reads.bind (P := fun transfers read => sharedTransfers anchor _ _ = .ok transfers ∧ read = [])
    (reads_lift fun _ htransfers => ⟨htransfers, rfl⟩) ?_
  rintro transfers _ ⟨htransfers, rfl⟩
  refine reads_pure ?_
  -- without an anchor there is no spend to put together
  have hempty : anchor = none →
      (((spendPrefixes.zip proofs).zip sigs).map fun p => Spend.fromV5Parts p.1.1 p.1.2 p.2) = [] := by
    intro h
    rw [List.eq_nil_of_length_eq_zero (hnone h)]
    rfl
  obtain ⟨hshared, hspends', houtputs'⟩ := sharedTransfers_eq_ok hempty htransfers
  rw [zcashSerialize_some hproofsLen hsigsLen houtputProofsLen hspends' houtputs', hshared]
  have harrays := writeAll_cons hproofs (writeAll_cons hsigs (writeAll_cons houtputProofs (writeAll_cons hsig writeAll_nil)))
  exact writeAll_cons hspends (writeAll_cons houtputs (writeAll_cons hbalance (writeAll_cons hanchor harrays)))

theorem deserializeV5SaplingShieldedData_reads (isCoinbase : Bool) :
    Reads (deserializeV5SaplingShieldedData isCoinbase) fun data read => zcashSerialize data = .ok read := by
  refine CompactSizeMessage.reads.bind fun count _ ⟨hsize, htry⟩ => .ite (fun _ => reads_fail _) fun _ => ?_
  refine (SpendPrefixInTransactionV5.canonical.externalCount _).bind fun spends spendsRead ⟨hlen, hspends⟩ => ?_
  have hspendsVec := Vec.zcashSerialize_eq_ok (hlen ▸ htry) hsize hspends
  refine OutputPrefixInTransactionV5.canonical.vec.bind fun outputs outputsRead houtputs => ?_
  refine .ite (fun hempty => reads_pure ?_) fun _ => ?_
  · obtain rfl := List.isEmpty_iff.1 hempty.1
    obtain rfl := List.isEmpty_iff.1 hempty.2
    rw [← List.append_assoc]
    exact writeAll_cons hspendsVec (writeAll_cons houtputs writeAll_nil)
  · refine (deserializeV5Arrays_reads hspendsVec houtputs).mono fun data read hdata => ?_
    rw [hdata, List.append_assoc]

end Sapling

end Zebra.Serialization
