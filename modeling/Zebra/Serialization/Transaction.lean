import Zebra.Serialization.Orchard
import Zebra.Serialization.Sprout
import Zebra.Serialization.Transparent

namespace Zebra.Serialization

open Lib Reader Outcome

def overwinterVersionGroupId : UInt32 := 0x03C48270

def saplingVersionGroupId : UInt32 := 0x892F2085

def txV5VersionGroupId : UInt32 := 0x26A7270A

def consensusBranchIds : List (NetworkUpgrade × UInt32) :=
  [(.overwinter, 0x5ba81b19), (.sapling, 0x76b809bb), (.blossom, 0x2bb40e60), (.heartwood, 0xf5b9230b),
   (.canopy, 0xe9ff75a6), (.nu5, 0xc2d6d0b4), (.nu6, 0xc8e71055), (.nu6_1, 0x4dec4df0)]

def NetworkUpgrade.tryFrom (branchId : UInt32) : Except SerializationError NetworkUpgrade :=
  match consensusBranchIds.find? fun id => id.2 = branchId with
  | some id => .ok id.1
  | none => .error (.parse "invalid consensus branch id")

def NetworkUpgrade.branchId (nu : NetworkUpgrade) : Option UInt32 :=
  (consensusBranchIds.find? fun id => id.1 = nu).map Prod.snd

theorem NetworkUpgrade.branchId_tryFrom {branchId : UInt32} {nu : NetworkUpgrade} (h : tryFrom branchId = .ok nu) :
    NetworkUpgrade.branchId nu = some branchId := by
  have htable : ∀ id ∈ consensusBranchIds, NetworkUpgrade.branchId id.1 = some id.2 := by decide
  rw [tryFrom] at h
  split at h
  · rename_i id hid
    cases h
    have hsnd : id.2 = branchId := by simpa using List.find?_some hid
    rw [htable id (List.mem_of_find?_eq_some hid), hsnd]
  · cases h

def writeBranchId (nu : NetworkUpgrade) : Write := do
  let branchId ← expect (NetworkUpgrade.branchId nu) .branchId
  writeU32 branchId

def readNetworkUpgrade : Read NetworkUpgrade := do
  let branchId ← readU32
  let networkUpgrade ← .lift ((NetworkUpgrade.tryFrom branchId).mapError .error)
  if networkUpgrade < .nu5 then .parse "v5 transaction must have NU5 or later consensus branch ID"
  else return networkUpgrade

theorem readNetworkUpgrade_reads : Reads readNetworkUpgrade fun nu read => writeBranchId nu = .ok read := by
  refine readU32_reads.bind fun branchId read hbranch => ?_
  refine Reads.bind (P := fun nu read => NetworkUpgrade.tryFrom branchId = .ok nu ∧ read = [])
    (reads_lift fun _ h => ⟨mapError_eq_ok.1 h, rfl⟩) ?_
  rintro nu _ ⟨hnu, rfl⟩
  refine .ite (fun _ => reads_fail _) fun _ => reads_pure ?_
  rw [writeBranchId, NetworkUpgrade.branchId_tryFrom hnu, List.append_nil, List.append_nil]
  exact hbranch

def readVersionGroupId (expected : UInt32) (message : String) : Read Unit := do
  let id ← readU32
  if id ≠ expected then .parse message else return ()

theorem readVersionGroupId_reads (expected : UInt32) (message : String) :
    Reads (readVersionGroupId expected message) fun _ read => writeU32 expected = .ok read := by
  refine readU32_reads.bind fun id read hid => .ite (fun _ => reads_fail _) fun hexpected => reads_pure ?_
  rw [List.append_nil, ← not_not.1 hexpected]
  exact hid

instance : TrustedPreallocate Input := ⟨maxBlockBytes / (32 + 4 + 4 + 1)⟩

instance : TrustedPreallocate Output := ⟨maxBlockBytes / (8 + 1)⟩

def isCoinbase : List Input → Bool
  | [.coinbase ..] => true
  | _ => false

section transactions

variable [CurveLibraries]

inductive Transaction where
  | v1 (inputs : List Input) (outputs : List Output) (lockTime : LockTime)
  | v2 (inputs : List Input) (outputs : List Output) (lockTime : LockTime)
      (joinsplitData : Option (JoinSplitData .bctv14))
  | v3 (inputs : List Input) (outputs : List Output) (lockTime : LockTime) (expiryHeight : UInt32)
      (joinsplitData : Option (JoinSplitData .bctv14))
  | v4 (inputs : List Input) (outputs : List Output) (lockTime : LockTime) (expiryHeight : UInt32)
      (joinsplitData : Option (JoinSplitData .groth16))
      (saplingShieldedData : Option (Sapling.ShieldedData .perSpendAnchor))
  | v5 (networkUpgrade : NetworkUpgrade) (lockTime : LockTime) (expiryHeight : UInt32) (inputs : List Input)
      (outputs : List Output) (saplingShieldedData : Option (Sapling.ShieldedData .sharedAnchor))
      (orchardShieldedData : Option Orchard.ShieldedData)

/-- The transaction format of `librustzcash`: its branch ids, and what its reader says about the
bytes of a transaction. -/
class Librustzcash where
  isBranchId : UInt32 → Bool
  readTransaction : Bytes → UInt32 → Except IoError Unit

namespace Transaction

def isOverwintered : Transaction → Bool
  | v1 .. | v2 .. => false
  | v3 .. | v4 .. | v5 .. => true

def version : Transaction → Nat
  | v1 .. => 1
  | v2 .. => 2
  | v3 .. => 3
  | v4 .. => 4
  | v5 .. => 5

def networkUpgrade : Transaction → Option NetworkUpgrade
  | v1 .. | v2 .. | v3 .. | v4 .. => none
  | v5 nu .. => some nu

/-- The version in the low 31 bits, and the overwintered flag above them. -/
def writeHeader (tx : Transaction) : Write :=
  writeU32 (.ofNat ((if tx.isOverwintered then 2 ^ 31 else 0) + tx.version))

def serializeV4Sapling : Option (Sapling.ShieldedData .perSpendAnchor) → Write
  | none => writeAll [.ok (Bytes.ofInt 8 0), zcashSerializeEmptyList, zcashSerializeEmptyList]
  | some data => writeAll [zcashSerialize data.valueBalance, zcashSerialize data.transfers.spends,
      zcashSerialize (data.transfers.outputs.map Sapling.OutputInTransactionV4.mk)]

def writeV4BindingSig : Option (Sapling.ShieldedData .perSpendAnchor) → Write
  | none => .ok []
  | some data => writeExact data.bindingSig

def serializeBody : Transaction → Write
  | v1 inputs outputs lockTime => writeAll [zcashSerialize inputs, zcashSerialize outputs, zcashSerialize lockTime]
  | v2 inputs outputs lockTime joinsplitData =>
    writeAll [zcashSerialize inputs, zcashSerialize outputs, zcashSerialize lockTime, zcashSerialize joinsplitData]
  | v3 inputs outputs lockTime expiryHeight joinsplitData =>
    writeAll [writeU32 overwinterVersionGroupId, zcashSerialize inputs, zcashSerialize outputs,
      zcashSerialize lockTime, writeU32 expiryHeight, zcashSerialize joinsplitData]
  | v4 inputs outputs lockTime expiryHeight joinsplitData saplingShieldedData =>
    writeAll [writeU32 saplingVersionGroupId, zcashSerialize inputs, zcashSerialize outputs, zcashSerialize lockTime,
      writeU32 expiryHeight, serializeV4Sapling saplingShieldedData, zcashSerialize joinsplitData,
      writeV4BindingSig saplingShieldedData]
  | v5 networkUpgrade lockTime expiryHeight inputs outputs saplingShieldedData orchardShieldedData =>
    writeAll [writeU32 txV5VersionGroupId, writeBranchId networkUpgrade, zcashSerialize lockTime,
      writeU32 expiryHeight, zcashSerialize inputs, zcashSerialize outputs, zcashSerialize saplingShieldedData,
      zcashSerialize orchardShieldedData]

instance : ZcashSerialize Transaction := ⟨fun tx => writeAll [tx.writeHeader, tx.serializeBody]⟩

def deserializeV1 : Read Transaction := do
  let inputs ← zcashDeserialize
  let outputs ← zcashDeserialize
  let lockTime ← zcashDeserialize
  return v1 inputs outputs lockTime

def deserializeV2 : Read Transaction := do
  let inputs ← zcashDeserialize
  let outputs ← zcashDeserialize
  let lockTime ← zcashDeserialize
  let joinsplitData ← zcashDeserialize
  return v2 inputs outputs lockTime joinsplitData

def deserializeV3 : Read Transaction := do
  readVersionGroupId overwinterVersionGroupId "expected OVERWINTER_VERSION_GROUP_ID"
  let inputs ← zcashDeserialize
  let outputs ← zcashDeserialize
  let lockTime ← zcashDeserialize
  let expiryHeight ← readU32
  let joinsplitData ← zcashDeserialize
  return v3 inputs outputs lockTime expiryHeight joinsplitData

def v4Transfers (valueBalance : Amount .negativeAllowed) (spends : List (Sapling.Spend .perSpendAnchor))
    (outputs : List Sapling.Output) : Exec SerializationError (Option (Sapling.TransferData .perSpendAnchor)) :=
  if spends.isEmpty = false then do
    let spends ← expect (AtLeastOne.tryFrom spends) .shieldedSpends
    return some (.spendsAndMaybeOutputs () spends outputs)
  else if outputs.isEmpty = false then do
    let outputs ← expect (AtLeastOne.tryFrom outputs) .shieldedOutputs
    return some (.justOutputs outputs)
  else if valueBalance.zatoshis ≠ 0 then .fail .badTransactionBalance
  else return none

/-- The binding signature, which is the last field of a transaction with spends or outputs. -/
def readV4ShieldedData (valueBalance : Amount .negativeAllowed) :
    Option (Sapling.TransferData .perSpendAnchor) → Read (Option (Sapling.ShieldedData .perSpendAnchor))
  | some transfers => do
    let bindingSig ← readExact 64
    return some { valueBalance, transfers, bindingSig }
  | none => return none

def readV4Spends (isCoinbase : Bool) : Read (List (Sapling.Spend .perSpendAnchor)) := do
  let spendCount ← (zcashDeserialize : Read CompactSizeMessage)
  if isCoinbase ∧ 0 < spendCount.toUsize then .parse "coinbase transaction must not have Sapling spends"
  else zcashDeserializeExternalCount spendCount.toUsize

def deserializeV4 : Read Transaction := do
  readVersionGroupId saplingVersionGroupId "expected SAPLING_VERSION_GROUP_ID"
  let inputs ← zcashDeserialize
  let outputs ← zcashDeserialize
  let lockTime ← zcashDeserialize
  let expiryHeight ← readU32
  let valueBalance ← zcashDeserialize
  let shieldedSpends ← readV4Spends (isCoinbase inputs)
  let shieldedOutputs ← (zcashDeserialize : Read (List Sapling.OutputInTransactionV4))
  let joinsplitData ← zcashDeserialize
  let transfers ← .lift (v4Transfers valueBalance shieldedSpends (shieldedOutputs.map (·.output)))
  let saplingShieldedData ← readV4ShieldedData valueBalance transfers
  return v4 inputs outputs lockTime expiryHeight joinsplitData saplingShieldedData

theorem readV4Spends_reads (isCoinbase : Bool) :
    Reads (readV4Spends isCoinbase) fun spends read => zcashSerialize spends = .ok read := by
  refine CompactSizeMessage.reads.bind fun count _ ⟨hsize, htry⟩ => .ite (fun _ => reads_fail _) fun _ => ?_
  refine (Sapling.Spend.canonical_perSpendAnchor.externalCount _).mono fun spends _ ⟨hlen, hspends⟩ => ?_
  exact Vec.zcashSerialize_eq_ok (hlen ▸ htry) hsize hspends

variable {valueBalance : Amount .negativeAllowed} {spends : List (Sapling.Spend .perSpendAnchor)}
  {transfers : Option (Sapling.TransferData .perSpendAnchor)}

/-- The transfers of a version 4 transaction are absent only if there is nothing to transfer. -/
theorem v4Transfers_eq_ok {outputs : List Sapling.Output}
    (h : v4Transfers valueBalance spends outputs = .ok transfers) :
    (transfers = none ∧ spends = [] ∧ outputs = [] ∧ valueBalance.zatoshis = 0) ∨
      ∃ t, transfers = some t ∧ t.spends = spends ∧ t.outputs = outputs := by
  rw [v4Transfers] at h
  split at h
  · obtain ⟨some, hsome, h⟩ := bind_eq_ok.1 h
    cases h
    exact .inr ⟨_, rfl, AtLeastOne.tryFrom_eq_some (expect_eq_ok.1 hsome), rfl⟩
  · rename_i hspends
    have hnone : spends = [] := List.isEmpty_iff.1 (Bool.not_eq_false _ ▸ hspends)
    split at h
    · obtain ⟨some, hsome, h⟩ := bind_eq_ok.1 h
      cases h
      exact .inr ⟨_, rfl, hnone.symm, AtLeastOne.tryFrom_eq_some (expect_eq_ok.1 hsome)⟩
    · rename_i houtputs
      split at h
      · cases h
      · rename_i hzero
        refine .inl ⟨(Except.ok.inj h).symm, hnone, ?_, not_not.1 hzero⟩
        exact List.isEmpty_iff.1 (Bool.not_eq_false _ ▸ houtputs)

theorem readV4ShieldedData_reads {outputs : List Sapling.OutputInTransactionV4} {balanceRead spendsRead outputsRead : Bytes}
    (htransfers : v4Transfers valueBalance spends (outputs.map (·.output)) = .ok transfers)
    (hbalance : zcashSerialize valueBalance = .ok balanceRead) (hspends : zcashSerialize spends = .ok spendsRead)
    (houtputs : zcashSerialize outputs = .ok outputsRead) :
    Reads (readV4ShieldedData valueBalance transfers) fun data read =>
      serializeV4Sapling data = .ok (balanceRead ++ (spendsRead ++ (outputsRead ++ []))) ∧
        writeV4BindingSig data = .ok read := by
  have hbody := writeAll_cons hbalance (writeAll_cons hspends (writeAll_cons houtputs writeAll_nil))
  obtain ⟨rfl, rfl, hnil, hzero⟩ | ⟨t, rfl, rfl, hout⟩ := v4Transfers_eq_ok htransfers
  · obtain rfl := List.map_eq_nil_iff.1 hnil
    refine reads_pure ⟨?_, rfl⟩
    have hbalance' : zcashSerialize valueBalance = .ok (Bytes.ofInt 8 0) := by
      rw [← hzero]
      rfl
    rw [← hbody, hbalance']
    rfl
  · refine (readExact_writes 64).bind fun sig _ hsig => reads_pure ⟨?_, by rwa [List.append_nil]⟩
    have hmk : (outputs.map (·.output)).map Sapling.OutputInTransactionV4.mk = outputs := by
      rw [List.map_map]
      exact List.map_id _
    rw [← hbody, serializeV4Sapling, hout, hmk]

theorem deserializeV1_reads : Reads deserializeV1 fun tx read =>
    tx.version = 1 ∧ tx.isOverwintered = false ∧ tx.serializeBody = .ok read := by
  refine Input.canonical.vec.bind fun _ _ hinputs => Output.canonical.vec.bind fun _ _ houtputs => ?_
  refine LockTime.canonical.bind fun _ _ hlock => reads_pure ⟨rfl, rfl, ?_⟩
  exact writeAll_cons hinputs (writeAll_cons houtputs (writeAll_cons hlock writeAll_nil))

theorem deserializeV2_reads : Reads deserializeV2 fun tx read =>
    tx.version = 2 ∧ tx.isOverwintered = false ∧ tx.serializeBody = .ok read := by
  refine Input.canonical.vec.bind fun _ _ hinputs => Output.canonical.vec.bind fun _ _ houtputs => ?_
  refine LockTime.canonical.bind fun _ _ hlock => JoinSplitData.canonical.bind fun _ _ hjoinsplits => ?_
  refine reads_pure ⟨rfl, rfl, ?_⟩
  have hrest := writeAll_cons hlock (writeAll_cons hjoinsplits writeAll_nil)
  exact writeAll_cons hinputs (writeAll_cons houtputs hrest)

theorem deserializeV3_reads : Reads deserializeV3 fun tx read =>
    tx.version = 3 ∧ tx.isOverwintered = true ∧ tx.serializeBody = .ok read := by
  refine (readVersionGroupId_reads _ _).bind fun _ _ hid => ?_
  refine Input.canonical.vec.bind fun _ _ hinputs => Output.canonical.vec.bind fun _ _ houtputs => ?_
  refine LockTime.canonical.bind fun _ _ hlock => readU32_reads.bind fun _ _ hexpiry => ?_
  refine JoinSplitData.canonical.bind fun _ _ hjoinsplits => reads_pure ⟨rfl, rfl, ?_⟩
  have hrest := writeAll_cons hlock (writeAll_cons hexpiry (writeAll_cons hjoinsplits writeAll_nil))
  exact writeAll_cons hid (writeAll_cons hinputs (writeAll_cons houtputs hrest))

theorem deserializeV4_reads : Reads deserializeV4 fun tx read =>
    tx.version = 4 ∧ tx.isOverwintered = true ∧ tx.serializeBody = .ok read := by
  refine (readVersionGroupId_reads _ _).bind fun _ _ hid => ?_
  refine Input.canonical.vec.bind fun _ _ hinputs => Output.canonical.vec.bind fun _ _ houtputs => ?_
  refine LockTime.canonical.bind fun _ _ hlock => readU32_reads.bind fun _ _ hexpiry => ?_
  refine Amount.canonical_negativeAllowed.bind fun balance _ hbalance => ?_
  refine (readV4Spends_reads _).bind fun spends _ hspends => ?_
  refine Sapling.OutputInTransactionV4.canonical.vec.bind fun shieldedOutputs _ hshielded => ?_
  refine JoinSplitData.canonical.bind fun _ _ hjoinsplits => ?_
  refine Reads.bind (P := fun transfers read =>
      v4Transfers balance spends (shieldedOutputs.map (·.output)) = .ok transfers ∧ read = [])
    (reads_lift fun _ h => ⟨h, rfl⟩) ?_
  rintro transfers _ ⟨htransfers, rfl⟩
  refine (readV4ShieldedData_reads htransfers hbalance hspends hshielded).bind fun _ _ ⟨hbody, hsig⟩ => ?_
  refine reads_pure ⟨rfl, rfl, ?_⟩
  have hsapling := writeAll_cons hbody (writeAll_cons hjoinsplits (writeAll_cons hsig writeAll_nil))
  have hrest := writeAll_cons houtputs (writeAll_cons hlock (writeAll_cons hexpiry hsapling))
  have hwrite := writeAll_cons hid (writeAll_cons hinputs hrest)
  simp only [List.append_assoc, List.nil_append] at hwrite ⊢
  exact hwrite

theorem writeHeader_eq {tx : Transaction} {header : UInt32} (hversion : tx.version = header.toNat % 2 ^ 31)
    (hflag : tx.isOverwintered = decide (header.toNat / 2 ^ 31 ≠ 0)) : tx.writeHeader = writeU32 header := by
  have hlt : header.toNat < 2 ^ 32 := header.toNat_lt
  have hvalue : (if tx.isOverwintered then 2 ^ 31 else 0) + tx.version = header.toNat := by
    rw [hversion, hflag]
    split
    · rename_i h
      have := of_decide_eq_true h
      omega
    · rename_i h
      have := of_decide_eq_false (Bool.eq_false_iff.2 h)
      omega
  rw [writeHeader, hvalue, UInt32.ofNat_toNat]

variable [Librustzcash]

/-- Whether `librustzcash` reads what this transaction is written as. -/
def toLibrustzcash (tx : Transaction) (nu : NetworkUpgrade) : Exec SerializationError Unit :=
  if tx.networkUpgrade.any (· ≠ nu) then .fail (.parse "invalid consensus branch id")
  else
    match NetworkUpgrade.branchId nu with
    | none => .fail (.parse "invalid consensus branch id")
    | some branchId =>
      if Librustzcash.isBranchId branchId then do
        let bytes ← (zcashSerialize tx).mapErr .io
        (Librustzcash.readTransaction bytes branchId).mapError fun e => .error (.io e)
      else .fail (.parse "invalid consensus branch id")

def deserializeV5 : Read Transaction := do
  readVersionGroupId txV5VersionGroupId "expected TX_V5_VERSION_GROUP_ID"
  let networkUpgrade ← readNetworkUpgrade
  let lockTime ← zcashDeserialize
  let expiryHeight ← readU32
  let inputs ← zcashDeserialize
  let outputs ← zcashDeserialize
  let saplingShieldedData ← Sapling.deserializeV5SaplingShieldedData (isCoinbase inputs)
  let orchardShieldedData ← zcashDeserialize
  let tx := v5 networkUpgrade lockTime expiryHeight inputs outputs saplingShieldedData orchardShieldedData
  .lift (tx.toLibrustzcash networkUpgrade)
  return tx

def deserializeVersion (version : Nat) (overwintered : Bool) : Read Transaction :=
  match version, overwintered with
  | 1, false => deserializeV1
  | 2, false => deserializeV2
  | 3, true => deserializeV3
  | 4, true => deserializeV4
  | 5, true => deserializeV5
  | _, _ => .parse "bad tx header"

instance : ZcashDeserialize Transaction where
  zcashDeserialize := Reader.limit maxBlockBytes do
    let header ← readU32
    deserializeVersion (header.toNat % 2 ^ 31) (decide (header.toNat / 2 ^ 31 ≠ 0))

theorem deserializeV5_reads : Reads deserializeV5 fun tx read =>
    tx.version = 5 ∧ tx.isOverwintered = true ∧ tx.serializeBody = .ok read := by
  refine (readVersionGroupId_reads _ _).bind fun _ _ hid => readNetworkUpgrade_reads.bind fun nu _ hnu => ?_
  refine LockTime.canonical.bind fun _ _ hlock => readU32_reads.bind fun _ _ hexpiry => ?_
  refine Input.canonical.vec.bind fun _ _ hinputs => Output.canonical.vec.bind fun _ _ houtputs => ?_
  refine (Sapling.deserializeV5SaplingShieldedData_reads _).bind fun _ _ hsapling => ?_
  refine Orchard.ShieldedData.canonical.bind fun _ _ horchard => ?_
  refine Reads.bind (reads_lift fun _ _ => rfl) ?_
  rintro _ _ rfl
  refine reads_pure ⟨rfl, rfl, ?_⟩
  have hshielded := writeAll_cons hsapling (writeAll_cons horchard writeAll_nil)
  have hrest := writeAll_cons hexpiry (writeAll_cons hinputs (writeAll_cons houtputs hshielded))
  exact writeAll_cons hid (writeAll_cons hnu (writeAll_cons hlock hrest))

theorem deserializeVersion_reads (version : Nat) (overwintered : Bool) :
    Reads (deserializeVersion version overwintered) fun tx read =>
      tx.version = version ∧ tx.isOverwintered = overwintered ∧ tx.serializeBody = .ok read := by
  unfold deserializeVersion
  split
  · exact deserializeV1_reads
  · exact deserializeV2_reads
  · exact deserializeV3_reads
  · exact deserializeV4_reads
  · exact deserializeV5_reads
  · exact reads_fail _

theorem canonical : Canonical Transaction := by
  refine Reads.limit (readU32_reads.bind fun header _ hheader => ?_) maxBlockBytes
  refine (deserializeVersion_reads _ _).mono fun tx read ⟨hversion, hflag, hbody⟩ => ?_
  have hwrite := writeAll_cons ((writeHeader_eq hversion hflag).trans hheader) (writeAll_cons hbody writeAll_nil)
  rw [List.append_nil] at hwrite
  exact hwrite

end Transaction

end transactions

end Zebra.Serialization
