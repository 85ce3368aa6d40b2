import Zebra.Amount
import Zebra.Lib.Bytes
import Zebra.Lib.Reader
import Zebra.Panic

/-! Reading and writing the consensus encoding: integers, sizes, vectors and amounts. Each reader
comes with what its value is written as. -/

namespace Zebra.Serialization

open Lib Reader Outcome

inductive IoError where
  | unexpectedEof
  | invalidData (message : String)
  -- invalid data that keeps the amount error as its source
  | invalidAmount (source : AmountError)
  | invalidConversion (value : Nat)
  | other (message : String)
deriving DecidableEq

inductive SerializationError where
  | io (source : IoError)
  | parse (message : String)
  | tryFromInt
  | amount (source : AmountError)
  -- `amount::Error::Convert`: an unsigned number that does not fit in an `i64`
  | amountConvert (value : Nat)
  | badTransactionBalance
deriving DecidableEq

def SerializationError.toIoError : SerializationError → IoError
  | io source => source
  | parse message => .invalidData message
  | tryFromInt => .invalidData "out of range integral type conversion attempted"
  | amount source => .invalidAmount source
  | amountConvert value => .invalidConversion value
  | badTransactionBalance =>
    .invalidData "bad transaction balance: non-zero with no Sapling shielded spends or outputs"

abbrev Read (α : Type) := Reader (Fault Panic SerializationError) UInt8 α

/-- What a writer receives. The bytes before an error are not kept. -/
abbrev Write := Exec IoError Bytes

variable {α : Type}

def Read.parse (message : String) : Read α := Reader.fail (.error (.parse message))

/-- `[u8; n]`. -/
abbrev Octets (n : Nat) := List.Vector UInt8 n

def readExact (n : Nat) : Read (Octets n) := exactly (.error (.io .unexpectedEof)) n

def writeExact {n : Nat} (bytes : Octets n) : Write := .ok bytes.toList

def readUInt (w : Nat) : Read Nat := do
  let bytes ← readExact w
  return Bytes.ofLE bytes.toList

def writeUInt (w n : Nat) : Write := .ok (Bytes.toLE w n)

def readU32 : Read UInt32 := do
  let n ← readUInt 4
  return .ofNat n

def writeU32 (n : UInt32) : Write := writeUInt 4 n.toNat

def writeAll : List Write → Write
  | [] => .ok []
  | first :: others => do
    let bytes ← first
    let rest ← writeAll others
    return bytes ++ rest

theorem writeAll_nil : writeAll [] = .ok [] := rfl

variable {bytes read : Bytes} {as : List α} {len : CompactSizeMessage}

theorem writeAll_cons {first : Write} {others : List Write} {rest : Bytes} (hfirst : first = .ok bytes)
    (hothers : writeAll others = .ok rest) : writeAll (first :: others) = .ok (bytes ++ rest) := by
  rw [writeAll, hfirst, hothers]
  rfl

theorem readExact_reads (n : Nat) : Reads (readExact n) fun bytes read => read = bytes.toList := reads_exactly _ n

theorem readExact_writes (n : Nat) : Reads (readExact n) fun bytes read => writeExact bytes = .ok read :=
  (readExact_reads n).mono fun _ _ h => by rw [h, writeExact]

theorem readUInt_reads (w : Nat) : Reads (readUInt w) fun n read => n < 256 ^ w ∧ writeUInt w n = .ok read:= by
  refine (readExact_reads w).bind ?_
  rintro bytes _ rfl
  have hlen : bytes.toList.length = w := bytes.toList_length
  refine reads_pure ⟨?_, ?_⟩
  · have hlt := Bytes.ofLE_lt bytes.toList
    rwa [hlen] at hlt
  · have hle := Bytes.toLE_ofLE bytes.toList
    rw [hlen] at hle
    rw [writeUInt, hle, List.append_nil]

theorem readU32_reads : Reads readU32 fun n read => writeU32 n = .ok read := by
  refine (readUInt_reads 4).bind fun n read h => reads_pure ?_
  rw [writeU32, UInt32.toNat_ofNat_of_lt' h.1, h.2, List.append_nil]

class ZcashSerialize (α : Type) where
  zcashSerialize : α → Write

class ZcashDeserialize (α : Type) where
  zcashDeserialize : Read α

class TrustedPreallocate (α : Type) where
  maxAllocation : Nat

export ZcashSerialize (zcashSerialize)
export ZcashDeserialize (zcashDeserialize)
export TrustedPreallocate (maxAllocation)

/-- A value is written back as the bytes it was read from. -/
def Canonical (α : Type) [ZcashSerialize α] [ZcashDeserialize α] : Prop :=
  Reads (zcashDeserialize : Read α) fun a read => zcashSerialize a = .ok read

def maxProtocolMessageLen : Nat := 2 * 1024 * 1024

def maxU8Allocation : Nat := maxProtocolMessageLen - 5

def maxBlockBytes : Nat := 2000000

structure CompactSize64 where
  size : UInt64
deriving DecidableEq

namespace CompactSize64

instance : ZcashSerialize CompactSize64 where
  zcashSerialize s :=
    let n := s.size.toNat
    if n ≤ 0xfc then writeUInt 1 n
    else if n ≤ 0xffff then writeAll [writeUInt 1 0xfd, writeUInt 2 n]
    else if n ≤ 0xffffffff then writeAll [writeUInt 1 0xfe, writeUInt 4 n]
    else writeAll [writeUInt 1 0xff, writeUInt 8 n]

/-- The integer of `w` bytes after a flag byte, at least the first one that has no shorter encoding. -/
def readFlagged (w least : Nat) : Read CompactSize64 := do
  let n ← readUInt w
  if least ≤ n then return ⟨.ofNat n⟩ else .parse "non-canonical CompactSize"

instance : ZcashDeserialize CompactSize64 where
  zcashDeserialize := do
    let flagByte ← readUInt 1
    if flagByte ≤ 0xfc then return ⟨.ofNat flagByte⟩
    else if flagByte = 0xfd then readFlagged 2 0xfd
    else if flagByte = 0xfe then readFlagged 4 0x10000
    else readFlagged 8 0x100000000

theorem readFlagged_reads {w least : Nat} (hw : 256 ^ w ≤ 2 ^ 64) : Reads (readFlagged w least) fun s read =>
      least ≤ s.size.toNat ∧ s.size.toNat < 256 ^ w ∧ writeUInt w s.size.toNat = .ok read := by
  refine (readUInt_reads w).bind fun n read h => .ite (fun hleast => reads_pure ?_) fun _ => reads_fail _
  have hsize : (UInt64.ofNat n).toNat = n := UInt64.toNat_ofNat_of_lt' (h.1.trans_le hw)
  rw [List.append_nil, hsize]
  exact ⟨hleast, h⟩

theorem canonical : Canonical CompactSize64 := by
  refine (readUInt_reads 1).bind fun flagByte read ⟨hlt, hflag⟩ => ?_
  -- the value that follows a flag byte is in the range that is written with this flag
  have flagged {w least : Nat} (hw : 256 ^ w ≤ 2 ^ 64)
      (hwrite : ∀ s : CompactSize64, least ≤ s.size.toNat → s.size.toNat < 256 ^ w →
        zcashSerialize s = writeAll [writeUInt 1 flagByte, writeUInt w s.size.toNat]) :
      Reads (readFlagged w least) fun s read' => zcashSerialize s = .ok (read ++ read') := by
    refine (readFlagged_reads hw).mono fun s read' ⟨hleast, hbelow, hs⟩ => ?_
    rw [hwrite s hleast hbelow, ← List.append_nil read']
    exact writeAll_cons hflag (writeAll_cons hs writeAll_nil)
  refine .ite (fun hsmall => reads_pure ?_) fun hsmall => .ite (fun hfd => ?_) fun hfd =>
    .ite (fun hfe => ?_) fun hfe => ?_
  · have hsize : (UInt64.ofNat flagByte).toNat = flagByte := UInt64.toNat_ofNat_of_lt' (by simp only [UInt64.size]; omega)
    rw [zcashSerialize, List.append_nil]
    simp only [instZcashSerialize, hsize, if_pos hsmall]
    exact hflag
  all_goals
    refine flagged (by decide) fun s hleast hbelow => ?_
    simp only [zcashSerialize]
  · rw [if_neg (by omega), if_pos (by omega), hfd]
  · rw [if_neg (by omega), if_neg (by omega), if_pos (by omega), hfe]
  · rw [if_neg (by omega), if_neg (by omega), if_neg (by omega), show flagByte = 0xff by omega]

end CompactSize64

structure CompactSizeMessage where
  size : UInt32
deriving DecidableEq

namespace CompactSizeMessage

def tryFrom (size : Nat) : Except SerializationError CompactSizeMessage :=
  if 2 ^ 32 ≤ size then .error .tryFromInt
  else if maxProtocolMessageLen < size then .error (.parse "CompactSize larger than protocol message limit")
  else .ok ⟨.ofNat size⟩

def toUsize (s : CompactSizeMessage) : Nat := s.size.toNat

instance : ZcashSerialize CompactSizeMessage where
  zcashSerialize s := do
    check (s.size.toNat ≤ maxProtocolMessageLen) .compactSizeLimit
    zcashSerialize (CompactSize64.mk (.ofNat s.size.toNat))

instance : ZcashDeserialize CompactSizeMessage where
  zcashDeserialize := do
    let size ← (zcashDeserialize : Read CompactSize64)
    .lift ((tryFrom size.size.toNat).mapError .error)

theorem zcashSerialize_eq (s : CompactSizeMessage) : zcashSerialize s = (do
    check (s.size.toNat ≤ maxProtocolMessageLen) .compactSizeLimit
    zcashSerialize (CompactSize64.mk (.ofNat s.size.toNat))) := rfl

theorem tryFrom_eq_ok {size : Nat} {s : CompactSizeMessage} (h : tryFrom size = .ok s) :
    s.toUsize = size ∧ size ≤ maxProtocolMessageLen := by
  rw [tryFrom] at h
  split at h
  · cases h
  · split at h
    · cases h
    · cases h
      exact ⟨UInt32.toNat_ofNat_of_lt' (by simp only [UInt32.size]; omega), by omega⟩

theorem reads : Reads (zcashDeserialize : Read CompactSizeMessage) fun s read =>
    zcashSerialize s = .ok read ∧ tryFrom s.toUsize = .ok s := by
  refine CompactSize64.canonical.bind fun size read hsize => reads_lift fun s hs => ?_
  have htry := mapError_eq_ok.1 hs
  obtain ⟨heq, hle⟩ := tryFrom_eq_ok htry
  refine ⟨?_, heq ▸ htry⟩
  have hof : UInt64.ofNat s.size.toNat = size.size := by
    rw [show s.size.toNat = size.size.toNat from heq, UInt64.ofNat_toNat]
  have hlimit : (check (s.size.toNat ≤ maxProtocolMessageLen) .compactSizeLimit : Exec IoError Unit) = .ok () :=
    if_pos (heq.trans_le hle)
  rw [zcashSerialize_eq, hlimit, hof, List.append_nil]
  exact hsize

end CompactSizeMessage

def zcashSerializeEmptyList : Write := zcashSerialize (CompactSizeMessage.mk 0)

section vectors

variable [ZcashSerialize α] [ZcashDeserialize α] [TrustedPreallocate α]

def zcashSerializeExternalCount (vec : List α) : Write := writeAll (vec.map zcashSerialize)

def zcashDeserializeExternalCount (externalCount : Nat) : Read (List α) :=
  if maxAllocation α < externalCount then .parse "Vector longer than max_allocation"
  else Reader.times zcashDeserialize externalCount

def Vec.zcashSerialize (vec : List α) : Write := do
  let len ← expect (CompactSizeMessage.tryFrom vec.length).toOption .vectorLength
  writeAll [ZcashSerialize.zcashSerialize len, zcashSerializeExternalCount vec]

def Vec.zcashDeserialize : Read (List α) := do
  let len ← (ZcashDeserialize.zcashDeserialize : Read CompactSizeMessage)
  zcashDeserializeExternalCount len.toUsize

instance : ZcashSerialize (List α) := ⟨Vec.zcashSerialize⟩

instance : ZcashDeserialize (List α) := ⟨Vec.zcashDeserialize⟩

omit [ZcashDeserialize α] [TrustedPreallocate α] in
theorem writeAll_of_each (h : Each (fun a part => zcashSerialize a = .ok part) as read) :
    zcashSerializeExternalCount as = .ok read := by
  obtain ⟨parts, hparts, rfl⟩ := h
  rw [zcashSerializeExternalCount]
  induction hparts with
  | nil => rfl
  | cons ha _ ih => exact writeAll_cons ha ih

theorem Canonical.externalCount (h : Canonical α) (count : Nat) :
    Reads (zcashDeserializeExternalCount count) fun (as : List α) read =>
      as.length = count ∧ zcashSerializeExternalCount as = .ok read :=
  .ite (fun _ => reads_fail _) fun _ => (h.times count).mono fun _ _ has => ⟨has.1, writeAll_of_each has.2⟩

omit [ZcashDeserialize α] [TrustedPreallocate α] in
theorem Vec.zcashSerialize_eq_ok {read' : Bytes}
    (hlen : CompactSizeMessage.tryFrom as.length = .ok len) (hsize : ZcashSerialize.zcashSerialize len = .ok read)
    (has : zcashSerializeExternalCount as = .ok read') : Vec.zcashSerialize as = .ok (read ++ read') := by
  rw [Vec.zcashSerialize, hlen]
  have hwrite := writeAll_cons hsize (writeAll_cons has writeAll_nil)
  rwa [List.append_nil] at hwrite

omit [ZcashDeserialize α] [TrustedPreallocate α] in
theorem zcashSerializeEmptyList_eq : zcashSerializeEmptyList = zcashSerialize ([] : List α) := rfl

theorem Canonical.vec (h : Canonical α) : Canonical (List α) := by
  refine CompactSizeMessage.reads.bind fun len read ⟨hsize, htry⟩ => ?_
  refine (h.externalCount len.toUsize).mono fun as read' ⟨hlen, has⟩ => ?_
  exact Vec.zcashSerialize_eq_ok (hlen ▸ htry) hsize has

end vectors

def zcashSerializeBytes (vec : Bytes) : Write := do
  let len ← (CompactSizeMessage.tryFrom vec.length).mapError fun e => .error e.toIoError
  writeAll [zcashSerialize len, .ok vec]

def zcashDeserializeBytesExternalCount (externalCount : Nat) : Read Bytes :=
  if maxU8Allocation < externalCount then .parse "Byte vector longer than MAX_U8_ALLOCATION"
  else do
    let bytes ← readExact externalCount
    return bytes.toList

def zcashDeserializeBytes : Read Bytes := do
  let len ← (zcashDeserialize : Read CompactSizeMessage)
  zcashDeserializeBytesExternalCount len.toUsize

theorem bytesExternalCount_reads (count : Nat) :
    Reads (zcashDeserializeBytesExternalCount count) fun bytes read => read = bytes ∧ bytes.length = count := by
  refine .ite (fun _ => reads_fail _) fun _ => (readExact_reads count).bind ?_
  rintro bytes _ rfl
  exact reads_pure ⟨List.append_nil _, bytes.toList_length⟩

theorem zcashSerializeBytes_eq_ok
    (hlen : CompactSizeMessage.tryFrom bytes.length = .ok len) (hsize : zcashSerialize len = .ok read) :
    zcashSerializeBytes bytes = .ok (read ++ bytes) := by
  rw [zcashSerializeBytes, hlen]
  have hwrite := writeAll_cons hsize (writeAll_cons (rfl : (.ok bytes : Write) = .ok bytes) writeAll_nil)
  rwa [List.append_nil] at hwrite

theorem zcashDeserializeBytes_reads :
    Reads zcashDeserializeBytes fun bytes read => zcashSerializeBytes bytes = .ok read := by
  refine CompactSizeMessage.reads.bind fun len read ⟨hsize, htry⟩ => ?_
  refine (bytesExternalCount_reads len.toUsize).mono fun bytes read' h => ?_
  obtain ⟨rfl, hlen⟩ := h
  exact zcashSerializeBytes_eq_ok (hlen ▸ htry) hsize

instance : ZcashSerialize (Amount .negativeAllowed) := ⟨fun a => .ok (Bytes.ofInt 8 a.zatoshis)⟩

instance : ZcashDeserialize (Amount .negativeAllowed) where
  zcashDeserialize := do
    let bytes ← readExact 8
    .lift ((Amount.tryFrom .negativeAllowed (Bytes.toInt bytes.toList)).mapError fun e => .error (.amount e))

instance : ZcashSerialize (Amount .nonNegative) where
  zcashSerialize a := do
    let amount ← expect (if 0 ≤ a.zatoshis then some a.zatoshis.toNat else none) .negativeAmount
    writeUInt 8 amount

instance : ZcashDeserialize (Amount .nonNegative) where
  zcashDeserialize := do
    let n ← readUInt 8
    if 2 ^ 63 ≤ n then .fail (.error (.amountConvert n))
    else .lift ((Amount.tryFrom .nonNegative n).mapError fun e => .error (.amount e))

theorem Amount.tryFrom_eq_ok {C : Constraint} {value : Int} {a : Amount C} (h : Amount.tryFrom C value = .ok a) :
    a.zatoshis = value := by
  rw [Amount.tryFrom] at h
  split at h
  · exact (congrArg Amount.zatoshis (Except.ok.inj h)).symm
  · cases h

theorem Amount.canonical_negativeAllowed : Canonical (Amount .negativeAllowed) := by
  refine (readExact_reads 8).bind fun bytes read hread => reads_lift fun a ha => ?_
  have hvalue := Amount.tryFrom_eq_ok (mapError_eq_ok.1 ha)
  have hbytes := Bytes.ofInt_toInt bytes.toList
  rw [bytes.toList_length, ← hvalue] at hbytes
  simp only [zcashSerialize]
  rw [hbytes, hread, List.append_nil]

theorem Amount.canonical_nonNegative : Canonical (Amount .nonNegative) := by
  refine (readUInt_reads 8).bind fun n read hn => .ite (fun _ => reads_fail _) fun _ => reads_lift fun a ha => ?_
  have hvalue := Amount.tryFrom_eq_ok (mapError_eq_ok.1 ha)
  have hnat : a.zatoshis.toNat = n := by omega
  simp only [zcashSerialize]
  rw [if_pos (by omega), hnat, List.append_nil]
  exact hn.2

inductive LockTime where
  | height (n : UInt32)
  | time (timestamp : Int)
deriving DecidableEq

namespace LockTime

def minTimestamp : Nat := 500000000

instance : ZcashSerialize LockTime where
  zcashSerialize
    | height n => writeU32 n
    | time t => do
      let timestamp ← expect (if 0 ≤ t ∧ t < 2 ^ 32 then some t.toNat else none) .lockTimeRange
      writeU32 (.ofNat timestamp)

instance : ZcashDeserialize LockTime where
  zcashDeserialize := do
    let n ← readU32
    if n.toNat < minTimestamp then return height n else return time n.toNat

theorem canonical : Canonical LockTime := by
  refine readU32_reads.bind fun n read hn => .ite (fun _ => reads_pure ?_) fun _ => reads_pure ?_
  · rw [List.append_nil]
    exact hn
  · have hlt : n.toNat < 2 ^ 32 := n.toNat_lt
    simp only [zcashSerialize]
    rw [if_pos (by omega), Int.toNat_natCast, List.append_nil]
    simpa only [expect, ok_bind, UInt32.ofNat_toNat] using hn

end LockTime

end Zebra.Serialization
