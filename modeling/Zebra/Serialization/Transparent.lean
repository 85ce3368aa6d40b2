import Zebra.Network
import Zebra.Serialization.Basic

namespace Zebra.Serialization

open Lib Reader

def maxCoinbaseDataLen : Nat := 100

def minCoinbaseDataLen : Nat := 2

def genesisCoinbaseData : Bytes :=
  [4, 255, 255, 7, 31, 1, 4, 69, 90, 99, 97, 115, 104, 48, 98, 57, 99, 52, 101, 101, 102, 56, 98,
   55, 99, 99, 52, 49, 55, 101, 101, 53, 48, 48, 49, 101, 51, 53, 48, 48, 57, 56, 52, 98, 54, 102,
   101, 97, 51, 53, 54, 56, 51, 97, 55, 99, 97, 99, 49, 52, 49, 97, 48, 52, 51, 99, 52, 50, 48,
   54, 52, 56, 51, 53, 100, 51, 52]

structure OutPoint where
  hash : Octets 32
  index : UInt32
deriving DecidableEq

instance : ZcashSerialize OutPoint where
  zcashSerialize o := writeAll [writeExact o.hash, writeU32 o.index]

/-- A height that the coinbase script pushes as `w` little-endian bytes, the last of them below
`0x80`, and the data after it. -/
def parsePushedHeight (w least most : Nat) (data : Bytes) : Except SerializationError (Nat × Bytes) :=
  if w + 1 ≤ data.length ∧ (data.getD w 0).toNat < 0x80 then
    let h := Bytes.ofLE ((data.drop 1).take w)
    if least ≤ h ∧ h ≤ most then .ok (h, data.drop (w + 1)) else .error (.parse "Invalid block height")
  else .error (.parse "Could not parse BIP34 height in coinbase data")

def parseCoinbaseHeight (data : Bytes) : Except SerializationError (Nat × Bytes) :=
  match data with
  | [] => .error (.parse "Could not parse BIP34 height in coinbase data")
  | op :: rest =>
    let n := op.toNat
    if 0x51 ≤ n ∧ n ≤ 0x60 then .ok (n - 0x50, rest)
    else if n = 0x01 then parsePushedHeight 1 17 127 data
    else if n = 0x02 then parsePushedHeight 2 128 32767 data
    else if n = 0x03 then parsePushedHeight 3 32768 8388607 data
    else if n = 0x04 then
      -- the genesis block does not encode its height, and keeps the whole script as its data
      if data = genesisCoinbaseData then .ok (0, data) else parsePushedHeight 4 8388608 Height.max data
    else .error (.parse "Could not parse BIP34 height in coinbase data")

def writeCoinbaseHeight (height : Nat) (coinbaseData : Bytes) : Write :=
  if height = 0 then
    if coinbaseData = genesisCoinbaseData then .ok [] else .fail (.other "invalid genesis coinbase data")
  else if height ≤ 16 then writeUInt 1 (0x50 + height)
  else if height ≤ 127 then writeAll [writeUInt 1 0x01, writeUInt 1 height]
  else if height ≤ 32767 then writeAll [writeUInt 1 0x02, writeUInt 2 height]
  else if height ≤ 8388607 then writeAll [writeUInt 1 0x03, writeUInt 3 height]
  else if height ≤ Height.max then writeAll [writeUInt 1 0x04, writeUInt 4 height]
  else .panic .coinbaseHeightLimit

theorem parsePushedHeight_eq_ok {w least most h : Nat} {op : UInt8} {tail data : Bytes}
    (heq : parsePushedHeight w least most (op :: tail) = .ok (h, data)) :
    least ≤ h ∧ h ≤ most ∧ writeAll [writeUInt 1 op.toNat, writeUInt w h] = .ok (op :: tail.take w) ∧
      data = tail.drop w := by
  rw [parsePushedHeight] at heq
  split at heq
  · rename_i hlen
    dsimp only at heq
    split at heq
    · rename_i hrange
      cases heq
      have htake : (tail.take w).length = w := List.length_take_of_le (by simpa using hlen.1)
      have hbytes := Bytes.toLE_ofLE (tail.take w)
      rw [htake] at hbytes
      refine ⟨hrange.1, hrange.2, ?_, rfl⟩
      rw [List.drop_one, List.tail_cons, writeUInt, writeUInt, hbytes]
      simp [writeAll, Bytes.toLE, bind, Except.bind, pure, Except.pure]
    · cases heq
  · cases heq

theorem parseCoinbaseHeight_eq_ok {script data : Bytes} {h : Nat} (heq : parseCoinbaseHeight script = .ok (h, data)) :
    ∃ height, writeCoinbaseHeight h data = .ok height ∧ height ++ data = script := by
  cases script with
  | nil => cases heq
  | cons op tail =>
    have pushed {w least most : Nat} (hp : parsePushedHeight w least most (op :: tail) = .ok (h, data))
        (hwrite : least ≤ h → h ≤ most →
          writeCoinbaseHeight h data = writeAll [writeUInt 1 op.toNat, writeUInt w h]) :
        ∃ height, writeCoinbaseHeight h data = .ok height ∧ height ++ data = op :: tail := by
      obtain ⟨hleast, hmost, hbytes, rfl⟩ := parsePushedHeight_eq_ok hp
      refine ⟨op :: tail.take w, (hwrite hleast hmost).trans hbytes, ?_⟩
      rw [List.cons_append, List.take_append_drop]
    rw [parseCoinbaseHeight] at heq
    split at heq
    · rename_i hop
      cases heq
      refine ⟨[op], ?_, rfl⟩
      rw [writeCoinbaseHeight, if_neg (by omega), if_pos (by omega), Nat.add_sub_of_le (by omega)]
      simp [writeUInt, Bytes.toLE]
    split at heq
    · rename_i hop
      refine pushed heq fun hleast hmost => ?_
      rw [writeCoinbaseHeight, if_neg (by omega), if_neg (by omega), if_pos hmost, hop]
    split at heq
    · rename_i hop
      refine pushed heq fun hleast hmost => ?_
      rw [writeCoinbaseHeight, if_neg (by omega), if_neg (by omega), if_neg (by omega), if_pos hmost, hop]
    split at heq
    · rename_i hop
      refine pushed heq fun hleast hmost => ?_
      rw [writeCoinbaseHeight, if_neg (by omega), if_neg (by omega), if_neg (by omega), if_neg (by omega),
        if_pos hmost, hop]
    split at heq
    · rename_i hop
      split at heq
      · rename_i hgenesis
        cases heq
        refine ⟨[], ?_, rfl⟩
        rw [writeCoinbaseHeight, if_pos rfl, if_pos hgenesis]
      · refine pushed heq fun hleast hmost => ?_
        rw [writeCoinbaseHeight, if_neg (by omega), if_neg (by omega), if_neg (by omega), if_neg (by omega),
          if_neg (by omega), if_pos hmost, hop]
    · cases heq

inductive Input where
  | prevOut (outpoint : OutPoint) (unlockScript : Bytes) (sequence : UInt32)
  | coinbase (height : Nat) (data : Bytes) (sequence : UInt32)
deriving DecidableEq

namespace Input

def zeroHash : Octets 32 := List.Vector.replicate 32 0

instance : ZcashSerialize Input where
  zcashSerialize
    | prevOut outpoint unlockScript sequence =>
      writeAll [zcashSerialize outpoint, zcashSerializeBytes unlockScript, writeU32 sequence]
    | coinbase height data sequence => do
      let heightBytes ← writeCoinbaseHeight height data
      writeAll [writeExact zeroHash, writeU32 0xffffffff, zcashSerializeBytes (heightBytes ++ data), writeU32 sequence]

def deserializeCoinbase : Read Input := do
  let index ← readU32
  if index ≠ 0xffffffff then .parse "wrong index in coinbase"
  else do
    let len ← (zcashDeserialize : Read CompactSizeMessage)
    if maxCoinbaseDataLen < len.toUsize then .parse "coinbase data is too long"
    else if len.toUsize < minCoinbaseDataLen then .parse "coinbase data is too short"
    else do
      let script ← zcashDeserializeBytesExternalCount len.toUsize
      let (height, data) ← .lift ((parseCoinbaseHeight script).mapError .error)
      let sequence ← readU32
      return coinbase height data sequence

instance : ZcashDeserialize Input where
  zcashDeserialize := do
    let bytes ← readExact 32
    if bytes = zeroHash then deserializeCoinbase
    else do
      let index ← readU32
      let unlockScript ← zcashDeserializeBytes
      let sequence ← readU32
      return prevOut ⟨bytes, index⟩ unlockScript sequence

theorem zcashSerialize_coinbase {height : Nat} {data heightBytes : Bytes} {sequence : UInt32}
    (h : writeCoinbaseHeight height data = .ok heightBytes) :
    zcashSerialize (coinbase height data sequence) = writeAll [writeExact zeroHash, writeU32 0xffffffff,
      zcashSerializeBytes (heightBytes ++ data), writeU32 sequence] := by
  change (writeCoinbaseHeight height data >>= _) = _
  rw [h]
  rfl

theorem deserializeCoinbase_reads :
    Reads deserializeCoinbase fun i read => zcashSerialize i = .ok (zeroHash.toList ++ read) := by
  refine readU32_reads.bind fun index indexRead hindex => .ite (fun _ => reads_fail _) fun hmax => ?_
  rw [not_not.1 hmax] at hindex
  refine CompactSizeMessage.reads.bind fun len lenRead ⟨hsize, htry⟩ => ?_
  refine .ite (fun _ => reads_fail _) fun _ => .ite (fun _ => reads_fail _) fun _ => ?_
  refine (bytesExternalCount_reads len.toUsize).bind fun script read ⟨hscript, hlen⟩ => ?_
  obtain rfl := hscript
  refine Reads.bind (P := fun parsed read' => parseCoinbaseHeight read = .ok parsed ∧ read' = []) ?_ ?_
  · exact reads_lift fun parsed hparsed => ⟨mapError_eq_ok.1 hparsed, rfl⟩
  rintro ⟨height, data⟩ _ ⟨hparsed, rfl⟩
  refine readU32_reads.bind fun sequence sequenceRead hsequence => reads_pure ?_
  obtain ⟨heightBytes, hheight, rfl⟩ := parseCoinbaseHeight_eq_ok hparsed
  have hbytes := zcashSerializeBytes_eq_ok (hlen ▸ htry) hsize
  have hzero : writeExact zeroHash = .ok zeroHash.toList := rfl
  have hwrite := writeAll_cons hzero (writeAll_cons hindex (writeAll_cons hbytes (writeAll_cons hsequence writeAll_nil)))
  rw [zcashSerialize_coinbase hheight, hwrite]
  simp only [List.append_assoc, List.nil_append]

theorem canonical : Canonical Input := by
  refine (readExact_reads 32).bind ?_
  rintro bytes _ rfl
  refine .ite (fun hzero => hzero ▸ deserializeCoinbase_reads) fun _ => ?_
  refine readU32_reads.bind fun index indexRead hindex => ?_
  refine zcashDeserializeBytes_reads.bind fun script scriptRead hscript => ?_
  refine readU32_reads.bind fun sequence sequenceRead hsequence => reads_pure ?_
  have houtpoint : zcashSerialize (OutPoint.mk bytes index) = .ok (bytes.toList ++ (indexRead ++ [])) :=
    writeAll_cons rfl (writeAll_cons hindex writeAll_nil)
  have hwrite := writeAll_cons houtpoint (writeAll_cons hscript (writeAll_cons hsequence writeAll_nil))
  rw [List.append_assoc, List.append_assoc, List.nil_append] at hwrite
  exact hwrite

end Input

structure Output where
  value : Amount .nonNegative
  lockScript : Bytes
deriving DecidableEq

namespace Output

instance : ZcashSerialize Output where
  zcashSerialize o := writeAll [zcashSerialize o.value, zcashSerializeBytes o.lockScript]

instance : ZcashDeserialize Output where
  zcashDeserialize := do
    let value ← zcashDeserialize
    let lockScript ← zcashDeserializeBytes
    return ⟨value, lockScript⟩

theorem canonical : Canonical Output :=
  Amount.canonical_nonNegative.bind fun _ _ hvalue => zcashDeserializeBytes_reads.bind fun _ _ hscript =>
    reads_pure (writeAll_cons hvalue (writeAll_cons hscript writeAll_nil))

end Output

end Zebra.Serialization
