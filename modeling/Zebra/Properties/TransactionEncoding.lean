import Zebra.Serialization.Transaction

namespace Zebra.Properties

open Lib Serialization

/-- Points and field elements that are their own bytes. -/
def rawEncoding : Encoding := ⟨Octets 32, some, id, fun h => (Option.some.inj h).symm⟩

@[reducible] def rawLibraries : CurveLibraries where
  valueCommitment := rawEncoding
  extractedNoteCommitment := rawEncoding
  jubjubPoint := rawEncoding
  jubjubBase := rawEncoding
  verificationKey := rawEncoding
  isSmallOrder _ := false
  pallasPoint := rawEncoding
  pallasBase := rawEncoding
  isIdentity _ := false

@[reducible] def acceptingLibrustzcash : Librustzcash := ⟨fun _ => true, fun _ _ => .ok ()⟩

/-- A version 5 transaction that spends an output and pays to a transparent output, to a Sapling
output and to an Orchard action. -/
def mixedPayment : Bytes :=
  -- header, version group, branch of Nu5, lock time and expiry height
  [5, 0, 0, 128, 0x0A, 0x27, 0xA7, 0x26, 0xb4, 0xd0, 0xd6, 0xc2, 0, 0, 0, 0, 9, 0, 0, 0] ++
  ([1] ++ List.replicate 32 7 ++ [0, 0, 0, 0, 2, 81, 81, 255, 255, 255, 255]) ++
  ([1] ++ [16, 39, 0, 0, 0, 0, 0, 0, 1, 81]) ++
  ([0, 1] ++ List.replicate 756 3 ++ [240, 216, 255, 255, 255, 255, 255, 255] ++ List.replicate 192 4 ++
    List.replicate 64 5) ++
  ([1] ++ List.replicate 820 6 ++ [3] ++ [0, 0, 0, 0, 0, 0, 0, 0] ++ List.replicate 32 8 ++ [2, 1, 1] ++
    List.replicate 64 9 ++ List.replicate 64 10)

end Zebra.Properties
