import Zebra.State.ChainInner
import Zebra.State.TransparentBatch

namespace Zebra

open Lib

/-- The tables of the finalized state. A block by height stands for its header and for its
transactions by location. -/
structure ZebraDb where
  network : Network
  hashByHeight : KeyedMap Nat BlockHash := ∅
  heightByHash : KeyedMap BlockHash Nat := ∅
  blockByHeight : KeyedMap Nat Block := ∅
  txLocByHash : KeyedMap TransactionHash TransactionLocation := ∅
  utxoByOutLoc : KeyedMap OutputLocation Output := ∅
  balanceByTransparentAddr : BalanceTable := ∅
  utxoLocByTransparentAddrLoc : KeyedMap AddressUnspentOutput Unit := ∅
  txLocByTransparentAddrLoc : KeyedMap AddressTransaction Unit := ∅
  sproutNullifiers : KeyedMap Nat TransactionLocation := ∅
  saplingNullifiers : KeyedMap Nat TransactionLocation := ∅
  orchardNullifiers : KeyedMap Nat TransactionLocation := ∅
  sproutAnchors : SproutAnchors := ∅
  sproutNoteCommitmentTree : Option (NoteCommitmentTree .sprout) := none
  saplingAnchors : KeyedMap Nat Unit := ∅
  saplingNoteCommitmentTree : KeyedMap Nat (NoteCommitmentTree .sapling) := ∅
  saplingNoteCommitmentSubtree : Subtrees := ∅
  orchardAnchors : KeyedMap Nat Unit := ∅
  orchardNoteCommitmentTree : KeyedMap Nat (NoteCommitmentTree .orchard) := ∅
  orchardNoteCommitmentSubtree : Subtrees := ∅
  historyTree : HistoryTree := none
  chainValuePools : Option (ValueBalance .nonNegative) := none
  blockInfo : KeyedMap Nat BlockInfo := ∅

def genesisPreviousBlockHash : BlockHash := 0

/-- The trees of one pool that are stored by height: the last one at or below `height`, which
is unknown above the tip. -/
def storedTree {p : Pool} {ε : Type} (tip : Option Nat) (trees : KeyedMap Nat (NoteCommitmentTree p)) (height : Nat) :
    Exec ε (Option (NoteCommitmentTree p)) :=
  match tip with
  | none => return none
  | some tip =>
    if tip < height then return none
    else some <$> Outcome.expect ((trees.toList.filter (·.1 ≤ height)).getLast?.map Prod.snd) .finalizedTree

namespace ZebraDb

variable (db : ZebraDb) {ε : Type}

def tip : Option (Nat × BlockHash) := db.hashByHeight.toList.getLast?

def finalizedTipHash : BlockHash := (db.tip.map Prod.snd).getD genesisPreviousBlockHash

def finalizedTipHeight : Option Nat := db.tip.map Prod.fst

def transactionLocation (hash : TransactionHash) : Option TransactionLocation := db.txLocByHash[hash]?

def outputLocation (o : OutPoint) : Option OutputLocation :=
  (db.transactionLocation o.hash).map fun l => .fromOutpoint l o

def utxoByLocation (l : OutputLocation) : Option OrderedUtxo :=
  db.utxoByOutLoc[l]?.map fun output =>
    .new output l.transactionLocation.height l.transactionLocation.index

def utxo (o : OutPoint) : Option OrderedUtxo := (db.outputLocation o).bind db.utxoByLocation

def nullifiers : Pool → KeyedMap Nat TransactionLocation
  | .sprout => db.sproutNullifiers
  | .sapling => db.saplingNullifiers
  | .orchard => db.orchardNullifiers

def containsNullifier (p : Pool) (n : Nat) : Bool := n ∈ db.nullifiers p

def containsSaplingAnchor (anchor : Nat) : Bool := anchor ∈ db.saplingAnchors

def containsOrchardAnchor (anchor : Nat) : Bool := anchor ∈ db.orchardAnchors

def sproutTreeByAnchor (anchor : Nat) : Option (NoteCommitmentTree .sprout) := db.sproutAnchors[anchor]?

def sproutTreeForTip : Exec ε (NoteCommitmentTree .sprout) :=
  if db.hashByHeight.isEmpty then return .empty
  else Outcome.expect db.sproutNoteCommitmentTree .finalizedTree

def saplingTreeByHeight (height : Nat) : Exec ε (Option (NoteCommitmentTree .sapling)) :=
  storedTree db.finalizedTipHeight db.saplingNoteCommitmentTree height

def orchardTreeByHeight (height : Nat) : Exec ε (Option (NoteCommitmentTree .orchard)) :=
  storedTree db.finalizedTipHeight db.orchardNoteCommitmentTree height

def saplingTreeForTip : Exec ε (NoteCommitmentTree .sapling) :=
  match db.finalizedTipHeight with
  | none => return .empty
  | some height => do
    let tree ← db.saplingTreeByHeight height
    Outcome.expect tree .finalizedTree

def orchardTreeForTip : Exec ε (NoteCommitmentTree .orchard) :=
  match db.finalizedTipHeight with
  | none => return .empty
  | some height => do
    let tree ← db.orchardTreeByHeight height
    Outcome.expect tree .finalizedTree

def finalizedValuePool : ValueBalance .nonNegative := db.chainValuePools.getD .zero

end ZebraDb

end Zebra
