import Zebra.Block

namespace Zebra

open Lib Outcome

inductive HistoryTreeError where
  | innerError
  | ioError
deriving DecidableEq

/-- The Merkle mountain range library. A version 1 tree ignores the Orchard root, which is
`none` for it; entries are the library's encoded nodes. -/
class ChainHistory where
  leaf : Network → Block → (saplingRoot : Nat) → (orchardRoot : Option Nat) → Nat
  appendLeaf : NetworkUpgrade → (size : Nat) → (peaks : KeyedMap Nat Nat) → (leaf : Nat) → Option (List Nat)
  newFromCache : NetworkUpgrade → (size : Nat) → (peaks : KeyedMap Nat Nat) → Bool
  hash : NetworkUpgrade → (size : Nat) → (peaks : KeyedMap Nat Nat) → Nat

/-- Consensus branch ids exist from `Overwinter` to the last released upgrade. -/
def NetworkUpgrade.hasBranchId (nu : NetworkUpgrade) : Prop := .overwinter ≤ nu ∧ nu ≤ .nu6_1

instance (nu : NetworkUpgrade) : Decidable nu.hasBranchId := inferInstanceAs (Decidable (_ ∧ _))

/-- The runtime tree of the library is always the one rebuilt from `size` and `peaks`. -/
structure NonEmptyHistoryTree where
  network : Network
  networkUpgrade : NetworkUpgrade
  size : Nat
  peaks : KeyedMap Nat Nat
  currentHeight : Nat

namespace NonEmptyHistoryTree

variable [ChainHistory]

def newFromCache (nu : NetworkUpgrade) (size : Nat) (peaks : KeyedMap Nat Nat) : Exec HistoryTreeError Unit := do
  check nu.hasBranchId .branchId
  if ChainHistory.newFromCache nu size peaks then return () else .fail .ioError

/-- The leaf of a block: trees before `Nu5` do not commit to the Orchard root. -/
def leaf (net : Network) (nu : NetworkUpgrade) (b : Block) (saplingRoot orchardRoot : Nat) : Nat :=
  ChainHistory.leaf net b saplingRoot (if nu < .nu5 then none else some orchardRoot)

def fromBlock (net : Network) (b : Block) (saplingRoot orchardRoot : Nat) :
    Exec HistoryTreeError NonEmptyHistoryTree := do
  let height ← expect b.coinbaseHeight .coinbaseHeight
  let nu := NetworkUpgrade.current net height
  check (.heartwood ≤ nu) .historyTreeBeforeHeartwood
  check nu.hasBranchId .branchId
  let peaks : KeyedMap Nat Nat := (∅ : KeyedMap Nat Nat).insert 0 (leaf net nu b saplingRoot orchardRoot)
  newFromCache nu 1 peaks
  return ⟨net, nu, 1, peaks, height⟩

/-- The positions of the peaks: walk right from a peak, and down to the left child when
the position lies outside the tree. -/
def peakPositions (size : Nat) : (fuel alt pos : Nat) → List Nat
  | 0, _, _ => []
  | fuel + 1, alt, pos =>
    let (alt, pos) := if size ≤ pos then (alt - 1, pos - 2 ^ alt) else (alt, pos)
    let (found, pos) := if pos < size then ([pos], pos + 2 ^ (alt + 1) - 1) else ([], pos)
    if alt = 0 then found else found ++ peakPositions size fuel alt pos

def prune (t : NonEmptyHistoryTree) : Exec HistoryTreeError NonEmptyHistoryTree := do
  let alt := Nat.log2 (t.size + 1) - 1
  let positions := peakPositions t.size (t.size + 33) alt (2 ^ (alt + 1) - 2)
  let peaks := t.peaks.filter fun k _ => k ∈ positions
  newFromCache t.networkUpgrade t.size peaks
  return { t with peaks }

def addEntries (t : NonEmptyHistoryTree) (entries : List Nat) : NonEmptyHistoryTree :=
  entries.foldl (fun t e => { t with peaks := t.peaks.insert t.size e, size := t.size + 1 }) t

def push (t : NonEmptyHistoryTree) (b : Block) (saplingRoot orchardRoot : Nat) :
    Exec HistoryTreeError NonEmptyHistoryTree := do
  let height ← expect b.coinbaseHeight .coinbaseHeight
  check (Height.addDiff t.currentHeight 1 = some height) .historyTreeHeight
  let nu := NetworkUpgrade.current t.network height
  if nu ≠ t.networkUpgrade then
    let t' ← fromBlock t.network b saplingRoot orchardRoot
    check (t'.networkUpgrade = nu) .historyTreeUpgrade
    return t'
  else
    match ChainHistory.appendLeaf nu t.size t.peaks (leaf t.network nu b saplingRoot orchardRoot) with
    | none => .fail .innerError
    | some entries =>
      let t ← (t.addEntries entries).prune
      return { t with currentHeight := height }

end NonEmptyHistoryTree

abbrev HistoryTree := Option NonEmptyHistoryTree

def HistoryTree.push [ChainHistory] (t : HistoryTree) (net : Network) (b : Block)
    (saplingRoot orchardRoot : Nat) : Exec HistoryTreeError HistoryTree :=
  match NetworkUpgrade.activationHeight .heartwood net with
  | none => do
    check (t.isNone) .historyTreeBeforeHeartwood
    return t
  | some heartwood => do
    let height ← expect b.coinbaseHeight .coinbaseHeight
    if height < heartwood then
      check (t.isNone) .historyTreeBeforeHeartwood
      return t
    else if height = heartwood then
      let t ← NonEmptyHistoryTree.fromBlock net b saplingRoot orchardRoot
      return some t
    else
      let t ← expect t .historyTreeMissing
      let t ← t.push b saplingRoot orchardRoot
      return some t

end Zebra
