import Zebra.State.ChainInner

namespace Zebra

open Lib Outcome

variable {ε : Type} {p : Pool}

namespace TreeIndex

def empty : TreeIndex p := ⟨∅, ∅, 0⟩

def tree (t : TreeIndex p) (height : Nat) : Option (NoteCommitmentTree p) :=
  (t.treesByHeight.toList.filter (·.1 ≤ height)).getLast?.map Prod.snd

def treeForTip (t : TreeIndex p) : Exec ε (NoteCommitmentTree p) :=
  expect (t.treesByHeight.toList.getLast?.map Prod.snd) .missingTree

variable [MerkleHashing]

/-- Whether a tree has to be stored: it is the first one or differs from the previous one. -/
def isNewTree (t : TreeIndex p) (height : Nat) (tree : NoteCommitmentTree p) : Exec ε Bool :=
  if height = Height.min then return true
  else do
    let previous ← expect (Height.previous height) .previousHeight
    match t.tree previous with
    | none => return true
    | some prevTree => return prevTree.root ≠ tree.root

def storeTree (t : TreeIndex p) (height : Nat) (tree : NoteCommitmentTree p) (isNew : Bool) :
    Exec ε (KeyedMap Nat (NoteCommitmentTree p)) :=
  if isNew then t.treesByHeight.insertNew height tree .treeOverwrite else return t.treesByHeight

def addTreeAndAnchor (t : TreeIndex p) (height : Nat) (tree : NoteCommitmentTree p) :
    Exec ε (TreeIndex p) := do
  let isNew ← t.isNewTree height tree
  let treesByHeight ← t.storeTree height tree isNew
  let anchorsByHeight ← t.anchorsByHeight.insertNew height tree.root .anchorOverwrite
  return ⟨treesByHeight, anchorsByHeight, tree.root ::ₘ t.anchors⟩

omit [MerkleHashing]

/-- The heights that a revert removes, and the tree that may have to be stored again. -/
def removal (t : TreeIndex p) (height : Nat) :
    RevertPosition → List Nat × Option (NoteCommitmentTree p)
  | .root => ((t.anchorsByHeight.toList.map Prod.fst).filter (· ≤ height), t.tree height)
  | .tip => ([height], none)

def removeHeight (t : TreeIndex p) (height : Nat) : Exec ε (Nat × TreeIndex p) := do
  let anchor ← expect t.anchorsByHeight[height]? .missingAnchor
  check (anchor ∈ t.anchors) .missingAnchor
  return (anchor, ⟨t.treesByHeight.erase height, t.anchorsByHeight.erase height, t.anchors.erase anchor⟩)

/-- Store the highest removed tree just above `height`, unless that height has a tree or is
above the tip of the chain. -/
def restoreNext (t : TreeIndex p) (height : Nat) (tipHeight : Option Nat)
    (highestRemovedTree : Option (NoteCommitmentTree p)) : Exec ε (TreeIndex p) :=
  if tipHeight.any (height < ·) then do
    let next ← expect (Height.next height) .nextHeight
    if next ∈ t.treesByHeight then return t
    else
      let tree ← expect highestRemovedTree .missingTree
      return { t with treesByHeight := t.treesByHeight.insert next tree }
  else return t

def removeTreeAndAnchor (t : TreeIndex p) (position : RevertPosition) (height : Nat)
    (tipHeight : Option Nat) : Exec ε (TreeIndex p) := do
  let (removedHeights, highestRemovedTree) := t.removal height position
  let t ← removedHeights.foldlM (fun t h => Prod.snd <$> t.removeHeight h) t
  t.restoreNext height tipHeight highestRemovedTree

end TreeIndex

namespace SproutTrees

def addTreeAndAnchor [MerkleHashing] (s : SproutTrees) (height : Nat) (tree : NoteCommitmentTree .sprout) :
    Exec ε SproutTrees := do
  let index ← s.index.addTreeAndAnchor height tree
  return ⟨index, s.treesByAnchor.insert tree.root tree⟩

def removeHeight (s : SproutTrees) (height : Nat) : Exec ε SproutTrees := do
  let (anchor, index) ← s.index.removeHeight height
  return ⟨index, if anchor ∈ index.anchors then s.treesByAnchor else s.treesByAnchor.erase anchor⟩

def removeTreeAndAnchor (s : SproutTrees) (position : RevertPosition) (height : Nat)
    (tipHeight : Option Nat) : Exec ε SproutTrees := do
  let (removedHeights, highestRemovedTree) := s.index.removal height position
  let s ← removedHeights.foldlM (fun s h => s.removeHeight h) s
  let index ← s.index.restoreNext height tipHeight highestRemovedTree
  return { s with index }

end SproutTrees

/-- The history trees of a chain, by height. -/
abbrev HistoryTrees := KeyedMap Nat HistoryTree

namespace HistoryTrees

def forTip (m : HistoryTrees) : Exec ε HistoryTree :=
  expect (m.toList.getLast?.map Prod.snd) .missingHistoryTree

def add (m : HistoryTrees) (height : Nat) (tree : HistoryTree) : Exec ε HistoryTrees :=
  m.insertNew height tree .historyTreeOverwrite

def remove (m : HistoryTrees) (position : RevertPosition) (height : Nat) : Exec ε HistoryTrees :=
  match position with
  | .root => return m.filter fun h _ => height < h
  | .tip => m.removePresent height .missingHistoryTree

end HistoryTrees

end Zebra
