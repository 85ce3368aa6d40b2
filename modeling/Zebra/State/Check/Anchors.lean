import Zebra.State.ZebraDb

namespace Zebra.Check

open Lib

variable [MerkleHashing]

omit [MerkleHashing] in
def saplingOrchardAnchorsReferToFinalTreestates (db : ZebraDb) (parentChain : Option Chain) (tx : Transaction)
    (hash : TransactionHash) (txIndexInBlock height : Option Nat) : Validated Unit := do
  tx.saplingAnchors.forM fun anchor =>
    if parentChain.any (fun c => anchor ∈ c.inner.sapling.anchors) || db.containsSaplingAnchor anchor then return ()
    else .fail (.unknownAnchor .sapling anchor height txIndexInBlock hash)
  match tx.orchardShieldedData with
  | none => return ()
  | some d =>
    if parentChain.any (fun c => d.sharedAnchor ∈ c.inner.orchard.anchors) ||
        db.containsOrchardAnchor d.sharedAnchor then
      return ()
    else .fail (.unknownAnchor .orchard d.sharedAnchor height txIndexInBlock hash)

omit [MerkleHashing] in
def fetchSproutFinalTreestates (db : ZebraDb) (parentChain : Option Chain)
    (treestates : SproutAnchors) (tx : Transaction) :
    SproutAnchors :=
  tx.sproutGroth16Joinsplits.foldl (fun treestates j =>
    if j.anchor ∈ treestates then treestates
    else
      match (parentChain.bind fun c => c.inner.sprout.treesByAnchor[j.anchor]?).or
          (db.sproutTreeByAnchor j.anchor) with
      | some tree => treestates.insert j.anchor tree
      | none => treestates) treestates

/-- The loop over the JoinSplits of a transaction. The tree after the last one is not an
anchor of any other, so it is not built. -/
def sproutAnchorsLoop (finalTreestates : SproutAnchors) (hash : TransactionHash)
    (txIndexInBlock height : Option Nat) (interstitialTrees : SproutAnchors) :
    List JoinSplit → Validated Unit
  | [] => return ()
  | j :: js =>
    match interstitialTrees[j.anchor]?.or finalTreestates[j.anchor]? with
    | none => .fail (.unknownAnchor .sprout j.anchor height txIndexInBlock hash)
    | some tree =>
      if js.isEmpty then return ()
      else do
        let tree ← Outcome.lift .noteCommitmentTreeError (tree.append j.commitments.1)
        let tree ← Outcome.lift .noteCommitmentTreeError (tree.append j.commitments.2)
        sproutAnchorsLoop finalTreestates hash txIndexInBlock height (interstitialTrees.insert tree.root tree) js

def sproutAnchorsReferToTreestates (finalTreestates : SproutAnchors) (tx : Transaction)
    (hash : TransactionHash) (txIndexInBlock height : Option Nat) : Validated Unit :=
  sproutAnchorsLoop finalTreestates hash txIndexInBlock height ∅ tx.sproutGroth16Joinsplits

omit [MerkleHashing] in
def blockSaplingOrchardAnchorsReferToFinalTreestates (db : ZebraDb) (parentChain : Chain)
    (b : SemanticallyVerifiedBlock) : Validated Unit :=
  b.block.transactions.zipIdx.forM fun (tx, i) => do
    let hash ← Outcome.expect b.transactionHashes[i]? .transactionHash
    saplingOrchardAnchorsReferToFinalTreestates db (some parentChain) tx hash (some i) (some b.height)

omit [MerkleHashing] in
def blockFetchSproutFinalTreestates (db : ZebraDb) (parentChain : Chain) (b : SemanticallyVerifiedBlock) :
    SproutAnchors :=
  b.block.transactions.foldl (fetchSproutFinalTreestates db (some parentChain)) ∅

/-- The transactions may be checked in parallel; the model reports the first error. -/
def blockSproutAnchorsReferToTreestates (finalTreestates : SproutAnchors) (b : Block)
    (transactionHashes : List TransactionHash) (height : Nat) : Validated Unit :=
  b.transactions.zipIdx.forM fun (tx, i) => do
    let hash ← Outcome.expect transactionHashes[i]? .transactionHash
    sproutAnchorsReferToTreestates finalTreestates tx hash (some i) (some height)

end Zebra.Check
