import Zebra.NoteCommitmentTree
import Zebra.Transaction
import Zebra.Work

namespace Zebra

open Lib Outcome

abbrev BlockHash := Nat

structure Header where
  previousBlockHash : BlockHash
  merkleRoot : Nat
  commitmentBytes : Nat
  /-- Seconds since the epoch. -/
  time : Nat
  difficultyThreshold : Nat
deriving DecidableEq

structure Block where
  header : Header
  transactions : List Transaction
  /-- The length of the block's encoding. -/
  serializedSize : Nat
  /-- The root of the digests of the authorizing data, which the model leaves out. -/
  authDataRoot : Nat
deriving DecidableEq

namespace Block

def coinbaseHeight (b : Block) : Option Nat :=
  match b.transactions with
  | [] => none
  | tx :: _ =>
    match tx.inputs with
    | .coinbase height :: _ => some height
    | _ => none

def noteCommitments (b : Block) : Pool → List Nat
  | .sprout => b.transactions.flatMap Transaction.sproutNoteCommitments
  | .sapling => b.transactions.flatMap Transaction.saplingNoteCommitments
  | .orchard => b.transactions.flatMap Transaction.orchardNoteCommitments

def nullifiers (b : Block) : Pool → List Nat
  | .sprout => b.transactions.flatMap Transaction.sproutNullifiers
  | .sapling => b.transactions.flatMap Transaction.saplingNullifiers
  | .orchard => b.transactions.flatMap Transaction.orchardNullifiers

/-- The value balances of the transactions; a transaction whose balance is an error is
skipped, as the iterator in the source flattens results. -/
def valueBalances (b : Block) (utxos : KeyedMap OutPoint Utxo) :
    Exec ValueBalanceError (List (ValueBalance .negativeAllowed)) :=
  b.transactions.foldlM (fun acc tx =>
    match tx.valueBalance utxos with
    | .ok v => .ok (acc ++ [v])
    | .error (.error _) => .ok acc
    | .error (.panic p) => .error (.panic p)) []

def chainValuePoolChange (b : Block) (utxos : KeyedMap OutPoint Utxo)
    (deferred : Option (Amount .negativeAllowed)) : Exec ValueBalanceError (ValueBalance .negativeAllowed) := do
  let balances ← b.valueBalances utxos
  let sum ← lift id (ValueBalance.sum balances)
  return sum.neg.setDeferredAmount (deferred.getD .zero)

end Block

def newTransactionOrderedOutputs (tx : Transaction) (hash : TransactionHash) (txIndex height : Nat) :
    List (OutPoint × OrderedUtxo) :=
  tx.outputs.mapIdx fun i o => (⟨hash, i⟩, OrderedUtxo.new o height txIndex)

def newOrderedOutputsWithHeight (b : Block) (height : Nat) (hashes : List TransactionHash) :
    OrderedUtxos :=
  .ofList ((b.transactions.zip hashes).mapIdx fun i (tx, hash) =>
    newTransactionOrderedOutputs tx hash i height).flatten

structure SemanticallyVerifiedBlock where
  block : Block
  hash : BlockHash
  height : Nat
  newOutputs : OrderedUtxos
  transactionHashes : List TransactionHash
  deferredPoolBalanceChange : Option (Amount .negativeAllowed)

structure ContextuallyVerifiedBlock where
  block : Block
  hash : BlockHash
  height : Nat
  newOutputs : OrderedUtxos
  spentOutputs : OrderedUtxos
  transactionHashes : List TransactionHash
  chainValuePoolChange : ValueBalance .negativeAllowed

abbrev SemanticBlocks := List SemanticallyVerifiedBlock

abbrev Blocks := List ContextuallyVerifiedBlock

abbrev Subtrees := KeyedMap Nat NoteCommitmentSubtreeData

abbrev SproutAnchors := KeyedMap Nat (NoteCommitmentTree .sprout)

def ContextuallyVerifiedBlock.withBlockAndSpentUtxos (b : SemanticallyVerifiedBlock)
    (spentOutputs : OrderedUtxos) : Exec ValueBalanceError ContextuallyVerifiedBlock := do
  let spentOutputs := spentOutputs.insertMany b.newOutputs.toList
  let chainValuePoolChange ← b.block.chainValuePoolChange (spentOutputs.map fun _ u => u.utxo)
    b.deferredPoolBalanceChange
  return { b with spentOutputs, chainValuePoolChange }

def ContextuallyVerifiedBlock.transactions (b : ContextuallyVerifiedBlock) :
    List (Transaction × TransactionHash) :=
  b.block.transactions.zip b.transactionHashes

structure NoteCommitmentTrees where
  sprout : NoteCommitmentTree .sprout
  sapling : NoteCommitmentTree .sapling
  saplingSubtree : Option NoteCommitmentSubtree
  orchard : NoteCommitmentTree .orchard
  orchardSubtree : Option NoteCommitmentSubtree

namespace NoteCommitmentTrees

variable [MerkleHashing]

/-- One pool of `update_trees_parallel`: a pool without notes in the block keeps its tree
and the subtree it started from. -/
def updatePool {p : Pool} (height : Nat) (cms : List Nat) (tree : NoteCommitmentTree p)
    (subtree : Option NoteCommitmentSubtree) :
    Except NoteCommitmentTreeError (NoteCommitmentTree p × Option NoteCommitmentSubtree) :=
  if cms = [] then .ok (tree, subtree)
  else do
    let (tree, completed) ← tree.appendAll none cms
    return (tree, completed.map fun (index, root) => ⟨index, height, root⟩)

def updateTreesParallel (t : NoteCommitmentTrees) (b : Block) :
    Exec NoteCommitmentTreeError NoteCommitmentTrees := do
  let height ← expect b.coinbaseHeight .coinbaseHeight
  let (sprout, _) ← lift id (updatePool height (b.noteCommitments .sprout) t.sprout none)
  let (sapling, saplingSubtree) ←
    lift id (updatePool height (b.noteCommitments .sapling) t.sapling t.saplingSubtree)
  let (orchard, orchardSubtree) ←
    lift id (updatePool height (b.noteCommitments .orchard) t.orchard t.orchardSubtree)
  return { sprout, sapling, saplingSubtree, orchard, orchardSubtree }

end NoteCommitmentTrees

end Zebra
