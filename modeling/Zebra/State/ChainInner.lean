import Zebra.Commitment
import Zebra.State.Transfers

namespace Zebra

open Lib

inductive SpendLocation where
  | sameBlock
  | nonFinalizedChain
  | nonFinalizedAndFinalizedChain
deriving DecidableEq

inductive ValidateContextError where
  | blockPreviouslyInvalidated (hash : BlockHash)
  | notReadyToBeCommitted
  | orphanedBlock (candidateHeight finalizedTipHeight : Nat)
  | nonSequentialBlock (candidateHeight parentHeight : Nat)
  | timeTooEarly (candidateTime medianTimePast : Nat)
  | timeTooLate (candidateTime blockTimeMax : Nat)
  | invalidDifficultyThreshold (difficultyThreshold expectedDifficulty : Nat)
  | duplicateTransparentSpend (outpoint : OutPoint) (location : SpendLocation)
  | missingTransparentOutput (outpoint : OutPoint) (location : SpendLocation)
  | earlyTransparentSpend (outpoint : OutPoint)
  | unshieldedTransparentCoinbaseSpend (outpoint : OutPoint)
  | immatureTransparentCoinbaseSpend (outpoint : OutPoint) (spendHeight minSpendHeight createdHeight : Nat)
  | duplicateNullifier (pool : Pool) (nullifier : Nat) (inFinalizedState : Bool)
  | negativeRemainingTransactionValue (e : AmountError) (height txIndexInBlock : Nat) (hash : TransactionHash)
  | calculateRemainingTransactionValue (e : AmountError) (height txIndexInBlock : Nat) (hash : TransactionHash)
  | calculateTransactionValueBalances (e : ValueBalanceError) (height txIndexInBlock : Nat)
      (hash : TransactionHash)
  | calculateBlockChainValueChange (e : ValueBalanceError) (height : Nat) (hash : BlockHash)
      (transactionCount spentUtxoCount : Nat)
  | addValuePool (e : ValueBalanceError) (chainValuePools : ValueBalance .nonNegative)
      (blockValuePoolChange : ValueBalance .negativeAllowed) (height : Option Nat)
  | noteCommitmentTreeError (e : NoteCommitmentTreeError)
  | historyTreeError (e : HistoryTreeError)
  | invalidBlockCommitment (e : CommitmentError)
  | unknownAnchor (pool : Pool) (anchor : Nat) (height txIndexInBlock : Option Nat) (hash : TransactionHash)
deriving DecidableEq

abbrev Validated := Exec ValidateContextError

structure BlockInfo where
  valuePools : ValueBalance .nonNegative
  size : Nat
deriving DecidableEq

/-- The indexes of a chain that its transactions write to. -/
@[ext]
structure TxIndexes where
  txLocByHash : KeyedMap TransactionHash TransactionLocation
  createdUtxos : OrderedUtxos
  spentUtxos : KeyedMap OutPoint TransactionHash
  sproutNullifiers : KeyedMap Nat TransactionHash
  saplingNullifiers : KeyedMap Nat TransactionHash
  orchardNullifiers : KeyedMap Nat TransactionHash
  partialTransparentTransfers : KeyedMap Address TransparentTransfers

/-- The note commitment trees and anchors of one pool. Only the first of a run of equal
trees is stored. -/
@[ext]
structure TreeIndex (p : Pool) where
  treesByHeight : KeyedMap Nat (NoteCommitmentTree p)
  anchorsByHeight : KeyedMap Nat Nat
  anchors : Multiset Nat

/-- The Sprout trees are also kept by anchor, as long as some height has that anchor. -/
@[ext]
structure SproutTrees where
  index : TreeIndex .sprout
  treesByAnchor : SproutAnchors

@[ext]
structure ChainInner extends TxIndexes where
  blocks : KeyedMap Nat ContextuallyVerifiedBlock
  heightByHash : KeyedMap BlockHash Nat
  sprout : SproutTrees
  sapling : TreeIndex .sapling
  saplingSubtrees : Subtrees
  orchard : TreeIndex .orchard
  orchardSubtrees : Subtrees
  historyTreesByHeight : KeyedMap Nat HistoryTree
  partialCumulativeWork : Nat
  chainValuePools : ValueBalance .nonNegative
  blockInfoByHeight : KeyedMap Nat BlockInfo

structure Chain where
  network : Network
  inner : ChainInner
  lastForkHeight : Option Nat

inductive RevertPosition where
  | root
  | tip
deriving DecidableEq

namespace TxIndexes

def empty : TxIndexes := ⟨∅, ∅, ∅, ∅, ∅, ∅, ∅⟩

def nullifiers (idx : TxIndexes) : Pool → KeyedMap Nat TransactionHash
  | .sprout => idx.sproutNullifiers
  | .sapling => idx.saplingNullifiers
  | .orchard => idx.orchardNullifiers

def setNullifiers (idx : TxIndexes) (p : Pool) (m : KeyedMap Nat TransactionHash) : TxIndexes :=
  { idx with
    sproutNullifiers := if p = .sprout then m else idx.sproutNullifiers
    saplingNullifiers := if p = .sapling then m else idx.saplingNullifiers
    orchardNullifiers := if p = .orchard then m else idx.orchardNullifiers }

theorem nullifiers_setNullifiers (idx : TxIndexes) (p q : Pool) (m : KeyedMap Nat TransactionHash) :
    (idx.setNullifiers p m).nullifiers q = if p = q then m else idx.nullifiers q := by
  cases q <;> rfl

@[simp] theorem nullifiers_setNullifiers_self (idx : TxIndexes) (p : Pool) (m : KeyedMap Nat TransactionHash) :
    (idx.setNullifiers p m).nullifiers p = m := by
  rw [nullifiers_setNullifiers, if_pos rfl]

@[simp] theorem setNullifiers_nullifiers (idx : TxIndexes) (p : Pool) :
    idx.setNullifiers p (idx.nullifiers p) = idx := by
  cases p <;> rfl

@[simp] theorem setNullifiers_setNullifiers (idx : TxIndexes) (p : Pool) (m m' : KeyedMap Nat TransactionHash) :
    (idx.setNullifiers p m).setNullifiers p m' = idx.setNullifiers p m' := by
  cases p <;> rfl

end TxIndexes

end Zebra
