import Zebra.HistoryTree

namespace Zebra

open Lib

class BlockHashing where
  hash : Block → BlockHash

class BlockCommitments where
  isSaplingRoot : (bytes : Nat) → Bool
  fromCommitments : (historyTreeRoot authDataRoot : Nat) → Nat

inductive Commitment where
  | preSaplingReserved (bytes : Nat)
  | finalSaplingRoot (root : Nat)
  | chainHistoryActivationReserved
  | chainHistoryRoot (root : Nat)
  | chainHistoryBlockTxAuthCommitment (hash : Nat)
deriving DecidableEq

inductive CommitmentError where
  | invalidChainHistoryActivationReserved (actual : Nat)
  | invalidChainHistoryRoot (actual expected : Nat)
  | invalidChainHistoryBlockTxAuthCommitment (actual expected : Nat)
  | missingBlockHeight (hash : BlockHash)
  | invalidSaplingRootBytes
deriving DecidableEq

def chainHistoryActivationReserved : Nat := 0

namespace Commitment

def reserved (bytes : Nat) : Except CommitmentError Commitment :=
  if bytes = Zebra.chainHistoryActivationReserved then .ok chainHistoryActivationReserved
  else .error (.invalidChainHistoryActivationReserved bytes)

def fromBytes [BlockCommitments] (bytes : Nat) (net : Network) (height : Nat) : Except CommitmentError Commitment :=
  match NetworkUpgrade.current net height with
  | .genesis | .beforeOverwinter | .overwinter => .ok (.preSaplingReserved bytes)
  | .sapling | .blossom =>
    if BlockCommitments.isSaplingRoot bytes then .ok (.finalSaplingRoot bytes) else .error .invalidSaplingRootBytes
  | .heartwood =>
    if (NetworkUpgrade.currentEntry net height).map Prod.fst = some height then reserved bytes
    else .ok (.chainHistoryRoot bytes)
  | .canopy =>
    if some height = NetworkUpgrade.activationHeight .heartwood net then reserved bytes
    else .ok (.chainHistoryRoot bytes)
  | .nu5 | .nu6 | .nu6_1 | .nu7 => .ok (.chainHistoryBlockTxAuthCommitment bytes)

end Commitment

def Block.commitment [BlockHashing] [BlockCommitments] (b : Block) (net : Network) :
    Except CommitmentError Commitment :=
  match b.coinbaseHeight with
  | none => .error (.missingBlockHeight (BlockHashing.hash b))
  | some height => Commitment.fromBytes b.header.commitmentBytes net height

def HistoryTree.hash [ChainHistory] (t : HistoryTree) : Option Nat :=
  t.map fun t => ChainHistory.hash t.networkUpgrade t.size t.peaks

end Zebra
