import Mathlib.Data.Nat.Pairing
import Zebra.Ledger.NodeRuns
import Zebra.Properties.Sample

namespace Zebra.Sample

open Lib Ledger

scoped instance blockHashing : BlockHashing where
  hash b := Nat.pair b.header.previousBlockHash (Nat.pair ((b.coinbaseHeight.map (· + 1)).getD 0) b.serializedSize)

theorem hashDetermines : HashDetermines := by
  intro b b' h
  obtain ⟨hp, h⟩ := Nat.pair_eq_pair.1 h
  obtain ⟨hh, -⟩ := Nat.pair_eq_pair.1 h
  refine ⟨hp, ?_⟩
  cases hb : b.coinbaseHeight <;> cases hb' : b'.coinbaseHeight <;> simp_all

scoped instance blockCommitments : BlockCommitments where
  isSaplingRoot _ := true
  fromCommitments _ _ := 0

def child (height parent size : Nat) (txs : List (TransactionHash × Transaction)) : SemanticallyVerifiedBlock :=
  let b := semanticBlock height 0 parent txs
  { b with
    block := { b.block with serializedSize := size }
    hash := BlockHashing.hash { b.block with serializedSize := size } }

def tipBlock : SemanticallyVerifiedBlock := child 10 0 0 []

def dbAt (height : Nat) (hash : BlockHash) : ZebraDb where
  network := network
  hashByHeight := .ofList [(height, hash)]
  sproutNoteCommitmentTree := some .empty
  saplingNoteCommitmentTree := .ofList [(0, NoteCommitmentTree.empty)]
  orchardNoteCommitmentTree := .ofList [(0, NoteCommitmentTree.empty)]
  historyTree := some ⟨network, .nu6, 1, ∅, height⟩

def node : NodeState := ⟨NonFinalizedState.new network, dbAt 10 tipBlock.hash⟩

theorem node_known : ∀ tip, node.db.tip = some tip → Known tip.2 tip.1 := by
  intro tip h
  obtain rfl : tip = (10, tipBlock.hash) := by
    have h' : node.db.tip = some (10, tipBlock.hash) := rfl
    simpa [h'] using h.symm
  exact ⟨tipBlock.block, rfl, rfl⟩

def root : SemanticallyVerifiedBlock := child 11 tipBlock.hash 1 []

end Zebra.Sample
