import Zebra.Properties.NodeSample

namespace Zebra.Properties

open Lib Lib.Transition Ledger

/-- No record is keyed at or below the finalized height, and none above it is lost. -/
structure PrunesRecords (s : NonFinalizedState) (finalized : Nat) (s' : NonFinalizedState) : Prop where
  pruned : ∀ e ∈ s'.invalidatedBlocks, finalized < e.1
  kept : ∀ e ∈ s.invalidatedBlocks, finalized < e.1 → e ∈ s'.invalidatedBlocks

/-- No record is keyed at the height of the root of the best chain. -/
def NoRecordAtRoot (s : NonFinalizedState) : Prop :=
  ∀ best ∈ s.bestChain, ∀ b ∈ (blocksOf best).head?, ∀ e ∈ s.invalidatedBlocks, e.1 ≠ b.height

theorem finalize_prunes_iff [ScriptParsing] [MerkleHashing] [ChainHistory] [BlockHashing] [BlockCommitments]
    (hdet : HashDetermines) {net : Network} {db : ZebraDb} (hdb : ∀ tip, db.tip = some tip → Known tip.2 tip.1)
    {ops : List NodeOp} {n : NodeState} (hr : Run NodeState.Step ⟨NonFinalizedState.new net, db⟩ ops n)
    {x : ContextuallyVerifiedBlock × Treestate} {s' : NonFinalizedState}
    (h : (n.nonFinalized.finalize : Exec ValidateContextError _) = .ok (x, s')) :
    PrunesRecords n.nonFinalized x.1.height s' ↔ NoRecordAtRoot n.nonFinalized := by
  have hsound := sound_of_run hdet hdb hr
  have hne : n.nonFinalized.chainSet ≠ [] := by
    intro hnil
    simp [NonFinalizedState.finalize, hnil] at h
  obtain ⟨tip, -, -, hrooted⟩ := hsound.exists_tip hne
  obtain ⟨⟨best, hbest, hhead⟩, -, -, -, hrecords, -⟩ := finalize_rooted h hrooted
  constructor
  · rintro ⟨hpruned, -⟩ best' hbest' b hb e he heq
    obtain rfl := Option.mem_unique hbest hbest'
    obtain rfl := Option.mem_unique hhead hb
    have hmem : e ∈ s'.invalidatedBlocks := by
      rw [hrecords, List.mem_filter]
      exact ⟨he, decide_eq_true heq.ge⟩
    exact absurd (hpruned e hmem) (by omega)
  · intro hroot
    constructor
    · intro e he
      rw [hrecords, List.mem_filter, decide_eq_true_eq] at he
      exact lt_of_le_of_ne he.2 (hroot best hbest x.1 hhead e he.1).symm
    · intro e he hlt
      rw [hrecords, List.mem_filter]
      exact ⟨he, decide_eq_true hlt.le⟩

section

open Sample

def second : SemanticallyVerifiedBlock := child 12 root.hash 1 []
def replacement : SemanticallyVerifiedBlock := child 12 root.hash 2 []

def replaceSecond : List NodeOp :=
  [.commitNewChain root, .commitBlock second, .invalidateBlock second.hash, .commitBlock replacement]

theorem finalize_prunes_below : ∃ (n : NodeState) (x : ContextuallyVerifiedBlock × Treestate) (s' : NonFinalizedState),
      Run NodeState.Step node replaceSecond n ∧ n.nonFinalized.invalidatedBlocks ≠ [] ∧
      (n.nonFinalized.finalize : Exec ValidateContextError _) = .ok (x, s') ∧
      PrunesRecords n.nonFinalized x.1.height s' := by
  have hrun : ∃ n ∈ node.performAll replaceSecond, n.nonFinalized.invalidatedBlocks.length = 1 ∧
      (∃ x ∈ (n.nonFinalized.finalize : Validated _).toOption, x.1.1.height = 11) ∧
      ∀ best ∈ n.nonFinalized.bestChain, ∀ b ∈ (blocksOf best).head?, ∀ e ∈ n.nonFinalized.invalidatedBlocks,
        e.1 ≠ b.height := by
    decide +kernel
  obtain ⟨n, hn, hlen, ⟨⟨x, s'⟩, hx, -⟩, hroot⟩ := hrun
  have hx := Outcome.toOption_eq_some.1 hx
  have hr := NodeState.run_of_performAll hn
  exact ⟨n, x, s', hr, List.ne_nil_of_length_pos (by omega), hx,
    (finalize_prunes_iff hashDetermines node_known hr hx).2 hroot⟩

/-- The record of the replaced block is still there after the other block at its height has
been finalized. -/
theorem finalize_keeps_record_at_root :
    ∃ (n : NodeState) (x : ContextuallyVerifiedBlock × Treestate) (s' : NonFinalizedState),
      Run NodeState.Step node (replaceSecond ++ [.finalize (dbAt 11 root.hash)]) n ∧
      (n.nonFinalized.finalize : Exec ValidateContextError _) = .ok (x, s') ∧
      ¬ PrunesRecords n.nonFinalized x.1.height s' := by
  have hrun : ∃ n ∈ node.performAll (replaceSecond ++ [.finalize (dbAt 11 root.hash)]),
      ∃ x ∈ (n.nonFinalized.finalize : Validated _).toOption,
        ∃ e ∈ x.2.invalidatedBlocks, e.1 = x.1.1.height := by
    decide +kernel
  obtain ⟨n, hn, ⟨x, s'⟩, hx, e, he, heq⟩ := hrun
  refine ⟨n, x, s', NodeState.run_of_performAll hn, Outcome.toOption_eq_some.1 hx, ?_⟩
  intro hp
  exact absurd (hp.pruned e he) (by simp [heq])

end

end Zebra.Properties
