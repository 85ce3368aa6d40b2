import Zebra.Ledger.Queue
import Zebra.Properties.Sample

namespace Zebra.Properties

open Lib Lib.Transition Ledger

inductive QueueOp where
  | queue (b : SemanticallyVerifiedBlock)
  | dequeueChildren (order : HashOrder) (parent : BlockHash)
  | pruneByHeight (order : HashOrder) (finalized : Nat)

def QueueStep (q : QueuedBlocks) : QueueOp → QueuedBlocks → Prop
  | .queue b, q' => q' = q.queue b
  | .dequeueChildren order parent, q' =>
    ∃ children, (q.dequeueChildren order parent : Exec Empty _) = .ok (children, q')
  | .pruneByHeight order finalized, q' =>
    ∃ answers, (q.pruneByHeight order finalized : Exec Empty _) = .ok (answers, q')

/-- Children are only dequeued when no other block has their height, and the finalized tip is
not at the last height. -/
def Careful (q : QueuedBlocks) : QueueOp → Prop
  | .queue _ => True
  | .dequeueChildren _ parent => AloneAtHeight q parent
  | .pruneByHeight _ finalized => finalized < Height.max

theorem agree_step_iff {q : QueuedBlocks} (h : Agree q) (op : QueueOp) :
    (∃ q', QueueStep q op q' ∧ Agree q') ↔ Careful q op := by
  cases op with
  | queue b => exact ⟨fun _ => trivial, fun _ => ⟨_, rfl, h.queue b⟩⟩
  | dequeueChildren order parent =>
    obtain ⟨children, q', hq', hd⟩ := h.toParented.dequeueChildren order parent
    refine ⟨?_, fun hc => ⟨q', ⟨children, hq'⟩, (h.dequeueChildren_iff hd).2 hc⟩⟩
    rintro ⟨q'', ⟨children', hq''⟩, hagree⟩
    obtain ⟨rfl, rfl⟩ := Prod.mk.inj (Except.ok.inj (hq'.symm.trans hq''))
    exact (h.dequeueChildren_iff hd).1 hagree
  | pruneByHeight order finalized =>
    constructor
    · rintro ⟨q', ⟨answers, hq'⟩, -⟩
      rw [QueuedBlocks.pruneByHeight, bind_eq_ok] at hq'
      obtain ⟨split, hsplit, -⟩ := hq'
      obtain ⟨rfl, hmax⟩ := Height.next_eq_some.1 (Outcome.expect_eq_ok.1 hsplit)
      exact hmax
    · intro hmax
      obtain ⟨answers, q', hq', -, hagree⟩ := h.pruneByHeight order hmax
      exact ⟨q', ⟨answers, hq'⟩, hagree⟩

theorem agree_of_step {q q' : QueuedBlocks} {op : QueueOp} (h : Agree q) (hc : Careful q op) (hs : QueueStep q op q') :
    Agree q' := by
  obtain ⟨q'', hs', hagree⟩ := (agree_step_iff h op).2 hc
  cases op with
  | queue b => exact hs.trans hs'.symm ▸ hagree
  | dequeueChildren order parent =>
    obtain ⟨⟨_, hs⟩, ⟨_, hs'⟩⟩ := And.intro hs hs'
    rwa [(Prod.mk.inj (Except.ok.inj (hs.symm.trans hs'))).2]
  | pruneByHeight order finalized =>
    obtain ⟨⟨_, hs⟩, ⟨_, hs'⟩⟩ := And.intro hs hs'
    rwa [(Prod.mk.inj (Except.ok.inj (hs.symm.trans hs'))).2]

/-- The three indexes agree along every careful run. From each of its states an operation
keeps the agreement without a panic exactly when it is careful, and a careful prune removes and
answers the blocks up to the finalized height. -/
theorem queue_indexes_agree {ops : List QueueOp} {q : QueuedBlocks}
    (hr : Run (fun q op q' => Careful q op ∧ QueueStep q op q') {} ops q) :
    Agree q ∧ (∀ op, (∃ q', QueueStep q op q' ∧ Agree q') ↔ Careful q op) ∧
      ∀ order finalized, Careful q (.pruneByHeight order finalized) →
        ∃ answers q', (q.pruneByHeight order finalized : Exec Empty _) = .ok (answers, q') ∧
          Prunes q finalized answers q' := by
  have hagree : Agree q := hr.invariant (fun _ _ _ h hs => agree_of_step h hs.1 hs.2) agree_empty
  refine ⟨hagree, agree_step_iff hagree, ?_⟩
  intro order finalized hmax
  obtain ⟨answers, q', hq', hprunes, -⟩ := hagree.pruneByHeight order hmax
  exact ⟨answers, q', hq', hprunes⟩

section

open Sample

def ascendingOrder : HashOrder := ⟨id, fun _ => .refl _⟩

def left : SemanticallyVerifiedBlock := semanticBlock 12 21 1 []
def right : SemanticallyVerifiedBlock := semanticBlock 12 22 2 []
def afterLeft : SemanticallyVerifiedBlock := semanticBlock 13 31 21 []

theorem afterLeft_pruned : ∃ q, Run (fun q op q' => Careful q op ∧ QueueStep q op q') {}
        [.queue left, .queue afterLeft, .dequeueChildren ascendingOrder 1] q ∧
      ∃ answers q', (q.pruneByHeight ascendingOrder 13 : Exec Empty _) = .ok (answers, q') ∧
        Prunes q 13 answers q' := by
  have hcareful : Careful ((QueuedBlocks.queue {} left).queue afterLeft) (.dequeueChildren ascendingOrder 1) := by
    unfold Careful
    decide +kernel
  have hagree := (agree_empty.queue left).queue afterLeft
  obtain ⟨q, hs, -⟩ := (agree_step_iff hagree _).2 hcareful
  have hr : Run (fun q op q' => Careful q op ∧ QueueStep q op q') {}
      [.queue left, .queue afterLeft, .dequeueChildren ascendingOrder 1] q :=
    .cons ⟨trivial, rfl⟩ (.cons ⟨trivial, rfl⟩ (.cons ⟨hcareful, hs⟩ (.nil q)))
  exact ⟨q, hr, (queue_indexes_agree hr).2.2 ascendingOrder 13 (show 13 < Height.max by decide)⟩

/-- Two blocks of one height wait for different parents. When one of them is dequeued, the
other one is no longer listed by height, and pruning at its height neither removes nor answers
it. -/
theorem right_not_pruned :
    ∃ q, Run QueueStep {} [.queue left, .queue right, .dequeueChildren ascendingOrder 1] q ∧ ¬ Agree q ∧
      right.hash ∈ q.blocks ∧ ∃ q', (q.pruneByHeight ascendingOrder right.height : Exec Empty _) = .ok ([], q') ∧
        right.hash ∈ q'.blocks := by
  have hrun : ∃ r ∈ (((QueuedBlocks.queue {} left).queue right).dequeueChildren ascendingOrder 1 :
      Exec Empty _).toOption, right.hash ∈ r.2.blocks ∧
        ∃ p ∈ (r.2.pruneByHeight ascendingOrder right.height : Exec Empty _).toOption,
          p.1 = [] ∧ right.hash ∈ p.2.blocks := by
    decide +kernel
  obtain ⟨⟨children, q⟩, hq, hmem, ⟨answers, q'⟩, hq', rfl, hmem'⟩ := hrun
  have hs : QueueStep ((QueuedBlocks.queue {} left).queue right) (.dequeueChildren ascendingOrder 1) q :=
    ⟨children, Outcome.toOption_eq_some.1 hq⟩
  refine ⟨q, .cons rfl (.cons rfl (.cons hs (.nil q))), ?_, hmem, q', Outcome.toOption_eq_some.1 hq', hmem'⟩
  intro hagree
  have hcareful := (agree_step_iff ((agree_empty.queue left).queue right) _).1 ⟨q, hs, hagree⟩
  revert hcareful
  unfold Careful
  decide +kernel

end

end Zebra.Properties
