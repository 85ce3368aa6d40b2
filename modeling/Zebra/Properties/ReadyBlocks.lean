import Zebra.Ledger.Sending
import Zebra.Properties.BlockQueue

namespace Zebra.Properties

open Lib Lib.Transition Ledger SendState

theorem parented_of_step {q q' : QueuedBlocks} {op : QueueOp} (h : Parented q) (hs : QueueStep q op q') : Parented q' := by
  cases op with
  | queue b =>
    obtain rfl := hs
    exact h.queue b
  | dequeueChildren order parent =>
    obtain ⟨children, hs⟩ := hs
    obtain ⟨children', q'', hq'', hd⟩ := h.dequeueChildren order parent
    obtain ⟨-, rfl⟩ := Prod.mk.inj (Except.ok.inj (hs.symm.trans hq''))
    exact hd.parented
  | pruneByHeight order finalized =>
    obtain ⟨answers, hs⟩ := hs
    obtain ⟨split, -, hs⟩ := bind_eq_ok.1 hs
    have hkept : Parented { q with byHeight := Std.ExtTreeMap.filter (fun height _ => decide (split ≤ height)) q.byHeight } :=
      ⟨h.keyed, h.byParent⟩
    exact hkept.of_expireAll hs

/-- From every queue, as long as the write task takes blocks, the loop ends without a panic. It
sends the queued descendants of `newParent`, each once, and after its parent unless that is
`newParent`. All other blocks stay in the queue. -/
theorem ready_blocks_sent {ops : List QueueOp} {q : QueuedBlocks} (hr : Run QueueStep {} ops q) (order : HashOrder)
    (sentHashes : SentHashes) (channel : List SemanticallyVerifiedBlock) (answers : List (BlockHash × CommitBlockError))
    (room : Nat) (hroom : q.blocks.size ≤ room) (newParent : BlockHash) : ∃ s' sent,
      (sendReadyNonFinalizedQueued order ⟨q, sentHashes, channel, answers⟩ (some room) newParent : Exec Empty _) = .ok s' ∧
      (∀ more, (sendLoop order (q.blocks.size + 2 + more) ⟨q, sentHashes, channel, answers⟩ room [newParent] : Exec Empty _) = .ok s') ∧
      s'.channel = channel ++ sent ∧
      (∀ b, b ∈ sent ↔ Descendant q newParent b) ∧ (sent.map (·.hash)).Nodup ∧ ParentsFirst [newParent] sent ∧
      ∀ (hash : BlockHash) (b : SemanticallyVerifiedBlock),
        s'.queued.blocks[hash]? = some b ↔ q.blocks[hash]? = some b ∧ ¬ Descendant q newParent b := by
  have hq : Parented q := hr.invariant (fun _ _ _ h hs => parented_of_step h hs) agree_empty.toParented
  have hrounds : q.blocks.size + [newParent].length < q.blocks.size + 2 := Nat.lt_succ_self _
  obtain ⟨s', sent, hloop, hchannel, -, hend⟩ :=
    (delivers_start hq sentHashes channel answers newParent).sendLoop order hq (List.append_nil _).symm hroom hrounds
  refine ⟨s', sent, hloop 0, hloop, hchannel, hend.mem_iff, hend.once, hend.first, fun hash b => ?_⟩
  rw [hend.kept, hend.mem_iff]

section

open Sample

theorem left_sent_first : ∃ q, Run QueueStep {} [.queue afterLeft, .queue right, .queue left] q ∧
      ∃ s' sent, (sendReadyNonFinalizedQueued ascendingOrder ⟨q, {}, [], []⟩ (some 3) 1 : Exec Empty _) = .ok s' ∧
        s'.channel = [] ++ sent ∧ ParentsFirst [1] sent := by
  have hr : Run QueueStep {} [.queue afterLeft, .queue right, .queue left]
      (((QueuedBlocks.queue {} afterLeft).queue right).queue left) := .cons rfl (.cons rfl (.cons rfl (.nil _)))
  obtain ⟨s', sent, hrun, -, hchannel, -, -, hfirst, -⟩ := ready_blocks_sent hr ascendingOrder {} [] [] 3 (by decide +kernel) 1
  exact ⟨_, hr, s', sent, hrun, hchannel, hfirst⟩

/-- The parent itself is queued: its child is sent, and it stays. -/
theorem queued_parent_not_sent :
    ∃ s', (sendReadyNonFinalizedQueued ascendingOrder ⟨(QueuedBlocks.queue {} left).queue afterLeft, {}, [], []⟩ (some 2) left.hash :
        Exec Empty _) = .ok s' ∧
      s'.channel.map (·.hash) = [afterLeft.hash] ∧ afterLeft.parentHash = left.hash ∧ left.hash ∈ s'.queued.blocks := by
  have hrun : (fun s : SendState => (s.channel.map (·.hash), decide (left.hash ∈ s.queued.blocks))) <$>
      (sendReadyNonFinalizedQueued ascendingOrder ⟨(QueuedBlocks.queue {} left).queue afterLeft, {}, [], []⟩ (some 2) left.hash :
        Exec Empty _) = .ok ([afterLeft.hash], true) := by
    decide +kernel
  obtain ⟨s', hs', heq⟩ := map_eq_ok.1 hrun
  obtain ⟨hchannel, hqueued⟩ := Prod.mk.inj heq
  exact ⟨s', hs', hchannel, rfl, of_decide_eq_true hqueued⟩

end

end Zebra.Properties
