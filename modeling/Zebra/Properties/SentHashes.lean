import Zebra.Ledger.Sending
import Zebra.Properties.BlockQueue

namespace Zebra.Properties

open Lib Lib.Transition Ledger SendState

inductive SentOp where
  /-- Blocks are sent from a queue, whose contents do not depend on what was sent before. -/
  | sendReady (order : HashOrder) (sender : Option Nat) (queued : QueuedBlocks) (newParent : BlockHash)
  | pruneByHeight (bound : Nat)

def QueueOf (heightOf : BlockHash → Nat) (q : QueuedBlocks) : Prop :=
  Parented q ∧ ∀ (hash : BlockHash) (b : SemanticallyVerifiedBlock), q.blocks[hash]? = some b → b.height = heightOf hash

def SentStep (heightOf : BlockHash → Nat) (s : SentHashes) : SentOp → SentHashes → Prop
  | .sendReady order sender queued newParent, s' => QueueOf heightOf queued ∧ ∃ r : SendState,
      (sendReadyNonFinalizedQueued order ⟨queued, s, [], []⟩ sender newParent : Exec Empty _) = .ok r ∧ r.sentHashes = s'
  | .pruneByHeight bound, s' => s' = s.pruneByHeight bound

/-- If there is a sender, the blocks to send are in order. -/
def InOrder (s : SentHashes) : SentOp → Prop
  | .sendReady _ sender queued newParent => sender.isSome → SendsInOrder queued newParent s
  | .pruneByHeight _ => True

variable {heightOf : BlockHash → Nat} {s s' : SentHashes}

theorem pending_of_sendsInOrder {q : QueuedBlocks} {newParent : BlockHash} (hq : QueueOf heightOf q)
    (h : SendsInOrder q newParent s) (hprunable : Prunable s) (hheights : HasHeights heightOf s) :
    Pending q newParent heightOf ⟨q, s, [], []⟩ [newParent] where
  parented := hq.1
  queued _ _ hb := hb
  below _ hp := List.mem_singleton.1 hp ▸ .root
  stack := List.pairwise_singleton _ _
  currBuf _ hp c hc := h.currBuf c (List.mem_singleton.1 hp ▸ hc)
  prunable := hprunable
  heights := hheights

theorem sent_step {op : SentOp} (hs : SentStep heightOf s op s') (horder : InOrder s op) (hprunable : Prunable s)
    (hheights : HasHeights heightOf s) : Prunable s' ∧ HasHeights heightOf s' := by
  cases op with
  | sendReady order sender queued newParent =>
    obtain ⟨hq, r, hr, rfl⟩ := hs
    cases sender with
    | none =>
      cases hr
      exact ⟨hprunable, hheights⟩
    | some room =>
      have hin := horder rfl
      exact (pending_of_sendsInOrder hq hin hprunable hheights).sendLoop hin (fun c p hc => hq.2 _ c hc.1) hr
  | pruneByHeight bound =>
    obtain rfl := hs
    exact ⟨hprunable.prune bound, hheights.prune bound⟩

theorem exists_sendReady {q : QueuedBlocks} (hq : QueueOf heightOf q) (s : SentHashes) (order : HashOrder)
    (sender : Option Nat) (newParent : BlockHash) :
    ∃ s', SentStep heightOf s (.sendReady order sender q newParent) s' := by
  cases sender with
  | none => exact ⟨_, hq, _, rfl, rfl⟩
  | some room =>
    have hends : ∃ r, ∀ more,
        (sendLoop order (q.blocks.size + 2 + more) ⟨q, s, [], []⟩ room [newParent] : Exec Empty _) = .ok r :=
      sendLoop_ends hq.1 (by simp)
    obtain ⟨r, hr⟩ := hends
    exact ⟨_, hq, r, hr 0, rfl⟩

/-- If the chains and every batch are in order, pruning at a height removes the sent blocks up
to it and no others, after every run. Sending from any queue returns. -/
theorem sent_hashes_pruned {state : NonFinalizedState}
    (hheights : ∀ b ∈ chainBlocks state, b.height = heightOf b.hash) (hstate : ChainsInOrder state)
    {ops : List SentOp}
    (hr : Run (fun s op s' => InOrder s op ∧ SentStep heightOf s op s') (SentHashes.new state) ops s) :
    PrunesExactly heightOf s ∧ ∀ q, QueueOf heightOf q → ∀ order sender newParent,
      ∃ s', SentStep heightOf s (.sendReady order sender q newParent) s' := by
  have hinv : Prunable s ∧ HasHeights heightOf s :=
    hr.invariant (P := fun s => Prunable s ∧ HasHeights heightOf s)
      (fun _ _ _ h hs => sent_step hs.2 hs.1 h.1 h.2) (prunable_new hstate hheights)
  refine ⟨(prunesExactly_iff hinv.2).2 hinv.1, ?_⟩
  intro q hq order sender newParent
  exact exists_sendReady hq s order sender newParent

section

open Sample

def sampleHeight (hash : BlockHash) : Nat := hash / 10 + 10

def queueAll (bs : SemanticBlocks) : QueuedBlocks := bs.foldl QueuedBlocks.queue {}

theorem queueAll_concat (bs : SemanticBlocks) (b : SemanticallyVerifiedBlock) :
    queueAll (bs ++ [b]) = (queueAll bs).queue b := by
  rw [queueAll, List.foldl_append, ← queueAll, List.foldl_cons, List.foldl_nil]

theorem parented_queueAll (bs : SemanticBlocks) : Parented (queueAll bs) := by
  induction bs using List.reverseRecOn with
  | nil => exact agree_empty.toParented
  | append_singleton bs b ih => exact queueAll_concat bs b ▸ ih.queue b

theorem mem_of_queueAll {bs : SemanticBlocks} {hash : BlockHash} {b : SemanticallyVerifiedBlock}
    (h : (queueAll bs).blocks[hash]? = some b) : b ∈ bs := by
  induction bs using List.reverseRecOn with
  | nil => simp [queueAll] at h
  | append_singleton bs b' ih =>
    rw [queueAll_concat, QueuedBlocks.queue] at h
    split at h
    · exact List.mem_append_left _ (ih h)
    · rw [Std.ExtTreeMap.getElem?_insert] at h
      split at h
      · exact List.mem_append_right _ (by simpa using h.symm)
      · exact List.mem_append_left _ (ih h)

theorem queueOf_queueAll {bs : SemanticBlocks} (hbs : ∀ b ∈ bs, b.height = heightOf b.hash) :
    QueueOf heightOf (queueAll bs) := by
  refine ⟨parented_queueAll bs, fun hash b hb => ?_⟩
  rw [← (parented_queueAll bs).keyed hash b hb]
  exact hbs b (mem_of_queueAll hb)

theorem chainBlocks_new (net : Network) : chainBlocks (.new net) = [] := rfl

theorem chainsInOrder_new (net : Network) : ChainsInOrder (.new net) := by
  intro before b after h
  simp [chainBlocks_new] at h

theorem child_leftQueue {p : BlockHash} {c : SemanticallyVerifiedBlock} (h : Child (queueAll [left, afterLeft]) p c) :
    p = 1 ∧ c = left ∨ p = 21 ∧ c = afterLeft := by
  obtain ⟨hc, rfl⟩ := h
  rcases List.mem_cons.1 (mem_of_queueAll hc) with rfl | hc
  · exact .inl ⟨rfl, rfl⟩
  · obtain rfl := List.mem_singleton.1 hc
    exact .inr ⟨rfl, rfl⟩

theorem sendsInOrder_leftQueue : SendsInOrder (queueAll [left, afterLeft]) 1 (SentHashes.new (.new network)) where
  level c c' hc hc' := by
    rcases child_leftQueue hc with ⟨-, rfl⟩ | ⟨hp, -⟩
    · rcases child_leftQueue hc' with ⟨-, rfl⟩ | ⟨hp, -⟩
      · rfl
      · exact absurd hp (by decide)
    · exact absurd hp (by decide)
  next parent c d _ hc hd := by
    rcases child_leftQueue hc with ⟨-, rfl⟩ | ⟨-, rfl⟩
    · rcases child_leftQueue hd with ⟨hp, -⟩ | ⟨-, rfl⟩
      · exact absurd hp (by decide)
      · decide
    · rcases child_leftQueue hd with ⟨hp, -⟩ | ⟨hp, -⟩
      · exact absurd hp (by decide)
      · exact absurd hp (by decide)
  narrow parent c c' d' d e _ hc hc' hne _ _ _ := by
    rcases child_leftQueue hc with ⟨rfl, rfl⟩ | ⟨rfl, rfl⟩
    · rcases child_leftQueue hc' with ⟨-, rfl⟩ | ⟨hp, -⟩
      · exact hne rfl
      · exact absurd hp (by decide)
    · rcases child_leftQueue hc' with ⟨hp, -⟩ | ⟨-, rfl⟩
      · exact absurd hp (by decide)
      · exact hne rfl
  currBuf c _ e he := nomatch he

theorem leftQueue_pruned :
    ∃ s, Run (fun s op s' => InOrder s op ∧ SentStep sampleHeight s op s') (SentHashes.new (.new network))
        [.sendReady ascendingOrder (some 10) (queueAll [left, afterLeft]) 1] s ∧
      PrunesExactly sampleHeight s := by
  have hq : QueueOf sampleHeight (queueAll [left, afterLeft]) := queueOf_queueAll (by decide)
  obtain ⟨s, hs⟩ := exists_sendReady hq (SentHashes.new (.new network)) ascendingOrder (some 10) 1
  have hr : Run (fun s op s' => InOrder s op ∧ SentStep sampleHeight s op s') (SentHashes.new (.new network))
      [.sendReady ascendingOrder (some 10) (queueAll [left, afterLeft]) 1] s :=
    .cons ⟨fun _ => sendsInOrder_leftQueue, hs⟩ (.nil s)
  exact ⟨s, hr, (sent_hashes_pruned (by simp [chainBlocks_new]) (chainsInOrder_new network) hr).1⟩

def forkedQueue : QueuedBlocks :=
  queueAll [left, semanticBlock 12 22 1 [], semanticBlock 13 32 22 [], semanticBlock 14 42 32 [], afterLeft]

/-- The last branch is sent up to height 14 before the block at height 13 of the other one,
which is then kept when the batch is pruned at height 13. -/
theorem afterLeft_kept :
    ∃ s, Run (SentStep sampleHeight) (SentHashes.new (.new network))
        [.sendReady ascendingOrder (some 10) forkedQueue 1] s ∧
      sampleHeight afterLeft.hash ≤ 13 ∧ afterLeft.hash ∈ (s.pruneByHeight 13).sent := by
  have hrun : ∃ r ∈ (sendReadyNonFinalizedQueued ascendingOrder ⟨forkedQueue, SentHashes.new (.new network), [], []⟩
      (some 10) 1 : Exec Empty _).toOption, afterLeft.hash ∈ (r.sentHashes.pruneByHeight 13).sent := by
    decide +kernel
  obtain ⟨r, hr, hmem⟩ := hrun
  refine ⟨r.sentHashes, .cons ⟨queueOf_queueAll (by decide), r, Outcome.toOption_eq_some.1 hr, rfl⟩ (.nil _), ?_, hmem⟩
  decide

end

end Zebra.Properties
