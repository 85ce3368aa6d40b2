import Zebra.Lib.Transition
import Zebra.State.NonFinalizedState

namespace Zebra

open Lib Lib.Transition Outcome

structure NodeState where
  nonFinalized : NonFinalizedState
  db : ZebraDb

/-- The calls on the non-finalized state. A finalized block is written to the database, so
`finalize` also says what the database is afterwards. -/
inductive NodeOp where
  | commitNewChain (b : SemanticallyVerifiedBlock)
  | commitBlock (b : SemanticallyVerifiedBlock)
  | finalize (db : ZebraDb)
  | invalidateBlock (hash : BlockHash)
  | reconsiderBlock (hash : BlockHash)

namespace NodeState

variable [ScriptParsing] [MerkleHashing] [ChainHistory] [BlockHashing] [BlockCommitments]

/-- What semantic verification has checked about a block. -/
structure IsVerified (b : SemanticallyVerifiedBlock) : Prop where
  hash : b.hash = BlockHashing.hash b.block
  coinbaseHeight : b.block.coinbaseHeight = some b.height
  height_le : b.height ≤ Height.max

/-- What the callers of `commit_new_chain` and `commit_block` have checked: the block is at
the height above its parent, which is the finalized tip or a block of some chain. -/
def IsChild (n : NodeState) : NodeOp → Prop
  | .commitNewChain b => b.block.header.previousBlockHash = n.db.finalizedTipHash ∧
      n.db.finalizedTipHeight.map (· + 1) = some b.height
  | .commitBlock b => ∀ c ∈ n.nonFinalized.chainSet, ∀ height,
      c.inner.heightByHash[b.block.header.previousBlockHash]? = some height → b.height = height + 1
  | .finalize _ | .invalidateBlock _ | .reconsiderBlock _ => True

/-- The successful calls. -/
inductive Step : NodeState → NodeOp → NodeState → Prop
  | commitNewChain {n : NodeState} {b : SemanticallyVerifiedBlock} {s : NonFinalizedState} :
      IsVerified b → n.IsChild (.commitNewChain b) → n.nonFinalized.commitNewChain b n.db = .ok s →
      Step n (.commitNewChain b) ⟨s, n.db⟩
  | commitBlock {n : NodeState} {b : SemanticallyVerifiedBlock} {s : NonFinalizedState} :
      IsVerified b → n.IsChild (.commitBlock b) → n.nonFinalized.commitBlock b n.db = .ok s →
      Step n (.commitBlock b) ⟨s, n.db⟩
  | finalize {n : NodeState} {x : ContextuallyVerifiedBlock × Treestate} {s : NonFinalizedState} {db : ZebraDb} :
      (n.nonFinalized.finalize : Validated _) = .ok (x, s) → db.tip = some (x.1.height, x.1.hash) →
      Step n (.finalize db) ⟨s, db⟩
  | invalidateBlock {n : NodeState} {hash : BlockHash} {s : NonFinalizedState} :
      n.nonFinalized.invalidateBlock hash = .ok (hash, s) → Step n (.invalidateBlock hash) ⟨s, n.db⟩
  | reconsiderBlock {n : NodeState} {hash : BlockHash} {hashes : List BlockHash} {s : NonFinalizedState} :
      n.nonFinalized.reconsiderBlock hash n.db = .ok (hashes, s) → Step n (.reconsiderBlock hash) ⟨s, n.db⟩

omit [ScriptParsing] [MerkleHashing] [ChainHistory] [BlockCommitments] in
theorem isVerified_iff (b : SemanticallyVerifiedBlock) :
    IsVerified b ↔ b.hash = BlockHashing.hash b.block ∧ b.block.coinbaseHeight = some b.height ∧
      b.height ≤ Height.max :=
  ⟨fun h => ⟨h.hash, h.coinbaseHeight, h.height_le⟩, fun h => ⟨h.1, h.2.1, h.2.2⟩⟩

instance (b : SemanticallyVerifiedBlock) : Decidable (IsVerified b) := decidable_of_iff _ (isVerified_iff b).symm

instance (n : NodeState) : (op : NodeOp) → Decidable (n.IsChild op)
  | .commitNewChain _ => inferInstanceAs (Decidable (_ ∧ _))
  | .commitBlock b => decidable_of_iff
      (∀ c ∈ n.nonFinalized.chainSet, ∀ height ∈ c.inner.heightByHash[b.block.header.previousBlockHash]?,
        b.height = height + 1) Iff.rfl
  | .finalize _ | .invalidateBlock _ | .reconsiderBlock _ => isTrue trivial

/-- The state after a successful call. -/
def perform (n : NodeState) : NodeOp → Option NodeState
  | .commitNewChain b =>
    if IsVerified b ∧ n.IsChild (.commitNewChain b) then
      (n.nonFinalized.commitNewChain b n.db).toOption.map fun s => ⟨s, n.db⟩
    else none
  | .commitBlock b =>
    if IsVerified b ∧ n.IsChild (.commitBlock b) then
      (n.nonFinalized.commitBlock b n.db).toOption.map fun s => ⟨s, n.db⟩
    else none
  | .finalize db =>
    (n.nonFinalized.finalize : Validated _).toOption.bind fun (x, s) =>
      if db.tip = some (x.1.height, x.1.hash) then some ⟨s, db⟩ else none
  | .invalidateBlock hash => (n.nonFinalized.invalidateBlock hash).toOption.map fun x => ⟨x.2, n.db⟩
  | .reconsiderBlock hash => (n.nonFinalized.reconsiderBlock hash n.db).toOption.map fun x => ⟨x.2, n.db⟩

theorem step_of_perform {n n' : NodeState} {op : NodeOp} (h : n.perform op = some n') : n.Step op n' := by
  cases op with
  | commitNewChain b =>
    obtain ⟨⟨hv, hc⟩, h⟩ := Option.ite_none_right_eq_some.1 h
    obtain ⟨s, hs, rfl⟩ := Option.map_eq_some_iff.1 h
    exact .commitNewChain hv hc (toOption_eq_some.1 hs)
  | commitBlock b =>
    obtain ⟨⟨hv, hc⟩, h⟩ := Option.ite_none_right_eq_some.1 h
    obtain ⟨s, hs, rfl⟩ := Option.map_eq_some_iff.1 h
    exact .commitBlock hv hc (toOption_eq_some.1 hs)
  | finalize db =>
    obtain ⟨⟨x, s⟩, hs, h⟩ := Option.bind_eq_some_iff.1 h
    obtain ⟨htip, h⟩ := Option.ite_none_right_eq_some.1 h
    cases h
    exact .finalize (toOption_eq_some.1 hs) htip
  | invalidateBlock hash =>
    obtain ⟨⟨hash', s⟩, hs, rfl⟩ := Option.map_eq_some_iff.1 h
    rw [toOption_eq_some] at hs
    obtain rfl : hash' = hash := by
      unfold NonFinalizedState.invalidateBlock at hs
      split at hs
      · simp at hs
      · obtain ⟨⟨s₁, blocks⟩, -, hs⟩ := bind_eq_ok.1 hs
        obtain ⟨s₂, -, hs⟩ := bind_eq_ok.1 hs
        exact (congrArg Prod.fst (Except.ok.inj hs)).symm
    exact .invalidateBlock hs
  | reconsiderBlock hash =>
    obtain ⟨⟨hashes, s⟩, hs, rfl⟩ := Option.map_eq_some_iff.1 h
    exact .reconsiderBlock (toOption_eq_some.1 hs)

def performAll (n : NodeState) : List NodeOp → Option NodeState
  | [] => some n
  | op :: ops => (n.perform op).bind fun n => performAll n ops

theorem run_of_performAll {n n' : NodeState} {ops : List NodeOp} (h : n.performAll ops = some n') :
    Run Step n ops n' := by
  induction ops generalizing n with
  | nil => simpa [performAll, eq_comm] using h
  | cons op ops ih =>
    obtain ⟨n₁, h₁, h⟩ := Option.bind_eq_some_iff.1 h
    exact .cons (step_of_perform h₁) (ih h)

end NodeState

end Zebra
