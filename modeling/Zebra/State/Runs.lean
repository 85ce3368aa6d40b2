import Zebra.Lib.Transition
import Zebra.State.Chain

namespace Zebra

open Lib Lib.Transition

inductive ChainOp where
  | push (block : ContextuallyVerifiedBlock)
  | fork (hash : BlockHash)
  | popRoot

namespace ChainOp

def IsFork : ChainOp → Prop
  | fork _ => True
  | push _ | popRoot => False

@[simp] theorem isFork_push (b : ContextuallyVerifiedBlock) : (push b).IsFork ↔ False := Iff.rfl

@[simp] theorem isFork_popRoot : popRoot.IsFork ↔ False := Iff.rfl

theorem not_isFork_pushes (bs : Blocks) : ∀ op ∈ bs.map push, ¬ op.IsFork := by
  intro op hop
  obtain ⟨b, -, rfl⟩ := List.mem_map.1 hop
  exact id

theorem not_isFork_popRoots (n : Nat) : ∀ op ∈ List.replicate n popRoot, ¬ op.IsFork := by
  intro op hop
  rw [List.eq_of_mem_replicate hop]
  exact id

def notAbove (height : Nat) : ChainOp → Bool
  | push b => b.height ≤ height
  | fork _ | popRoot => true

end ChainOp

namespace Chain

/-- The height of the tip block, or of the finalized tip that a chain without blocks
starts from: the chain keeps a history tree for both. -/
def tipHeight (c : Chain) : Option Nat := c.inner.historyTreesByHeight.toList.getLast?.map Prod.fst

/-- What the callers of `push` have checked: the block is at the next height, which is the
one in its coinbase transaction. -/
structure IsNext (c : Chain) (b : ContextuallyVerifiedBlock) : Prop where
  height : c.tipHeight.map (· + 1) = some b.height
  height_le : b.height ≤ Height.max
  coinbaseHeight : b.block.coinbaseHeight = some b.height

variable [ScriptParsing] [MerkleHashing] [ChainHistory]

/-- The successful calls on a chain. -/
inductive Step : Chain → ChainOp → Chain → Prop
  | push {c c' : Chain} {b : ContextuallyVerifiedBlock} : c.IsNext b → c.push b = .ok c' → Step c (.push b) c'
  | fork {c c' : Chain} {hash : BlockHash} :
      (c.fork hash : Validated _) = .ok (some c') → Step c (.fork hash) c'
  | popRoot {c c' : Chain} {x : ContextuallyVerifiedBlock × Treestate} :
      (c.popRoot : Validated _) = .ok (x, c') → Step c .popRoot c'

omit [ScriptParsing] [MerkleHashing] [ChainHistory] in
theorem isNext_iff (c : Chain) (b : ContextuallyVerifiedBlock) :
    c.IsNext b ↔ c.tipHeight.map (· + 1) = some b.height ∧ b.height ≤ Height.max ∧
      b.block.coinbaseHeight = some b.height :=
  ⟨fun h => ⟨h.height, h.height_le, h.coinbaseHeight⟩, fun h => ⟨h.1, h.2.1, h.2.2⟩⟩

instance (c : Chain) (b : ContextuallyVerifiedBlock) : Decidable (c.IsNext b) :=
  decidable_of_iff _ (isNext_iff c b).symm

def perform (c : Chain) : ChainOp → Option Chain
  | .push b => if c.IsNext b then (c.push b).toOption else none
  | .fork hash => (c.fork hash : Validated _).toOption.join
  | .popRoot => (c.popRoot : Validated _).toOption.map Prod.snd

theorem step_iff_perform {c c' : Chain} {op : ChainOp} : c.Step op c' ↔ c.perform op = some c' := by
  cases op with
  | push b =>
    simp only [perform, Option.ite_none_right_eq_some, Outcome.toOption_eq_some]
    exact ⟨fun | .push hn hp => ⟨hn, hp⟩, fun ⟨hn, hp⟩ => .push hn hp⟩
  | fork hash =>
    simp only [perform, Option.join_eq_some_iff, Outcome.toOption_eq_some]
    exact ⟨fun | .fork hf => hf, .fork⟩
  | popRoot =>
    simp only [perform, Option.map_eq_some_iff, Outcome.toOption_eq_some]
    exact ⟨fun | .popRoot (x := x) hp => ⟨(x, c'), hp, rfl⟩, fun ⟨⟨x, _⟩, hp, rfl⟩ => .popRoot hp⟩

def performAll (c : Chain) : List ChainOp → Option Chain
  | [] => some c
  | op :: ops => (c.perform op).bind fun c => performAll c ops

theorem run_iff_performAll {c c' : Chain} {ops : List ChainOp} : Run Step c ops c' ↔ c.performAll ops = some c':= by
  induction ops generalizing c with
  | nil => simp [performAll, eq_comm]
  | cons op ops ih => simp only [run_cons_iff, performAll, Option.bind_eq_some_iff, ih, step_iff_perform]

end Chain

end Zebra
