import Mathlib.Algebra.Group.Nat.Defs
import Zebra.Panic

namespace Zebra

open Lib

inductive Pool where
  | sprout
  | sapling
  | orchard
deriving DecidableEq

def Pool.depth : Pool → Nat
  | sprout => 29
  | sapling => 32
  | orchard => 32

/-- The Merkle hashes of the tree library: the root of a whole tree and the root of the
last complete level 16 subtree, as functions of the leaves. -/
class MerkleHashing where
  root : Pool → List Nat → Nat
  subtreeRoot : Pool → List Nat → Nat

/-- A note commitment tree, by its leaves. Like a frontier it knows its number of leaves. -/
structure NoteCommitmentTree (p : Pool) where
  leaves : List Nat
  count : Nat
  length_leaves : leaves.length = count
  count_le : count ≤ 2 ^ p.depth

inductive NoteCommitmentTreeError where
  | fullTree (p : Pool)
deriving DecidableEq

structure NoteCommitmentSubtreeData where
  endHeight : Nat
  root : Nat
deriving DecidableEq

structure NoteCommitmentSubtree where
  index : Nat
  endHeight : Nat
  root : Nat
deriving DecidableEq

def NoteCommitmentSubtree.intoData (s : NoteCommitmentSubtree) : NoteCommitmentSubtreeData :=
  ⟨s.endHeight, s.root⟩

def NoteCommitmentSubtreeData.withIndex (d : NoteCommitmentSubtreeData) (index : Nat) :
    NoteCommitmentSubtree :=
  ⟨index, d.endHeight, d.root⟩

def trackedSubtreeHeight : Nat := 16

namespace NoteCommitmentTree

variable {p : Pool}

def empty : NoteCommitmentTree p := ⟨[], 0, rfl, Nat.zero_le _⟩

def append (t : NoteCommitmentTree p) (cm : Nat) : Except NoteCommitmentTreeError (NoteCommitmentTree p) :=
  if h : t.count < 2 ^ p.depth then
    .ok ⟨t.leaves ++ [cm], t.count + 1, by simp [t.length_leaves], h⟩
  else .error (.fullTree p)

def isCompleteSubtree (t : NoteCommitmentTree p) : Bool :=
  t.count ≠ 0 && t.count % 2 ^ trackedSubtreeHeight = 0

def subtreeIndex (t : NoteCommitmentTree p) : Option Nat :=
  if t.count = 0 then none else some ((t.count - 1) / 2 ^ trackedSubtreeHeight)

@[ext]
theorem ext {t t' : NoteCommitmentTree p} (h : t.leaves = t'.leaves) : t = t' := by
  obtain ⟨l, c, hc, _⟩ := t
  obtain ⟨l', c', hc', _⟩ := t'
  simp only at h
  subst h hc hc'
  rfl

theorem append_eq_ok {t t' : NoteCommitmentTree p} {cm : Nat} :
    t.append cm = .ok t' ↔ t.count < 2 ^ p.depth ∧ t'.leaves = t.leaves ++ [cm] := by
  unfold append
  split
  · rename_i h
    rw [Except.ok.injEq, NoteCommitmentTree.ext_iff]
    simp [h, eq_comm]
  · rename_i h
    simp [h]

variable [MerkleHashing]

/-- The root of the tree. Every tree that the state compares has its root cached, so tree
equality in the source is equality of roots. -/
def root (t : NoteCommitmentTree p) : Nat := MerkleHashing.root p t.leaves

def completedSubtreeIndexAndRoot (t : NoteCommitmentTree p) : Option (Nat × Nat) :=
  if t.isCompleteSubtree then t.subtreeIndex.map fun i => (i, MerkleHashing.subtreeRoot p t.leaves)
  else none

/-- Append the commitments of a block, remembering the last subtree they complete. -/
def appendAll (t : NoteCommitmentTree p) (subtree : Option (Nat × Nat)) :
    List Nat → Except NoteCommitmentTreeError (NoteCommitmentTree p × Option (Nat × Nat))
  | [] => .ok (t, subtree)
  | cm :: cms => do
    let t ← t.append cm
    let subtree := match t.completedSubtreeIndexAndRoot with
      | some s => some s
      | none => subtree
    appendAll t subtree cms

end NoteCommitmentTree

end Zebra
