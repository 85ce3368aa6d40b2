import Zebra.Ledger.NodeRuns

namespace Zebra.Ledger

open Lib

def allBlocks (s : NonFinalizedState) : Blocks := s.chainSet.flatMap blocksOf

/-- `hash` and the blocks that are reached from it by going from a block to its children. -/
inductive Descends (s : NonFinalizedState) (hash : BlockHash) : BlockHash → Prop
  | self : Descends s hash hash
  | child {b : ContextuallyVerifiedBlock} : b ∈ allBlocks s → Descends s hash b.block.header.previousBlockHash →
      Descends s hash b.hash

theorem mem_allBlocks {s : NonFinalizedState} {b : ContextuallyVerifiedBlock} :
    b ∈ allBlocks s ↔ ∃ c ∈ s.chainSet, b ∈ blocksOf c := by
  rw [allBlocks, List.mem_flatMap]

variable {i j : Nat}

section

variable [BlockHashing] {parent : BlockHash} {bs bs' : Blocks}

theorem Chained.parent_getElem (h : Chained parent bs) (hi : i + 1 < bs.length) :
    bs[i + 1].block.header.previousBlockHash = bs[i].hash := by
  induction bs generalizing parent i with
  | nil => simp at hi
  | cons b bs ih =>
    cases i with
    | zero =>
      cases bs with
      | nil => simp at hi
      | cons b' bs => exact h.2.2.1
    | succ i => exact ih h.2.2 (by simpa using hi)

theorem Chained.hash_eq_of_le (hdet : HashDetermines) (h : Chained parent bs)
    (h' : Chained parent bs') (hj : j < bs.length) (hj' : j < bs'.length) (heq : bs[j].hash = bs'[j].hash)
    (hij : i ≤ j) : bs[i].hash = bs'[i].hash := by
  induction j with
  | zero =>
    obtain rfl : i = 0 := by omega
    exact heq
  | succ j ih =>
    rcases Nat.lt_or_eq_of_le hij with hij | rfl
    · have hb : BlockHashing.hash bs[j + 1].block = BlockHashing.hash bs'[j + 1].block := by
        rw [← h.hash_eq (List.getElem_mem hj), ← h'.hash_eq (List.getElem_mem hj'), heq]
      refine ih (by omega) (by omega) ?_ (by omega)
      rw [← h.parent_getElem hj, ← h'.parent_getElem hj', (hdet _ _ hb).1]
    · exact heq

end

variable [ScriptParsing] [MerkleHashing] [ChainHistory] [BlockHashing] {net : Network} {tip : Nat × BlockHash}
  {s : NonFinalizedState} {c d : Chain} {hash x : BlockHash}

theorem Rooted.known (h : Rooted net tip c) (hi : i < (blocksOf c).length) :
    Known (blocksOf c)[i].hash (tip.1 + i + 1) := by
  have hh := (h.height (List.getElem?_eq_getElem hi)).1
  exact hh ▸ known_of_mem h.chained h.consecutive (List.getElem_mem hi)

theorem Rooted.index_eq (hdet : HashDetermines) (hc : Rooted net tip c) (hd : Rooted net tip d) (hi : i < (blocksOf c).length) (hj : j < (blocksOf d).length)
    (heq : (blocksOf c)[i].hash = (blocksOf d)[j].hash) : i = j := by
  have := (hc.known hi).unique hdet (heq ▸ hd.known hj)
  omega

theorem Rooted.ne_tip (hdet : HashDetermines) (htip : Known tip.2 tip.1) (hc : Rooted net tip c) (hi : i < (blocksOf c).length) : (blocksOf c)[i].hash ≠ tip.2 := by
  intro heq
  have := (hc.known hi).unique hdet (heq ▸ htip)
  omega

theorem descends_iff (hdet : HashDetermines) (htip : Known tip.2 tip.1)
    (hs : ∀ c ∈ s.chainSet, Rooted net tip c) (hmem : hash ∈ (allBlocks s).map (·.hash)) (hc : c ∈ s.chainSet)
    (hi : i < (blocksOf c).length) :
    Descends s hash (blocksOf c)[i].hash ↔ ∃ j, ∃ hj : j < (blocksOf c).length, j ≤ i ∧ (blocksOf c)[j].hash = hash := by
  refine ⟨fun h => ?_, ?_⟩
  · generalize hx : (blocksOf c)[i].hash = x at h
    induction h generalizing c i with
    | self => exact ⟨i, hi, le_rfl, hx⟩
    | @child b hb hd ih =>
      obtain ⟨d, hd', hb'⟩ := mem_allBlocks.1 hb
      have hblock : (blocksOf c)[i].block.header.previousBlockHash = b.block.header.previousBlockHash := by
        refine (hdet _ _ ?_).1
        rw [← (hs c hc).chained.hash_eq (List.getElem_mem hi), ← (hs d hd').chained.hash_eq hb', hx]
      cases i with
      | zero =>
        -- the parent of a root is the finalized tip, which descends from no block of a chain
        have hparent : b.block.header.previousBlockHash = tip.2 := by
          have hch := (hs c hc).chained
          cases hbs : blocksOf c with
          | nil => simp [hbs] at hi
          | cons b' bs =>
            simp only [hbs, List.getElem_cons_zero] at hblock hch
            rw [← hblock]
            exact hch.1
        have hstate : ∀ y, Descends s hash y → y ∈ (allBlocks s).map (·.hash) := by
          rintro y (_ | ⟨hy, _⟩)
          · exact hmem
          · exact List.mem_map_of_mem hy
        obtain ⟨b', hb'', heq⟩ := List.mem_map.1 (hstate _ hd)
        obtain ⟨d', hd'', hmem'⟩ := mem_allBlocks.1 hb''
        obtain ⟨k, hk, rfl⟩ := List.getElem_of_mem hmem'
        exact absurd (heq.trans hparent) ((hs d' hd'').ne_tip hdet htip hk)
      | succ i =>
        obtain ⟨j, hj, hle, hjh⟩ := ih hc (i := i) (by omega)
          (by rw [← (hs c hc).chained.parent_getElem hi, hblock])
        exact ⟨j, hj, by omega, hjh⟩
  · rintro ⟨j, hj, hle, rfl⟩
    induction i with
    | zero =>
      obtain rfl : j = 0 := by omega
      exact .self
    | succ i ih =>
      rcases Nat.lt_or_eq_of_le hle with hlt | rfl
      · refine .child (mem_allBlocks.2 ⟨c, hc, List.getElem_mem hi⟩) ?_
        rw [(hs c hc).chained.parent_getElem hi]
        exact ih (by omega) (by omega)
      · exact .self

end Zebra.Ledger
