import Mathlib.Data.List.Induction
import Mathlib.Data.List.TakeWhile
import Zebra.Ledger.Queue

namespace Zebra.Ledger

open Lib Std KeyedMap SentHashes

def batches (s : SentHashes) : List (List (BlockHash × Nat)) := s.bufs ++ [s.currBuf]

def HasHeights (heightOf : BlockHash → Nat) (s : SentHashes) : Prop :=
  ∀ buf ∈ batches s, ∀ e ∈ buf, e.2 = heightOf e.1

/-- A hash stands in a batch before all higher blocks. -/
def Ordered (buf : List (BlockHash × Nat)) (hash : BlockHash) : Prop :=
  ∃ before height after, buf = before ++ (hash, height) :: after ∧ ∀ e ∈ before, e.2 ≤ height

/-- Every sent hash stands in some batch before all higher blocks. -/
def Prunable (s : SentHashes) : Prop := ∀ hash ∈ s.sent, ∃ buf ∈ batches s, Ordered buf hash

/-- Pruning at any height removes the blocks up to it and no others. -/
def PrunesExactly (heightOf : BlockHash → Nat) (s : SentHashes) : Prop :=
  ∀ bound hash, hash ∈ (s.pruneByHeight bound).sent ↔ hash ∈ s.sent ∧ bound < heightOf hash

def popped (bound : Nat) (buf : List (BlockHash × Nat)) : List (BlockHash × Nat) :=
  buf.takeWhile fun e => decide (e.2 ≤ bound)

def remaining (bound : Nat) (buf : List (BlockHash × Nat)) : List (BlockHash × Nat) :=
  buf.dropWhile fun e => decide (e.2 ≤ bound)

variable {s : SentHashes} {heightOf : BlockHash → Nat} {bound : Nat} {hash : BlockHash} {buf : List (BlockHash × Nat)}

theorem popped_append_remaining (bound : Nat) (buf : List (BlockHash × Nat)) :
    popped bound buf ++ remaining bound buf = buf :=
  List.takeWhile_append_dropWhile

variable {e : BlockHash × Nat} {b : SemanticallyVerifiedBlock} {bs : SemanticBlocks}

theorem popped_append_cons {before after : List (BlockHash × Nat)}
    (h : ∀ e' ∈ before, e'.2 ≤ bound) (he : e.2 ≤ bound) :
    popped bound (before ++ e :: after) = before ++ e :: popped bound after := by
  rw [popped, List.takeWhile_append_of_pos fun e' he' => decide_eq_true (h e' he')]
  simp [popped, he]

theorem remaining_append_cons (before after : List (BlockHash × Nat)) (he : bound < e.2) :
    remaining bound (before ++ e :: after) = remaining bound before ++ e :: after := by
  rw [remaining, List.dropWhile_append]
  split
  · rename_i hnil
    rw [remaining, List.isEmpty_iff.1 hnil]
    simp [he]
  · rfl

theorem le_of_mem_popped (he : e ∈ popped bound buf) : e.2 ≤ bound := by
  simpa using List.mem_takeWhile_imp he

theorem pruneBuf_eq (bound : Nat) (s : SentHashes) (buf : List (BlockHash × Nat)) :
    (pruneBuf bound s buf).1 = remaining bound buf ∧
      (pruneBuf bound s buf).2.sent = s.sent.eraseAll ((popped bound buf).map Prod.fst) ∧
      (pruneBuf bound s buf).2.bufs = s.bufs ∧ (pruneBuf bound s buf).2.currBuf = s.currBuf:= by
  induction buf generalizing s with
  | nil => exact ⟨rfl, rfl, rfl, rfl⟩
  | cons e buf ih =>
    obtain ⟨hash, height⟩ := e
    rw [pruneBuf]
    by_cases hlt : bound < height
    · simp [hlt, remaining, popped, KeyedMap.eraseAll]
    rw [if_neg hlt]
    have hrem : remaining bound ((hash, height) :: buf) = remaining bound buf :=
      List.dropWhile_cons_of_pos (decide_eq_true (Nat.not_lt.1 hlt))
    have hpop : popped bound ((hash, height) :: buf) = (hash, height) :: popped bound buf :=
      List.takeWhile_cons_of_pos (decide_eq_true (Nat.not_lt.1 hlt))
    rw [hrem, hpop, List.map_cons, KeyedMap.eraseAll, List.foldl_cons, ← KeyedMap.eraseAll]
    cases hsent : s.sent[hash]? with
    | some outpoints => exact ih _
    | none =>
      have herase : s.sent.erase hash = s.sent := erase_eq_self (by
        rw [ExtTreeMap.mem_iff_isSome_getElem?, hsent]
        exact Bool.false_ne_true)
      rw [herase]
      exact ih s

theorem pruneBufs_eq (bound : Nat) (s : SentHashes) (bufs : List (List (BlockHash × Nat))) :
    (pruneBufs bound s bufs).1 = (bufs.map (remaining bound)).filter (· ≠ []) ∧
      (pruneBufs bound s bufs).2.sent = s.sent.eraseAll ((bufs.flatMap (popped bound)).map Prod.fst) ∧
      (pruneBufs bound s bufs).2.currBuf = s.currBuf := by
  induction bufs generalizing s with
  | nil => exact ⟨rfl, rfl, rfl⟩
  | cons buf bufs ih =>
    obtain ⟨hbuf, hsent, -, hcurr⟩ := pruneBuf_eq bound s buf
    obtain ⟨hbufs, hsent', hcurr'⟩ := ih (pruneBuf bound s buf).2
    refine ⟨?_, ?_, hcurr'.trans hcurr⟩
    · simp only [pruneBufs, hbuf, hbufs, List.map_cons, List.filter_cons]
      by_cases hnil : remaining bound buf = [] <;> simp [hnil]
    · simp only [pruneBufs, hsent', hsent, List.flatMap_cons, List.map_append, KeyedMap.eraseAll,
        List.foldl_append]

theorem mem_batches_finishBatch : buf ∈ s.finishBatch.bufs → buf ∈ batches s := by
  rw [finishBatch]
  split
  · exact fun h => List.mem_append_left _ h
  · exact id

theorem mem_finishBatch (h : buf ∈ batches s) (hne : buf ≠ []) : buf ∈ s.finishBatch.bufs := by
  rw [finishBatch]
  split
  · rename_i hnil
    rcases List.mem_append.1 h with h | h
    · exact h
    · rw [List.mem_singleton.1 h] at hne
      exact absurd hnil hne
  · exact h

@[simp] theorem sent_finishBatch (s : SentHashes) : s.finishBatch.sent = s.sent := by
  rw [finishBatch]
  split <;> rfl

@[simp] theorem currBuf_finishBatch (s : SentHashes) : s.finishBatch.currBuf = [] := by
  rw [finishBatch]
  split
  · assumption
  · rfl

theorem batches_finishBatch (h : buf ∈ batches s) (hne : buf ≠ []) : buf ∈ batches s.finishBatch :=
  List.mem_append_left _ (mem_finishBatch h hne)

theorem mem_sent_prune_iff : hash ∈ (s.pruneByHeight bound).sent ↔
      hash ∈ s.sent ∧ ¬ ∃ buf ∈ batches s, ∃ e ∈ popped bound buf, e.1 = hash := by
  have h : (s.pruneByHeight bound).sent =
      s.sent.eraseAll ((s.finishBatch.bufs.flatMap (popped bound)).map Prod.fst) := by
    rw [← sent_finishBatch s]
    exact (pruneBufs_eq bound s.finishBatch s.finishBatch.bufs).2.1
  rw [h, mem_eraseAll_iff]
  refine and_congr_right fun _ => not_congr ?_
  rw [List.mem_map]
  constructor
  · rintro ⟨e, he, rfl⟩
    obtain ⟨buf, hbuf, he⟩ := List.mem_flatMap.1 he
    exact ⟨buf, mem_batches_finishBatch hbuf, e, he, rfl⟩
  · rintro ⟨buf, hbuf, e, he, rfl⟩
    have hne : buf ≠ [] := by
      rintro rfl
      cases he
    exact ⟨e, List.mem_flatMap.2 ⟨buf, mem_finishBatch hbuf hne, he⟩, rfl⟩

theorem mem_batches_prune_iff : buf ∈ batches (s.pruneByHeight bound) ↔
      buf = [] ∨ ∃ buf' ∈ batches s, remaining bound buf' = buf ∧ buf ≠ [] := by
  have hbufs : (s.pruneByHeight bound).bufs = (s.finishBatch.bufs.map (remaining bound)).filter (· ≠ []) :=
    (pruneBufs_eq bound s.finishBatch s.finishBatch.bufs).1
  have hcurr : (s.pruneByHeight bound).currBuf = [] :=
    (pruneBufs_eq bound s.finishBatch s.finishBatch.bufs).2.2.trans (currBuf_finishBatch s)
  rw [batches, hbufs, hcurr, List.mem_append, List.mem_singleton, or_comm, List.mem_filter, List.mem_map]
  refine or_congr_right ?_
  simp only [ne_eq, decide_not, Bool.not_eq_eq_eq_not, Bool.not_true, decide_eq_false_iff_not]
  constructor
  · rintro ⟨⟨buf', hbuf', h⟩, hne⟩
    exact ⟨buf', mem_batches_finishBatch hbuf', h, hne⟩
  · rintro ⟨buf', hbuf', rfl, hne⟩
    refine ⟨⟨buf', mem_finishBatch hbuf' ?_, rfl⟩, hne⟩
    rintro rfl
    exact hne rfl

theorem prunesExactly_iff (h : HasHeights heightOf s) : PrunesExactly heightOf s ↔ Prunable s := by
  constructor
  · intro hexact hash hhash
    have hgone := (hexact (heightOf hash) hash).not.2 fun hmem => absurd hmem.2 (Nat.lt_irrefl _)
    rw [mem_sent_prune_iff, not_and_not_right] at hgone
    obtain ⟨buf, hbuf, e, he, rfl⟩ := hgone hhash
    obtain ⟨before, after, hsplit⟩ := List.append_of_mem he
    refine ⟨buf, hbuf, before, e.2, after ++ remaining (heightOf e.1) buf, ?_, ?_⟩
    · have hbuf := popped_append_remaining (heightOf e.1) buf
      rw [hsplit, List.append_assoc, List.cons_append] at hbuf
      exact hbuf.symm
    · intro e' he'
      rw [h buf hbuf e (List.takeWhile_subset _ he)]
      exact le_of_mem_popped (hsplit ▸ List.mem_append_left _ he')
  · intro hprunable bound hash
    rw [mem_sent_prune_iff]
    refine and_congr_right fun hhash => ?_
    constructor
    · intro hnone
      by_contra hle
      obtain ⟨buf, hbuf, before, height, after, rfl, hbefore⟩ := hprunable hash hhash
      have hheight : height = heightOf hash := h _ hbuf (hash, height) (by simp)
      refine hnone ⟨_, hbuf, (hash, height), ?_, rfl⟩
      rw [popped_append_cons (fun e he => (hbefore e he).trans (by omega)) (by omega)]
      simp
    · rintro hlt ⟨buf, hbuf, e, he, rfl⟩
      have hheight := h buf hbuf e (List.takeWhile_subset _ he)
      have hle := le_of_mem_popped he
      omega

theorem HasHeights.prune (h : HasHeights heightOf s) (bound : Nat) : HasHeights heightOf (s.pruneByHeight bound) := by
  intro buf hbuf e he
  rcases mem_batches_prune_iff.1 hbuf with rfl | ⟨buf', hbuf', rfl, -⟩
  · cases he
  · exact h buf' hbuf' e ((List.dropWhile_sublist _).subset he)

theorem Prunable.prune (h : Prunable s) (bound : Nat) : Prunable (s.pruneByHeight bound) := by
  intro hash hhash
  obtain ⟨hhash, hnone⟩ := mem_sent_prune_iff.1 hhash
  obtain ⟨buf, hbuf, before, height, after, rfl, hbefore⟩ := h hash hhash
  -- the hash is not popped, so neither is what follows it
  have hlt : bound < height := by
    by_contra hle
    refine hnone ⟨_, hbuf, (hash, height), ?_, rfl⟩
    rw [popped_append_cons (fun e he => (hbefore e he).trans (by omega)) (by omega)]
    simp
  refine ⟨_, mem_batches_prune_iff.2 (.inr ⟨_, hbuf, remaining_append_cons before after hlt, by simp⟩),
    _, height, after, rfl, ?_⟩
  intro e he
  exact hbefore e ((List.dropWhile_sublist _).subset he)

theorem batches_add (s : SentHashes) (b : SemanticallyVerifiedBlock) :
    batches (s.add b) = s.bufs ++ [s.currBuf ++ [(b.hash, b.height)]] := rfl

theorem HasHeights.add (h : HasHeights heightOf s) (hb : b.height = heightOf b.hash) :
    HasHeights heightOf (s.add b) := by
  intro buf hbuf e he
  rw [batches_add, List.mem_append, List.mem_singleton] at hbuf
  rcases hbuf with hbuf | rfl
  · exact h buf (List.mem_append_left _ hbuf) e he
  · rcases List.mem_append.1 he with he | he
    · exact h _ (by simp [batches]) e he
    · rw [List.mem_singleton.1 he]
      exact hb

theorem Ordered.append (h : Ordered buf hash) (buf' : List (BlockHash × Nat)) : Ordered (buf ++ buf') hash := by
  obtain ⟨before, height, after, rfl, hbefore⟩ := h
  exact ⟨before, height, after ++ buf', by simp, hbefore⟩

theorem Prunable.add (h : Prunable s)
    (hb : b.hash ∈ s.sent ∨ ∀ e ∈ s.currBuf, e.2 ≤ b.height) : Prunable (s.add b) := by
  intro hash hhash
  have hold : hash ∈ s.sent → ∃ buf ∈ batches (s.add b), Ordered buf hash := by
    intro hmem
    obtain ⟨buf, hbuf, hord⟩ := h hash hmem
    rcases List.mem_append.1 hbuf with hbuf | hbuf
    · exact ⟨buf, List.mem_append_left _ hbuf, hord⟩
    · rw [List.mem_singleton.1 hbuf] at hord
      exact ⟨_, by simp [batches_add], hord.append [(b.hash, b.height)]⟩
  rcases ExtTreeMap.mem_insert.1 hhash with heq | hmem
  · obtain rfl := LawfulEqOrd.compare_eq_iff_eq.1 heq
    rcases hb with hmem | hle
    · exact hold hmem
    · exact ⟨_, by simp [batches_add], s.currBuf, b.height, [], rfl, hle⟩
  · exact hold hmem

theorem HasHeights.finishBatch (h : HasHeights heightOf s) : HasHeights heightOf s.finishBatch := by
  intro buf hbuf e he
  rw [batches, currBuf_finishBatch, List.mem_append, List.mem_singleton] at hbuf
  rcases hbuf with hbuf | rfl
  · exact h buf (mem_batches_finishBatch hbuf) e he
  · cases he

theorem Prunable.finishBatch (h : Prunable s) : Prunable s.finishBatch := by
  intro hash hhash
  rw [sent_finishBatch] at hhash
  obtain ⟨buf, hbuf, hord⟩ := h hash hhash
  refine ⟨buf, batches_finishBatch hbuf ?_, hord⟩
  obtain ⟨before, height, after, rfl, -⟩ := hord
  simp

theorem currBuf_addAll (s : SentHashes) (bs : SemanticBlocks) :
    (bs.foldl SentHashes.add s).currBuf = s.currBuf ++ bs.map fun b => (b.hash, b.height) := by
  induction bs generalizing s with
  | nil => simp
  | cons b bs ih =>
    rw [List.foldl_cons, ih]
    simp [SentHashes.add]

theorem HasHeights.addAll (h : HasHeights heightOf s)
    (hbs : ∀ b ∈ bs, b.height = heightOf b.hash) : HasHeights heightOf (bs.foldl SentHashes.add s) := by
  induction bs generalizing s with
  | nil => exact h
  | cons b bs ih =>
    obtain ⟨hb, hbs⟩ := List.forall_mem_cons.1 hbs
    exact ih (h.add hb) hbs

theorem Prunable.addAll {height : Nat} (h : Prunable s)
    (hbs : ∀ b ∈ bs, b.height = height) (hbuf : ∀ e ∈ s.currBuf, e.2 ≤ height) :
    Prunable (bs.foldl SentHashes.add s) := by
  induction bs generalizing s with
  | nil => exact h
  | cons b bs ih =>
    obtain ⟨hb, hbs⟩ := List.forall_mem_cons.1 hbs
    refine ih (h.add (.inr fun e he => (hbuf e he).trans hb.ge)) hbs ?_
    intro e he
    rcases List.mem_append.1 he with he | he
    · exact hbuf e he
    · rw [List.mem_singleton.1 he]
      exact hb.le

def chainBlocks (state : NonFinalizedState) : Blocks :=
  state.chainSet.reverse.flatMap fun c => c.inner.blocks.toList.map Prod.snd

/-- No block of the chains comes after a higher one, unless it came before in another chain. -/
def ChainsInOrder (state : NonFinalizedState) : Prop :=
  ∀ before b after, chainBlocks state = before ++ b :: after →
    b.hash ∈ before.map (·.hash) ∨ ∀ b' ∈ before, b'.height ≤ b.height

theorem prunable_addAll_empty (bs : SemanticBlocks)
    (horder : ∀ before b after, bs = before ++ b :: after →
      b.hash ∈ before.map (·.hash) ∨ ∀ b' ∈ before, b'.height ≤ b.height) : Prunable (bs.foldl SentHashes.add {}) ∧
      ∀ hash, hash ∈ (bs.foldl SentHashes.add {}).sent ↔ hash ∈ bs.map (·.hash) := by
  induction bs using List.reverseRecOn with
  | nil =>
    constructor
    · intro hash hhash
      simp at hhash
    · intro hash
      simp
  | append_singleton bs b ih =>
    obtain ⟨hprunable, hsent⟩ := ih fun before b' after hsplit =>
      horder before b' (after ++ [b]) (by simp [hsplit])
    rw [List.foldl_append, List.foldl_cons, List.foldl_nil]
    refine ⟨hprunable.add ?_, ?_⟩
    · rw [hsent, currBuf_addAll]
      refine (horder bs b [] rfl).imp_right fun hle e he => ?_
      obtain ⟨b', hb', rfl⟩ : ∃ b' ∈ bs, (b'.hash, b'.height) = e := by simpa using he
      exact hle b' hb'
    · intro hash
      rw [SentHashes.add, ExtTreeMap.mem_insert, LawfulEqOrd.compare_eq_iff_eq, hsent]
      simp [or_comm, eq_comm]

theorem prunable_new {state : NonFinalizedState} (horder : ChainsInOrder state)
    (hheights : ∀ b ∈ chainBlocks state, b.height = heightOf b.hash) :
    Prunable (SentHashes.new state) ∧ HasHeights heightOf (SentHashes.new state) := by
  set bs := (chainBlocks state).map fromContextuallyVerified with hbs
  have hprunable : Prunable (bs.foldl SentHashes.add {}) := by
    refine (prunable_addAll_empty bs fun before b after hsplit => ?_).1
    obtain ⟨before', rest, heq, rfl, hrest⟩ := List.map_eq_append_iff.1 (hbs.symm.trans hsplit)
    obtain ⟨b', after', rfl, rfl, rfl⟩ := List.map_eq_cons_iff.1 hrest
    simpa [fromContextuallyVerified] using horder before' b' after' heq
  have hhas : HasHeights heightOf (bs.foldl SentHashes.add {}) := by
    refine HasHeights.addAll (fun buf hbuf e he => ?_) fun b hb => ?_
    · rw [List.mem_singleton.1 hbuf] at he
      cases he
    · obtain ⟨b', hb', rfl⟩ := List.mem_map.1 hb
      exact hheights b' hb'
  rw [SentHashes.new]
  change Prunable (if (bs.foldl SentHashes.add {}).sent.isEmpty then _ else _) ∧
    HasHeights heightOf (if (bs.foldl SentHashes.add {}).sent.isEmpty then _ else _)
  split
  · exact ⟨hprunable, hhas⟩
  · exact ⟨hprunable, hhas⟩

end Zebra.Ledger
