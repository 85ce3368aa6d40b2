import Mathlib.Data.List.TakeWhile
import Zebra.Ledger.ChainHashes
import Zebra.Properties.Sample

namespace Zebra.Properties

open Lib Ledger Read Outcome

theorem pairwise_locatorHeights (tipHeight : Nat) : (blockLocatorHeights tipHeight).Pairwise (· > ·) := by
  have hsteps : locatorSteps.Pairwise (· < ·) :=
    List.pairwise_map.2 (List.pairwise_lt_range.imp fun h => Nat.pow_lt_pow_right (by decide) h)
  have hexponential : (locatorSteps.filterMap fun step => if step ≤ tipHeight then some (tipHeight - step) else none).Pairwise (· > ·) := by
    refine List.pairwise_filterMap.2 (hsteps.imp fun hlt height hheight height' hheight' => ?_)
    rw [Option.ite_none_right_eq_some] at hheight hheight'
    obtain ⟨hle, heq⟩ := hheight
    obtain ⟨hle', heq'⟩ := hheight'
    rw [← Option.some.inj heq, ← Option.some.inj heq']
    omega
  refine List.pairwise_append.2 ⟨?_, List.pairwise_singleton _ _, fun height hheight height' hheight' => ?_⟩
  · refine List.Pairwise.sublist (List.takeWhile_sublist _) (List.pairwise_cons.2 ⟨fun height hheight => ?_, hexponential⟩)
    obtain ⟨step, hstep, heq⟩ := List.mem_filterMap.1 hheight
    obtain ⟨k, -, rfl⟩ := List.mem_map.1 hstep
    obtain ⟨hle, heq⟩ := Option.ite_none_right_eq_some.1 heq
    have hpos : 0 < 2 ^ k := Nat.two_pow_pos k
    rw [← Option.some.inj heq]
    omega
  · rw [List.mem_singleton.1 hheight']
    have hmin := List.mem_takeWhile_imp hheight
    exact of_decide_eq_true hmin

theorem mem_locatorHeights (tipHeight : Nat) : tipHeight - maxBlockReorgHeight ∈ blockLocatorHeights tipHeight :=
  List.mem_append_right _ (List.mem_singleton_self _)

theorem exists_first_match {α : Type} {heights : List Nat} {f : Nat → Option α} {p : α → Bool} (hdescending : heights.Pairwise (· > ·))
    (hmatch : ∃ height ∈ heights, ∃ a, f height = some a ∧ p a = true) :
    ∃ height ∈ heights, ∃ a, f height = some a ∧ p a = true ∧ (heights.filterMap f).find? p = some a ∧
      ∀ height' ∈ heights, ∀ a', f height' = some a' → p a' = true → height' ≤ height := by
  induction heights with
  | nil =>
    obtain ⟨height, hheight, -⟩ := hmatch
    cases hheight
  | cons first heights ih =>
    obtain ⟨hfirst, hdescending⟩ := List.pairwise_cons.1 hdescending
    by_cases hhit : ∃ a, f first = some a ∧ p a = true
    · obtain ⟨a, ha, hp⟩ := hhit
      refine ⟨first, List.mem_cons_self, a, ha, hp, ?_, fun height' hheight' _ _ _ => ?_⟩
      · rw [List.filterMap_cons_some ha, List.find?_cons_of_pos hp]
      · rcases List.mem_cons.1 hheight' with rfl | hmem
        · exact le_rfl
        · exact (hfirst height' hmem).le
    · have hmatch' : ∃ height ∈ heights, ∃ a, f height = some a ∧ p a = true := by
        obtain ⟨height, hheight, a, ha, hp⟩ := hmatch
        rcases List.mem_cons.1 hheight with rfl | hmem
        · exact absurd ⟨a, ha, hp⟩ hhit
        · exact ⟨height, hmem, a, ha, hp⟩
      obtain ⟨height, hmem, a, ha, hp, hfind, hmax⟩ := ih hdescending hmatch'
      refine ⟨height, List.mem_cons_of_mem _ hmem, a, ha, hp, ?_, fun height' hheight' a' ha' hp' => ?_⟩
      · cases hget : f first with
        | none => rw [List.filterMap_cons_none hget, hfind]
        | some b => rw [List.filterMap_cons_some hget, List.find?_cons_of_neg fun hb => hhit ⟨b, hget, hb⟩, hfind]
      · rcases List.mem_cons.1 hheight' with rfl | hmem'
        · exact absurd ⟨a', ha', hp'⟩ hhit
        · exact hmax height' hmem' a' ha' hp'

/-- The response after the block at `height`. The stop hash ends it, also if the stop hash comes too
early. -/
structure Follows (hashes : List BlockHash) (height : Nat) (stop : Option BlockHash) (maxLen : Nat) (response : List BlockHash) : Prop where
  next : response <+: hashes.drop (height + 1)
  atMost : response.length ≤ maxLen
  atStop : ∀ (hash : BlockHash) (stopHeight : Nat), stop = some hash → hashes[stopHeight]? = some hash → height < stopHeight →
    stopHeight ≤ height + maxLen → response.getLast? = some hash
  atEnd : (∀ (hash : BlockHash) (stopHeight : Nat), stop = some hash → hashes[stopHeight]? = some hash → height + maxLen < stopHeight) →
    response.length = maxLen ∨ response = hashes.drop (height + 1)
  early : ∀ (hash : BlockHash) (stopHeight : Nat), stop = some hash → hashes[stopHeight]? = some hash → stopHeight ≤ height →
    response = []

variable {chain : Option Chain} {db : ZebraDb} {hashes : List BlockHash} {hash : BlockHash} {height maxLen : Nat} {stop : Option BlockHash}

theorem mapWhile_range' {α : Type} {l : List α} (start len : Nat) : mapWhile (l[·]?) (List.range' start len) = (l.drop start).take len := by
  induction len generalizing start with
  | zero => rfl
  | succ len ih =>
    rw [List.range'_succ, mapWhile]
    cases hget : l[start]? with
    | none =>
      rw [List.drop_eq_nil_of_le (List.getElem?_eq_none_iff.1 hget), List.take_nil]
    | some a =>
      obtain ⟨hlt, rfl⟩ := List.getElem?_eq_some_iff.1 hget
      rw [ih, List.drop_eq_getElem_cons hlt, List.take_succ_cons]

def responseLen (hashes : List BlockHash) (height : Nat) (stopHeight : Option Nat) (maxLen : Nat) : Nat :=
  ((stopHeight.map fun stopHeight => min (min (height + maxLen) (hashes.length - 1)) stopHeight).getD
    (min (height + maxLen) (hashes.length - 1))) - height

theorem mem_take_drop {α : Type} {l : List α} {start len : Nat} {a : α} : a ∈ (l.drop start).take len ↔ ∃ k < len, l[start + k]? = some a := by
  rw [List.mem_iff_getElem?]
  refine exists_congr fun k => ?_
  rw [List.getElem?_take, List.getElem?_drop]
  split <;> simp [*]

theorem responseLen_le (hashes : List BlockHash) (height : Nat) (stopHeight : Option Nat) (maxLen : Nat) :
    responseLen hashes height stopHeight maxLen ≤ maxLen := by
  cases stopHeight <;> simp only [responseLen, Option.map_none, Option.map_some, Option.getD_none, Option.getD_some] <;> omega

theorem collectChainHashes_eq (h : HoldsHashes chain db hashes) (hhash : hashes[height]? = some hash) (hpos : 1 ≤ maxLen)
    (hfits : height + maxLen < 2 ^ 32) : (collectChainHashes chain db (some hash) stop maxLen : Exec Empty _) =
      .ok ((hashes.drop (height + 1)).take (responseLen hashes height (stop.bind (heightByHash chain db)) maxLen)) := by
  have hne : hashes ≠ [] := by
    rintro rfl
    simp at hhash
  have hrange : (findChainHeightRange chain db (some hash) stop maxLen : Exec Empty _) =
      .ok (height + 1, responseLen hashes height (stop.bind (heightByHash chain db)) maxLen) := by
    have hlen := responseLen_le hashes height (stop.bind (heightByHash chain db)) maxLen
    rw [findChainHeightRange, check, if_pos (Nat.lt_of_succ_le hpos), ok_bind, h.tipHeight_eq hne, ok_bind]
    dsimp only
    rw [h.heightByHash_eq_some.2 hhash]
    dsimp only
    rw [heightRange, check, if_pos hfits, ok_bind, pure_eq_ok, ok_bind]
    dsimp only
    rw [Nat.add_sub_add_right]
    change (do check (responseLen hashes height _ maxLen ≤ maxLen) _; _) = _
    rw [check, if_pos hlen]
    rfl
  rw [collectChainHashes, hrange, ok_bind]
  dsimp only
  rw [funext h.hashByHeight_eq, mapWhile_range', check, if_pos, ok_bind, check, if_pos, ok_bind]
  · rfl
  · -- the stop hash is at or above the final height
    intro hash' hstop hmem
    obtain rfl : stop = some hash' := hstop
    rw [List.dropLast_eq_take, List.take_take, mem_take_drop] at hmem
    obtain ⟨k, hk, hget⟩ := hmem
    rw [Option.bind_some, h.heightByHash_eq_some.2 hget, List.length_take] at hk
    simp only [responseLen, Option.map_some, Option.getD_some] at hk
    omega
  · intro hash' heq hmem
    obtain rfl : hash = hash' := Option.some.inj heq
    obtain ⟨k, -, hget⟩ := mem_take_drop.1 hmem
    have := height_unique h.unique hhash hget
    omega

theorem follows_of_responseLen (h : HoldsHashes chain db hashes) (hhash : hashes[height]? = some hash) :
    Follows hashes height stop maxLen
      ((hashes.drop (height + 1)).take (responseLen hashes height (stop.bind (heightByHash chain db)) maxLen)) := by
  have hlt := (List.getElem?_eq_some_iff.1 hhash).1
  refine ⟨List.take_prefix _ _, ?_, ?_, ?_, ?_⟩
  · exact (List.length_take_le _ _).trans (responseLen_le _ _ _ _)
  · rintro stopHash stopHeight rfl hget habove hwithin
    have hlt' := (List.getElem?_eq_some_iff.1 hget).1
    rw [Option.bind_some, h.heightByHash_eq_some.2 hget]
    have hlen : responseLen hashes height (some stopHeight) maxLen = stopHeight - height - 1 + 1 := by
      simp only [responseLen, Option.map_some, Option.getD_some]
      omega
    rw [hlen, List.getLast?_take, if_neg (Nat.succ_ne_zero _), Nat.add_sub_cancel, List.getElem?_drop]
    rw [show height + 1 + (stopHeight - height - 1) = stopHeight by omega, hget]
    rfl
  · intro hbeyond
    have hlen : responseLen hashes height (stop.bind (heightByHash chain db)) maxLen = min (height + maxLen) (hashes.length - 1) - height := by
      cases hstop : stop.bind (heightByHash chain db) with
      | none => rfl
      | some stopHeight =>
        obtain ⟨stopHash, rfl, hget⟩ := Option.bind_eq_some_iff.1 hstop
        have := hbeyond stopHash stopHeight rfl (h.heightByHash_eq_some.1 hget)
        simp only [responseLen, Option.map_some, Option.getD_some]
        omega
    rw [hlen]
    by_cases hend : height + maxLen ≤ hashes.length - 1
    · left
      rw [List.length_take, List.length_drop]
      omega
    · right
      rw [List.take_of_length_le]
      rw [List.length_drop]
      omega
  · rintro stopHash stopHeight rfl hget hbelow
    have hlen : responseLen hashes height (some stopHeight) maxLen = 0 := by
      simp only [responseLen, Option.map_some, Option.getD_some]
      omega
    rw [Option.bind_some, h.heightByHash_eq_some.2 hget, hlen, List.take_zero]

/-- Let two chains have the lowest block of the first one's locator in common. What the second one
finds for this locator follows the highest block of the locator that they have in common. -/
theorem locator_finds_fork {chain' : Option Chain} {db' : ZebraDb} {hashes' : List BlockHash} (h : HoldsHashes chain db hashes)
    (h' : HoldsHashes chain' db' hashes')
    (hcommon : ∃ hash, hashes[hashes.length - 1 - maxBlockReorgHeight]? = some hash ∧ hash ∈ hashes') :
    ∃ known, (blockLocator chain db : Exec Empty _) = .ok (some known) ∧
      ∃ height height' hash, height ∈ blockLocatorHeights (hashes.length - 1) ∧
        hashes[height]? = some hash ∧ hashes'[height']? = some hash ∧
        (∀ locator ∈ blockLocatorHeights (hashes.length - 1), ∀ hash, hashes[locator]? = some hash → hash ∈ hashes' → locator ≤ height) ∧
        ∀ stop maxLen, 1 ≤ maxLen → height' + maxLen < 2 ^ 32 →
          ∃ response, (findChainHashes chain' db' known stop maxLen : Exec Empty _) = .ok response ∧
            Follows hashes' height' stop maxLen response := by
  obtain ⟨lowest, hlowest, hmem⟩ := hcommon
  have hne : hashes ≠ [] := by
    rintro rfl
    simp at hlowest
  have hne' : hashes' ≠ [] := List.ne_nil_of_mem hmem
  have hfirst := exists_first_match (f := hashByHeight chain db) (p := chainContainsHash chain' db') (pairwise_locatorHeights (hashes.length - 1))
    ⟨_, mem_locatorHeights _, lowest, by rw [h.hashByHeight_eq, hlowest], h'.chainContainsHash_iff.2 hmem⟩
  obtain ⟨height, hheight, hash, hget, hcontains, hfind, hmax⟩ := hfirst
  rw [h.hashByHeight_eq] at hget
  obtain ⟨height', hget'⟩ := List.mem_iff_getElem?.1 (h'.chainContainsHash_iff.1 hcontains)
  refine ⟨_, by rw [blockLocator, h.tipHeight_eq hne]; rfl, height, height', hash, hheight, hget, hget', ?_, ?_⟩
  · intro locator hlocator hash' hlocatorHash hmem'
    exact hmax locator hlocator hash' (by rw [h.hashByHeight_eq, hlocatorHash]) (h'.chainContainsHash_iff.2 hmem')
  · intro stop maxLen hpos hfits
    have hintersection : findChainIntersection chain' db' ((blockLocatorHeights (hashes.length - 1)).filterMap (hashByHeight chain db)) = some hash := by
      rw [findChainIntersection, if_neg, hfind]
      intro hempty
      obtain ⟨hnone, hisEmpty⟩ := Bool.and_eq_true_iff.1 hempty
      obtain rfl := Option.isNone_iff_eq_none.1 hnone
      have hhash := h'.hashByHeight_eq height'
      rw [hget', hashByHeight, Std.ExtTreeMap.isEmpty_iff.1 hisEmpty] at hhash
      simp at hhash
    refine ⟨_, ?_, follows_of_responseLen h' hget'⟩
    rw [findChainHashes, hintersection, collectChainHashes_eq h' hget' hpos hfits]

section

open Sample

theorem shortFork_found :
    ∃ known, (blockLocator none (dbOfHashes network [10, 11, 12]) : Exec Empty _) = .ok (some known) ∧
      ∃ response, (findChainHashes none (dbOfHashes network [10, 11, 22, 23]) known (some 23) 500 : Exec Empty _) = .ok response ∧
        ∃ height', Follows [10, 11, 22, 23] height' (some 23) 500 response := by
  obtain ⟨known, hknown, height, height', hash, -, -, hget', -, hresponse⟩ :=
    locator_finds_fork (holdsHashes_dbOfHashes network [10, 11, 12] (by decide))
      (holdsHashes_dbOfHashes network [10, 11, 22, 23] (by decide)) ⟨10, rfl, by decide⟩
  have hlt := (List.getElem?_eq_some_iff.1 hget').1
  obtain ⟨response, hrun, hfollows⟩ := hresponse (some 23) 500 (by decide) (by simp at hlt; omega)
  exact ⟨known, hknown, response, hrun, height', hfollows⟩

/-- The chains have all blocks of the locator in common. If the stop hash is that of the genesis
block, nothing is found, although the second chain goes on. With the greatest length, the height of the
last block does not fit. -/
theorem early_stop_finds_nothing :
    (HoldsHashes none (dbOfHashes network [10, 11]) [10, 11] ∧ HoldsHashes none (dbOfHashes network [10, 11, 12]) [10, 11, 12]) ∧
      (blockLocator none (dbOfHashes network [10, 11]) : Exec Empty _) = .ok (some [11, 10]) ∧
      (findChainHashes none (dbOfHashes network [10, 11, 12]) [11, 10] (some 10) 500 : Exec Empty _) = .ok [] ∧
      (findChainHashes none (dbOfHashes network [10, 11, 12]) [11, 10] none (2 ^ 32 - 1) : Exec Empty _) = Outcome.panic .arithmetic :=
  ⟨⟨holdsHashes_dbOfHashes network _ (by decide), holdsHashes_dbOfHashes network _ (by decide)⟩, by decide +kernel, by decide +kernel, by decide +kernel⟩

end

end Zebra.Properties
