import Zebra.Ledger.Detached

namespace Zebra.Ledger

open Lib Lib.Transition

variable [ScriptParsing] [MerkleHashing] [ChainHistory] [BlockHashing] [BlockCommitments] {net : Network}

/-- What every run of the two halves of the state maintains. -/
structure Sound (net : Network) (n : NodeState) : Prop where
  network : n.nonFinalized.network = net
  known : ∀ tip, n.db.tip = some tip → Known tip.2 tip.1
  rooted : ∀ c ∈ n.nonFinalized.chainSet, ∃ tip, n.db.tip = some tip ∧ Rooted net tip c
  sorted : n.nonFinalized.chainSet.Pairwise Below
  few : n.nonFinalized.chainSet.length ≤ maxNonFinalizedChainForks
  detached : ∀ e ∈ n.nonFinalized.invalidatedBlocks, Detached e
  keys : (n.nonFinalized.invalidatedBlocks.map Prod.fst).Nodup
  fewRecords : n.nonFinalized.invalidatedBlocks.length ≤ maxInvalidatedBlocks

namespace Sound

variable {n n' : NodeState} {op : NodeOp}

omit [BlockCommitments] in
theorem exists_tip (h : Sound net n) (hne : n.nonFinalized.chainSet ≠ []) :
    ∃ tip, n.db.tip = some tip ∧ Known tip.2 tip.1 ∧ ∀ c ∈ n.nonFinalized.chainSet, Rooted net tip c := by
  obtain ⟨d, ds, hcs⟩ := List.exists_cons_of_ne_nil hne
  obtain ⟨tip, htip, -⟩ := h.rooted d (by simp [hcs])
  refine ⟨tip, htip, h.known tip htip, ?_⟩
  intro c hc
  obtain ⟨tip', htip', hr⟩ := h.rooted c hc
  obtain rfl : tip' = tip := by simpa [htip] using htip'.symm
  exact hr

omit [BlockCommitments] in
theorem insert (h : Sound net n) {s s' : NonFinalizedState} {c : Chain} {tip : Nat × BlockHash}
    (htip : n.db.tip = some tip) (hc : Rooted net tip c) (hi : Inserted s c s')
    (hcs : s.chainSet = n.nonFinalized.chainSet) (hnet : s.network = n.nonFinalized.network)
    (hrec : s.invalidatedBlocks.Sublist n.nonFinalized.invalidatedBlocks) : Sound net ⟨s', n.db⟩ where
  network := hi.network.trans (hnet.trans h.network)
  known := h.known
  rooted d hd := (hi.mem d hd).elim (fun he => ⟨tip, htip, he ▸ hc⟩) fun hd => h.rooted d (hcs ▸ hd)
  sorted := hi.sorted (hcs ▸ h.sorted)
  few := hi.few
  detached e he := h.detached e (hrec.subset (hi.invalidatedBlocks ▸ he))
  keys := by
    rw [hi.invalidatedBlocks]
    exact (hrec.map Prod.fst).nodup h.keys
  fewRecords := by
    rw [hi.invalidatedBlocks]
    exact hrec.length_le.trans h.fewRecords

omit [BlockCommitments] in
theorem record (h : Sound net n) {s : NonFinalizedState} {b : ContextuallyVerifiedBlock}
    {bs : Blocks} (hd : Detached (b.height, b :: bs)) {ε : Type}
    (hs : (n.nonFinalized.recordInvalidated (b :: bs) : Exec ε _) = .ok s) : Sound net ⟨s, n.db⟩ := by
  rw [recordInvalidated_eq_ok] at hs
  cases hs
  exact {
    network := h.network
    known := h.known
    rooted := h.rooted
    sorted := h.sorted
    few := h.few
    detached := fun e he => (IndexMap.mem_insert (List.mem_of_mem_drop he)).elim (fun heq => heq ▸ hd)
      fun he => h.detached e he.1
    keys := ((List.drop_sublist _ _).map Prod.fst).nodup (IndexMap.nodup_insert h.keys)
    fewRecords := by
      rw [List.length_drop]
      omega }

theorem step (hdet : HashDetermines) (h : Sound net n) (hs : n.Step op n') : Sound net n' := by
  cases hs with
  | commitNewChain hv hc hok =>
    obtain ⟨tip, c, x, htip, hroot, -, -, -, -, hins⟩ := commitNewChain_eq_ok hv hc hok
    exact h.insert htip (h.network ▸ hroot) (insert_inserted hins) rfl rfl (.refl _)
  | commitBlock hv hc hok =>
    have hne : n.nonFinalized.chainSet ≠ [] := by
      intro hnil
      obtain ⟨c, hp, -⟩ := bind_eq_ok.1 hok
      simp [NonFinalizedState.parentChain, hnil, ChainSet.findTip, ChainSet.findFork] at hp
    obtain ⟨tip, htip, -, hrooted⟩ := h.exists_tip hne
    obtain ⟨c, x, d, kept, removed, hroot, -, -, -, -, -, -, -, hins⟩ := commitBlock_eq_ok hrooted hv hc hok
    exact h.insert htip hroot (inserted_of_insertWith (fun _ _ => retainTips_sublist) hins) rfl rfl (.refl _)
  | @finalize x s db hok hdb =>
    have hne : n.nonFinalized.chainSet ≠ [] := by
      intro hnil
      obtain ⟨c, hp, -⟩ := bind_eq_ok.1 hok
      simp [hnil] at hp
    obtain ⟨tip, htip, -, hrooted⟩ := h.exists_tip hne
    obtain ⟨⟨best, hbest, hx⟩, hroot, hsort, hfew, hinv, hnet⟩ := finalize_rooted hok hrooted
    have hbest' := hrooted best (List.mem_of_getLast? hbest)
    exact {
      network := hnet.trans h.network
      known := by
        intro tip' htip'
        obtain rfl : tip' = _ := by simpa [hdb] using htip'.symm
        exact known_of_mem hbest'.chained hbest'.consecutive (List.mem_of_head? hx)
      rooted := fun c hc => ⟨_, hdb, hroot c hc⟩
      sorted := hsort
      few := hfew
      detached := fun e he => h.detached e (List.mem_filter.1 (hinv ▸ he)).1
      keys := by
        rw [hinv]
        exact (List.filter_sublist.map Prod.fst).nodup h.keys
      fewRecords := by
        rw [hinv]
        exact (List.length_filter_le _ _).trans h.fewRecords }
  | @invalidateBlock hash s hok =>
    have hne : n.nonFinalized.chainSet ≠ [] := by
      intro hnil
      simp [NonFinalizedState.invalidateBlock, NonFinalizedState.findContaining, hnil] at hok
    obtain ⟨tip, htip, hknown, hrooted⟩ := h.exists_tip hne
    obtain ⟨c, c', b, removed, s₁, hfind, hc', hblocks, -, -, hins, hrec⟩ := invalidateBlock_eq_ok hrooted h.sorted hok
    have hcroot := hrooted c (findContaining_eq_some hfind).1
    have hi : Inserted n.nonFinalized c' s₁ := inserted_of_insertWith
      (fun _ _ hl => Except.ok.inj hl ▸ List.filter_sublist) hins
    have hsound : Sound net ⟨s₁, n.db⟩ := h.insert htip hc' hi rfl rfl (.refl _)
    refine hsound.record ?_ hrec
    obtain ⟨hch, hch'⟩ := chained_append.1 (hblocks ▸ hcroot.chained)
    obtain ⟨hco, hco'⟩ := consecutive_append.1 (hblocks ▸ hcroot.consecutive)
    exact ⟨_, _, known_lastHash hknown hch hco, hco'.1, by simp, hch', hco'⟩
  | @reconsiderBlock hash hashes s hok =>
    obtain ⟨tip, c, e, kept, b, htip, hroot, -, -, -, -, -, -, hins⟩ := reconsiderBlock_eq_ok hdet
      (fun d hd => h.network ▸ h.rooted d hd) h.known h.detached hok
    have hi := inserted_of_insertWith (fun _ _ => retainTips_sublist) hins
    cases ht : n.db.finalizedTipHeight with
    | none =>
      rw [ht] at hi
      exact h.insert htip (h.network ▸ hroot) hi rfl rfl (.refl _)
    | some t =>
      rw [ht] at hi
      exact h.insert htip (h.network ▸ hroot) hi rfl rfl List.filter_sublist

end Sound

omit [BlockCommitments] in
theorem sound_new {db : ZebraDb} (hdb : ∀ tip, db.tip = some tip → Known tip.2 tip.1) :
    Sound net ⟨NonFinalizedState.new net, db⟩ where
  network := rfl
  known := hdb
  rooted c hc := by simp [NonFinalizedState.new] at hc
  sorted := .nil
  few := Nat.zero_le _
  detached e he := by simp [NonFinalizedState.new] at he
  keys := List.nodup_nil
  fewRecords := Nat.zero_le _

theorem sound_of_run (hdet : HashDetermines) {db : ZebraDb}
    (hdb : ∀ tip, db.tip = some tip → Known tip.2 tip.1) {ops : List NodeOp} {n : NodeState}
    (hr : Run NodeState.Step ⟨NonFinalizedState.new net, db⟩ ops n) : Sound net n :=
  hr.invariant (fun _ _ _ h hs => h.step hdet hs) (sound_new hdb)

end Zebra.Ledger
