import Zebra.Ledger.Branch
import Zebra.State.NodeRuns

namespace Zebra.Ledger

open Lib Lib.Transition

variable {ε : Type} {net : Network} {tip : Nat × BlockHash} {s s' : NonFinalizedState} {c c' : Chain}

variable {filter : List Chain → Exec ε (List Chain)} {hash : BlockHash} {height : Nat}

theorem insertWith_eq_ok (h : s.insertWith c filter = .ok s') :
    ∃ chains chains', (ChainSet.insert c s.chainSet : Exec ε _) = .ok chains ∧ filter chains = .ok chains' ∧
      s' = { s with chainSet := chains'.drop (chains'.length - maxNonFinalizedChainForks) } := by
  obtain ⟨chains, hins, h⟩ := bind_eq_ok.1 h
  obtain ⟨chains', hfil, h⟩ := bind_eq_ok.1 h
  exact ⟨chains, chains', hins, hfil, (Except.ok.inj h).symm⟩

/-- What inserting a chain and dropping others does to the chain set. -/
structure Inserted (s : NonFinalizedState) (c : Chain) (s' : NonFinalizedState) : Prop where
  mem : ∀ d ∈ s'.chainSet, d = c ∨ d ∈ s.chainSet
  sorted : s.chainSet.Pairwise Below → s'.chainSet.Pairwise Below
  few : s'.chainSet.length ≤ maxNonFinalizedChainForks
  invalidatedBlocks : s'.invalidatedBlocks = s.invalidatedBlocks
  network : s'.network = s.network
  shouldCountMetrics : s'.shouldCountMetrics = s.shouldCountMetrics

theorem inserted_of_insertWith
    (hfil : ∀ l l', filter l = .ok l' → l'.Sublist l) (h : s.insertWith c filter = .ok s') : Inserted s c s' := by
  obtain ⟨chains, chains', hins, hf, rfl⟩ := insertWith_eq_ok h
  have hsub := (List.drop_sublist (chains'.length - maxNonFinalizedChainForks) chains').trans (hfil _ _ hf)
  exact {
    mem := fun d hd => List.mem_cons.1 ((ChainSet.insert_perm hins).mem_iff.1 (hsub.subset hd))
    sorted := fun hs => (ChainSet.insert_sorted hs hins).sublist hsub
    few := by rw [List.length_drop]; omega
    invalidatedBlocks := rfl
    network := rfl
    shouldCountMetrics := rfl }

theorem retainTips_sublist {l l' : List Chain}
    (h : (ChainSet.retainTips hash l : Exec ε _) = .ok l') : l'.Sublist l := by
  rw [ChainSet.retainTips_eq_ok] at h
  exact h.2 ▸ List.filter_sublist

theorem insert_inserted (h : (s.insert c : Exec ε _) = .ok s') : Inserted s c s' :=
  inserted_of_insertWith (fun _ _ hl => Except.ok.inj hl ▸ List.Sublist.refl _) h

section

variable [ScriptParsing] [MerkleHashing] [ChainHistory] [BlockHashing]

theorem newChain_rooted {db : ZebraDb} (hh : height ≤ Height.max) (hash : BlockHash)
    (h : (s.newChain db height : Exec ε _) = .ok c) :
    Rooted s.network (height, hash) c ∧ blocksOf c = [] ∧ c.tipHeight = some height := by
  obtain ⟨sprout, -, h⟩ := bind_eq_ok.1 h
  obtain ⟨sapling, -, h⟩ := bind_eq_ok.1 h
  obtain ⟨orchard, -, h⟩ := bind_eq_ok.1 h
  obtain ⟨c', hc', href, -⟩ := new_spec (ε := ε) s.network hh ⟨sprout, sapling, orchard, db.historyTree, db.finalizedValuePool⟩
  obtain rfl : c' = c := by simpa [hc'] using h
  refine ⟨⟨_, href, rfl, trivial⟩, by rw [href.inner.blocksOf_eq]; rfl, ?_⟩
  rw [href.inner.tipHeight_eq (.inl rfl)]
  rfl

theorem parentChain_eq_ok (h : s.parentChain hash = .ok c) (hs : ∀ d ∈ s.chainSet, Rooted net tip d) :
    Rooted net tip c ∧ tipHashOf c = some hash ∧ ∃ d ∈ s.chainSet, ∃ removed, blocksOf d = blocksOf c ++ removed := by
  obtain ⟨o, ho, h⟩ := bind_eq_ok.1 h
  have htip := ChainSet.findTip_eq_ok ho
  cases o with
  | some d =>
    obtain rfl := Except.ok.inj h
    have hd := List.mem_reverse.1 htip.1
    exact ⟨hs d hd, htip.2, d, hd, [], by simp⟩
  | none =>
    obtain ⟨o, ho, h⟩ := bind_eq_ok.1 h
    cases o with
    | none => simp at h
    | some d =>
      cases h
      obtain ⟨c, hc, hf⟩ := ChainSet.findFork_eq_ok ho
      have hc' := List.mem_reverse.1 hc
      obtain ⟨hroot, htip, hrem⟩ := (hs c hc').fork hf
      exact ⟨hroot, htip, c, hc', hrem⟩

theorem finalizeSideChains_rooted {root : BlockHash} {cs : List Chain}
    (h : (NonFinalizedState.finalizeSideChains root s cs : Exec ε _) = .ok s')
    (hcs : ∀ d ∈ cs, Rooted net tip d) (hheight : tip.1 + 1 = height)
    (hs : ∀ d ∈ s.chainSet, Rooted net (height, root) d) (hsort : s.chainSet.Pairwise Below)
    (hfew : s.chainSet.length ≤ maxNonFinalizedChainForks) :
    (∀ d ∈ s'.chainSet, Rooted net (height, root) d) ∧ s'.chainSet.Pairwise Below ∧
      s'.chainSet.length ≤ maxNonFinalizedChainForks ∧ s'.invalidatedBlocks = s.invalidatedBlocks ∧
      s'.network = s.network := by
  induction cs generalizing s with
  | nil =>
    cases h
    exact ⟨hs, hsort, hfew, rfl, rfl⟩
  | cons c cs ih =>
    have htail : ∀ d ∈ cs, Rooted net tip d := fun d hd => hcs d (List.mem_cons_of_mem _ hd)
    obtain ⟨hash, hhash, h⟩ := bind_eq_ok.1 h
    split at h
    · exact ih h htail hs hsort hfew
    · rename_i heq
      obtain ⟨⟨⟨x, _⟩, c'⟩, hpop, h⟩ := bind_eq_ok.1 h
      obtain ⟨_, hcheck, h⟩ := bind_eq_ok.1 h
      obtain ⟨s₁, hins, h⟩ := bind_eq_ok.1 h
      obtain ⟨hroot, hblocks⟩ := (hcs c List.mem_cons_self).popRoot hpop
      have hx : x.height = height := by
        have := ((hcs c List.mem_cons_self).height (i := 0) (by rw [hblocks]; rfl)).1
        simp only at this
        omega
      rw [Outcome.check_eq_ok] at hcheck
      rw [hx, hcheck] at hroot
      have hi := insert_inserted hins
      obtain ⟨h₁, h₂, h₃, h₄, h₅⟩ := ih h htail
        (fun d hd => (hi.mem d hd).elim (fun he => he ▸ hroot) (hs d)) (hi.sorted hsort) hi.few
      exact ⟨h₁, h₂, h₃, h₄.trans hi.invalidatedBlocks, h₅.trans hi.network⟩

theorem finalize_rooted {x : ContextuallyVerifiedBlock × Treestate} (h : (s.finalize : Exec ε _) = .ok (x, s'))
    (hs : ∀ d ∈ s.chainSet, Rooted net tip d) :
    (∃ best ∈ s.bestChain, x.1 ∈ (blocksOf best).head?) ∧ (∀ d ∈ s'.chainSet, Rooted net (x.1.height, x.1.hash) d) ∧
      s'.chainSet.Pairwise Below ∧ s'.chainSet.length ≤ maxNonFinalizedChainForks ∧
      s'.invalidatedBlocks = s.invalidatedBlocks.filter (fun e => x.1.height ≤ e.1) ∧ s'.network = s.network := by
  obtain ⟨best, hbest, h⟩ := bind_eq_ok.1 h
  rw [Outcome.expect_eq_ok] at hbest
  have hmem : best ∈ s.chainSet := List.mem_of_getLast? hbest
  obtain ⟨⟨⟨root, treestate⟩, best'⟩, hpop, h⟩ := bind_eq_ok.1 h
  obtain ⟨s₁, hins, h⟩ := bind_eq_ok.1 h
  obtain ⟨s₂, hside, h⟩ := bind_eq_ok.1 h
  obtain ⟨rfl, rfl⟩ := Prod.mk.injEq .. ▸ Except.ok.inj h
  obtain ⟨hroot, hblocks⟩ := (hs best hmem).popRoot hpop
  have hheight : tip.1 + 1 = root.height := by
    have := ((hs best hmem).height (i := 0) (by rw [hblocks]; rfl)).1
    simp only at this
    omega
  have hsides : ∀ d ∈ s.chainSet.dropLast.reverse, Rooted net tip d := fun d hd =>
    hs d (List.dropLast_subset _ (List.mem_reverse.1 hd))
  -- the state with at most the best chain
  have hs₁ : (∀ d ∈ s₁.chainSet, Rooted net (root.height, root.hash) d) ∧ s₁.chainSet.Pairwise Below ∧
      s₁.chainSet.length ≤ maxNonFinalizedChainForks ∧ s₁.invalidatedBlocks = s.invalidatedBlocks ∧
      s₁.network = s.network := by
    unfold NonFinalizedState.insertUnlessEmpty at hins
    split at hins
    · cases hins
      simp
    · have hi := insert_inserted hins
      exact ⟨fun d hd => (hi.mem d hd).elim (fun he => he ▸ hroot) (by simp), hi.sorted .nil, hi.few,
        hi.invalidatedBlocks, hi.network⟩
  obtain ⟨h₁, h₂, h₃, h₄, h₅⟩ := hs₁
  obtain ⟨k₁, k₂, k₃, k₄, k₅⟩ := finalizeSideChains_rooted hside hsides hheight h₁ h₂ h₃
  exact ⟨⟨best, hbest, by simp [hblocks]⟩, k₁, k₂, k₃, by simp only [k₄, h₄], k₅.trans h₅⟩

variable [BlockCommitments]

theorem validateAndCommit_eq_ok {b : SemanticallyVerifiedBlock} {db : ZebraDb} (h : s.validateAndCommit c b db = .ok c') :
    ∃ x : ContextuallyVerifiedBlock, x.block = b.block ∧ x.hash = b.hash ∧ x.height = b.height ∧ c.push x = .ok c' ∧
      ∀ e ∈ s.invalidatedBlocks, ∀ y ∈ e.2, y.hash ≠ b.hash := by
  unfold NonFinalizedState.validateAndCommit at h
  split at h
  · simp at h
  · rename_i hinv
    obtain ⟨spent, -, h⟩ := bind_eq_ok.1 h
    obtain ⟨_, -, h⟩ := bind_eq_ok.1 h
    obtain ⟨x, hx, h⟩ := bind_eq_ok.1 h
    rw [Outcome.mapErr_eq_ok] at hx
    obtain ⟨change, -, hx⟩ := bind_eq_ok.1 hx
    cases hx
    obtain ⟨_, -, h⟩ := bind_eq_ok.1 h
    obtain ⟨⟨_, _, c''⟩, hj, h⟩ := bind_eq_ok.1 h
    cases h
    refine ⟨_, rfl, rfl, rfl, (joinScope_eq_ok.1 (joinScope_eq_ok.1 hj).2).2, ?_⟩
    simpa using hinv

variable {b : SemanticallyVerifiedBlock} {db : ZebraDb}

theorem commitNewChain_eq_ok (hv : NodeState.IsVerified b) (hc : NodeState.IsChild ⟨s, db⟩ (.commitNewChain b))
    (h : s.commitNewChain b db = .ok s') :
    ∃ tip c x, db.tip = some tip ∧ Rooted s.network tip c ∧ blocksOf c = [x] ∧ x.block = b.block ∧ x.hash = b.hash ∧
      (∀ e ∈ s.invalidatedBlocks, ∀ y ∈ e.2, y.hash ≠ b.hash) ∧ (s.insert c : Validated _) = .ok s' := by
  obtain ⟨t, ht, h⟩ := bind_eq_ok.1 h
  obtain ⟨c₀, hc₀, h⟩ := bind_eq_ok.1 h
  obtain ⟨c, hcommit, h⟩ := bind_eq_ok.1 h
  obtain ⟨s₁, hins, h⟩ := bind_eq_ok.1 h
  obtain ⟨_, -, h⟩ := bind_eq_ok.1 h
  cases h
  rw [Outcome.expect_eq_ok] at ht
  obtain ⟨tip, htip, rfl⟩ := Option.map_eq_some_iff.1 ht
  obtain ⟨hparent, hheight⟩ := hc
  simp only [ZebraDb.finalizedTipHash, htip, Option.map_some, Option.getD_some] at hparent
  have hnext : tip.1 + 1 = b.height := by simpa [ht] using hheight
  obtain ⟨hroot, hblocks, htipHeight⟩ := newChain_rooted (by have := hv.height_le; omega) tip.2 hc₀
  obtain ⟨x, hxb, hxh, hxk, hpush, hinv⟩ := validateAndCommit_eq_ok hcommit
  obtain ⟨hroot', hblocks'⟩ := hroot.push
    ⟨by simp [htipHeight, hnext, hxk], hxk ▸ hv.height_le, by rw [hxb, hxk]; exact hv.coinbaseHeight⟩ hpush
    (by simp [hblocks, hxb, hparent]) (by rw [hxh, hxb]; exact hv.hash)
  exact ⟨tip, c, x, htip, hroot', by simp [hblocks', hblocks], hxb, hxh, hinv, hins⟩

theorem commitBlock_eq_ok (hs : ∀ d ∈ s.chainSet, Rooted net tip d) (hv : NodeState.IsVerified b)
    (hc : NodeState.IsChild ⟨s, db⟩ (.commitBlock b)) (h : s.commitBlock b db = .ok s') :
    ∃ c x d kept removed, Rooted net tip c ∧ blocksOf c = kept ++ [x] ∧ x.block = b.block ∧ x.hash = b.hash ∧
      d ∈ s.chainSet ∧ blocksOf d = kept ++ removed ∧ kept.getLast?.map (·.hash) = some b.block.header.previousBlockHash ∧
      (∀ e ∈ s.invalidatedBlocks, ∀ y ∈ e.2, y.hash ≠ b.hash) ∧
      s.insertWith c (ChainSet.retainTips b.block.header.previousBlockHash) = (.ok s' : Validated _) := by
  obtain ⟨c₀, hparent, h⟩ := bind_eq_ok.1 h
  obtain ⟨c, hcommit, h⟩ := bind_eq_ok.1 h
  obtain ⟨s₁, hins, h⟩ := bind_eq_ok.1 h
  obtain ⟨_, -, h⟩ := bind_eq_ok.1 h
  cases h
  obtain ⟨hroot, htip, d, hd, removed, hrem⟩ := parentChain_eq_ok hparent hs
  obtain ⟨x, hxb, hxh, hxk, hpush, hinv⟩ := validateAndCommit_eq_ok hcommit
  obtain ⟨last, hlast, hlasth⟩ := Option.map_eq_some_iff.1 htip
  have hne : blocksOf c₀ ≠ [] := by
    intro hnil
    simp [hnil] at hlast
  -- the parent is the tip of the chain that is extended
  have hk : last.height = tip.1 + (blocksOf c₀).length := by
    rw [List.getLast?_eq_getElem?] at hlast
    have := (hroot.height hlast).1
    have := List.length_pos_iff.2 hne
    omega
  have hmem : last ∈ blocksOf d := by
    rw [hrem]
    exact List.mem_append_left _ (List.mem_of_getLast? hlast)
  have hnext : b.height = last.height + 1 :=
    hc d hd last.height ((hs d hd).getElem?_heightByHash.2 ⟨last, hmem, hlasth, rfl⟩)
  have hparent' : x.block.header.previousBlockHash = lastHash tip.2 (blocksOf c₀) := by
    rw [hxb, lastHash, hlast, Option.map_some, Option.getD_some, hlasth]
  obtain ⟨hroot', hblocks'⟩ := hroot.push
    ⟨by rw [hroot.tipHeight hne, hxk, hnext, hk, Option.map_some], hxk ▸ hv.height_le,
      by rw [hxb, hxk]; exact hv.coinbaseHeight⟩ hpush hparent' (by rw [hxh, hxb]; exact hv.hash)
  exact ⟨c, x, d, blocksOf c₀, removed, hroot', hblocks', hxb, hxh, hd, hrem, htip, hinv, hins⟩

end

end Zebra.Ledger
