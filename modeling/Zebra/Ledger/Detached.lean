import Zebra.Ledger.Node

namespace Zebra.Ledger

open Lib NonFinalizedState

variable [BlockHashing]

def Known (hash : BlockHash) (height : Nat) : Prop :=
  ∃ b : Block, BlockHashing.hash b = hash ∧ b.coinbaseHeight = some height

/-- A block hash determines the parent of the block and its height. -/
def HashDetermines : Prop :=
  ∀ b b' : Block, BlockHashing.hash b = BlockHashing.hash b' →
    b.header.previousBlockHash = b'.header.previousBlockHash ∧ b.coinbaseHeight = b'.coinbaseHeight

theorem Known.unique (hdet : HashDetermines) {hash : BlockHash} {k k' : Nat} (h : Known hash k)
    (h' : Known hash k') : k = k' := by
  obtain ⟨b, rfl, hb⟩ := h
  obtain ⟨b', hhash, hb'⟩ := h'
  simpa [hb, hb'] using (hdet b' b hhash).2.symm

/-- The blocks are at the heights above `height`, as their coinbase transactions say. -/
def Consecutive (height : Nat) : Blocks → Prop
  | [] => True
  | b :: bs => b.height = height + 1 ∧ b.height ≤ Height.max ∧ b.block.coinbaseHeight = some b.height ∧
      Consecutive (height + 1) bs

variable {height : Nat} {bs : Blocks} {parent : BlockHash} {b : ContextuallyVerifiedBlock}
  {ε : Type}

omit [BlockHashing] in
theorem consecutive_append {bs' : Blocks} :
    Consecutive height (bs ++ bs') ↔ Consecutive height bs ∧ Consecutive (height + bs.length) bs' := by
  induction bs generalizing height with
  | nil => simp [Consecutive]
  | cons b bs ih =>
    simp only [List.cons_append, Consecutive, ih, List.length_cons, and_assoc]
    rw [Nat.add_assoc height 1, Nat.add_comm 1]

/-- A branch that was taken off a chain, recorded under the height of its first block. -/
def Detached (e : Nat × Blocks) : Prop :=
  ∃ parent height, Known parent height ∧ e.1 = height + 1 ∧ e.2 ≠ [] ∧ Chained parent e.2 ∧ Consecutive height e.2

variable [ScriptParsing] [MerkleHashing] [ChainHistory] {net : Network} {tip : Nat × BlockHash} {c : Chain}

theorem Rooted.consecutive (h : Rooted net tip c) : Consecutive tip.1 (blocksOf c) := by
  obtain ⟨L, href, hbase, -⟩ := h
  have hl := (linked_append.1 L.linked).2
  rw [hbase] at hl
  rw [href.inner.blocksOf_eq, Lineage.blocks]
  generalize L.records = rs at hl
  generalize lastSnapshot L.start L.past = s at hl
  generalize tip.1 = k at hl
  induction rs generalizing k s with
  | nil => trivial
  | cons r rs ih => exact ⟨hl.1, hl.1 ▸ hl.2.1, hl.2.2.1.coinbase, ih _ _ hl.2.2.2⟩

omit [ScriptParsing] [MerkleHashing] [ChainHistory] in
theorem known_of_mem (hc : Chained parent bs) (hk : Consecutive height bs) (hb : b ∈ bs) : Known b.hash b.height:= by
  induction bs generalizing height parent with
  | nil => simp at hb
  | cons b' bs ih =>
    rcases List.mem_cons.1 hb with rfl | hb
    · exact ⟨b.block, hc.2.1.symm, hk.2.2.1⟩
    · exact ih hc.2.2 hk.2.2.2 hb

omit [ScriptParsing] [MerkleHashing] [ChainHistory] in
theorem known_lastHash (hp : Known parent height) (hc : Chained parent bs) (hk : Consecutive height bs) :
    Known (lastHash parent bs) (height + bs.length) := by
  induction bs generalizing height parent with
  | nil => exact hp
  | cons b bs ih =>
    have hb : Known b.hash (height + 1) := ⟨b.block, hc.2.1.symm, hk.1 ▸ hk.2.2.1⟩
    have := ih hb hc.2.2 hk.2.2.2
    rwa [lastHash_cons, List.length_cons, Nat.add_comm bs.length, ← Nat.add_assoc]

variable {s s' : NonFinalizedState} {hash hash' : BlockHash}

omit [BlockHashing] [ScriptParsing] [MerkleHashing] [ChainHistory] in
theorem findContaining_eq_some (h : s.findContaining hash = some c) : c ∈ s.chainSet ∧ hash ∈ c.inner.heightByHash:=
  ⟨List.mem_reverse.1 (List.mem_of_find?_eq_some h), by simpa using List.find?_some h⟩

omit [MerkleHashing] [ChainHistory] [BlockHashing] [ScriptParsing] in
theorem recordInvalidated_eq_ok : (s.recordInvalidated (b :: bs) : Exec ε _) = .ok { s with
      invalidatedBlocks := (IndexMap.insert s.invalidatedBlocks b.height (b :: bs)).drop
        ((IndexMap.insert s.invalidatedBlocks b.height (b :: bs)).length - maxInvalidatedBlocks) } := rfl

/-- A successful invalidation cuts the best chain that contains the block, drops the other
chains that contain it, and records what it cut off. The root of that chain cannot be
invalidated: removing the chain compares it with itself. -/
theorem invalidateBlock_eq_ok (hs : ∀ d ∈ s.chainSet, Rooted net tip d) (hsort : s.chainSet.Pairwise Below)
    (h : s.invalidateBlock hash = .ok (hash', s')) :
    ∃ c c' b removed s₁, s.findContaining hash = some c ∧ Rooted net tip c' ∧
      blocksOf c = blocksOf c' ++ b :: removed ∧ b.hash = hash ∧ blocksOf c' ≠ [] ∧
      s.insertWith c' (fun chains => return chains.filter fun c => hash ∉ c.inner.heightByHash) =
        (.ok s₁ : Exec InvalidateError _) ∧
      (s₁.recordInvalidated (b :: removed) : Exec InvalidateError _) = .ok s' := by
  unfold invalidateBlock at h
  split at h
  · simp at h
  · rename_i c hc
    obtain ⟨hmem, hcont⟩ := findContaining_eq_some hc
    obtain ⟨⟨s₁, blocks⟩, hrem, h⟩ := bind_eq_ok.1 h
    obtain ⟨s₂, hrec, h⟩ := bind_eq_ok.1 h
    obtain ⟨rfl, rfl⟩ := Prod.mk.injEq .. ▸ Except.ok.inj h
    obtain ⟨root, hroot, hrem⟩ := bind_eq_ok.1 hrem
    rw [nonFinalizedRootHash_eq_ok] at hroot
    split at hrem
    · obtain ⟨chains, hchains, -⟩ := bind_eq_ok.1 hrem
      exact absurd hchains (ChainSet.remove_ne_ok hsort hmem)
    · rename_i hne
      obtain ⟨o, ho, hrem⟩ := bind_eq_ok.1 hrem
      have hroot' : (blocksOf c).head?.map (·.hash) ≠ some hash := by
        rw [hroot]
        simpa using hne
      obtain ⟨c', b, removed, rfl, hc', hblocks, hb, hne'⟩ := (hs c hmem).invalidateBlock hcont hroot' ho
      rw [Outcome.expect_some, Outcome.ok_bind] at hrem
      obtain ⟨s₃, hins, hrem⟩ := bind_eq_ok.1 hrem
      obtain ⟨rfl, rfl⟩ := Prod.mk.injEq .. ▸ Except.ok.inj hrem
      exact ⟨c, c', b, removed, s₃, hc, hc', hblocks, hb, hne', hins, hrec⟩

theorem pushAll_rooted {c' : Chain} (hc : Rooted net tip c)
    (hchain : Chained (lastHash tip.2 (blocksOf c)) bs) (hcons : Consecutive (tip.1 + (blocksOf c).length) bs)
    (htip : c.tipHeight = some (tip.1 + (blocksOf c).length))
    (h : (pushAll c bs : Exec ε _) = .ok c') :
    Rooted net tip c' ∧ blocksOf c' = blocksOf c ++ bs := by
  induction bs generalizing c with
  | nil =>
    cases h
    exact ⟨hc, by simp⟩
  | cons b bs ih =>
    rw [pushAll, List.foldlM_cons, bind_eq_ok] at h
    obtain ⟨c₁, hpush, h⟩ := h
    have hpush' : c.push b = .ok c₁ := by
      unfold pushExpected at hpush
      split at hpush <;> simp_all
    obtain ⟨hparent, hhash, hchain⟩ := hchain
    obtain ⟨hk, hmax, hcb, hcons⟩ := hcons
    obtain ⟨hc₁, hblocks⟩ := hc.push ⟨by rw [htip, hk, Option.map_some], hmax, hcb⟩ hpush' hparent hhash
    have hlen : (blocksOf c₁).length = (blocksOf c).length + 1 := by rw [hblocks, List.length_append]; rfl
    obtain ⟨hc', hblocks'⟩ := ih hc₁ (by rwa [hblocks, lastHash_concat]) (by rwa [hlen, ← Nat.add_assoc])
      (hc₁.tipHeight (by simp [hblocks])) h
    exact ⟨hc', by rw [hblocks', hblocks, List.append_assoc, List.singleton_append]⟩

/-- A successful reconsideration puts a recorded branch back onto its parent, which is the
finalized tip or a block of some chain. -/
theorem reconsiderBlock_eq_ok (hdet : HashDetermines) {db : ZebraDb} {hashes : List BlockHash}
    (hs : ∀ d ∈ s.chainSet, ∃ tip, db.tip = some tip ∧ Rooted s.network tip d)
    (htip : ∀ tip, db.tip = some tip → Known tip.2 tip.1) (hrec : ∀ e ∈ s.invalidatedBlocks, Detached e)
    (h : s.reconsiderBlock hash db = .ok (hashes, s')) :
    ∃ tip c e kept b, db.tip = some tip ∧ Rooted s.network tip c ∧ e ∈ s.invalidatedBlocks ∧
      b ∈ e.2.head? ∧ hashes = e.2.map (·.hash) ∧ blocksOf c = kept ++ e.2 ∧
      lastHash tip.2 kept = b.block.header.previousBlockHash ∧
      (kept ≠ [] → ∃ d ∈ s.chainSet, ∃ removed, blocksOf d = kept ++ removed) ∧
      (s.retainInvalidated db.finalizedTipHeight).insertWith c (ChainSet.retainTips b.block.header.previousBlockHash) =
        (.ok s' : Exec ReconsiderError _) := by
  unfold reconsiderBlock at h
  split at h
  · simp at h
  · split at h
    · simp at h
    · rename_i k' bs he
      have hmem := List.mem_of_find?_eq_some he
      split at h
      · simp at h
      · rename_i b hb
        obtain ⟨c₀, hparent, h⟩ := bind_eq_ok.1 h
        obtain ⟨c, hpush, h⟩ := bind_eq_ok.1 h
        obtain ⟨_, -, h⟩ := bind_eq_ok.1 h
        obtain ⟨_, -, h⟩ := bind_eq_ok.1 h
        obtain ⟨s₁, hins, h⟩ := bind_eq_ok.1 h
        obtain ⟨_, -, h⟩ := bind_eq_ok.1 h
        obtain ⟨rfl, rfl⟩ := Prod.mk.injEq .. ▸ Except.ok.inj h
        obtain ⟨parent, height, hknown, hkey, hne, hchain, hcons⟩ := hrec _ hmem
        simp only at hkey hne hchain hcons
        obtain rfl : parent = b.block.header.previousBlockHash := by
          cases bs with
          | nil => simp at hb
          | cons b' bs =>
            obtain rfl : b' = b := by simpa using hb
            exact hchain.1.symm
        -- the chain below the branch
        obtain ⟨tip, htip', hroot, hlast, hth, hkept⟩ : ∃ tip, db.tip = some tip ∧ Rooted s.network tip c₀ ∧
            lastHash tip.2 (blocksOf c₀) = b.block.header.previousBlockHash ∧
            c₀.tipHeight = some (tip.1 + (blocksOf c₀).length) ∧
            (blocksOf c₀ ≠ [] → ∃ d ∈ s.chainSet, ∃ removed, blocksOf d = blocksOf c₀ ++ removed) := by
          unfold reconsiderParent at hparent
          split at hparent
          · rename_i heq
            split at hparent
            · simp at hparent
            · rename_i t ht
              obtain ⟨tip, htip', rfl⟩ := Option.map_eq_some_iff.1 ht
              simp only [ZebraDb.finalizedTipHash, htip', Option.map_some, Option.getD_some] at heq
              have hk := (htip tip htip').unique hdet (heq ▸ hknown)
              have hmax : tip.1 ≤ Height.max := by
                cases bs with
                | nil => exact absurd rfl hne
                | cons b' bs =>
                  have := hcons.2.1
                  have := hcons.1
                  omega
              obtain ⟨hroot, hblocks, hth⟩ := newChain_rooted hmax tip.2 hparent
              exact ⟨tip, htip', hroot, by simp [hblocks, heq], by simp [hth, hblocks], fun hn => absurd hblocks hn⟩
          · rw [Outcome.mapErr_eq_ok] at hparent
            obtain ⟨tip, htip'⟩ : ∃ tip, db.tip = some tip := by
              cases hcs : s.chainSet with
              | nil => simp [parentChain, hcs, ChainSet.findTip, ChainSet.findFork] at hparent
              | cons d ds =>
                obtain ⟨tip, ht, -⟩ := hs d (by simp [hcs])
                exact ⟨tip, ht⟩
            have hs' : ∀ d ∈ s.chainSet, Rooted s.network tip d := by
              intro d hd
              obtain ⟨tip', ht', hr⟩ := hs d hd
              obtain rfl : tip' = tip := by simpa [htip'] using ht'.symm
              exact hr
            obtain ⟨hroot, ht, d, hd, removed, hrem⟩ := parentChain_eq_ok hparent hs'
            have hne : blocksOf c₀ ≠ [] := by
              intro hnil
              simp [tipHashOf, hnil] at ht
            refine ⟨tip, htip', hroot, ?_, hroot.tipHeight hne, fun _ => ⟨d, hd, removed, hrem⟩⟩
            rw [tipHashOf] at ht
            rw [lastHash, ht, Option.getD_some]
        have hk : tip.1 + (blocksOf c₀).length = height := by
          have := known_lastHash (htip tip htip') hroot.chained hroot.consecutive
          exact this.unique hdet (hlast ▸ hknown)
        obtain ⟨hc, hblocks⟩ := pushAll_rooted hroot (hlast ▸ hchain) (hk ▸ hcons) hth hpush
        exact ⟨tip, c, (k', bs), blocksOf c₀, b, htip', hc, hmem, hb, rfl, hblocks, hlast, hkept, hins⟩

end Zebra.Ledger
