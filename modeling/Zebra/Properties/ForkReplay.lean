import Zebra.Ledger.Restore
import Zebra.Properties.Sample

namespace Zebra.Properties

open Lib Lib.Transition Ledger Lineage

section

variable [ScriptParsing] [MerkleHashing] [ChainHistory] {net : Network} {ch : Chain} {L L' : Lineage net}
  {r : Record} {rs removed : List Record} {op : ChainOp} {ops : List ChainOp} {k : Nat}

theorem step_take {c : ChainInner} (h : Represents c L) (hr : L.records = rs ++ r :: removed) (hrs : rs ≠ [])
    (hfit : FitsStep net (rs.map Record.block) (.push r.block)) :
    (L.take rs.length).Step (.push r.block) (L.take (rs.length + 1)) := by
  have hl := L.linked_records
  rw [hr] at hl
  obtain ⟨hh, hmax, hn, -⟩ := (linked_append.1 hl).2
  have hblocks := blocks_take hr
  have hp : Pushable (L.take rs.length) r.block r.after :=
    pushable_of_sublist h (by rw [hblocks]; simp [blocks, hr]) (by rwa [tip_take hr]) (by rwa [hblocks])
  rw [← tipHeight_take hr] at hh hmax
  have hstep := Lineage.Step.push (.inr (by rwa [records_take hr])) hh hmax hp
  have heq : L.take (rs.length + 1) = (L.take rs.length).extend ⟨r.block, r.after⟩ hh hmax hp.next := by
    refine Lineage.ext rfl rfl rfl ?_
    have hr' : L.records = (rs ++ [r]) ++ removed := by simpa using hr
    rw [records_extend, records_take hr, ← List.length_singleton, ← List.length_append,
      records_take hr']
  rwa [heq]

/-- The blocks removed by a fork can be pushed back, as far as their transfers fit. Their
subtrees are still there. -/
theorem pushBack {c : ChainInner} (h : Represents c L) (hr : L.records = rs ++ removed) (hrs : rs ≠ [])
    (hsap : HoldsSubtrees c.saplingSubtrees .sapling L) (horch : HoldsSubtrees c.orchardSubtrees .orchard L)
    (hch : Refines ch (L.take rs.length)) (hchs : ch.inner.saplingSubtrees = c.saplingSubtrees)
    (hcho : ch.inner.orchardSubtrees = c.orchardSubtrees)
    (hfit : OpsFit net (rs.map Record.block) (removed.map fun r => .push r.block)) :
    ∃ ch', Run Chain.Step ch (removed.map fun r => .push r.block) ch' ∧ Refines ch' L ∧
      ch'.inner.saplingSubtrees = c.saplingSubtrees ∧ ch'.inner.orchardSubtrees = c.orchardSubtrees := by
  induction removed generalizing rs ch with
  | nil =>
    rw [List.append_nil] at hr
    rw [← hr, take_length] at hch
    exact ⟨ch, .nil ch, hch, hchs, hcho⟩
  | cons r removed ih =>
    obtain ⟨hfit, hfits⟩ := hfit
    obtain ⟨ch₁, hs, h₁, hs₁, ho₁⟩ := step_complete hch (step_take h hr hrs hfit)
    have htip := tip_take hr
    rw [subtreesAfter, htip, hchs, hsap.insertSubtree_self hr] at hs₁
    rw [subtreesAfter, htip, hcho, horch.insertSubtree_self hr] at ho₁
    have hr' : L.records = (rs ++ [r]) ++ removed := by simpa using hr
    have h₁' : Refines ch₁ (L.take (rs ++ [r]).length) := by simpa using h₁
    obtain ⟨ch', hrun, hres⟩ := ih hr' (by simp) h₁' hs₁ ho₁ (by simpa [blocksAfter] using hfits)
    exact ⟨ch', .cons hs hrun, hres⟩

def base (L : Lineage net) : Nat := L.startHeight + L.past.length

def truncate (k : Nat) (L : Lineage net) : Lineage net := L.take (k - base L)

omit [ScriptParsing] in
theorem truncate_of_le (hk : L.tipHeight ≤ k) : truncate k L = L := by
  refine Lineage.ext rfl rfl rfl (List.take_of_length_le ?_)
  simp only [tipHeight, Lineage.all, List.length_append] at hk
  simp only [base]
  omega

theorem base_le_of_step (hop : ¬ op.IsFork) (hs : L.Step op L') : base L ≤ base L' := by
  cases hs with
  | push => exact le_rfl
  | fork => exact absurd trivial hop
  | popRoot hr => simp [base, dropRoot, hr]

theorem base_le_of_run (hops : ∀ op ∈ ops, ¬ op.IsFork) (hr : Run Lineage.Step L ops L') : base L ≤ base L' := by
  induction hr with
  | nil => exact le_rfl
  | cons hs _ ih => exact (base_le_of_step (hops _ (by simp)) hs).trans (ih fun op hop => hops op (by simp [hop]))

theorem replay_step (hop : ¬ op.IsFork) (hk : base L' < k) (hs : L.Step op L') :
    (op.notAbove k = true → FitsStep net (truncate k L).blocks op → (truncate k L).Step op (truncate k L')) ∧
      (op.notAbove k = false → truncate k L' = truncate k L) := by
  cases hs with
  | @push b s' hL hh hmax hp =>
    have hlen : L.tipHeight = base L + L.records.length := by
      simp [tipHeight, Lineage.all, base, Nat.add_assoc]
    simp only [ChainOp.notAbove, decide_eq_true_eq, decide_eq_false_iff_not]
    refine ⟨fun hb _ => ?_, fun hb => ?_⟩
    · rw [truncate_of_le (by omega : L.tipHeight ≤ k), truncate_of_le]
      · exact .push hL hh hmax hp
      · have : (L.extend ⟨b, s'⟩ hh hmax hp.next).tipHeight = L.tipHeight + 1 := by
          simp [tipHeight, Lineage.all, extend, Nat.add_assoc]
        omega
    · refine Lineage.ext rfl rfl rfl ?_
      exact List.take_append_of_le_length (by simp only [base, extend] at *; omega)
  | fork => exact absurd trivial hop
  | @popRoot r rs hr hfit =>
    refine ⟨fun _ hf => ?_, by simp [ChainOp.notAbove]⟩
    have hbase : base L.dropRoot = base L + 1 := by simp [base, dropRoot, hr, Nat.add_assoc]
    obtain ⟨n, hn⟩ : ∃ n, k - base L = n + 1 := ⟨k - base L - 1, by omega⟩
    have hrec : (truncate k L).records = r :: rs.take n := by
      rw [truncate, hn, Lineage.take]
      simp [hr]
    have hdrop : truncate k L.dropRoot = (truncate k L).dropRoot := by
      refine Lineage.ext rfl rfl ?_ ?_
      · rw [past_dropRoot, hrec]
        change L.past ++ L.records.take 1 = L.past ++ _
        simp [hr]
      · rw [records_dropRoot, hrec]
        change (L.records.drop 1).take (k - base L.dropRoot) = _
        rw [hr, show k - base L.dropRoot = n by omega]
        rfl
    rw [hdrop]
    exact .popRoot hrec (hf r.block (by simp [blocks, hrec]))

theorem replay_run (hops : ∀ op ∈ ops, ¬ op.IsFork) (hk : base L' < k) (hr : Run Lineage.Step L ops L')
    (hfit : OpsFit net (truncate k L).blocks (ops.filter (·.notAbove k))) :
    Run Lineage.Step (truncate k L) (ops.filter (·.notAbove k)) (truncate k L') := by
  induction hr with
  | nil => exact .nil _
  | @cons L L₁ L' op ops hs hrun ih =>
    have hops' : ∀ op ∈ ops, ¬ op.IsFork := fun op hop => hops op (by simp [hop])
    have hk₁ := (base_le_of_run hops' hrun).trans_lt hk
    obtain ⟨hkeep, hdrop⟩ := replay_step (hops _ (by simp)) hk₁ hs
    cases hop : op.notAbove k with
    | true =>
      rw [List.filter_cons_of_pos hop] at hfit ⊢
      have hstep := hkeep hop hfit.1
      obtain ⟨hblocks, -⟩ := hstep.blocks fun hf => absurd hf (hops _ (by simp))
      exact .cons hstep (ih hops' hk (hblocks ▸ hfit.2))
    | false =>
      rw [List.filter_cons_of_neg (by simp [hop])] at hfit ⊢
      rw [← hdrop hop] at hfit ⊢
      exact ih hops' hk hfit

theorem childBlocks_eq (h : Represents ch.inner L) (hr : L.records = rs ++ [r] ++ removed) :
    ch.childBlocks (r.block.height + 1) = removed.map Record.block := by
  have hsplit : L.records = rs ++ r :: removed := by simpa using hr
  have hheight := height_of_records hsplit
  have hl := L.linked_records
  rw [hr] at hl
  have hlow := (linked_append.1 hl).1.height_le
  have hhigh := (linked_append.1 hl).2.height_le
  rw [List.length_append, List.length_singleton] at hlow hhigh
  rw [Chain.childBlocks, h.blocks_toList, blocks, hr, List.map_append, List.map_append, List.filter_append,
    List.filter_eq_nil_iff.2, List.filter_eq_self.2, List.nil_append, List.map_map]
  · simp
  · intro x hx
    obtain ⟨b, hb, rfl⟩ := List.mem_map.1 hx
    obtain ⟨r', hr', rfl⟩ := List.mem_map.1 hb
    have := hhigh r' hr'
    exact decide_eq_true (by simp only; omega)
  · intro x hx
    obtain ⟨b, hb, rfl⟩ := List.mem_map.1 hx
    obtain ⟨r', hr', rfl⟩ := List.mem_map.1 hb
    have := hlow r' hr'
    simp only [decide_eq_true_eq]
    omega

theorem exists_record_of_hash {hash : BlockHash} (h : Represents ch.inner L)
    (hhash : ch.inner.heightByHash[hash]? = some k) :
    ∃ rs r removed, L.records = rs ++ [r] ++ removed ∧ r.block.hash = hash ∧ r.block.height = k := by
  have hmem := Multiset.mem_coe.1 ((h.heightByHash.get _ _).1 hhash)
  obtain ⟨b, hb, heq⟩ := List.mem_map.1 hmem
  obtain ⟨r, hr, rfl⟩ := List.mem_map.1 hb
  obtain ⟨rs, removed, hrec⟩ := List.append_of_mem hr
  rw [Prod.mk.injEq] at heq
  exact ⟨rs, r, removed, by simpa using hrec, heq.1, heq.2⟩

theorem fork_eq_replay_iff (hcf : CollisionFree) {height : Nat} (hheight : height ≤ Height.max)
    {sprout : NoteCommitmentTree .sprout} {sapling : NoteCommitmentTree .sapling}
    {orchard : NoteCommitmentTree .orchard} {history : HistoryTree} {pools : ValueBalance .nonNegative}
    {ch₀ : Chain} (hnew : (Chain.new net height sprout sapling orchard history pools :
      Exec ValidateContextError _) = .ok ch₀)
    (hops : ∀ op ∈ ops, ¬ op.IsFork) (hrun : Run Chain.Step ch₀ ops ch) {hash : BlockHash}
    (hhash : ch.inner.heightByHash[hash]? = some k) :
    (∃ ch₁ ch₂ ch₃, (ch.fork hash : Exec ValidateContextError _) = .ok (some ch₁) ∧
        Run Chain.Step ch₀ (ops.filter (·.notAbove k)) ch₂ ∧ withoutSubtrees ch₁.inner = withoutSubtrees ch₂.inner ∧
        Run Chain.Step ch₁ ((ch.childBlocks (k + 1)).map .push) ch₃ ∧ ch₃.inner = ch.inner) ↔
      OpsFit net [] (ops ++ .fork hash :: (ch.childBlocks (k + 1)).map .push) ∧
        OpsFit net [] (ops.filter (·.notAbove k)) := by
  have h₀ := new_exact hheight ⟨sprout, sapling, orchard, history, pools⟩ hnew
  constructor
  · rintro ⟨ch₁, ch₂, ch₃, hfork, hreplay, -, hback, -⟩
    have hall : Run Chain.Step ch₀ (ops ++ .fork hash :: (ch.childBlocks (k + 1)).map .push) ch₃ :=
      run_append_iff.2 ⟨ch, hrun, .cons (.fork hfork) hback⟩
    exact ⟨run_fits h₀.toRefines hall, run_fits h₀.toRefines hreplay⟩
  · rintro ⟨hfit, hreplay⟩
    obtain ⟨L, hL, h, hblocks⟩ := run_exact hcf h₀ hops hrun
    change L.blocks = ops.foldl blocksAfter [] at hblocks
    obtain ⟨rs, r, removed, hr, rfl, rfl⟩ := exists_record_of_hash h.inner hhash
    have hr' : L.records = rs ++ r :: removed := by simpa using hr
    have hk := height_of_records hr'
    rw [childBlocks_eq h.inner hr, List.map_map] at hfit ⊢
    obtain ⟨-, hfork, hback⟩ := opsFit_append.1 hfit
    rw [← hblocks, fitsStep_fork h.inner.nodup_hashes hr] at hfork
    rw [← hblocks, blocksAfter, keptByFork_eq h.inner.nodup_hashes hr] at hback
    obtain ⟨ch₁, hs₁, h₁, hsap₁, horch₁⟩ := step_complete h.toRefines (.fork hr hfork)
    have hbase := base_le_of_run hops hL
    have hfresh : truncate r.block.height (fresh net height ⟨sprout, sapling, orchard, history, pools⟩) =
        fresh net height ⟨sprout, sapling, orchard, history, pools⟩ :=
      truncate_of_le (hbase.trans (by simp only [base]; omega))
    have hrep := replay_run (k := r.block.height) hops (by simp only [base]; omega) hL
      (by rw [hfresh]; exact hreplay)
    have htrunc : truncate r.block.height L = L.take (rs.length + 1) := by
      rw [truncate, hk, base, show ∀ a b : Nat, a + b + 1 - a = b + 1 by omega]
    rw [hfresh, htrunc] at hrep
    obtain ⟨ch₂, hrun₂, h₂⟩ := run_complete h₀.toRefines hrep
    obtain ⟨ch₃, hrun₃, h₃, hsap₃, horch₃⟩ := pushBack h.inner hr (by simp) h.sapling h.orchard
      (by simpa using h₁) hsap₁ horch₁ hback
    refine ⟨ch₁, ch₂, ch₃, ?_, hrun₂, h₁.inner.unique hcf h₂.inner, hrun₃,
      eq_of_withoutSubtrees (h₃.inner.unique hcf h.inner) hsap₃ horch₃⟩
    cases hs₁ with
    | fork hf => exact hf

end

open Sample

def payOn (value : Amount .nonNegative) : ContextuallyVerifiedBlock :=
  contextualBlock (semanticBlock 11 11 10 [(1, .V5 [.prevOut ⟨100, 0⟩] [pay value 2] none none)])
    [(⟨100, 0⟩, ⟨⟨pay value 1, 5, false⟩, 1⟩)]

def payBackAndOn (value : Amount .nonNegative) : ContextuallyVerifiedBlock :=
  contextualBlock (semanticBlock 12 12 11
      [(2, .V5 [.prevOut ⟨1, 0⟩] [pay value 1] none none), (3, .V5 [.prevOut ⟨2, 0⟩] [pay value 2] none none)])
    [(⟨1, 0⟩, ⟨⟨pay value 2, 11, false⟩, 1⟩)]

theorem fork_eq_replay_small : ∃ ch₀ ch ch₁ ch₂ ch₃, start ⟨100, by decide⟩ = .ok ch₀ ∧
      Run Chain.Step ch₀ [.push (payOn ⟨100, by decide⟩), .push (payBackAndOn ⟨100, by decide⟩)] ch ∧
      (ch.fork 11 : Exec ValidateContextError _) = .ok (some ch₁) ∧
      Run Chain.Step ch₀ [.push (payOn ⟨100, by decide⟩)] ch₂ ∧ withoutSubtrees ch₁.inner = withoutSubtrees ch₂.inner ∧
      Run Chain.Step ch₁ ((ch.childBlocks 12).map .push) ch₃ ∧ ch₃.inner = ch.inner := by
  obtain ⟨ch₀, hnew, ch, hrun, hhash, hfit⟩ : ∃ ch₀ ∈ (start ⟨100, by decide⟩).toOption,
      ∃ ch ∈ ch₀.performAll [.push (payOn ⟨100, by decide⟩), .push (payBackAndOn ⟨100, by decide⟩)],
      ch.inner.heightByHash[11]? = some 11 ∧
      OpsFit network [] (.push (payOn ⟨100, by decide⟩) :: .push (payBackAndOn ⟨100, by decide⟩) ::
        .fork 11 :: (ch.childBlocks 12).map .push) ∧
      OpsFit network [] [.push (payOn ⟨100, by decide⟩)] := by decide +kernel
  have hnew := Outcome.toOption_eq_some.1 hnew
  have hrun := Chain.run_iff_performAll.2 hrun
  obtain ⟨ch₁, ch₂, ch₃, hres⟩ := (fork_eq_replay_iff collisionFree (by decide) hnew
    (by simp [ChainOp.IsFork]) hrun hhash).2 hfit
  exact ⟨ch₀, ch, ch₁, ch₂, ch₃, hnew, hrun, hres⟩

/-- With an output worth more than half of the money supply, the fork takes the balance of
address 1 below its range before it brings it back. -/
theorem fork_panics : ∃ ch₀ ∈ (start ⟨1200000000000000, by decide⟩).toOption,
      ∃ ch ∈ ch₀.performAll [.push (payOn ⟨1200000000000000, by decide⟩),
          .push (payBackAndOn ⟨1200000000000000, by decide⟩)],
        ch.inner.heightByHash[11]? = some 11 ∧ (ch.fork 11 : Exec ValidateContextError _).Panics := by
  decide +kernel

end Zebra.Properties
