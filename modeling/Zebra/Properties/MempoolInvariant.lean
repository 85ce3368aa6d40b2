import Zebra.Ledger.MempoolStorage

namespace Zebra.Properties

open Lib Std VerifiedSet

section

variable [TransactionIds]

inductive SetOperation [TransactionIds] where
  | insert (tx : VerifiedUnminedTx) (spentMempoolOutpoints : List OutPoint) (height : Option Nat)
  | evictOne (order : IterationOrder TransactionHash) (sampler : WeightedSampler)
  | removeAllThat (order : IterationOrder TransactionHash) (predicate : VerifiedUnminedTx → Bool)
  | clearMinedDependencies (minedIds : List TransactionHash)
  | clear

/-- A transaction that is refused changes nothing. -/
def setStep (s : VerifiedSet) : SetOperation → MempoolExec VerifiedSet
  | .insert tx spentMempoolOutpoints height =>
    match s.insert tx spentMempoolOutpoints height with
    | .ok s' => .ok s'
    | .error _ => .ok s
  | .evictOne order sampler => Prod.snd <$> s.evictOne order sampler
  | .removeAllThat order predicate => Prod.snd <$> s.removeAllThat order predicate
  | .clearMinedDependencies minedIds => .ok (s.clearMinedDependencies minedIds)
  | .clear => .ok VerifiedSet.clear

/-- The caches are exact, and the dependencies that are kept relate stored transactions without a cycle. -/
def SetInvariant (s : VerifiedSet) : Prop :=
  s.Consistent fun t p => p ∈ s.transactionDependencies.directDependencies t

variable {s s' : VerifiedSet} {R : TransactionHash → TransactionHash → Prop}

theorem setInvariant_of_consistent (h : s.Consistent R) : SetInvariant s :=
  h.congr fun t p => (h.relates.dependencies.mem t p).symm

/-- Only an eviction from an empty set can panic. -/
theorem SetInvariant.step (h : SetInvariant s) (op : SetOperation) :
    setStep s op = Outcome.panic .weights ∨ ∃ s', setStep s op = .ok s' ∧ SetInvariant s' := by
  cases op with
  | insert tx spentMempoolOutpoints height =>
    refine .inr ?_
    rw [setStep]
    cases hinsert : s.insert tx spentMempoolOutpoints height with
    | ok s' => exact ⟨s', rfl, setInvariant_of_consistent (Consistent.insert h hinsert)⟩
    | error e => exact ⟨s, rfl, h⟩
  | evictOne order sampler =>
    rw [setStep]
    by_cases hcost : 0 < s.totalCost
    · obtain ⟨key, tx, s', hrun, -, hremoved⟩ := Consistent.evictOne h order sampler hcost
      refine .inr ⟨s', ?_, setInvariant_of_consistent hremoved.consistent⟩
      rw [hrun]
      rfl
    · have hnil : s.transactions.toList = [] := by
        by_contra hne
        obtain ⟨e, he⟩ := List.exists_mem_of_ne_nil _ hne
        have hle := KeyedMap.le_total (f := VerifiedUnminedTx.cost) (ExtTreeMap.mem_toList_iff_getElem?_eq_some.1 he)
        rw [← h.cost] at hle
        exact hcost (Nat.lt_of_lt_of_le e.2.cost_pos hle)
      refine .inl ?_
      rw [VerifiedSet.evictOne, hnil]
      rfl
  | removeAllThat order predicate =>
    obtain ⟨removed, s', hrun, hremoved, -⟩ := Consistent.removeAllThat h order predicate
    refine .inr ⟨s', ?_, setInvariant_of_consistent hremoved.consistent⟩
    rw [setStep, hrun]
    rfl
  | clearMinedDependencies minedIds =>
    exact .inr ⟨_, rfl, setInvariant_of_consistent (Consistent.clearMinedDependencies h minedIds)⟩
  | clear => exact .inr ⟨_, rfl, setInvariant_of_consistent consistent_empty⟩

theorem SetInvariant.run (h : SetInvariant s) (ops : List SetOperation) :
    ops.foldlM setStep s = Outcome.panic .weights ∨ ∃ s', ops.foldlM setStep s = .ok s' ∧ SetInvariant s' := by
  induction ops generalizing s with
  | nil => exact .inr ⟨s, rfl, h⟩
  | cons op ops ih =>
    rw [List.foldlM_cons]
    rcases h.step op with hpanic | ⟨next, hnext, hinv⟩
    · rw [hpanic]
      exact .inl rfl
    · rw [hnext, Outcome.ok_bind]
      exact ih hinv

variable [StandardPolicy]

inductive StorageEvent [TransactionIds] where
  | elapse (time : Nat)
  | insert (order : IterationOrder TransactionHash) (samplers : Nat → WeightedSampler) (tx : VerifiedUnminedTx)
      (spentMempoolOutpoints : List OutPoint) (height : Option Nat)
  | rejectIfNeeded (txId : UnminedTxId) (error : TransactionDownloadVerifyError)
  | clearMinedDependencies (minedIds : List TransactionHash)
  | rejectAndRemoveSameEffects (order : IterationOrder TransactionHash) (minedIds : List TransactionHash)
      (transactions : List Transaction)
  | removeExpired (order : IterationOrder TransactionHash) (tipHeight : Nat)
  | removeExact (order : IterationOrder TransactionHash) (exactWtxids : List UnminedTxId)
  | clearTipRejections
  | clear

def storageStep (st : Storage × Nat) : StorageEvent → MempoolExec (Storage × Nat)
  | .elapse time => .ok (st.1, st.2 + time)
  | .insert order samplers tx spentMempoolOutpoints height =>
    (fun r => (r.2, st.2)) <$> st.1.insert st.2 order samplers tx spentMempoolOutpoints height
  | .rejectIfNeeded txId error => (·, st.2) <$> st.1.rejectIfNeeded st.2 txId error
  | .clearMinedDependencies minedIds => .ok (st.1.clearMinedDependencies minedIds, st.2)
  | .rejectAndRemoveSameEffects order minedIds transactions =>
    (fun r => (r.2, st.2)) <$> st.1.rejectAndRemoveSameEffects st.2 order minedIds transactions
  | .removeExpired order tipHeight => (fun r => (r.2, st.2)) <$> st.1.removeExpiredTransactions st.2 order tipHeight
  | .removeExact order exactWtxids =>
    (fun r => ({ st.1 with verified := r.2 }, st.2)) <$> st.1.verified.removeAllThat order fun tx => tx.transaction.id ∈ exactWtxids
  | .clearTipRejections => .ok (st.1.clearTipRejections, st.2)
  | .clear => .ok (st.1.clear, st.2)

structure StorageInvariant (st : Storage × Nat) (txCostLimit : Nat) : Prop where
  sound : st.1.Sound st.2
  cost : st.1.verified.totalCost ≤ txCostLimit
  limit : st.1.txCostLimit = txCostLimit

variable {st st' : Storage × Nat} {txCostLimit : Nat}

omit [StandardPolicy] in
theorem StorageInvariant.smaller {storage : Storage} (h : StorageInvariant st txCostLimit) (hsound : storage.Sound st.2)
    (hsmaller : storage.Smaller st.1) : StorageInvariant (storage, st.2) txCostLimit where
  sound := hsound
  cost := hsmaller.cost.trans h.cost
  limit := hsmaller.limit.trans h.limit

theorem StorageInvariant.step {event : StorageEvent} (h : StorageInvariant st txCostLimit) (hstep : storageStep st event = .ok st') :
    StorageInvariant st' txCostLimit := by
  obtain ⟨R, hR⟩ := h.sound.consistent
  cases event with
  | elapse time =>
    cases hstep
    exact ⟨h.sound.elapse (Nat.le_add_right _ _), h.cost, h.limit⟩
  | insert order samplers tx spentMempoolOutpoints height =>
    obtain ⟨result, storage, hrun, hsound, -, hcost, hlimit⟩ := h.sound.insert (h.limit.symm ▸ h.cost) order samplers tx
      spentMempoolOutpoints height
    rw [storageStep, hrun] at hstep
    cases hstep
    exact ⟨hsound, hcost.trans_eq (hlimit.trans h.limit), hlimit.trans h.limit⟩
  | rejectIfNeeded txId error =>
    obtain ⟨storage, hrun, rfl⟩ := map_eq_ok.1 hstep
    obtain ⟨hverified, hlists, htime, hlimit⟩ := Storage.rejectIfNeeded_eq_ok hrun
    exact ⟨h.sound.of_subset (hverified.symm ▸ hR) (fun _ hid => hverified ▸ hid) hlists htime, hverified.symm ▸ h.cost, hlimit.trans h.limit⟩
  | clearMinedDependencies minedIds =>
    cases hstep
    exact ⟨h.sound.of_subset (hR.clearMinedDependencies minedIds) (fun _ hid => hid) rfl rfl, h.cost, h.limit⟩
  | rejectAndRemoveSameEffects order minedIds transactions =>
    obtain ⟨⟨removed, storage⟩, hrun, rfl⟩ := map_eq_ok.1 hstep
    exact h.smaller (h.sound.rejectAndRemoveSameEffects hrun).1 (Storage.rejectAndRemoveSameEffects_eq_ok hR hrun).1
  | removeExpired order tipHeight =>
    obtain ⟨⟨removed, storage⟩, hrun, rfl⟩ := map_eq_ok.1 hstep
    obtain ⟨removed', storage', hrun', hsound, -⟩ := h.sound.removeExpiredTransactions order tipHeight
    obtain ⟨rfl, rfl⟩ := Prod.mk.inj (Except.ok.inj (hrun'.symm.trans hrun))
    exact h.smaller hsound (Storage.removeExpiredTransactions_eq_ok hR hrun).1
  | removeExact order exactWtxids =>
    obtain ⟨⟨removed, verified⟩, hrun, rfl⟩ := map_eq_ok.1 hstep
    obtain ⟨removed', verified', hrun', hremoved, -⟩ := hR.removeAllThat order fun tx => tx.transaction.id ∈ exactWtxids
    obtain ⟨-, rfl⟩ := Prod.mk.inj (Except.ok.inj (hrun.symm.trans hrun'))
    exact h.smaller (h.sound.of_subset hremoved.consistent (fun _ hid => (hremoved.mem hid).2) rfl rfl) (.of_removed hR hremoved rfl rfl)
  | clearTipRejections =>
    cases hstep
    exact ⟨h.sound.of_subset hR (fun _ hid => hid) rfl rfl, h.cost, h.limit⟩
  | clear =>
    cases hstep
    exact ⟨Storage.sound_new _ _ _, Nat.zero_le _, h.limit⟩

theorem StorageInvariant.run {events : List StorageEvent} (h : StorageInvariant st txCostLimit)
    (hrun : events.foldlM storageStep st = .ok st') : StorageInvariant st' txCostLimit := by
  induction events generalizing st with
  | nil =>
    cases hrun
    exact h
  | cons event events ih =>
    rw [List.foldlM_cons] at hrun
    obtain ⟨next, hnext, hrun⟩ := bind_eq_ok.1 hrun
    exact ih (h.step hnext) hrun

theorem mempool_set_invariant :
    (∀ operations : List SetOperation, operations.foldlM setStep .empty = Outcome.panic .weights ∨
      ∃ s, operations.foldlM setStep .empty = .ok s ∧ SetInvariant s) ∧
    ∀ (evictionMemoryTime txCostLimit : Nat) (events : List StorageEvent) (st : Storage × Nat),
      events.foldlM storageStep (.new evictionMemoryTime txCostLimit, 0) = .ok st →
      SetInvariant st.1.verified ∧ st.1.verified.totalCost ≤ txCostLimit ∧
      ∀ order samplers tx spentMempoolOutpoints height, ∃ result s',
        (st.1.insert st.2 order samplers tx spentMempoolOutpoints height : Outcome MempoolPanic Empty _) = .ok (result, s') ∧
        SetInvariant s'.verified ∧ s'.verified.totalCost ≤ txCostLimit := by
  refine ⟨fun operations => SetInvariant.run (setInvariant_of_consistent consistent_empty) operations, ?_⟩
  intro evictionMemoryTime txCostLimit events st hrun
  have hstart : StorageInvariant (.new evictionMemoryTime txCostLimit, 0) txCostLimit :=
    ⟨Storage.sound_new _ _ _, Nat.zero_le _, rfl⟩
  have hst := hstart.run hrun
  obtain ⟨R, hR⟩ := hst.sound.consistent
  refine ⟨setInvariant_of_consistent hR, hst.cost, fun order samplers tx spentMempoolOutpoints height => ?_⟩
  obtain ⟨result, s', hinsert, hsound, -, hcost, hlimit⟩ := hst.sound.insert (hst.limit.symm ▸ hst.cost) order samplers tx
    spentMempoolOutpoints height
  obtain ⟨R', hR'⟩ := hsound.consistent
  exact ⟨result, s', hinsert, setInvariant_of_consistent hR', hcost.trans_eq (hlimit.trans hst.limit)⟩

end

def firstPositive : WeightedSampler where
  sample weights := weights.findIdx fun w => 0 < w
  valid weights hsum := by
    obtain ⟨w, hw, hpos⟩ := List.sum_pos_iff_exists_pos_nat.1 hsum
    have hlt : (weights.findIdx fun w => decide (0 < w)) < weights.length :=
      List.findIdx_lt_length_of_exists ⟨w, hw, decide_eq_true hpos⟩
    exact ⟨_, List.getElem?_eq_getElem hlt, of_decide_eq_true (List.findIdx_getElem (w := hlt))⟩

def keyOrder : IterationOrder TransactionHash := ⟨id, fun _ => .refl _⟩

namespace MempoolSample

/-- Transaction `h` spends the first output of a chain transaction, and has one output. -/
scoped instance sampleIds : TransactionIds := ⟨fun h => .V1 [.prevOut ⟨h + 100, 0⟩] [⟨.zero, 0⟩]⟩

scoped instance samplePolicy : StandardPolicy := ⟨fun _ => none⟩

def sampleTx (h : Nat) (expiryHeight : Option Nat) : VerifiedUnminedTx :=
  ⟨⟨.legacy h, .V1 [.prevOut ⟨h + 100, 0⟩] [⟨.zero, 0⟩], 300, .zero, expiryHeight, rfl⟩, .zero, 0, 0, 0, 1, none, rfl, rfl⟩

def evictingEvents : List StorageEvent :=
  [.insert keyOrder (fun _ => firstPositive) (sampleTx 1 none) [] none,
    .insert keyOrder (fun _ => firstPositive) (sampleTx 2 none) [] none]

theorem evictingEvents_within_limit :
    ∃ st, evictingEvents.foldlM storageStep (.new 60 15000, 0) = .ok st ∧ st.1.verified.transactions.keys = [2] ∧
      SetInvariant st.1.verified ∧ st.1.verified.totalCost ≤ 15000 := by
  have hrun : (fun st => st.1.verified.transactions.keys) <$> evictingEvents.foldlM storageStep (.new 60 15000, 0) = .ok [2] := by
    decide +kernel
  obtain ⟨st, hst, hkeys⟩ := map_eq_ok.1 hrun
  obtain ⟨hinv, hcost, -⟩ := mempool_set_invariant.2 60 15000 evictingEvents st hst
  exact ⟨st, hst, hkeys, hinv, hcost⟩

end MempoolSample

end Zebra.Properties
