import Zebra.Properties.MempoolInvariant

namespace Zebra.Properties

open Lib Std

section

variable [TransactionIds] [StandardPolicy] {st st' : Storage × Nat} {txCostLimit evictionMemoryTime : Nat} {mined : List TransactionHash}

def minedAfter (mined : List TransactionHash) : StorageEvent → List TransactionHash
  | .rejectAndRemoveSameEffects _ minedIds _ => mined ++ minedIds
  | .clear => []
  | _ => mined

/-- No transaction is mined twice before a clear. -/
def MinedOnce (mined : List TransactionHash) : List StorageEvent → Prop
  | [] => True
  | event :: events => (minedAfter mined event).Nodup ∧ MinedOnce (minedAfter mined event) events

structure RecallsMined (st : Storage × Nat) (mined : List TransactionHash) (evictionMemoryTime : Nat) : Prop where
  contains : ∀ id, (st.1.chainRejectedSameEffects .mined).containsKey st.2 id = true → id ∈ mined
  memory : st.1.evictionMemoryTime = evictionMemoryTime

theorem RecallsMined.within {storage : Storage} (h : RecallsMined st mined evictionMemoryTime)
    (hwithin : Storage.MinedWithin storage st.1 st.2) : RecallsMined (storage, st.2) mined evictionMemoryTime :=
  ⟨fun id hid => h.contains id (hwithin.contains id hid), hwithin.memory.trans h.memory⟩

omit [StandardPolicy] in
theorem recallsMined_new (evictionMemoryTime txCostLimit now : Nat) :
    RecallsMined (.new evictionMemoryTime txCostLimit, now) [] evictionMemoryTime :=
  ⟨fun id hid => by simp [Storage.new, EvictionList.new, EvictionList.containsKey] at hid, rfl⟩

theorem RecallsMined.step {event : StorageEvent} (hst : StorageInvariant st txCostLimit)
    (h : RecallsMined st mined evictionMemoryTime) (hnodup : (minedAfter mined event).Nodup) :
    ∃ st', storageStep st event = .ok st' ∧ RecallsMined st' (minedAfter mined event) evictionMemoryTime := by
  obtain ⟨R, hR⟩ := hst.sound.consistent
  cases event with
  | elapse time =>
    exact ⟨_, rfl, fun id hid => h.contains id (EvictionList.containsKey_of_later (Nat.le_add_right _ _) hid), h.memory⟩
  | insert order samplers tx spentMempoolOutpoints height =>
    obtain ⟨result, storage, hrun, -, hwithin, -⟩ := hst.sound.insert (hst.limit.symm ▸ hst.cost) order samplers tx spentMempoolOutpoints height
    rw [storageStep, hrun]
    exact ⟨_, rfl, h.within hwithin⟩
  | rejectIfNeeded txId error =>
    obtain ⟨storage, hrun⟩ : ∃ storage, (st.1.rejectIfNeeded st.2 txId error : MempoolExec _) = .ok storage := by
      cases error <;> exact ⟨_, rfl⟩
    rw [storageStep, hrun]
    obtain ⟨-, hlists, htime, -⟩ := Storage.rejectIfNeeded_eq_ok hrun
    exact ⟨_, rfl, h.within ⟨fun id hid => hlists ▸ hid, htime⟩⟩
  | clearMinedDependencies minedIds => exact ⟨_, rfl, h.contains, h.memory⟩
  | rejectAndRemoveSameEffects order minedIds transactions =>
    obtain ⟨-, hnodupIds, hdisjoint⟩ := List.nodup_append.1 hnodup
    obtain ⟨removed, storage, hrun⟩ := hst.sound.rejectAndRemoveSameEffects_succeeds order transactions hnodupIds
      fun id hid => Bool.eq_false_iff.2 fun hcontains => hdisjoint id (h.contains id hcontains) id hid rfl
    rw [storageStep, hrun]
    obtain ⟨-, htime, hcontains⟩ := hst.sound.rejectAndRemoveSameEffects hrun
    exact ⟨_, rfl, fun id hid => List.mem_append.2 ((hcontains id hid).symm.imp_left (h.contains id)), htime.trans h.memory⟩
  | removeExpired order tipHeight =>
    obtain ⟨removed, storage, hrun, -, hwithin⟩ := hst.sound.removeExpiredTransactions order tipHeight
    rw [storageStep, hrun]
    exact ⟨_, rfl, h.within hwithin⟩
  | removeExact order exactWtxids =>
    obtain ⟨removed, verified, hrun, -⟩ := hR.removeAllThat order fun tx => tx.transaction.id ∈ exactWtxids
    rw [storageStep, hrun]
    exact ⟨_, rfl, h.contains, h.memory⟩
  | clearTipRejections => exact ⟨_, rfl, h.contains, h.memory⟩
  | clear => exact ⟨_, rfl, h.memory ▸ recallsMined_new _ _ _⟩

theorem RecallsMined.run {events : List StorageEvent} (hst : StorageInvariant st txCostLimit)
    (h : RecallsMined st mined evictionMemoryTime) (honce : MinedOnce mined events) :
    ∃ st', events.foldlM storageStep st = .ok st' ∧ st'.1.evictionMemoryTime = evictionMemoryTime := by
  induction events generalizing st mined with
  | nil => exact ⟨st, rfl, h.memory⟩
  | cons event events ih =>
    obtain ⟨next, hnext, hmined⟩ := h.step hst honce.1
    rw [List.foldlM_cons, hnext]
    exact ih (hst.step hnext) hmined honce.2

/-- Both collections of the list have the same ids, within its maximum. For the insertions that led to it, in the order
of time, it contains the most recent ones whose age is at most the memory time. -/
structure ListExact (l : EvictionList) (evictionMemoryTime now : Nat) : Prop where
  nodup : l.orderedEntries.Nodup
  same : ∀ id, id ∈ l.uniqueEntries ↔ id ∈ l.orderedEntries
  size : l.uniqueEntries.size ≤ maxEvictionMemoryEntries
  contains : ∃ history : Evictions,
    (history.foldlM (fun l e => l.insert e.2 e.1) (.new maxEvictionMemoryEntries evictionMemoryTime) : MempoolExec _) = .ok l ∧
      history.Pairwise (fun a b => a.2 ≤ b.2) ∧ (∀ e ∈ history, e.2 ≤ now) ∧
      ∀ later ≥ now, ∀ id, l.containsKey later id = true ↔
        ∃ t, (id, t) ∈ history.drop (history.length - maxEvictionMemoryEntries) ∧ later - t ≤ evictionMemoryTime

theorem listExact_of_recalls {l : EvictionList} {history : Evictions} {evictionMemoryTime now : Nat}
    (h : l.Recalls history now) (hmax : l.maxSize = maxEvictionMemoryEntries) (htime : l.evictionMemoryTime = evictionMemoryTime) :
    ListExact l evictionMemoryTime now := by
  obtain ⟨es, hes, -, hlength, -⟩ := h.lists
  subst htime
  constructor
  case nodup =>
    rw [hes.ordered]
    exact hes.indexes.nodup
  case same =>
    intro id
    rw [hes.indexes.mem_iff, hes.ordered]
    exact Iff.rfl
  case size =>
    rw [hes.indexes.size_eq, ← hmax]
    exact hlength
  case contains => exact ⟨history, hmax ▸ h.replays, h.sorted, h.past, fun later hlater id => hmax ▸ h.containsKey_iff hlater⟩

end

namespace MempoolSample

def minedEvents : List StorageEvent :=
  evictingEvents ++ [.rejectAndRemoveSameEffects keyOrder [2] [], .clear, .rejectAndRemoveSameEffects keyOrder [2] []]

end MempoolSample

end Zebra.Properties
