import Zebra.Lib.Guarded
import Zebra.Mempool.Downloads

namespace Zebra.Properties

open Lib Std CancelChannels

inductive DownloadEvent where
  | queue (txid : UnminedTxId)
  | cancel (minedIds : List TransactionHash)
  | cancelAll
  | finish (t : DownloadTask) (result : TaskResult)

/-- A pending task can finish at any time, but is only cancelled if it was signalled. -/
def CanFinish (d : Downloads) (t : DownloadTask) (result : TaskResult) : Prop :=
  t ∈ d.pending ∧ (result = .cancelled → t.signal.isSome = true)

instance (d : Downloads) (t : DownloadTask) (result : TaskResult) : Decidable (CanFinish d t result) :=
  inferInstanceAs (Decidable (_ ∧ _))

/-- A request that is refused changes nothing. -/
def downloadStep (d : Downloads) : DownloadEvent → Outcome DownloadPanic Empty Downloads
  | .queue txid =>
    match Downloads.downloadIfNeededAndVerify d txid with
    | .ok d' => .ok d'
    | .error (.panic p) => Outcome.panic p
    | .error (.error _) => .ok d
  | .cancel minedIds => .ok (Downloads.cancel d minedIds)
  | .cancelAll => .ok (Downloads.cancelAll d)
  | .finish t result => .ok (if CanFinish d t result then Downloads.pollNext d t result else d)

/-- An id is not queued again before its cancelled task has finished, a verified transaction has the
id of its task, and only cancelled tasks run out of time. -/
def KeepsHandles (d : Downloads) : DownloadEvent → Prop
  | .queue txid => ∀ t ∈ d.pending, t.key = txid → t.signal = none
  | .finish t (.verified id) => id = t.key
  | .finish t .elapsed => t.signal.isSome = true
  | _ => True

instance (d : Downloads) (e : DownloadEvent) : Decidable (KeepsHandles d e) :=
  match e with
  | .queue txid => inferInstanceAs (Decidable (∀ t ∈ d.pending, t.key = txid → t.signal = none))
  | .finish _ (.verified _) => inferInstanceAs (Decidable (_ = _))
  | .finish _ .elapsed => inferInstanceAs (Decidable (_ = _))
  | .finish _ .failed | .finish _ .cancelled | .cancel _ | .cancelAll => isTrue trivial

/-- The handles are linked to the tasks, there is one task for an id, and no sender was just dropped. -/
structure Tracked (d : Downloads) : Prop where
  linked : d.Linked
  ids : (d.pending.map Task.key).Nodup
  sent : ∀ t ∈ d.pending, t.signal ≠ some .dropped

section tracked

variable {d d' : Downloads} {t u : DownloadTask} {txid : UnminedTxId} {result : TaskResult}

theorem Tracked.new : Tracked Downloads.new :=
  ⟨linked_empty, List.nodup_nil, nofun⟩

theorem Tracked.removeHandle_sent (h : Tracked d) (txid : UnminedTxId) : Tracked (d.removeHandle .sent txid) := by
  refine ⟨h.linked.removeHandle .sent txid, ?_, ?_⟩
  · rw [removeHandle]
    split
    · exact h.ids
    · rw [map_signalTask fun _ _ => rfl]
      exact h.ids
  · rw [removeHandle]
    split
    · exact h.sent
    · intro u hu
      rcases mem_of_mem_signalTask hu with hu | ⟨hsignal, -⟩
      · exact h.sent u hu
      · rw [hsignal]
        simp

theorem Tracked.cancel (h : Tracked d) (minedIds : List TransactionHash) : Tracked (Downloads.cancel d minedIds) := by
  rw [Downloads.cancel]
  generalize d.cancelHandles.keys.filter _ = txids
  induction txids generalizing d with
  | nil => exact h
  | cons txid txids ih => exact ih (h.removeHandle_sent txid)

theorem Tracked.cancelAll (d : Downloads) : Tracked (Downloads.cancelAll d) where
  linked :=
    { channels := List.nodup_nil
      fresh := nofun
      handles := fun id channel => by simp [Downloads.cancelAll] }
  ids := List.nodup_nil
  sent := nofun

theorem download_cases (d : Downloads) (txid : UnminedTxId) :
    (Downloads.downloadIfNeededAndVerify d txid = Outcome.fail .alreadyQueued ∧ d.cancelHandles[txid]?.isSome = true) ∨
      Downloads.downloadIfNeededAndVerify d txid = Outcome.fail .fullQueue ∨
      (d.cancelHandles[txid]? = none ∧ Downloads.downloadIfNeededAndVerify d txid = .ok (d.push txid ())) := by
  rw [Downloads.downloadIfNeededAndVerify]
  split
  · rename_i hsome
    exact .inl ⟨rfl, hsome⟩
  · rename_i hnone
    have hnone : d.cancelHandles[txid]? = none := by simpa using hnone
    split
    · exact .inr (.inl rfl)
    · refine .inr (.inr ⟨hnone, ?_⟩)
      rw [Outcome.check, if_pos hnone, Outcome.ok_bind]
      rfl

theorem Tracked.queued (h : Tracked d) (hnone : d.cancelHandles[txid]? = none)
    (hkeeps : ∀ t ∈ d.pending, t.key = txid → t.signal = none) : Tracked (d.push txid ()) := by
  refine ⟨h.linked.push hnone (), ?_, fun t ht => ?_⟩
  · rw [push, List.map_append, List.nodup_append]
    refine ⟨h.ids, List.nodup_singleton _, fun a ha b hb => ?_⟩
    obtain ⟨t, ht, rfl⟩ := List.mem_map.1 ha
    rw [List.mem_singleton.1 hb]
    intro hkey
    have hsome := h.linked.isSome_iff.2 ⟨t, ht, hkey, hkeeps t ht hkey⟩
    rw [hnone] at hsome
    cases hsome
  · rcases List.mem_append.1 ht with ht | ht
    · exact h.sent t ht
    · rw [List.mem_singleton.1 ht]
      simp

theorem Tracked.finish_removeHandle (h : Tracked d) (ht : t ∈ d.pending) :
    Tracked ((d.finish t).removeHandle .dropped t.key) := by
  have hids : ((d.finish t).pending.map Task.key).Nodup := h.ids.sublist (List.erase_sublist.map _)
  have hsent : ∀ u ∈ (d.finish t).pending, u.signal ≠ some .dropped := fun u hu => h.sent u (h.linked.mem_finish.1 hu).2
  cases hsignal : t.signal with
  | none =>
    obtain ⟨hlinked, hpending, -⟩ := h.linked.finish_removeHandle ht hsignal .dropped
    exact ⟨hlinked, by rwa [hpending], by rwa [hpending]⟩
  | some signal =>
    -- there is no other task of the id, so there is no handle
    have hnone : (d.finish t).cancelHandles[t.key]? = none := by
      by_contra hsome
      obtain ⟨u, hu, hkey, husignal⟩ := h.linked.isSome_iff.1 (Option.isSome_iff_ne_none.2 hsome)
      rw [List.inj_on_of_nodup_map h.ids hu ht hkey, hsignal] at husignal
      cases husignal
    rw [removeHandle, hnone]
    exact ⟨h.linked.finish (by rw [hsignal]; rfl), hids, hsent⟩

theorem Tracked.pollNext (h : Tracked d) (hfinish : CanFinish d t result) (hkeeps : KeepsHandles d (.finish t result)) :
    Tracked (Downloads.pollNext d t result) := by
  have hid : Downloads.resultId t result = some t.key ∨ (Downloads.resultId t result = none ∧ t.signal.isSome = true) := by
    cases result with
    | verified id => exact .inl (congrArg some hkeeps)
    | failed | cancelled => exact .inl rfl
    | elapsed => exact .inr ⟨rfl, hkeeps⟩
  rw [Downloads.pollNext]
  rcases hid with hid | ⟨hid, hsignal⟩
  · rw [hid]
    exact h.finish_removeHandle hfinish.1
  · rw [hid]
    exact ⟨h.linked.finish hsignal, h.ids.sublist (List.erase_sublist.map _), fun u hu => h.sent u (h.linked.mem_finish.1 hu).2⟩

theorem Tracked.step {e : DownloadEvent} (h : Tracked d) (hkeeps : KeepsHandles d e) :
    ∃ d', downloadStep d e = .ok d' ∧ Tracked d' := by
  cases e with
  | queue txid =>
    rw [downloadStep]
    rcases download_cases d txid with ⟨hrefused, -⟩ | hrefused | ⟨hnone, haccepted⟩
    · exact ⟨d, by rw [hrefused]; rfl, h⟩
    · exact ⟨d, by rw [hrefused]; rfl, h⟩
    · exact ⟨_, by rw [haccepted], h.queued hnone hkeeps⟩
  | cancel minedIds => exact ⟨_, rfl, h.cancel minedIds⟩
  | cancelAll => exact ⟨_, rfl, .cancelAll d⟩
  | finish t result =>
    refine ⟨_, rfl, ?_⟩
    split
    · rename_i hfinish
      exact h.pollNext hfinish hkeeps
    · exact h

end tracked

/-- The handles are those of the pending tasks that were not cancelled, an id is refused as queued only
if there is such a task, and no task was cancelled except by a signal that was sent. -/
theorem handles_track_tasks (events : List DownloadEvent) (hevents : Guarded downloadStep KeepsHandles .new events) :
    ∃ d, events.foldlM downloadStep .new = .ok d ∧
      (∀ txid, d.cancelHandles[txid]?.isSome = true ↔ ∃ t ∈ d.pending, t.key = txid ∧ t.signal = none) ∧
      (∀ txid, Downloads.downloadIfNeededAndVerify d txid = Outcome.fail .alreadyQueued →
        ∃ t ∈ d.pending, t.key = txid ∧ t.signal = none) ∧
      ∀ t ∈ d.pending, t.signal ≠ some .dropped := by
  obtain ⟨d, hd, htracked⟩ := Guarded.exists_invariant
    (fun _ _ h hC => (h.step hC).imp fun _ hstep => hstep.1)
    (fun _ _ _ h hC hstep => by
      obtain ⟨d', hd', htracked⟩ := h.step hC
      exact Except.ok.inj (hd'.symm.trans hstep) ▸ htracked) hevents Tracked.new
  have hexact : ∀ txid, d.cancelHandles[txid]?.isSome = true ↔ ∃ t ∈ d.pending, t.key = txid ∧ t.signal = none :=
    fun _ => htracked.linked.isSome_iff
  refine ⟨d, hd, hexact, fun txid hrefused => ?_, htracked.sent⟩
  rcases download_cases d txid with ⟨-, hsome⟩ | hfull | ⟨-, haccepted⟩
  · exact (hexact txid).1 hsome
  · rw [hfull] at hrefused
    cases hrefused
  · rw [haccepted] at hrefused
    cases hrefused

def sampleTxid : UnminedTxId := .legacy 7

def handleState (d : Downloads) : List DownloadTask × List UnminedTxId × Option QueueError :=
  (d.pending, d.cancelHandles.keys,
    match Downloads.downloadIfNeededAndVerify d sampleTxid with
    | .error (.error e) => some e
    | _ => none)

/-- After its task runs out of time, an id is refused as queued without a task. If it is queued again
after a cancel, the end of the cancelled task drops the handle of the new one, which is cancelled by that. -/
theorem stale_handles :
    handleState <$> [.queue sampleTxid, .finish ⟨sampleTxid, (), 0, none⟩ .elapsed].foldlM downloadStep .new =
        .ok ([], [sampleTxid], some .alreadyQueued) ∧
      handleState <$> [.queue sampleTxid, .cancel [7], .queue sampleTxid,
          .finish ⟨sampleTxid, (), 0, some .sent⟩ .cancelled].foldlM downloadStep .new =
        .ok ([⟨sampleTxid, (), 1, some .dropped⟩], [], none) := by
  constructor <;> decide +kernel

theorem requeued_after_end : ∃ d,
    [.queue sampleTxid, .cancel [7], .finish ⟨sampleTxid, (), 0, some .sent⟩ .cancelled, .queue sampleTxid].foldlM downloadStep
        .new = .ok d ∧
      ∀ txid, d.cancelHandles[txid]?.isSome = true ↔ ∃ t ∈ d.pending, t.key = txid ∧ t.signal = none := by
  obtain ⟨d, hd, hexact, -⟩ := handles_track_tasks [.queue sampleTxid, .cancel [7],
    .finish ⟨sampleTxid, (), 0, some .sent⟩ .cancelled, .queue sampleTxid] (by decide +kernel)
  exact ⟨d, hd, hexact⟩

end Zebra.Properties
