import Mathlib.Data.List.Nodup
import Zebra.Lib.KeyedMap

/-! Tasks that can be cancelled through a map of handles. -/

namespace Zebra.Lib

open Std

/-- Why a task stops early: its sender sent a signal, or was dropped. -/
inductive CancelSignal where
  | sent
  | dropped
deriving DecidableEq

structure Task (κ α : Type) where
  key : κ
  payload : α
  channel : Nat
  signal : Option CancelSignal
deriving DecidableEq

/-- The tasks, and for each key the channel of its cancel handle. -/
structure CancelChannels (κ α : Type) [Ord κ] where
  pending : List (Task κ α)
  cancelHandles : KeyedMap κ Nat
  nextChannel : Nat

namespace CancelChannels

variable {κ α : Type} [Ord κ] [TransOrd κ]

def empty : CancelChannels κ α := ⟨[], ∅, 0⟩

def signalTask (signal : CancelSignal) (channel : Nat) (pending : List (Task κ α)) : List (Task κ α) :=
  pending.map fun t => if t.channel = channel ∧ t.signal = none then { t with signal := some signal } else t

variable (c : CancelChannels κ α)

/-- Removes the handle of a key. If `signal` is `sent`, the handle is used before it is dropped. -/
def removeHandle (signal : CancelSignal) (key : κ) : CancelChannels κ α :=
  match c.cancelHandles[key]? with
  | none => c
  | some channel => { c with
      pending := signalTask signal channel c.pending
      cancelHandles := c.cancelHandles.erase key }

def push (key : κ) (payload : α) : CancelChannels κ α where
  pending := c.pending ++ [⟨key, payload, c.nextChannel, none⟩]
  cancelHandles := c.cancelHandles.insert key c.nextChannel
  nextChannel := c.nextChannel + 1

def pushCancelled (key : κ) (payload : α) : CancelChannels κ α where
  pending := c.pending ++ [⟨key, payload, c.nextChannel, some .sent⟩]
  cancelHandles := c.cancelHandles
  nextChannel := c.nextChannel + 1

def finish [DecidableEq κ] [DecidableEq α] (t : Task κ α) : CancelChannels κ α := { c with pending := c.pending.erase t }

/-- Each handle is the one of a task that was not signalled, and each such task has its handle. -/
structure Linked : Prop where
  channels : (c.pending.map Task.channel).Nodup
  fresh : ∀ t ∈ c.pending, t.channel < c.nextChannel
  handles : ∀ (key : κ) (channel : Nat), c.cancelHandles[key]? = some channel ↔
    ∃ t ∈ c.pending, t.key = key ∧ t.channel = channel ∧ t.signal = none

section

variable {c : CancelChannels κ α} {t u : Task κ α} {key : κ} {channel : Nat} {signal : CancelSignal}
  {pending : List (Task κ α)}

theorem mem_signalTask : u ∈ signalTask signal channel pending ↔ ∃ t ∈ pending,
    (if t.channel = channel ∧ t.signal = none then { t with signal := some signal } else t) = u := List.mem_map

theorem map_signalTask {β : Type} {f : Task κ α → β} (hf : ∀ t s, f { t with signal := s } = f t) :
    (signalTask signal channel pending).map f = pending.map f := by
  rw [signalTask, List.map_map]
  refine List.map_congr_left fun t _ => ?_
  rw [Function.comp_apply]
  split
  · exact hf t _
  · rfl

theorem mem_of_mem_signalTask (h : u ∈ signalTask signal channel pending) :
    u ∈ pending ∨ (u.signal = some signal ∧ ∃ t ∈ pending, u = { t with signal := some signal }) := by
  obtain ⟨t, ht, rfl⟩ := mem_signalTask.1 h
  split
  · exact .inr ⟨rfl, t, ht, rfl⟩
  · exact .inl ht

theorem unsignalled_iff (key : κ) (n : Nat) :
    (∃ u ∈ signalTask signal channel pending, u.key = key ∧ u.channel = n ∧ u.signal = none) ↔
      n ≠ channel ∧ ∃ t ∈ pending, t.key = key ∧ t.channel = n ∧ t.signal = none := by
  constructor
  · rintro ⟨u, hu, rfl, rfl, hsignal⟩
    obtain ⟨t, ht, rfl⟩ := mem_signalTask.1 hu
    split at hsignal
    · cases hsignal
    · rename_i hnot
      rw [if_neg hnot]
      exact ⟨fun hchannel => hnot ⟨hchannel, hsignal⟩, t, ht, rfl, rfl, hsignal⟩
  · rintro ⟨hne, t, ht, rfl, rfl, hsignal⟩
    exact ⟨t, mem_signalTask.2 ⟨t, ht, if_neg fun h => hne h.1⟩, rfl, rfl, hsignal⟩

theorem signalTask_eq_self (h : ∀ u ∈ pending, u.channel ≠ channel) : signalTask signal channel pending = pending := by
  refine (List.map_congr_left fun u hu => ?_).trans (List.map_id _)
  rw [if_neg fun hboth => h u hu hboth.1]
  rfl

theorem Linked.eq_of_channel (h : c.Linked) (ht : t ∈ c.pending) (hu : u ∈ c.pending) (heq : t.channel = u.channel) :
    t = u := List.inj_on_of_nodup_map h.channels ht hu heq

theorem Linked.isSome_iff (h : c.Linked) :
    c.cancelHandles[key]?.isSome = true ↔ ∃ t ∈ c.pending, t.key = key ∧ t.signal = none := by
  rw [Option.isSome_iff_exists]
  refine ⟨fun ⟨channel, hchannel⟩ => ?_, fun ⟨t, ht, hkey, hsignal⟩ => ?_⟩
  · obtain ⟨t, ht, hkey, -, hsignal⟩ := (h.handles key channel).1 hchannel
    exact ⟨t, ht, hkey, hsignal⟩
  · exact ⟨t.channel, (h.handles key t.channel).2 ⟨t, ht, hkey, rfl, hsignal⟩⟩

theorem Linked.eq_of_key (h : c.Linked) (ht : t ∈ c.pending) (hu : u ∈ c.pending) (heq : t.key = u.key)
    (htsignal : t.signal = none) (husignal : u.signal = none) : t = u := by
  have hthandle := (h.handles u.key t.channel).2 ⟨t, ht, heq, rfl, htsignal⟩
  have huhandle := (h.handles u.key u.channel).2 ⟨u, hu, rfl, rfl, husignal⟩
  exact h.eq_of_channel ht hu (Option.some.inj (hthandle.symm.trans huhandle))

theorem linked_empty : (empty : CancelChannels κ α).Linked where
  channels := List.nodup_nil
  fresh := nofun
  handles := fun key channel => by simp [empty]

end

section

variable [LawfulEqOrd κ] {c : CancelChannels κ α} {t u : Task κ α} {key : κ} {payload : α} {signal : CancelSignal}

theorem Linked.removeHandle (h : c.Linked) (signal : CancelSignal) (key : κ) : (c.removeHandle signal key).Linked := by
  rw [CancelChannels.removeHandle]
  split
  · exact h
  · rename_i channel hchannel
    refine ⟨?_, fun u hu => ?_, fun key' n => ?_⟩
    · rw [map_signalTask fun _ _ => rfl]
      exact h.channels
    · obtain ⟨v, hv, rfl⟩ := mem_signalTask.1 hu
      split
      · exact h.fresh v hv
      · exact h.fresh v hv
    · rw [unsignalled_iff, ← h.handles]
      by_cases hkey : key = key'
      · subst hkey
        rw [ExtTreeMap.getElem?_erase_self, hchannel]
        refine ⟨fun hnone => (nomatch hnone), fun ⟨hne, hsome⟩ => absurd (Option.some.inj hsome).symm hne⟩
      · rw [KeyedMap.getElem?_erase_of_ne hkey]
        refine ⟨fun hsome => ⟨?_, hsome⟩, And.right⟩
        rintro rfl
        obtain ⟨v, hv, hvkey, hvchannel, -⟩ := (h.handles key' n).1 hsome
        obtain ⟨w, hw, hwkey, hwchannel, -⟩ := (h.handles key n).1 hchannel
        have heq := h.eq_of_channel hv hw (hvchannel.trans hwchannel.symm)
        exact hkey (by rw [← hwkey, ← heq, hvkey])

theorem Linked.concat (h : c.Linked) (hu : u.channel = c.nextChannel) :
    ((c.pending ++ [u]).map Task.channel).Nodup ∧ ∀ t ∈ c.pending ++ [u], t.channel < c.nextChannel + 1 := by
  constructor
  · rw [List.map_append, List.nodup_append]
    refine ⟨h.channels, List.nodup_singleton _, fun a ha b hb => ?_⟩
    obtain ⟨t, ht, rfl⟩ := List.mem_map.1 ha
    rw [List.mem_singleton.1 hb, hu]
    exact Nat.ne_of_lt (h.fresh t ht)
  · intro t ht
    rcases List.mem_append.1 ht with ht | ht
    · exact Nat.lt_succ_of_lt (h.fresh t ht)
    · rw [List.mem_singleton.1 ht, hu]
      exact Nat.lt_succ_self _

theorem Linked.push (h : c.Linked) (hnone : c.cancelHandles[key]? = none) (payload : α) : (c.push key payload).Linked := by
  refine ⟨(h.concat rfl).1, (h.concat rfl).2, fun key' n => ?_⟩
  rw [CancelChannels.push]
  simp only [List.mem_append, List.mem_singleton, or_and_right, exists_or, exists_eq_left]
  rw [← h.handles]
  by_cases hkey : key = key'
  · subst hkey
    rw [ExtTreeMap.getElem?_insert_self, hnone]
    simp
  · rw [KeyedMap.getElem?_insert_of_ne hkey]
    simp [hkey]

theorem Linked.pushCancelled (h : c.Linked) (key : κ) (payload : α) : (c.pushCancelled key payload).Linked := by
  refine ⟨(h.concat rfl).1, (h.concat rfl).2, fun key' n => ?_⟩
  rw [CancelChannels.pushCancelled]
  simp only [List.mem_append, List.mem_singleton, or_and_right, exists_or, exists_eq_left]
  rw [← h.handles]
  simp

variable [DecidableEq κ] [DecidableEq α]

theorem Linked.mem_finish (h : c.Linked) : u ∈ (c.finish t).pending ↔ u ≠ t ∧ u ∈ c.pending :=
  (List.Nodup.of_map _ h.channels).mem_erase_iff

theorem Linked.finish (h : c.Linked) (hsignal : t.signal.isSome = true) : (c.finish t).Linked := by
  refine ⟨h.channels.sublist (List.erase_sublist.map _), fun u hu => h.fresh u (h.mem_finish.1 hu).2, fun key n => ?_⟩
  refine (h.handles key n).trans ⟨fun ⟨u, hu, hkey, hn, hnone⟩ => ⟨u, h.mem_finish.2 ⟨?_, hu⟩, hkey, hn, hnone⟩,
    fun ⟨u, hu, hrest⟩ => ⟨u, (h.mem_finish.1 hu).2, hrest⟩⟩
  rintro rfl
  rw [hnone] at hsignal
  cases hsignal

/-- The end of a task that was not signalled removes its own handle and signals no other task. -/
theorem Linked.finish_removeHandle (h : c.Linked) (ht : t ∈ c.pending) (hsignal : t.signal = none)
    (signal : CancelSignal) :
    ((c.finish t).removeHandle signal t.key).Linked ∧
      ((c.finish t).removeHandle signal t.key).pending = (c.finish t).pending ∧
      ((c.finish t).removeHandle signal t.key).cancelHandles = c.cancelHandles.erase t.key := by
  have hhandle : (c.finish t).cancelHandles[t.key]? = some t.channel := (h.handles _ _).2 ⟨t, ht, rfl, rfl, hsignal⟩
  have hself : signalTask signal t.channel (c.finish t).pending = (c.finish t).pending := by
    refine signalTask_eq_self fun u hu heq => ?_
    obtain ⟨hne, hu⟩ := h.mem_finish.1 hu
    exact hne (h.eq_of_channel hu ht heq)
  rw [CancelChannels.removeHandle, hhandle]
  dsimp only
  rw [hself]
  refine ⟨⟨h.channels.sublist (List.erase_sublist.map _), fun u hu => h.fresh u (h.mem_finish.1 hu).2, fun key n => ?_⟩,
    rfl, rfl⟩
  by_cases hkey : t.key = key
  · subst hkey
    rw [show (c.finish t).cancelHandles = c.cancelHandles from rfl, ExtTreeMap.getElem?_erase_self]
    refine ⟨fun hnone => (nomatch hnone), ?_⟩
    rintro ⟨u, hu, hukey, -, husignal⟩
    obtain ⟨hne, hu⟩ := h.mem_finish.1 hu
    exact absurd (h.eq_of_key hu ht hukey husignal hsignal) hne
  · rw [KeyedMap.getElem?_erase_of_ne hkey]
    refine (h.handles key n).trans ⟨fun ⟨u, hu, hukey, hrest⟩ => ⟨u, h.mem_finish.2 ⟨?_, hu⟩, hukey, hrest⟩,
      fun ⟨u, hu, hrest⟩ => ⟨u, (h.mem_finish.1 hu).2, hrest⟩⟩
    rintro rfl
    exact hkey hukey

end

end CancelChannels

end Zebra.Lib
