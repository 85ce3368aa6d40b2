import Mathlib.Data.List.Basic
import Mathlib.Tactic.Common

/-! Decoders that keep a state between chunks of a stream. -/

namespace Zebra.Lib

inductive Event (μ ε : Type) where
  | item (m : μ)
  | skipped
  | failed (e : ε)
deriving DecidableEq

structure StreamReader (S τ μ ε : Type) where
  messages : List μ
  error : Option ε
  state : S
  buffer : List τ

namespace StreamReader

variable {S τ μ ε : Type} (decode : S → List τ → Except ε (Option μ) × S × List τ) (weight : S → Nat)

def drain : Nat → StreamReader S τ μ ε → StreamReader S τ μ ε
  | 0, r => r
  | calls + 1, r =>
    match decode r.state r.buffer with
    | (.ok none, s, rest) => ⟨r.messages, none, s, rest⟩
    | (.ok (some m), s, rest) => drain calls ⟨r.messages ++ [m], none, s, rest⟩
    | (.error e, s, rest) => ⟨r.messages, some e, s, rest⟩

/-- A chunk that comes in. The weight bounds the calls: those with a message make the decoder smaller. -/
def feed (r : StreamReader S τ μ ε) (chunk : List τ) : StreamReader S τ μ ε :=
  if r.error.isSome then r
  else drain decode (weight r.state + (r.buffer ++ chunk).length + 1) { r with buffer := r.buffer ++ chunk }

def start (s : S) : StreamReader S τ μ ε := ⟨[], none, s, []⟩

def output (s : S) (chunks : List (List τ)) : List μ × Option ε :=
  let r := chunks.foldl (feed decode weight) (start s)
  (r.messages, r.error)

end StreamReader

/-- Frames at the front of a buffer. More input does not change a complete frame, a frame that is not
complete can be continued from what `wait` keeps of it, and no frame starts without input. -/
structure Framer (S τ μ ε : Type) where
  next : S → List τ → Option (Event μ ε × S × List τ)
  wait : S → List τ → S × List τ
  weight : S → Nat
  next_append : ∀ {s src ev s' rest}, next s src = some (ev, s', rest) →
    ∀ more, next s (src ++ more) = some (ev, s', rest ++ more)
  next_used : ∀ {s src ev s' rest}, next s src = some (ev, s', rest) →
    ∃ used, src = used ++ rest ∧ next s used = some (ev, s', [])
  next_lt : ∀ {s src ev s' rest}, next s src = some (ev, s', rest) → weight s' + rest.length < weight s + src.length
  next_wait : ∀ {s src}, next s src = none → ∀ more,
    next s (src ++ more) = next (wait s src).1 ((wait s src).2 ++ more)
  next_idle : ∀ {s src ev s' rest}, next s src = some (ev, s', rest) → next s' [] = none
  wait_nil : ∀ s, wait s [] = (s, [])

namespace Framer

variable {S τ μ ε : Type} (f : Framer S τ μ ε)

/-- One call of the decoder. Neither a skipped frame nor a missing one gives a message. -/
def decode (s : S) (src : List τ) : Except ε (Option μ) × S × List τ :=
  match f.next s src with
  | none => (.ok none, f.wait s src)
  | some (.item m, s', rest) => (.ok (some m), s', rest)
  | some (.skipped, s', rest) => (.ok none, s', rest)
  | some (.failed e, s', rest) => (.error e, s', rest)

abbrev drain : Nat → StreamReader S τ μ ε → StreamReader S τ μ ε := StreamReader.drain f.decode

abbrev feed : StreamReader S τ μ ε → List τ → StreamReader S τ μ ε := StreamReader.feed f.decode f.weight

abbrev output : S → List (List τ) → List μ × Option ε := StreamReader.output f.decode f.weight

/-- The complete frames of a stream, up to the first that fails. -/
def eventsUpTo : Nat → S → List τ → List (Event μ ε)
  | 0, _, _ => []
  | n + 1, s, src =>
    match f.next s src with
    | none => []
    | some (.failed e, _, _) => [.failed e]
    | some (ev, s', rest) => ev :: eventsUpTo n s' rest

def events (s : S) (src : List τ) : List (Event μ ε) := f.eventsUpTo (f.weight s + src.length + 1) s src

end Framer

namespace Event

variable {μ ε : Type}

def message : Event μ ε → Option μ
  | item m => some m
  | _ => none

def error : Event μ ε → Option ε
  | failed e => some e
  | _ => none

def answer : Event μ ε → Except ε (Option μ)
  | item m => .ok (some m)
  | skipped => .ok none
  | failed e => .error e

@[simp] theorem message_skipped : (skipped : Event μ ε).message = none := rfl

@[simp] theorem message_failed (e : ε) : (failed e : Event μ ε).message = none := rfl

def visible (evs : List (Event μ ε)) : List μ × Option ε := (evs.filterMap message, evs.findSome? error)

/-- After a skipped frame there are only skipped frames. -/
def SkipsLast (evs : List (Event μ ε)) : Prop := ∀ pre post, evs = pre ++ skipped :: post → ∀ ev ∈ post, ev = skipped

theorem visible_cons {ev : Event μ ε} (h : ev.error = none) (evs : List (Event μ ε)) :
    visible (ev :: evs) = (ev.message.toList ++ (visible evs).1, (visible evs).2) := by
  cases ev with
  | failed e => cases h
  | item | skipped => rfl

theorem visible_append {evs evs' : List (Event μ ε)} (h : ∀ ev ∈ evs, ev.error = none) :
    visible (evs ++ evs') = ((visible evs).1 ++ (visible evs').1, (visible evs').2) := by
  have hnone : evs.findSome? error = none := List.findSome?_eq_none_iff.2 h
  rw [visible, visible, visible, List.filterMap_append, List.findSome?_append, hnone, Option.none_or]

theorem visible_eq_nil_iff {evs : List (Event μ ε)} : visible evs = ([], none) ↔ ∀ ev ∈ evs, ev = skipped := by
  rw [visible, Prod.mk.injEq, List.filterMap_eq_nil_iff, List.findSome?_eq_none_iff]
  refine ⟨fun h ev hev => ?_, fun h => ⟨fun ev hev => ?_, fun ev hev => ?_⟩⟩
  · have hmessage := h.1 ev hev
    have herror := h.2 ev hev
    cases ev with
    | item m => cases hmessage
    | skipped => rfl
    | failed e => cases herror
  · rw [h ev hev]
    rfl
  · rw [h ev hev]
    rfl

end Event

namespace Framer

variable {S τ μ ε : Type} {f : Framer S τ μ ε} {s s' s₀ : S} {src rest fed : List τ} {ev : Event μ ε}

theorem decode_of_next (h : f.next s src = some (ev, s', rest)) : f.decode s src = (ev.answer, s', rest) := by
  rw [decode, h]
  cases ev <;> rfl

theorem decode_of_none (h : f.next s src = none) : f.decode s src = (.ok none, f.wait s src) := by
  rw [decode, h]

theorem eventsUpTo_eq {n m : Nat} (hn : f.weight s + src.length < n) (hm : f.weight s + src.length < m) :
    f.eventsUpTo n s src = f.eventsUpTo m s src := by
  induction n generalizing m s src with
  | zero => omega
  | succ n ih =>
    obtain ⟨m, rfl⟩ := Nat.exists_eq_succ_of_ne_zero (Nat.ne_of_gt (Nat.zero_lt_of_lt hm))
    rw [eventsUpTo, Nat.succ_eq_add_one, eventsUpTo]
    cases hnext : f.next s src with
    | none => rfl
    | some result =>
      obtain ⟨ev, s', rest⟩ := result
      have hlt := f.next_lt hnext
      cases ev with
      | failed e => rfl
      | item | skipped => exact congrArg (List.cons _) (ih (by omega) (by omega))

theorem events_of_none (h : f.next s src = none) : f.events s src = [] := by
  rw [events, eventsUpTo, h]

theorem events_of_failed {e : ε} (h : f.next s src = some (.failed e, s', rest)) : f.events s src = [.failed e] := by
  rw [events, eventsUpTo, h]

theorem events_of_next (h : f.next s src = some (ev, s', rest)) (hev : ev.error = none) :
    f.events s src = ev :: f.events s' rest := by
  have hlt := f.next_lt h
  rw [events, eventsUpTo, h]
  cases ev with
  | failed e => cases hev
  | item | skipped => exact congrArg (List.cons _) (eventsUpTo_eq (by omega) (by omega))

theorem events_congr {t : S} {src' : List τ} (h : f.next s src = f.next t src') : f.events s src = f.events t src' := by
  cases hnext : f.next s src with
  | none => rw [events_of_none hnext, events_of_none (h.symm.trans hnext)]
  | some result =>
    obtain ⟨ev, s', rest⟩ := result
    cases ev with
    | failed e => rw [events_of_failed hnext, events_of_failed (h.symm.trans hnext)]
    | item | skipped => rw [events_of_next hnext rfl, events_of_next (h.symm.trans hnext) rfl]

structure Reached (f : Framer S τ μ ε) (r : StreamReader S τ μ ε) (s₀ : S) (fed : List τ) (evs : List (Event μ ε)) : Prop where
  messages : r.messages = evs.filterMap Event.message
  error : r.error = evs.findSome? Event.error
  rest : ∀ more, f.events s₀ (fed ++ more) = evs ++ if r.error.isSome then [] else f.events r.state (r.buffer ++ more)

variable {r : StreamReader S τ μ ε} {evs : List (Event μ ε)}

theorem Reached.start (f : Framer S τ μ ε) (s : S) : Reached f (StreamReader.start s) s [] [] := ⟨rfl, rfl, fun _ => rfl⟩

theorem Reached.next (h : Reached f r s₀ fed evs) (herror : r.error = none)
    (hnext : f.next r.state r.buffer = some (ev, s', rest)) :
    Reached f ⟨r.messages ++ ev.message.toList, ev.error, s', rest⟩ s₀ fed (evs ++ [ev]) := by
  refine ⟨?_, ?_, fun more => ?_⟩
  · rw [List.filterMap_append, ← h.messages]
    cases ev <;> rfl
  · rw [List.findSome?_append, ← h.error, herror]
    cases ev <;> rfl
  · have hmore := f.next_append hnext more
    rw [h.rest more, herror, List.append_assoc]
    cases ev with
    | failed e => exact congrArg _ (events_of_failed hmore)
    | item | skipped => exact congrArg _ (events_of_next hmore rfl)

theorem Reached.wait (h : Reached f r s₀ fed evs) (herror : r.error = none) (hnext : f.next r.state r.buffer = none) :
    Reached f ⟨r.messages, none, (f.wait r.state r.buffer).1, (f.wait r.state r.buffer).2⟩ s₀ fed evs := by
  refine ⟨h.messages, herror ▸ h.error, fun more => ?_⟩
  rw [h.rest more, herror]
  exact congrArg _ (events_congr (f.next_wait hnext more))

/-- Draining stops at an error, without a complete frame, or after a skipped one. -/
theorem Reached.drain {calls : Nat} (h : Reached f r s₀ fed evs) (herror : r.error = none)
    (hcalls : f.weight r.state + r.buffer.length < calls) : ∃ evs', Reached f (f.drain calls r) s₀ fed (evs ++ evs') ∧
      ((f.drain calls r).error.isSome = true ∨ f.next (f.drain calls r).state (f.drain calls r).buffer = none ∨
        .skipped ∈ evs') ∧ ∀ pre post, evs' = pre ++ .skipped :: post → post = [] := by
  induction calls generalizing r evs with
  | zero => omega
  | succ calls ih =>
    rw [Framer.drain, StreamReader.drain, decode]
    cases hnext : f.next r.state r.buffer with
    | none =>
      have hwait := f.next_wait hnext []
      rw [List.append_nil, List.append_nil, hnext] at hwait
      exact ⟨[], by rw [List.append_nil]; exact h.wait herror hnext, .inr (.inl hwait.symm), by simp⟩
    | some result =>
      obtain ⟨ev, s', rest⟩ := result
      have hlt := f.next_lt hnext
      have hone := h.next herror hnext
      cases ev with
      | item m =>
        obtain ⟨evs', hreached, hstop, hlast⟩ := ih hone rfl (by dsimp only; omega)
        refine ⟨.item m :: evs', by rwa [List.append_cons], ?_, fun pre post heq => ?_⟩
        · exact hstop.imp_right fun hstop => hstop.imp_right (List.mem_cons_of_mem _)
        · cases pre with
          | nil => cases (List.cons.inj heq).1
          | cons first pre => exact hlast pre post (List.cons.inj heq).2
      | skipped =>
        rw [Event.message_skipped, Option.toList_none, List.append_nil] at hone
        refine ⟨[.skipped], hone, .inr (.inr List.mem_cons_self), fun pre post heq => ?_⟩
        cases pre with
        | nil => exact (List.cons.inj heq).2.symm
        | cons first pre => simp at heq
      | failed e =>
        rw [Event.message_failed, Option.toList_none, List.append_nil] at hone
        refine ⟨[.failed e], hone, .inl rfl, fun pre post heq => ?_⟩
        cases pre with
        | nil => cases (List.cons.inj heq).1
        | cons first pre => simp at heq

/-- The reader waits for input, has ended, or stopped after a skipped frame. -/
def Stopped (f : Framer S τ μ ε) (r : StreamReader S τ μ ε) (evs : List (Event μ ε)) : Prop :=
  r.error.isSome = true ∨ f.next r.state r.buffer = none ∨ .skipped ∈ evs

theorem Reached.push (h : Reached f r s₀ fed evs) (herror : r.error = none) (chunk : List τ) :
    Reached f { r with buffer := r.buffer ++ chunk } s₀ (fed ++ chunk) evs := by
  refine ⟨h.messages, h.error, fun more => ?_⟩
  rw [List.append_assoc, h.rest, herror, List.append_assoc]

theorem Reached.feed (h : Reached f r s₀ fed evs) (chunk : List τ) :
    ∃ evs', Reached f (f.feed r chunk) s₀ (fed ++ chunk) evs' ∧ Stopped f (f.feed r chunk) evs' := by
  rw [Framer.feed, StreamReader.feed]
  split
  · rename_i herror
    refine ⟨evs, ⟨h.messages, h.error, fun more => ?_⟩, .inl herror⟩
    rw [List.append_assoc, h.rest, if_pos herror, if_pos herror]
  · rename_i herror
    have hnone : r.error = none := by simpa using herror
    obtain ⟨evs', hreached, hstop, -⟩ := (h.push hnone chunk).drain hnone (Nat.lt_succ_self _)
    exact ⟨evs ++ evs', hreached, hstop.imp_right fun hstop => hstop.imp_right (List.mem_append_right _)⟩

theorem Reached.foldl (h : Reached f r s₀ fed evs) (hstop : Stopped f r evs) (chunks : List (List τ)) :
    ∃ evs', Reached f (chunks.foldl f.feed r) s₀ (fed ++ chunks.flatten) evs' ∧ Stopped f (chunks.foldl f.feed r) evs' := by
  induction chunks generalizing r fed evs with
  | nil => exact ⟨evs, by simpa using h, hstop⟩
  | cons chunk chunks ih =>
    obtain ⟨evs', hreached, hstop'⟩ := h.feed chunk
    rw [List.foldl_cons, List.flatten_cons, ← List.append_assoc]
    exact ih hreached hstop'

/-- If only skipped frames follow skipped ones, all chunkings show all that can be seen of the frames. -/
theorem output_eq_visible {chunks : List (List τ)} (hempty : f.next s [] = none)
    (hskips : Event.SkipsLast (f.events s chunks.flatten)) :
    f.output s chunks = Event.visible (f.events s chunks.flatten) := by
  obtain ⟨evs, hreached, hstop⟩ := (Reached.start f s).foldl (.inr (.inl hempty)) chunks
  rw [List.nil_append] at hreached
  have hrest := hreached.rest []
  rw [List.append_nil, List.append_nil] at hrest
  have houtput : f.output s chunks = Event.visible evs := Prod.ext hreached.messages hreached.error
  rw [houtput, hrest]
  split
  · rw [List.append_nil]
  · rename_i herror
    have hclean : ∀ ev ∈ evs, ev.error = none := by
      rw [← List.findSome?_eq_none_iff, ← hreached.error]
      simpa using herror
    rw [if_neg herror] at hrest
    have hskipped : ∀ ev ∈ f.events (chunks.foldl f.feed (StreamReader.start s)).state (chunks.foldl f.feed (StreamReader.start s)).buffer,
        ev = .skipped := by
      rcases hstop with hstop | hstop | hstop
      · exact absurd hstop herror
      · rw [events_of_none hstop]
        exact nofun
      · obtain ⟨pre, post, rfl⟩ := List.append_of_mem hstop
        rw [List.append_assoc, List.cons_append] at hrest
        exact fun ev hev => hskips pre _ hrest ev (List.mem_append_right _ hev)
    rw [Event.visible_append hclean, Event.visible_eq_nil_iff.2 hskipped, List.append_nil]
    exact Prod.ext rfl (List.findSome?_eq_none_iff.2 hclean)

theorem feed_of_next (hnext : f.next s src = some (ev, s', [])) (messages : List μ) :
    f.feed ⟨messages, none, s, []⟩ src = ⟨messages ++ ev.message.toList, ev.error, s', []⟩ := by
  have hlt := f.next_lt hnext
  obtain ⟨calls, hcalls⟩ : ∃ calls, f.weight s + src.length = calls + 1 :=
    Nat.exists_eq_succ_of_ne_zero (Nat.ne_of_gt (Nat.zero_lt_of_lt hlt))
  rw [Framer.feed, StreamReader.feed, if_neg (by simp)]
  rw [List.nil_append, hcalls, StreamReader.drain, decode, hnext]
  cases ev with
  | failed e => simp [Event.error]
  | skipped => simp [Event.error]
  | item m =>
    dsimp only
    rw [StreamReader.drain, decode, f.next_idle hnext, f.wait_nil]
    rfl

theorem feed_of_none (hnext : f.next s src = none) (messages : List μ) :
    f.feed ⟨messages, none, s, []⟩ src = ⟨messages, none, (f.wait s src).1, (f.wait s src).2⟩ := by
  rw [Framer.feed, StreamReader.feed, if_neg (by simp)]
  rw [List.nil_append, StreamReader.drain, decode, hnext]

/-- With one frame in each chunk, the reader sees all of them. -/
theorem exists_chunks (s : S) (src : List τ) (messages : List μ) : ∃ chunks : List (List τ), chunks.flatten = src ∧
    ((chunks.foldl f.feed ⟨messages, none, s, []⟩).messages, (chunks.foldl f.feed ⟨messages, none, s, []⟩).error) =
      (messages ++ (Event.visible (f.events s src)).1, (Event.visible (f.events s src)).2) := by
  -- each frame makes the decoder and the rest of the stream smaller
  induction hn : f.weight s + src.length using Nat.strongRecOn generalizing s src messages with
  | _ n ih =>
    cases hnext : f.next s src with
    | none =>
      refine ⟨[src], by simp, ?_⟩
      rw [events_of_none hnext, List.foldl_cons, List.foldl_nil, feed_of_none hnext]
      simp [Event.visible]
    | some result =>
      obtain ⟨ev, s', rest⟩ := result
      obtain ⟨used, rfl, hused⟩ := f.next_used hnext
      have hlt := f.next_lt hnext
      cases ev with
      | failed e =>
        refine ⟨[used, rest], by simp, ?_⟩
        rw [events_of_failed hnext, List.foldl_cons, List.foldl_cons, List.foldl_nil, feed_of_next hused]
        simp [StreamReader.feed, Event.visible, Event.message, Event.error]
      | item m =>
        obtain ⟨chunks, rfl, hchunks⟩ := ih _ (by omega) s' rest (messages ++ [m]) rfl
        refine ⟨used :: chunks, rfl, ?_⟩
        rw [events_of_next hnext rfl, List.foldl_cons, feed_of_next hused, Event.visible_cons rfl, ← List.append_assoc]
        exact hchunks
      | skipped =>
        obtain ⟨chunks, rfl, hchunks⟩ := ih _ (by omega) s' rest messages rfl
        refine ⟨used :: chunks, rfl, ?_⟩
        rw [events_of_next hnext rfl, List.foldl_cons, feed_of_next hused, Event.visible_cons rfl, Event.message_skipped,
          Option.toList_none, List.append_nil, List.nil_append]
        exact hchunks

/-- Frames that are all skipped can follow frames of which only the last is. -/
theorem skipsLast_append {evs' : List (Event μ ε)} (hlast : ∀ pre post, evs = pre ++ .skipped :: post → post = [])
    (hskipped : ∀ ev ∈ evs', ev = .skipped) : Event.SkipsLast (evs ++ evs') := by
  intro pre post heq ev hev
  rcases List.append_eq_append_iff.1 heq with ⟨mid, rfl, hmid⟩ | ⟨mid, rfl, hmid⟩
  · exact hskipped ev (by rw [hmid]; exact List.mem_append_right _ (List.mem_cons_of_mem _ hev))
  · cases mid with
    | nil =>
      rw [List.nil_append] at hmid
      exact hskipped ev (by rw [← hmid]; exact List.mem_cons_of_mem _ hev)
    | cons first mid =>
      rw [List.cons_append] at hmid
      obtain ⟨rfl, rfl⟩ := List.cons.inj hmid
      rw [hlast pre mid rfl, List.nil_append] at hev
      exact hskipped ev hev

/-- The chunks of a stream do not matter exactly if only skipped frames follow skipped ones. -/
theorem output_eq_iff (hempty : f.next s [] = none) (stream : List τ) :
    (∀ chunks : List (List τ), chunks.flatten = stream → f.output s chunks = f.output s [stream]) ↔
      Event.SkipsLast (f.events s stream) := by
  constructor
  · intro h
    obtain ⟨chunks, hflatten, hchunks⟩ := exists_chunks s stream []
    have hall : f.output s [stream] = Event.visible (f.events s stream) := (h chunks hflatten).symm.trans hchunks
    obtain ⟨evs, hreached, -, hlast⟩ := ((Reached.start f s).push rfl stream).drain rfl (Nat.lt_succ_self _)
    rw [List.nil_append, List.nil_append] at hreached
    have hrest := hreached.rest []
    rw [List.append_nil, List.append_nil] at hrest
    have houtput : f.output s [stream] = Event.visible evs := Prod.ext hreached.messages hreached.error
    rw [hrest]
    split
    · exact skipsLast_append hlast nofun
    · rename_i herror
      have hclean : ∀ ev ∈ evs, ev.error = none := by
        rw [← List.findSome?_eq_none_iff, ← hreached.error]
        simpa using herror
      rw [if_neg herror] at hrest
      rw [houtput, hrest, Event.visible_append hclean, Prod.ext_iff] at hall
      refine skipsLast_append hlast (Event.visible_eq_nil_iff.1 (Prod.ext ?_ ?_))
      · exact List.append_cancel_left (hall.1.symm.trans (List.append_nil _).symm)
      · exact hall.2.symm.trans (List.findSome?_eq_none_iff.2 hclean)
  · rintro hskips chunks rfl
    rw [output_eq_visible hempty hskips, output_eq_visible hempty (by simpa using hskips), List.flatten_singleton]

end Framer

end Zebra.Lib
