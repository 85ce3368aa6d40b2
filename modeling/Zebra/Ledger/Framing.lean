import Zebra.Lib.Framing
import Zebra.Peers.Codec

namespace Zebra

open Lib

namespace Codec

variable {μ ε : Type} (c : Codec μ ε)

def bodyEvent (command checksum body : Bytes) : Event μ (DecodeError ε) :=
  match c.readCommand command checksum body with
  | .ok none => .skipped
  | .ok (some m) => .item m
  | .error e => .failed e

def nextBody (bodyLen : Nat) (command checksum src : Bytes) : Option (Event μ (DecodeError ε) × DecodeState × Bytes) :=
  if src.length < bodyLen then none
  else some (c.bodyEvent command checksum (src.take bodyLen), .head, src.drop bodyLen)

def headerError (header : MessageHeader) : Option (DecodeError ε) :=
  if header.magic ≠ c.magic then some (.parse "supplied magic did not meet expectations")
  else if c.maxLen < header.bodyLen then some (.parse "body length exceeded maximum size")
  else none

def nextHeader (header : MessageHeader) (rest : Bytes) : Option (Event μ (DecodeError ε) × DecodeState × Bytes) :=
  match c.headerError header with
  | some e => some (.failed e, .head, rest)
  | none => c.nextBody header.bodyLen header.command header.checksum rest

def nextFrame : DecodeState → Bytes → Option (Event μ (DecodeError ε) × DecodeState × Bytes)
  | .body bodyLen command checksum, src => c.nextBody bodyLen command checksum src
  | .head, src =>
    if src.length < headerLen then none else c.nextHeader (MessageHeader.read (src.take headerLen)) (src.drop headerLen)

def waitFrame : DecodeState → Bytes → DecodeState × Bytes
  | .body bodyLen command checksum, src => (.body bodyLen command checksum, src)
  | .head, src =>
    if src.length < headerLen then (.head, src)
    else
      let header := MessageHeader.read (src.take headerLen)
      (.body header.bodyLen header.command header.checksum, src.drop headerLen)

end Codec

def DecodeState.weight : DecodeState → Nat
  | head => 0
  | body .. => 1

namespace Codec

variable {μ ε : Type} {c : Codec μ ε} {bodyLen : Nat} {command checksum src rest : Bytes} {header : MessageHeader}
  {ev : Event μ (DecodeError ε)} {s s' : DecodeState}

theorem nextBody_append (h : c.nextBody bodyLen command checksum src = some (ev, s', rest)) (more : Bytes) :
    c.nextBody bodyLen command checksum (src ++ more) = some (ev, s', rest ++ more) := by
  rw [nextBody] at h ⊢
  split at h
  · cases h
  · rename_i hlen
    obtain ⟨rfl, rfl, rfl⟩ : _ ∧ _ ∧ _ := by simpa [Prod.mk.injEq] using h
    have hle : bodyLen ≤ src.length := Nat.le_of_not_lt hlen
    rw [if_neg (by rw [List.length_append]; omega), List.take_append_of_le_length hle, List.drop_append_of_le_length hle]

theorem nextHeader_append (h : c.nextHeader header src = some (ev, s', rest)) (more : Bytes) :
    c.nextHeader header (src ++ more) = some (ev, s', rest ++ more) := by
  rw [nextHeader] at h ⊢
  split at h
  · obtain ⟨rfl, rfl, rfl⟩ : _ ∧ _ ∧ _ := by simpa [Prod.mk.injEq] using h
    rfl
  · exact nextBody_append h more

theorem nextBody_used (h : c.nextBody bodyLen command checksum src = some (ev, s', rest)) :
    ∃ used, src = used ++ rest ∧ c.nextBody bodyLen command checksum used = some (ev, s', []) := by
  rw [nextBody] at h
  split at h
  · cases h
  · rename_i hlen
    obtain ⟨rfl, rfl, rfl⟩ : _ ∧ _ ∧ _ := by simpa [Prod.mk.injEq] using h
    have hlength : (src.take bodyLen).length = bodyLen := List.length_take_of_le (Nat.le_of_not_lt hlen)
    refine ⟨src.take bodyLen, (List.take_append_drop _ _).symm, ?_⟩
    rw [nextBody, if_neg (by omega), List.take_take, Nat.min_self, List.drop_eq_nil_of_le (Nat.le_of_eq hlength)]

theorem nextHeader_used (h : c.nextHeader header src = some (ev, s', rest)) :
    ∃ used, src = used ++ rest ∧ c.nextHeader header used = some (ev, s', []) := by
  rw [nextHeader] at h
  split at h
  · rename_i e he
    obtain ⟨rfl, rfl, rfl⟩ : _ ∧ _ ∧ _ := by simpa [Prod.mk.injEq] using h
    exact ⟨[], rfl, by rw [nextHeader, he]⟩
  · rename_i he
    obtain ⟨used, hsrc, hused⟩ := nextBody_used h
    exact ⟨used, hsrc, by rw [nextHeader, he]; exact hused⟩

theorem state_of_nextBody (h : c.nextBody bodyLen command checksum src = some (ev, s', rest)) : s' = .head := by
  rw [nextBody] at h
  split at h
  · cases h
  · exact (Prod.mk.inj (Prod.mk.inj (Option.some.inj h)).2).1.symm

theorem state_of_nextHeader (h : c.nextHeader header src = some (ev, s', rest)) : s' = .head := by
  rw [nextHeader] at h
  split at h
  · exact (Prod.mk.inj (Prod.mk.inj (Option.some.inj h)).2).1.symm
  · exact state_of_nextBody h

theorem state_of_nextFrame (h : c.nextFrame s src = some (ev, s', rest)) : s' = .head := by
  cases s with
  | body bodyLen command checksum => exact state_of_nextBody h
  | head =>
    rw [nextFrame] at h
    split at h
    · cases h
    · exact state_of_nextHeader h

theorem nextFrame_head_append (hlen : ¬ src.length < headerLen) (more : Bytes) :
    c.nextFrame .head (src ++ more) = c.nextHeader (MessageHeader.read (src.take headerLen)) (src.drop headerLen ++ more) := by
  have hle : headerLen ≤ src.length := Nat.le_of_not_lt hlen
  rw [nextFrame, if_neg (by rw [List.length_append]; omega), List.take_append_of_le_length hle,
    List.drop_append_of_le_length hle]

section

variable (h : c.nextFrame s src = some (ev, s', rest))
include h

theorem nextFrame_append (more : Bytes) :
    c.nextFrame s (src ++ more) = some (ev, s', rest ++ more) := by
  cases s with
  | body bodyLen command checksum => exact nextBody_append h more
  | head =>
    rw [nextFrame] at h
    split at h
    · cases h
    · rename_i hlen
      rw [nextFrame_head_append hlen]
      exact nextHeader_append h more

theorem nextFrame_used :
    ∃ used, src = used ++ rest ∧ c.nextFrame s used = some (ev, s', []) := by
  cases s with
  | body bodyLen command checksum => exact nextBody_used h
  | head =>
    rw [nextFrame] at h
    split at h
    · cases h
    · rename_i hlen
      obtain ⟨used, hrest, hused⟩ := nextHeader_used h
      have hlength : (src.take headerLen).length = headerLen := List.length_take_of_le (Nat.le_of_not_lt hlen)
      refine ⟨src.take headerLen ++ used, by rw [List.append_assoc, ← hrest, List.take_append_drop], ?_⟩
      rw [nextFrame_head_append (by omega), List.take_take, Nat.min_self, List.drop_eq_nil_of_le (Nat.le_of_eq hlength)]
      exact hused

theorem nextFrame_lt :
    s'.weight + rest.length < s.weight + src.length := by
  obtain rfl := state_of_nextFrame h
  cases s with
  | body bodyLen command checksum =>
    obtain ⟨used, rfl, -⟩ := nextBody_used h
    simp only [DecodeState.weight, List.length_append]
    omega
  | head =>
    rw [nextFrame] at h
    split at h
    · cases h
    · rename_i hlen
      obtain ⟨used, hrest, -⟩ := nextHeader_used h
      have hlength := congrArg List.length hrest
      rw [List.length_drop, List.length_append] at hlength
      simp only [DecodeState.weight, headerLen] at hlen hlength ⊢
      omega

end

theorem nextFrame_wait (h : c.nextFrame s src = none) (more : Bytes) :
    c.nextFrame s (src ++ more) = c.nextFrame (waitFrame s src).1 ((waitFrame s src).2 ++ more) := by
  cases s with
  | body bodyLen command checksum => rfl
  | head =>
    rw [waitFrame]
    split
    · rfl
    · rename_i hlen
      rw [nextFrame, if_neg hlen, nextHeader] at h
      split at h
      · cases h
      · rename_i he
        rw [nextFrame_head_append hlen, nextHeader, he]
        rfl

def framer (c : Codec μ ε) : Framer DecodeState UInt8 μ (DecodeError ε) where
  next := c.nextFrame
  wait := waitFrame
  weight := DecodeState.weight
  next_append := nextFrame_append
  next_used := nextFrame_used
  next_lt := nextFrame_lt
  next_wait := nextFrame_wait
  next_idle h := by rw [state_of_nextFrame h]; rfl
  wait_nil s := by cases s <;> rfl

theorem answer_bodyEvent (c : Codec μ ε) (command checksum body : Bytes) :
    (c.bodyEvent command checksum body).answer = c.readCommand command checksum body := by
  rw [bodyEvent]
  rcases c.readCommand command checksum body with e | (_ | m) <;> rfl

theorem decodeBody_eq (c : Codec μ ε) (bodyLen : Nat) (command checksum src : Bytes) :
    c.decodeBody bodyLen command checksum src = match c.nextBody bodyLen command checksum src with
      | none => (.ok none, .body bodyLen command checksum, src) | some (ev, s', rest) => (ev.answer, s', rest):= by
  rw [decodeBody, nextBody]
  split
  · rfl
  · rw [← answer_bodyEvent]

theorem decode_eq (c : Codec μ ε) : c.decode = c.framer.decode := by
  funext s src
  cases hnext : c.nextFrame s src with
  | none =>
    refine Eq.trans ?_ (Framer.decode_of_none hnext).symm
    cases s with
    | body bodyLen command checksum =>
      change c.nextBody bodyLen command checksum src = none at hnext
      rw [decode, decodeBody_eq, hnext]
      rfl
    | head =>
      change _ = (Except.ok none, waitFrame .head src)
      rw [decode, waitFrame]
      split
      · rfl
      · rename_i hlen
        rw [nextFrame, if_neg hlen, nextHeader, headerError] at hnext
        dsimp only
        split_ifs at hnext ⊢ with hmagic hmax
        dsimp only at hnext
        rw [decodeBody_eq, hnext]
  | some result =>
    obtain ⟨ev, s', rest⟩ := result
    refine Eq.trans ?_ (Framer.decode_of_next hnext).symm
    cases s with
    | body bodyLen command checksum =>
      change c.nextBody bodyLen command checksum src = some (ev, s', rest) at hnext
      rw [decode, decodeBody_eq, hnext]
    | head =>
      rw [nextFrame] at hnext
      split at hnext
      · cases hnext
      · rename_i hlen
        rw [decode, if_neg hlen]
        rw [nextHeader, headerError] at hnext
        dsimp only
        split_ifs at hnext ⊢ with hmagic hmax
        · obtain ⟨rfl, rfl, rfl⟩ : _ ∧ _ ∧ _ := by simpa [Prod.mk.injEq] using hnext
          rfl
        · obtain ⟨rfl, rfl, rfl⟩ : _ ∧ _ ∧ _ := by simpa [Prod.mk.injEq] using hnext
          rfl
        · dsimp only at hnext
          rw [decodeBody_eq, hnext]

end Codec

end Zebra
