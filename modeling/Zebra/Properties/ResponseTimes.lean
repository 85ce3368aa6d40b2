import Zebra.Properties.ReconnectionDelay

namespace Zebra.Properties

open Lib AddressBook

variable {book book' : AddressBook} {i : BookInput} {m m' updated : MetaAddr} {t : DateTime32}

/-- The address of the change is canonical. If the change records a response to a pending attempt, and is
concurrent with the entry by one of the clocks, the wall clock is not behind the last response. -/
def AnswersInOrder (book : AddressBook) (i : BookInput) : Prop :=
  canonicalPeerAddr i.change.addr = i.change.addr ∧
    ∀ m ∈ book.get i.change.addr, m.lastConnectionState = .attemptPending → (i.change.lastResponse i.chronoNow).isSome →
      (MetaAddrChange.isConcurrent (MetaAddrChange.latest m.lastAttempt m.lastFailure) i.instantNow
          (seconds concurrentAddressChangePeriod) ||
        MetaAddrChange.isConcurrent m.lastResponse i.chronoNow concurrentAddressChangePeriod) = true →
      ∀ t ∈ m.lastResponse, t ≤ i.chronoNow

/-- A peer that was never attempted has no response. -/
structure Answers (book : AddressBook) : Prop extends Attempts book where
  silent : ∀ m ∈ book.byAddr, m.lastConnectionState.isNeverAttempted = true → m.lastResponse = none

theorem Answers.apply (h : Answers book) (hcanonical : canonicalPeerAddr i.change.addr = i.change.addr)
    (hbook : book.apply i = .ok book') : Answers book' := by
  refine ⟨h.toAttempts.apply hcanonical hbook, ?_⟩
  obtain ⟨result, hbook⟩ := map_snd_eq_ok.1 hbook
  intro m hm hnever
  rcases update_cases h.wellFormed hbook with ⟨-, rfl⟩ | ⟨updated, -, happlied, ⟨-, -, hban⟩ | ⟨-, -, -, rfl⟩⟩
  · exact h.silent m hm hnever
  · obtain ⟨mostRecent, -, rfl⟩ := ban_eq_ok.1 hban
    exact h.silent m (mem_foldl_removeAddr.1 hm).1 hnever
  · rcases mem_limited hm with rfl | ⟨hm, -⟩
    · exact (never_of_apply happlied hnever).2
    · exact h.silent m hm hnever

theorem attemptPending_of_progress (state : PeerAddrState) : state.isNeverAttempted = false →
    PeerAddrState.connectionStateOrder .responded state = .gt → state = .attemptPending := by
  cases state <;> decide

theorem lastResponse_grows_of_apply (h : Answers book) (horder : AnswersInOrder book i)
    (happlied : book.Applies i updated) (hm : m ∈ book.byAddr) (haddr : m.addr = updated.addr) (ht : m.lastResponse = some t) :
    ∃ t' ≥ t, updated.lastResponse = some t' := by
  have hget := h.get_eq horder.1 hm (haddr.trans (MetaAddrChange.addr_of_apply happlied))
  have hattempted : m.lastConnectionState.isNeverAttempted = false := by
    by_contra hnever
    rw [h.silent m hm (by simpa using hnever)] at ht
    cases ht
  rw [Applies, hget] at happlied
  rcases MetaAddrChange.applyToMetaAddr_eq_some happlied with ⟨hnone, -⟩ | ⟨p, hp, -, hignored, rfl⟩
  · cases hnone
  cases hp
  rw [MetaAddrChange.updatedMetaAddr, hattempted, Bool.and_false, if_neg (by simp)]
  rw [ht]
  cases hresponse : i.change.lastResponse i.chronoNow with
  | none => exact ⟨t, le_refl t, rfl⟩
  | some now =>
    obtain ⟨rfl, hstate, hscore⟩ : i.chronoNow = now ∧ i.change.peerAddrState = .responded ∧ i.change.misbehaviorScore = 0 := by
      cases hc : i.change <;> rw [hc] at hresponse <;> first | exact ⟨Option.some.inj hresponse, rfl, rfl⟩ | cases hresponse
    refine ⟨i.chronoNow, ?_, rfl⟩
    by_contra hbehind
    -- such a change is applied only if it is concurrent and has more progress than the entry
    have hout : MetaAddrChange.isOutOfOrder m.lastResponse i.chronoNow = true := by
      rw [ht]
      simpa [MetaAddrChange.isOutOfOrder] using hbehind
    have hpending : (MetaAddrChange.isConcurrent (MetaAddrChange.latest m.lastAttempt m.lastFailure) i.instantNow
          (seconds concurrentAddressChangePeriod) ||
        MetaAddrChange.isConcurrent m.lastResponse i.chronoNow concurrentAddressChangePeriod) = true ∧
        PeerAddrState.connectionStateOrder .responded m.lastConnectionState = .gt := by
      simp only [MetaAddrChange.isIgnored, hstate, hscore, hout, Bool.or_true] at hignored
      grind
    refine hbehind (horder.2 m hget ?_ ?_ hpending.1 t ht)
    · exact attemptPending_of_progress _ hattempted hpending.2
    · rw [hresponse]
      rfl

/-- In every run whose changes all meet the condition, the response time of an entry that stays in the book only grows. -/
theorem response_times_grow (network : Network) (maxConnectionsPerIp addrLimit : Nat) {inputs : List BookInput}
    (hinputs : Guarded AddressBook.apply AnswersInOrder (new network maxConnectionsPerIp addrLimit) inputs)
    (hbook : inputs.foldlM AddressBook.apply (new network maxConnectionsPerIp addrLimit) = .ok book)
    (horder : AnswersInOrder book i) (happly : book.apply i = .ok book')
    (hm : m ∈ book.byAddr) (hm' : m' ∈ book'.byAddr) (haddr : m.addr = m'.addr) (ht : m.lastResponse = some t) :
    ∃ t' ≥ t, m'.lastResponse = some t' := by
  have h : Answers book := hinputs.invariant (fun _ _ _ h horder => h.apply horder.1) hbook
    ⟨.new .., fun _ h => absurd h List.not_mem_nil⟩
  have hsame : ∀ {m'}, m' ∈ book.byAddr → m.addr = m'.addr → ∃ t' ≥ t, m'.lastResponse = some t' := by
    intro m' hm' haddr
    obtain rfl := h.wellFormed.unique.eq_of_addr hm hm' haddr
    exact ⟨t, le_refl t, ht⟩
  obtain ⟨result, happly⟩ := map_snd_eq_ok.1 happly
  rcases update_cases h.wellFormed happly with ⟨-, rfl⟩ | ⟨updated, -, happlied, ⟨-, -, hban⟩ | ⟨-, -, -, rfl⟩⟩
  · exact hsame hm' haddr
  · obtain ⟨mostRecent, -, rfl⟩ := ban_eq_ok.1 hban
    exact hsame (mem_foldl_removeAddr.1 hm').1 haddr
  · rcases mem_limited hm' with rfl | ⟨hm', -⟩
    · exact lastResponse_grows_of_apply h horder happlied hm haddr ht
    · exact hsame hm' haddr

def answering : PeerSocketAddr := ⟨.v4 1, 18233⟩

def connectedAndAttempted : List BookInput :=
  [⟨.updateConnected answering 1 false, 0, 1000⟩, ⟨.updateAttempt answering, seconds 100, 1100⟩]

def answerAt (chronoNow : DateTime32) : BookInput := ⟨.updateConnected answering 1 false, seconds 101, chronoNow⟩

def responseTimes (book : AddressBook) : List (PeerSocketAddr × Option DateTime32) :=
  book.byAddr.map fun m => (m.addr, m.lastResponse)

/-- The wall clock steps back between the attempt and its answer. -/
theorem answer_goes_back :
    responseTimes <$> connectedAndAttempted.foldlM AddressBook.apply (new Sample.network 1 5) = .ok [(answering, some 1000)] ∧
      responseTimes <$> (connectedAndAttempted ++ [answerAt 900]).foldlM AddressBook.apply (new Sample.network 1 5) =
        .ok [(answering, some 900)] := by
  decide +kernel

instance (book : AddressBook) (i : BookInput) : Decidable (AnswersInOrder book i) := by
  delta AnswersInOrder
  infer_instance

theorem answer_goes_on : ∃ book book' m m',
    connectedAndAttempted.foldlM AddressBook.apply (new Sample.network 1 5) = .ok book ∧ book.apply (answerAt 1101) = .ok book' ∧
      m ∈ book.byAddr ∧ m' ∈ book'.byAddr ∧ m.addr = m'.addr ∧ m.lastResponse = some 1000 ∧
      ∃ t' ≥ 1000, m'.lastResponse = some t' := by
  have hrun : (fun book => decide (AnswersInOrder book (answerAt 1101) ∧ ∃ m ∈ book.byAddr, m.lastResponse = some 1000 ∧
      (fun book' => decide (∃ m' ∈ book'.byAddr, m.addr = m'.addr)) <$> book.apply (answerAt 1101) = .ok true)) <$>
      connectedAndAttempted.foldlM AddressBook.apply (new Sample.network 1 5) = .ok true := by
    decide +kernel
  obtain ⟨book, hbook, h⟩ := map_eq_ok.1 hrun
  obtain ⟨horder, m, hm, ht, hnext⟩ := of_decide_eq_true h
  obtain ⟨book', happly, h'⟩ := map_eq_ok.1 hnext
  obtain ⟨m', hm', haddr⟩ := of_decide_eq_true h'
  exact ⟨book, book', m, m', hbook, happly, hm, hm', haddr, ht,
    response_times_grow _ _ _ (by decide +kernel) hbook horder happly hm hm' haddr ht⟩

end Zebra.Properties
