import Zebra.Ledger.AddressBook
import Zebra.Properties.Sample

namespace Zebra.Properties

open Lib Std AddressBook

/-- A book, the candidates that were taken from it with the times of their attempts, the latest
first, and the last reading of the clock. -/
structure HandOuts where
  book : AddressBook
  handedOut : List (PeerSocketAddr × Instant)
  now : Instant

inductive PeerEvent where
  | update (i : BookInput)
  | next (instantNow : Instant) (chronoNow : DateTime32) (instantUpdate : Instant) (chronoUpdate : DateTime32)

namespace HandOuts

def step (s : HandOuts) : PeerEvent → Exec Empty HandOuts
  | .update i => do
    let book ← s.book.apply i
    return ⟨book, s.handedOut, i.instantNow⟩
  | .next instantNow chronoNow instantUpdate chronoUpdate => do
    let result ← nextCandidate s.book instantNow chronoNow instantUpdate chronoUpdate
    return ⟨result.2, (result.1.map fun peer => (peer.addr, instantUpdate)).toList ++ s.handedOut, instantUpdate⟩

end HandOuts

def InTime (s : HandOuts) : PeerEvent → Prop
  | .update i => s.now ≤ i.instantNow
  | .next instantNow _ instantUpdate _ => s.now ≤ instantNow ∧ instantNow ≤ instantUpdate

/-- The address of the change is canonical. If it is not banned, the last peer is not recently
attempted when a new address comes into a full book, and the oldest ban is older than the delay when
another one is added to a full list. -/
def KeepsAttempts (book : AddressBook) (i : BookInput) : Prop :=
  canonicalPeerAddr i.change.addr = i.change.addr ∧
    (i.change.addr.ip ∉ book.bansByIp.map Prod.fst →
      ((∀ p ∈ book.byAddr, p.addr ≠ i.change.addr) → book.addrLimit ≤ book.byAddr.length →
        ∀ last ∈ book.byAddr.getLast?, last.wasConnectionRecentlyAttempted i.instantNow = false) ∧
      (maxPeerMisbehaviorScore ≤ book.scoreAfter i.change → maxBannedIps ≤ book.bansByIp.length →
        ∀ oldest ∈ book.bansByIp.head?, seconds minPeerReconnectionDelay < i.instantNow - oldest.2))

def RemembersAttempts (s : HandOuts) : PeerEvent → Prop
  | .update i => KeepsAttempts s.book i
  | .next .. => True

instance (s : HandOuts) (e : PeerEvent) : Decidable (InTime s e) :=
  match e with
  | .update _ => inferInstanceAs (Decidable (_ ≤ _))
  | .next .. => inferInstanceAs (Decidable (_ ∧ _))

instance (book : AddressBook) (i : BookInput) : Decidable (KeepsAttempts book i) := inferInstanceAs (Decidable (_ ∧ _))

instance (s : HandOuts) (e : PeerEvent) : Decidable (RemembersAttempts s e) :=
  match e with
  | .update i => inferInstanceAs (Decidable (KeepsAttempts s.book i))
  | .next .. => isTrue trivial

/-- Addresses are canonical, and a peer that was attempted is not in the state of those that never were. -/
structure Attempts (book : AddressBook) : Prop where
  wellFormed : book.WellFormed
  canonical : ∀ m ∈ book.byAddr, canonicalPeerAddr m.addr = m.addr
  never : ∀ m ∈ book.byAddr, m.lastConnectionState.isNeverAttempted = true → m.lastAttempt = none

section entries

variable {book book' : AddressBook} {i : BookInput} {updated m : MetaAddr}

theorem Attempts.get_eq (h : Attempts book) (hcanonical : canonicalPeerAddr i.change.addr = i.change.addr)
    (hm : m ∈ book.byAddr) (haddr : m.addr = i.change.addr) : book.get i.change.addr = some m := by
  cases hget : book.get i.change.addr with
  | none =>
    have hnone := List.find?_eq_none.1 hget m hm
    exact absurd (haddr.trans hcanonical.symm) (by simpa using hnone)
  | some p =>
    obtain ⟨hp, hpaddr⟩ := mem_of_get hget
    rw [h.wellFormed.unique.eq_of_addr hp hm (hpaddr.trans (hcanonical.trans haddr.symm))]

theorem never_of_apply
    (happlied : book.Applies i updated) (hnever : updated.lastConnectionState.isNeverAttempted = true) :
    updated.lastAttempt = none ∧ updated.lastResponse = none := by
  rw [MetaAddrChange.state_of_apply happlied] at hnever
  have hchange : (i.change.lastAttempt i.instantNow = none ∧ i.change.lastResponse i.chronoNow = none) ∧
      i.change.misbehaviorScore = 0 := by
    cases hc : i.change <;> rw [hc] at hnever <;> first | exact ⟨⟨rfl, rfl⟩, rfl⟩ | cases hnever
  rcases MetaAddrChange.applyToMetaAddr_eq_some happlied with ⟨-, rfl⟩ | ⟨p, -, -, hignored, rfl⟩
  · exact hchange.1
  · rw [MetaAddrChange.updatedMetaAddr]
    split
    · exact ⟨rfl, rfl⟩
    · rename_i hboth
      rw [hnever, Bool.true_and] at hboth
      simp [MetaAddrChange.isIgnored, hnever, hboth, hchange.2] at hignored

theorem lastAttempt_of_apply (h : Attempts book) (hcanonical : canonicalPeerAddr i.change.addr = i.change.addr)
    (happlied : book.Applies i updated) (hm : m ∈ book.byAddr) (haddr : m.addr = updated.addr) {t : Instant}
    (ht : m.lastAttempt = some t) : updated.lastAttempt = some t ∨ updated.lastAttempt = some i.instantNow := by
  have hget := h.get_eq hcanonical hm (haddr.trans (MetaAddrChange.addr_of_apply happlied))
  have hattempted : m.lastConnectionState.isNeverAttempted = false := by
    by_contra hnever
    rw [h.never m hm (by simpa using hnever)] at ht
    cases ht
  rw [Applies, hget] at happlied
  rcases MetaAddrChange.applyToMetaAddr_eq_some happlied with ⟨hnone, -⟩ | ⟨p, hp, -, -, rfl⟩
  · cases hnone
  · cases hp
    rw [MetaAddrChange.updatedMetaAddr, hattempted, Bool.and_false, if_neg (by simp)]
    rw [ht]
    cases i.change <;> simp [MetaAddrChange.lastAttempt]

theorem Attempts.apply (h : Attempts book) (hcanonical : canonicalPeerAddr i.change.addr = i.change.addr)
    (hbook : book.apply i = .ok book') : Attempts book' := by
  have hwell := h.wellFormed.apply hbook
  obtain ⟨result, hbook⟩ := map_snd_eq_ok.1 hbook
  rcases update_cases h.wellFormed hbook with ⟨-, rfl⟩ | ⟨updated, -, happlied, ⟨-, -, hban⟩ | ⟨-, -, -, rfl⟩⟩
  · exact h
  · obtain ⟨mostRecent, -, rfl⟩ := ban_eq_ok.1 hban
    exact ⟨hwell, fun m hm => h.canonical m (mem_foldl_removeAddr.1 hm).1, fun m hm => h.never m (mem_foldl_removeAddr.1 hm).1⟩
  · refine ⟨hwell, fun m hm => ?_, fun m hm hnever => ?_⟩
    · rcases mem_limited hm with rfl | ⟨hm, -⟩
      · rw [MetaAddrChange.addr_of_apply happlied, hcanonical]
      · exact h.canonical m hm
    · rcases mem_limited hm with rfl | ⟨hm, -⟩
      · exact (never_of_apply happlied hnever).1
      · exact h.never m hm hnever

theorem Attempts.new (network : Network) (maxConnectionsPerIp addrLimit : Nat) :
    Attempts (AddressBook.new network maxConnectionsPerIp addrLimit) :=
  ⟨.new .., fun _ h => absurd h List.not_mem_nil, fun _ h => absurd h List.not_mem_nil⟩

end entries

/-- The attempt is in the entry of the address, or its IP address was banned later, or it is older
than the delay. -/
def Remembered (book : AddressBook) (now : Instant) (addr : PeerSocketAddr) (attempt : Instant) : Prop :=
  (∃ m ∈ book.byAddr, m.addr = addr ∧ ∃ t, m.lastAttempt = some t ∧ attempt ≤ t) ∨
    (∃ ban ∈ book.bansByIp, ban.1 = addr.ip ∧ attempt ≤ ban.2) ∨ seconds minPeerReconnectionDelay < now - attempt

section remembered

variable {book book' : AddressBook} {i : BookInput} {updated m : MetaAddr} {now attempt t : Instant} {addr : PeerSocketAddr}

theorem delay_of_not_recent (hrecent : m.wasConnectionRecentlyAttempted now = false) (ht : m.lastAttempt = some t)
    (hle : attempt ≤ t) : seconds minPeerReconnectionDelay < now - attempt := by
  rw [MetaAddr.wasConnectionRecentlyAttempted, ht, Option.any_some, decide_eq_false_iff_not] at hrecent
  exact (Nat.lt_of_not_le hrecent).trans_le (Nat.sub_le_sub_left hle now)

theorem Remembered.ban (hbans : i.change.addr.ip ∉ book.bansByIp.map Prod.fst) (hkeeps : KeepsAttempts book i)
    (hscore : maxPeerMisbehaviorScore ≤ book.scoreAfter i.change) (hnow : now ≤ i.instantNow) (hattempt : attempt ≤ now)
    (h : Remembered book now addr attempt) (hban : (book.ban i.change.addr.ip i.instantNow : Exec Empty _) = .ok book') :
    Remembered book' i.instantNow addr attempt := by
  obtain ⟨mostRecent, -, rfl⟩ := ban_eq_ok.1 hban
  rcases h with ⟨m, hm, rfl, t, ht, hle⟩ | ⟨ban, hmem, hip, hle⟩ | hdelay
  · by_cases hbanned : m.addr ∈ bannedAddrs i.change.addr.ip book.byAddr
    · exact .inr (.inl ⟨_, self_mem_bansAfter hbans, (ip_of_mem_bannedAddrs hbanned).symm, hattempt.trans hnow⟩)
    · exact .inl ⟨m, mem_foldl_removeAddr.2 ⟨hm, hbanned⟩, rfl, t, ht, hle⟩
  · rcases mem_bansAfter_or_oldest hbans hmem with hkept | ⟨hfull, holdest⟩
    · exact .inr (.inl ⟨ban, hkept, hip, hle⟩)
    · have holder := (hkeeps.2 hbans).2 hscore hfull ban holdest
      exact .inr (.inr (holder.trans_le (Nat.sub_le_sub_left hle _)))
  · exact .inr (.inr (hdelay.trans_le (Nat.sub_le_sub_right hnow _)))

theorem Remembered.limited (hbook : Attempts book) (hbans : i.change.addr.ip ∉ book.bansByIp.map Prod.fst)
    (hkeeps : KeepsAttempts book i) (hnow : now ≤ i.instantNow) (hattempt : attempt ≤ now)
    (h : Remembered book now addr attempt)
    (happlied : book.Applies i updated) : Remembered (book.limited updated) i.instantNow addr attempt := by
  have haddr := MetaAddrChange.addr_of_apply happlied
  rcases h with ⟨m, hm, rfl, t, ht, hle⟩ | ⟨ban, hmem, hip, hle⟩ | hdelay
  · by_cases hsame : m.addr = updated.addr
    · -- the address is known, so no peer is removed
      have hmem : updated ∈ (book.limited updated).byAddr := mem_limited_of_ne (mem_insertPeer.2 (.inl rfl))
        fun _ hsurplus _ => (surplusPeer_cases hbook.wellFormed hsurplus).1 m hm hsame
      rcases lastAttempt_of_apply hbook hkeeps.1 happlied hm hsame ht with hlast | hlast
      · exact .inl ⟨updated, hmem, hsame.symm, t, hlast, hle⟩
      · exact .inl ⟨updated, hmem, hsame.symm, _, hlast, hattempt.trans hnow⟩
    · have hinsert : m ∈ insertPeer updated book.byAddr := mem_insertPeer.2 (.inr ⟨hm, hsame⟩)
      by_cases hremoved : ∃ surplus, book.surplusPeer updated = some surplus ∧ m.addr = surplus.addr
      · obtain ⟨surplus, hsurplus, heq⟩ := hremoved
        obtain ⟨hnew, hfull, rfl | hlast⟩ := surplusPeer_cases hbook.wellFormed hsurplus
        · exact absurd heq hsame
        · obtain rfl := hbook.wellFormed.unique.eq_of_addr hm (List.mem_of_getLast? hlast) heq
          have hrecent := (hkeeps.2 hbans).1 (by rwa [← haddr]) hfull m hlast
          exact .inr (.inr (delay_of_not_recent hrecent ht hle))
      · exact .inl ⟨m, mem_limited_of_ne hinsert fun surplus hsurplus heq => hremoved ⟨surplus, hsurplus, heq⟩, rfl, t, ht, hle⟩
  · exact .inr (.inl ⟨ban, by rwa [bansByIp_limited], hip, hle⟩)
  · exact .inr (.inr (hdelay.trans_le (Nat.sub_le_sub_right hnow _)))

theorem Remembered.later (hnow : now ≤ t) (h : Remembered book now addr attempt) : Remembered book t addr attempt :=
  h.imp_right fun h => h.imp_right fun hdelay => hdelay.trans_le (Nat.sub_le_sub_right hnow _)

theorem Remembered.update {result : Option MetaAddr} (hbook : Attempts book) (hkeeps : KeepsAttempts book i)
    (hnow : now ≤ i.instantNow) (hattempt : attempt ≤ now) (h : Remembered book now addr attempt)
    (hupdate : (book.update i.change i.instantNow i.chronoNow : Exec Empty _) = .ok (result, book')) :
    Remembered book' i.instantNow addr attempt := by
  rcases update_cases hbook.wellFormed hupdate with
    ⟨-, rfl⟩ | ⟨updated, hbans, happlied, ⟨hscore, -, hban⟩ | ⟨-, -, -, rfl⟩⟩
  · exact h.later hnow
  · rw [MetaAddrChange.score_of_apply happlied] at hscore
    rw [MetaAddrChange.addr_of_apply happlied] at hban
    exact h.ban hbans hkeeps hscore hnow hattempt hban
  · exact h.limited hbook hbans hkeeps hnow hattempt happlied

end remembered

/-- Attempts are remembered, and those of one address are apart by more than the delay. -/
structure DelayKept (s : HandOuts) : Prop where
  attempts : Attempts s.book
  remembered : ∀ h ∈ s.handedOut, h.2 ≤ s.now ∧ Remembered s.book s.now h.1 h.2
  apart : s.handedOut.Pairwise fun later earlier => later.1 = earlier.1 → seconds minPeerReconnectionDelay < later.2 - earlier.2

section next

variable {book book' : AddressBook} {instantNow instantUpdate : Instant} {chronoNow chronoUpdate : DateTime32}
  {result : Option MetaAddr} {peer updated : MetaAddr} {s s' : HandOuts}

theorem nextCandidate_cases
    (h : (nextCandidate book instantNow chronoNow instantUpdate chronoUpdate : Exec Empty _) = .ok (result, book')) :
    (result = none ∧ book' = book) ∨ ∃ peer ∈ book.byAddr, peer.wasConnectionRecentlyAttempted instantNow = false ∧
      (book.update (.updateAttempt (canonicalPeerAddr peer.addr)) instantUpdate chronoUpdate : Exec Empty _) =
        .ok (result, book') := by
  rw [nextCandidate] at h
  split at h
  · cases h
    exact .inl ⟨rfl, rfl⟩
  · rename_i peer hpeer
    obtain ⟨hmem, hready⟩ := List.mem_filter.1 (List.mem_of_head? hpeer)
    simp only [MetaAddr.isReadyForConnectionAttempt, MetaAddr.wasRecentlyUpdated, Bool.and_eq_true, Bool.not_eq_true',
      Bool.or_eq_false_iff] at hready
    exact .inr ⟨peer, hmem, hready.1.1.2.1.2, h⟩

theorem keepsAttempts_updateAttempt (hbook : Attempts book) (hpeer : peer ∈ book.byAddr) :
    KeepsAttempts book ⟨.updateAttempt peer.addr, instantUpdate, chronoUpdate⟩ := by
  refine ⟨hbook.canonical peer hpeer, fun _ => ⟨fun hnew => absurd rfl (hnew peer hpeer), fun hscore => ?_⟩⟩
  have hget : book.get peer.addr = some peer :=
    hbook.get_eq (i := ⟨.updateAttempt peer.addr, instantUpdate, chronoUpdate⟩) (hbook.canonical peer hpeer) hpeer rfl
  change maxPeerMisbehaviorScore ≤ (book.get peer.addr).elim 0 MetaAddr.misbehaviorScore + 0 at hscore
  rw [hget] at hscore
  exact absurd hscore (Nat.not_le.2 (hbook.wellFormed.score_lt peer hpeer))

theorem lastAttempt_of_updateAttempt {addr : PeerSocketAddr}
    (happlied : ((MetaAddrChange.updateAttempt addr).applyToMetaAddr (book.get addr) instantUpdate chronoUpdate :
      Exec Empty _) = .ok (some updated)) : updated.lastAttempt = some instantUpdate := by
  rcases MetaAddrChange.applyToMetaAddr_eq_some happlied with ⟨-, rfl⟩ | ⟨p, -, -, -, rfl⟩ <;> rfl

theorem DelayKept.apart_of_next (hs : DelayKept s) (hnow : s.now ≤ instantNow) (hclock : instantNow ≤ instantUpdate)
    (hpeer : peer ∈ s.book.byAddr) (hrecent : peer.wasConnectionRecentlyAttempted instantNow = false)
    (hbans : peer.addr.ip ∉ s.book.bansByIp.map Prod.fst) {h : PeerSocketAddr × Instant} (hmem : h ∈ s.handedOut)
    (haddr : peer.addr = h.1) : seconds minPeerReconnectionDelay < instantUpdate - h.2 := by
  obtain ⟨-, ⟨m, hm, hmaddr, t, ht, hle⟩ | ⟨ban, hban, hip, -⟩ | hdelay⟩ := hs.remembered h hmem
  · obtain rfl := hs.attempts.wellFormed.unique.eq_of_addr hm hpeer (hmaddr.trans haddr.symm)
    exact (delay_of_not_recent hrecent ht hle).trans_le (Nat.sub_le_sub_right hclock _)
  · rw [haddr, ← hip] at hbans
    exact absurd (List.mem_map_of_mem hban) hbans
  · exact hdelay.trans_le (Nat.sub_le_sub_right (hnow.trans hclock) _)

theorem DelayKept.next (hs : DelayKept s) (hnow : s.now ≤ instantNow) (hclock : instantNow ≤ instantUpdate)
    (h : s.step (.next instantNow chronoNow instantUpdate chronoUpdate) = .ok s') : DelayKept s' := by
  obtain ⟨⟨result, book'⟩, hnext, h⟩ := bind_eq_ok.1 h
  cases h
  rcases nextCandidate_cases hnext with ⟨rfl, rfl⟩ | ⟨peer, hpeer, hrecent, hupdate⟩
  · refine ⟨hs.attempts, fun h hh => ?_, hs.apart⟩
    obtain ⟨hle, hremembered⟩ := hs.remembered h hh
    exact ⟨hle.trans (hnow.trans hclock), hremembered.later (hnow.trans hclock)⟩
  rw [hs.attempts.canonical peer hpeer] at hupdate
  have hkeeps : KeepsAttempts s.book ⟨.updateAttempt peer.addr, instantUpdate, chronoUpdate⟩ :=
    keepsAttempts_updateAttempt hs.attempts hpeer
  have hattempts : Attempts book' := hs.attempts.apply hkeeps.1 (map_snd_eq_ok.2 ⟨result, hupdate⟩)
  have hold : ∀ h ∈ s.handedOut, h.2 ≤ instantUpdate ∧ Remembered book' instantUpdate h.1 h.2 := by
    intro h hh
    obtain ⟨hle, hremembered⟩ := hs.remembered h hh
    exact ⟨hle.trans (hnow.trans hclock), hremembered.update hs.attempts hkeeps (hnow.trans hclock) hle hupdate⟩
  rcases update_cases hs.attempts.wellFormed hupdate with
    ⟨rfl, rfl⟩ | ⟨updated, hbans, happlied, ⟨-, rfl, -⟩ | ⟨-, rfl, -, rfl⟩⟩
  · exact ⟨hattempts, hold, hs.apart⟩
  · exact ⟨hattempts, hold, hs.apart⟩
  · have haddr : updated.addr = peer.addr := MetaAddrChange.addr_of_apply happlied
    refine ⟨hattempts, fun h hh => ?_, List.pairwise_cons.2 ⟨fun h hh heq => ?_, hs.apart⟩⟩
    · rcases List.mem_cons.1 hh with rfl | hh
      · have hmem : updated ∈ (s.book.limited updated).byAddr := mem_limited_of_ne (mem_insertPeer.2 (.inl rfl))
          fun _ hsurplus _ => (surplusPeer_cases hs.attempts.wellFormed hsurplus).1 peer hpeer haddr.symm
        exact ⟨Nat.le_refl _, .inl ⟨updated, hmem, rfl, _, lastAttempt_of_updateAttempt happlied, Nat.le_refl _⟩⟩
      · exact hold h hh
    · exact hs.apart_of_next hnow hclock hpeer hrecent hbans hh (haddr.symm.trans heq)

theorem DelayKept.step {e : PeerEvent} (hs : DelayKept s) (htime : InTime s e) (hkeeps : RemembersAttempts s e)
    (h : s.step e = .ok s') : DelayKept s' := by
  cases e with
  | next instantNow chronoNow instantUpdate chronoUpdate => exact hs.next htime.1 htime.2 h
  | update i =>
    obtain ⟨book', hbook', h⟩ := bind_eq_ok.1 h
    cases h
    obtain ⟨result, hupdate⟩ := map_snd_eq_ok.1 hbook'
    refine ⟨hs.attempts.apply hkeeps.1 hbook', fun h hh => ?_, hs.apart⟩
    obtain ⟨hle, hremembered⟩ := hs.remembered h hh
    exact ⟨hle.trans htime, hremembered.update hs.attempts hkeeps htime hle hupdate⟩

end next

def gossipAt (host : Nat) (lastSeen time : Nat) : PeerEvent :=
  .update ⟨.newGossiped ⟨.v4 host, 18233⟩ 1 lastSeen, seconds time, 1000 + time⟩

def nextAt (time : Nat) : PeerEvent := .next (seconds time) (1000 + time) (seconds time) (1000 + time)

def gossipedAgain : List PeerEvent := [gossipAt 1 900 0, nextAt 10, gossipAt 2 800 11, gossipAt 1 900 12, nextAt 13]

end Zebra.Properties
