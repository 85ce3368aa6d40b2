import Mathlib.Data.List.Nodup
import Mathlib.Data.List.TakeWhile
import Zebra.Lib.Guarded
import Zebra.Peers.AddressBook

namespace Zebra

open Lib Std Outcome

namespace AddressBook

variable {m p : MetaAddr} {peers : List MetaAddr} {addr : PeerSocketAddr}

theorem mem_removeAddr : p ∈ removeAddr addr peers ↔ p ∈ peers ∧ p.addr ≠ addr := by
  simp [removeAddr]

theorem insertInOrder_perm (m : MetaAddr) (peers : List MetaAddr) : (insertInOrder m peers).Perm (m :: peers) := by
  induction peers with
  | nil => exact .refl _
  | cons p peers ih =>
    rw [insertInOrder]
    split
    · exact (ih.cons p).trans (.swap m p peers)
    · exact .refl _

theorem insertPeer_perm (m : MetaAddr) (peers : List MetaAddr) :
    (insertPeer m peers).Perm (m :: removeAddr m.addr peers) := insertInOrder_perm _ _

theorem getLast?_insertInOrder (h : (insertInOrder m peers).getLast? = some p) : p = m ∨ peers.getLast? = some p := by
  induction peers with
  | nil => exact .inl (Option.some.inj h).symm
  | cons q peers ih =>
    rw [insertInOrder] at h
    split at h
    · cases hlast : (insertInOrder m peers).getLast? with
      | none =>
        rw [List.getLast?_eq_none_iff] at hlast
        exact absurd ((insertInOrder_perm m peers).length_eq.symm.trans (congrArg List.length hlast)) (by simp)
      | some last =>
        rw [List.getLast?_cons, hlast] at h
        obtain rfl : last = p := Option.some.inj h
        refine (ih hlast).imp_right fun hpeers => ?_
        rw [List.getLast?_cons, hpeers]
        rfl
    · rw [List.getLast?_cons_cons] at h
      exact .inr h

theorem mem_insertPeer : p ∈ insertPeer m peers ↔ p = m ∨ (p ∈ peers ∧ p.addr ≠ m.addr) := by
  rw [(insertPeer_perm m peers).mem_iff, List.mem_cons, mem_removeAddr]

def Unique (peers : List MetaAddr) : Prop := (peers.map MetaAddr.addr).Nodup

theorem Unique.removeAddr (h : Unique peers) : Unique (removeAddr addr peers) :=
  h.sublist (List.filter_sublist.map _)

theorem Unique.insertPeer (h : Unique peers) : Unique (insertPeer m peers) := by
  refine ((insertPeer_perm m peers).map MetaAddr.addr).nodup_iff.2 ?_
  rw [List.map_cons, List.nodup_cons]
  refine ⟨fun hmem => ?_, h.removeAddr⟩
  obtain ⟨p, hp, heq⟩ := List.mem_map.1 hmem
  exact (mem_removeAddr.1 hp).2 heq

theorem Unique.eq_of_addr (h : Unique peers) {q : MetaAddr} (hp : p ∈ peers) (hq : q ∈ peers) (heq : p.addr = q.addr) :
    p = q := List.inj_on_of_nodup_map h hp hq heq

theorem length_insertPeer_le : (insertPeer m peers).length ≤ peers.length + 1 := by
  rw [(insertPeer_perm m peers).length_eq, List.length_cons]
  exact Nat.succ_le_succ (List.length_filter_le _ _)

theorem length_removeAddr_lt (hp : p ∈ peers) : (removeAddr p.addr peers).length < peers.length :=
  List.length_filter_lt_length_iff_exists.2 ⟨p, hp, by simp⟩

variable {book book' : AddressBook}

theorem mem_of_get (h : book.get addr = some p) : p ∈ book.byAddr ∧ p.addr = canonicalPeerAddr addr :=
  ⟨List.mem_of_find?_eq_some h, by simpa using List.find?_some h⟩

end AddressBook

namespace MetaAddrChange

variable {c : MetaAddrChange} {previous : Option MetaAddr} {updated : MetaAddr} {instantNow : Instant}
  {localNow : DateTime32} {ε : Type}

theorem applyToMetaAddr_eq_some (h : (c.applyToMetaAddr previous instantNow localNow : Exec ε _) = .ok (some updated)) :
    (previous = none ∧ updated = c.intoNewMetaAddr instantNow localNow) ∨
      ∃ p, previous = some p ∧ p.addr = c.addr ∧ c.isIgnored p instantNow localNow = false ∧
        updated = c.updatedMetaAddr p instantNow localNow := by
  cases previous with
  | none => exact .inl ⟨rfl, (Option.some.inj (Except.ok.inj h)).symm⟩
  | some p =>
    obtain ⟨haddr, h⟩ := check_bind_eq_ok.1 h
    split at h
    · cases h
    · rename_i hignored
      obtain ⟨-, h⟩ := check_bind_eq_ok.1 h
      exact .inr ⟨p, rfl, haddr, by simpa using hignored, (Option.some.inj (Except.ok.inj h)).symm⟩

theorem addr_updatedMetaAddr (p : MetaAddr) : (c.updatedMetaAddr p instantNow localNow).addr = c.addr := by
  rw [updatedMetaAddr]
  split <;> rfl

theorem addr_of_apply (h : (c.applyToMetaAddr previous instantNow localNow : Exec ε _) = .ok (some updated)) :
    updated.addr = c.addr := by
  rcases applyToMetaAddr_eq_some h with ⟨-, rfl⟩ | ⟨p, -, -, -, rfl⟩
  · rfl
  · exact addr_updatedMetaAddr p

theorem misbehaviorScore_updatedMetaAddr (p : MetaAddr) :
    (c.updatedMetaAddr p instantNow localNow).misbehaviorScore = p.misbehaviorScore + c.misbehaviorScore := by
  rw [updatedMetaAddr]
  split <;> rfl

section

variable (h : (c.applyToMetaAddr previous instantNow localNow : Exec ε _) = .ok (some updated))
include h

theorem score_of_apply :
    updated.misbehaviorScore = (previous.elim 0 MetaAddr.misbehaviorScore) + c.misbehaviorScore := by
  rcases applyToMetaAddr_eq_some h with ⟨rfl, rfl⟩ | ⟨p, rfl, -, -, rfl⟩
  · exact (Nat.zero_add _).symm
  · exact misbehaviorScore_updatedMetaAddr p

theorem state_of_apply :
    updated.lastConnectionState = c.peerAddrState := by
  rcases applyToMetaAddr_eq_some h with ⟨-, rfl⟩ | ⟨p, -, -, -, rfl⟩
  · rfl
  · rw [updatedMetaAddr]
    split <;> rfl

end

theorem apply_succeeds (haddr : ∀ p ∈ previous, p.addr = c.addr)
    (hscore : ∀ p ∈ previous, p.misbehaviorScore + c.misbehaviorScore < 2 ^ 32) :
    (c.applyToMetaAddr previous instantNow localNow : Exec ε _).Succeeds := by
  cases previous with
  | none => exact succeeds_ok _
  | some p =>
    rw [applyToMetaAddr, check, if_pos (haddr p rfl), ok_bind]
    split
    · exact succeeds_ok _
    · rw [check, if_pos (hscore p rfl), ok_bind]
      exact succeeds_ok _

end MetaAddrChange

namespace AddressBook

variable {book book' : AddressBook} {change : MetaAddrChange} {updated : MetaAddr} {result : Option MetaAddr}
  {instantNow : Instant} {chronoNow : DateTime32} {ε : Type}

/-- What holds of every book: one entry for each address, not more than the limit, no entry with a
score that is banned, and each entry of the cache under its own IP address. -/
structure WellFormed (book : AddressBook) : Prop where
  unique : Unique book.byAddr
  length_le : book.byAddr.length ≤ book.addrLimit
  score_lt : ∀ p ∈ book.byAddr, p.misbehaviorScore < maxPeerMisbehaviorScore
  keyed : ∀ mostRecent, book.mostRecentByIp = some mostRecent → ∀ (ip : IpAddr) (m : MetaAddr),
    mostRecent[ip]? = some m → m.addr.ip = ip

def scoreAfter (book : AddressBook) (change : MetaAddrChange) : Nat :=
  (book.get change.addr).elim 0 MetaAddr.misbehaviorScore + change.misbehaviorScore

def cacheUpdated (book : AddressBook) (updated : MetaAddr) : Option (KeyedMap IpAddr MetaAddr) :=
  if book.shouldUpdateMostRecentByIp updated then
    book.mostRecentByIp.map fun mostRecent => mostRecent.insert updated.addr.ip updated
  else book.mostRecentByIp

def cacheRemoved (book : AddressBook) (addr : PeerSocketAddr) : Option (KeyedMap IpAddr MetaAddr) :=
  if book.shouldRemoveMostRecentByIp addr then book.mostRecentByIp.map fun mostRecent => mostRecent.erase addr.ip
  else book.mostRecentByIp

theorem updateMostRecent_eq (book : AddressBook) (updated : MetaAddr) :
    (book.updateMostRecent updated : Exec ε _) = .ok { book with mostRecentByIp := book.cacheUpdated updated } := by
  rw [updateMostRecent, cacheUpdated]
  split
  · rename_i hupdate
    cases hcache : book.mostRecentByIp with
    | none => simp [shouldUpdateMostRecentByIp, hcache] at hupdate
    | some mostRecent =>
      rw [withMostRecent, hcache]
      rfl
  · rfl

theorem removeMostRecent_eq (book : AddressBook) (addr : PeerSocketAddr) :
    (book.removeMostRecent addr : Exec ε _) = .ok { book with mostRecentByIp := book.cacheRemoved addr } := by
  rw [removeMostRecent, cacheRemoved]
  split
  · rename_i hremove
    cases hcache : book.mostRecentByIp with
    | none => simp [shouldRemoveMostRecentByIp, hcache] at hremove
    | some mostRecent =>
      rw [withMostRecent, hcache]
      rfl
  · rfl

def inserted (book : AddressBook) (updated : MetaAddr) : AddressBook :=
  { book with
    byAddr := insertPeer updated book.byAddr
    mostRecentByIp := book.cacheUpdated updated }

def surplusPeer (book : AddressBook) (updated : MetaAddr) : Option MetaAddr :=
  if (insertPeer updated book.byAddr).length ≤ book.addrLimit then none else (insertPeer updated book.byAddr).getLast?

def without (book : AddressBook) (surplus : MetaAddr) : AddressBook :=
  { book with
    byAddr := removeAddr surplus.addr book.byAddr
    mostRecentByIp := book.cacheRemoved surplus.addr }

def limited (book : AddressBook) (updated : MetaAddr) : AddressBook :=
  (book.surplusPeer updated).elim (book.inserted updated) (book.inserted updated).without

theorem surplusPeer_mem {surplus : MetaAddr} (h : book.surplusPeer updated = some surplus) :
    surplus ∈ insertPeer updated book.byAddr := by
  rw [surplusPeer] at h
  split at h
  · cases h
  · exact List.mem_of_getLast? h

theorem surplusPeer_cases (hw : book.WellFormed) {surplus : MetaAddr} (h : book.surplusPeer updated = some surplus) :
    (∀ p ∈ book.byAddr, p.addr ≠ updated.addr) ∧ book.addrLimit ≤ book.byAddr.length ∧
      (surplus = updated ∨ book.byAddr.getLast? = some surplus) := by
  rw [surplusPeer] at h
  split at h
  · cases h
  rename_i hover
  have hlength : (insertPeer updated book.byAddr).length = (removeAddr updated.addr book.byAddr).length + 1 :=
    (insertPeer_perm updated book.byAddr).length_eq
  have hlimit := hw.length_le
  have hnew : ∀ p ∈ book.byAddr, p.addr ≠ updated.addr := by
    intro p hp heq
    have hlt := length_removeAddr_lt hp
    rw [heq] at hlt
    omega
  have hremove : removeAddr updated.addr book.byAddr = book.byAddr :=
    List.filter_eq_self.2 fun p hp => by simpa using hnew p hp
  rw [insertPeer, hremove] at h
  rw [hremove] at hlength
  exact ⟨hnew, by omega, getLast?_insertInOrder h⟩

theorem removeSurplus_of_le (rounds : Nat) (h : book.byAddr.length ≤ book.addrLimit) :
    (removeSurplus rounds book : Exec ε _) = .ok book := by
  cases rounds with
  | zero => rfl
  | succ rounds => rw [removeSurplus, if_pos h]; rfl

theorem updateMetrics_eq (book : AddressBook) : (book.updateMetrics chronoNow : Exec ε _) = .ok () := by
  rw [updateMetrics, check, if_pos]
  refine List.countP_mono_left fun p _ hp => ?_
  simp only [MetaAddr.wasRecentlyLive, Bool.and_eq_true] at hp
  exact hp.1

theorem length_limited_le (hw : book.WellFormed) : (book.limited updated).byAddr.length ≤ book.addrLimit := by
  have hlength : (insertPeer updated book.byAddr).length ≤ book.byAddr.length + 1 := length_insertPeer_le
  have hlimit := hw.length_le
  rw [limited]
  cases hsurplus : book.surplusPeer updated with
  | none =>
    rw [surplusPeer] at hsurplus
    split at hsurplus
    · rename_i hle
      exact hle
    · rename_i hle
      have hnil : insertPeer updated book.byAddr = [] := List.getLast?_eq_none_iff.1 hsurplus
      rw [hnil] at hle
      exact absurd (Nat.zero_le _) hle
  | some surplus =>
    have hlt := length_removeAddr_lt (surplusPeer_mem hsurplus)
    change (removeAddr surplus.addr (insertPeer updated book.byAddr)).length ≤ _
    omega

theorem insertUpdated_eq (hw : book.WellFormed) (updated : MetaAddr) :
    (book.insertUpdated updated chronoNow : Exec ε _) = .ok (book.limited updated) := by
  have hlimited : (book.limited updated).byAddr.length ≤ book.addrLimit := length_limited_le hw
  have hinserted : ({ book with byAddr := insertPeer updated book.byAddr } : AddressBook).cacheUpdated updated =
      book.cacheUpdated updated := rfl
  have hloop : (removeSurplus (book.inserted updated).byAddr.length (book.inserted updated) : Exec ε _) =
      .ok (book.limited updated) := by
    by_cases hle : (insertPeer updated book.byAddr).length ≤ book.addrLimit
    · have hnone : book.surplusPeer updated = none := if_pos hle
      rw [removeSurplus_of_le _ hle, limited, hnone]
      rfl
    · have hsurplus : book.surplusPeer updated = (insertPeer updated book.byAddr).getLast? := if_neg hle
      obtain ⟨surplus, hlast⟩ : ∃ surplus, (insertPeer updated book.byAddr).getLast? = some surplus := by
        refine Option.ne_none_iff_exists'.1 fun hnone => hle ?_
        rw [List.getLast?_eq_none_iff.1 hnone]
        exact Nat.zero_le _
      rw [hlast] at hsurplus
      have hsome : book.limited updated = (book.inserted updated).without surplus := by rw [limited, hsurplus]; rfl
      obtain ⟨rounds, hrounds⟩ : ∃ rounds, (book.inserted updated).byAddr.length = rounds + 1 :=
        Nat.exists_eq_succ_of_ne_zero fun hzero => hle ((Nat.le_of_eq hzero).trans (Nat.zero_le _))
      have hover : ¬ (book.inserted updated).byAddr.length ≤ (book.inserted updated).addrLimit := hle
      rw [hrounds, removeSurplus, if_neg hover, removeSurplusPeer]
      change ((expect (insertPeer updated book.byAddr).getLast? _ >>= _) >>= _) = _
      rw [hlast, expect_some, ok_bind, removeMostRecent_eq, ok_bind, hsome]
      rw [hsome] at hlimited
      exact removeSurplus_of_le _ hlimited
  rw [insertUpdated, updateMostRecent_eq, ok_bind, hinserted]
  change (removeSurplus (book.inserted updated).byAddr.length (book.inserted updated) >>= _) = _
  have hlimit : (book.limited updated).addrLimit = book.addrLimit := by
    rw [limited]
    cases book.surplusPeer updated <;> rfl
  rw [hloop, ok_bind, check, if_pos (by rw [hlimit]; exact hlimited), ok_bind, updateMetrics_eq]
  rfl

theorem update_cases (hw : book.WellFormed)
    (h : (book.update change instantNow chronoNow : Exec ε _) = .ok (result, book')) :
    (result = none ∧ book' = book) ∨
      ∃ updated, change.addr.ip ∉ book.bansByIp.map Prod.fst ∧
        (change.applyToMetaAddr (book.get change.addr) instantNow chronoNow : Exec ε _) = .ok (some updated) ∧
          ((maxPeerMisbehaviorScore ≤ updated.misbehaviorScore ∧ result = none ∧
              (book.ban updated.addr.ip instantNow : Exec ε _) = .ok book') ∨
            (updated.misbehaviorScore < maxPeerMisbehaviorScore ∧ result = some updated ∧
              book.isIgnored updated = false ∧ book' = book.limited updated)) := by
  rw [update] at h
  split at h
  · cases h
    exact .inl ⟨rfl, rfl⟩
  rename_i hbans
  obtain ⟨applied, happlied, h⟩ := bind_eq_ok.1 h
  cases applied with
  | none =>
    cases h
    exact .inl ⟨rfl, rfl⟩
  | some updated =>
    dsimp only at h
    split at h
    · rename_i hscore
      obtain ⟨banned, hban, h⟩ := bind_eq_ok.1 h
      cases h
      exact .inr ⟨updated, hbans, happlied, .inl ⟨hscore, rfl, hban⟩⟩
    · rename_i hscore
      split at h
      · cases h
        exact .inl ⟨rfl, rfl⟩
      · rename_i hignored
        rw [insertUpdated_eq hw, ok_bind] at h
        cases h
        exact .inr ⟨updated, hbans, happlied, .inr ⟨Nat.not_le.1 hscore, rfl, by simpa using hignored, rfl⟩⟩

/-- The peers of an IP address follow each other in the order of the book. -/
def Adjacent (ip : IpAddr) (peers : List MetaAddr) : Prop :=
  ip ∉ (((peers.map fun p => p.addr.ip).dropWhile fun i => i ≠ ip).dropWhile fun i => i = ip)

instance (ip : IpAddr) (peers : List MetaAddr) : Decidable (Adjacent ip peers) := inferInstanceAs (Decidable (¬ _))

def bannedAddrs (ip : IpAddr) (peers : List MetaAddr) : List PeerSocketAddr :=
  ((peers.map MetaAddr.addr).dropWhile fun addr => addr.ip ≠ ip).takeWhile fun addr => addr.ip = ip

theorem ip_of_mem_bannedAddrs {ip : IpAddr} {peers : List MetaAddr} {addr : PeerSocketAddr}
    (h : addr ∈ bannedAddrs ip peers) : addr.ip = ip := by
  simpa using List.mem_takeWhile_imp h

theorem mem_bannedAddrs_of_adjacent {ip : IpAddr} {peers : List MetaAddr} (h : Adjacent ip peers) {p : MetaAddr}
    (hp : p ∈ peers) (hip : p.addr.ip = ip) : p.addr ∈ bannedAddrs ip peers := by
  have hips : (peers.map fun p => p.addr.ip) = (peers.map MetaAddr.addr).map PeerSocketAddr.ip := by
    rw [List.map_map]
    rfl
  rw [Adjacent, hips] at h
  have hmem : p.addr ∈ peers.map MetaAddr.addr := List.mem_map_of_mem hp
  rw [bannedAddrs]
  generalize peers.map MetaAddr.addr = addrs at h hmem
  rw [List.dropWhile_map, List.dropWhile_map] at h
  have hfirst : p.addr ∈ addrs.dropWhile fun addr => addr.ip ≠ ip := by
    rw [← List.takeWhile_append_dropWhile (p := fun addr : PeerSocketAddr => decide (addr.ip ≠ ip)) (l := addrs),
      List.mem_append] at hmem
    rcases hmem with hmem | hmem
    · exact absurd hip (by simpa using List.mem_takeWhile_imp hmem)
    · exact hmem
  rw [← List.takeWhile_append_dropWhile (p := fun addr : PeerSocketAddr => decide (addr.ip = ip))
    (l := addrs.dropWhile fun addr => addr.ip ≠ ip), List.mem_append] at hfirst
  rcases hfirst with hfirst | hrest
  · exact hfirst
  · exact absurd (List.mem_map.2 ⟨p.addr, hrest, hip⟩) h

theorem mem_foldl_removeAddr {addrs : List PeerSocketAddr} {peers : List MetaAddr} {p : MetaAddr} :
    p ∈ addrs.foldl (fun peers addr => removeAddr addr peers) peers ↔ p ∈ peers ∧ p.addr ∉ addrs := by
  induction addrs generalizing peers with
  | nil => simp
  | cons addr addrs ih => rw [List.foldl_cons, ih, mem_removeAddr, List.mem_cons, not_or, and_assoc]

theorem foldl_removeAddr_sublist (addrs : List PeerSocketAddr) (peers : List MetaAddr) :
    (addrs.foldl (fun peers addr => removeAddr addr peers) peers).Sublist peers := by
  induction addrs generalizing peers with
  | nil => exact .refl _
  | cons addr addrs ih => exact (ih _).trans List.filter_sublist

def bansAfter (book : AddressBook) (ip : IpAddr) (now : Instant) : List (IpAddr × Instant) :=
  if maxBannedIps < (insertBan ip now book.bansByIp).length then (insertBan ip now book.bansByIp).drop 1
  else insertBan ip now book.bansByIp

theorem bansAfter_of_not_mem {ip : IpAddr} {now : Instant} (h : ip ∉ book.bansByIp.map Prod.fst) :
    book.bansAfter ip now = if maxBannedIps < book.bansByIp.length + 1 then (book.bansByIp ++ [(ip, now)]).drop 1
      else book.bansByIp ++ [(ip, now)] := by
  rw [bansAfter, insertBan, if_neg h, List.length_append, List.length_singleton]

theorem self_mem_bansAfter {ip : IpAddr} {now : Instant} (h : ip ∉ book.bansByIp.map Prod.fst) :
    (ip, now) ∈ book.bansAfter ip now := by
  rw [bansAfter_of_not_mem h]
  split
  · rename_i hfull
    have hlength : 1 ≤ book.bansByIp.length := by
      rw [maxBannedIps] at hfull
      omega
    rw [List.drop_append_of_le_length hlength]
    exact List.mem_append_right _ (List.mem_singleton.2 rfl)
  · exact List.mem_append_right _ (List.mem_singleton.2 rfl)

theorem mem_bansAfter_or_oldest {ip : IpAddr} {now : Instant} (h : ip ∉ book.bansByIp.map Prod.fst)
    {ban : IpAddr × Instant} (hban : ban ∈ book.bansByIp) :
    ban ∈ book.bansAfter ip now ∨ (maxBannedIps ≤ book.bansByIp.length ∧ book.bansByIp.head? = some ban) := by
  rw [bansAfter_of_not_mem h]
  split
  · rename_i hfull
    cases hbans : book.bansByIp with
    | nil => rw [hbans] at hban; cases hban
    | cons oldest bans =>
      rw [hbans] at hban hfull
      rcases List.mem_cons.1 hban with rfl | hban
      · exact .inr ⟨Nat.lt_succ_iff.1 hfull, rfl⟩
      · exact .inl (List.mem_append_left _ hban)
  · exact .inl (List.mem_append_left _ hban)

theorem ban_eq_ok {ip : IpAddr} : (book.ban ip instantNow : Exec ε _) = .ok book' ↔
    ∃ mostRecent, book.mostRecentByIp = some mostRecent ∧ book' = { book with
      bansByIp := book.bansAfter ip instantNow
      mostRecentByIp := some (mostRecent.erase ip)
      byAddr := (bannedAddrs ip book.byAddr).foldl (fun peers addr => removeAddr addr peers) book.byAddr } := by
  rw [ban, withMostRecent]
  cases book.mostRecentByIp with
  | none => simp
  | some mostRecent =>
    simp only [expect_some, ok_bind, pure_eq_ok, Except.ok.injEq, Option.some.injEq,
      exists_eq_left']
    exact eq_comm

theorem mem_limited {p : MetaAddr} (h : p ∈ (book.limited updated).byAddr) :
    p = updated ∨ (p ∈ book.byAddr ∧ p.addr ≠ updated.addr) := by
  rw [limited] at h
  cases hsurplus : book.surplusPeer updated with
  | none =>
    rw [hsurplus] at h
    exact mem_insertPeer.1 h
  | some surplus =>
    rw [hsurplus] at h
    exact mem_insertPeer.1 (mem_removeAddr.1 h).1

theorem mem_limited_of_ne {p : MetaAddr} (hp : p ∈ insertPeer updated book.byAddr)
    (hne : ∀ surplus, book.surplusPeer updated = some surplus → p.addr ≠ surplus.addr) : p ∈ (book.limited updated).byAddr := by
  rw [limited]
  cases hsurplus : book.surplusPeer updated with
  | none => exact hp
  | some surplus => exact mem_removeAddr.2 ⟨hp, hne surplus hsurplus⟩

@[simp] theorem bansByIp_limited : (book.limited updated).bansByIp = book.bansByIp := by
  rw [limited]
  cases book.surplusPeer updated <;> rfl

@[simp] theorem addrLimit_limited : (book.limited updated).addrLimit = book.addrLimit := by
  rw [limited]
  cases book.surplusPeer updated <;> rfl

theorem mem_cache_erase {previous mostRecent : KeyedMap IpAddr MetaAddr} {ip key : IpAddr} {m : MetaAddr}
    (h : previous.erase ip = mostRecent) (hm : mostRecent[key]? = some m) : ip ≠ key ∧ previous[key]? = some m := by
  subst h
  by_cases hip : ip = key
  · subst hip
    rw [ExtTreeMap.getElem?_erase_self] at hm
    cases hm
  · exact ⟨hip, by rwa [KeyedMap.getElem?_erase_of_ne hip] at hm⟩

theorem mem_cache_limited {mostRecent : KeyedMap IpAddr MetaAddr} (h : (book.limited updated).mostRecentByIp = some mostRecent)
    {ip : IpAddr} {m : MetaAddr} (hm : mostRecent[ip]? = some m) :
    (ip = updated.addr.ip ∧ m = updated) ∨ ∃ previous, book.mostRecentByIp = some previous ∧ previous[ip]? = some m := by
  have hinserted : ∀ mostRecent, (book.inserted updated).mostRecentByIp = some mostRecent → mostRecent[ip]? = some m →
      (ip = updated.addr.ip ∧ m = updated) ∨ ∃ previous, book.mostRecentByIp = some previous ∧ previous[ip]? = some m := by
    intro mostRecent h hm
    change book.cacheUpdated updated = _ at h
    rw [cacheUpdated] at h
    split at h
    · obtain ⟨previous, hprevious, rfl⟩ := Option.map_eq_some_iff.1 h
      by_cases hip : updated.addr.ip = ip
      · subst hip
        rw [ExtTreeMap.getElem?_insert_self] at hm
        exact .inl ⟨rfl, (Option.some.inj hm).symm⟩
      · rw [KeyedMap.getElem?_insert_of_ne hip] at hm
        exact .inr ⟨previous, hprevious, hm⟩
    · exact .inr ⟨mostRecent, h, hm⟩
  rw [limited] at h
  cases hsurplus : book.surplusPeer updated with
  | none =>
    rw [hsurplus] at h
    exact hinserted mostRecent h hm
  | some surplus =>
    rw [hsurplus] at h
    change (book.inserted updated).cacheRemoved surplus.addr = _ at h
    rw [cacheRemoved] at h
    split at h
    · obtain ⟨cached, hcached, rfl⟩ := Option.map_eq_some_iff.1 h
      exact hinserted cached hcached (mem_cache_erase rfl hm).2
    · exact hinserted mostRecent h hm

theorem WellFormed.limited (hw : book.WellFormed) (hscore : updated.misbehaviorScore < maxPeerMisbehaviorScore) :
    (book.limited updated).WellFormed where
  unique := by
    rw [AddressBook.limited]
    cases book.surplusPeer updated with
    | none => exact hw.unique.insertPeer
    | some surplus => exact hw.unique.insertPeer.removeAddr
  length_le := by
    rw [addrLimit_limited]
    exact length_limited_le hw
  score_lt := by
    intro p hp
    rcases mem_limited hp with rfl | ⟨hp, -⟩
    · exact hscore
    · exact hw.score_lt p hp
  keyed := by
    intro mostRecent hmostRecent ip m hm
    rcases mem_cache_limited hmostRecent hm with ⟨rfl, rfl⟩ | ⟨previous, hprevious, hm⟩
    · rfl
    · exact hw.keyed previous hprevious ip m hm

theorem WellFormed.ban (hw : book.WellFormed) {ip : IpAddr} (h : (book.ban ip instantNow : Exec ε _) = .ok book') :
    book'.WellFormed := by
  obtain ⟨mostRecent, hcache, rfl⟩ := ban_eq_ok.1 h
  have hsublist := foldl_removeAddr_sublist (bannedAddrs ip book.byAddr) book.byAddr
  exact {
    unique := hw.unique.sublist (hsublist.map _)
    length_le := hsublist.length_le.trans hw.length_le
    score_lt := fun p hp => hw.score_lt p (hsublist.subset hp)
    keyed := fun _ hmostRecent key m hm => hw.keyed mostRecent hcache key m
      (mem_cache_erase (Option.some.inj hmostRecent) hm).2 }

theorem WellFormed.update (hw : book.WellFormed)
    (h : (book.update change instantNow chronoNow : Exec ε _) = .ok (result, book')) : book'.WellFormed := by
  rcases update_cases hw h with ⟨-, rfl⟩ | ⟨updated, -, -, ⟨-, -, hban⟩ | ⟨hscore, -, -, rfl⟩⟩
  · exact hw
  · exact hw.ban hban
  · exact hw.limited hscore

theorem WellFormed.new (network : Network) (maxConnectionsPerIp addrLimit : Nat) :
    (new network maxConnectionsPerIp addrLimit).WellFormed where
  unique := List.nodup_nil
  length_le := Nat.zero_le _
  score_lt := fun _ h => nomatch h
  keyed := by
    intro mostRecent h ip m hm
    rw [AddressBook.new] at h
    dsimp only at h
    split at h
    · cases h
      simp at hm
    · cases h

end AddressBook

structure BookInput where
  change : MetaAddrChange
  instantNow : Instant
  chronoNow : DateTime32

namespace AddressBook

def apply (book : AddressBook) (i : BookInput) : Exec Empty AddressBook :=
  Prod.snd <$> book.update i.change i.instantNow i.chronoNow

abbrev Applies (book : AddressBook) (i : BookInput) (updated : MetaAddr) : Prop :=
  (i.change.applyToMetaAddr (book.get i.change.addr) i.instantNow i.chronoNow : Exec Empty _) = .ok (some updated)

abbrev EachInput (C : AddressBook → BookInput → Prop) : AddressBook → List BookInput → Prop := Guarded apply C

theorem WellFormed.apply {book book' : AddressBook} (hw : book.WellFormed) {i : BookInput} (h : book.apply i = .ok book') :
    book'.WellFormed := by
  obtain ⟨result, h⟩ := map_snd_eq_ok.1 h
  exact hw.update h

end AddressBook

end Zebra
