import Zebra.Ledger.AddressBook
import Zebra.Properties.Sample

namespace Zebra.Properties

open Lib Std AddressBook Outcome MetaAddrChange

/-- No entry of the book, and none of the cache, has a banned address. -/
structure NoBanned (book : AddressBook) : Prop where
  peers : ∀ p ∈ book.byAddr, p.addr.ip ∉ book.bansByIp.map Prod.fst
  cache : ∀ mostRecent, book.mostRecentByIp = some mostRecent → ∀ (ip : IpAddr) (m : MetaAddr), mostRecent[ip]? = some m →
    ip ∉ book.bansByIp.map Prod.fst ∧ m.addr.ip ∉ book.bansByIp.map Prod.fst

/-- If the address is not banned yet: the entry of a known peer has the address of the change, its
score does not overflow, and it only reaches the limit if there is a cache and the peers of the IP
address are next to each other. -/
def BansCleanly (book : AddressBook) (i : BookInput) : Prop :=
  i.change.addr.ip ∉ book.bansByIp.map Prod.fst →
    (∀ p ∈ book.get i.change.addr, p.addr = i.change.addr ∧ scoreAfter book i.change < 2 ^ 32) ∧
      (maxPeerMisbehaviorScore ≤ scoreAfter book i.change →
        book.mostRecentByIp.isSome = true ∧ Adjacent i.change.addr.ip book.byAddr)

instance (book : AddressBook) (i : BookInput) : Decidable (BansCleanly book i) :=
  inferInstanceAs (Decidable (_ → _))

section step

variable {book book' : AddressBook} {i : BookInput}

theorem apply_succeeds_of_bansCleanly (hw : book.WellFormed) (hclean : BansCleanly book i) :
    (book.apply i).Succeeds := by
  rw [apply, update]
  split
  · exact succeeds_ok _
  rename_i hbans
  obtain ⟨hknown, hban⟩ := hclean hbans
  have hsucceeds : (i.change.applyToMetaAddr (book.get i.change.addr) i.instantNow i.chronoNow : Exec Empty _).Succeeds := by
    refine apply_succeeds (fun p hp => (hknown p hp).1) fun p hp => ?_
    have hscore := (hknown p hp).2
    rw [scoreAfter, hp] at hscore
    exact hscore
  obtain ⟨applied, happlied⟩ := hsucceeds
  rw [happlied, ok_bind]
  cases applied with
  | none => exact succeeds_ok _
  | some updated =>
    dsimp only
    split
    · rename_i hscore
      rw [score_of_apply happlied] at hscore
      obtain ⟨mostRecent, hcache⟩ := Option.isSome_iff_exists.1 (hban hscore).1
      rw [ban_eq_ok.2 ⟨mostRecent, hcache, rfl⟩, ok_bind]
      exact succeeds_ok _
    · split
      · exact succeeds_ok _
      · rw [insertUpdated_eq hw, ok_bind]
        exact succeeds_ok _

theorem mem_bansAfter {ip ip' : IpAddr} {now : Instant} (h : ip' ∈ (book.bansAfter ip now).map Prod.fst) :
    ip' = ip ∨ ip' ∈ book.bansByIp.map Prod.fst := by
  have hinsert : ip' ∈ (insertBan ip now book.bansByIp).map Prod.fst := by
    rw [bansAfter] at h
    split at h
    · exact ((List.drop_sublist 1 _).map _).subset h
    · exact h
  rw [insertBan] at hinsert
  split at hinsert
  · obtain ⟨ban, hban, rfl⟩ := List.mem_map.1 hinsert
    obtain ⟨old, hold, rfl⟩ := List.mem_map.1 hban
    split
    · exact .inl rfl
    · exact .inr (List.mem_map_of_mem hold)
  · rw [List.map_append, List.mem_append] at hinsert
    rcases hinsert with hinsert | hinsert
    · exact .inr hinsert
    · exact .inl (by simpa using hinsert)

theorem NoBanned.apply (hw : book.WellFormed) (hbanned : NoBanned book) (hclean : BansCleanly book i)
    (h : book.apply i = .ok book') : NoBanned book' := by
  obtain ⟨result, h⟩ := map_snd_eq_ok.1 h
  rcases update_cases hw h with ⟨-, rfl⟩ | ⟨updated, hbans, happlied, ⟨hscore, -, hban⟩ | ⟨-, -, -, rfl⟩⟩
  · exact hbanned
  · have haddr := addr_of_apply happlied
    rw [score_of_apply happlied] at hscore
    obtain ⟨-, hadjacent⟩ := (hclean hbans).2 hscore
    obtain ⟨mostRecent, hcache, rfl⟩ := ban_eq_ok.1 hban
    rw [haddr]
    refine ⟨fun p hp hmem => ?_, fun mostRecent' hmostRecent ip m hm => ?_⟩
    · obtain ⟨hp, hnot⟩ := mem_foldl_removeAddr.1 hp
      rcases mem_bansAfter hmem with hip | hip
      · exact hnot (mem_bannedAddrs_of_adjacent hadjacent hp hip)
      · exact hbanned.peers p hp hip
    · obtain ⟨hne, hm⟩ := mem_cache_erase (Option.some.inj hmostRecent) hm
      have hnot : ip ∉ (book.bansAfter i.change.addr.ip i.instantNow).map Prod.fst := fun hmem =>
        (mem_bansAfter hmem).elim (fun hip => hne hip.symm) (hbanned.cache mostRecent hcache ip m hm).1
      rw [hw.keyed mostRecent hcache ip m hm]
      exact ⟨hnot, hnot⟩
  · have haddr := addr_of_apply happlied
    refine ⟨fun p hp => ?_, fun mostRecent hmostRecent ip m hm => ?_⟩
    · rw [bansByIp_limited]
      rcases mem_limited hp with rfl | ⟨hp, -⟩
      · rw [haddr]
        exact hbans
      · exact hbanned.peers p hp
    · rw [bansByIp_limited]
      rcases mem_cache_limited hmostRecent hm with ⟨rfl, rfl⟩ | ⟨previous, hprevious, hm⟩
      · rw [haddr]
        exact ⟨hbans, hbans⟩
      · exact hbanned.cache previous hprevious ip m hm

end step

theorem NoBanned.new (network : Network) (maxConnectionsPerIp addrLimit : Nat) :
    NoBanned (new network maxConnectionsPerIp addrLimit) where
  peers := fun _ h => nomatch h
  cache := fun _ _ _ _ _ => ⟨List.not_mem_nil, List.not_mem_nil⟩

/-- Updates that ban cleanly never panic, and leave no entry with a banned address. -/
theorem bans_total_and_complete (network : Network) (maxConnectionsPerIp addrLimit : Nat) (inputs : List BookInput)
    (hclean : EachInput BansCleanly (new network maxConnectionsPerIp addrLimit) inputs) :
    ∃ book, inputs.foldlM apply (new network maxConnectionsPerIp addrLimit) = .ok book ∧ NoBanned book := by
  obtain ⟨book, hbook, -, hbanned⟩ := Guarded.exists_invariant (P := fun book => book.WellFormed ∧ NoBanned book)
    (fun _ _ hP hC => apply_succeeds_of_bansCleanly hP.1 hC)
    (fun _ _ _ hP hC hstep => ⟨hP.1.apply hstep, hP.2.apply hP.1 hC hstep⟩) hclean ⟨.new .., .new ..⟩
  exact ⟨book, hbook, hbanned⟩

def peerAt (host port : Nat) : PeerSocketAddr := ⟨.v4 host, port⟩

def gossip (addr : PeerSocketAddr) (lastSeen : DateTime32) : BookInput := ⟨.newGossiped addr 1 lastSeen, 0, 1000⟩

def misbehave (addr : PeerSocketAddr) : BookInput := ⟨.updateMisbehavior addr 100, seconds 10, 1010⟩

def scattered : List BookInput :=
  [gossip (peerAt 1 18233) 30, gossip (peerAt 2 18233) 20, gossip (peerAt 1 18234) 10]

/-- Without a cache the ban panics. With one, a peer of the banned address is left if the peers of the
address are not next to each other. -/
theorem scattered_ban :
    ([misbehave (peerAt 1 18233)].foldlM apply (new Sample.network 2 5)).Panics ∧
      (fun book => (book.byAddr.map MetaAddr.addr, book.bansByIp.map Prod.fst)) <$>
          (scattered ++ [misbehave (peerAt 1 18233)]).foldlM apply (new Sample.network 1 5) =
        .ok ([peerAt 2 18233, peerAt 1 18234], [.v4 1]) := by
  constructor <;> decide +kernel

theorem length_bansAfter_le {book : AddressBook} {ip : IpAddr} {now : Instant} (h : book.bansByIp.length ≤ maxBannedIps) :
    (book.bansAfter ip now).length ≤ maxBannedIps := by
  have hlength : (insertBan ip now book.bansByIp).length ≤ book.bansByIp.length + 1 := by
    rw [insertBan]
    split <;> simp
  rw [bansAfter]
  split
  · rw [List.length_drop]
    omega
  · omega

/-- The limits that every run of updates keeps to. -/
theorem address_book_bounded (network : Network) (maxConnectionsPerIp addrLimit : Nat) {inputs : List BookInput}
    {book : AddressBook} (h : inputs.foldlM apply (new network maxConnectionsPerIp addrLimit) = .ok book) :
    book.WellFormed ∧ book.addrLimit = addrLimit ∧ book.bansByIp.length ≤ maxBannedIps := by
  apply Outcome.foldlM_invariant (I := fun _ book => book.WellFormed ∧ book.addrLimit = addrLimit ∧
    book.bansByIp.length ≤ maxBannedIps) ?_ h ⟨.new .., rfl, Nat.zero_le _⟩
  intro i _ book book' happly ⟨hw, hlimit, hbans⟩
  constructor
  · exact hw.apply happly
  obtain ⟨result, happly⟩ := map_snd_eq_ok.1 happly
  rcases update_cases hw happly with ⟨-, rfl⟩ | ⟨updated, -, -, ⟨-, -, hban⟩ | ⟨-, -, -, rfl⟩⟩
  · exact ⟨hlimit, hbans⟩
  · obtain ⟨-, -, rfl⟩ := ban_eq_ok.1 hban
    exact ⟨hlimit, length_bansAfter_le hbans⟩
  · simpa using ⟨hlimit, hbans⟩

theorem scattered_bounded : ∃ book, scattered.foldlM apply (new Sample.network 1 2) = .ok book ∧
    book.byAddr.length ≤ 2 := by
  obtain ⟨book, hbook, -⟩ : ∃ book ∈ (scattered.foldlM apply (new Sample.network 1 2)).toOption, True := by
    decide +kernel
  have hrun := Outcome.toOption_eq_some.1 hbook
  have hbounded := address_book_bounded _ _ _ hrun
  exact ⟨book, hrun, hbounded.2.1 ▸ hbounded.1.length_le⟩

theorem scattered_clean_ban : ∃ book,
    (scattered ++ [misbehave (peerAt 2 18233)]).foldlM apply (new Sample.network 1 5) = .ok book ∧ NoBanned book :=
  bans_total_and_complete _ _ _ _ (by decide +kernel)

end Zebra.Properties
