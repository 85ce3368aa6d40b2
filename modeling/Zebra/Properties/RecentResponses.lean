import Zebra.Ledger.AddressBook
import Zebra.Properties.Sample

namespace Zebra.Properties

open Lib Std AddressBook ExtTreeMap KeyedMap

def Answered (m : MetaAddr) : Prop := m.lastConnectionState = .responded ∨ m.lastResponse.isSome = true

instance (m : MetaAddr) : Decidable (Answered m) := inferInstanceAs (Decidable (_ ∨ _))

/-- The cache has a response of the IP address that is not older. -/
def Covered (mostRecent : KeyedMap IpAddr MetaAddr) (m : MetaAddr) : Prop :=
  ∃ c, mostRecent[m.addr.ip]? = some c ∧ (compare m.lastResponse c.lastResponse).isLE = true

/-- The cache covers every peer that answered, and its own peers are in the book. -/
def CacheCovers (peers : List MetaAddr) (mostRecent : KeyedMap IpAddr MetaAddr) : Prop :=
  (∀ m ∈ peers, Answered m → Covered mostRecent m) ∧
    ∀ (ip : IpAddr) (c : MetaAddr), mostRecent[ip]? = some c → c.addr.ip = ip ∧ ∃ m ∈ peers, m.addr = c.addr

/-- A ban finds all peers of its address. If a new address comes into a full book, a response is the
first one of its IP address, and the last peer is not in the cache while another peer of its IP
address answered. -/
def KeepsCache (book : AddressBook) (i : BookInput) : Prop :=
  i.change.addr.ip ∉ book.bansByIp.map Prod.fst →
    (maxPeerMisbehaviorScore ≤ book.scoreAfter i.change → Adjacent i.change.addr.ip book.byAddr) ∧
      ((∀ p ∈ book.byAddr, p.addr ≠ i.change.addr) → book.addrLimit ≤ book.byAddr.length →
        (i.change.peerAddrState = .responded → (book.mostRecentByIp.bind fun cache => cache[i.change.addr.ip]?) = none) ∧
          ∀ last ∈ book.byAddr.getLast?, book.shouldRemoveMostRecentByIp last.addr = true →
            ∀ m ∈ book.byAddr, m.addr.ip = last.addr.ip → m.addr ≠ last.addr → ¬ Answered m)

instance (book : AddressBook) (i : BookInput) : Decidable (KeepsCache book i) := inferInstanceAs (Decidable (_ → _))

variable {addr : PeerSocketAddr} {change : MetaAddrChange} {instantNow : Instant} {now : DateTime32} {c : MetaAddr}

section cache

variable {peers : List MetaAddr} {mostRecent : KeyedMap IpAddr MetaAddr} {book : AddressBook} {m updated : MetaAddr}

theorem shouldRemove_iff (hcache : book.mostRecentByIp = some mostRecent) :
    book.shouldRemoveMostRecentByIp addr = true ↔ ∃ c, mostRecent[addr.ip]? = some c ∧ c.addr = addr := by
  rw [shouldRemoveMostRecentByIp, hcache]
  simp [Option.any_eq_true]

section

variable (h : (change.applyToMetaAddr (book.get change.addr) instantNow now : Exec Empty _) = .ok (some updated))
include h

theorem lastResponse_of_apply
    (hstate : updated.lastConnectionState ≠ .responded) (hsome : updated.lastResponse.isSome = true) :
    ∃ p ∈ book.byAddr, p.addr = updated.addr ∧ p.lastResponse = updated.lastResponse := by
  have hresponse : change.lastResponse now = none := by
    rw [MetaAddrChange.state_of_apply h] at hstate
    cases change <;> first | rfl | exact absurd rfl hstate
  have haddr := MetaAddrChange.addr_of_apply h
  rcases MetaAddrChange.applyToMetaAddr_eq_some h with ⟨-, rfl⟩ | ⟨p, hp, hpaddr, -, rfl⟩
  · rw [MetaAddrChange.intoNewMetaAddr, hresponse] at hsome
    cases hsome
  · refine ⟨p, (mem_of_get hp).1, hpaddr.trans haddr.symm, ?_⟩
    rw [MetaAddrChange.updatedMetaAddr] at hsome ⊢
    split at hsome
    · cases hsome
    · rename_i hnever
      rw [if_neg hnever, hresponse]
      rfl

theorem not_answered_of_new
    (hnew : ∀ p ∈ book.byAddr, p.addr ≠ updated.addr) (hstate : updated.lastConnectionState ≠ .responded) :
    ¬ Answered updated := by
  rintro (hresponded | hsome)
  · exact hstate hresponded
  · obtain ⟨p, hp, haddr, -⟩ := lastResponse_of_apply h hstate hsome
    exact hnew p hp haddr

end

theorem shouldUpdate_iff (hcache : book.mostRecentByIp = some mostRecent) :
    book.shouldUpdateMostRecentByIp updated = true ↔ updated.lastConnectionState = .responded ∧
      ∀ c, mostRecent[updated.addr.ip]? = some c → compare updated.lastResponse c.lastResponse = .gt := by
  rw [shouldUpdateMostRecentByIp, hcache]
  dsimp only
  cases mostRecent[updated.addr.ip]? <;> simp

theorem exists_mem_insertPeer (h : ∃ m ∈ peers, m.addr = addr) : ∃ m ∈ insertPeer updated peers, m.addr = addr:= by
  obtain ⟨m, hm, rfl⟩ := h
  by_cases haddr : m.addr = updated.addr
  · exact ⟨updated, mem_insertPeer.2 (.inl rfl), haddr.symm⟩
  · exact ⟨m, mem_insertPeer.2 (.inr ⟨hm, haddr⟩), rfl⟩

section

variable (h : CacheCovers peers mostRecent)
include h

theorem CacheCovers.insert
    (hgt : ∀ c, mostRecent[updated.addr.ip]? = some c → compare updated.lastResponse c.lastResponse = .gt) :
    CacheCovers (insertPeer updated peers) (mostRecent.insert updated.addr.ip updated) := by
  refine ⟨fun m hm hanswered => ?_, fun ip c hc => ?_⟩
  · rcases mem_insertPeer.1 hm with rfl | ⟨hm, -⟩
    · exact ⟨m, getElem?_insert_self, ReflCmp.isLE_rfl⟩
    · obtain ⟨c, hc, hle⟩ := h.1 m hm hanswered
      by_cases hip : updated.addr.ip = m.addr.ip
      · rw [← hip] at hc
        have hswap : compare c.lastResponse updated.lastResponse = (compare updated.lastResponse c.lastResponse).swap :=
          OrientedCmp.eq_swap
        refine ⟨updated, by rw [← hip]; exact getElem?_insert_self, TransCmp.isLE_trans hle ?_⟩
        rw [hswap, hgt c hc]
        rfl
      · exact ⟨c, by rwa [getElem?_insert_of_ne hip], hle⟩
  · by_cases hip : updated.addr.ip = ip
    · subst hip
      rw [getElem?_insert_self] at hc
      cases hc
      exact ⟨rfl, updated, mem_insertPeer.2 (.inl rfl), rfl⟩
    · rw [getElem?_insert_of_ne hip] at hc
      exact ⟨(h.2 ip c hc).1, exists_mem_insertPeer (h.2 ip c hc).2⟩

theorem CacheCovers.insertPeer (hupdated : Answered updated → Covered mostRecent updated) :
    CacheCovers (insertPeer updated peers) mostRecent := by
  refine ⟨fun m hm hanswered => ?_, fun ip c hc => ⟨(h.2 ip c hc).1, exists_mem_insertPeer (h.2 ip c hc).2⟩⟩
  rcases mem_insertPeer.1 hm with rfl | ⟨hm, -⟩
  · exact hupdated hanswered
  · exact h.1 m hm hanswered

theorem CacheCovers.removeAddr_erase
    (hothers : ∀ m ∈ peers, m.addr.ip = addr.ip → m.addr ≠ addr → ¬ Answered m) :
    CacheCovers (removeAddr addr peers) (mostRecent.erase addr.ip) := by
  refine ⟨fun m hm hanswered => ?_, fun ip c hc => ?_⟩
  · obtain ⟨hm, haddr⟩ := mem_removeAddr.1 hm
    obtain ⟨c, hc, hle⟩ := h.1 m hm hanswered
    have hip : addr.ip ≠ m.addr.ip := fun hip => hothers m hm hip.symm haddr hanswered
    exact ⟨c, by rwa [getElem?_erase_of_ne hip], hle⟩
  · obtain ⟨hne, hc⟩ := mem_cache_erase rfl hc
    obtain ⟨hip, m, hm, haddr⟩ := h.2 ip c hc
    refine ⟨hip, m, mem_removeAddr.2 ⟨hm, fun heq => hne ?_⟩, haddr⟩
    rw [← heq, haddr, hip]

theorem CacheCovers.removeAddr
    (hnot : ∀ c, mostRecent[addr.ip]? = some c → c.addr ≠ addr) : CacheCovers (removeAddr addr peers) mostRecent := by
  refine ⟨fun m hm => h.1 m (mem_removeAddr.1 hm).1, fun ip c hc => ?_⟩
  obtain ⟨rfl, m, hm, haddr⟩ := h.2 ip c hc
  refine ⟨rfl, m, mem_removeAddr.2 ⟨hm, fun heq => ?_⟩, haddr⟩
  have hcaddr : c.addr = addr := haddr.symm.trans heq
  rw [hcaddr] at hc
  exact hnot c hc hcaddr

end

end cache

section step

variable {book book' : AddressBook} {mostRecent : KeyedMap IpAddr MetaAddr} {updated : MetaAddr} {i : BookInput}

theorem CacheCovers.cacheUpdated (h : CacheCovers book.byAddr mostRecent) (hcache : book.mostRecentByIp = some mostRecent)
    (happlied : book.Applies i updated) : ∃ mostRecent', book.cacheUpdated updated = some mostRecent' ∧
      CacheCovers (AddressBook.insertPeer updated book.byAddr) mostRecent' ∧ (mostRecent' = mostRecent ∨
        updated.lastConnectionState = .responded ∧ mostRecent' = mostRecent.insert updated.addr.ip updated) := by
  rw [AddressBook.cacheUpdated, hcache]
  split
  · rename_i hupdate
    obtain ⟨hstate, hgt⟩ := (shouldUpdate_iff hcache).1 hupdate
    exact ⟨_, rfl, h.insert hgt, .inr ⟨hstate, rfl⟩⟩
  · rename_i hupdate
    refine ⟨mostRecent, rfl, h.insertPeer fun hanswered => ?_, .inl rfl⟩
    by_cases hstate : updated.lastConnectionState = .responded
    · have hexists : ∃ c, mostRecent[updated.addr.ip]? = some c ∧ compare updated.lastResponse c.lastResponse ≠ .gt := by
        by_contra hnone
        exact hupdate ((shouldUpdate_iff hcache).2 ⟨hstate, fun c hc => not_not.1 fun hne => hnone ⟨c, hc, hne⟩⟩)
      obtain ⟨c, hc, hne⟩ := hexists
      exact ⟨c, hc, Ordering.isLE_iff_ne_gt.2 hne⟩
    · obtain ⟨p, hp, haddr, hresponse⟩ := lastResponse_of_apply happlied hstate (hanswered.resolve_left hstate)
      have hcovered := h.1 p hp (.inr (by rw [hresponse]; exact hanswered.resolve_left hstate))
      rwa [Covered, haddr, hresponse] at hcovered

section

variable (hw : book.WellFormed) (h : CacheCovers book.byAddr mostRecent) (hcache : book.mostRecentByIp = some mostRecent)
  (hkeeps : KeepsCache book i) (hbans : i.change.addr.ip ∉ book.bansByIp.map Prod.fst) (happlied : book.Applies i updated)
include hw h hcache hkeeps hbans happlied

theorem surplus_others {mostRecent' : KeyedMap IpAddr MetaAddr} (hupdated : mostRecent' = mostRecent ∨
      updated.lastConnectionState = .responded ∧ mostRecent' = mostRecent.insert updated.addr.ip updated)
    {surplus : MetaAddr} (hsurplus : book.surplusPeer updated = some surplus)
    (hc : mostRecent'[surplus.addr.ip]? = some c) (hcaddr : c.addr = surplus.addr) :
    ∀ m ∈ insertPeer updated book.byAddr, m.addr.ip = surplus.addr.ip → m.addr ≠ surplus.addr → ¬ Answered m := by
  have haddr := MetaAddrChange.addr_of_apply happlied
  have hstate := MetaAddrChange.state_of_apply happlied
  obtain ⟨hnew, hfull, hwhich⟩ := surplusPeer_cases hw hsurplus
  obtain ⟨hfirst, hlast⟩ := (hkeeps hbans).2 (by rwa [← haddr]) hfull
  rw [← hstate, ← haddr, hcache] at hfirst
  intro m hm hip hne hanswered
  rcases hwhich with rfl | hwhich
  · obtain ⟨hm, -⟩ := (mem_insertPeer.1 hm).resolve_left fun heq => hne (heq ▸ rfl)
    rcases hupdated with rfl | ⟨hresponded, rfl⟩
    · obtain ⟨-, p, hp, hpaddr⟩ := h.2 _ c hc
      exact hnew p hp (hpaddr.trans hcaddr)
    · obtain ⟨c', hc', -⟩ := h.1 m hm hanswered
      rw [hip] at hc'
      exact absurd (hc'.symm.trans (hfirst hresponded)) (by simp)
  · have hmem : surplus ∈ book.byAddr := List.mem_of_getLast? hwhich
    have hcached : mostRecent[surplus.addr.ip]? = some c := by
      rcases hupdated with rfl | ⟨-, rfl⟩
      · exact hc
      · by_cases hsame : updated.addr.ip = surplus.addr.ip
        · rw [← hsame, getElem?_insert_self] at hc
          cases hc
          exact absurd hcaddr.symm (hnew surplus hmem)
        · rwa [getElem?_insert_of_ne hsame] at hc
    rcases mem_insertPeer.1 hm with rfl | ⟨hm, -⟩
    · refine not_answered_of_new happlied hnew (fun hresponded => ?_) hanswered
      rw [← hip] at hcached
      exact absurd (hcached.symm.trans (hfirst hresponded)) (by simp)
    · exact hlast surplus hwhich ((shouldRemove_iff hcache).2 ⟨c, hcached, hcaddr⟩) m hm hip hne hanswered

theorem CacheCovers.limited : ∃ mostRecent', (book.limited updated).mostRecentByIp = some mostRecent' ∧
      CacheCovers (book.limited updated).byAddr mostRecent' := by
  obtain ⟨mostRecent', hcache', hcovers, hupdated⟩ := h.cacheUpdated hcache happlied
  rw [AddressBook.limited]
  cases hsurplus : book.surplusPeer updated with
  | none => exact ⟨mostRecent', hcache', hcovers⟩
  | some surplus =>
    have hinserted : (book.inserted updated).mostRecentByIp = some mostRecent' := hcache'
    change ∃ cache, (book.inserted updated).cacheRemoved surplus.addr = some cache ∧
      CacheCovers (AddressBook.removeAddr surplus.addr (AddressBook.insertPeer updated book.byAddr)) cache
    rw [cacheRemoved, hinserted]
    split
    · rename_i hremove
      obtain ⟨c, hc, hcaddr⟩ := (shouldRemove_iff hinserted).1 hremove
      exact ⟨_, rfl, hcovers.removeAddr_erase
        (surplus_others hw h hcache hkeeps hbans happlied hupdated hsurplus hc hcaddr)⟩
    · rename_i hremove
      exact ⟨_, rfl, hcovers.removeAddr fun c hc hcaddr => hremove ((shouldRemove_iff hinserted).2 ⟨c, hc, hcaddr⟩)⟩

end

theorem CacheCovers.ban {ip : IpAddr} (h : CacheCovers book.byAddr mostRecent) (hadjacent : Adjacent ip book.byAddr) :
    CacheCovers ((bannedAddrs ip book.byAddr).foldl (fun peers addr => AddressBook.removeAddr addr peers) book.byAddr)
      (mostRecent.erase ip) := by
  refine ⟨fun m hm hanswered => ?_, fun key c hc => ?_⟩
  · obtain ⟨hm, hnot⟩ := mem_foldl_removeAddr.1 hm
    obtain ⟨c, hc, hle⟩ := h.1 m hm hanswered
    have hne : ip ≠ m.addr.ip := fun hip => hnot (mem_bannedAddrs_of_adjacent hadjacent hm hip.symm)
    exact ⟨c, by rwa [getElem?_erase_of_ne hne], hle⟩
  · obtain ⟨hne, hc⟩ := mem_cache_erase rfl hc
    obtain ⟨hip, m, hm, haddr⟩ := h.2 key c hc
    refine ⟨hip, m, mem_foldl_removeAddr.2 ⟨hm, fun hmem => hne ?_⟩, haddr⟩
    rw [← ip_of_mem_bannedAddrs hmem, haddr, hip]

/-- There is a cache, and it covers the peers of the book. -/
def Covers (book : AddressBook) : Prop :=
  ∃ mostRecent, book.mostRecentByIp = some mostRecent ∧ CacheCovers book.byAddr mostRecent

theorem Covers.apply (hw : book.WellFormed) (hcovers : Covers book) (hkeeps : KeepsCache book i)
    (h : book.apply i = .ok book') : Covers book' := by
  obtain ⟨mostRecent, hcache, hcovers⟩ := hcovers
  obtain ⟨result, h⟩ := map_snd_eq_ok.1 h
  rcases update_cases hw h with ⟨-, rfl⟩ | ⟨updated, hbans, happlied, ⟨hscore, -, hban⟩ | ⟨-, -, -, rfl⟩⟩
  · exact ⟨mostRecent, hcache, hcovers⟩
  · rw [MetaAddrChange.score_of_apply happlied] at hscore
    rw [MetaAddrChange.addr_of_apply happlied] at hban
    obtain ⟨previous, hprevious, rfl⟩ := ban_eq_ok.1 hban
    obtain rfl := Option.some.inj (hcache.symm.trans hprevious)
    exact ⟨_, rfl, hcovers.ban ((hkeeps hbans).1 hscore)⟩
  · exact hcovers.limited hw hcache hkeeps hbans happlied

theorem Covers.new (network : Network) (addrLimit : Nat) : Covers (AddressBook.new network 1 addrLimit) := by
  refine ⟨∅, rfl, fun _ h _ => absurd h List.not_mem_nil, fun _ _ h => ?_⟩
  simp at h

theorem recentlyResponded_of_le {m : MetaAddr}
    (hle : (compare m.lastResponse c.lastResponse).isLE = true) (hm : m.hasConnectionRecentlyResponded now = true) :
    c.hasConnectionRecentlyResponded now = true := by
  obtain ⟨t, ht, hrecent⟩ := (Option.any_eq_true _ _).1 hm
  rw [ht] at hle
  cases hc : c.lastResponse with
  | none => rw [hc] at hle; cases hle
  | some t' =>
    rw [hc] at hle
    have htt : t ≤ t' := Nat.isLE_compare.1 hle
    rw [MetaAddr.hasConnectionRecentlyResponded, hc]
    simp only [Option.any_some, decide_eq_true_eq] at hrecent ⊢
    exact (Nat.sub_le_sub_left htt now).trans hrecent

theorem Covers.reconnectionPeers (hcovers : Covers book) {chronoNow : DateTime32} {peer m : MetaAddr}
    (hpeer : peer ∈ book.reconnectionPeers instantNow chronoNow) (hm : m ∈ book.byAddr) (hip : m.addr.ip = peer.addr.ip) :
    m.hasConnectionRecentlyResponded chronoNow = false := by
  obtain ⟨mostRecent, hcache, hcovers⟩ := hcovers
  obtain ⟨-, hready⟩ := List.mem_filter.1 hpeer
  rw [Bool.and_eq_true, isReadyForConnectionAttemptWithIp, hcache, ← hip] at hready
  by_contra hrecent
  rw [Bool.not_eq_false] at hrecent
  obtain ⟨t, ht, -⟩ := (Option.any_eq_true _ _).1 hrecent
  obtain ⟨c, hc, hle⟩ := hcovers.1 m hm (.inr (by rw [ht]; rfl))
  have hready := hready.2
  dsimp only at hready
  rw [hc] at hready
  simp [recentlyResponded_of_le hle hrecent] at hready

end step

/-- With one connection for each IP address, the cache has for each peer that responded a response of
its IP address that is not older, and no peer is ready while a peer of its IP address has recently
responded. -/
theorem one_recent_peer_per_ip (network : Network) (addrLimit : Nat) (inputs : List BookInput) (book : AddressBook)
    (hkeeps : EachInput KeepsCache (new network 1 addrLimit) inputs)
    (h : inputs.foldlM apply (new network 1 addrLimit) = .ok book) :
    (∃ mostRecent, book.mostRecentByIp = some mostRecent ∧ ∀ m ∈ book.byAddr, m.lastConnectionState = .responded →
      ∃ c, mostRecent[m.addr.ip]? = some c ∧ (compare m.lastResponse c.lastResponse).isLE = true) ∧
    ∀ instantNow chronoNow, ∀ peer ∈ book.reconnectionPeers instantNow chronoNow, ∀ m ∈ book.byAddr,
      m.addr.ip = peer.addr.ip → m.hasConnectionRecentlyResponded chronoNow = false := by
  have hinvariant : book.WellFormed ∧ Covers book :=
    Guarded.invariant (P := fun book => book.WellFormed ∧ Covers book)
      (fun _ _ _ hP hC hstep => ⟨hP.1.apply hstep, hP.2.apply hP.1 hC hstep⟩) hkeeps h ⟨.new .., .new ..⟩
  refine ⟨?_, fun _ _ _ hpeer _ hm hip => hinvariant.2.reconnectionPeers hpeer hm hip⟩
  obtain ⟨mostRecent, hcache, hcovers⟩ := hinvariant.2
  exact ⟨mostRecent, hcache, fun m hm hresponded => hcovers.1 m hm (.inl hresponded)⟩

def threePorts : List BookInput :=
  [⟨.updateConnected ⟨.v4 1, 18233⟩ 1 false, seconds 0, 1000⟩,
    ⟨.updateConnected ⟨.v4 1, 18234⟩ 1 false, seconds 1, 1001⟩,
    ⟨.newGossiped ⟨.v4 1, 18235⟩ 1 900, seconds 2, 1002⟩,
    ⟨.updateFailed ⟨.v4 1, 18234⟩ none, seconds 20, 1020⟩]

def otherPeer : BookInput := ⟨.newGossiped ⟨.v4 2, 18233⟩ 1 900, seconds 21, 1021⟩

/-- In a full book, the peer in the cache is removed for the new one. The third port is then ready,
although the first one responded twenty-two seconds ago. -/
theorem threePorts_evicted : (fun book => ((book.reconnectionPeers (seconds 22) 1022).map MetaAddr.addr,
        (book.byAddr.filter fun m => m.hasConnectionRecentlyResponded 1022).map MetaAddr.addr)) <$>
        (threePorts ++ [otherPeer]).foldlM apply (new Sample.network 1 3) =
      .ok ([⟨.v4 1, 18235⟩, ⟨.v4 2, 18233⟩], [⟨.v4 1, 18233⟩]) := by
  decide +kernel

theorem threePorts_kept : ∃ book, (threePorts ++ [otherPeer]).foldlM apply (new Sample.network 1 4) = .ok book ∧
    ∀ instantNow chronoNow, ∀ peer ∈ book.reconnectionPeers instantNow chronoNow, ∀ m ∈ book.byAddr,
      m.addr.ip = peer.addr.ip → m.hasConnectionRecentlyResponded chronoNow = false := by
  have hrun : (fun book => book.byAddr.length) <$> (threePorts ++ [otherPeer]).foldlM apply (new Sample.network 1 4) =
      .ok 4 := by decide +kernel
  obtain ⟨book, hbook, -⟩ := map_eq_ok.1 hrun
  exact ⟨book, hbook, (one_recent_peer_per_ip _ _ _ book (by decide +kernel) hbook).2⟩

end Zebra.Properties
