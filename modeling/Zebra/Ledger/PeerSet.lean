import Zebra.Peers.PeerSet

namespace Zebra.PeerSet

open Lib Std CancelChannels ExtTreeMap KeyedMap Outcome

variable {p p' p'' : PeerSet} {key : PeerSocketAddr} {svc : Version} {u : UnreadyService}

def Connected (p : PeerSet) (addr : PeerSocketAddr) : Prop :=
  p.readyServices[addr]?.isSome = true ∨ p.cancelHandles[addr]?.isSome = true

/-- The handles are those of the live unready services, and a ready service has none. -/
structure Sound (p : PeerSet) : Prop where
  linked : p.unreadyServices.Linked
  disjoint : ∀ addr : PeerSocketAddr, p.readyServices[addr]?.isSome = true → p.cancelHandles[addr]? = none

structure Within (p' p : PeerSet) : Prop where
  connected : ∀ addr, p'.Connected addr → p.Connected addr
  maxConns : p'.maxConnsPerIp = p.maxConnsPerIp

theorem Within.refl (p : PeerSet) : Within p p := ⟨fun _ h => h, rfl⟩

theorem Within.trans (h : Within p'' p') (h' : Within p' p) : Within p'' p :=
  ⟨fun addr hc => h'.connected addr (h.connected addr hc), h.maxConns.trans h'.maxConns⟩

variable {addr : PeerSocketAddr} {m : KeyedMap PeerSocketAddr Nat}

theorem mem_peerSetAddresses : addr ∈ p.peerSetAddresses ↔ p.Connected addr := by
  rw [peerSetAddresses, List.mem_append, mem_keys, mem_keys, Connected, mem_iff_isSome_getElem?,
    mem_iff_isSome_getElem?]

theorem Sound.nodup_addresses (h : p.Sound) : p.peerSetAddresses.Nodup := by
  rw [peerSetAddresses, List.nodup_append]
  refine ⟨nodup_keys, nodup_keys, fun a ha b hb => ?_⟩
  rintro rfl
  have hready := mem_iff_isSome_getElem?.1 (mem_keys.1 ha)
  have hhandle := mem_iff_isSome_getElem?.1 (mem_keys.1 hb)
  rw [h.disjoint a hready] at hhandle
  cases hhandle

theorem Sound.numPeersWithIp_le (h : p'.Sound) (hwithin : Within p' p) (ip : IpAddr) :
    p'.numPeersWithIp ip ≤ p.numPeersWithIp ip := by
  have hsubset : p'.peerSetAddresses ⊆ p.peerSetAddresses := fun addr haddr =>
    mem_peerSetAddresses.2 (hwithin.connected addr (mem_peerSetAddresses.1 haddr))
  exact (List.subperm_of_subset h.nodup_addresses hsubset).countP_le _

theorem isSome_of_erase (h : (m.erase key)[addr]?.isSome = true) : key ≠ addr ∧ m[addr]?.isSome = true:= by
  by_cases hkey : key = addr
  · subst hkey
    rw [getElem?_erase_self] at h
    cases h
  · exact ⟨hkey, by rwa [getElem?_erase_of_ne hkey] at h⟩

theorem erase_eq_none (h : m[addr]? = none) : (m.erase key)[addr]? = none:= by
  by_contra hsome
  have hold := (isSome_of_erase (Option.isSome_iff_ne_none.2 hsome)).2
  rw [h] at hold
  cases hold

section removed

variable {q : CancelChannels PeerSocketAddr Version}

theorem Sound.dropHandle (h : p.Sound) (hq : q.Linked) (hhandles : q.cancelHandles = p.cancelHandles.erase key) :
    Sound { p with unreadyServices := q } ∧ Within { p with unreadyServices := q } p := by
  refine ⟨⟨hq, fun addr hready => ?_⟩, ⟨fun addr hconnected => ?_, rfl⟩⟩
  · change q.cancelHandles[addr]? = none
    rw [hhandles]
    exact erase_eq_none (h.disjoint addr hready)
  · refine hconnected.imp_right fun hhandle => ?_
    change q.cancelHandles[addr]?.isSome = true at hhandle
    rw [hhandles] at hhandle
    exact (isSome_of_erase hhandle).2

theorem Sound.moveReady (h : p.Sound) (hq : q.Linked) (hhandles : q.cancelHandles = p.cancelHandles.erase key)
    (hkey : p.cancelHandles[key]?.isSome = true) (svc : Version) :
    Sound { p with unreadyServices := q, readyServices := p.readyServices.insert key svc } ∧
      Within { p with unreadyServices := q, readyServices := p.readyServices.insert key svc } p := by
  refine ⟨⟨hq, fun addr hready => ?_⟩, ⟨fun addr hconnected => ?_, rfl⟩⟩
  · change q.cancelHandles[addr]? = none
    rw [hhandles]
    by_cases haddr : key = addr
    · subst haddr
      exact getElem?_erase_self
    · rw [getElem?_insert_of_ne haddr] at hready
      exact erase_eq_none (h.disjoint addr hready)
  · by_cases haddr : key = addr
    · subst haddr
      exact .inr hkey
    · rcases hconnected with hready | hhandle
      · rw [getElem?_insert_of_ne haddr] at hready
        exact .inl hready
      · change q.cancelHandles[addr]?.isSome = true at hhandle
        rw [hhandles] at hhandle
        exact .inr (isSome_of_erase hhandle).2

end removed

/-- The unready service can end so: only a live one becomes ready or fails. -/
def CanEnd (p : PeerSet) (u : UnreadyService) : UnreadyResult → Prop
  | .ready | .inner => u ∈ p.unreadyServices.pending ∧ u.signal = none
  | .canceled => u ∈ p.unreadyServices.pending ∧ u.signal = some .sent
  | .cancelHandleDropped => u ∈ p.unreadyServices.pending ∧ u.signal = some .dropped

instance (p : PeerSet) (u : UnreadyService) (result : UnreadyResult) : Decidable (p.CanEnd u result) := by
  cases result <;> exact inferInstanceAs (Decidable (_ ∧ _))

theorem Sound.finish_signalled (h : p.Sound) (hsignal : u.signal.isSome = true) :
    Sound { p with unreadyServices := p.unreadyServices.finish u } ∧
      Within { p with unreadyServices := p.unreadyServices.finish u } p :=
  ⟨⟨h.linked.finish hsignal, h.disjoint⟩, ⟨fun _ hc => hc, rfl⟩⟩

theorem Sound.pollUnready {result : UnreadyResult} (h : p.Sound) (hend : p.CanEnd u result) :
    ∃ p', p.pollUnready u result = .ok p' ∧ p'.Sound ∧ Within p' p := by
  cases result with
  | canceled => exact ⟨_, rfl, h.finish_signalled (by rw [hend.2]; rfl)⟩
  | cancelHandleDropped => exact ⟨_, rfl, h.finish_signalled (by rw [hend.2]; rfl)⟩
  | ready =>
    obtain ⟨hlinked, -, hhandles⟩ := h.linked.finish_removeHandle hend.1 hend.2 .dropped
    have hhandle : p.cancelHandles[u.key]?.isSome = true := h.linked.isSome_iff.2 ⟨u, hend.1, rfl, hend.2⟩
    have hcheck : ({ p with unreadyServices := p.unreadyServices.finish u } : PeerSet).cancelHandles[u.key]?.isSome = true :=
      hhandle
    rw [PeerSet.pollUnready]
    split
    · refine ⟨_, ?_, h.dropHandle hlinked hhandles⟩
      rw [check, if_pos hcheck, ok_bind]
      rfl
    · rw [pushReady, check, if_pos hcheck, ok_bind]
      dsimp only
      split
      · exact ⟨_, rfl, h.moveReady hlinked hhandles hhandle u.payload⟩
      · exact ⟨_, rfl, h.dropHandle hlinked hhandles⟩
  | inner =>
    obtain ⟨hlinked, -, hhandles⟩ := h.linked.finish_removeHandle hend.1 hend.2 .dropped
    have hcheck : ({ p with unreadyServices := p.unreadyServices.finish u } : PeerSet).cancelHandles[u.key]?.isSome = true :=
      h.linked.isSome_iff.2 ⟨u, hend.1, rfl, hend.2⟩
    refine ⟨_, ?_, h.dropHandle hlinked hhandles⟩
    rw [PeerSet.pollUnready]
    rw [check, if_pos hcheck, ok_bind]
    rfl

theorem Sound.takeReadyService (h : p.Sound) (hready : p.readyServices[key]? = some svc) :
    p.takeReadyService key = .ok (some svc, { p with readyServices := p.readyServices.erase key }) := by
  rw [PeerSet.takeReadyService, hready]
  dsimp only
  rw [check, if_pos (h.disjoint key (by rw [hready]; rfl)), ok_bind]
  rfl

theorem Sound.eraseReady (h : p.Sound) (key : PeerSocketAddr) :
    Sound { p with readyServices := p.readyServices.erase key } ∧
      Within { p with readyServices := p.readyServices.erase key } p :=
  ⟨⟨h.linked, fun addr hready => h.disjoint addr (isSome_of_erase hready).2⟩,
    ⟨fun _ hc => hc.imp_left fun hready => (isSome_of_erase hready).2, rfl⟩⟩

theorem Sound.pushUnready (h : p.Sound) (hready : p.readyServices[key]? = none) (hnone : p.cancelHandles[key]? = none)
    (svc : Version) :
    (p.pushUnready key svc).Sound ∧ (∀ addr, (p.pushUnready key svc).Connected addr → addr = key ∨ p.Connected addr) ∧
      (p.pushUnready key svc).maxConnsPerIp = p.maxConnsPerIp ∧
      (p.pushUnready key svc).readyServices = p.readyServices := by
  have hself : p.unreadyServices.removeHandle .dropped key = p.unreadyServices := by
    rw [removeHandle, hnone]
  rw [PeerSet.pushUnready]
  split
  · rw [hself]
    refine ⟨⟨h.linked.push hnone svc, fun addr haddr => ?_⟩, fun addr hc => ?_, rfl, rfl⟩
    · have hne : key ≠ addr := by
        rintro rfl
        rw [hready] at haddr
        cases haddr
      change (p.cancelHandles.insert key _)[addr]? = none
      rw [getElem?_insert_of_ne hne]
      exact h.disjoint addr haddr
    · by_cases hkey : key = addr
      · exact .inl hkey.symm
      · refine .inr (hc.imp_right fun hhandle => ?_)
        change (p.cancelHandles.insert key _)[addr]?.isSome = true at hhandle
        rwa [getElem?_insert_of_ne hkey] at hhandle
  · exact ⟨⟨h.linked.pushCancelled key svc, h.disjoint⟩, fun _ hc => .inr hc, rfl, rfl⟩

theorem Sound.sendOne (h : p.Sound) (hready : p.readyServices[key]?.isSome = true) :
    ∃ p', p.sendOne key = .ok p' ∧ p'.Sound ∧ Within p' p ∧ p'.readyServices = p.readyServices.erase key := by
  obtain ⟨svc, hsvc⟩ := Option.isSome_iff_exists.1 hready
  obtain ⟨hsound, hwithin⟩ := h.eraseReady key
  obtain ⟨hpushed, hconnected, hmax, hservices⟩ := hsound.pushUnready getElem?_erase_self (h.disjoint key hready) svc
  refine ⟨_, ?_, hpushed, ⟨fun addr hc => ?_, hmax⟩, hservices⟩
  · rw [PeerSet.sendOne, h.takeReadyService hsvc, ok_bind]
    rfl
  · rcases hconnected addr hc with rfl | hc
    · exact .inl hready
    · exact hwithin.connected addr hc

theorem Sound.sendMultiple {peers : List PeerSocketAddr} (h : p.Sound) (hnodup : peers.Nodup)
    (hready : ∀ addr ∈ peers, p.readyServices[addr]?.isSome = true) :
    ∃ p', p.sendMultiple peers = .ok p' ∧ p'.Sound ∧ Within p' p := by
  induction peers generalizing p with
  | nil => exact ⟨p, rfl, h, .refl p⟩
  | cons key peers ih =>
    obtain ⟨hkey, hnodup⟩ := List.nodup_cons.1 hnodup
    obtain ⟨q, hq, hsound, hwithin, hservices⟩ := h.sendOne (hready key List.mem_cons_self)
    obtain ⟨p', hp', hsound', hwithin'⟩ := ih hsound hnodup fun addr haddr => by
      have hne : key ≠ addr := fun heq => hkey (heq ▸ haddr)
      rw [hservices, getElem?_erase_of_ne hne]
      exact hready addr (List.mem_cons_of_mem _ haddr)
    refine ⟨p', ?_, hsound', hwithin'.trans hwithin⟩
    rw [PeerSet.sendMultiple, List.foldlM_cons, hq, ok_bind]
    exact hp'

theorem removeHandle_eq_self {c : CancelChannels PeerSocketAddr Version} (h : c.cancelHandles[key]? = none)
    (signal : CancelSignal) : c.removeHandle signal key = c := by
  rw [removeHandle, h]

theorem Sound.remove (h : p.Sound) (key : PeerSocketAddr) : ∃ p', p.remove key = .ok p' ∧ p'.Sound ∧ Within p' p := by
  rw [PeerSet.remove]
  cases hready : p.readyServices[key]? with
  | some svc =>
    rw [h.takeReadyService hready, ok_bind]
    exact ⟨_, rfl, h.eraseReady key⟩
  | none =>
    have htake : p.takeReadyService key = .ok (none, p) := by
      rw [PeerSet.takeReadyService, hready]
      rfl
    rw [htake, ok_bind]
    refine ⟨_, rfl, ?_⟩
    cases hhandle : p.cancelHandles[key]? with
    | none =>
      rw [removeHandle_eq_self hhandle]
      exact ⟨h, .refl p⟩
    | some channel =>
      have hhandles : (p.unreadyServices.removeHandle .sent key).cancelHandles = p.cancelHandles.erase key := by
        rw [removeHandle, hhandle]
      exact h.dropHandle (h.linked.removeHandle .sent key) hhandles

theorem Sound.checkReadyPeer {ready : PeerSocketAddr × Version} (h : p.Sound) (hnone : p.cancelHandles[ready.1]? = none)
    (fails : PeerSocketAddr → Bool) :
    ∃ p', p.checkReadyPeer fails ready = .ok p' ∧ p'.Sound ∧ p'.unreadyServices = p.unreadyServices ∧
      p'.maxConnsPerIp = p.maxConnsPerIp ∧ ∀ addr, p'.Connected addr → addr = ready.1 ∨ p.Connected addr := by
  have hcheck : p.cancelHandles[ready.1]?.isSome = false := by rw [hnone]; rfl
  rw [PeerSet.checkReadyPeer]
  split
  · exact ⟨p, rfl, h, rfl, rfl, fun _ hc => .inr hc⟩
  split
  · exact ⟨p, rfl, h, rfl, rfl, fun _ hc => .inr hc⟩
  rw [pushReady, check, if_pos hcheck, ok_bind]
  dsimp only
  rw [removeHandle_eq_self hnone]
  split
  · refine ⟨_, rfl, ⟨h.linked, fun addr haddr => ?_⟩, rfl, rfl, fun addr hc => ?_⟩
    · by_cases hkey : ready.1 = addr
      · exact hkey ▸ hnone
      · refine h.disjoint addr ?_
        rwa [getElem?_insert_of_ne hkey] at haddr
    · by_cases hkey : ready.1 = addr
      · exact .inl hkey.symm
      · refine .inr (hc.imp_left fun hready => ?_)
        rwa [getElem?_insert_of_ne hkey] at hready
  · exact ⟨p, rfl, h, rfl, rfl, fun _ hc => .inr hc⟩

theorem Sound.checkReadyPeers {services : List (PeerSocketAddr × Version)} (h : p.Sound)
    (hnone : ∀ ready ∈ services, p.cancelHandles[ready.1]? = none) (fails : PeerSocketAddr → Bool) :
    ∃ p', services.foldlM (fun p ready => p.checkReadyPeer fails ready) p = .ok p' ∧ p'.Sound ∧
      p'.maxConnsPerIp = p.maxConnsPerIp ∧
      ∀ addr, p'.Connected addr → (∃ ready ∈ services, addr = ready.1) ∨ p.Connected addr := by
  induction services generalizing p with
  | nil => exact ⟨p, rfl, h, rfl, fun _ hc => .inr hc⟩
  | cons ready services ih =>
    obtain ⟨q, hq, hsound, hunready, hmax, hconnected⟩ := h.checkReadyPeer (hnone ready List.mem_cons_self) fails
    obtain ⟨p', hp', hsound', hmax', hconnected'⟩ := ih hsound fun other hother => by
      rw [cancelHandles, hunready]
      exact hnone other (List.mem_cons_of_mem _ hother)
    refine ⟨p', ?_, hsound', hmax'.trans hmax, fun addr hc => ?_⟩
    · rw [List.foldlM_cons, hq, ok_bind]
      exact hp'
    · rcases hconnected' addr hc with ⟨other, hother, haddr⟩ | hc
      · exact .inl ⟨other, List.mem_cons_of_mem _ hother, haddr⟩
      · exact (hconnected addr hc).imp_left fun haddr => ⟨ready, List.mem_cons_self, haddr⟩

theorem Sound.pollReadyPeerErrors (h : p.Sound) (fails : PeerSocketAddr → Bool) :
    ∃ p', p.pollReadyPeerErrors fails = .ok p' ∧ p'.Sound ∧ Within p' p := by
  have hempty : Sound { p with readyServices := ∅ } := ⟨h.linked, fun addr haddr => by simp at haddr⟩
  have hready : ∀ ready ∈ p.readyServices.toList, p.readyServices[ready.1]?.isSome = true := fun ready hmem => by
    rw [mem_toList_iff_getElem?_eq_some.1 hmem]
    rfl
  obtain ⟨p', hp', hsound, hmax, hconnected⟩ :=
    hempty.checkReadyPeers (fun ready hmem => h.disjoint ready.1 (hready ready hmem)) fails
  refine ⟨p', hp', hsound, fun addr hc => ?_, hmax⟩
  rcases hconnected addr hc with ⟨ready, hmem, rfl⟩ | hc
  · exact .inl (hready ready hmem)
  · exact hc.elim (fun hc => by simp at hc) .inr

theorem Sound.disconnectFromOutdatedPeers (h : p.Sound) :
    p.disconnectFromOutdatedPeers.Sound ∧ Within p.disconnectFromOutdatedPeers p := by
  have hkept : ∀ addr : PeerSocketAddr, p.disconnectFromOutdatedPeers.readyServices[addr]?.isSome = true →
      p.readyServices[addr]?.isSome = true := fun addr haddr => by
    rw [PeerSet.disconnectFromOutdatedPeers, getElem?_filter] at haddr
    exact Option.isSome_of_isSome_pfilter haddr
  exact ⟨⟨h.linked, fun addr haddr => h.disjoint addr (hkept addr haddr)⟩, fun addr hc => hc.imp_left (hkept addr), rfl⟩

theorem shutDown_sound (p : PeerSet) : p.shutDown.Sound ∧ Within p.shutDown p := by
  have hready : ∀ addr : PeerSocketAddr, p.shutDown.readyServices[addr]? = none := fun _ => getElem?_empty
  have hhandle : ∀ addr : PeerSocketAddr, p.shutDown.cancelHandles[addr]? = none := fun _ => getElem?_empty
  refine ⟨⟨⟨List.nodup_nil, nofun, fun key channel => ?_⟩, fun addr _ => hhandle addr⟩,
    fun addr hc => ?_, rfl⟩
  · rw [hhandle key]
    exact ⟨fun h => (nomatch h), fun ⟨_, h, _⟩ => nomatch h⟩
  · rw [Connected, hready addr, hhandle addr] at hc
    exact hc.elim (fun h => (nomatch h)) fun h => (nomatch h)

theorem isSome_of_mem_keys {m : KeyedMap PeerSocketAddr Version} (h : addr ∈ m.keys) : m[addr]?.isSome = true:= mem_iff_isSome_getElem?.1 (mem_keys.1 h)

theorem Sound.queue (h : p.Sound) (queue : Option (List PeerSocketAddr)) :
    Sound { p with queuedBroadcastAll := queue } ∧ Within { p with queuedBroadcastAll := queue } p :=
  ⟨⟨h.linked, h.disjoint⟩, ⟨fun _ hc => hc, rfl⟩⟩

theorem Sound.broadcastAll (h : p.Sound) : ∃ p', p.broadcastAll = .ok p' ∧ p'.Sound ∧ Within p' p := by
  obtain ⟨q, hq, hsound, hwithin⟩ := h.sendMultiple nodup_keys fun _ haddr => isSome_of_mem_keys haddr
  rw [PeerSet.broadcastAll, hq, ok_bind]
  split
  · exact ⟨q, rfl, hsound, hwithin⟩
  · obtain ⟨hsound', hwithin'⟩ := hsound.queue (some q.cancelHandles.keys)
    exact ⟨_, rfl, hsound', hwithin'.trans hwithin⟩

theorem Sound.broadcastAllQueued (h : p.Sound) (slot : Bool) :
    ∃ p', p.broadcastAllQueued slot = .ok p' ∧ p'.Sound ∧ Within p' p := by
  rw [PeerSet.broadcastAllQueued]
  split
  · exact ⟨p, rfl, h, .refl p⟩
  dsimp only
  split
  · obtain ⟨hclear, hwithin⟩ := h.queue none
    obtain ⟨q, hq, hsound, hwithin'⟩ := hclear.sendMultiple (nodup_keys.filter _) fun _ haddr =>
      isSome_of_mem_keys (List.mem_filter.1 haddr).1
    rw [hq, ok_bind]
    split
    · exact ⟨q, rfl, hsound, hwithin'.trans hwithin⟩
    · obtain ⟨hsound', hwithin''⟩ := hsound.queue (some _)
      exact ⟨_, rfl, hsound', hwithin''.trans (hwithin'.trans hwithin)⟩
  · exact ⟨_, rfl, h.queue _⟩

theorem Sound.numPeersWithIp_pushUnready (h : p.Sound) (hready : p.readyServices[key]? = none)
    (hnone : p.cancelHandles[key]? = none) (svc : Version) (ip : IpAddr) :
    (p.pushUnready key svc).numPeersWithIp ip ≤ p.numPeersWithIp ip + if key.ip = ip then 1 else 0 := by
  obtain ⟨hsound, hconnected, -, -⟩ := h.pushUnready hready hnone svc
  have hsubset : (p.pushUnready key svc).peerSetAddresses ⊆ key :: p.peerSetAddresses := fun addr haddr => by
    rcases hconnected addr (mem_peerSetAddresses.1 haddr) with rfl | hc
    · exact List.mem_cons_self
    · exact List.mem_cons_of_mem _ (mem_peerSetAddresses.2 hc)
  have hle := (List.subperm_of_subset hsound.nodup_addresses hsubset).countP_le fun addr => decide (addr.ip = ip)
  rw [List.countP_cons] at hle
  simpa only [numPeersWithIp, decide_eq_true_eq] using hle

theorem Sound.discover (h : p.Sound) (key : PeerSocketAddr) (svc : Version) :
    (p.discover key svc).Sound ∧ (p.discover key svc).maxConnsPerIp = p.maxConnsPerIp ∧
      ∀ ip, p.numPeersWithIp ip ≤ p.maxConnsPerIp → (p.discover key svc).numPeersWithIp ip ≤ p.maxConnsPerIp := by
  rw [PeerSet.discover]
  split
  · exact ⟨h, rfl, fun _ hle => hle⟩
  rename_i hnew
  split
  · exact ⟨h, rfl, fun _ hle => hle⟩
  rename_i hroom
  obtain ⟨hready, hnone⟩ : p.readyServices[key]? = none ∧ p.cancelHandles[key]? = none := by
    rwa [hasPeerWithAddr, Bool.not_eq_true, Bool.or_eq_false_iff, Option.isSome_eq_false_iff, Option.isNone_iff_eq_none,
      Option.isSome_eq_false_iff, Option.isNone_iff_eq_none] at hnew
  obtain ⟨hsound, -, hmax, -⟩ := h.pushUnready hready hnone svc
  refine ⟨hsound, hmax, fun ip hle => (h.numPeersWithIp_pushUnready hready hnone svc ip).trans ?_⟩
  split
  · rename_i hip
    subst hip
    exact Nat.succ_le_of_lt (Nat.lt_of_not_le hroom)
  · exact hle

end Zebra.PeerSet
