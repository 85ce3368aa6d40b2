import Zebra.Ledger.PeerSet

namespace Zebra.Properties

open Lib Std

/-- What can happen to the peer set between two polls. A request is sent to the selected `peers`. -/
inductive PeerSetEvent where
  | discover (key : PeerSocketAddr) (svc : Version)
  | remove (key : PeerSocketAddr)
  | unready (u : UnreadyService) (result : UnreadyResult)
  | readyErrors (fails : PeerSocketAddr → Bool)
  | bans (ips : List IpAddr)
  | minimumVersion (version : Version)
  | disconnectOutdated
  | send (peers : List PeerSocketAddr)
  | broadcastAll
  | broadcastQueued (slot : Bool)
  | shutDown

/-- The selected peers are distinct and ready. -/
def CanSelect (p : PeerSet) (peers : List PeerSocketAddr) : Prop :=
  peers.Nodup ∧ ∀ addr ∈ peers, p.readyServices[addr]?.isSome = true

instance (p : PeerSet) (peers : List PeerSocketAddr) : Decidable (CanSelect p peers) :=
  inferInstanceAs (Decidable (_ ∧ _))

/-- An end of an unready service or a selection that cannot be is no event. -/
def peerSetStep (p : PeerSet) : PeerSetEvent → PeerSet.Step
  | .discover key svc => .ok (p.discover key svc)
  | .remove key => p.remove key
  | .unready u result => if p.CanEnd u result then p.pollUnready u result else .ok p
  | .readyErrors fails => p.pollReadyPeerErrors fails
  | .bans ips => .ok { p with bans := ips }
  | .minimumVersion version => .ok { p with minimumPeerVersion := version }
  | .disconnectOutdated => .ok p.disconnectFromOutdatedPeers
  | .send peers => if CanSelect p peers then p.sendMultiple peers else .ok p
  | .broadcastAll => p.broadcastAll
  | .broadcastQueued slot => p.broadcastAllQueued slot
  | .shutDown => .ok p.shutDown

structure Bookkept (p : PeerSet) (maxConnsPerIp : Nat) : Prop where
  sound : p.Sound
  maxConns : p.maxConnsPerIp = maxConnsPerIp
  bounded : ∀ ip, p.numPeersWithIp ip ≤ maxConnsPerIp

variable {p p' : PeerSet} {maxConnsPerIp : Nat}

theorem bookkept_new (maxConnsPerIp : Nat) (version : Version) : Bookkept (.new maxConnsPerIp version) maxConnsPerIp where
  sound := ⟨CancelChannels.linked_empty, fun _ _ => ExtTreeMap.getElem?_empty⟩
  maxConns := rfl
  bounded := fun ip => by
    have hnone : (PeerSet.new maxConnsPerIp version).peerSetAddresses = [] := by
      rw [List.eq_nil_iff_forall_not_mem]
      intro addr haddr
      rw [PeerSet.mem_peerSetAddresses, PeerSet.Connected] at haddr
      simp [PeerSet.new, PeerSet.cancelHandles, CancelChannels.empty] at haddr
    rw [PeerSet.numPeersWithIp, hnone]
    exact Nat.zero_le _

section

variable (h : Bookkept p maxConnsPerIp)
include h

theorem Bookkept.within (hsound : p'.Sound) (hwithin : PeerSet.Within p' p) :
    Bookkept p' maxConnsPerIp where
  sound := hsound
  maxConns := hwithin.maxConns.trans h.maxConns
  bounded := fun ip => (hsound.numPeersWithIp_le hwithin ip).trans (h.bounded ip)

theorem Bookkept.of_exists {run : PeerSet.Step}
    (hrun : ∃ p', run = .ok p' ∧ p'.Sound ∧ PeerSet.Within p' p) : ∃ p', run = .ok p' ∧ Bookkept p' maxConnsPerIp := by
  obtain ⟨p', hp', hsound, hwithin⟩ := hrun
  exact ⟨p', hp', h.within hsound hwithin⟩

theorem Bookkept.discover (key : PeerSocketAddr) (svc : Version) :
    Bookkept (p.discover key svc) maxConnsPerIp := by
  obtain ⟨hsound, hmax, hbound⟩ := h.sound.discover key svc
  refine ⟨hsound, hmax.trans h.maxConns, fun ip => ?_⟩
  rw [← h.maxConns]
  refine hbound ip ?_
  rw [h.maxConns]
  exact h.bounded ip

theorem Bookkept.step (e : PeerSetEvent) :
    ∃ p', peerSetStep p e = .ok p' ∧ Bookkept p' maxConnsPerIp := by
  cases e with
  | discover key svc => exact ⟨_, rfl, h.discover key svc⟩
  | remove key => exact h.of_exists (h.sound.remove key)
  | unready u result =>
    rw [peerSetStep]
    split
    · rename_i hend
      exact h.of_exists (h.sound.pollUnready hend)
    · exact ⟨p, rfl, h⟩
  | readyErrors fails => exact h.of_exists (h.sound.pollReadyPeerErrors fails)
  | bans ips => exact ⟨_, rfl, h.within ⟨h.sound.linked, h.sound.disjoint⟩ ⟨fun _ hc => hc, rfl⟩⟩
  | minimumVersion version => exact ⟨_, rfl, h.within ⟨h.sound.linked, h.sound.disjoint⟩ ⟨fun _ hc => hc, rfl⟩⟩
  | disconnectOutdated =>
    obtain ⟨hsound, hwithin⟩ := h.sound.disconnectFromOutdatedPeers
    exact ⟨_, rfl, h.within hsound hwithin⟩
  | send peers =>
    rw [peerSetStep]
    split
    · rename_i hselect
      exact h.of_exists (h.sound.sendMultiple hselect.1 hselect.2)
    · exact ⟨p, rfl, h⟩
  | broadcastAll => exact h.of_exists h.sound.broadcastAll
  | broadcastQueued slot => exact h.of_exists (h.sound.broadcastAllQueued slot)
  | shutDown =>
    obtain ⟨hsound, hwithin⟩ := p.shutDown_sound
    exact ⟨_, rfl, h.within hsound hwithin⟩

theorem Bookkept.run (events : List PeerSetEvent) :
    ∃ p', events.foldlM peerSetStep p = .ok p' ∧ Bookkept p' maxConnsPerIp := by
  induction events generalizing p with
  | nil => exact ⟨p, rfl, h⟩
  | cons e events ih =>
    obtain ⟨q, hq, hq'⟩ := h.step e
    obtain ⟨p', hp', hbook⟩ := ih hq'
    refine ⟨p', ?_, hbook⟩
    rw [List.foldlM_cons, hq, Outcome.ok_bind]
    exact hp'

end

/-- Whatever happens to the peer set, nothing panics. No address is both ready and unready, each
cancel handle is the one of the only unready service of its key that is not cancelled, and no IP
address has more than the maximum of connections. -/
theorem peer_set_bookkeeping (maxConnsPerIp : Nat) (version : Version) (events : List PeerSetEvent) :
    ∃ p, events.foldlM peerSetStep (.new maxConnsPerIp version) = .ok p ∧
      (∀ addr ∈ p.readyServices, addr ∉ p.cancelHandles) ∧
      (∀ (key : PeerSocketAddr) (channel : Nat), p.cancelHandles[key]? = some channel →
        ∃ u ∈ p.unreadyServices.pending, u.key = key ∧ u.channel = channel ∧ u.signal = none ∧
          ∀ v ∈ p.unreadyServices.pending, v.key = key → v ≠ u → v.signal.isSome = true) ∧
      (p.unreadyServices.pending.map Task.channel).Nodup ∧
      ∀ ip, p.numPeersWithIp ip ≤ maxConnsPerIp := by
  obtain ⟨p, hp, hbook⟩ := (bookkept_new maxConnsPerIp version).run events
  refine ⟨p, hp, fun addr haddr => ?_, fun key channel hchannel => ?_, hbook.sound.linked.channels, hbook.bounded⟩
  · rw [ExtTreeMap.mem_iff_isSome_getElem?] at haddr ⊢
    rw [hbook.sound.disjoint addr haddr]
    exact Bool.false_ne_true
  · obtain ⟨u, hu, hkey, huchannel, hsignal⟩ := (hbook.sound.linked.handles key channel).1 hchannel
    refine ⟨u, hu, hkey, huchannel, hsignal, fun v hv hvkey hne => ?_⟩
    by_contra hlive
    have hvsignal : v.signal = none := Option.not_isSome_iff_eq_none.1 hlive
    exact hne (hbook.sound.linked.eq_of_key hv hu (hvkey.trans hkey.symm) hvsignal hsignal)

end Zebra.Properties
