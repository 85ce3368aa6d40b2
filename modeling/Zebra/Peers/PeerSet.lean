import Zebra.Lib.CancelChannels
import Zebra.Peers.MetaAddr

namespace Zebra

open Lib Std Outcome

namespace PeerSocketAddr

def key (addr : PeerSocketAddr) : List Nat := addr.ip.key ++ [addr.port]

theorem key_injective : Function.Injective key := by
  rintro ⟨ip, port⟩ ⟨ip', port'⟩ h
  obtain ⟨hip, hport⟩ := List.append_inj' h rfl
  obtain rfl : ip = ip' := IpAddr.key_injective hip
  obtain rfl : port = port' := (List.cons.inj hport).1
  rfl

instance : Ord PeerSocketAddr := ⟨compareOn key⟩

instance : TransOrd PeerSocketAddr := inferInstanceAs (TransCmp (compareOn key))

instance : LawfulEqOrd PeerSocketAddr := lawfulEqCmp_compareOn key_injective

end PeerSocketAddr

/-- The protocol version of a peer stands for its service. -/
abbrev Version := Nat

abbrev UnreadyService := Task PeerSocketAddr Version

/-- How the future of an unready service ends. -/
inductive UnreadyResult where
  | ready
  | canceled
  | cancelHandleDropped
  | inner
deriving DecidableEq

inductive PeerSetPanic where
  | cancelHandleMismatch
  | bannedCancelHandle
  | missingCancelHandle
  | readyCancelHandle
  | selectedPeers
deriving DecidableEq

/-- The unready services come with the cancel handles. A queued broadcast has the peers that it is
still to be sent to. -/
structure PeerSet where
  readyServices : KeyedMap PeerSocketAddr Version
  unreadyServices : CancelChannels PeerSocketAddr Version
  bans : List IpAddr
  minimumPeerVersion : Version
  maxConnsPerIp : Nat
  queuedBroadcastAll : Option (List PeerSocketAddr)

namespace PeerSet

def new (maxConnsPerIp : Nat) (minimumPeerVersion : Version) : PeerSet :=
  ⟨∅, .empty, [], minimumPeerVersion, maxConnsPerIp, none⟩

abbrev Step := Outcome PeerSetPanic Empty PeerSet

variable (p : PeerSet)

abbrev cancelHandles : KeyedMap PeerSocketAddr Nat := p.unreadyServices.cancelHandles

def pushReady (wasUnready : Bool) (key : PeerSocketAddr) (svc : Version) : Step := do
  check (p.cancelHandles[key]?.isSome = wasUnready) .cancelHandleMismatch
  let p := { p with unreadyServices := p.unreadyServices.removeHandle .dropped key }
  return if p.minimumPeerVersion ≤ svc then { p with readyServices := p.readyServices.insert key svc } else p

/-- A handle that the key had before is dropped. -/
def pushUnready (key : PeerSocketAddr) (svc : Version) : PeerSet :=
  if p.minimumPeerVersion ≤ svc then
    { p with unreadyServices := (p.unreadyServices.removeHandle .dropped key).push key svc }
  else { p with unreadyServices := p.unreadyServices.pushCancelled key svc }

def takeReadyService (key : PeerSocketAddr) : Outcome PeerSetPanic Empty (Option Version × PeerSet) :=
  match p.readyServices[key]? with
  | none => return (none, p)
  | some svc => do
    check (p.cancelHandles[key]? = none) .readyCancelHandle
    return (some svc, { p with readyServices := p.readyServices.erase key })

/-- The work of an unready service is cancelled. -/
def remove (key : PeerSocketAddr) : Step := do
  let (svc, p) ← p.takeReadyService key
  match svc with
  | some _ => return p
  | none => return { p with unreadyServices := p.unreadyServices.removeHandle .sent key }

def pollUnready (u : UnreadyService) (result : UnreadyResult) : Step :=
  let p := { p with unreadyServices := p.unreadyServices.finish u }
  match result with
  | .ready =>
    if u.key.ip ∈ p.bans then do
      check (p.cancelHandles[u.key]?.isSome = true) .bannedCancelHandle
      return { p with unreadyServices := p.unreadyServices.removeHandle .dropped u.key }
    else p.pushReady true u.key u.payload
  | .canceled | .cancelHandleDropped => return p
  | .inner => do
    check (p.cancelHandles[u.key]?.isSome = true) .missingCancelHandle
    return { p with unreadyServices := p.unreadyServices.removeHandle .dropped u.key }

def checkReadyPeer (fails : PeerSocketAddr → Bool) (svc : PeerSocketAddr × Version) : Step :=
  if fails svc.1 then return p
  else if svc.1.ip ∈ p.bans then return p
  else p.pushReady false svc.1 svc.2

def pollReadyPeerErrors (fails : PeerSocketAddr → Bool) : Step :=
  p.readyServices.toList.foldlM (fun p svc => p.checkReadyPeer fails svc) { p with readyServices := ∅ }

def disconnectFromOutdatedPeers : PeerSet :=
  { p with readyServices := p.readyServices.filter fun _ svc => p.minimumPeerVersion ≤ svc }

def peerSetAddresses : List PeerSocketAddr := p.readyServices.keys ++ p.cancelHandles.keys

def numPeersWithIp (ip : IpAddr) : Nat := p.peerSetAddresses.countP fun addr => addr.ip = ip

def hasPeerWithAddr (addr : PeerSocketAddr) : Bool := p.readyServices[addr]?.isSome || p.cancelHandles[addr]?.isSome

def discover (key : PeerSocketAddr) (svc : Version) : PeerSet :=
  if p.hasPeerWithAddr key then p
  else if p.maxConnsPerIp ≤ p.numPeersWithIp key.ip then p
  else p.pushUnready key svc

def shutDown : PeerSet := { p with readyServices := ∅, unreadyServices := { p.unreadyServices with pending := [], cancelHandles := ∅ } }

def sendOne (key : PeerSocketAddr) : Step := do
  let (svc, p) ← p.takeReadyService key
  let svc ← expect svc .selectedPeers
  return p.pushUnready key svc

def sendMultiple (peers : List PeerSocketAddr) : Step := peers.foldlM sendOne p

/-- The peers that are unready afterwards get the request later. -/
def broadcastAll : Step := do
  let p ← p.sendMultiple p.readyServices.keys
  return if p.cancelHandles.keys.isEmpty then p else { p with queuedBroadcastAll := some p.cancelHandles.keys }

/-- The queued request is only sent if its channel has a free slot. -/
def broadcastAllQueued (slot : Bool) : Step :=
  match p.queuedBroadcastAll with
  | none => return p
  | some remaining =>
    let remaining := remaining.filter fun addr => addr.ip ∉ p.bans
    if slot then do
      let peers := p.readyServices.keys.filter fun addr => addr ∈ remaining
      let p ← { p with queuedBroadcastAll := none }.sendMultiple peers
      let remaining := remaining.filter fun addr => addr ∉ peers
      return if remaining.isEmpty then p else { p with queuedBroadcastAll := some remaining }
    else return { p with queuedBroadcastAll := some remaining }

end PeerSet

end Zebra
