import Zebra.Network
import Zebra.Panic

/-! Peer addresses with metadata. Instants are nanoseconds of a monotonic clock, other times are
seconds of the wall clock. -/

namespace Zebra

open Lib Std

inductive IpAddr where
  | v4 (octets : Nat)
  | v6 (octets : Nat)
deriving DecidableEq

namespace IpAddr

def key : IpAddr → List Nat
  | v4 octets => [0, octets]
  | v6 octets => [1, octets]

theorem key_injective : Function.Injective key := by
  intro a b h
  cases a <;> cases b <;> simp_all [key]

instance : Ord IpAddr := ⟨compareOn key⟩

instance : TransOrd IpAddr := inferInstanceAs (TransCmp (compareOn key))

instance : LawfulEqOrd IpAddr := lawfulEqCmp_compareOn key_injective

def isUnspecified : IpAddr → Bool
  | v4 octets | v6 octets => octets = 0

end IpAddr

/-- An address without the scope and the flow information of IPv6. -/
structure PeerSocketAddr where
  ip : IpAddr
  port : Nat
deriving DecidableEq

/-- An IPv4-mapped address becomes an IPv4 address. -/
def canonicalIpAddr (octets : Nat) : IpAddr :=
  if octets / 2 ^ 32 = 0xffff then .v4 (octets % 2 ^ 32) else .v6 octets

def canonicalPeerAddr (addr : PeerSocketAddr) : PeerSocketAddr :=
  match addr.ip with
  | .v4 _ => addr
  | .v6 octets => ⟨canonicalIpAddr octets, addr.port⟩

def Network.defaultPort (net : Network) : Nat :=
  match net.variant with
  | .mainnet => 8233
  | .defaultTestnet | .regtest | .configuredTestnet => 18233

/-- The ports of other networks and of other coins. -/
def addressIsValidForInboundListeners (addr : PeerSocketAddr) (net : Option Network) : Except String Unit :=
  let defaultPort := net.map Network.defaultPort
  if defaultPort = some addr.port then .ok ()
  else if defaultPort.isSome ∧ addr.port = 8232 then
    .error "invalid peer port: port is for Mainnet, but this node is configured for Testnet"
  else if defaultPort.isSome ∧ addr.port = 18232 then
    .error "invalid peer port: port is for Testnet, but this node is configured for Mainnet"
  else if addr.port = 18344 then
    .error "invalid peer port: port is for Regtest, but Zebra does not support that network"
  else if addr.port ∈ [8033, 18033, 16125, 26125] then .error "invalid peer port: port is for a non-Zcash coin"
  else .ok ()

def addressIsValidForOutboundConnections (addr : PeerSocketAddr) (net : Option Network) : Except String Unit :=
  if addr.ip.isUnspecified then
    .error "invalid peer IP address: unspecified addresses can not be used for outbound connections"
  else if addr.port = 0 then
    .error "invalid peer port: unspecified ports can not be used for outbound connections"
  else addressIsValidForInboundListeners addr net

def peerPreference (addr : PeerSocketAddr) : Except String Bool := do
  addressIsValidForOutboundConnections addr none
  return decide (addr.port ∈ [8232, 18232])

/-- Preferred ports come first, and invalid addresses last. -/
def comparePreference : Except String Bool → Except String Bool → Ordering
  | .ok a, .ok b => compare b.toNat a.toNat
  | .ok _, .error _ => .lt
  | .error _, .ok _ => .gt
  | .error a, .error b => compare a b

inductive PeerAddrState where
  | responded
  | neverAttemptedGossiped
  | failed
  | attemptPending
deriving DecidableEq

namespace PeerAddrState

def isNeverAttempted (s : PeerAddrState) : Bool := s = neverAttemptedGossiped

def rank : PeerAddrState → Nat
  | responded => 0
  | neverAttemptedGossiped => 1
  | failed => 2
  | attemptPending => 3

/-- The order in which a connection goes through its states. -/
def progress : PeerAddrState → Nat
  | neverAttemptedGossiped => 0
  | attemptPending => 1
  | responded => 2
  | failed => 3

def connectionStateOrder (a b : PeerAddrState) : Ordering := compare a.progress b.progress

end PeerAddrState

abbrev Instant := Nat

abbrev DateTime32 := Nat

def seconds (n : Nat) : Nat := n * 1000000000

def minPeerReconnectionDelay : Nat := 59 + 20 + 20 + 20

def concurrentAddressChangePeriod : Nat := 5

def maxRecentPeerAge : Nat := 3 * 24 * 60 * 60

def maxPeerMisbehaviorScore : Nat := 100

def maxBannedIps : Nat := 20000

structure MetaAddr where
  addr : PeerSocketAddr
  /-- A set of bits, the lowest of which is `NODE_NETWORK`. -/
  services : Option Nat
  untrustedLastSeen : Option DateTime32
  lastResponse : Option DateTime32
  rtt : Option Nat
  pingSentAt : Option Instant
  lastAttempt : Option Instant
  lastFailure : Option Instant
  misbehaviorScore : Nat
  lastConnectionState : PeerAddrState
  isInbound : Bool
deriving DecidableEq

namespace MetaAddr

variable (m : MetaAddr) (net : Network)

def lastSeen : Option DateTime32 := m.lastResponse.or m.untrustedLastSeen

def hasConnectionRecentlyResponded (now : DateTime32) : Bool :=
  m.lastResponse.any fun lastResponse => now - lastResponse ≤ minPeerReconnectionDelay

def wasConnectionRecentlyAttempted (now : Instant) : Bool :=
  m.lastAttempt.any fun lastAttempt => now - lastAttempt ≤ seconds minPeerReconnectionDelay

def hasConnectionRecentlyFailed (now : Instant) : Bool :=
  m.lastFailure.any fun lastFailure => now - lastFailure ≤ seconds minPeerReconnectionDelay

def wasRecentlyLive (now : DateTime32) : Bool :=
  m.lastConnectionState = .responded && m.hasConnectionRecentlyResponded now

def wasRecentlyUpdated (instantNow : Instant) (chronoNow : DateTime32) : Bool :=
  m.hasConnectionRecentlyResponded chronoNow || m.wasConnectionRecentlyAttempted instantNow ||
    m.hasConnectionRecentlyFailed instantNow

def addressIsValidForOutbound : Bool := (addressIsValidForOutboundConnections m.addr (some net)).isOk

def lastKnownInfoIsValidForOutbound : Bool :=
  (match m.services with
    | some services => services % 2 = 1
    | none => true) && m.addressIsValidForOutbound net

def lastSeenIsRecent (now : DateTime32) : Bool := m.lastSeen.any fun lastSeen => now - lastSeen ≤ maxRecentPeerAge

def isProbablyReachable (now : DateTime32) : Bool := m.lastConnectionState ≠ .failed || m.lastSeenIsRecent now

def isReadyForConnectionAttempt (instantNow : Instant) (chronoNow : DateTime32) : Bool :=
  m.lastKnownInfoIsValidForOutbound net && !m.wasRecentlyUpdated instantNow chronoNow && m.isProbablyReachable chronoNow

/-- The order of an address book. Missing times come before all others. -/
def cmp (a b : MetaAddr) : Ordering :=
  (compare a.lastConnectionState.rank b.lastConnectionState.rank).then <|
  (comparePreference (peerPreference a.addr) (peerPreference b.addr)).then <|
  (compare a.lastAttempt b.lastAttempt).then <|
  (compare a.lastFailure b.lastFailure).then <|
  (compare a.lastResponse b.lastResponse).then <|
  (compare a.untrustedLastSeen b.untrustedLastSeen).swap.then <|
  (compare a.services b.services).then <|
  (compare a.addr.ip b.addr.ip).then <|
  compare a.addr.port b.addr.port

end MetaAddr

inductive MetaAddrChange where
  | newInitial (addr : PeerSocketAddr)
  | newGossiped (addr : PeerSocketAddr) (untrustedServices : Nat) (untrustedLastSeen : DateTime32)
  | newLocal (addr : PeerSocketAddr)
  | updateAttempt (addr : PeerSocketAddr)
  | updateConnected (addr : PeerSocketAddr) (services : Nat) (isInbound : Bool)
  | updatePingSent (addr : PeerSocketAddr) (pingSentAt : Instant)
  | updateResponded (addr : PeerSocketAddr) (rtt : Option Nat)
  | updateFailed (addr : PeerSocketAddr) (services : Option Nat)
  | updateMisbehavior (addr : PeerSocketAddr) (scoreIncrement : Nat)
deriving DecidableEq

namespace MetaAddrChange

def addr : MetaAddrChange → PeerSocketAddr
  | newInitial a | newGossiped a _ _ | newLocal a | updateAttempt a | updateConnected a _ _ | updatePingSent a _
  | updateResponded a _ | updateFailed a _ | updateMisbehavior a _ => a

def untrustedServices : MetaAddrChange → Option Nat
  | newGossiped _ services _ | updateConnected _ services _ => some services
  | newLocal _ => some 1
  | updateFailed _ services => services
  | _ => none

def untrustedLastSeen (now : DateTime32) : MetaAddrChange → Option DateTime32
  | newGossiped _ _ lastSeen => some lastSeen
  | newLocal _ => some now
  | _ => none

def lastAttempt (now : Instant) : MetaAddrChange → Option Instant
  | updateAttempt _ => some now
  | _ => none

def lastResponse (now : DateTime32) : MetaAddrChange → Option DateTime32
  | updateConnected _ _ _ | updateResponded _ _ => some now
  | _ => none

def rtt : MetaAddrChange → Option Nat
  | updateResponded _ rtt => rtt
  | _ => none

def pingSentAt : MetaAddrChange → Option Instant
  | updatePingSent _ pingSentAt => some pingSentAt
  | _ => none

def lastFailure (now : Instant) : MetaAddrChange → Option Instant
  | updateFailed _ _ | updateMisbehavior _ _ => some now
  | _ => none

def peerAddrState : MetaAddrChange → PeerAddrState
  | newInitial _ | newGossiped _ _ _ | newLocal _ => .neverAttemptedGossiped
  | updateAttempt _ => .attemptPending
  | updateConnected _ _ _ | updatePingSent _ _ | updateResponded _ _ | updateMisbehavior _ _ => .responded
  | updateFailed _ _ => .failed

def misbehaviorScore : MetaAddrChange → Nat
  | updateMisbehavior _ scoreIncrement => scoreIncrement
  | _ => 0

def isInbound : MetaAddrChange → Bool
  | updateConnected _ _ isInbound => isInbound
  | _ => false

def intoNewMetaAddr (c : MetaAddrChange) (instantNow : Instant) (localNow : DateTime32) : MetaAddr where
  addr := c.addr
  services := c.untrustedServices
  untrustedLastSeen := c.untrustedLastSeen localNow
  lastResponse := c.lastResponse localNow
  rtt := c.rtt
  pingSentAt := c.pingSentAt
  lastAttempt := c.lastAttempt instantNow
  lastFailure := c.lastFailure instantNow
  lastConnectionState := c.peerAddrState
  misbehaviorScore := c.misbehaviorScore
  isInbound := c.isInbound

def latest : Option Nat → Option Nat → Option Nat
  | some a, some b => some (max a b)
  | some a, none => some a
  | none, b => b

def isConcurrent (previous : Option Nat) (now period : Nat) : Bool :=
  previous.any fun previous => previous - now < period && now - previous < period

def isOutOfOrder (previous : Option Nat) (now : Nat) : Bool := previous.any fun previous => now < previous

def isIgnored (c : MetaAddrChange) (previous : MetaAddr) (instantNow : Instant) (localNow : DateTime32) : Bool :=
  let instantPrevious := latest previous.lastAttempt previous.lastFailure
  let localPrevious := previous.lastResponse
  let changeIsConcurrent := isConcurrent instantPrevious instantNow (seconds concurrentAddressChangePeriod) ||
    isConcurrent localPrevious localNow concurrentAddressChangePeriod
  let changeIsOutOfOrder := isOutOfOrder instantPrevious instantNow || isOutOfOrder localPrevious localNow
  let connectionHasMoreProgress := c.peerAddrState.connectionStateOrder previous.lastConnectionState = .gt
  let previousHasBeenAttempted := !previous.lastConnectionState.isNeverAttempted
  let changeToNeverAttempted := c.peerAddrState.isNeverAttempted
  let isMisbehaviorUpdate : Bool := c.misbehaviorScore ≠ 0
  (changeToNeverAttempted && previousHasBeenAttempted && !isMisbehaviorUpdate) ||
    (changeIsOutOfOrder && !changeIsConcurrent && !isMisbehaviorUpdate) ||
    (changeIsConcurrent && !connectionHasMoreProgress && !isMisbehaviorUpdate)

/-- The entry after a change that is not ignored. -/
def updatedMetaAddr (c : MetaAddrChange) (previous : MetaAddr) (instantNow : Instant) (localNow : DateTime32) : MetaAddr :=
  if c.peerAddrState.isNeverAttempted && previous.lastConnectionState.isNeverAttempted then {
    addr := c.addr
    services := previous.services.or c.untrustedServices
    untrustedLastSeen := previous.untrustedLastSeen.or (c.untrustedLastSeen localNow)
    lastResponse := none
    rtt := none
    pingSentAt := none
    lastAttempt := none
    lastFailure := none
    lastConnectionState := c.peerAddrState
    misbehaviorScore := previous.misbehaviorScore + c.misbehaviorScore
    isInbound := previous.isInbound || c.isInbound }
  else {
    addr := c.addr
    services := c.untrustedServices.or previous.services
    untrustedLastSeen := previous.untrustedLastSeen
    lastResponse := (c.lastResponse localNow).or previous.lastResponse
    rtt := c.rtt
    pingSentAt := c.pingSentAt
    lastAttempt := (c.lastAttempt instantNow).or previous.lastAttempt
    lastFailure := (c.lastFailure instantNow).or previous.lastFailure
    lastConnectionState := c.peerAddrState
    misbehaviorScore := previous.misbehaviorScore + c.misbehaviorScore
    isInbound := previous.isInbound || c.isInbound }

/-- The changed entry, or `none` for a change that is ignored. Scores are `u32`s. -/
def applyToMetaAddr {ε : Type} (c : MetaAddrChange) (previous : Option MetaAddr) (instantNow : Instant)
    (localNow : DateTime32) : Exec ε (Option MetaAddr) :=
  match previous with
  | none => return some (c.intoNewMetaAddr instantNow localNow)
  | some previous => do
    Outcome.check (previous.addr = c.addr) .addrMismatch
    if c.isIgnored previous instantNow localNow then return none
    else do
      Outcome.check (previous.misbehaviorScore + c.misbehaviorScore < 2 ^ 32) .misbehaviorScore
      return some (c.updatedMetaAddr previous instantNow localNow)

end MetaAddrChange

end Zebra
