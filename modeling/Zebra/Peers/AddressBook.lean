import Zebra.Peers.MetaAddr

namespace Zebra

open Lib Std

/-- The peers are in the order of `MetaAddr.cmp`, with one entry for each address. Banned addresses
are in the order of their bans. -/
structure AddressBook where
  byAddr : List MetaAddr
  mostRecentByIp : Option (KeyedMap IpAddr MetaAddr)
  bansByIp : List (IpAddr × Instant)
  network : Network
  addrLimit : Nat

namespace AddressBook

def new (network : Network) (maxConnectionsPerIp addrLimit : Nat) : AddressBook where
  byAddr := []
  mostRecentByIp := if maxConnectionsPerIp = 1 then some ∅ else none
  bansByIp := []
  network
  addrLimit

def removeAddr (addr : PeerSocketAddr) (peers : List MetaAddr) : List MetaAddr := peers.filter fun p => p.addr ≠ addr

def insertInOrder (m : MetaAddr) : List MetaAddr → List MetaAddr
  | [] => [m]
  | p :: peers => if m.cmp p = .gt then p :: insertInOrder m peers else m :: p :: peers

def insertPeer (m : MetaAddr) (peers : List MetaAddr) : List MetaAddr := insertInOrder m (removeAddr m.addr peers)

variable (book : AddressBook)

def get (addr : PeerSocketAddr) : Option MetaAddr := book.byAddr.find? fun p => p.addr = canonicalPeerAddr addr

def shouldUpdateMostRecentByIp (updated : MetaAddr) : Bool :=
  match book.mostRecentByIp with
  | none => false
  | some mostRecent =>
    match mostRecent[updated.addr.ip]? with
    | some previous =>
      updated.lastConnectionState = .responded && compare updated.lastResponse previous.lastResponse = .gt
    | none => updated.lastConnectionState = .responded

def shouldRemoveMostRecentByIp (addr : PeerSocketAddr) : Bool :=
  match book.mostRecentByIp with
  | none => false
  | some mostRecent => mostRecent[addr.ip]?.any fun previous => previous.addr = addr

def withMostRecent {ε : Type} (f : KeyedMap IpAddr MetaAddr → KeyedMap IpAddr MetaAddr) : Exec ε AddressBook := do
  let mostRecent ← Outcome.expect book.mostRecentByIp .mostRecentByIp
  return { book with mostRecentByIp := some (f mostRecent) }

variable {ε : Type}

/-- A new ban is the last one; the ban of an address that is banned already keeps its place. -/
def insertBan (ip : IpAddr) (now : Instant) (bans : List (IpAddr × Instant)) : List (IpAddr × Instant) :=
  if ip ∈ bans.map Prod.fst then bans.map fun ban => if ban.1 = ip then (ip, now) else ban else bans ++ [(ip, now)]

/-- Bans an address. The peers that are removed are those of the first run with the address. -/
def ban (ip : IpAddr) (now : Instant) : Exec ε AddressBook := do
  let bans := insertBan ip now book.bansByIp
  let bans := if maxBannedIps < bans.length then bans.drop 1 else bans
  let book ← { book with bansByIp := bans }.withMostRecent fun mostRecent => mostRecent.erase ip
  let bannedAddrs := ((book.byAddr.map MetaAddr.addr).dropWhile fun addr => addr.ip ≠ ip).takeWhile fun addr => addr.ip = ip
  return { book with byAddr := bannedAddrs.foldl (fun peers addr => removeAddr addr peers) book.byAddr }

def updateMostRecent (updated : MetaAddr) : Exec ε AddressBook :=
  if book.shouldUpdateMostRecentByIp updated then book.withMostRecent fun mostRecent => mostRecent.insert updated.addr.ip updated
  else return book

def removeMostRecent (addr : PeerSocketAddr) : Exec ε AddressBook :=
  if book.shouldRemoveMostRecentByIp addr then book.withMostRecent fun mostRecent => mostRecent.erase addr.ip else return book

def removeSurplusPeer : Exec ε AddressBook := do
  let surplus ← Outcome.expect book.byAddr.getLast? .surplusPeer
  { book with byAddr := removeAddr surplus.addr book.byAddr }.removeMostRecent surplus.addr

/-- Each round removes a peer, so there are not more rounds than peers. -/
def removeSurplus : Nat → AddressBook → Exec ε AddressBook
  | 0, book => return book
  | rounds + 1, book =>
    if book.byAddr.length ≤ book.addrLimit then return book
    else do
      let book ← book.removeSurplusPeer
      removeSurplus rounds book

def updateMetrics (now : DateTime32) : Exec ε Unit :=
  Outcome.check (book.byAddr.countP (fun p => p.wasRecentlyLive now) ≤
    book.byAddr.countP fun p => p.lastConnectionState = .responded) .recentlyLivePeers

def insertUpdated (updated : MetaAddr) (chronoNow : DateTime32) : Exec ε AddressBook := do
  let book ← { book with byAddr := insertPeer updated book.byAddr }.updateMostRecent updated
  let book ← removeSurplus book.byAddr.length book
  Outcome.check (book.byAddr.length ≤ book.addrLimit) .addrLimit
  book.updateMetrics chronoNow
  return book

/-- The new entry is ignored if it can not be used for outbound connections. -/
def isIgnored (updated : MetaAddr) : Bool :=
  !updated.addressIsValidForOutbound book.network ||
    (!updated.lastKnownInfoIsValidForOutbound book.network && updated.lastConnectionState.isNeverAttempted)

def update (change : MetaAddrChange) (instantNow : Instant) (chronoNow : DateTime32) :
    Exec ε (Option MetaAddr × AddressBook) :=
  if change.addr.ip ∈ book.bansByIp.map Prod.fst then return (none, book)
  else do
    let updated ← change.applyToMetaAddr (book.get change.addr) instantNow chronoNow
    match updated with
    | none => return (none, book)
    | some updated =>
      if maxPeerMisbehaviorScore ≤ updated.misbehaviorScore then do
        let book ← book.ban updated.addr.ip instantNow
        return (none, book)
      else if book.isIgnored updated then return (none, book)
      else do
        let book ← book.insertUpdated updated chronoNow
        return (some updated, book)

def isReadyForConnectionAttemptWithIp (ip : IpAddr) (chronoNow : DateTime32) : Bool :=
  match book.mostRecentByIp with
  | none => true
  | some mostRecent =>
    match mostRecent[ip]? with
    | none => true
    | some sameIpPeer => !sameIpPeer.hasConnectionRecentlyResponded chronoNow

def reconnectionPeers (instantNow : Instant) (chronoNow : DateTime32) : List MetaAddr :=
  book.byAddr.filter fun peer =>
    peer.isReadyForConnectionAttempt book.network instantNow chronoNow &&
      book.isReadyForConnectionAttemptWithIp peer.addr.ip chronoNow

end AddressBook

/-- `CandidateSet::next`: the first peer that is ready is marked as attempted and handed out. The
update reads the clocks again. -/
def nextCandidate {ε : Type} (book : AddressBook) (instantNow : Instant) (chronoNow : DateTime32) (instantUpdate : Instant)
    (chronoUpdate : DateTime32) : Exec ε (Option MetaAddr × AddressBook) :=
  match (book.reconnectionPeers instantNow chronoNow).head? with
  | none => return (none, book)
  | some peer => book.update (.updateAttempt (canonicalPeerAddr peer.addr)) instantUpdate chronoUpdate

end Zebra
