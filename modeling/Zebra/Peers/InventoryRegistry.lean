import Zebra.Lib.IndexMap
import Zebra.Peers.MetaAddr

namespace Zebra

open Lib

inductive InventoryHash where
  | error
  | tx (hash : Nat)
  | block (hash : Nat)
  | filteredBlock (hash : Nat)
  | wtx (id authDigest : Nat)
deriving DecidableEq

def InventoryHash.isExpected : InventoryHash → Bool
  | block _ | tx _ | wtx .. => true
  | error | filteredBlock _ => false

inductive InventoryMarker where
  | available
  | missing
deriving DecidableEq

/-- A change has at least one hash. -/
structure InventoryChange where
  marker : InventoryMarker
  invs : List InventoryHash
  addr : PeerSocketAddr
  nonempty : invs ≠ []

def maxInvPerMap : Nat := 1000

def maxPeersPerInv : Nat := 70

abbrev InventoryMap := List (InventoryHash × List (PeerSocketAddr × InventoryMarker))

structure InventoryRegistry where
  current : InventoryMap
  prev : InventoryMap

/-- What the receiver of the broadcast channel has not read yet. -/
inductive InventoryMessage where
  | change (change : InventoryChange)
  | lagged (count : Nat)

structure InventoryChannel where
  pending : List InventoryMessage
  closed : Bool

inductive InventoryPoll where
  | pending
  | ready
  | closed
deriving DecidableEq

namespace InventoryRegistry

variable {ε : Type} (r : InventoryRegistry)

def new : InventoryRegistry := ⟨[], []⟩

def hasCurrentStatus (hash : InventoryHash) (addr : PeerSocketAddr) : Bool :=
  ((r.current.lookup hash).bind fun current => current.lookup addr).isSome

def statusPeers (hash : InventoryHash) : List (PeerSocketAddr × InventoryMarker) :=
  (r.current.lookup hash).getD [] ++
    ((r.prev.lookup hash).getD []).filter fun e => !r.hasCurrentStatus hash e.1

def advertisingPeers (hash : InventoryHash) : List PeerSocketAddr :=
  (r.statusPeers hash).filterMap fun e => if e.2 = .available then some e.1 else none

def dropOldest {α : Type} (limit : Nat) (l : List α) : List α := if limit < l.length then l.tail else l

def registerInv (newStatus : InventoryMarker) (addr : PeerSocketAddr) (current : InventoryMap) (inv : InventoryHash) :
    Exec ε InventoryMap := do
  Outcome.check inv.isExpected .inventoryType
  let hashPeers := (current.lookup inv).getD []
  if hashPeers.lookup addr = some .missing ∧ newStatus = .available then
    return IndexMap.insert current inv hashPeers
  let hashPeers := dropOldest maxPeersPerInv (IndexMap.insert hashPeers addr newStatus)
  return dropOldest maxInvPerMap (IndexMap.insert current inv hashPeers)

def register (change : InventoryChange) : Exec ε InventoryRegistry := do
  let current ← change.invs.foldlM (registerInv change.marker change.addr) r.current
  return { r with current }

def rotate : InventoryRegistry := ⟨[], r.current⟩

/-- The loop over the channel; it has no result when the fuel does not suffice. -/
def drain : Nat → InventoryRegistry → InventoryChannel → InventoryPoll →
    Option (Exec ε (InventoryPoll × InventoryRegistry × InventoryChannel))
  | 0, _, _, _ => none
  | fuel + 1, r, ⟨.change change :: pending, closed⟩, _ =>
    match r.register change with
    | .ok r => drain fuel r ⟨pending, closed⟩ .ready
    | .error e => some (.error e)
  | fuel + 1, r, ⟨.lagged _ :: pending, closed⟩, result => drain fuel r ⟨pending, closed⟩ result
  | fuel + 1, r, ⟨[], true⟩, _ => drain fuel r ⟨[], true⟩ .closed
  | _ + 1, r, ⟨[], false⟩, result => some (.ok (result, r, ⟨[], false⟩))

/-- The interval ticks when the registry is polled, or it does not. -/
def pollInventory (fuel : Nat) (tick : Bool) (channel : InventoryChannel) :
    Option (Exec ε (InventoryPoll × InventoryRegistry × InventoryChannel)) :=
  if tick then drain fuel r.rotate channel .ready else drain fuel r channel .pending

end InventoryRegistry

end Zebra
