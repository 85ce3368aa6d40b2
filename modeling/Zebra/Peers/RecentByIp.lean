import Zebra.Peers.MetaAddr

namespace Zebra

open Lib Std

/-- Instants count from the origin of the clock. -/
structure RecentByIp where
  byTime : List (IpAddr × Instant)
  byIp : KeyedMap IpAddr Nat
  maxConnectionsPerIp : Nat
  timeLimit : Nat

namespace RecentByIp

def new (timeLimit maxConnectionsPerIp : Option Nat) : RecentByIp where
  byTime := []
  byIp := ∅
  maxConnectionsPerIp := maxConnectionsPerIp.getD 1
  timeLimit := timeLimit.getD (seconds minPeerReconnectionDelay)

variable {ε : Type} (r : RecentByIp)

def removeCount (byIp : KeyedMap IpAddr Nat) (ip : IpAddr) : Exec ε (KeyedMap IpAddr Nat) :=
  match byIp[ip]? with
  | none => return byIp
  | some count => do
    Outcome.check (0 < count) .arithmetic
    return if count - 1 = 0 then byIp.erase ip else byIp.insert ip (count - 1)

def pruneByTime (now : Instant) : Exec ε RecentByIp := do
  Outcome.check (r.timeLimit ≤ now) .arithmetic
  let ageLimit := now - r.timeLimit
  let outdated := r.byTime.takeWhile fun e => e.2 ≤ ageLimit
  let updatedByTime := r.byTime.dropWhile fun e => e.2 ≤ ageLimit
  let byIp ← outdated.foldlM (fun byIp e => removeCount byIp e.1) r.byIp
  return { r with byTime := updatedByTime, byIp }

def isPastLimitOrAdd (ip : IpAddr) (now : Instant) : Exec ε (Bool × RecentByIp) := do
  let r ← r.pruneByTime now
  let count := r.byIp[ip]?.getD 0
  if r.maxConnectionsPerIp ≤ count then return (true, { r with byIp := r.byIp.insert ip count })
  else return (false, { r with byIp := r.byIp.insert ip (count + 1), byTime := r.byTime ++ [(ip, now)] })

end RecentByIp

end Zebra
