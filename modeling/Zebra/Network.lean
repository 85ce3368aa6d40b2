import Zebra.Amount
import Zebra.Lib.KeyedMap

namespace Zebra

open Lib Std

/-! Block heights are natural numbers; the functions below stop at `Height::MAX`. -/

namespace Height

def min : Nat := 0

def max : Nat := 2 ^ 31 - 1

def addDiff (h : Nat) (d : Int) : Option Nat :=
  if 0 ≤ (h : Int) + d ∧ (h : Int) + d ≤ (max : Int) then some ((h : Int) + d).toNat else none

def next (h : Nat) : Option Nat := addDiff h 1

def previous (h : Nat) : Option Nat := addDiff h (-1)

theorem addDiff_eq_some {h k : Nat} {d : Int} : addDiff h d = some k ↔ (k : Int) = (h : Int) + d ∧ k ≤ max:= by
  simp only [addDiff, Option.ite_none_right_eq_some, Option.some.injEq]
  omega

theorem next_eq_some {h k : Nat} : next h = some k ↔ k = h + 1 ∧ k ≤ max := by
  rw [next, addDiff_eq_some]
  omega

theorem previous_eq_some {h k : Nat} : previous h = some k ↔ h = k + 1 ∧ k ≤ max := by
  rw [previous, addDiff_eq_some]
  omega

end Height

inductive NetworkKind where
  | mainnet
  | testnet
  | regtest
deriving DecidableEq

inductive NetworkUpgrade where
  | genesis
  | beforeOverwinter
  | overwinter
  | sapling
  | blossom
  | heartwood
  | canopy
  | nu5
  | nu6
  | nu6_1
  | nu7
deriving DecidableEq

namespace NetworkUpgrade

/-- The upgrades in activation order, which is also the order of the enumeration. -/
def all : List NetworkUpgrade :=
  [genesis, beforeOverwinter, overwinter, sapling, blossom, heartwood, canopy, nu5, nu6, nu6_1, nu7]

def rank : NetworkUpgrade → Nat
  | genesis => 0
  | beforeOverwinter => 1
  | overwinter => 2
  | sapling => 3
  | blossom => 4
  | heartwood => 5
  | canopy => 6
  | nu5 => 7
  | nu6 => 8
  | nu6_1 => 9
  | nu7 => 10

instance : LT NetworkUpgrade := ⟨fun a b => a.rank < b.rank⟩

instance : LE NetworkUpgrade := ⟨fun a b => a.rank ≤ b.rank⟩

instance (a b : NetworkUpgrade) : Decidable (a < b) := inferInstanceAs (Decidable (a.rank < b.rank))

instance (a b : NetworkUpgrade) : Decidable (a ≤ b) := inferInstanceAs (Decidable (a.rank ≤ b.rank))

theorem lt_iff {a b : NetworkUpgrade} : a < b ↔ a.rank < b.rank := Iff.rfl

theorem le_iff {a b : NetworkUpgrade} : a ≤ b ↔ a.rank ≤ b.rank := Iff.rfl

end NetworkUpgrade

/-- The transparent addresses that an output script can pay to. -/
structure Address where
  networkKind : NetworkKind
  isScriptHash : Bool
  hash : Nat
deriving DecidableEq

namespace Address

def key (a : Address) : List Nat :=
  [match a.networkKind with | .mainnet => 0 | .testnet => 1 | .regtest => 2, a.isScriptHash.toNat, a.hash]

theorem key_injective : Function.Injective key := by
  rintro ⟨k, s, h⟩ ⟨k', s', h'⟩ hk
  simp only [key, List.cons.injEq, and_true] at hk
  obtain ⟨hk, hs, rfl⟩ := hk
  cases k <;> cases k' <;> cases s <;> cases s' <;> simp_all

instance : Ord Address := ⟨compareOn key⟩

instance : TransOrd Address := inferInstanceAs (TransCmp (compareOn key))

instance : LawfulEqOrd Address := lawfulEqCmp_compareOn key_injective

end Address

inductive FundingStreamReceiver where
  | ecc
  | zcashFoundation
  | majorGrants
  | deferred
deriving DecidableEq

structure FundingStreamRecipient where
  numerator : Nat
  addresses : List Address

abbrev Recipients := List (FundingStreamReceiver × FundingStreamRecipient)

abbrev Payments := List (Address × Amount .nonNegative)

/-- Recipients are keyed by their receiver, so no receiver is listed twice. -/
structure FundingStreams where
  rangeStart : Nat
  rangeEnd : Nat
  recipients : Recipients
  nodup : (recipients.map Prod.fst).Nodup

inductive NetworkVariant where
  | mainnet
  | defaultTestnet
  | regtest
  | configuredTestnet
deriving DecidableEq

/-- Network parameters that the builder accepts: `Genesis` activates at height zero and
later activation heights belong to later upgrades. -/
structure Network where
  variant : NetworkVariant
  activationHeights : List (Nat × NetworkUpgrade)
  ascending : activationHeights.Pairwise fun a b => a.1 < b.1 ∧ a.2 < b.2
  genesisFirst : activationHeights.head? = some (0, .genesis)
  slowStartInterval : Nat
  slowStartShift : Nat
  preBlossomHalvingInterval : Int
  postBlossomHalvingInterval : Int
  fundingStreams : List FundingStreams
  lockboxDisbursements : Payments
  founderAddressList : List Address
  shouldAllowUnshieldedCoinbaseSpends : Bool
  /-- The limit of a test network, which the builder rounds to a compact value. -/
  testnetTargetDifficultyLimit : Nat := 0x7ffff * 2 ^ 232

namespace Network

def tAddrKind (net : Network) : NetworkKind :=
  match net.variant with
  | .mainnet => .mainnet
  | .defaultTestnet | .regtest | .configuredTestnet => .testnet

end Network

namespace NetworkUpgrade

/-- The entry in force at `height`: the last one at or below it. -/
def currentEntry (net : Network) (height : Nat) : Option (Nat × NetworkUpgrade) :=
  (net.activationHeights.filter fun e => e.1 ≤ height).getLast?

def current (net : Network) (height : Nat) : NetworkUpgrade :=
  ((currentEntry net height).map Prod.snd).getD .genesis

def activationHeight (nu : NetworkUpgrade) (net : Network) : Option Nat :=
  (all.filter fun u => nu ≤ u).findSome? fun u =>
    (net.activationHeights.find? fun e => e.2 = u).map Prod.fst

end NetworkUpgrade

end Zebra
