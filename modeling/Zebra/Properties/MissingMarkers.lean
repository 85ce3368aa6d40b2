import Mathlib.Data.List.Dedup
import Zebra.Lib.Guarded
import Zebra.Peers.InventoryRegistry

namespace Zebra.Properties

open Lib InventoryRegistry IndexMap

variable {ε : Type} {m m' : InventoryMap} {r r' : InventoryRegistry} {hash inv : InventoryHash} {peer addr : PeerSocketAddr}
  {status : InventoryMarker} {peers : List (PeerSocketAddr × InventoryMarker)}

/-- The keys of the maps are unique, and no hash has more peers than the limit. -/
structure Bounded (m : InventoryMap) : Prop where
  keys : (m.map Prod.fst).Nodup
  peerKeys : ∀ e ∈ m, (e.2.map Prod.fst).Nodup
  peerCount : ∀ e ∈ m, e.2.length ≤ maxPeersPerInv

def Marked (m : InventoryMap) (hash : InventoryHash) (peer : PeerSocketAddr) : Prop :=
  ∃ peers, (hash, peers) ∈ m ∧ (peer, .missing) ∈ peers

/-- The hashes of the registry and of the change are within the limit. -/
def Fits (r : InventoryRegistry) (change : InventoryChange) : Prop :=
  (r.current.map Prod.fst ++ change.invs).dedup.length ≤ maxInvPerMap

theorem dropOldest_sublist {α : Type} (limit : Nat) (l : List α) : (dropOldest limit l).Sublist l := by
  unfold dropOldest
  split
  · exact l.tail_sublist
  · exact .refl l

theorem Bounded.dropOldest (h : Bounded m) (limit : Nat) : Bounded (dropOldest limit m) where
  keys := ((dropOldest_sublist limit m).map _).nodup h.keys
  peerKeys := fun e he => h.peerKeys e ((dropOldest_sublist limit m).subset he)
  peerCount := fun e he => h.peerCount e ((dropOldest_sublist limit m).subset he)

theorem Bounded.insert (h : Bounded m) (hkeys : (peers.map Prod.fst).Nodup) (hcount : peers.length ≤ maxPeersPerInv) :
    Bounded (IndexMap.insert m inv peers) := by
  constructor
  case keys => exact nodup_insert h.keys
  case peerKeys =>
    intro e he
    rcases mem_insert he with rfl | ⟨he, _⟩
    · exact hkeys
    · exact h.peerKeys e he
  case peerCount =>
    intro e he
    rcases mem_insert he with rfl | ⟨he, _⟩
    · exact hcount
    · exact h.peerCount e he

theorem Bounded.hashPeers (h : Bounded m) (inv : InventoryHash) :
    (((m.lookup inv).getD []).map Prod.fst).Nodup ∧ ((m.lookup inv).getD []).length ≤ maxPeersPerInv := by
  cases hlookup : m.lookup inv with
  | none => exact ⟨List.nodup_nil, Nat.zero_le _⟩
  | some peers =>
    have hmem := (lookup_eq_some_iff h.keys).1 hlookup
    exact ⟨h.peerKeys _ hmem, h.peerCount _ hmem⟩

theorem length_insert_le {α β : Type} [DecidableEq α] {l : List (α × β)} {k : α} {v : β} :
    (IndexMap.insert l k v).length ≤ l.length + 1 := by
  rw [← List.length_map Prod.fst, keys_insert]
  split <;> simp

theorem registerInv_eq_ok (h : (registerInv status addr m inv : Exec ε _) = .ok m') :
    ((m.lookup inv).getD []).lookup addr = some .missing ∧ status = .available ∧
        m' = IndexMap.insert m inv ((m.lookup inv).getD []) ∨
      ¬(((m.lookup inv).getD []).lookup addr = some .missing ∧ status = .available) ∧
        m' = dropOldest maxInvPerMap (IndexMap.insert m inv
          (dropOldest maxPeersPerInv (IndexMap.insert ((m.lookup inv).getD []) addr status))) := by
  obtain ⟨-, h⟩ := Outcome.check_bind_eq_ok.1 h
  dsimp only at h
  split at h
  · rename_i hskip
    exact .inl ⟨hskip.1, hskip.2, (Except.ok.inj h).symm⟩
  · rename_i hskip
    exact .inr ⟨hskip, (Except.ok.inj h).symm⟩

theorem Bounded.registerInv (h : Bounded m) (hreg : (registerInv status addr m inv : Exec ε _) = .ok m') : Bounded m' := by
  obtain ⟨hkeys, hcount⟩ := h.hashPeers inv
  rcases registerInv_eq_ok hreg with ⟨-, -, rfl⟩ | ⟨-, rfl⟩
  · exact h.insert hkeys hcount
  · apply Bounded.dropOldest
    apply h.insert
    · exact ((dropOldest_sublist _ _).map _).nodup (nodup_insert hkeys)
    · have hlen := length_insert_le (l := (m.lookup inv).getD []) (k := addr) (v := status)
      unfold InventoryRegistry.dropOldest
      split
      · rw [List.length_tail]
        omega
      · omega

theorem dropOldest_eq_self {α : Type} {limit : Nat} {l : List α} (h : l.length ≤ limit) : dropOldest limit l = l :=
  if_neg (Nat.not_lt.2 h)

/-- One hash of a change of the peer, where the map has room for it. -/
theorem Marked.registerInv (h : Bounded m) (hmarked : Marked m hash peer)
    (hroom : (if inv ∈ m.map Prod.fst then m.map Prod.fst else m.map Prod.fst ++ [inv]).length ≤ maxInvPerMap)
    (hreg : (registerInv status peer m inv : Exec ε _) = .ok m') :
    Marked m' hash peer ∧ m'.map Prod.fst = if inv ∈ m.map Prod.fst then m.map Prod.fst else m.map Prod.fst ++ [inv] := by
  obtain ⟨peers, hmem, hmissing⟩ := hmarked
  obtain ⟨peers', rfl, hpeers'⟩ : ∃ peers', m' = IndexMap.insert m inv peers' ∧ (inv = hash → (peer, .missing) ∈ peers') := by
    rcases registerInv_eq_ok hreg with ⟨hold, -, rfl⟩ | ⟨hskip, rfl⟩
    · exact ⟨_, rfl, fun _ => (lookup_eq_some_iff (h.hashPeers inv).1).1 hold⟩
    · refine ⟨_, dropOldest_eq_self ?_, ?_⟩
      · rwa [← List.length_map Prod.fst, keys_insert]
      · rintro rfl
        rw [(lookup_eq_some_iff h.keys).2 hmem, Option.getD_some] at hskip ⊢
        have hstatus : status = .missing := by
          cases status with
          | available => exact absurd ⟨(lookup_eq_some_iff (h.peerKeys _ hmem)).2 hmissing, rfl⟩ hskip
          | missing => rfl
        -- the peer is there already, so that no other one is dropped
        rw [dropOldest_eq_self, hstatus]
        · exact self_mem_insert
        · rw [← List.length_map Prod.fst, keys_insert, if_pos (List.mem_map_of_mem hmissing), List.length_map]
          exact h.peerCount _ hmem
  refine ⟨?_, keys_insert⟩
  by_cases hinv : inv = hash
  · subst hinv
    exact ⟨peers', self_mem_insert, hpeers' rfl⟩
  · exact ⟨peers, mem_insert_of_ne hmem (Ne.symm hinv), hmissing⟩

/-- A change of the peer that fits. The hashes of the map stay among those counted for it. -/
theorem Marked.register {change : InventoryChange} (h : Bounded r.current) (hmarked : Marked r.current hash change.addr)
    (hfits : Fits r change) (hreg : (r.register change : Exec ε _) = .ok r') :
    Bounded r'.current ∧ Marked r'.current hash change.addr := by
  obtain ⟨current, hfold, hr'⟩ := bind_eq_ok.1 hreg
  cases hr'
  have hinvariant := Outcome.foldlM_invariant (I := fun invs m => Bounded m ∧ Marked m hash change.addr ∧
    (∀ k ∈ m.map Prod.fst, k ∈ r.current.map Prod.fst ++ change.invs) ∧
    ∀ k ∈ invs, k ∈ r.current.map Prod.fst ++ change.invs) ?_ hfold ⟨h, hmarked, ?_, ?_⟩
  · exact ⟨hinvariant.1, hinvariant.2.1⟩
  · rintro inv invs m m' hstep ⟨h, hmarked, hkeys, hinvs⟩
    have hsub : ∀ k ∈ if inv ∈ m.map Prod.fst then m.map Prod.fst else m.map Prod.fst ++ [inv],
        k ∈ r.current.map Prod.fst ++ change.invs := by
      intro k hk
      split at hk
      · exact hkeys k hk
      · rcases List.mem_append.1 hk with hk | hk
        · exact hkeys k hk
        · exact hinvs k (List.mem_singleton.1 hk ▸ List.mem_cons_self)
    have hnodup : (if inv ∈ m.map Prod.fst then m.map Prod.fst else m.map Prod.fst ++ [inv]).Nodup := by
      rw [← keys_insert (v := [])]
      exact nodup_insert h.keys
    have hroom := (hnodup.subperm fun k hk => List.mem_dedup.2 (hsub k hk)).length_le.trans hfits
    obtain ⟨hmarked', hkeys'⟩ := hmarked.registerInv h hroom hstep
    exact ⟨h.registerInv hstep, hmarked', hkeys' ▸ hsub, fun k hk => hinvs k (List.mem_cons_of_mem _ hk)⟩
  · exact fun k hk => List.mem_append_left _ hk
  · exact fun k hk => List.mem_append_right _ hk

theorem Marked.not_advertising (h : Bounded r.current) (hmarked : Marked r.current hash peer) : peer ∉ r.advertisingPeers hash := by
  obtain ⟨peers, hmem, hmissing⟩ := hmarked
  have hpeers := (lookup_eq_some_iff h.keys).2 hmem
  have hlookup := (lookup_eq_some_iff (h.peerKeys _ hmem)).2 hmissing
  intro hadvertising
  obtain ⟨⟨addr, status⟩, hstatus, heq⟩ := List.mem_filterMap.1 hadvertising
  obtain ⟨rfl, rfl⟩ : status = .available ∧ addr = peer := by
    split at heq
    · exact ⟨‹_›, Option.some.inj heq⟩
    · simp at heq
  rw [statusPeers, hpeers, List.mem_append] at hstatus
  rcases hstatus with hcurrent | hprev
  · rw [(lookup_eq_some_iff (h.peerKeys _ hmem)).2 hcurrent] at hlookup
    simp at hlookup
  · simp [hasCurrentStatus, hpeers, hlookup] at hprev

/-- In every run of changes of the peer that fit, a peer that is marked as missing a hash is not returned for it. -/
theorem missing_marker_kept (changes : List InventoryChange) (h : Bounded r.current) (hmarked : Marked r.current hash peer)
    (hchanges : Guarded (register (ε := ε)) (fun r change => change.addr = peer ∧ Fits r change) r changes)
    (hrun : (changes.foldlM register r : Exec ε _) = .ok r') : peer ∉ r'.advertisingPeers hash := by
  have hinvariant := hchanges.invariant (P := fun r => Bounded r.current ∧ Marked r.current hash peer) ?_ hrun ⟨h, hmarked⟩
  · exact hinvariant.2.not_advertising hinvariant.1
  · rintro r change r' ⟨h, hmarked⟩ ⟨rfl, hfits⟩ hstep
    exact hmarked.register h hfits hstep

def markedPeer : PeerSocketAddr := ⟨.v4 1, 8233⟩

/-- A registry with this number of hashes, all of which the peer is missing. -/
def markedRegistry (n : Nat) : InventoryRegistry := ⟨(List.range n).map fun i => (.tx i, [(markedPeer, .missing)]), []⟩

theorem bounded_markedRegistry (n : Nat) : Bounded (markedRegistry n).current := by
  have hkeys : (markedRegistry n).current.map Prod.fst = (List.range n).map InventoryHash.tx := by simp [markedRegistry]
  constructor
  case keys => exact hkeys ▸ List.nodup_range.map fun i j h => InventoryHash.tx.inj h
  all_goals
    intro e he
    obtain ⟨i, -, rfl⟩ := List.mem_map.1 he
    simp [maxPeersPerInv]

def advertise (invs : List InventoryHash) (h : invs ≠ []) : InventoryChange := ⟨.available, invs, markedPeer, h⟩

theorem missing_marker_kept_three_hashes :
    ∃ r, ((markedRegistry 2).register (advertise [.tx 2, .tx 0] (by decide)) : Exec Unit _) = .ok r ∧
      r.current.length = 3 ∧ markedPeer ∉ r.advertisingPeers (.tx 0) := by
  have hfits : Fits (markedRegistry 2) (advertise [.tx 2, .tx 0] (by decide)) := by
    unfold Fits
    decide
  refine ⟨_, rfl, rfl, missing_marker_kept (ε := Unit)
    [advertise [.tx 2, .tx 0] (by decide)] (bounded_markedRegistry 2) ⟨_, List.mem_cons_self, List.mem_cons_self⟩ ⟨⟨rfl, hfits⟩, fun _ _ => trivial⟩ rfl⟩

set_option maxRecDepth 10000 in
theorem full_map_resets_marker :
    Bounded (markedRegistry 1000).current ∧ Marked (markedRegistry 1000).current (.tx 0) markedPeer ∧
      (fun r => decide (markedPeer ∈ r.advertisingPeers (.tx 0))) <$>
        ((markedRegistry 1000).register (advertise [.tx 1000, .tx 0] (by decide)) : Exec Unit _) = .ok true := by
  refine ⟨bounded_markedRegistry 1000, ⟨[(markedPeer, .missing)], ?_, List.mem_cons_self⟩, by decide +kernel⟩
  exact List.mem_map.2 ⟨0, by simp, rfl⟩

end Zebra.Properties
