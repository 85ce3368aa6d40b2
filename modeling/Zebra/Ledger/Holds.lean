import Zebra.Ledger.AddressIndex

namespace Zebra.Ledger

open Lib KeyedMap Entry Transfer Outcome

variable {ε : Type} {idx idx' : TxIndexes} {J : Multiset Entry} {e : Entry}

def TransfersOf (J : Multiset Entry) (a : Address) : Multiset Transfer := J.filterMap (transfer? a)

def balance (J : Multiset Entry) (a : Address) : Int := ((TransfersOf J a).map delta).sum

theorem transfersOf_cons (e : Entry) (J : Multiset Entry) (a : Address) :
    TransfersOf (e ::ₘ J) a = (e.transfer? a).elim (TransfersOf J a) (· ::ₘ TransfersOf J a) :=
  filterMap_cons_elim _ _ _

theorem transfersOf_cons_transfer (a : Address) (t : Transfer) (J : Multiset Entry) :
    TransfersOf (.transfer a t ::ₘ J) = Function.update (TransfersOf J) a (t ::ₘ TransfersOf J a) := by
  funext a'
  by_cases ha : a = a'
  · subst ha; simp [transfersOf_cons, transfer?]
  · simp [transfersOf_cons, transfer?, ha, Function.update_of_ne (Ne.symm ha)]

theorem transfersOf_cons_of_ne {e : Entry} (he : ∀ a, e.transfer? a = none) (J : Multiset Entry) :
    TransfersOf (e ::ₘ J) = TransfersOf J := by
  funext a
  rw [transfersOf_cons, he a, Option.elim_none]

theorem balance_cons_transfer (a : Address) (t : Transfer) (J : Multiset Entry) :
    balance (.transfer a t ::ₘ J) = RunningTotal.step (balance J) (a, t.delta) := by
  funext a'
  by_cases ha : a' = a
  · subst ha
    simp [balance, transfersOf_cons_transfer, RunningTotal.step, add_comm]
  · simp [balance, transfersOf_cons_transfer, RunningTotal.step, ha]

theorem balance_cons_of_ne {e : Entry} (he : ∀ a, e.transfer? a = none) (J : Multiset Entry) :
    balance (e ::ₘ J) = balance J := by
  funext a
  simp [balance, transfersOf_cons_of_ne he]

/-- The transaction indexes hold exactly the entries `J`. -/
structure Holds (idx : TxIndexes) (J : Multiset Entry) : Prop where
  sound : ∀ e ∈ J, e.Sound
  distinct : (J.map key).Nodup
  locations : Indexes idx.txLocByHash (J.filterMap location?)
  created : Indexes idx.createdUtxos (J.filterMap created?)
  spent : Indexes idx.spentUtxos (J.filterMap spent?)
  nullifiers : ∀ p, Indexes (idx.nullifiers p) (J.filterMap (nullifier? p))
  transfers : HoldsTransfers idx.partialTransparentTransfers (TransfersOf J)

theorem holds_empty : Holds .empty 0 where
  sound := by simp
  distinct := by simp
  locations := indexes_empty
  created := indexes_empty
  spent := indexes_empty
  nullifiers p := by cases p <;> exact indexes_empty
  transfers := ⟨fun a => by simpa [TxIndexes.empty, TransfersOf] using holdsAddress_default,
    fun a h => by simp [TxIndexes.empty] at h⟩

theorem Holds.unique (h : Holds idx J) (h' : Holds idx' J) : idx = idx' :=
  TxIndexes.ext (h.locations.unique h'.locations) (h.created.unique h'.created)
    (h.spent.unique h'.spent) ((h.nullifiers .sprout).unique (h'.nullifiers .sprout))
    ((h.nullifiers .sapling).unique (h'.nullifiers .sapling))
    ((h.nullifiers .orchard).unique (h'.nullifiers .orchard)) (h.transfers.unique h'.transfers)

theorem Holds.distinct_cons (h : Holds idx J) (hf : e.key ∉ J.map key) : ((e ::ₘ J).map key).Nodup := by
  rw [Multiset.map_cons]
  exact Multiset.nodup_cons.2 ⟨hf, h.distinct⟩

theorem Holds.transfers_cons (h : Holds idx J) (he : ∀ a, e.transfer? a = none) :
    HoldsTransfers idx.partialTransparentTransfers (TransfersOf (e ::ₘ J)) := by
  rw [transfersOf_cons_of_ne he]
  exact h.transfers

theorem mem_map_keys {α β : Type} {f : Entry → Option (α × β)} {k : α → Key}
    (hf : ∀ e a, e.key = k a ↔ ∃ b, f e = some (a, b)) (a : α) :
    a ∈ (J.filterMap f).map Prod.fst ↔ k a ∈ J.map key := by
  simp only [Multiset.mem_map, Multiset.mem_filterMap, Prod.exists, exists_and_right, exists_eq_right, hf]
  exact ⟨fun ⟨b, e, he, hb⟩ => ⟨e, he, b, hb⟩, fun ⟨e, he, b, hb⟩ => ⟨b, e, he, hb⟩⟩

namespace Entry

theorem key_eq_location (e : Entry) (h : TransactionHash) :
    e.key = .location h ↔ ∃ l, e.location? = some (h, l) := by
  cases e with
  | transfer a t => cases t <;> simp [key, location?]
  | _ => simp [key, location?]

theorem key_eq_created (e : Entry) (o : OutPoint) : e.key = .created o ↔ ∃ u, e.created? = some (o, u) := by
  cases e with
  | transfer a t => cases t <;> simp [key, created?]
  | _ => simp [key, created?]

theorem key_eq_spent (e : Entry) (o : OutPoint) : e.key = .spent o ↔ ∃ tx, e.spent? = some (o, tx) := by
  cases e with
  | transfer a t => cases t <;> simp [key, spent?]
  | _ => simp [key, spent?]

theorem key_eq_nullifier (p : Pool) (e : Entry) (n : Nat) :
    e.key = .nullifier p n ↔ ∃ tx, e.nullifier? p = some (n, tx) := by
  cases e with
  | transfer a t => cases t <;> simp [key, nullifier?]
  | _ => simp [key, nullifier?]

theorem key_eq_received (a : Address) (e : Entry) (l : OutputLocation) :
    e.key = .received a l ↔ ∃ o, (e.transfer? a).bind received? = some (l, o) := by
  cases e with
  | transfer a' t => by_cases ha : a' = a <;> cases t <;> simp [key, transfer?, ha]
  | _ => simp [key, transfer?]

theorem key_eq_sent (a : Address) (e : Entry) (l : OutputLocation) :
    e.key = .sent a l ↔ ∃ u, (e.transfer? a).bind sent? = some (l, u) := by
  cases e with
  | transfer a' t => by_cases ha : a' = a <;> cases t <;> simp [key, transfer?, ha]
  | _ => simp [key, transfer?]

def Fresh (J : Multiset Entry) (e : Entry) : Prop := e.key ∉ J.map key

/-- Whether the balance of the address of a transfer is in range after the entries `J`. -/
def InRange (J : Multiset Entry) : Entry → Prop
  | transfer a _ => Constraint.negativeAllowed.Contains (balance J a)
  | _ => True

theorem fresh_transfer {a : Address} {t : Transfer} : (transfer a t).Fresh J ↔ t.Fresh (TransfersOf J a) := by
  cases t with
  | received o u =>
    rw [Fresh, Transfer.Fresh, TransfersOf, Multiset.filterMap_filterMap, mem_map_keys (key_eq_received a)]
    rfl
  | sent o u tx =>
    rw [Fresh, Transfer.Fresh, TransfersOf, Multiset.filterMap_filterMap, mem_map_keys (key_eq_sent a)]
    rfl

theorem fresh_location {h : TransactionHash} {l : TransactionLocation} :
    (location h l).Fresh J ↔ h ∉ (J.filterMap location?).map Prod.fst := by
  rw [Fresh, mem_map_keys key_eq_location, key]

theorem fresh_created {o : OutPoint} {u : OrderedUtxo} :
    (created o u).Fresh J ↔ o ∉ (J.filterMap created?).map Prod.fst := by
  rw [Fresh, mem_map_keys key_eq_created, key]

theorem fresh_spent {o : OutPoint} {tx : TransactionHash} :
    (spent o tx).Fresh J ↔ o ∉ (J.filterMap spent?).map Prod.fst := by
  rw [Fresh, mem_map_keys key_eq_spent, key]

theorem fresh_nullifier {p : Pool} {n : Nat} {tx : TransactionHash} :
    (nullifier p n tx).Fresh J ↔ n ∉ (J.filterMap (nullifier? p)).map Prod.fst := by
  rw [Fresh, mem_map_keys (key_eq_nullifier p), key]

/-- An entry is written exactly when it is sound, its key is free and the balance of its
address stays in range. -/
structure Writable (J : Multiset Entry) (e : Entry) : Prop where
  sound : e.Sound
  fresh : e.Fresh J
  inRange : e.InRange (e ::ₘ J)

section

variable (h : Holds idx J)
include h

theorem write_location {tx : TransactionHash} {l : TransactionLocation}
    (hl : l.index < 2 ^ 16) (hf : (location tx l).Fresh J) :
    ∃ idx', (location tx l).write idx = .ok idx' ∧ Holds idx' (location tx l ::ₘ J) := by
  have hm : tx ∉ idx.txLocByHash := by rwa [h.locations.mem_iff, ← fresh_location]
  refine ⟨{ idx with txLocByHash := idx.txLocByHash.insert tx l }, ?_, ?_⟩
  · simp only [write, TransactionLocation.fromUsize, check, hl, insertNew_of_not_mem hm,
      if_true, ok_bind, pure_eq_ok]
  · exact {
      sound := Multiset.forall_mem_cons.2 ⟨hl, h.sound⟩
      distinct := h.distinct_cons hf
      locations := h.locations.cons rfl hm
      created := h.created.skip rfl
      spent := h.spent.skip rfl
      nullifiers := fun p => (h.nullifiers p).skip rfl
      transfers := h.transfers_cons fun _ => rfl }

theorem write_created {o : OutPoint} {u : OrderedUtxo} (hf : (created o u).Fresh J) :
    ∃ idx', (created o u).write idx = .ok idx' ∧ Holds idx' (created o u ::ₘ J) := by
  have hm : o ∉ idx.createdUtxos := by rwa [h.created.mem_iff, ← fresh_created]
  refine ⟨{ idx with createdUtxos := idx.createdUtxos.insert o u }, ?_, ?_⟩
  · simp [write, insertNew_of_not_mem hm]
  · exact {
      sound := Multiset.forall_mem_cons.2 ⟨trivial, h.sound⟩
      distinct := h.distinct_cons hf
      locations := h.locations.skip rfl
      created := h.created.cons rfl hm
      spent := h.spent.skip rfl
      nullifiers := fun p => (h.nullifiers p).skip rfl
      transfers := h.transfers_cons fun _ => rfl }

theorem write_spent {o : OutPoint} {tx : TransactionHash} (hf : (spent o tx).Fresh J) :
    ∃ idx', (spent o tx).write idx = .ok idx' ∧ Holds idx' (spent o tx ::ₘ J) := by
  have hm : o ∉ idx.spentUtxos := by rwa [h.spent.mem_iff, ← fresh_spent]
  refine ⟨{ idx with spentUtxos := idx.spentUtxos.insert o tx }, ?_, ?_⟩
  · simp [write, insertNew_of_not_mem hm]
  · exact {
      sound := Multiset.forall_mem_cons.2 ⟨trivial, h.sound⟩
      distinct := h.distinct_cons hf
      locations := h.locations.skip rfl
      created := h.created.skip rfl
      spent := h.spent.cons rfl hm
      nullifiers := fun p => (h.nullifiers p).skip rfl
      transfers := h.transfers_cons fun _ => rfl }

theorem write_nullifier {p : Pool} {n : Nat} {tx : TransactionHash}
    (hf : (nullifier p n tx).Fresh J) :
    ∃ idx', (nullifier p n tx).write idx = .ok idx' ∧ Holds idx' (nullifier p n tx ::ₘ J) := by
  have hm : n ∉ idx.nullifiers p := by rwa [(h.nullifiers p).mem_iff, ← fresh_nullifier]
  refine ⟨idx.setNullifiers p ((idx.nullifiers p).insert n tx), by simp [write, hm], ?_⟩
  exact {
    sound := Multiset.forall_mem_cons.2 ⟨trivial, h.sound⟩
    distinct := h.distinct_cons hf
    locations := h.locations.skip rfl
    created := h.created.skip rfl
    spent := h.spent.skip rfl
    nullifiers := fun q => by
      rw [TxIndexes.nullifiers_setNullifiers]
      split
      · rename_i hq
        exact hq ▸ (h.nullifiers p).cons (if_pos rfl) hm
      · rename_i hq
        rw [indexes_cons_of_none (by simp [nullifier?, hq])]
        exact h.nullifiers q
    transfers := h.transfers_cons fun _ => rfl }

theorem write_transfer {a : Address} {t : Transfer} (ht : t.utxo.txIndexInBlock < 2 ^ 16)
    (hf : (transfer a t).Fresh J) (hb : (transfer a t).InRange (transfer a t ::ₘ J)) :
    ∃ idx', (transfer a t).write idx = .ok idx' ∧ Holds idx' (transfer a t ::ₘ J) := by
  have hr := h.transfers.represents a
  have hsum : balance (transfer a t ::ₘ J) a = ((TransfersOf J a).map delta).sum + t.delta := by
    rw [balance_cons_transfer, RunningTotal.step, Function.update_self]
    rfl
  obtain ⟨t', ht'⟩ := (write_succeeds (ε := ValidateContextError) hr).2
    ⟨ht, fresh_transfer.1 hf, hsum ▸ hb⟩
  refine ⟨{ idx with partialTransparentTransfers := idx.partialTransparentTransfers.insert a t' }, ?_, ?_⟩
  · simp [write, TxIndexes.updateTransfers, ht']
  · exact {
      sound := Multiset.forall_mem_cons.2 ⟨ht, h.sound⟩
      distinct := h.distinct_cons hf
      locations := h.locations.skip rfl
      created := h.created.skip rfl
      spent := h.spent.skip rfl
      nullifiers := fun p => (h.nullifiers p).skip rfl
      transfers := by
        rw [transfersOf_cons_transfer]
        exact h.transfers.insert ((write_eq_ok hr).1 ht').2.2 (by simp) }

theorem write_of_writable (he : e.Writable J) :
    ∃ idx', e.write idx = .ok idx' ∧ Holds idx' (e ::ₘ J) := by
  cases e with
  | fault p => exact he.sound.elim
  | location tx l => exact write_location h he.sound he.fresh
  | created o u => exact write_created h he.fresh
  | spent o tx => exact write_spent h he.fresh
  | nullifier p n tx => exact write_nullifier h he.fresh
  | transfer a t => exact write_transfer h he.sound he.fresh he.inRange

theorem writable_of_write (hw : e.write idx = .ok idx') : e.Writable J := by
  cases e with
  | fault p => simp [write] at hw
  | location tx l =>
    simp only [write, TransactionLocation.fromUsize, bind_eq_ok, check_eq_ok, pure_eq_ok,
      Except.ok.injEq, insertNew_eq_ok] at hw
    obtain ⟨_, ⟨_, hl, -⟩, _, ⟨hm, -⟩, -⟩ := hw
    exact ⟨hl, fresh_location.2 (by rwa [← h.locations.mem_iff]), trivial⟩
  | created o u =>
    simp only [write, bind_eq_ok, insertNew_eq_ok] at hw
    obtain ⟨_, ⟨hm, -⟩, -⟩ := hw
    exact ⟨trivial, fresh_created.2 (by rwa [← h.created.mem_iff]), trivial⟩
  | spent o tx =>
    simp only [write, bind_eq_ok, insertNew_eq_ok] at hw
    obtain ⟨_, ⟨hm, -⟩, -⟩ := hw
    exact ⟨trivial, fresh_spent.2 (by rwa [← h.spent.mem_iff]), trivial⟩
  | nullifier p n tx =>
    have hm : n ∉ idx.nullifiers p := fun hn => by simp [write, hn] at hw
    exact ⟨trivial, fresh_nullifier.2 (by rwa [← (h.nullifiers p).mem_iff]), trivial⟩
  | transfer a t =>
    simp only [write, TxIndexes.updateTransfers, bind_eq_ok] at hw
    obtain ⟨t', ht', -⟩ := hw
    obtain ⟨hs, hf, hr⟩ := (write_eq_ok (h.transfers.represents a)).1 ht'
    have hb : balance (transfer a t ::ₘ J) a = t'.balance.zatoshis := by
      rw [balance, transfersOf_cons_transfer, Function.update_self, hr.balance]
    exact ⟨hs, fresh_transfer.2 hf, by rw [InRange, hb]; exact t'.balance.valid⟩

theorem write_holds (hw : e.write idx = .ok idx') : Holds idx' (e ::ₘ J) := by
  obtain ⟨idx'', hw', h'⟩ := write_of_writable h (writable_of_write h hw)
  rw [hw, Except.ok.injEq] at hw'
  exact hw' ▸ h'

end

end Entry

end Zebra.Ledger
