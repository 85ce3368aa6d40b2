import Zebra.Ledger.Journal

namespace Zebra.Ledger

open Lib KeyedMap Outcome Std.ExtTreeMap

variable {ε : Type}

/-- The index of an address that has seen exactly the transfers `T`. -/
structure HoldsAddress (t : TransparentTransfers) (T : Multiset Transfer) : Prop where
  balance : t.balance.zatoshis = (T.map Transfer.delta).sum
  txIds : t.txIds = T.map Transfer.txId
  created : Indexes t.createdUtxos (T.filterMap Transfer.received?)
  spent : Indexes t.spentUtxos (T.filterMap Transfer.sent?)

theorem holdsAddress_default : HoldsAddress .default 0 :=
  ⟨rfl, rfl, indexes_empty, indexes_empty⟩

theorem HoldsAddress.unique {t t' : TransparentTransfers} {T : Multiset Transfer} (h : HoldsAddress t T)
    (h' : HoldsAddress t' T) : t = t' := by
  obtain ⟨b, i, c, s⟩ := t
  obtain ⟨b', i', c', s'⟩ := t'
  obtain rfl : b = b' := Amount.ext (h.balance.trans h'.balance.symm)
  obtain rfl : i = i' := h.txIds.trans h'.txIds.symm
  obtain rfl : c = c' := h.created.unique h'.created
  obtain rfl : s = s' := h.spent.unique h'.spent
  rfl

theorem exists_holdsAddress {T : Multiset Transfer} (hc : ((T.filterMap Transfer.received?).map Prod.fst).Nodup)
    (hs : ((T.filterMap Transfer.sent?).map Prod.fst).Nodup)
    (hb : Constraint.negativeAllowed.Contains (T.map Transfer.delta).sum) : ∃ t, HoldsAddress t T := by
  obtain ⟨c, hc⟩ := exists_indexes hc
  obtain ⟨s, hs⟩ := exists_indexes hs
  exact ⟨⟨⟨_, hb⟩, _, c, s⟩, rfl, rfl, hc, hs⟩

variable {u : OrderedUtxo} {o : OutPoint} {tx : TransactionHash} {T' : Multiset Transfer}

namespace Transfer

variable {t t' : TransparentTransfers} {T : Multiset Transfer} {x : Transfer}

/-- The location of a transfer is not taken by one of the same kind. -/
def Fresh (T : Multiset Transfer) : Transfer → Prop
  | x@(received ..) => x.location ∉ (T.filterMap received?).map Prod.fst
  | x@(sent ..) => x.location ∉ (T.filterMap sent?).map Prod.fst

theorem transactionLocation_eq_ok {l : TransactionLocation} : (transactionLocation u : Exec ε _) = .ok l ↔
      u.txIndexInBlock < 2 ^ 16 ∧ l = ⟨u.utxo.height, u.txIndexInBlock⟩ := by
  simp only [transactionLocation, TransactionLocation.fromUsize, check_bind_eq_ok,
    pure_eq_ok, Except.ok.injEq]
  rw [eq_comm (a := l)]

theorem updateCreated_eq_ok : (t.updateCreated o u : Exec ε _) = .ok t' ↔
      u.txIndexInBlock < 2 ^ 16 ∧ (received o u).location ∉ t.createdUtxos ∧
      t'.balance.zatoshis = t.balance.zatoshis + (received o u).delta ∧ t'.txIds = o.hash ::ₘ t.txIds ∧
      t'.createdUtxos = t.createdUtxos.insert (received o u).location u.utxo.output ∧ t'.spentUtxos = t.spentUtxos:= by
  obtain ⟨b, i, c, s⟩ := t'
  simp only [TransparentTransfers.updateCreated, bind_eq_ok, unwrap_eq_ok, Amount.add_eq_ok,
    transactionLocation_eq_ok, insertNew_eq_ok, pure_eq_ok, Except.ok.injEq,
    TransparentTransfers.mk.injEq]
  constructor
  · rintro ⟨b', hb, l, ⟨hu, rfl⟩, m, ⟨hm, rfl⟩, rfl, rfl, rfl, rfl⟩
    exact ⟨hu, hm, hb, rfl, rfl, rfl⟩
  · rintro ⟨hu, hm, hb, rfl, rfl, rfl⟩
    exact ⟨b, hb, _, ⟨hu, rfl⟩, _, ⟨hm, rfl⟩, rfl, rfl, rfl, rfl⟩

theorem updateSpent_eq_ok : (t.updateSpent o tx u : Exec ε _) = .ok t' ↔
      u.txIndexInBlock < 2 ^ 16 ∧ (sent o u tx).location ∉ t.spentUtxos ∧
      t'.balance.zatoshis = t.balance.zatoshis + (sent o u tx).delta ∧ t'.txIds = tx ::ₘ t.txIds ∧
      t'.createdUtxos = t.createdUtxos ∧ t'.spentUtxos = t.spentUtxos.insert (sent o u tx).location ():= by
  obtain ⟨b, i, c, s⟩ := t'
  simp only [TransparentTransfers.updateSpent, bind_eq_ok, unwrap_eq_ok, Amount.sub_eq_ok,
    transactionLocation_eq_ok, insertNew_eq_ok, pure_eq_ok, Except.ok.injEq,
    TransparentTransfers.mk.injEq]
  constructor
  · rintro ⟨b', hb, l, ⟨hu, rfl⟩, m, ⟨hm, rfl⟩, rfl, rfl, rfl, rfl⟩
    exact ⟨hu, hm, hb, rfl, rfl, rfl⟩
  · rintro ⟨hu, hm, hb, rfl, rfl, rfl⟩
    exact ⟨b, hb, _, ⟨hu, rfl⟩, _, ⟨hm, rfl⟩, rfl, rfl, rfl, rfl⟩

theorem revertCreated_eq_ok : (t.revertCreated o u : Exec ε _) = .ok t' ↔
      u.txIndexInBlock < 2 ^ 16 ∧ (received o u).location ∈ t.createdUtxos ∧ o.hash ∈ t.txIds ∧
      t'.balance.zatoshis = t.balance.zatoshis - (received o u).delta ∧ t'.txIds = t.txIds.erase o.hash ∧
      t'.createdUtxos = t.createdUtxos.erase (received o u).location ∧ t'.spentUtxos = t.spentUtxos := by
  obtain ⟨b, i, c, s⟩ := t'
  simp only [TransparentTransfers.revertCreated, bind_eq_ok, unwrap_eq_ok, Amount.sub_eq_ok,
    transactionLocation_eq_ok, removePresent_eq_ok, check_eq_ok, pure_eq_ok,
    Except.ok.injEq, TransparentTransfers.mk.injEq]
  constructor
  · rintro ⟨b', hb, l, ⟨hu, rfl⟩, m, ⟨hm, rfl⟩, -, ht, rfl, rfl, rfl, rfl⟩
    exact ⟨hu, hm, ht, hb, rfl, rfl, rfl⟩
  · rintro ⟨hu, hm, ht, hb, rfl, rfl, rfl⟩
    exact ⟨b, hb, _, ⟨hu, rfl⟩, _, ⟨hm, rfl⟩, (), ht, rfl, rfl, rfl, rfl⟩

theorem revertSpent_eq_ok : (t.revertSpent o tx u : Exec ε _) = .ok t' ↔
      u.txIndexInBlock < 2 ^ 16 ∧ (sent o u tx).location ∈ t.spentUtxos ∧ tx ∈ t.txIds ∧
      t'.balance.zatoshis = t.balance.zatoshis - (sent o u tx).delta ∧ t'.txIds = t.txIds.erase tx ∧
      t'.createdUtxos = t.createdUtxos ∧ t'.spentUtxos = t.spentUtxos.erase (sent o u tx).location := by
  obtain ⟨b, i, c, s⟩ := t'
  simp only [TransparentTransfers.revertSpent, bind_eq_ok, unwrap_eq_ok, Amount.add_eq_ok,
    transactionLocation_eq_ok, removePresent_eq_ok, check_eq_ok, pure_eq_ok,
    Except.ok.injEq, TransparentTransfers.mk.injEq, delta, sub_neg_eq_add]
  constructor
  · rintro ⟨b', hb, l, ⟨hu, rfl⟩, m, ⟨hm, rfl⟩, -, ht, rfl, rfl, rfl, rfl⟩
    exact ⟨hu, hm, ht, hb, rfl, rfl, rfl⟩
  · rintro ⟨hu, hm, ht, hb, rfl, rfl, rfl⟩
    exact ⟨b, hb, _, ⟨hu, rfl⟩, _, ⟨hm, rfl⟩, (), ht, rfl, rfl, rfl, rfl⟩

@[simp] theorem received?_received (o : OutPoint) (u : OrderedUtxo) :
    received? (received o u) = some ((received o u).location, u.utxo.output) := rfl

@[simp] theorem received?_sent (o : OutPoint) (u : OrderedUtxo) (tx : TransactionHash) :
    received? (sent o u tx) = none := rfl

@[simp] theorem sent?_received (o : OutPoint) (u : OrderedUtxo) : sent? (received o u) = none := rfl

@[simp] theorem sent?_sent (o : OutPoint) (u : OrderedUtxo) (tx : TransactionHash) :
    sent? (sent o u tx) = some ((sent o u tx).location, ()) := rfl

theorem write_eq_ok (h : HoldsAddress t T) : (x.write t : Exec ε _) = .ok t' ↔
      x.utxo.txIndexInBlock < 2 ^ 16 ∧ x.Fresh T ∧ HoldsAddress t' (x ::ₘ T) := by
  cases x with
  | received o u =>
    simp only [write, updateCreated_eq_ok, Fresh, ← h.created.mem_iff, utxo]
    refine and_congr_right fun _ => and_congr_right fun hf => ⟨?_, fun h' => ?_⟩
    · rintro ⟨hb, ht, hc, hs⟩
      refine ⟨by simp [hb, h.balance, add_comm], by simp [ht, h.txIds, txId], ?_, by simpa [filterMap_cons_elim, hs] using h.spent⟩
      simpa [hc] using h.created.insert hf
    · refine ⟨by simpa [h.balance, add_comm] using h'.balance, by simpa [h.txIds, txId] using h'.txIds, ?_, ?_⟩
      · exact h'.created.unique (by simpa using h.created.insert hf)
      · exact h'.spent.unique (by simpa [filterMap_cons_elim] using h.spent)
  | sent o u tx =>
    simp only [write, updateSpent_eq_ok, Fresh, ← h.spent.mem_iff, utxo]
    refine and_congr_right fun _ => and_congr_right fun hf => ⟨?_, fun h' => ?_⟩
    · rintro ⟨hb, ht, hc, hs⟩
      refine ⟨by simp [hb, h.balance, add_comm], by simp [ht, h.txIds, txId], by simpa [filterMap_cons_elim, hc] using h.created, ?_⟩
      simpa [hs] using h.spent.insert hf
    · refine ⟨by simpa [h.balance, add_comm] using h'.balance, by simpa [h.txIds, txId] using h'.txIds, ?_, ?_⟩
      · exact h'.created.unique (by simpa [filterMap_cons_elim] using h.created)
      · exact h'.spent.unique (by simpa using h.spent.insert hf)

theorem erase_eq_ok (h : HoldsAddress t (x ::ₘ T)) (hx : x.utxo.txIndexInBlock < 2 ^ 16) :
    (x.erase t : Exec ε _) = .ok t' ↔ HoldsAddress t' T := by
  have hb := h.balance
  have ht := h.txIds
  have hc := h.created
  have hs := h.spent
  simp only [Multiset.map_cons, Multiset.sum_cons] at hb ht
  simp only [filterMap_cons_elim] at hc hs
  cases x with
  | received o u =>
    simp only [received?_received, sent?_received, Option.elim_some, Option.elim_none] at hc hs
    have hm : (received o u).location ∈ t.createdUtxos := by simp [hc.mem_iff]
    have hi : o.hash ∈ t.txIds := by simp [ht, txId]
    simp only [erase, revertCreated_eq_ok, hm, hi, true_and, show u.txIndexInBlock < 2 ^ 16 from hx]
    constructor
    · rintro ⟨hb', ht', hc', hs'⟩
      refine ⟨by omega, by simp [ht', ht, txId], hc' ▸ hc.erase, hs' ▸ hs⟩
    · intro h'
      refine ⟨by have := h'.balance; omega, by simp [ht, h'.txIds, txId], h'.created.unique hc.erase,
        h'.spent.unique hs⟩
  | sent o u tx =>
    simp only [received?_sent, sent?_sent, Option.elim_some, Option.elim_none] at hc hs
    have hm : (sent o u tx).location ∈ t.spentUtxos := by simp [hs.mem_iff]
    have hi : tx ∈ t.txIds := by simp [ht, txId]
    simp only [erase, revertSpent_eq_ok, hm, hi, true_and, show u.txIndexInBlock < 2 ^ 16 from hx]
    constructor
    · rintro ⟨hb', ht', hc', hs'⟩
      refine ⟨by omega, by simp [ht', ht, txId], hc' ▸ hc, hs' ▸ hs.erase⟩
    · intro h'
      refine ⟨by have := h'.balance; omega, by simp [ht, h'.txIds, txId], h'.created.unique hc,
        h'.spent.unique hs.erase⟩

theorem Fresh.nodup (h : HoldsAddress t T) (hf : x.Fresh T) :
    (((x ::ₘ T).filterMap received?).map Prod.fst).Nodup ∧ (((x ::ₘ T).filterMap sent?).map Prod.fst).Nodup := by
  cases x with
  | received o u => simpa [filterMap_cons_elim, h.created.nodup, h.spent.nodup, Fresh] using hf
  | sent o u tx => simpa [filterMap_cons_elim, h.created.nodup, h.spent.nodup, Fresh] using hf

theorem write_succeeds (h : HoldsAddress t T) : (x.write t : Exec ε _).Succeeds ↔
      x.utxo.txIndexInBlock < 2 ^ 16 ∧ x.Fresh T ∧
      Constraint.negativeAllowed.Contains ((T.map delta).sum + x.delta) := by
  have hsum : (T.map delta).sum + x.delta = ((x ::ₘ T).map delta).sum := by simp [add_comm]
  simp only [Succeeds, write_eq_ok h, hsum]
  constructor
  · rintro ⟨t', hx, hf, h'⟩
    exact ⟨hx, hf, h'.balance ▸ t'.balance.valid⟩
  · rintro ⟨hx, hf, hb⟩
    obtain ⟨t', h'⟩ := exists_holdsAddress (hf.nodup h).1 (hf.nodup h).2 hb
    exact ⟨t', hx, hf, h'⟩

theorem erase_succeeds (h : HoldsAddress t (x ::ₘ T)) (hx : x.utxo.txIndexInBlock < 2 ^ 16) :
    (x.erase t : Exec ε _).Succeeds ↔ Constraint.negativeAllowed.Contains (T.map delta).sum := by
  simp only [Succeeds, erase_eq_ok h hx]
  constructor
  · rintro ⟨t', h'⟩
    exact h'.balance ▸ t'.balance.valid
  · have hle : T ≤ x ::ₘ T := Multiset.le_cons_self T x
    exact exists_holdsAddress
      (Multiset.nodup_of_le (Multiset.map_le_map (Multiset.filterMap_le_filterMap _ hle)) h.created.nodup)
      (Multiset.nodup_of_le (Multiset.map_le_map (Multiset.filterMap_le_filterMap _ hle)) h.spent.nodup)

end Transfer

theorem HoldsAddress.isEmpty_iff {t : TransparentTransfers} {T : Multiset Transfer} (h : HoldsAddress t T) :
    t.isEmpty = true ↔ T = 0 := by
  constructor
  · intro he
    simp only [TransparentTransfers.isEmpty, Bool.and_eq_true, decide_eq_true_eq] at he
    exact Multiset.map_eq_zero.1 (h.txIds ▸ he.1.1.2)
  · rintro rfl
    rw [h.unique holdsAddress_default]
    rfl

/-- The index of all addresses holds the transfers `T`, and no address without transfers. -/
structure HoldsTransfers (m : KeyedMap Address TransparentTransfers) (T : Address → Multiset Transfer) :
    Prop where
  represents : ∀ a, HoldsAddress (m.getD a .default) (T a)
  occupied : ∀ a ∈ m, T a ≠ 0

namespace HoldsTransfers

variable {m m' : KeyedMap Address TransparentTransfers} {T : Address → Multiset Transfer} {a : Address}

theorem mem_iff (h : HoldsTransfers m T) : a ∈ m ↔ T a ≠ 0 := by
  refine ⟨h.occupied a, fun hT => ?_⟩
  by_contra ha
  have hr := h.represents a
  rw [getD_eq_fallback ha] at hr
  exact hT (Multiset.map_eq_zero.1 hr.txIds.symm)

theorem unique (h : HoldsTransfers m T) (h' : HoldsTransfers m' T) : m = m' := by
  refine ext_getElem? fun a => ?_
  by_cases hT : T a = 0
  · rw [getElem?_eq_none (by simpa [h.mem_iff] using hT),
      getElem?_eq_none (by simpa [h'.mem_iff] using hT)]
  · rw [getElem?_eq_some_getD (h.mem_iff.2 hT),
      getElem?_eq_some_getD (h'.mem_iff.2 hT), (h.represents a).unique (h'.represents a)]

theorem getD_insert (t : TransparentTransfers) (a' : Address) :
    (m.insert a t).getD a' .default = if a = a' then t else m.getD a' .default := by
  by_cases ha : a = a'
  · subst ha; simp
  · simp [getD_eq_getD_getElem?, getElem?_insert_of_ne ha, ha]

theorem getD_erase (a' : Address) : (m.erase a).getD a' .default = if a = a' then .default else m.getD a' .default:= by
  by_cases ha : a = a'
  · subst ha; simp
  · simp [getD_eq_getD_getElem?, getElem?_erase_of_ne ha, ha]

theorem insert (h : HoldsTransfers m T) {t : TransparentTransfers}
    (ht : HoldsAddress t T') (hT' : T' ≠ 0) : HoldsTransfers (m.insert a t) (Function.update T a T') := by
  refine ⟨fun a' => ?_, fun a' ha' => ?_⟩
  · rw [getD_insert]
    by_cases ha : a = a'
    · subst ha; simpa using ht
    · simpa [ha, Ne.symm ha] using h.represents a'
  · by_cases ha : a = a'
    · subst ha; simpa using hT'
    · simp only [mem_insert, Std.compare_eq_iff_eq, ha, false_or] at ha'
      simpa [Ne.symm ha] using h.occupied a' ha'

theorem erase (h : HoldsTransfers m T) : HoldsTransfers (m.erase a) (Function.update T a 0) := by
  refine ⟨fun a' => ?_, fun a' ha' => ?_⟩
  · rw [getD_erase]
    by_cases ha : a = a'
    · subst ha; simpa using holdsAddress_default
    · simpa [ha, Ne.symm ha] using h.represents a'
  · simp only [mem_erase, ne_eq, Std.compare_eq_iff_eq] at ha'
    simpa [Ne.symm ha'.1] using h.occupied a' ha'.2

theorem restore (h : HoldsTransfers m (Function.update T a T')) {t : TransparentTransfers} (ht : HoldsAddress t (T a)) :
    HoldsTransfers (if t.isEmpty then m.erase a else m.insert a t) T := by
  by_cases he : T a = 0
  · have h' := h.erase (a := a)
    rw [Function.update_idem, ← he, Function.update_eq_self] at h'
    rwa [if_pos (ht.isEmpty_iff.2 he)]
  · have h' := h.insert (a := a) ht he
    rw [Function.update_idem, Function.update_eq_self] at h'
    rwa [if_neg (mt ht.isEmpty_iff.1 he)]

end HoldsTransfers

end Zebra.Ledger
