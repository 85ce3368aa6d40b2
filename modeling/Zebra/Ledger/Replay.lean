import Zebra.Ledger.Holds

namespace Zebra.Ledger

open Lib KeyedMap Outcome Entry RunningTotal

variable {ε : Type} {idx idx' : TxIndexes} {J : Multiset Entry} {e : Entry} {es : List Entry}

theorem Holds.transfers_tail (h : Holds idx (e ::ₘ J)) (he : ∀ a, e.transfer? a = none) :
    HoldsTransfers idx.partialTransparentTransfers (TransfersOf J) := by
  rw [← transfersOf_cons_of_ne he]
  exact h.transfers

namespace Entry

theorem tail_sound (h : Holds idx (e ::ₘ J)) : (∀ e ∈ J, e.Sound) ∧ (J.map key).Nodup:= by
  have hd := h.distinct
  rw [Multiset.map_cons, Multiset.nodup_cons] at hd
  exact ⟨fun e he => h.sound e (Multiset.mem_cons_of_mem he), hd.2⟩

variable {tx : TransactionHash} {o : OutPoint}

theorem erase_location {l : TransactionLocation} (h : Holds idx (location tx l ::ₘ J)) :
    ∃ idx', ((location tx l).erase idx : Exec ε _) = .ok idx' ∧ Holds idx' J := by
  obtain ⟨hm, hi⟩ := h.locations.uncons rfl
  refine ⟨{ idx with txLocByHash := idx.txLocByHash.erase tx }, ?_, ?_⟩
  · simp [erase, removePresent_of_mem hm]
  · exact {
      sound := (tail_sound h).1
      distinct := (tail_sound h).2
      locations := hi
      created := h.created.unskip rfl
      spent := h.spent.unskip rfl
      nullifiers := fun p => (h.nullifiers p).unskip rfl
      transfers := h.transfers_tail fun _ => rfl }

theorem erase_created {u : OrderedUtxo} (h : Holds idx (created o u ::ₘ J)) :
    ∃ idx', ((created o u).erase idx : Exec ε _) = .ok idx' ∧ Holds idx' J := by
  obtain ⟨hm, hi⟩ := h.created.uncons rfl
  refine ⟨{ idx with createdUtxos := idx.createdUtxos.erase o }, ?_, ?_⟩
  · simp [erase, removePresent_of_mem hm]
  · exact {
      sound := (tail_sound h).1
      distinct := (tail_sound h).2
      locations := h.locations.unskip rfl
      created := hi
      spent := h.spent.unskip rfl
      nullifiers := fun p => (h.nullifiers p).unskip rfl
      transfers := h.transfers_tail fun _ => rfl }

theorem erase_spent (h : Holds idx (spent o tx ::ₘ J)) :
    ∃ idx', ((spent o tx).erase idx : Exec ε _) = .ok idx' ∧ Holds idx' J := by
  obtain ⟨hm, hi⟩ := h.spent.uncons rfl
  refine ⟨{ idx with spentUtxos := idx.spentUtxos.erase o }, ?_, ?_⟩
  · simp [erase, removePresent_of_mem hm]
  · exact {
      sound := (tail_sound h).1
      distinct := (tail_sound h).2
      locations := h.locations.unskip rfl
      created := h.created.unskip rfl
      spent := hi
      nullifiers := fun p => (h.nullifiers p).unskip rfl
      transfers := h.transfers_tail fun _ => rfl }

theorem erase_nullifier {p : Pool} {n : Nat} (h : Holds idx (nullifier p n tx ::ₘ J)) :
    ∃ idx', ((nullifier p n tx).erase idx : Exec ε _) = .ok idx' ∧ Holds idx' J := by
  obtain ⟨hm, hi⟩ := (h.nullifiers p).uncons (if_pos rfl)
  refine ⟨idx.setNullifiers p ((idx.nullifiers p).erase n), ?_, ?_⟩
  · simp [erase, removePresent_of_mem hm]
  · exact {
      sound := (tail_sound h).1
      distinct := (tail_sound h).2
      locations := h.locations.unskip rfl
      created := h.created.unskip rfl
      spent := h.spent.unskip rfl
      nullifiers := fun q => by
        rw [TxIndexes.nullifiers_setNullifiers]
        split
        · rename_i hq
          exact hq ▸ hi
        · rename_i hq
          rw [← indexes_cons_of_none (e := nullifier p n tx) (by simp [nullifier?, hq])]
          exact h.nullifiers q
      transfers := h.transfers_tail fun _ => rfl }

theorem erase_transfer {a : Address} {t : Transfer} (h : Holds idx (transfer a t ::ₘ J))
    (hr : (transfer a t).InRange J) : ∃ idx', ((transfer a t).erase idx : Exec ε _) = .ok idx' ∧ Holds idx' J:= by
  have hs : t.utxo.txIndexInBlock < 2 ^ 16 := h.sound (transfer a t) (Multiset.mem_cons_self _ _)
  have hT := h.transfers
  rw [transfersOf_cons_transfer] at hT
  have hrep := hT.represents a
  have hmem : a ∈ idx.partialTransparentTransfers := hT.mem_iff.2 (by simp)
  rw [Function.update_self] at hrep
  obtain ⟨t', ht'⟩ := (Transfer.erase_succeeds (ε := ε) hrep hs).2 hr
  have hrep' := (Transfer.erase_eq_ok hrep hs).1 ht'
  have hget : idx.partialTransparentTransfers[a]? = some (idx.partialTransparentTransfers.getD a .default) :=
    Std.ExtTreeMap.getElem?_eq_some_getD hmem
  refine ⟨{ idx with
    partialTransparentTransfers := if t'.isEmpty then idx.partialTransparentTransfers.erase a
      else idx.partialTransparentTransfers.insert a t' }, ?_, ?_⟩
  · simp only [erase, TxIndexes.revertTransfers, hget, expect_some, ok_bind, ht',
      pure_eq_ok]
  · exact {
      sound := (tail_sound h).1
      distinct := (tail_sound h).2
      locations := h.locations.unskip rfl
      created := h.created.unskip rfl
      spent := h.spent.unskip rfl
      nullifiers := fun p => (h.nullifiers p).unskip rfl
      transfers := hT.restore hrep' }

theorem erase_of_inRange (h : Holds idx (e ::ₘ J)) (hr : e.InRange J) :
    ∃ idx', (e.erase idx : Exec ε _) = .ok idx' ∧ Holds idx' J := by
  cases e with
  | fault p => exact (h.sound _ (Multiset.mem_cons_self _ _)).elim
  | location tx l => exact erase_location h
  | created o u => exact erase_created h
  | spent o tx => exact erase_spent h
  | nullifier p n tx => exact erase_nullifier h
  | transfer a t => exact erase_transfer h hr

theorem inRange_of_erase (h : Holds idx (e ::ₘ J)) (he : (e.erase idx : Exec ε _) = .ok idx') : e.InRange J:= by
  cases e with
  | transfer a t =>
    simp only [erase, TxIndexes.revertTransfers, bind_eq_ok, expect_eq_ok] at he
    obtain ⟨t₀, h₀, t₁, h₁, -⟩ := he
    have hs : t.utxo.txIndexInBlock < 2 ^ 16 := h.sound (transfer a t) (Multiset.mem_cons_self _ _)
    have hrep := h.transfers.represents a
    rw [transfersOf_cons_transfer, Function.update_self, Std.ExtTreeMap.getD_eq_getD_getElem?, h₀] at hrep
    exact (Transfer.erase_succeeds hrep hs).1 ⟨t₁, h₁⟩
  | _ => trivial

theorem erase_holds (h : Holds idx (e ::ₘ J)) (he : (e.erase idx : Exec ε _) = .ok idx') : Holds idx' J := by
  obtain ⟨idx'', he', h'⟩ := erase_of_inRange h (inRange_of_erase h he)
  rw [he, Except.ok.injEq] at he'
  exact he' ▸ h'

end Entry

/-- No address balance leaves the range of an amount while the changes are applied. -/
def BalancesFit (b : Address → Int) (l : List (Address × Int)) : Prop :=
  RunningTotal.Fits Constraint.negativeAllowed.lower Constraint.negativeAllowed.upper b l

instance (b : Address → Int) (l : List (Address × Int)) : Decidable (BalancesFit b l) :=
  RunningTotal.Fits.decidable b l

@[simp] theorem coe_cons_add : ((e :: es : List Entry) : Multiset Entry) + J = e ::ₘ (es + J) := by
  rw [← Multiset.cons_coe, Multiset.cons_add]

theorem deltas_cons_transfer (a : Address) (t : Transfer) :
    deltas (.transfer a t :: es) = (a, t.delta) :: deltas es := rfl

theorem deltas_cons_of_ne (he : ∀ a, e.transfer? a = none) : deltas (e :: es) = deltas es := by
  cases e with
  | transfer a t => simpa [transfer?] using he a
  | _ => rfl

theorem writeAll_holds (h : Holds idx J) (hw : writeAll idx es = .ok idx') : Holds idx' (es + J) := by
  induction es generalizing idx J with
  | nil =>
    simp only [writeAll, List.foldlM_nil, pure_eq_ok, Except.ok.injEq] at hw
    simpa [← hw] using h
  | cons e es ih =>
    rw [writeAll, List.foldlM_cons, bind_eq_ok] at hw
    obtain ⟨idx₁, h₁, h₂⟩ := hw
    have h' := ih (write_holds h h₁) h₂
    rwa [Multiset.add_cons, ← Multiset.cons_add, Multiset.cons_coe] at h'

theorem balancesFit_cons : BalancesFit (balance J) (deltas (e :: es)) ↔
      e.InRange (e ::ₘ J) ∧ BalancesFit (balance (e ::ₘ J)) (deltas es) := by
  cases e with
  | transfer a t =>
    rw [deltas_cons_transfer, BalancesFit, fits_cons, ← balance_cons_transfer]
    refine and_congr_left fun _ => ?_
    rw [Entry.InRange, balance_cons_transfer, step, Function.update_self]
    rfl
  | _ =>
    rw [deltas_cons_of_ne fun _ => rfl, balance_cons_of_ne fun _ => rfl]
    exact ⟨fun h => ⟨trivial, h⟩, And.right⟩

theorem balancesFit_undone_cons : BalancesFit (balance (e ::ₘ J)) (undone (deltas (e :: es))) ↔
      e.InRange J ∧ BalancesFit (balance J) (undone (deltas es)) := by
  cases e with
  | transfer a t =>
    have hstep : step (balance (.transfer a t ::ₘ J)) (a, -t.delta) = balance J := by
      funext a'
      by_cases ha : a' = a
      · subst ha; simp [balance_cons_transfer, step]
      · simp [balance_cons_transfer, step, ha]
    rw [deltas_cons_transfer, undone, List.map_cons, BalancesFit, fits_cons, hstep]
    refine and_congr_left fun _ => ?_
    simp only [balance_cons_transfer, step, Function.update_self, add_neg_cancel_right]
    rfl
  | _ =>
    rw [deltas_cons_of_ne fun _ => rfl, balance_cons_of_ne fun _ => rfl]
    exact ⟨fun h => ⟨trivial, h⟩, And.right⟩

/-- A list of entries can be written exactly when they are sound, their keys are new and
the balances stay in range. -/
theorem writeAll_succeeds (h : Holds idx J) : (writeAll idx es).Succeeds ↔
      (∀ e ∈ es, e.Sound) ∧ (((es : Multiset Entry) + J).map key).Nodup ∧
      BalancesFit (balance J) (deltas es) := by
  induction es generalizing idx J with
  | nil => simp [writeAll, h.distinct, BalancesFit, deltas]
  | cons e es ih =>
    have hstep : (writeAll idx (e :: es)).Succeeds ↔
        ∃ idx₁, e.write idx = .ok idx₁ ∧ (writeAll idx₁ es).Succeeds := bind_succeeds
    have hperm : ((e :: es : List Entry) : Multiset Entry) + J = es + (e ::ₘ J) := by
      rw [coe_cons_add, Multiset.add_cons]
    rw [hstep, balancesFit_cons, List.forall_mem_cons, hperm]
    constructor
    · rintro ⟨idx₁, h₁, h₂⟩
      have hw := writable_of_write h h₁
      obtain ⟨hs, hd, hb⟩ := (ih (write_holds h h₁)).1 h₂
      exact ⟨⟨hw.sound, hs⟩, hd, hw.inRange, hb⟩
    · rintro ⟨⟨hs, hss⟩, hd, hr, hb⟩
      have hf : e.Fresh J := by
        rw [Multiset.add_cons, Multiset.map_cons, Multiset.nodup_cons, Multiset.map_add,
          Multiset.mem_add, not_or] at hd
        exact hd.1.2
      obtain ⟨idx₁, h₁, hh⟩ := write_of_writable h ⟨hs, hf, hr⟩
      exact ⟨idx₁, h₁, (ih hh).2 ⟨hss, hd, hb⟩⟩

theorem eraseAll_succeeds (h : Holds idx (es + J)) :
    (eraseAll idx es : Exec ε _).Succeeds ↔ BalancesFit (balance (es + J)) (undone (deltas es)) := by
  induction es generalizing idx with
  | nil => simp [eraseAll, BalancesFit, deltas, undone]
  | cons e es ih =>
    rw [coe_cons_add] at h ⊢
    have hstep : (eraseAll idx (e :: es) : Exec ε _).Succeeds ↔
        ∃ idx₁, (e.erase idx : Exec ε _) = .ok idx₁ ∧ (eraseAll idx₁ es : Exec ε _).Succeeds :=
      bind_succeeds
    rw [hstep, balancesFit_undone_cons]
    constructor
    · rintro ⟨idx₁, h₁, h₂⟩
      exact ⟨inRange_of_erase h h₁, (ih (erase_holds h h₁)).1 h₂⟩
    · rintro ⟨hr, hb⟩
      obtain ⟨idx₁, h₁, hh⟩ := erase_of_inRange h hr
      exact ⟨idx₁, h₁, (ih hh).2 hb⟩

theorem eraseAll_holds (h : Holds idx (es + J)) (he : (eraseAll idx es : Exec ε _) = .ok idx') : Holds idx' J:= by
  induction es generalizing idx with
  | nil =>
    simp only [eraseAll, List.foldlM_nil, pure_eq_ok, Except.ok.injEq] at he
    simpa [← he] using h
  | cons e es ih =>
    rw [eraseAll, List.foldlM_cons, bind_eq_ok] at he
    obtain ⟨idx₁, h₁, h₂⟩ := he
    rw [coe_cons_add] at h
    exact ih (erase_holds h h₁) h₂

end Zebra.Ledger
