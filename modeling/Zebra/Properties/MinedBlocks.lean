import Zebra.Properties.MempoolInvariant

namespace Zebra.Properties

open Lib Std DependencyMaps VerifiedSet ExtTreeMap

variable {minedIds : List TransactionHash} {key id : TransactionHash} {R : TransactionHash → TransactionHash → Prop}

/-- Nothing depends on what is mined, once the mined dependencies are cleared. -/
theorem eq_of_below_mined (h : Below (fun t p => R t p ∧ p ∉ minedIds) key id) (hkey : key ∈ minedIds) : id = key := by
  rcases h.cases_head with rfl | ⟨t, ht, -⟩
  · rfl
  · exact absurd hkey ht.2

/-- What depends on an unmined transaction is unmined, and depends on it through unmined ones. -/
theorem below_unmined_iff (hvalid : ∀ t p, R t p → t ∈ minedIds → p ∈ minedIds) (hkey : key ∉ minedIds) :
    Below R key id ↔ Below (fun t p => (R t p ∧ p ∉ minedIds) ∧ t ∉ minedIds) key id := by
  constructor
  · intro h
    have hboth : Below (fun t p => (R t p ∧ p ∉ minedIds) ∧ t ∉ minedIds) key id ∧ id ∉ minedIds := by
      induction h with
      | refl => exact ⟨.refl, hkey⟩
      | tail _ hstep ih =>
        have hunmined := fun hmined => ih.2 (hvalid _ _ hstep hmined)
        exact ⟨ih.1.tail ⟨⟨hstep, ih.2⟩, hunmined⟩, hunmined⟩
    exact hboth.1
  · exact fun h => h.mono fun _ _ hstep => hstep.1.1

section

variable [TransactionIds] {s : Storage} {now : Nat} {transactions : List Transaction}

def DependsOn (s : VerifiedSet) (t p : TransactionHash) : Prop := p ∈ s.transactionDependencies.directDependencies t

/-- A stored transaction that is not mined spends the same as one of the block, and this one depends on it or is it. -/
def Conflicted (s : VerifiedSet) (minedIds : List TransactionHash) (transactions : List Transaction) (id : TransactionHash) : Prop :=
  ∃ (key : TransactionHash) (tx : VerifiedUnminedTx), s.transactions[key]? = some tx ∧ key ∉ minedIds ∧
    Storage.isDuplicateSpend transactions tx = true ∧ Below (DependsOn s) key id

/-- What the new block leaves, and what is returned. -/
structure BlockApplied (s s' : VerifiedSet) (minedIds : List TransactionHash) (transactions : List Transaction)
    (removed : RemovedTransactionIds) : Prop where
  stored : ∀ (id : TransactionHash) (tx : VerifiedUnminedTx), s'.transactions[id]? = some tx ↔
    s.transactions[id]? = some tx ∧ id ∉ minedIds ∧ ¬ Conflicted s minedIds transactions id
  dependencies : ∀ t p, DependsOn s' t p ↔ DependsOn s t p ∧ t ∈ s'.transactions ∧ p ∉ minedIds
  mined : Reports removed.mined s (· ∈ minedIds)
  invalidated : Reports removed.invalidated s fun id => id ∉ minedIds ∧ Conflicted s minedIds transactions id

theorem mined_iff {v : VerifiedSet} (hv : v.Consistent R) (id : TransactionHash) :
    v.Matched (fun t p => R t p ∧ p ∉ minedIds) (fun tx => tx.minedId ∈ minedIds) id ↔ id ∈ minedIds ∧ id ∈ v.transactions := by
  constructor
  · rintro ⟨key, tx, htx, hmined, hbelow⟩
    rw [decide_eq_true_eq, hv.keyed key tx htx] at hmined
    rw [eq_of_below_mined hbelow hmined, mem_iff_isSome_getElem?, htx]
    exact ⟨hmined, rfl⟩
  · rintro ⟨hmined, hstored⟩
    obtain ⟨tx, htx⟩ := KeyedMap.mem_iff_exists.1 hstored
    exact ⟨id, tx, htx, decide_eq_true ((hv.keyed id tx htx).symm ▸ hmined), .refl⟩

/-- A new block with new transactions, the dependencies of which are mined, updates the mempool exactly. -/
theorem new_block_updates_mempool (h : s.Sound now) (order : IterationOrder TransactionHash)
    (minedIds : List TransactionHash) (transactions : List Transaction) (hnodup : minedIds.Nodup)
    (hnew : ∀ id ∈ minedIds, (s.chainRejectedSameEffects .mined).containsKey now id = false)
    (hvalid : ∀ t p, DependsOn s.verified t p → t ∈ minedIds → p ∈ minedIds) :
    ∃ removed s', ((s.clearMinedDependencies minedIds).rejectAndRemoveSameEffects now order minedIds transactions :
        Outcome MempoolPanic Empty _) = .ok (removed, s') ∧
      BlockApplied s.verified s'.verified minedIds transactions removed := by
  obtain ⟨R, hconsistent⟩ := h.consistent
  have hR : s.verified.Consistent (DependsOn s.verified) := setInvariant_of_consistent hconsistent
  have hcleared := hR.clearMinedDependencies minedIds
  have hsound : (s.clearMinedDependencies minedIds).Sound now := h.of_subset hcleared (fun _ hid => hid) rfl rfl
  obtain ⟨removed, s', hrun⟩ := hsound.rejectAndRemoveSameEffects_succeeds order transactions hnodup hnew
  obtain ⟨-, v, hremoved⟩ := Storage.rejectAndRemoveSameEffects_eq_ok hcleared hrun
  have hgone : (s.clearMinedDependencies minedIds).verified.Matched (fun t p => DependsOn s.verified t p ∧ p ∉ minedIds)
      (fun tx => tx.minedId ∈ minedIds) = fun id => id ∈ minedIds ∧ id ∈ s.verified.transactions :=
    funext fun id => propext (mined_iff hR id)
  rw [hgone] at hremoved
  obtain ⟨hmined, hreports, hinvalidated, hreports'⟩ := hremoved
  have hstored : ∀ (id : TransactionHash) (tx : VerifiedUnminedTx), s.verified.transactions[id]? = some tx → id ∈ s.verified.transactions :=
    fun id tx htx => KeyedMap.mem_iff_exists.2 ⟨_, htx⟩
  have hkept : ∀ (id : TransactionHash) (tx : VerifiedUnminedTx), v.transactions[id]? = some tx ↔
      s.verified.transactions[id]? = some tx ∧ id ∉ minedIds := by
    intro id tx
    rw [hmined.kept]
    constructor
    · rintro ⟨hnot, htx⟩
      exact ⟨htx, fun hid => hnot ⟨hid, hstored id tx htx⟩⟩
    · rintro ⟨htx, hnot⟩
      exact ⟨fun hid => hnot hid.1, htx⟩
  have hleft : (fun t p => (DependsOn s.verified t p ∧ p ∉ minedIds) ∧ ¬ (t ∈ minedIds ∧ t ∈ s.verified.transactions)) =
      fun t p => (DependsOn s.verified t p ∧ p ∉ minedIds) ∧ t ∉ minedIds := by
    funext t p
    apply propext
    apply and_congr_right
    intro hdepends
    exact not_congr (and_iff_left (hR.stored t p hdepends.1).1)
  rw [hleft] at hinvalidated hreports'
  have hconflicted : ∀ id, v.Matched (fun t p => (DependsOn s.verified t p ∧ p ∉ minedIds) ∧ t ∉ minedIds)
      (Storage.isDuplicateSpend transactions) id ↔ Conflicted s.verified minedIds transactions id := by
    intro id
    refine exists_congr fun key => exists_congr fun tx => ?_
    rw [hkept, and_assoc]
    refine and_congr_right fun _ => and_congr_right fun hunmined => and_congr_right fun _ => ?_
    exact (below_unmined_iff hvalid hunmined).symm
  replace hinvalidated := hinvalidated.congr hconflicted
  replace hreports' := hreports'.congr hconflicted
  refine ⟨removed, s', hrun, ?_⟩
  constructor
  case stored =>
    intro id tx
    rw [hinvalidated.kept, hkept]
    tauto
  case dependencies =>
    intro t p
    have hdepends : DependsOn s'.verified t p ↔ _ := hinvalidated.consistent.relates.dependencies.mem t p
    rw [hdepends]
    constructor
    · rintro ⟨⟨⟨ht, hp⟩, hunmined⟩, hnot⟩
      obtain ⟨tx, htx⟩ := Option.isSome_iff_exists.1 (mem_iff_isSome_getElem?.1 (hR.stored t p ht).1)
      refine ⟨ht, mem_iff_isSome_getElem?.2 ?_, hp⟩
      rw [(hinvalidated.kept t tx).2 ⟨hnot, (hkept t tx).2 ⟨htx, hunmined⟩⟩]
      rfl
    · rintro ⟨ht, hleft, hp⟩
      obtain ⟨hnot, hv⟩ := hinvalidated.mem hleft
      exact ⟨⟨⟨ht, hp⟩, fun hmem => (hmined.mem hv).1 ⟨hmem, (hR.stored t p ht).1⟩⟩, hnot⟩
  case mined =>
    intro unminedId
    rw [hreports]
    refine exists_congr fun id => exists_congr fun tx => ?_
    constructor
    · rintro ⟨⟨hid, -⟩, htx, heq⟩
      exact ⟨hid, htx, heq⟩
    · rintro ⟨hid, htx, heq⟩
      exact ⟨⟨hid, hstored id tx htx⟩, htx, heq⟩
  case invalidated =>
    intro unminedId
    rw [hreports']
    refine exists_congr fun id => exists_congr fun tx => ?_
    rw [hkept]
    tauto

end

namespace MempoolSample

theorem sampleBlock_updates_mempool :
    ∃ st removed s', evictingEvents.foldlM storageStep (.new 60 50000, 0) = .ok st ∧ st.1.verified.transactions.keys = [1, 2] ∧
      ((st.1.clearMinedDependencies [1]).rejectAndRemoveSameEffects st.2 keyOrder [1] [TransactionIds.effects 1] :
        Outcome MempoolPanic Empty _) = .ok (removed, s') ∧
      BlockApplied st.1.verified s'.verified [1] [TransactionIds.effects 1] removed := by
  have hrun : (fun st => decide (st.1.verified.transactions.keys = [1, 2] ∧
      (st.1.verified.transactionDependencies.directDependencies 1).keys = [] ∧
      (st.1.chainRejectedSameEffects .mined).containsKey st.2 1 = false)) <$>
      evictingEvents.foldlM storageStep (.new 60 50000, 0) = .ok true := by
    decide +kernel
  obtain ⟨st, hst, hsample⟩ := map_eq_ok.1 hrun
  obtain ⟨hkeys, hindependent, hnew⟩ := of_decide_eq_true hsample
  have hstart : StorageInvariant (.new 60 50000, 0) 50000 := ⟨Storage.sound_new _ _ _, Nat.zero_le _, rfl⟩
  obtain ⟨removed, s', hblock, happlied⟩ := new_block_updates_mempool (hstart.run hst).sound keyOrder
    [1] [TransactionIds.effects 1] (by decide) (by simpa using hnew) fun t p hdepends ht => by
      obtain rfl := List.mem_singleton.1 ht
      have hmem := mem_keys.2 hdepends
      rw [hindependent] at hmem
      cases hmem
  exact ⟨st, removed, s', hst, hkeys, hblock, happlied⟩

end MempoolSample

end Zebra.Properties
