import Zebra.Mempool.VerifiedSet

namespace Zebra.VerifiedSet

open Lib Std DependencyMaps KeyedMap ExtTreeMap Outcome

variable [TransactionIds] {s s' : VerifiedSet} {tx tx' : VerifiedUnminedTx} {effects : Transaction} {spend : MempoolSpend}
  {id key : TransactionHash} {o : OutPoint} {out : Output} {R : TransactionHash → TransactionHash → Prop}

def spendsOf (tx : VerifiedUnminedTx) : List MempoolSpend := tx.transaction.transaction.spends

def HasSpent (s : VerifiedSet) : MempoolSpend → Prop
  | .outpoint o => o ∈ s.spentOutpoints
  | .sprout nullifier => nullifier ∈ s.sproutNullifiers
  | .sapling nullifier => nullifier ∈ s.saplingNullifiers
  | .orchard nullifier => nullifier ∈ s.orchardNullifiers

/-- The caches are what the stored transactions say, no two of which conflict. The dependencies are
an acyclic relation `R` between stored transactions. -/
structure Consistent (s : VerifiedSet) (R : TransactionHash → TransactionHash → Prop) : Prop where
  keyed : ∀ (id : TransactionHash) (tx : VerifiedUnminedTx), s.transactions[id]? = some tx → tx.minedId = id
  disjoint : ∀ (id id' : TransactionHash) (tx tx' : VerifiedUnminedTx) (spend : MempoolSpend), s.transactions[id]? = some tx → s.transactions[id']? = some tx' →
    spend ∈ spendsOf tx → spend ∈ spendsOf tx' → id = id'
  spent : ∀ spend, s.HasSpent spend ↔ ∃ (id : TransactionHash) (tx : VerifiedUnminedTx), s.transactions[id]? = some tx ∧ spend ∈ spendsOf tx
  created : ∀ (o : OutPoint) (out : Output), s.createdOutputs[o]? = some out ↔
    ∃ tx : VerifiedUnminedTx, s.transactions[o.hash]? = some tx ∧ tx.transaction.transaction.outputs[o.index]? = some out
  size : s.transactionsSerializedSize = s.transactions.total fun tx => tx.transaction.size
  cost : s.totalCost = s.transactions.total VerifiedUnminedTx.cost
  relates : s.transactionDependencies.Relates R
  stored : ∀ t p, R t p → t ∈ s.transactions ∧ p ∈ s.transactions
  acyclic : ∀ t, ¬ Relation.TransGen R t t

theorem consistent_empty : Consistent empty fun _ _ => False where
  keyed id tx h := by simp [empty] at h
  disjoint id id' tx tx' spend h := by simp [empty] at h
  spent spend := by cases spend <;> simp [HasSpent, empty]
  created o out := by simp [empty]
  size := rfl
  cost := rfl
  relates := relates_empty
  stored t p h := h.elim
  acyclic t h := by
    cases h with
    | single h => exact h
    | tail _ h => exact h

theorem hasConflicts_iff {κ : Type} [Ord κ] [TransOrd κ] {set : KeyedMap κ Unit} {list : List κ} :
    hasConflicts set list = true ↔ ∃ item ∈ list, item ∈ set := by
  simp [hasConflicts]

theorem hasSpendConflicts_iff : s.hasSpendConflicts effects = true ↔ ∃ spend ∈ effects.spends, s.HasSpent spend := by
  simp only [hasSpendConflicts, Bool.or_eq_true, hasConflicts_iff, Transaction.spends, List.mem_append, List.mem_map,
    or_and_right, exists_or, exists_exists_and_eq_and, HasSpent]

theorem mem_extend {κ : Type} [Ord κ] [TransOrd κ] [LawfulEqOrd κ] {set : KeyedMap κ Unit} {items : List κ} {item : κ} :
    item ∈ extend set items ↔ item ∈ set ∨ item ∈ items := by
  rw [extend, mem_insertMany_iff, List.map_map]
  simp

theorem hasSpent_of_extend (hspent : s'.spentOutpoints = extend s.spentOutpoints effects.spentOutpoints)
    (hsprout : s'.sproutNullifiers = extend s.sproutNullifiers effects.sproutNullifiers)
    (hsapling : s'.saplingNullifiers = extend s.saplingNullifiers effects.saplingNullifiers)
    (horchard : s'.orchardNullifiers = extend s.orchardNullifiers effects.orchardNullifiers) :
    s'.HasSpent spend ↔ s.HasSpent spend ∨ spend ∈ effects.spends := by
  cases spend <;> simp [HasSpent, hspent, hsprout, hsapling, horchard, mem_extend, Transaction.spends]

theorem hasSpent_removeOutputs {unmined : UnminedTx} :
    (s.removeOutputs unmined).HasSpent spend ↔ s.HasSpent spend ∧ spend ∉ unmined.transaction.spends := by
  cases spend <;> simp [HasSpent, removeOutputs, mem_eraseAll_iff, Transaction.spends]

theorem mem_outputsOf : (o, out) ∈ outputsOf id effects ↔ o.hash = id ∧ effects.outputs[o.index]? = some out := by
  obtain ⟨hash, index⟩ := o
  rw [outputsOf, List.mem_map]
  constructor
  · rintro ⟨⟨out', index'⟩, hmem, heq⟩
    obtain ⟨⟨rfl, rfl⟩, rfl⟩ : (id = hash ∧ index' = index) ∧ out' = out := by simpa using heq
    exact ⟨rfl, List.mem_zipIdx_iff_getElem?.1 hmem⟩
  · rintro ⟨rfl, hout⟩
    exact ⟨(out, index), List.mem_zipIdx_iff_getElem?.2 hout, rfl⟩

theorem mem_outpointsOf : o ∈ (outputsOf id effects).map Prod.fst ↔ o.hash = id ∧ o.index < effects.outputs.length := by
  rw [List.mem_map]
  constructor
  · rintro ⟨⟨o, out⟩, hmem, rfl⟩
    obtain ⟨hhash, hout⟩ := mem_outputsOf.1 hmem
    exact ⟨hhash, (List.getElem?_eq_some_iff.1 hout).1⟩
  · rintro ⟨hhash, hindex⟩
    exact ⟨(o, effects.outputs[o.index]), mem_outputsOf.2 ⟨hhash, List.getElem?_eq_getElem hindex⟩, rfl⟩

theorem getElem?_insert_outputs {created : KeyedMap OutPoint Output} :
    (created.insertMany (outputsOf id effects))[o]? = some out ↔
      o.hash = id ∧ effects.outputs[o.index]? = some out ∨
        ¬ (o.hash = id ∧ o.index < effects.outputs.length) ∧ created[o]? = some out := by
  rw [getElem?_insertMany_iff, mem_outputsOf, mem_outpointsOf]
  intro o out out' hout hout'
  exact Option.some.inj ((mem_outputsOf.1 hout).2.symm.trans (mem_outputsOf.1 hout').2)

theorem Consistent.not_mem_of_insert (h : s.Consistent R) (hconflict : ¬ s.hasSpendConflicts tx.transaction.transaction = true) :
    tx.minedId ∉ s.transactions := by
  intro hmem
  have hsome := mem_iff_isSome_getElem?.1 hmem
  obtain ⟨tx', htx'⟩ := Option.isSome_iff_exists.1 hsome
  have hid : tx'.minedId = tx.minedId := h.keyed _ _ htx'
  have hsame : tx'.transaction.transaction = tx.transaction.transaction := by
    rw [← tx'.transaction.commits, ← tx.transaction.commits]
    exact congrArg TransactionIds.effects hid
  obtain ⟨spend, hspend⟩ := List.exists_mem_of_ne_nil _ (Transaction.spends_ne_nil tx.hasInputs tx.nonCoinbase)
  refine hconflict (hasSpendConflicts_iff.2 ⟨spend, hspend, (h.spent spend).2 ⟨_, tx', htx', ?_⟩⟩)
  rwa [spendsOf, hsame]

def Linked (R : TransactionHash → TransactionHash → Prop) (id : TransactionHash) (outpoints : List OutPoint) :
    TransactionHash → TransactionHash → Prop :=
  fun t p => R t p ∨ p ∈ outpoints.map OutPoint.hash ∧ t = id

theorem insert_eq_ok {outpoints : List OutPoint} {height : Option Nat} (h : s.insert tx outpoints height = .ok s') :
    ¬ s.hasSpendConflicts tx.transaction.transaction = true ∧ (∀ o ∈ outpoints, o ∈ s.createdOutputs) ∧
      s' = {
        transactions := s.transactions.insert tx.minedId { tx with height }
        transactionDependencies := s.transactionDependencies.add tx.minedId outpoints
        createdOutputs := s.createdOutputs.insertMany (outputsOf tx.minedId tx.transaction.transaction)
        transactionsSerializedSize := s.transactionsSerializedSize + tx.transaction.size
        totalCost := s.totalCost + tx.cost
        spentOutpoints := extend s.spentOutpoints tx.transaction.transaction.spentOutpoints
        sproutNullifiers := extend s.sproutNullifiers tx.transaction.transaction.sproutNullifiers
        saplingNullifiers := extend s.saplingNullifiers tx.transaction.transaction.saplingNullifiers
        orchardNullifiers := extend s.orchardNullifiers tx.transaction.transaction.orchardNullifiers } := by
  rw [insert] at h
  split at h
  · cases h
  rename_i hconflict
  split at h
  · cases h
  rename_i hmissing
  exact ⟨hconflict, by simpa using hmissing, (Except.ok.inj h).symm⟩

theorem Consistent.insert {outpoints : List OutPoint} {height : Option Nat} (h : s.Consistent R)
    (hinsert : s.insert tx outpoints height = .ok s') : s'.Consistent (Linked R tx.minedId outpoints) := by
  obtain ⟨hconflict, hcreated, rfl⟩ := insert_eq_ok hinsert
  have hnew := h.not_mem_of_insert hconflict
  have hnone : s.transactions[tx.minedId]? = none := getElem?_eq_none hnew
  have hstored : ∀ p ∈ outpoints.map OutPoint.hash, p ∈ s.transactions := by
    rintro p hp
    obtain ⟨o, ho, rfl⟩ := List.mem_map.1 hp
    obtain ⟨out, hout⟩ := mem_iff_exists.1 (hcreated o ho)
    obtain ⟨tx', htx', -⟩ := (h.created o out).1 hout
    exact mem_iff_isSome_getElem?.2 (by rw [htx']; rfl)
  have hclash : ∀ (id : TransactionHash) (tx' : VerifiedUnminedTx) (spend : MempoolSpend), s.transactions[id]? = some tx' →
      spend ∈ spendsOf tx → spend ∉ spendsOf tx' := fun id tx' spend htx' hspend hspend' =>
    hconflict (hasSpendConflicts_iff.2 ⟨spend, hspend, (h.spent spend).2 ⟨id, tx', htx', hspend'⟩⟩)
  have hget : ∀ (id : TransactionHash) (tx' : VerifiedUnminedTx),
      (s.transactions.insert tx.minedId { tx with height })[id]? = some tx' ↔
        id = tx.minedId ∧ tx' = { tx with height } ∨ s.transactions[id]? = some tx' := fun id tx' => by
    by_cases hid : tx.minedId = id
    · subst hid
      simp [hnone, eq_comm]
    · simp [getElem?_insert_of_ne hid, Ne.symm hid]
  constructor
  case keyed =>
    intro id tx' htx'
    rcases (hget id tx').1 htx' with ⟨rfl, rfl⟩ | hold
    · rfl
    · exact h.keyed id tx' hold
  case disjoint =>
    intro id id' tx₁ tx₂ spend h₁ h₂ hs₁ hs₂
    rcases (hget id tx₁).1 h₁ with ⟨rfl, rfl⟩ | hold₁ <;> rcases (hget id' tx₂).1 h₂ with ⟨rfl, rfl⟩ | hold₂
    · rfl
    · exact absurd hs₂ (hclash id' tx₂ spend hold₂ hs₁)
    · exact absurd hs₁ (hclash id tx₁ spend hold₁ hs₂)
    · exact h.disjoint id id' tx₁ tx₂ spend hold₁ hold₂ hs₁ hs₂
  case spent =>
    intro spend
    rw [hasSpent_of_extend rfl rfl rfl rfl, h.spent]
    constructor
    · rintro (⟨id, tx', htx', hspend⟩ | hspend)
      · exact ⟨id, tx', (hget id tx').2 (.inr htx'), hspend⟩
      · exact ⟨tx.minedId, _, (hget _ _).2 (.inl ⟨rfl, rfl⟩), hspend⟩
    · rintro ⟨id, tx', htx', hspend⟩
      rcases (hget id tx').1 htx' with ⟨rfl, rfl⟩ | hold
      · exact .inr hspend
      · exact .inl ⟨id, tx', hold, hspend⟩
  case created =>
    intro o out
    rw [getElem?_insert_outputs, h.created]
    constructor
    · rintro (⟨hhash, hout⟩ | ⟨-, tx', htx', hout⟩)
      · exact ⟨_, (hget _ _).2 (.inl ⟨hhash, rfl⟩), hout⟩
      · exact ⟨tx', (hget _ _).2 (.inr htx'), hout⟩
    · rintro ⟨tx', htx', hout⟩
      rcases (hget o.hash tx').1 htx' with ⟨hhash, rfl⟩ | hold
      · exact .inl ⟨hhash, hout⟩
      · refine .inr ⟨fun hand => ?_, tx', hold, hout⟩
        rw [hand.1, hnone] at hold
        cases hold
  case size =>
    rw [total_insert hnew, h.size, Nat.add_comm]
  case cost =>
    dsimp only
    rw [total_insert hnew, h.cost, Nat.add_comm]
    rfl
  case relates => exact h.relates.link (fun p hR => hnew (h.stored _ _ hR).1) _
  case stored =>
    rintro t p (hR | ⟨hp, rfl⟩)
    · obtain ⟨ht, hp⟩ := h.stored t p hR
      exact ⟨mem_insert.2 (.inr ht), mem_insert.2 (.inr hp)⟩
    · exact ⟨mem_insert_self, mem_insert.2 (.inr (hstored p hp))⟩
  case acyclic =>
    refine acyclic_link h.acyclic (fun t p hR heq => ?_) fun hmem => hnew (hstored _ hmem)
    exact hnew (heq ▸ (h.stored t p hR).2)

theorem Consistent.removeOne (h : s.Consistent R) (hfree : ∀ t p, R t p → t ≠ key ∧ p ≠ key)
    (hkey : s.transactions[key]? = some tx) :
    ∃ s', (s.removeOne key : MempoolExec _) = .ok (some tx, s') ∧ s'.Consistent R ∧
      s'.transactions = s.transactions.erase key ∧ s'.transactionDependencies = s.transactionDependencies := by
  have hid : tx.minedId = key := h.keyed key tx hkey
  have hget : ∀ (id : TransactionHash) (tx' : VerifiedUnminedTx),
      (s.transactions.erase key)[id]? = some tx' ↔ id ≠ key ∧ s.transactions[id]? = some tx' := fun id tx' => by
    by_cases heq : key = id
    · subst heq
      simp
    · simp [getElem?_erase_of_ne heq, Ne.symm heq]
  have hsize : tx.transaction.size ≤ s.transactionsSerializedSize := by
    rw [h.size]
    exact le_total (f := fun tx => tx.transaction.size) hkey
  have hcost : tx.cost ≤ s.totalCost := by
    rw [h.cost]
    exact le_total hkey
  have hrun : (s.removeOne key : MempoolExec _) = .ok (some tx, VerifiedSet.removeOutputs
      { s with
        transactions := s.transactions.erase key
        transactionsSerializedSize := s.transactionsSerializedSize - tx.transaction.size
        totalCost := s.totalCost - tx.cost } tx.transaction) := by
    rw [VerifiedSet.removeOne, hkey]
    dsimp only
    rw [check, if_pos hsize, ok_bind, check, if_pos hcost, ok_bind]
    rfl
  refine ⟨_, hrun, ⟨?_, ?_, ?_, ?_, ?_, ?_, h.relates, ?_, h.acyclic⟩, rfl, rfl⟩
  · intro id tx' htx'
    exact h.keyed id tx' ((hget id tx').1 htx').2
  · intro id id' tx₁ tx₂ spend h₁ h₂
    exact h.disjoint id id' tx₁ tx₂ spend ((hget id tx₁).1 h₁).2 ((hget id' tx₂).1 h₂).2
  · intro spend
    rw [hasSpent_removeOutputs]
    refine (and_congr_left fun _ => h.spent spend).trans ?_
    constructor
    · rintro ⟨⟨id, tx', htx', hspend⟩, hnot⟩
      refine ⟨id, tx', (hget id tx').2 ⟨?_, htx'⟩, hspend⟩
      rintro rfl
      obtain rfl := Option.some.inj (hkey.symm.trans htx')
      exact hnot hspend
    · rintro ⟨id, tx', htx', hspend⟩
      obtain ⟨hne, hold⟩ := (hget id tx').1 htx'
      exact ⟨⟨id, tx', hold, hspend⟩, fun hspend' => hne (h.disjoint id key tx' tx spend hold hkey hspend hspend')⟩
  · intro o out
    change (s.createdOutputs.eraseAll _)[o]? = some out ↔ ∃ tx', (s.transactions.erase key)[o.hash]? = some tx' ∧ _
    have hmem : o ∈ (List.range tx.transaction.transaction.outputs.length).map (OutPoint.mk tx.transaction.id.minedId) ↔
        o.hash = key ∧ o.index < tx.transaction.transaction.outputs.length := by
      rw [List.mem_map]
      constructor
      · rintro ⟨index, hindex, rfl⟩
        exact ⟨hid, List.mem_range.1 hindex⟩
      · rintro ⟨hhash, hindex⟩
        exact ⟨o.index, List.mem_range.2 hindex, OutPoint.ext (hid.trans hhash.symm) rfl⟩
    rw [getElem?_eraseAll]
    constructor
    · intro hout
      split at hout
      · cases hout
      rename_i hnot
      obtain ⟨tx', htx', hout⟩ := (h.created o out).1 hout
      refine ⟨tx', (hget o.hash tx').2 ⟨fun hhash => hnot (hmem.2 ⟨hhash, ?_⟩), htx'⟩, hout⟩
      rw [hhash] at htx'
      obtain rfl := Option.some.inj (hkey.symm.trans htx')
      exact (List.getElem?_eq_some_iff.1 hout).1
    · rintro ⟨tx', htx', hout⟩
      obtain ⟨hne, hold⟩ := (hget o.hash tx').1 htx'
      rw [if_neg fun hin => hne (hmem.1 hin).1]
      exact (h.created o out).2 ⟨tx', hold, hout⟩
  · have htotal := total_eq_add_erase (f := fun tx => tx.transaction.size) hkey
    rw [h.size, htotal, Nat.add_sub_cancel_left]
    rfl
  · have htotal := total_eq_add_erase (f := VerifiedUnminedTx.cost) hkey
    rw [h.cost, htotal, Nat.add_sub_cancel_left]
    rfl
  · intro t p hR
    obtain ⟨ht, hp⟩ := h.stored t p hR
    obtain ⟨hnt, hnp⟩ := hfree t p hR
    exact ⟨mem_erase.2 ⟨LawfulEqOrd.compare_eq_iff_eq.ne.2 hnt.symm, ht⟩,
      mem_erase.2 ⟨LawfulEqOrd.compare_eq_iff_eq.ne.2 hnp.symm, hp⟩⟩

theorem Consistent.removeEach {keys : List TransactionHash} (h : s.Consistent R) (hnodup : keys.Nodup)
    (hfree : ∀ t p, R t p → t ∉ keys ∧ p ∉ keys) (hmem : ∀ key ∈ keys, key ∈ s.transactions) :
    ∃ removed s', (s.removeEach keys : MempoolExec _) = .ok (removed, s') ∧ s'.Consistent R ∧
      s'.transactions = s.transactions.eraseAll keys ∧ removed.map some = keys.map fun key => s.transactions[key]? := by
  induction keys generalizing s with
  | nil => exact ⟨[], s, rfl, h, rfl, rfl⟩
  | cons key keys ih =>
    obtain ⟨hkey, hnodup⟩ := List.nodup_cons.1 hnodup
    obtain ⟨tx, htx⟩ := mem_iff_exists.1 (hmem key List.mem_cons_self)
    have hfirst : ∀ t p, R t p → t ≠ key ∧ p ≠ key := fun t p hR => by
      obtain ⟨ht, hp⟩ := hfree t p hR
      exact ⟨fun heq => ht (heq ▸ List.mem_cons_self), fun heq => hp (heq ▸ List.mem_cons_self)⟩
    obtain ⟨s₁, hone, hs₁, htransactions, -⟩ := h.removeOne hfirst htx
    have hne : ∀ k ∈ keys, key ≠ k := fun k hk heq => hkey (heq ▸ hk)
    obtain ⟨removed, s', hrest, hs', htransactions', hremoved⟩ := ih hs₁ hnodup
      (fun t p hR => ⟨fun ht => (hfree t p hR).1 (List.mem_cons_of_mem _ ht), fun hp => (hfree t p hR).2 (List.mem_cons_of_mem _ hp)⟩)
      fun k hk => by
        rw [htransactions]
        exact mem_erase.2 ⟨LawfulEqOrd.compare_eq_iff_eq.ne.2 (hne k hk), hmem k (List.mem_cons_of_mem _ hk)⟩
    refine ⟨tx :: removed, s', ?_, hs', ?_, ?_⟩
    · rw [VerifiedSet.removeEach, hone, ok_bind]
      dsimp only
      rw [hrest, ok_bind]
      rfl
    · rw [htransactions', htransactions]
      rfl
    · rw [List.map_cons, List.map_cons, hremoved, htx]
      refine congrArg _ (List.map_congr_left fun k hk => ?_)
      rw [htransactions, getElem?_erase_of_ne (hne k hk)]

structure RemovedFrom (s s' : VerifiedSet) (gone : TransactionHash → Prop) (R : TransactionHash → TransactionHash → Prop) : Prop where
  consistent : s'.Consistent fun t p => R t p ∧ ¬ gone t
  kept : ∀ (id : TransactionHash) (tx : VerifiedUnminedTx),
    s'.transactions[id]? = some tx ↔ ¬ gone id ∧ s.transactions[id]? = some tx

theorem Consistent.mem_of_below (h : s.Consistent R) (hkey : key ∈ s.transactions) (hbelow : Below R key id) :
    id ∈ s.transactions := by
  induction hbelow with
  | refl => exact hkey
  | tail _ hR _ => exact (h.stored _ _ hR).1

theorem Consistent.remove (h : s.Consistent R) (order : IterationOrder TransactionHash) (hkey : s.transactions[key]? = some tx) :
    ∃ removed s', (s.remove order key : MempoolExec _) = .ok (removed, s') ∧
      RemovedFrom s s' (Below R key) R ∧ removed.getLast? = some tx ∧
      ∀ tx', tx' ∈ removed ↔ ∃ id, Below R key id ∧ s.transactions[id]? = some tx' := by
  obtain ⟨all, dependencies, hall, hrelates, hbelow, htrans⟩ := h.relates.removeAll order key
  have hmem : key ∈ s.transactions := mem_iff_exists.2 ⟨_, hkey⟩
  have hkeys : ∀ id, id ∈ order.arrange all.keys ++ [key] ↔ Below R key id := fun id => by
    rw [List.mem_append, List.mem_singleton, (order.perm _).mem_iff, mem_keys, hbelow, or_comm]
  have hnot : key ∉ all := fun hin => h.acyclic key (Relation.transGen_swap.1 (htrans key hin))
  have hnodup : (order.arrange all.keys ++ [key]).Nodup := by
    rw [List.nodup_append]
    refine ⟨(order.perm _).nodup_iff.2 nodup_keys, List.nodup_singleton _, fun a ha b hb heq => ?_⟩
    rw [List.mem_singleton.1 hb] at heq
    rw [(order.perm _).mem_iff, mem_keys, heq] at ha
    exact hnot ha
  have hcut : Consistent { s with transactionDependencies := dependencies } fun t p => R t p ∧ ¬ Below R key t :=
    ⟨h.keyed, h.disjoint, h.spent, h.created, h.size, h.cost, hrelates, fun t p hR => h.stored t p hR.1,
      fun t ht => h.acyclic t (Relation.TransGen.mono (fun _ _ hR => hR.1) _ _ ht)⟩
  obtain ⟨removed, s', hrun, hs', htransactions, hremoved⟩ := hcut.removeEach hnodup
    (fun t p hR => ⟨fun ht => hR.2 ((hkeys t).1 ht), fun hp => hR.2 (((hkeys p).1 hp).tail hR.1)⟩)
    fun id hid => h.mem_of_below hmem ((hkeys id).1 hid)
  refine ⟨removed, s', ?_, ⟨hs', fun id tx' => ?_⟩, ?_, fun tx' => ?_⟩
  · rw [VerifiedSet.remove, hall]
    exact hrun
  · rw [htransactions, getElem?_eraseAll]
    split
    · rename_i hin
      simp [(hkeys id).1 hin]
    · rename_i hin
      simp [(hkeys id).not.1 hin]
  · have hlast := congrArg List.getLast? hremoved
    rw [List.getLast?_map, List.map_append, List.map_singleton, List.getLast?_concat] at hlast
    cases hremoved? : removed.getLast? with
    | none => simp [hremoved?] at hlast
    | some last =>
      rw [hremoved?, Option.map_some] at hlast
      exact (Option.some.inj hlast).trans hkey
  · have hin : tx' ∈ removed ↔ some tx' ∈ removed.map some := by simp
    rw [hin, hremoved, List.mem_map]
    exact exists_congr fun id => and_congr_left fun _ => hkeys id

variable {gone gone' : TransactionHash → Prop}

theorem Consistent.congr {R' : TransactionHash → TransactionHash → Prop} (h : s.Consistent R) (hR : ∀ t p, R t p ↔ R' t p) :
    s.Consistent R' := by
  obtain rfl : R = R' := funext fun t => funext fun p => propext (hR t p)
  exact h

theorem RemovedFrom.congr (h : RemovedFrom s s' gone R) (hgone : ∀ id, gone id ↔ gone' id) : RemovedFrom s s' gone' R := by
  obtain rfl : gone = gone' := funext fun id => propext (hgone id)
  exact h

theorem Consistent.removedFrom_self (h : s.Consistent R) : RemovedFrom s s (fun _ => False) R :=
  ⟨h.congr fun t p => by simp, fun id tx => by simp⟩

theorem RemovedFrom.trans {s'' : VerifiedSet} (h : RemovedFrom s s' gone R)
    (h' : RemovedFrom s' s'' gone' fun t p => R t p ∧ ¬ gone t) : RemovedFrom s s'' (fun id => gone id ∨ gone' id) R := by
  refine ⟨h'.consistent.congr fun t p => ?_, fun id tx => ?_⟩
  · rw [not_or, and_assoc]
  · rw [h'.kept, h.kept, not_or, and_left_comm, and_assoc]

theorem Consistent.eq_of_below (h : s.Consistent R) (hkey : key ∉ s.transactions) (hbelow : Below R key id) : id = key := by
  induction hbelow with
  | refl => rfl
  | tail _ hR ih =>
    subst ih
    exact absurd (h.stored _ _ hR).2 hkey

theorem RemovedFrom.or_missing (h : RemovedFrom s s' gone R) (hs : s.Consistent R) (hkey : key ∉ s.transactions) :
    RemovedFrom s s' (fun id => Below R key id ∨ gone id) R := by
  refine ⟨h.consistent.congr fun t p => and_congr_right fun hR => ?_, fun id tx => ?_⟩
  · have hnot : ¬ Below R key t := fun hbelow => hkey (hs.eq_of_below hkey hbelow ▸ (hs.stored t p hR).1)
    simp [hnot]
  · rw [h.kept]
    refine and_congr_left fun htx => ?_
    have hnot : ¬ Below R key id := fun hbelow => hkey (by
      rw [← hs.eq_of_below hkey hbelow]
      exact mem_iff_exists.2 ⟨_, htx⟩)
    simp [hnot]

def Reports (removed : List UnminedTxId) (s : VerifiedSet) (gone : TransactionHash → Prop) : Prop :=
  ∀ unminedId, unminedId ∈ removed ↔
    ∃ (id : TransactionHash) (tx : VerifiedUnminedTx), gone id ∧ s.transactions[id]? = some tx ∧ tx.transaction.id = unminedId

theorem Reports.congr {removed : List UnminedTxId} (h : Reports removed s gone) (hgone : ∀ id, gone id ↔ gone' id) :
    Reports removed s gone' := by
  obtain rfl : gone = gone' := funext fun id => propext (hgone id)
  exact h

theorem Consistent.removeKeys (h : s.Consistent R) (order : IterationOrder TransactionHash) (keys : List TransactionHash) :
    ∃ removed s', (s.removeKeys order keys : MempoolExec _) = .ok (removed, s') ∧
      RemovedFrom s s' (fun id => ∃ key ∈ keys, Below R key id) R ∧ Reports removed s fun id => ∃ key ∈ keys, Below R key id := by
  induction keys generalizing s R with
  | nil => exact ⟨[], s, rfl, h.removedFrom_self.congr fun id => by simp, fun id => by simp⟩
  | cons key keys ih =>
    have hcons : ∀ id, (∃ k ∈ key :: keys, Below R k id) ↔ Below R key id ∨ ∃ k ∈ keys, Below R k id := fun id => by simp
    rw [VerifiedSet.removeKeys]
    split
    · rename_i hkey
      obtain ⟨tx, htx⟩ := mem_iff_exists.1 hkey
      obtain ⟨removed, s₁, hrun, hremoved, -, hmem⟩ := h.remove order htx
      obtain ⟨rest, s', hrun', hrest, hreports⟩ := ih hremoved.consistent
      have hgone : ∀ id, Below R key id ∨ (∃ k ∈ keys, Below (fun t p => R t p ∧ ¬ Below R key t) k id) ↔
          ∃ k ∈ key :: keys, Below R k id := fun id => by
        rw [hcons]
        constructor
        · rintro (hbelow | ⟨k, hk, hbelow⟩)
          · exact .inl hbelow
          · exact .inr ⟨k, hk, hbelow.mono fun _ _ hR => hR.1⟩
        · rintro (hbelow | ⟨k, hk, hbelow⟩)
          · exact .inl hbelow
          · exact hbelow.restrict.imp_right fun hrestricted => ⟨k, hk, hrestricted⟩
      refine ⟨removed.map (fun tx => tx.transaction.id) ++ rest, s', ?_, (hremoved.trans hrest).congr hgone, fun unminedId => ?_⟩
      · rw [hrun, ok_bind]
        dsimp only
        rw [hrun', ok_bind]
        rfl
      · rw [List.mem_append, List.mem_map, hreports]
        constructor
        · rintro (⟨tx', htx', rfl⟩ | ⟨id, tx', hid, htx', rfl⟩)
          · obtain ⟨id, hbelow, hget⟩ := (hmem tx').1 htx'
            exact ⟨id, tx', (hgone id).1 (.inl hbelow), hget, rfl⟩
          · exact ⟨id, tx', (hgone id).1 (.inr hid), ((hremoved.kept id tx').1 htx').2, rfl⟩
        · rintro ⟨id, tx', hid, hget, rfl⟩
          by_cases hbelow : Below R key id
          · exact .inl ⟨tx', (hmem tx').2 ⟨id, hbelow, hget⟩, rfl⟩
          · exact .inr ⟨id, tx', ((hgone id).2 hid).resolve_left hbelow, (hremoved.kept id tx').2 ⟨hbelow, hget⟩, rfl⟩
    · rename_i hkey
      obtain ⟨removed, s', hrun, hremoved, hreports⟩ := ih h
      refine ⟨removed, s', hrun, (hremoved.or_missing h hkey).congr fun id => (hcons id).symm, fun unminedId => ?_⟩
      rw [hreports]
      refine exists_congr fun id => exists_congr fun tx => and_congr_left fun hget => ?_
      dsimp only
      rw [hcons]
      refine ⟨.inr, fun hor => hor.resolve_left fun hbelow => hkey ?_⟩
      rw [← h.eq_of_below hkey hbelow]
      exact mem_iff_exists.2 ⟨_, hget.1⟩

def Matched (s : VerifiedSet) (R : TransactionHash → TransactionHash → Prop) (predicate : VerifiedUnminedTx → Bool)
    (id : TransactionHash) : Prop :=
  ∃ (key : TransactionHash) (tx : VerifiedUnminedTx), s.transactions[key]? = some tx ∧ predicate tx = true ∧ Below R key id

theorem Consistent.removeAllThat (h : s.Consistent R) (order : IterationOrder TransactionHash)
    (predicate : VerifiedUnminedTx → Bool) :
    ∃ removed s', (s.removeAllThat order predicate : MempoolExec _) = .ok (removed, s') ∧
      RemovedFrom s s' (s.Matched R predicate) R ∧ Reports removed s (s.Matched R predicate) := by
  obtain ⟨removed, s', hrun, hremoved, hreports⟩ :=
    h.removeKeys order (order.arrange ((s.transactions.filter fun _ tx => predicate tx).keys))
  have hmatched : ∀ id, (∃ key ∈ order.arrange ((s.transactions.filter fun _ tx => predicate tx).keys), Below R key id) ↔
      s.Matched R predicate id := fun id => by
    refine exists_congr fun key => ?_
    rw [(order.perm _).mem_iff, mem_keys, mem_iff_isSome_getElem?, getElem?_filter',
      Option.isSome_iff_exists]
    simp only [Option.filter_eq_some_iff]
    constructor
    · rintro ⟨⟨tx, htx, hpred⟩, hbelow⟩
      exact ⟨tx, htx, hpred, hbelow⟩
    · rintro ⟨tx, htx, hpred, hbelow⟩
      exact ⟨⟨tx, htx, hpred⟩, hbelow⟩
  exact ⟨removed, s', hrun, hremoved.congr hmatched, hreports.congr hmatched⟩

theorem Consistent.clearMinedDependencies (h : s.Consistent R) (minedIds : List TransactionHash) :
    (s.clearMinedDependencies minedIds).Consistent fun t p => R t p ∧ p ∉ minedIds :=
  ⟨h.keyed, h.disjoint, h.spent, h.created, h.size, h.cost, h.relates.unlinkAll minedIds, fun t p hR => h.stored t p hR.1,
    fun t ht => h.acyclic t (Relation.TransGen.mono (fun _ _ hR => hR.1) _ _ ht)⟩

theorem Consistent.evictOne (h : s.Consistent R) (order : IterationOrder TransactionHash) (sampler : WeightedSampler)
    (hcost : 0 < s.totalCost) :
    ∃ (key : TransactionHash) (tx : VerifiedUnminedTx) (s' : VerifiedSet),
      (s.evictOne order sampler : MempoolExec _) = .ok (some tx, s') ∧
      s.transactions[key]? = some tx ∧ RemovedFrom s s' (Below R key) R := by
  have hne : s.transactions.toList ≠ [] := fun hnil => by
    rw [h.cost, total, hnil] at hcost
    exact absurd hcost (Nat.lt_irrefl 0)
  have hweights : 0 < (s.transactions.toList.map fun e => e.2.evictionWeight).sum := by
    obtain ⟨e, he⟩ := List.exists_mem_of_ne_nil _ hne
    exact List.sum_pos_iff_exists_pos_nat.2 ⟨_, List.mem_map_of_mem he, e.2.evictionWeight_pos⟩
  obtain ⟨w, hw, -⟩ := sampler.valid _ hweights
  rw [List.getElem?_map, Option.map_eq_some_iff] at hw
  obtain ⟨⟨key, tx⟩, hentry, -⟩ := hw
  have hkey : s.transactions.keys[sampler.sample (s.transactions.toList.map fun e => e.2.evictionWeight)]? = some key := by
    rw [← map_fst_toList_eq_keys, List.getElem?_map, hentry]
    rfl
  have htx : s.transactions[key]? = some tx := mem_toList_iff_getElem?_eq_some.1 (List.mem_of_getElem? hentry)
  obtain ⟨removed, s', hrun, hremoved, hlast, -⟩ := h.remove order htx
  refine ⟨key, tx, s', ?_, htx, hremoved⟩
  rw [VerifiedSet.evictOne]
  dsimp only
  rw [check, if_pos hweights, ok_bind, hkey, expect, ok_bind, hrun, ok_bind, hlast]
  rfl

end Zebra.VerifiedSet
