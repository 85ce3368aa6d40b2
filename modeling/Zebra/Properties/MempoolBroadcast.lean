import Zebra.Lib.Guarded
import Zebra.Mempool.Poll
import Zebra.Properties.MempoolInvariant

namespace Zebra.Properties

open Lib Std VerifiedSet Mempool DependencyMaps ExtTreeMap Storage KeyedMap

section

variable [TransactionIds]

/-- Ids that are added are held until they are invalidated or mined. -/
def listen (held : KeyedMap UnminedTxId Unit) : MempoolChange → KeyedMap UnminedTxId Unit
  | .added txIds => extend held txIds
  | .invalidated txIds | .mined txIds => held.eraseAll txIds

structure Listening [TransactionIds] where
  storage : Storage
  now : Nat
  held : KeyedMap UnminedTxId Unit

def pollStep [StandardPolicy] (s : Listening) (event : Nat × PollInput) : MempoolExec Listening := do
  let (sent, storage) ← pollReady (s.now + event.1) s.storage event.2
  return ⟨storage, s.now + event.1, sent.foldl listen s.held⟩

def settledId (bestTipHeight : Option Nat) : DownloadResult → Option UnminedTxId
  | .verified tx _ expectedTipHeight _ _ => if bestTipHeight = expectedTipHeight then some tx.transaction.id else none
  | .failed txId _ => some txId
  | .elapsed => none

def verifiedTx : DownloadResult → Option VerifiedUnminedTx
  | .verified tx _ _ _ _ => some tx
  | .failed _ _ | .elapsed => none

def resultOutpoints : DownloadResult → List OutPoint
  | .verified _ spentMempoolOutpoints _ _ _ => spentMempoolOutpoints
  | .failed _ _ | .elapsed => []

def resultCost (result : DownloadResult) : Nat := ((verifiedTx result).map VerifiedUnminedTx.cost).getD 0

/-- The stored transactions, and those that can be stored in this poll. -/
def candidates (storage : Storage) (input : PollInput) : List VerifiedUnminedTx :=
  storage.verified.transactions.toList.map Prod.snd ++ input.results.filterMap verifiedTx

/-- A transaction that expires has no dependents. -/
def ExpireAlone (storage : Storage) (input : PollInput) : Prop :=
  ∀ tipHeight ∈ input.bestTipHeight, ∀ tx ∈ candidates storage input, isExpired tipHeight tx = true →
    (storage.verified.transactionDependencies.directDependents tx.minedId).isEmpty = true ∧
      tx.minedId ∉ (input.results.flatMap resultOutpoints).map OutPoint.hash

/-- Nothing has to be evicted in this poll, each result is about another transaction that is not
stored, and transactions expire alone. -/
def Announced (s : Listening) (event : Nat × PollInput) : Prop :=
  s.storage.verified.totalCost + (event.2.results.map resultCost).sum ≤ s.storage.txCostLimit ∧
    (event.2.results.filterMap (settledId event.2.bestTipHeight)).Nodup ∧
    (∀ id ∈ event.2.results.filterMap (settledId event.2.bestTipHeight), id ∉ s.storage.txIds) ∧ ExpireAlone s.storage event.2

instance (storage : Storage) (input : PollInput) : Decidable (ExpireAlone storage input) :=
  match h : input.bestTipHeight with
  | none => isTrue fun tipHeight htip => by simp [h] at htip
  | some tipHeight =>
    decidable_of_iff (∀ tx ∈ candidates storage input, isExpired tipHeight tx = true →
      (storage.verified.transactionDependencies.directDependents tx.minedId).isEmpty = true ∧
        tx.minedId ∉ (input.results.flatMap resultOutpoints).map OutPoint.hash)
      ⟨fun hall t ht => by
        obtain rfl : tipHeight = t := by simpa [h] using ht
        exact hall, fun hall => hall tipHeight (by simp [h])⟩

instance (s : Listening) (event : Nat × PollInput) : Decidable (Announced s event) :=
  inferInstanceAs (Decidable (_ ∧ _ ∧ _ ∧ _))

def Stores (v : VerifiedSet) (unminedId : UnminedTxId) : Prop :=
  ∃ (id : TransactionHash) (tx : VerifiedUnminedTx), v.transactions[id]? = some tx ∧ tx.transaction.id = unminedId

variable {v v' : VerifiedSet} {s s' : Storage} {R : TransactionHash → TransactionHash → Prop} {gone : TransactionHash → Prop}
  {removed : List UnminedTxId} {unminedId : UnminedTxId}

theorem mem_txIds : unminedId ∈ s.txIds ↔ Stores s.verified unminedId := by
  rw [txIds, List.mem_map]
  constructor
  · rintro ⟨e, he, rfl⟩
    exact ⟨e.1, e.2, mem_toList_iff_getElem?_eq_some.1 he, rfl⟩
  · rintro ⟨id, tx, htx, rfl⟩
    exact ⟨(id, tx), mem_toList_iff_getElem?_eq_some.2 htx, rfl⟩

theorem stores_of_removed (hv : v.Consistent R) (h : v.RemovedFrom v' gone R) (hreports : Reports removed v gone) :
    Stores v' unminedId ↔ Stores v unminedId ∧ unminedId ∉ removed := by
  constructor
  · rintro ⟨id, tx, htx, rfl⟩
    obtain ⟨hnot, hold⟩ := (h.kept id tx).1 htx
    refine ⟨⟨id, tx, hold, rfl⟩, fun hmem => ?_⟩
    obtain ⟨id', tx', hgone, htx', heq⟩ := (hreports _).1 hmem
    have hid : id' = id := by
      rw [← hv.keyed id tx hold, ← hv.keyed id' tx' htx', VerifiedUnminedTx.minedId, heq]
      rfl
    exact hnot (hid ▸ hgone)
  · rintro ⟨⟨id, tx, htx, rfl⟩, hnot⟩
    refine ⟨id, tx, (h.kept id tx).2 ⟨fun hgone => hnot ?_, htx⟩, rfl⟩
    exact (hreports _).2 ⟨id, tx, hgone, htx, rfl⟩

theorem stores_of_insert {tx : VerifiedUnminedTx} {outpoints : List OutPoint} {height : Option Nat} (hv : v.Consistent R)
    (h : v.insert tx outpoints height = .ok v') : Stores v' unminedId ↔ Stores v unminedId ∨ unminedId = tx.transaction.id := by
  obtain ⟨hconflict, -, rfl⟩ := insert_eq_ok h
  have hnone : v.transactions[tx.minedId]? = none := getElem?_eq_none (hv.not_mem_of_insert hconflict)
  constructor
  · rintro ⟨id, tx', htx', rfl⟩
    by_cases hid : tx.minedId = id
    · subst hid
      rw [getElem?_insert_self, Option.some.injEq] at htx'
      subst htx'
      exact .inr rfl
    · rw [getElem?_insert_of_ne hid] at htx'
      exact .inl ⟨id, tx', htx', rfl⟩
  · rintro (⟨id, tx', htx', rfl⟩ | rfl)
    · refine ⟨id, tx', ?_, rfl⟩
      rwa [getElem?_insert_of_ne]
      rintro rfl
      rw [hnone] at htx'
      cases htx'
    · exact ⟨tx.minedId, _, getElem?_insert_self, rfl⟩

variable [StandardPolicy]

/-- The poll after the results `done`, from the storage `s` with dependencies `R₀`. -/
structure Handled (s : Storage) (R₀ : TransactionHash → TransactionHash → Prop) (bestTipHeight : Option Nat)
    (done : List DownloadResult) (c : Collected) (R : TransactionHash → TransactionHash → Prop) : Prop where
  consistent : c.storage.verified.Consistent R
  cost : c.storage.verified.totalCost ≤ s.verified.totalCost + (done.map resultCost).sum
  limit : c.storage.txCostLimit = s.txCostLimit
  stores : ∀ unminedId, Stores c.storage.verified unminedId ↔ Stores s.verified unminedId ∨ unminedId ∈ c.sendToPeersIds
  settled : ∀ unminedId, unminedId ∈ c.sendToPeersIds ∨ unminedId ∈ c.invalidatedIds →
    unminedId ∈ done.filterMap (settledId bestTipHeight)
  apart : ∀ unminedId ∈ c.invalidatedIds, unminedId ∉ c.sendToPeersIds
  mined : c.minedMempoolIds = []
  edges : ∀ t p, R t p → R₀ t p ∨ p ∈ (done.flatMap resultOutpoints).map OutPoint.hash
  origin : ∀ (id : TransactionHash) (tx : VerifiedUnminedTx), c.storage.verified.transactions[id]? = some tx →
    ∃ tx' ∈ s.verified.transactions.toList.map Prod.snd ++ done.filterMap verifiedTx,
      tx'.minedId = id ∧ tx'.transaction = tx.transaction

variable {R₀ : TransactionHash → TransactionHash → Prop} {bestTipHeight : Option Nat} {done : List DownloadResult} {c c' : Collected}

omit [StandardPolicy] in
theorem handled_start (h : s.verified.Consistent R₀) : Handled s R₀ bestTipHeight [] ⟨s, [], [], []⟩ R₀ where
  consistent := h
  cost := le_rfl
  limit := rfl
  stores _ := by simp
  settled _ hor := by simp at hor
  apart _ hmem := nomatch hmem
  mined := rfl
  edges _ _ hR := .inl hR
  origin id tx htx := by
    refine ⟨tx, List.mem_append_left _ (List.mem_map_of_mem (mem_toList_iff_getElem?_eq_some.2 htx)), ?_, rfl⟩
    exact h.keyed id tx htx

variable {result : DownloadResult} {now : Nat} {order : IterationOrder TransactionHash}

omit [StandardPolicy] in
theorem Handled.unchanged {storage : Storage} (h : Handled s R₀ bestTipHeight done c R) (ids : List UnminedTxId)
    (hverified : storage.verified = c.storage.verified) (hlimit : storage.txCostLimit = c.storage.txCostLimit)
    (hids : ∀ id ∈ ids, settledId bestTipHeight result = some id) (hnew : ∀ id ∈ ids, id ∉ done.filterMap (settledId bestTipHeight)) :
    Handled s R₀ bestTipHeight (done ++ [result]) { c with storage, invalidatedIds := ids ++ c.invalidatedIds } R where
  consistent := hverified ▸ h.consistent
  cost := by
    rw [hverified, List.map_append, List.sum_append]
    exact h.cost.trans (Nat.add_le_add_left (Nat.le_add_right _ _) _)
  limit := hlimit.trans h.limit
  stores id := by
    rw [hverified]
    exact h.stores id
  settled id hor := by
    rw [List.filterMap_append, List.mem_append]
    rcases hor with hsent | hmem
    · exact .inl (h.settled id (.inl hsent))
    · rcases List.mem_append.1 hmem with hmem | hmem
      · exact .inr (List.mem_filterMap.2 ⟨result, List.mem_singleton_self _, hids id hmem⟩)
      · exact .inl (h.settled id (.inr hmem))
  apart id hmem := by
    rcases List.mem_append.1 hmem with hmem | hmem
    · exact fun hsent => hnew id hmem (h.settled id (.inl hsent))
    · exact h.apart id hmem
  mined := h.mined
  edges t p hR := by
    refine (h.edges t p hR).imp_right fun hp => ?_
    rw [List.flatMap_append, List.map_append]
    exact List.mem_append_left _ hp
  origin id tx htx := by
    rw [hverified] at htx
    obtain ⟨tx', htx', hid, heq⟩ := h.origin id tx htx
    refine ⟨tx', ?_, hid, heq⟩
    rw [List.filterMap_append, ← List.append_assoc]
    exact List.mem_append_left _ htx'

theorem Handled.step (h : Handled s R₀ bestTipHeight done c R)
    (hcost : s.verified.totalCost + ((done ++ [result]).map resultCost).sum ≤ s.txCostLimit)
    (hnodup : ((done ++ [result]).filterMap (settledId bestTipHeight)).Nodup)
    (hstep : (handleResult now bestTipHeight c result : MempoolExec _) = .ok c') :
    ∃ R', Handled s R₀ bestTipHeight (done ++ [result]) c' R' := by
  have hnew : ∀ id, settledId bestTipHeight result = some id → id ∉ done.filterMap (settledId bestTipHeight) := fun id hid hmem => by
    rw [List.filterMap_append, List.nodup_append] at hnodup
    exact hnodup.2.2 id hmem id (List.mem_filterMap.2 ⟨result, List.mem_singleton_self _, hid⟩) rfl
  cases result with
  | elapsed =>
    cases hstep
    exact ⟨R, h.unchanged [] rfl rfl nofun nofun⟩
  | failed txId error =>
    obtain ⟨storage, hreject, hstep⟩ := bind_eq_ok.1 hstep
    cases hstep
    have hkept : storage.verified = c.storage.verified ∧ storage.txCostLimit = c.storage.txCostLimit := by
      cases error <;> obtain rfl := Except.ok.inj hreject <;> exact ⟨rfl, rfl⟩
    have hid : ∀ id ∈ [txId], settledId bestTipHeight (.failed txId error) = some id := fun id hmem => by
      rw [List.mem_singleton.1 hmem]
      rfl
    exact ⟨R, h.unchanged [txId] hkept.1 hkept.2 hid fun id hmem => hnew id (hid id hmem)⟩
  | verified tx outpoints expectedTipHeight order samplers =>
    rw [handleResult] at hstep
    split at hstep
    · rename_i htip
      have hid : settledId bestTipHeight (.verified tx outpoints expectedTipHeight order samplers) = some tx.transaction.id := if_pos htip
      obtain ⟨⟨outcome, storage⟩, hinsert, hstep⟩ := bind_eq_ok.1 hstep
      have hroom : c.storage.verified.totalCost + tx.cost ≤ c.storage.txCostLimit := by
        have htotal := h.cost
        rw [List.map_append, List.sum_append] at hcost
        change _ + (_ + (tx.cost + 0)) ≤ _ at hcost
        rw [h.limit]
        omega
      obtain ⟨hlimit, ⟨rfl, hset⟩ | ⟨⟨e, rfl⟩, hverified⟩⟩ := insert_cases hroom hinsert
      · cases hstep
        refine ⟨_, ⟨h.consistent.insert hset, ?_, hlimit.trans h.limit, fun id => ?_, fun id hor => ?_, fun id hmem => ?_, h.mined,
          fun t p hR => ?_, fun id tx' htx' => ?_⟩⟩
        · have hv : storage.verified.totalCost = c.storage.verified.totalCost + tx.cost := by
            obtain ⟨-, -, heq⟩ := insert_eq_ok hset
            rw [heq]
          have htotal := h.cost
          rw [List.map_append, List.sum_append]
          change _ ≤ _ + (_ + (tx.cost + 0))
          dsimp only
          omega
        · rw [stores_of_insert h.consistent hset, h.stores, List.mem_cons, or_assoc]
          exact or_congr_right or_comm
        · rw [List.filterMap_append, List.mem_append]
          rcases hor with hsent | hmem
          · rcases List.mem_cons.1 hsent with rfl | hsent
            · exact .inr (List.mem_filterMap.2 ⟨_, List.mem_singleton_self _, hid⟩)
            · exact .inl (h.settled id (.inl hsent))
          · exact .inl (h.settled id (.inr hmem))
        · rw [List.mem_cons]
          rintro (rfl | hsent)
          · exact hnew _ hid (h.settled _ (.inr hmem))
          · exact h.apart id hmem hsent
        · rw [List.flatMap_append, List.map_append, List.mem_append]
          rcases hR with hR | ⟨hp, -⟩
          · exact (h.edges t p hR).imp_right .inl
          · exact .inr (.inr (by simpa [resultOutpoints] using hp))
        · obtain ⟨-, -, heq⟩ := insert_eq_ok hset
          dsimp only at htx'
          rw [heq] at htx'
          rw [List.filterMap_append, ← List.append_assoc]
          by_cases hkey : tx.minedId = id
          · subst hkey
            rw [getElem?_insert_self, Option.some.injEq] at htx'
            subst htx'
            exact ⟨tx, List.mem_append_right _ (List.mem_singleton_self _), rfl, rfl⟩
          · rw [getElem?_insert_of_ne hkey] at htx'
            obtain ⟨tx₀, htx₀, hid₀, heq₀⟩ := h.origin id tx' htx'
            exact ⟨tx₀, List.mem_append_left _ htx₀, hid₀, heq₀⟩
      · cases hstep
        have hids : ∀ id ∈ [tx.transaction.id], settledId bestTipHeight (.verified tx outpoints expectedTipHeight order samplers) = some id :=
          fun id hmem => by rw [List.mem_singleton.1 hmem, hid]
        exact ⟨R, h.unchanged [tx.transaction.id] hverified hlimit hids fun id hmem => hnew id (hids id hmem)⟩
    · cases hstep
      exact ⟨R, h.unchanged [] rfl rfl nofun nofun⟩

theorem Handled.all {results : List DownloadResult} (hs : s.verified.Consistent R₀)
    (hcost : s.verified.totalCost + (results.map resultCost).sum ≤ s.txCostLimit)
    (hnodup : (results.filterMap (settledId bestTipHeight)).Nodup)
    (hrun : (results.foldlM (handleResult now bestTipHeight) ⟨s, [], [], []⟩ : MempoolExec _) = .ok c) :
    ∃ R, Handled s R₀ bestTipHeight results c R := by
  have hall := Outcome.foldlM_invariant (I := fun rest c => ∃ done R, done ++ rest = results ∧ Handled s R₀ bestTipHeight done c R)
    (fun result rest c c' hstep ⟨done, R, heq, hhandled⟩ => by
      have hsplit : done ++ [result] ++ rest = results := by rw [List.append_assoc]; exact heq
      obtain ⟨R', hR'⟩ := hhandled.step
        (by
          rw [← hsplit, List.map_append, List.sum_append] at hcost
          omega)
        (by
          rw [← hsplit, List.filterMap_append] at hnodup
          exact (List.nodup_append.1 hnodup).1) hstep
      exact ⟨done ++ [result], R', hsplit, hR'⟩) hrun ⟨[], R₀, rfl, handled_start hs⟩
  obtain ⟨done, R, heq, hhandled⟩ := hall
  rw [List.append_nil] at heq
  exact ⟨R, heq ▸ hhandled⟩

/-- What was collected tells how the stored ids changed since `v`. -/
def Replays (v : VerifiedSet) (c : Collected) : Prop :=
  ∀ unminedId, Stores c.storage.verified unminedId ↔
    (Stores v unminedId ∨ unminedId ∈ c.sendToPeersIds) ∧ unminedId ∉ c.invalidatedIds ∧ unminedId ∉ c.minedMempoolIds

omit [StandardPolicy] in
theorem Handled.replays (h : Handled s R₀ bestTipHeight done c R)
    (hnew : ∀ id ∈ done.filterMap (settledId bestTipHeight), id ∉ s.txIds) : Replays s.verified c := by
  intro unminedId
  rw [h.stores, h.mined]
  refine ⟨fun hor => ⟨hor, fun hmem => ?_, List.not_mem_nil⟩, And.left⟩
  rcases hor with hstored | hsent
  · exact hnew unminedId (h.settled unminedId (.inr hmem)) (mem_txIds.2 hstored)
  · exact h.apart unminedId hmem hsent

omit [StandardPolicy] in
theorem Replays.tipAction {block : Option TipBlock} (h : Replays v c) (hR : c.storage.verified.Consistent R)
    (hstep : (handleTipAction now order c block : MempoolExec _) = .ok c') :
    Replays v c' ∧ (∃ R', c'.storage.verified.Consistent R' ∧ ∀ t p, R' t p → R t p) ∧
      ∀ (id : TransactionHash) (tx : VerifiedUnminedTx), c'.storage.verified.transactions[id]? = some tx →
        c.storage.verified.transactions[id]? = some tx := by
  cases block with
  | none =>
    cases hstep
    exact ⟨h, ⟨R, hR, fun _ _ => id⟩, fun _ _ => id⟩
  | some block =>
    obtain ⟨⟨removed, storage⟩, hrun, hstep⟩ := bind_eq_ok.1 hstep
    cases hstep
    have hcleared := hR.clearMinedDependencies block.transactionHashes.eraseDups
    obtain ⟨hsmaller, v₁, hmined, hreports, hinvalidated, hreports'⟩ := rejectAndRemoveSameEffects_eq_ok hcleared hrun
    refine ⟨fun unminedId => ?_, ⟨_, hinvalidated.consistent, fun t p hR' => hR'.1.1.1⟩, hsmaller.sub⟩
    change Stores storage.verified unminedId ↔ _
    rw [stores_of_removed hmined.consistent hinvalidated hreports', stores_of_removed hcleared hmined hreports]
    change (Stores c.storage.verified unminedId ∧ _) ∧ _ ↔ _
    rw [h unminedId, List.mem_append, List.mem_append, not_or, not_or]
    tauto

omit [StandardPolicy] in
theorem Replays.expired {tipHeight : Nat} (h : Replays v c) (hR : c.storage.verified.Consistent R)
    (halone : ∀ (id : TransactionHash) (tx : VerifiedUnminedTx), c.storage.verified.transactions[id]? = some tx →
      isExpired tipHeight tx = true → ∀ t, ¬ R t id)
    (hstep : (handleExpired now order c (some tipHeight) : MempoolExec _) = .ok c') :
    Replays v c' ∧ ∃ R', c'.storage.verified.Consistent R' := by
  obtain ⟨⟨removed, storage⟩, hrun, hstep⟩ := bind_eq_ok.1 hstep
  cases hstep
  obtain ⟨-, hremoves, hreports⟩ := removeExpiredTransactions_eq_ok hR hrun
  have hall : Reports removed c.storage.verified (c.storage.verified.Matched R (isExpired tipHeight)) := fun unminedId => by
    rw [hreports]
    constructor
    · rintro ⟨id, tx, htx, hexpired, rfl⟩
      exact ⟨id, tx, ⟨id, tx, htx, hexpired, .refl⟩, htx, rfl⟩
    · rintro ⟨id, tx, ⟨key, tx', htx', hexpired, hbelow⟩, htx, rfl⟩
      -- Nothing depends on what expires, so the expired transaction is the removed one.
      obtain rfl | ⟨t, ht, -⟩ := hbelow.cases_head
      · exact ⟨key, tx, htx, Option.some.inj (htx.symm.trans htx') ▸ hexpired, rfl⟩
      · exact absurd ht (halone key tx' htx' hexpired t)
  refine ⟨fun unminedId => ?_, _, hremoves.consistent⟩
  rw [stores_of_removed hR hremoves hall, h unminedId, List.mem_append, List.mem_filter, decide_eq_true_eq, not_or]
  tauto

omit [StandardPolicy] in
theorem mem_listen_changes {held : KeyedMap UnminedTxId Unit} : unminedId ∈ (changes c).foldl listen held ↔
    (unminedId ∈ held ∨ unminedId ∈ c.sendToPeersIds) ∧ unminedId ∉ c.invalidatedIds ∧ unminedId ∉ c.minedMempoolIds := by
  have hadded : ∀ ids : List UnminedTxId, unminedId ∈ (if ids.isEmpty then [] else [MempoolChange.added ids]).foldl listen held ↔
      unminedId ∈ held ∨ unminedId ∈ ids := fun ids => by
    cases ids with
    | nil => simp
    | cons id ids => exact mem_extend
  have herased : ∀ (change : List UnminedTxId → MempoolChange) (held : KeyedMap UnminedTxId Unit) (ids : List UnminedTxId),
      (∀ held, listen held (change ids) = held.eraseAll ids) →
      (unminedId ∈ (if ids.isEmpty then [] else [change ids]).foldl listen held ↔ unminedId ∈ held ∧ unminedId ∉ ids) := by
    intro change held ids hlisten
    cases ids with
    | nil => simp
    | cons id ids =>
      change unminedId ∈ listen held (change (id :: ids)) ↔ _
      rw [hlisten, mem_eraseAll_iff]
  rw [changes, List.foldl_append, List.foldl_append, herased .mined _ _ fun _ => rfl, herased .invalidated _ _ fun _ => rfl, hadded,
    and_assoc]

structure Replayed (s : Listening) : Prop where
  consistent : ∃ R, s.storage.verified.Consistent R
  held : ∀ unminedId, unminedId ∈ s.held ↔ Stores s.storage.verified unminedId

theorem Replayed.step {s s' : Listening} {event : Nat × PollInput} (h : Replayed s) (hC : Announced s event)
    (hstep : pollStep s event = .ok s') : Replayed s' := by
  obtain ⟨R₀, hR₀⟩ := h.consistent
  obtain ⟨hcost, hnodup, hnew, halone⟩ := hC
  obtain ⟨⟨sent, storage⟩, hpoll, hstep⟩ := bind_eq_ok.1 hstep
  cases hstep
  obtain ⟨c₁, hresults, hpoll⟩ := bind_eq_ok.1 hpoll
  obtain ⟨c₂, htip, hpoll⟩ := bind_eq_ok.1 hpoll
  obtain ⟨c₃, hexpired, hpoll⟩ := bind_eq_ok.1 hpoll
  cases hpoll
  obtain ⟨R₁, hhandled⟩ := Handled.all hR₀ hcost hnodup hresults
  obtain ⟨hreplays, ⟨R₂, hR₂, hsub⟩, hstored⟩ := (hhandled.replays hnew).tipAction hhandled.consistent htip
  have hend : Replays s.storage.verified c₃ ∧ ∃ R, c₃.storage.verified.Consistent R := by
    cases htipHeight : event.2.bestTipHeight with
    | none =>
      rw [htipHeight] at hexpired
      cases hexpired
      exact ⟨hreplays, R₂, hR₂⟩
    | some tipHeight =>
      rw [htipHeight] at hexpired
      refine hreplays.expired hR₂ (fun id tx htx hexp t hR => ?_) hexpired
      obtain ⟨tx', hmem, rfl, heq⟩ := hhandled.origin id tx (hstored id tx htx)
      obtain ⟨hempty, hout⟩ := halone tipHeight htipHeight tx' hmem (by rw [isExpired, heq]; exact hexp)
      rcases hhandled.edges t _ (hsub t _ hR) with hold | hold
      · have hmem : t ∈ s.storage.verified.transactionDependencies.directDependents tx'.minedId :=
          (hR₀.relates.dependents.mem _ _).2 hold
        rw [isEmpty_iff.1 hempty] at hmem
        exact not_mem_empty hmem
      · exact hout hold
  refine ⟨hend.2, fun unminedId => ?_⟩
  rw [mem_listen_changes, h.held, hend.1 unminedId]

/-- In every run from an empty mempool whose polls evict nothing, get results for transactions that
are not stored, and let transactions expire alone, a listener to the changes holds the stored ids. -/
theorem broadcasts_replay_mempool {evictionMemoryTime txCostLimit : Nat} {events : List (Nat × PollInput)} {s : Listening}
    (hannounced : Guarded pollStep Announced ⟨.new evictionMemoryTime txCostLimit, 0, ∅⟩ events)
    (hrun : events.foldlM pollStep ⟨.new evictionMemoryTime txCostLimit, 0, ∅⟩ = .ok s) :
    ∀ unminedId, unminedId ∈ s.held ↔ unminedId ∈ s.storage.txIds := by
  have hstart : Replayed ⟨.new evictionMemoryTime txCostLimit, 0, ∅⟩ := by
    refine ⟨⟨_, consistent_empty⟩, fun unminedId => ⟨fun hmem => absurd hmem not_mem_empty, ?_⟩⟩
    rintro ⟨id, tx, htx, -⟩
    simp [Storage.new, VerifiedSet.empty] at htx
  have hend := hannounced.invariant (fun s event s' h hC hstep => h.step hC hstep) hrun hstart
  exact fun unminedId => (hend.held unminedId).trans mem_txIds.symm

end

namespace MempoolSample

def verifiedResult (tx : VerifiedUnminedTx) : DownloadResult := .verified tx [] (some 5) keyOrder fun _ => firstPositive

def settlingPolls : List (Nat × PollInput) :=
  [(0, ⟨[verifiedResult (sampleTx 1 none), verifiedResult (sampleTx 2 (some 6))], none, some 5, keyOrder⟩),
    (75, ⟨[.failed (.legacy 3) .cancelled], some ⟨[1], [.V1 [.prevOut ⟨101, 0⟩] [⟨.zero, 0⟩]]⟩, some 6, keyOrder⟩)]

theorem settlingPolls_replay : ∃ s, settlingPolls.foldlM pollStep ⟨.new 60 80000, 0, ∅⟩ = .ok s ∧ s.storage.txIds = [] ∧
      ∀ unminedId, unminedId ∈ s.held ↔ unminedId ∈ s.storage.txIds := by
  have hrun : (fun s => s.storage.txIds) <$> settlingPolls.foldlM pollStep ⟨.new 60 80000, 0, ∅⟩ = .ok [] := by
    decide +kernel
  obtain ⟨s, hs, hempty⟩ := map_eq_ok.1 hrun
  exact ⟨s, hs, hempty, broadcasts_replay_mempool (by decide +kernel) hs⟩

/-- The second transaction does not fit beside the first, which is evicted. -/
def evictingPoll : Nat × PollInput :=
  (0, ⟨[verifiedResult (sampleTx 1 none), verifiedResult (sampleTx 2 none)], none, some 5, keyOrder⟩)

/-- The listener still holds the transaction that was evicted. -/
theorem evictingPoll_not_replayed : ∃ s, [evictingPoll].foldlM pollStep ⟨.new 60 15000, 0, ∅⟩ = .ok s ∧
      .legacy 1 ∈ s.held ∧ .legacy 1 ∉ s.storage.txIds := by
  have hrun : (fun s => decide (.legacy 1 ∈ s.held ∧ .legacy 1 ∉ s.storage.txIds)) <$>
      [evictingPoll].foldlM pollStep ⟨.new 60 15000, 0, ∅⟩ = .ok true := by
    decide +kernel
  obtain ⟨s, hs, hheld⟩ := map_eq_ok.1 hrun
  exact ⟨s, hs, of_decide_eq_true hheld⟩

end MempoolSample

end Zebra.Properties
