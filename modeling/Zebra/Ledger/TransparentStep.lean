import Zebra.Ledger.TransparentChain
import Mathlib.Data.List.ReduceOption

namespace Zebra.Ledger

open Lib KeyedMap Std.ExtTreeMap Payment

variable [ScriptParsing] {ε : Type} {C : Constraint} {net : Network} {t t' : TransparentTables}
  {bs : List FinalizedBlock} {b : FinalizedBlock} {v v' : Address → Option AddressBalanceLocation} {p q : Payment}
  {a : Address} {al l : OutputLocation} {tl : TransactionLocation}

theorem firstLocation_concat (h₀ : b.height ≠ 0) : firstLocation net (bs ++ [b]) a =
    (firstLocation net bs a).or (firstTo net a (b.payments.map entry)) := by
  rw [firstLocation, chainPayments_concat h₀, List.map_append, firstTo_append, firstLocation]

theorem isSome_firstLocation (hp : p ∈ chainPayments bs) (ha : p.output.address net = some a) :
    (firstLocation net bs a).isSome := by
  rw [Option.isSome_iff_ne_none]
  intro hn
  exact firstTo_eq_none.1 hn _ (List.mem_map_of_mem hp) ha

theorem firstLocation_concat_of_some (h₀ : b.height ≠ 0) (h : firstLocation net bs a = some al) :
    firstLocation net (bs ++ [b]) a = some al := by
  rw [firstLocation_concat h₀, h, Option.some_or]

theorem firstLocation_concat_of_mem (h₀ : b.height ≠ 0) (hp : p ∈ chainPayments bs) (ha : p.output.address net = some a) :
    firstLocation net (bs ++ [b]) a = firstLocation net bs a := by
  obtain ⟨al, hal⟩ := Option.isSome_iff_exists.1 (isSome_firstLocation hp ha)
  rw [firstLocation_concat_of_some h₀ hal, hal]

variable {m : AddressBalances C} {spent : KeyedMap OutPoint Utxo}

theorem spendingLink_eq {o : OutPoint} : (m.spendingLink net spent tl o : Exec ε _) = .ok (some ⟨al, l'⟩) ↔
      l' = tl ∧ ∃ u, spent[o]? = some u ∧ ∃ a, u.output.address net = some a ∧ locationIn m a = some al := by
  rw [AddressBalances.spendingLink, bind_eq_ok]
  simp only [Outcome.expect_eq_ok]
  constructor
  · rintro ⟨u, hu, h⟩
    cases ha : u.output.address net with
    | none =>
      rw [ha] at h
      simp at h
    | some a =>
      rw [ha] at h
      obtain ⟨x, hx, h⟩ := bind_eq_ok.1 h
      obtain ⟨rfl, rfl⟩ := AddressTransaction.mk.inj (Option.some.inj (Except.ok.inj h))
      rw [Outcome.expect_eq_ok] at hx
      exact ⟨rfl, u, hu, a, ha, by simp [locationIn, hx]⟩
  · rintro ⟨rfl, u, hu, a, ha, hal⟩
    obtain ⟨x, hx, rfl⟩ := Option.map_eq_some_iff.1 hal
    refine ⟨u, hu, ?_⟩
    rw [ha]
    exact bind_eq_ok.2 ⟨x, Outcome.expect_eq_ok.2 hx, rfl⟩

theorem mem_spendingLinks {spending : List (List AddressTransaction)}
    (h : ((b.block.transactions.mapIdx fun i tx => (tx, i)).mapM (m.spendingLinks net spent b.height) : Exec ε _) =
      .ok spending) : ⟨al, tl⟩ ∈ spending.flatten ↔ ∃ o, (tl, o) ∈ b.spends ∧
      ∃ u, spent[o]? = some u ∧ ∃ a, u.output.address net = some a ∧ locationIn m a = some al := by
  have hlinks : ∀ x ∈ b.block.transactions.mapIdx (fun i tx => (tx, i)), ∀ links,
      (m.spendingLinks net spent b.height x : Exec ε _) = .ok links →
        (⟨al, tl⟩ ∈ links ↔ tl = ⟨b.height, x.2⟩ ∧ ∃ o ∈ x.1.spentOutpoints,
          ∃ u, spent[o]? = some u ∧ ∃ a, u.output.address net = some a ∧ locationIn m a = some al) := by
    intro x _ links hx
    obtain ⟨l, hl, hx⟩ := bind_eq_ok.1 hx
    obtain ⟨ls, hls, hreduced⟩ := bind_eq_ok.1 hx
    rw [TransactionLocation.fromUsize, Outcome.check_bind_eq_ok] at hl
    obtain rfl := Except.ok.inj hl.2
    rw [← Except.ok.inj hreduced, List.reduceOption_mem_iff, mem_of_mapM_eq_ok hls]
    simp only [spendingLink_eq]
    constructor
    · rintro ⟨o, ho, rfl, hu⟩
      exact ⟨rfl, o, ho, hu⟩
    · rintro ⟨rfl, o, ho, hu⟩
      exact ⟨o, ho, rfl, hu⟩
  simp only [List.mem_flatten, mem_of_mapM_eq_ok h]
  constructor
  · rintro ⟨links, ⟨x, hx, hlx⟩, hmem⟩
    obtain ⟨rfl, o, ho, hu⟩ := (hlinks x hx links hlx).1 hmem
    obtain ⟨i, hi, rfl⟩ := List.mem_mapIdx.1 hx
    refine ⟨o, ?_, hu⟩
    exact List.mem_flatten.2 ⟨_, List.mem_mapIdx.2 ⟨i, hi, rfl⟩, List.mem_map_of_mem ho⟩
  · rintro ⟨o, ho, hu⟩
    obtain ⟨os, hos, hmem⟩ := List.mem_flatten.1 ho
    obtain ⟨i, hi, rfl⟩ := List.mem_mapIdx.1 hos
    obtain ⟨o, hspent, heq⟩ := List.mem_map.1 hmem
    obtain ⟨rfl, rfl⟩ := Prod.mk.inj heq
    have hx : (b.block.transactions[i], i) ∈ b.block.transactions.mapIdx (fun i tx => (tx, i)) :=
      List.mem_mapIdx.2 ⟨i, hi, rfl⟩
    obtain ⟨links, hlx⟩ := exists_of_mapM_eq_ok h hx
    exact ⟨links, ⟨_, hx, hlx⟩, (hlinks _ hx links hlx).2 ⟨rfl, o, hspent, hu⟩⟩

theorem outputsOf_newOutputs {new : LocatedUtxos}
    (h : new.toList = b.payments.map fun p => (p.location, p.utxo.utxo)) :
    outputsOf new.toList = b.payments.map entry := by
  rw [outputsOf, h, List.map_map]
  rfl

section

variable {db : ZebraDb} {us : List (OutPoint × OutputLocation × Utxo)} {new : LocatedUtxos}
  {mode : BalanceTable.Mode C} {m₀ m₁ m₂ : AddressBalances C} {created deleted : List AddressUnspentOutput}
  {spending : List (List AddressTransaction)}

theorem located_txLocByHash (hl : OneChain (bs ++ [b])) (hd : DescribesChain net t bs v) (hash : TransactionHash) :
    (located t b).txLocByHash[hash]? = some tl ↔ ∃ b' ∈ bs ++ [b], (hash, tl) ∈ b'.txLocations := by
  have hzip : ((b.block.transactions.zip b.transactionHashes).mapIdx fun i x =>
      (x.2, (⟨b.height, i⟩ : TransactionLocation))) = b.txLocations := by
    have hlength := hl.hashes b (by simp)
    refine List.ext_getElem (by simp [FinalizedBlock.txLocations, hlength]) fun i _ _ => ?_
    simp [FinalizedBlock.txLocations]
  have hn := hl.hashes_nodup (b := b) (by simp)
  rw [located, hzip, getElem?_insertMany_iff fun k tl tl' h h' => txLocation_eq hn h h', hd.located,
    map_fst_txLocations]
  simp only [List.mem_append, List.mem_singleton]
  constructor
  · rintro (h | ⟨-, b', hb', h⟩)
    · exact ⟨b, .inr rfl, h⟩
    · exact ⟨b', .inl hb', h⟩
  · rintro ⟨b', hb' | rfl, h⟩
    · refine .inr ⟨?_, b', hb', h⟩
      intro hh
      exact hash_fresh hl hh hb' (map_fst_txLocations b' ▸ List.mem_map_of_mem h)
    · exact .inl h

variable (hl : OneChain (bs ++ [b])) (h₀ : b.height ≠ 0) (hd : DescribesChain net (transparentOf db) bs v)
  (hus : (db.spentUtxos b : Validated _) = .ok us)
  (hnew : new.toList = b.payments.map fun p => (p.location, p.utxo.utxo))
  (w : WritesTransparent net mode b new (.ofList (us.map fun x => (x.1, x.2.2))) (.ofList (us.map Prod.snd)) m₀
    (located (transparentOf db) b) t' m₁ m₂ created deleted spending)
include hl h₀ hd hus

theorem known_concat : ∀ o ∈ (chainSpends (bs ++ [b])).map Prod.snd, ∃ b' ∈ bs ++ [b], o.hash ∈ b'.transactionHashes := by
  intro o ho
  rw [chainSpends_concat, List.map_append, List.mem_append] at ho
  rcases ho with ho | ho
  · obtain ⟨b', hb', hh⟩ := hd.known o ho
    exact ⟨b', List.mem_append_left _ hb', hh⟩
  · rw [ZebraDb.spentUtxos, ← map_snd_spends] at hus
    obtain ⟨x, hx⟩ := exists_of_mapM_eq_ok hus ho
    obtain ⟨p, hp, rfl, -⟩ := spentUtxo_ok hl hd hx
    obtain ⟨b', hb', -, hpb⟩ := mem_chainPayments.1 (mem_chainPayments_available h₀ hp)
    exact ⟨b', hb', hash_mem_of_payments hpb⟩

include hnew w

omit hnew w in
theorem mem_spentLocations : l ∈ (ofList (us.map Prod.snd) compare).toList.map Prod.fst ↔
    ∃ p ∈ spentBy bs b, p.location = l := by
  rw [map_fst_toList_eq_keys, mem_keys, mem_iff_isSome_getElem?,
    Option.isSome_iff_exists]
  simp only [getElem?_spent hl h₀ hd hus]
  constructor
  · rintro ⟨u, p, hp, rfl, rfl⟩
    exact ⟨p, hp, rfl⟩
  · rintro ⟨p, hp, rfl⟩
    exact ⟨_, p, hp, rfl, rfl⟩

omit hus hnew w in
theorem mem_unspent_concat : p ∈ unspent (bs ++ [b]) ↔ p ∈ available bs b ∧ p ∉ spentBy bs b := by
  rw [unspent_concat hl h₀ hd.known, mem_spentBy hl h₀]
  simp only [List.mem_filter, decide_eq_true_eq, not_and]
  exact and_congr_right fun hp => ⟨fun h _ => h, fun h => h hp⟩

theorem utxoByOutLoc_step (o : Output) :
    t'.utxoByOutLoc[l]? = some o ↔ (l, o) ∈ (unspent (bs ++ [b])).map entry := by
  have hentries : new.toList.map (fun x => (x.1, x.2.output)) = b.payments.map entry := outputsOf_newOutputs hnew
  have hagree : ∀ k o o', (k, o) ∈ b.payments.map entry → (k, o') ∈ b.payments.map entry → o = o' := by
    intro k o o' ho ho'
    obtain ⟨p, hp, hpk⟩ := List.mem_map.1 ho
    obtain ⟨q, hq, hqk⟩ := List.mem_map.1 ho'
    obtain ⟨rfl, rfl⟩ := Prod.mk.inj hpk
    obtain ⟨hloc, rfl⟩ := Prod.mk.inj hqk
    rw [payment_eq_of_location hp hq hloc.symm]
  rw [w.utxoByOutLoc, hentries, getElem?_eraseAll]
  simp only [mem_spentLocations hl h₀ hd hus]
  split
  · rename_i hspent
    obtain ⟨p, hp, rfl⟩ := hspent
    simp only [reduceCtorEq, false_iff]
    intro hmem
    obtain ⟨q, hq, hqe⟩ := List.mem_map.1 hmem
    rw [mem_unspent_concat hl h₀ hd] at hq
    obtain rfl := available_eq_of_location hl h₀ hq.1 ((mem_spentBy hl h₀).1 hp).1 (Prod.mk.inj hqe).1
    exact hq.2 hp
  · rename_i hspent
    rw [getElem?_insertMany_iff hagree]
    change _ ∨ _ ∧ (transparentOf db).utxoByOutLoc[l]? = some o ↔ _
    rw [hd.utxos]
    constructor
    · rintro (h | ⟨-, h⟩)
      · obtain ⟨p, hp, hpe⟩ := List.mem_map.1 h
        refine List.mem_map.2 ⟨p, (mem_unspent_concat hl h₀ hd).2 ⟨List.mem_append_right _ hp, ?_⟩, hpe⟩
        exact fun hs => hspent ⟨p, hs, (Prod.mk.inj hpe).1⟩
      · obtain ⟨p, hp, hpe⟩ := List.mem_map.1 h
        refine List.mem_map.2 ⟨p, (mem_unspent_concat hl h₀ hd).2 ⟨List.mem_append_left _ hp, ?_⟩, hpe⟩
        exact fun hs => hspent ⟨p, hs, (Prod.mk.inj hpe).1⟩
    · intro h
      obtain ⟨p, hp, hpe⟩ := List.mem_map.1 h
      rw [mem_unspent_concat hl h₀ hd, available, List.mem_append] at hp
      by_cases hpb : p ∈ b.payments
      · exact .inl (List.mem_map.2 ⟨p, hpb, hpe⟩)
      · refine .inr ⟨?_, List.mem_map.2 ⟨p, hp.1.resolve_right hpb, hpe⟩⟩
        rw [List.map_map]
        intro hk
        obtain ⟨q, hq, hql⟩ := List.mem_map.1 hk
        have heq : q = p := available_eq_of_location hl h₀ (List.mem_append_right _ hq)
          (List.mem_append.2 hp.1) (hql.trans (Prod.mk.inj hpe).1.symm)
        exact hpb (heq ▸ hq)

variable (hlocation : ∀ a, ∀ p ∈ available bs b, (p ∈ b.payments ∨ p ∈ spentBy bs b) →
  p.output.address net = some a → locationIn m₂ a = firstLocation net (bs ++ [b]) a)
include hlocation

theorem mem_created : ⟨al, l⟩ ∈ created ↔ ∃ a, firstLocation net (bs ++ [b]) a = some al ∧
    ∃ p ∈ b.payments, p.output.address net = some a ∧ p.location = l := by
  obtain ⟨-, rfl⟩ := pass_receive w.createdPass
  have hkeep := (pass_spend w.deletedPass).1.location
  rw [outputsOf_newOutputs hnew, mem_linksTo]
  constructor
  · rintro ⟨x, hx, a, ha, hal, rfl⟩
    obtain ⟨p, hp, rfl⟩ := List.mem_map.1 hx
    rw [← hkeep, hlocation a p (List.mem_append_right _ hp) (.inl hp) ha] at hal
    exact ⟨a, hal, p, hp, ha, rfl⟩
  · rintro ⟨a, hal, p, hp, ha, rfl⟩
    rw [← hlocation a p (List.mem_append_right _ hp) (.inl hp) ha, hkeep] at hal
    exact ⟨_, List.mem_map_of_mem hp, a, ha, hal, rfl⟩

omit hnew in
theorem mem_deleted : ⟨al, l⟩ ∈ deleted ↔ ∃ a, firstLocation net (bs ++ [b]) a = some al ∧
    ∃ p ∈ spentBy bs b, p.output.address net = some a ∧ p.location = l := by
  obtain ⟨-, rfl⟩ := pass_spend w.deletedPass
  have hperm := outputsOf_spent_perm hl h₀ hd hus
  rw [mem_linksTo]
  constructor
  · rintro ⟨x, hx, a, ha, hal, rfl⟩
    obtain ⟨p, hp, rfl⟩ := List.mem_map.1 (hperm.mem_iff.1 hx)
    rw [hlocation a p ((mem_spentBy hl h₀).1 hp).1 (.inr hp) ha] at hal
    exact ⟨a, hal, p, hp, ha, rfl⟩
  · rintro ⟨a, hal, p, hp, ha, rfl⟩
    rw [← hlocation a p ((mem_spentBy hl h₀).1 hp).1 (.inr hp) ha] at hal
    exact ⟨_, hperm.mem_iff.2 (List.mem_map_of_mem hp), a, ha, hal, rfl⟩

theorem utxoLocs_step : ⟨al, l⟩ ∈ t'.utxoLocs ↔ ∃ a, firstLocation net (bs ++ [b]) a = some al ∧
    ∃ p ∈ unspent (bs ++ [b]), p.output.address net = some a ∧ p.location = l := by
  rw [w.utxoLocs, mem_eraseAll_iff, mem_insertMany_iff, List.map_map]
  change (⟨al, l⟩ ∈ (transparentOf db).utxoLocs ∨ ⟨al, l⟩ ∈ created.map id) ∧ _ ↔ _
  rw [List.map_id, hd.outputLinks, mem_created hl h₀ hd hus hnew w hlocation, mem_deleted hl h₀ hd hus w hlocation]
  constructor
  · rintro ⟨⟨a, hal, p, hp, ha, rfl⟩ | ⟨a, hal, p, hp, ha, rfl⟩, hn⟩
    · have hal := firstLocation_concat_of_some (b := b) h₀ hal
      refine ⟨a, hal, p, (mem_unspent_concat hl h₀ hd).2 ⟨List.mem_append_left _ hp, ?_⟩, ha, rfl⟩
      exact fun hs => hn ⟨a, hal, p, hs, ha, rfl⟩
    · refine ⟨a, hal, p, (mem_unspent_concat hl h₀ hd).2 ⟨List.mem_append_right _ hp, ?_⟩, ha, rfl⟩
      exact fun hs => hn ⟨a, hal, p, hs, ha, rfl⟩
  · rintro ⟨a, hal, p, hp, ha, rfl⟩
    rw [mem_unspent_concat hl h₀ hd] at hp
    refine ⟨?_, ?_⟩
    · rcases List.mem_append.1 hp.1 with hpu | hpb
      · rw [firstLocation_concat_of_mem h₀ (mem_unspent.1 hpu).1 ha] at hal
        exact .inl ⟨a, hal, p, hpu, ha, rfl⟩
      · exact .inr ⟨a, hal, p, hpb, ha, rfl⟩
    · rintro ⟨a', -, q, hq, -, hloc⟩
      obtain rfl := available_eq_of_location hl h₀ ((mem_spentBy hl h₀).1 hq).1 hp.1 hloc
      exact hp.2 hq

omit hnew in
theorem mem_spending : ⟨al, tl⟩ ∈ spending.flatten ↔ ∃ a, firstLocation net (bs ++ [b]) a = some al ∧
    ∃ p ∈ spentBy bs b, p.output.address net = some a ∧ (tl, p.outpoint) ∈ b.spends := by
  rw [mem_spendingLinks w.spendingPass]
  constructor
  · rintro ⟨o, ho, u, hu, a, ha, hal⟩
    obtain ⟨p, hp, rfl, rfl⟩ := (getElem?_spentByOutpoint hl h₀ hd hus).1 hu
    rw [hlocation a p ((mem_spentBy hl h₀).1 hp).1 (.inr hp) ha] at hal
    exact ⟨a, hal, p, hp, ha, ho⟩
  · rintro ⟨a, hal, p, hp, ha, ho⟩
    rw [← hlocation a p ((mem_spentBy hl h₀).1 hp).1 (.inr hp) ha] at hal
    exact ⟨_, ho, _, (getElem?_spentByOutpoint hl h₀ hd hus).2 ⟨p, hp, rfl, rfl⟩, a, ha, hal⟩

omit hnew w hlocation in
theorem mem_spentBy_of_spends (hp : p ∈ chainPayments (bs ++ [b])) (ho : p.outpoint ∈ b.spends.map Prod.snd) :
    p ∈ spentBy bs b := by
  rw [ZebraDb.spentUtxos, ← map_snd_spends] at hus
  obtain ⟨x, hx⟩ := exists_of_mapM_eq_ok hus ho
  obtain ⟨q, hq, hqo, -⟩ := spentUtxo_ok hl hd hx
  obtain rfl := hl.payment_eq_of_outpoint (mem_chainPayments_available h₀ hq) hp hqo
  exact (mem_spentBy hl h₀).2 ⟨hq, ho⟩

theorem txLocs_step : ⟨al, tl⟩ ∈ t'.txLocs ↔ ∃ a, firstLocation net (bs ++ [b]) a = some al ∧
    ∃ p ∈ chainPayments (bs ++ [b]), p.output.address net = some a ∧
      (p.location.transactionLocation = tl ∨ (tl, p.outpoint) ∈ chainSpends (bs ++ [b])) := by
  rw [w.txLocs, mem_insertMany_iff, mem_insertMany_iff, List.map_map, List.map_map]
  change (⟨al, tl⟩ ∈ (transparentOf db).txLocs ∨
    ⟨al, tl⟩ ∈ created.map fun x => AddressTransaction.mk x.addressLocation x.unspentOutputLocation.transactionLocation) ∨
    ⟨al, tl⟩ ∈ spending.flatten.map id ↔ _
  rw [List.map_id, hd.txLinks, mem_spending hl h₀ hd hus w hlocation, chainSpends_concat]
  constructor
  · rintro ((⟨a, hal, p, hp, ha, htl⟩ | hcreated) | ⟨a, hal, p, hp, ha, ho⟩)
    · refine ⟨a, firstLocation_concat_of_some h₀ hal, p, ?_, ha, htl.imp_right (List.mem_append_left _)⟩
      rw [chainPayments_concat h₀]
      exact List.mem_append_left _ hp
    · obtain ⟨⟨al', l⟩, hx, heq⟩ := List.mem_map.1 hcreated
      obtain ⟨rfl, rfl⟩ := AddressTransaction.mk.inj heq
      obtain ⟨a, hal, p, hp, ha, rfl⟩ := (mem_created hl h₀ hd hus hnew w hlocation).1 hx
      exact ⟨a, hal, p, mem_chainPayments_available h₀ (List.mem_append_right _ hp), ha, .inl rfl⟩
    · exact ⟨a, hal, p, mem_chainPayments_available h₀ ((mem_spentBy hl h₀).1 hp).1, ha,
        .inr (List.mem_append_right _ ho)⟩
  · rintro ⟨a, hal, p, hp, ha, htl⟩
    by_cases hspend : (tl, p.outpoint) ∈ b.spends
    · exact .inr ⟨a, hal, p, mem_spentBy_of_spends hl h₀ hd hus hp (List.mem_map_of_mem hspend), ha, hspend⟩
    · refine .inl ?_
      rw [chainPayments_concat h₀, List.mem_append] at hp
      rcases hp with hp | hp
      · rw [firstLocation_concat_of_mem h₀ hp ha] at hal
        refine .inl ⟨a, hal, p, hp, ha, htl.imp_right fun h => ?_⟩
        exact (List.mem_append.1 h).resolve_right hspend
      · refine .inr (List.mem_map.2 ⟨⟨al, p.location⟩, ?_, ?_⟩)
        · exact (mem_created hl h₀ hd hus hnew w hlocation).2 ⟨a, hal, p, hp, ha, rfl⟩
        · rcases htl with rfl | htl
          · rfl
          · have hold := (List.mem_append.1 htl).resolve_right hspend
            exact absurd (List.mem_map_of_mem hold) (outpoint_fresh hl hd.known hp)

omit hus hnew w hlocation in
theorem totalTo_available (a : Address) : totalTo net a ((available bs b).map entry) =
    totalTo net a ((unspent (bs ++ [b])).map entry) + totalTo net a ((spentBy bs b).map entry) := by
  rw [← totalTo_append, ← List.map_append, unspent_concat hl h₀ hd.known, spentBy]
  refine (totalTo_perm (List.Perm.map _ ?_)).symm
  refine (List.perm_append_comm).trans ?_
  have hperm := List.filter_append_perm (fun p : Payment => decide (p.outpoint ∈ b.spends.map Prod.snd)) (available bs b)
  simpa using hperm

theorem describes_step (hv : HasValues t'.balances v') (hs : Settles net v (b.payments.map entry)
    (outputsOf (ofList (us.map Prod.snd) compare).toList) v') : DescribesChain net t' (bs ++ [b]) v' where
  network := w.network.trans hd.network
  located hash l := by
    rw [w.txLocByHash]
    exact located_txLocByHash hl hd hash
  known := known_concat hl h₀ hd hus
  utxos l o := utxoByOutLoc_step hl h₀ hd hus hnew w o
  values := hv
  location a := by rw [hs.location, hd.location, firstLocation_concat h₀]
  balance a := by
    have havailable := totalTo_available hl h₀ hd a
    rw [available, List.map_append, totalTo_append] at havailable
    rw [hs.balance, hd.balance, totalTo_perm (outputsOf_spent_perm hl h₀ hd hus)]
    omega
  received a := by
    rw [hs.received, hd.received, saturatingAdd_assoc, saturatingAdd_right, chainPayments_concat h₀, List.map_append,
      totalTo_append, Int.toNat_add totalTo_nonneg totalTo_nonneg]
  outputLinks al l := utxoLocs_step hl h₀ hd hus hnew w hlocation
  txLinks al tl := txLocs_step hl h₀ hd hus hnew w hlocation

end

section

variable {db db' : ZebraDb}

theorem describes_genesis (h₀ : b.height = 0) (hl : OneChain (bs ++ [b])) (hd : DescribesChain net t bs v)
    (hknown : ∀ o ∈ b.spends.map Prod.snd, o.hash ∈ b.transactionHashes) :
    DescribesChain net (located t b) (bs ++ [b]) v := by
  have hnil : bs = [] := by
    have := hl.height bs.length b (by simp)
    exact List.eq_nil_of_length_eq_zero (by omega)
  subst hnil
  have hp : chainPayments ([] ++ [b]) = [] := chainPayments_concat_genesis h₀
  have hu : unspent ([] ++ [b]) = [] := by
    rw [unspent, hp]
    rfl
  have hf : ∀ a, firstLocation net ([] ++ [b]) a = none := by
    intro a
    rw [firstLocation, hp]
    rfl
  refine ⟨hd.network, fun hash l => located_txLocByHash hl hd hash, ?_, ?_, hd.values, ?_, ?_, ?_, ?_, ?_⟩
  · intro o ho
    refine ⟨b, by simp, hknown o ?_⟩
    rwa [chainSpends_concat, chainSpends, List.flatMap_nil, List.nil_append] at ho
  · rw [hu]
    exact hd.utxos
  · intro a
    rw [hf]
    exact hd.location a
  · rw [hu]
    exact hd.balance
  · rw [hp]
    exact hd.received
  · intro al l
    rw [hu]
    refine (hd.outputLinks al l).trans ⟨?_, ?_⟩ <;> rintro ⟨a, -, p, hp, -⟩
    · cases hp
    · cases hp
  · intro al tl
    rw [hp]
    refine (hd.txLinks al tl).trans ⟨?_, ?_⟩ <;> rintro ⟨a, -, p, hp, -⟩
    · cases hp
    · cases hp

variable [MerkleHashing] {mode : BalanceTable.Mode C} {prev : Option NoteCommitmentTrees}

theorem describes_writeBlockWith (hl : OneChain (bs ++ [b])) (hd : DescribesChain net (transparentOf db) bs v)
    (hstart : ∀ x, (mode.start x).location = x.location) (hsettles : ∀ {changed new spent m₀ m₁ m₂},
      (db.balanceByTransparentAddr.readAddrLocs mode changed : Validated _) = .ok m₀ →
      Received net m₀ new m₁ → Spent net m₁ spent m₂ →
      (∀ x ∈ spent ++ new, ∀ a, x.2.address net = some a → a ∈ changed) → new = b.payments.map entry →
      spent.Perm ((spentBy bs b).map entry) → b.height ≠ 0 →
      ∃ v', HasValues (db.balanceByTransparentAddr.writeAddrLocs mode m₂) v' ∧ Settles net v new spent v')
    (h : db.writeBlockWith mode b prev = .ok db') : ∃ v', DescribesChain net (transparentOf db') (bs ++ [b]) v' := by
  obtain ⟨new, us, m₀, trees, batch, hw⟩ := writeBlockWith_ok h
  have hn := hl.hashes_nodup (b := b) (by simp)
  by_cases h₀ : b.height = 0
  · rw [hw.transparent_genesis h₀]
    refine ⟨v, describes_genesis h₀ hl hd ?_⟩
    intro o ho
    have hus := hw.spends
    rw [ZebraDb.spentUtxos, ← map_snd_spends] at hus
    obtain ⟨x, hx⟩ := exists_of_mapM_eq_ok hus ho
    obtain ⟨p, hp, rfl, -⟩ := spentUtxo_ok hl hd hx
    have hnil : bs = [] := by
      have := hl.height bs.length b (by simp)
      exact List.eq_nil_of_length_eq_zero (by omega)
    subst hnil
    exact hash_mem_of_payments (by simpa [available, unspent, chainPayments] using hp)
  · obtain ⟨m₁, m₂, created, deleted, spending, w⟩ := hw.transparent h₀
    obtain rfl : db.network = net := hd.network
    have hnew := newOutputsByOutLoc_ok hn (hl.outputs b (by simp)) hw.newOutputs
    obtain ⟨hr, -⟩ := pass_receive w.createdPass
    obtain ⟨hs, -⟩ := pass_spend w.deletedPass
    rw [outputsOf_newOutputs hnew] at hr
    have hperm := outputsOf_spent_perm hl h₀ hd hw.spends
    have hchanged : ∀ x ∈ outputsOf (ofList (us.map Prod.snd) compare).toList ++
        b.payments.map entry, ∀ a, x.2.address db.network = some a → a ∈ BalanceTable.changedAddresses
          db.network (ofList (us.map Prod.snd) compare).toList new.toList := by
      intro x hx a ha
      rw [← outputsOf_newOutputs hnew, outputsOf, outputsOf, ← List.map_append] at hx
      obtain ⟨y, hy, rfl⟩ := List.mem_map.1 hx
      exact mem_changedAddresses.2 ⟨y, hy, ha⟩
    have hlocation : ∀ a, ∀ p ∈ available bs b, (p ∈ b.payments ∨ p ∈ spentBy bs b) →
        p.output.address db.network = some a → locationIn m₂ a = firstLocation db.network (bs ++ [b]) a := by
      intro a p _ hp ha
      have hmem : p.entry ∈ outputsOf (ofList (us.map Prod.snd) compare).toList ++
          b.payments.map entry := by
        rw [List.mem_append, hperm.mem_iff]
        exact hp.symm.imp List.mem_map_of_mem List.mem_map_of_mem
      obtain ⟨m, hm, hget⟩ := readAddrLocs_eq hd.values mode
        (BalanceTable.changedAddresses db.network (ofList (us.map Prod.snd) compare).toList new.toList)
      obtain rfl := Except.ok.inj (hm.symm.trans hw.reads)
      have hstarted : locationIn m a = (v a).map (·.location) := by
        rw [locationIn, hget, if_pos (hchanged _ hmem a ha), Option.map_map]
        exact congrArg (fun f => Option.map f (v a)) (funext hstart)
      rw [hs.location, hr.location, hstarted, hd.location, firstLocation_concat h₀]
    obtain ⟨v', hv', hsettled⟩ := hsettles hw.reads hr hs hchanged rfl hperm h₀
    refine ⟨v', describes_step hl h₀ hd hw.spends hnew w hlocation ?_ hsettled⟩
    rw [w.balances]
    exact hv'

theorem describes_writeBlock {finished : Bool} (hl : OneChain (bs ++ [b])) (hd : DescribesChain net (transparentOf db) bs v)
    (hstorable : ∀ p ∈ b.payments, p.location.onDisk = p.location)
    (hrange : ∀ a, totalTo net a ((unspent (bs ++ [b])).map entry) ≤ maxMoney)
    (h : db.writeBlock finished b prev = .ok db') : ∃ v', DescribesChain net (transparentOf db') (bs ++ [b]) v' := by
  have hdisk : ∀ x ∈ b.payments.map entry, x.1.onDisk = x.1 := by
    intro x hx
    obtain ⟨p, hp, rfl⟩ := List.mem_map.1 hx
    exact hstorable p hp
  cases finished with
  | true =>
    refine describes_writeBlockWith hl hd (fun _ => rfl) ?_ h
    rintro changed new spent m₀ m₁ m₂ hread hr hs hchanged rfl - -
    exact settles_insertMode hd.values hread hr hs hchanged hdisk
  | false =>
    refine describes_writeBlockWith hl hd (fun _ => rfl) ?_ h
    rintro changed new spent m₀ m₁ m₂ hread hr hs hchanged rfl hperm h₀
    refine settles_mergeMode hd.values hread hr hs hchanged hdisk fun a => ?_
    have havailable := totalTo_available hl h₀ hd a
    have hnonneg : 0 ≤ totalTo net a ((unspent (bs ++ [b])).map entry) := totalTo_nonneg
    rw [available, List.map_append, totalTo_append] at havailable
    rw [hd.balance, totalTo_perm hperm]
    refine ⟨?_, ?_⟩
    · change 0 ≤ _
      omega
    · change _ ≤ maxMoney
      have := hrange a
      omega

end

end Zebra.Ledger
