import Zebra.Properties.AddressBalanceRange
import Zebra.Properties.TransparentIndexes

namespace Zebra.Properties

open Lib Lib.Transition Ledger Outcome BalanceTable Payment DiskWriteBatch

section

variable [ScriptParsing] {ε : Type} {C : Constraint} {net : Network} {db : ZebraDb} {bs : List FinalizedBlock}
  {b : FinalizedBlock} {v : Address → Option AddressBalanceLocation} {us : List (OutPoint × OutputLocation × Utxo)}
  {new : LocatedUtxos}

/-- How `write_block` updates the balances of the changed addresses in memory. -/
def updateBalances (db : ZebraDb) (mode : BalanceTable.Mode C) (batch : DiskWriteBatch)
    (new spent : LocatedUtxos) : Exec ε (DiskWriteBatch × AddressBalances C) := do
  let m ← db.balanceByTransparentAddr.readAddrLocs mode
    (changedAddresses db.network spent.toList new.toList)
  let (batch, m) ← batch.prepareNewTransparentOutputsBatch db.network new m
  batch.prepareSpentTransparentOutputsBatch db.network spent m

def spentByLocation (us : List (OutPoint × OutputLocation × Utxo)) : LocatedUtxos :=
  .ofList (us.map Prod.snd)

variable (hl : OneChain (bs ++ [b])) (h₀ : b.height ≠ 0) (hd : DescribesChain net (transparentOf db) bs v)
  (hus : (db.spentUtxos b : Exec ε _) = .ok us) (hnew : (b.newOutputsByOutLoc : Exec ε _) = .ok new)
include hl h₀ hd hus hnew

/-- The two passes fail only where the received outputs overflow a balance: what is spent
afterwards was there before or is new. -/
theorem keepsBalances_passes {changed : List Address} {base : Address → Int} {earlier : Address → Nat}
    {m : AddressBalances C} (hchanged : changed = changedAddresses net (spentByLocation us).toList new.toList)
    (hm : StartsFrom v changed base earlier m) (hbase : ∀ a, C.lower ≤ -base a) (batch : DiskWriteBatch) :
    KeepsBalances (do
        let (batch, m) ← batch.prepareNewTransparentOutputsBatch net new m
        batch.prepareSpentTransparentOutputsBatch net (spentByLocation us) m : Exec ε _) ↔
      ∀ a, balanceIn m a + totalTo net a (b.payments.map entry) ≤ C.upper := by
  have hpayments := outputsOf_newOutputs (newOutputsByOutLoc_ok (hl.hashes_nodup (by simp)) (hl.outputs b (by simp)) hnew)
  have hspent : (outputsOf (spentByLocation us).toList).Perm ((Ledger.spentBy bs b).map entry) :=
    outputsOf_spent_perm hl h₀ hd hus
  have hmem : ∀ x ∈ outputsOf (spentByLocation us).toList ++ outputsOf new.toList, ∀ a, x.2.address net = some a →
      a ∈ changed := by
    intro x hx a ha
    rw [outputsOf, outputsOf, ← List.map_append] at hx
    obtain ⟨y, hy, rfl⟩ := List.mem_map.1 hx
    rw [hchanged, mem_changedAddresses]
    exact ⟨y, hy, ha⟩
  rw [← hpayments, ← pass_receive_succeeds, prepareNewTransparentOutputsBatch]
  rcases pass_receive_cases (m := m) new.toList with ⟨⟨m₁, links⟩, h₁⟩ | hpanic
  · have hreceived := (pass_receive h₁).1
    rw [hpayments] at hreceived
    have hsucceeds : (AddressBalances.pass (AddressBalances.spend net) m₁ (spentByLocation us).toList : Exec ε _).Succeeds := by
      refine pass_spend_succeeds (fun x hx a ha => ?_) fun a => ?_
      · rw [hreceived.location, Option.isSome_or, Bool.or_eq_true]
        obtain ⟨p, hp, rfl⟩ := List.mem_map.1 (hspent.mem_iff.1 hx)
        rcases List.mem_append.1 ((mem_spentBy hl h₀).1 hp).1 with hp' | hp'
        · refine .inl ?_
          rw [hm.location a (hmem _ (List.mem_append_left _ hx) a ha), hd.location]
          exact isSome_firstLocation (mem_unspent.1 hp').1 ha
        · refine .inr ?_
          rw [Option.isSome_iff_ne_none]
          exact fun hnone => firstTo_eq_none.1 hnone _ (List.mem_map_of_mem hp') ha
      · have htotal := totalTo_available hl h₀ hd a
        rw [available, List.map_append, totalTo_append, ← hd.balance] at htotal
        have hafter : 0 ≤ totalTo net a ((unspent (bs ++ [b])).map entry) := totalTo_nonneg
        have hlower := hbase a
        rw [hreceived.balance, totalTo_perm hspent]
        by_cases ha : a ∈ changed
        · have hstart := hm.balance a ha
          omega
        · have hzero : balanceIn m a = 0 := by simp [balanceIn, hm.unchanged a ha]
          have hnone : totalTo net a ((Ledger.spentBy bs b).map entry) = 0 := by
            rw [← totalTo_perm hspent]
            exact totalTo_eq_zero fun x hx hxa => ha (hmem x (List.mem_append_left _ hx) a hxa)
          have hpaid : 0 ≤ totalTo net a (b.payments.map entry) := totalTo_nonneg
          have hle := C.zero_mem.1
          omega
    obtain ⟨⟨m₂, deleted⟩, h₂⟩ := hsucceeds
    rw [h₁, ok_bind]
    dsimp only
    rw [pure_eq_ok, ok_bind]
    rw [prepareSpentTransparentOutputsBatch, h₂, ok_bind]
    exact iff_of_true (keepsBalances_ok _) ⟨_, rfl⟩
  · rw [hpanic]
    refine iff_of_false (fun h => h.overflow rfl) ?_
    rintro ⟨x, hx⟩
    exact absurd hx (panic_ne_ok _ _)

theorem keepsBalances_insert (batch : DiskWriteBatch) :
    KeepsBalances (updateBalances db insertMode batch new (spentByLocation us) : Exec ε _) ↔
      ∀ a, totalTo net a ((unspent bs).map entry) + totalTo net a (b.payments.map entry) ≤ maxMoney := by
  obtain rfl : db.network = net := hd.network
  obtain ⟨m, hread, hm⟩ := startsFrom_insertMode hd.values
    (changedAddresses db.network (spentByLocation us).toList new.toList)
  have hread' : (db.balanceByTransparentAddr.readAddrLocs insertMode
    (changedAddresses db.network (spentByLocation us).toList new.toList) : Exec ε _) = .ok m := hread
  rw [updateBalances, hread', ok_bind, keepsBalances_passes hl h₀ hd hus hnew rfl hm fun _ => le_refl _]
  refine forall_congr' fun a => ?_
  rw [← hd.balance]
  by_cases ha : a ∈ changedAddresses db.network (spentByLocation us).toList new.toList
  · rw [← hm.balance a ha, zero_add]
    rfl
  · -- an address that the block does not pay keeps its balance
    have hzero : balanceIn m a = 0 := by simp [balanceIn, hm.unchanged a ha]
    have hpaid : totalTo db.network a (b.payments.map entry) = 0 := by
      have hpayments := outputsOf_newOutputs
        (newOutputsByOutLoc_ok (hl.hashes_nodup (by simp)) (hl.outputs b (by simp)) hnew)
      rw [← hpayments]
      refine totalTo_eq_zero fun x hx hxa => ha ?_
      obtain ⟨y, hy, rfl⟩ := List.mem_map.1 hx
      exact mem_changedAddresses.2 ⟨y, List.mem_append_right _ hy, hxa⟩
    rw [hzero, hpaid, add_zero, add_zero]
    exact iff_of_true Constraint.nonNegative.zero_mem.2 (balanceOf_contains (v a)).2

theorem keepsBalances_merge (batch : DiskWriteBatch) :
    KeepsBalances (updateBalances db mergeMode batch new (spentByLocation us) : Exec ε _) ↔
      ∀ a, totalTo net a (b.payments.map entry) ≤ maxMoney := by
  obtain rfl : db.network = net := hd.network
  obtain ⟨m, hread, hzero, hm⟩ := startsFrom_mergeMode hd.values
    (changedAddresses db.network (spentByLocation us).toList new.toList)
  have hread' : (db.balanceByTransparentAddr.readAddrLocs mergeMode
    (changedAddresses db.network (spentByLocation us).toList new.toList) : Exec ε _) = .ok m := hread
  have hbase : ∀ a, Constraint.negativeAllowed.lower ≤ -balanceOf (v a) := fun a =>
    Int.neg_le_neg (balanceOf_contains (v a)).2
  rw [updateBalances, hread', ok_bind, keepsBalances_passes hl h₀ hd hus hnew rfl hm hbase]
  refine forall_congr' fun a => ?_
  rw [hzero, zero_add]
  rfl

end

section

variable [ScriptParsing] [MerkleHashing] {net : Network} {db : ZebraDb} {b : FinalizedBlock}

/-- A block keeps the balances in range if and only if all its outputs to an address fit on top of
the balance before it, or, while balances are merged, on their own: the outputs of a block count
before its spends. -/
theorem written_balances_in_range {ops : List (Option WriteCall)} (hr : Run WriteStep { network := net } ops db)
    (hv : ValidChain net (blocksOfCalls ops ++ [b])) (h₀ : b.height ≠ 0) {us : List (OutPoint × OutputLocation × Utxo)}
    (hus : (db.spentUtxos b : Exec ValidateContextError _) = .ok us) {new : KeyedMap OutputLocation Utxo}
    (hnew : (b.newOutputsByOutLoc : Exec ValidateContextError _) = .ok new) (batch : DiskWriteBatch) :
    (KeepsBalances (updateBalances db BalanceTable.insertMode batch new (spentByLocation us) :
        Exec ValidateContextError _) ↔
      ∀ a, totalTo net a ((unspent (blocksOfCalls ops)).map Payment.entry) +
        totalTo net a (b.payments.map Payment.entry) ≤ maxMoney) ∧
    (KeepsBalances (updateBalances db BalanceTable.mergeMode batch new (spentByLocation us) :
        Exec ValidateContextError _) ↔
      ∀ a, totalTo net a (b.payments.map Payment.entry) ≤ maxMoney) := by
  obtain ⟨v, hd⟩ := describes_run hr (List.nil_append _ ▸ hv.of_append) describes_empty
  rw [List.nil_append] at hd
  exact ⟨keepsBalances_insert hv.toOneChain h₀ hd hus hnew batch, keepsBalances_merge hv.toOneChain h₀ hd hus hnew batch⟩

end

section

open Sample

theorem twoPayments_in_range : ∃ db us new,
    Run WriteStep { network := network } [some ⟨false, twoPayments.head (by decide), none⟩] db ∧
    (db.spentUtxos (twoPayments.getLast (by decide)) : Exec ValidateContextError _) = .ok us ∧
    ((twoPayments.getLast (by decide)).newOutputsByOutLoc : Exec ValidateContextError _) = .ok new ∧
    KeepsBalances (updateBalances db BalanceTable.insertMode db new (spentByLocation us) : Exec ValidateContextError _) := by
  have hrun : ∃ db ∈ (ZebraDb.writeBlock { network := network } false (twoPayments.head (by decide)) none).toOption,
      ∃ us ∈ (db.spentUtxos (twoPayments.getLast (by decide)) : Validated _).toOption,
      ∃ new ∈ ((twoPayments.getLast (by decide)).newOutputsByOutLoc : Validated _).toOption, True := by
    decide +kernel
  obtain ⟨db, hdb, us, hus, new, hnew, -⟩ := hrun
  have hr : Run WriteStep { network := network } [some ⟨false, twoPayments.head (by decide), none⟩] db :=
    .cons (.block (toOption_eq_some.1 hdb)) (.nil db)
  have hus := toOption_eq_some.1 hus
  have hnew := toOption_eq_some.1 hnew
  have hv : ValidChain network (blocksOfCalls [some ⟨false, twoPayments.head (by decide), none⟩] ++
      [twoPayments.getLast (by decide)]) := twoPayments_valid
  refine ⟨db, us, new, hr, hus, hnew, (written_balances_in_range hr hv (by decide) hus hnew db).1.2 ?_⟩
  intro a
  have hpaid : (twoPayments.getLast (by decide)).payments.map entry =
      [(⟨⟨1, 1⟩, 0⟩, pay ⟨100, by decide⟩ 5), (⟨⟨1, 2⟩, 0⟩, pay ⟨30, by decide⟩ 5)] := by decide
  have hheld : (unspent (blocksOfCalls [some ⟨false, twoPayments.head (by decide), none⟩])).map entry = [] := by
    decide
  rw [hpaid, hheld, totalTo_nil, zero_add]
  exact (totalTo_le a _).trans (by decide)

/-- A coinbase transaction pays the Sapling pool, the money goes to address 1, and address 1 pays it
to itself twice in one block. -/
def shieldedCoinbase : SemanticallyVerifiedBlock :=
  let coinbase : Transaction := .V5 [.coinbase 1] [] (some ⟨elevenMillion.widen.neg, .justOutputs ⟨[7], seven_ne_nil⟩⟩) none
  let block : Block := ⟨⟨7, 0, 0, 0, 0x200f0f0f⟩, [coinbase], 1000, 0⟩
  { block, hash := 8, height := 1, newOutputs := ∅, transactionHashes := [300], deferredPoolBalanceChange := none }

def unshieldAll : SemanticallyVerifiedBlock :=
  semanticBlock 2 9 8 [(301, .V5 [] [pay elevenMillion 1] (some ⟨elevenMillion.widen, .justOutputs ⟨[7], seven_ne_nil⟩⟩) none)]

def payItselfTwice : SemanticallyVerifiedBlock :=
  semanticBlock 3 10 9 [(302, .V5 [.prevOut ⟨301, 0⟩] [pay elevenMillion 1] none none),
    (303, .V5 [.prevOut ⟨302, 0⟩] [pay elevenMillion 1] none none)]

def selfPayments : List FinalizedBlock :=
  [semanticBlock 0 7 genesisPreviousBlockHash [], shieldedCoinbase, unshieldAll].map
    fun b => .fromSemanticallyVerified b emptyTreestate

def lastSelfPayment : FinalizedBlock := .fromSemanticallyVerified payItselfTwice emptyTreestate

def spentTwice : List (OutPoint × OrderedUtxo) :=
  [(⟨301, 0⟩, ⟨⟨pay elevenMillion 1, 2, false⟩, 1⟩), (⟨302, 0⟩, ⟨⟨pay elevenMillion 1, 3, false⟩, 1⟩)]

/-- The outputs of the last block count before its spends, and the node stops although no
transaction and no pool is out of range. -/
theorem self_payments_overflow :
    ValidChain network (selfPayments ++ [lastSelfPayment]) ∧
    ∃ db, Run WriteStep { network := network } (selfPayments.map fun b => some ⟨true, b, none⟩) db ∧
      Check.remainingTransactionValue payItselfTwice (.ofList spentTwice) = .ok () ∧
      (DiskWriteBatch.prepareChainValuePoolsBatch db lastSelfPayment (.ofList (spentTwice.map fun x => (x.1, x.2.utxo)))
        db.finalizedValuePool).Succeeds ∧
      db.writeBlock true lastSelfPayment none = .panic .balanceOverflow ∧
      db.writeBlock false lastSelfPayment none = .panic .balanceOverflow := by
  have hrun : ∃ db₁ ∈ (ZebraDb.writeBlock { network := network } true (selfPayments.head (by decide)) none).toOption,
      ∃ db₂ ∈ (db₁.writeBlock true (.fromSemanticallyVerified shieldedCoinbase emptyTreestate) none).toOption,
      ∃ db ∈ (db₂.writeBlock true (.fromSemanticallyVerified unshieldAll emptyTreestate) none).toOption,
        (prepareChainValuePoolsBatch db lastSelfPayment (.ofList (spentTwice.map fun x => (x.1, x.2.utxo)))
          db.finalizedValuePool).toOption.isSome ∧
        (fun _ => ()) <$> db.writeBlock true lastSelfPayment none = .panic .balanceOverflow ∧
        (fun _ => ()) <$> db.writeBlock false lastSelfPayment none = .panic .balanceOverflow := by
    decide +kernel
  obtain ⟨db₁, h₁, db₂, h₂, db, h, hpools, hinsert, hmerge⟩ := hrun
  obtain ⟨x, hx⟩ := Option.isSome_iff_exists.1 hpools
  refine ⟨PassesTotals.validChain (by decide +kernel), db, ?_, by decide +kernel, ⟨x, toOption_eq_some.1 hx⟩, map_eq_panic.1 hinsert,
    map_eq_panic.1 hmerge⟩
  exact .cons (.block (toOption_eq_some.1 h₁)) (.cons (.block (toOption_eq_some.1 h₂))
    (.cons (.block (toOption_eq_some.1 h)) (.nil db)))

end

end Zebra.Properties
