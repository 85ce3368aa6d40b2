import Zebra.Ledger.PassRange
import Zebra.Ledger.TransparentStep
import Zebra.Properties.BalanceMerge

namespace Zebra.Properties

open Lib Lib.Transition Lib.MergeStore Ledger

section

variable [ScriptParsing]

/-- One chain from its genesis block, whose locations fit on disk and whose balances do not
overflow. -/
structure ValidChain (net : Network) (bs : List FinalizedBlock) : Prop extends OneChain bs where
  heightFits : ∀ b ∈ bs, b.height ≤ maxOnDiskHeight
  transactionsFit : ∀ b ∈ bs, b.block.transactions.length ≤ 2 ^ 16
  outputsFit : ∀ b ∈ bs, ∀ tx ∈ b.block.transactions, tx.outputs.length ≤ maxOnDiskOutputIndex + 1
  inRange : ∀ n a, totalTo net a ((unspent (bs.take n)).map Payment.entry) ≤ maxMoney

/-- The transparent indexes of the database describe the chain exactly. -/
structure IndexesExact (net : Network) (db : ZebraDb) (bs : List FinalizedBlock) : Prop where
  utxos : ∀ l o, db.utxoByOutLoc[l]? = some o ↔ ∃ p ∈ unspent bs, p.location = l ∧ p.output = o
  balances : ∀ a, ∃ x, (db.balanceByTransparentAddr.addressBalanceLocation a : Validated _) = .ok x ∧
    x.map (·.location) = firstLocation net bs a ∧
    balanceOf x = totalTo net a ((unspent bs).map Payment.entry) ∧
    receivedOf x = min (totalTo net a ((chainPayments bs).map Payment.entry)).toNat (2 ^ 64 - 1)
  outputLinks : ∀ al l, ⟨al, l⟩ ∈ db.utxoLocByTransparentAddrLoc ↔ ∃ a, firstLocation net bs a = some al ∧
    ∃ p ∈ unspent bs, p.output.address net = some a ∧ p.location = l
  txLinks : ∀ al tl, ⟨al, tl⟩ ∈ db.txLocByTransparentAddrLoc ↔ ∃ a, firstLocation net bs a = some al ∧
    ∃ p ∈ chainPayments bs, p.output.address net = some a ∧
      (p.location.transactionLocation = tl ∨ (tl, p.outpoint) ∈ chainSpends bs)

variable {net : Network} {db db' : ZebraDb} {bs bs' : List FinalizedBlock} {b : FinalizedBlock}

theorem ValidChain.of_append (h : ValidChain net (bs ++ bs')) : ValidChain net bs where
  toOneChain := h.toOneChain.of_append
  heightFits b hb := h.heightFits b (List.mem_append_left _ hb)
  transactionsFit b hb := h.transactionsFit b (List.mem_append_left _ hb)
  outputsFit b hb := h.outputsFit b (List.mem_append_left _ hb)
  inRange n a := by
    have hn := h.inRange (min n bs.length) a
    rwa [List.take_append_of_le_length (min_le_right _ _), ← List.take_take, List.take_length] at hn

theorem ValidChain.storable (h : ValidChain net bs) (hb : b ∈ bs) {p : Payment} (hp : p ∈ b.payments) :
    p.location.onDisk = p.location := by
  obtain ⟨i, tx, hash, j, htx, -, ho, -, hloc⟩ := mem_payments.1 hp
  obtain ⟨hi, rfl⟩ := List.getElem?_eq_some_iff.1 htx
  have hheight := h.heightFits b hb
  have hindex : i < 2 ^ 16 := lt_of_lt_of_le hi (h.transactionsFit b hb)
  have houtput := h.outputsFit b hb _ (List.getElem_mem hi)
  have hj : j ≤ maxOnDiskOutputIndex := by
    have := (List.getElem?_eq_some_iff.1 ho).1
    omega
  rw [hloc, OutputLocation.onDisk, Nat.mod_eq_of_lt hindex, min_eq_left hheight, min_eq_left hj]

def PassesTotals (bs : List FinalizedBlock) : Prop :=
  (∀ b ∈ bs, b.transactionHashes.length = b.block.transactions.length ∧
    b.newOutputs.toList = (newOrderedOutputsWithHeight b.block b.height b.transactionHashes).toList ∧
    b.height ≤ maxOnDiskHeight ∧ b.block.transactions.length ≤ 2 ^ 16 ∧
    ∀ tx ∈ b.block.transactions, tx.outputs.length ≤ maxOnDiskOutputIndex + 1) ∧
  bs.map FinalizedBlock.height = List.range bs.length ∧ (bs.flatMap (·.transactionHashes)).Nodup ∧
    ∀ bs' ∈ bs.inits, ((unspent bs').map fun p => p.output.value.zatoshis).sum ≤ maxMoney

instance (bs : List FinalizedBlock) : Decidable (PassesTotals bs) := inferInstanceAs (Decidable (_ ∧ _))

theorem PassesTotals.validChain (h : PassesTotals bs) : ValidChain net bs where
  height i b hb := by
    have hi := congrArg (·[i]?) h.2.1
    rw [List.getElem?_map, hb] at hi
    obtain ⟨hlt, heq⟩ := List.getElem?_eq_some_iff.1 hi.symm
    rw [← heq, List.getElem_range]
  hashes b hb := (h.1 b hb).1
  outputs b hb := Std.ExtTreeMap.ext_toList ((h.1 b hb).2.1 ▸ .rfl)
  distinct := h.2.2.1
  heightFits b hb := (h.1 b hb).2.2.1
  transactionsFit b hb := (h.1 b hb).2.2.2.1
  outputsFit b hb := (h.1 b hb).2.2.2.2
  inRange n a := by
    refine (totalTo_le a _).trans ?_
    rw [List.map_map]
    exact h.2.2.2 _ ((List.mem_inits _ _).2 (List.take_prefix n bs))

variable [MerkleHashing]

/-- A call of `write_block`. -/
structure WriteCall where
  finishedFormatUpgrades : Bool
  block : FinalizedBlock
  prevTrees : Option NoteCommitmentTrees

/-- The database: blocks are written, and merged balances are combined in between. -/
inductive WriteStep : ZebraDb → Option WriteCall → ZebraDb → Prop
  | block {db db' : ZebraDb} {call : WriteCall} :
      db.writeBlock call.finishedFormatUpgrades call.block call.prevTrees = .ok db' → WriteStep db (some call) db'
  | compact {db : ZebraDb} {a : Address} {s s' : MergeStore Bytes} : db.balanceByTransparentAddr[a]? = some s →
      Compacts (MergesBalance ValidateContextError) s s' →
      WriteStep db none { db with balanceByTransparentAddr := db.balanceByTransparentAddr.insert a s' }

def blocksOfCalls (ops : List (Option WriteCall)) : List FinalizedBlock := ops.reduceOption.map WriteCall.block

theorem describes_empty : DescribesChain net (transparentOf { network := net }) [] fun _ => none where
  network := rfl
  located hash l := by simp [transparentOf]
  known := by simp [chainSpends]
  utxos l o := by simp [transparentOf, unspent, chainPayments]
  values := hasValues_empty
  location _ := rfl
  balance _ := rfl
  received _ := rfl
  outputLinks al l := by simp [transparentOf, unspent, chainPayments]
  txLinks al tl := by simp [transparentOf, chainPayments]

theorem describes_run {ops : List (Option WriteCall)} {v : Address → Option AddressBalanceLocation}
    (hr : Run WriteStep db ops db') (hv : ValidChain net (bs ++ blocksOfCalls ops))
    (hd : DescribesChain net (transparentOf db) bs v) :
    ∃ v', DescribesChain net (transparentOf db') (bs ++ blocksOfCalls ops) v' := by
  induction hr generalizing bs v with
  | nil =>
    rw [blocksOfCalls, List.reduceOption_nil, List.map_nil, List.append_nil]
    exact ⟨v, hd⟩
  | cons hs _ ih =>
    cases hs with
    | @block _ call hw =>
      rw [blocksOfCalls, List.reduceOption_cons_of_some, List.map_cons, List.append_cons] at hv ⊢
      have hvb := hv.of_append
      have hrange : ∀ a, totalTo net a ((unspent (bs ++ [call.block])).map Payment.entry) ≤ maxMoney := by
        intro a
        have hn := hvb.inRange (bs ++ [call.block]).length a
        rwa [List.take_length] at hn
      obtain ⟨v', hd'⟩ := describes_writeBlock hvb.toOneChain hd (fun p => hvb.storable (by simp)) hrange hw
      exact ih hv hd'
    | compact ha hc =>
      rw [blocksOfCalls, List.reduceOption_cons_of_none] at hv ⊢
      exact ih hv { hd with values := hasValues_compact hd.values ha hc }

/-- The transparent indexes describe exactly the chain that was written, whatever the modes of
the calls and whatever the database combines in between. -/
theorem transparent_indexes_exact {ops : List (Option WriteCall)} (hr : Run WriteStep { network := net } ops db)
    (hv : ValidChain net (blocksOfCalls ops)) : IndexesExact net db (blocksOfCalls ops) := by
  obtain ⟨v, hd⟩ := describes_run hr (List.nil_append _ ▸ hv) describes_empty
  rw [List.nil_append] at hd
  refine ⟨?_, ?_, hd.outputLinks, hd.txLinks⟩
  · intro l o
    rw [show db.utxoByOutLoc = (transparentOf db).utxoByOutLoc from rfl, hd.utxos]
    simp [Payment.entry]
  · intro a
    refine ⟨v a, addressBalanceLocation_eq (hd.values a), hd.location a, hd.balance a, ?_⟩
    rw [hd.received, saturatingAdd, Nat.zero_add]

end

section

open Sample

def emptyTreestate : Treestate := ⟨.empty, .empty, .empty, none, none, none⟩

/-- A transaction that pays an address, and one that spends that output in the same block and
pays the address again. -/
def twoPayments : List FinalizedBlock :=
  [.fromSemanticallyVerified (semanticBlock 0 7 genesisPreviousBlockHash []) emptyTreestate,
    .fromSemanticallyVerified (semanticBlock 1 8 7
      [(201, .V5 [] [pay ⟨100, hundred_valid⟩ 5] none none),
        (202, .V5 [.prevOut ⟨201, 0⟩] [pay ⟨30, thirty_valid⟩ 5] none none)]) emptyTreestate]

theorem twoPayments_valid : ValidChain network twoPayments :=
  PassesTotals.validChain (by decide +kernel)

theorem twoPayments_indexed : ∃ db, Run WriteStep { network := network } (twoPayments.map fun b => some ⟨false, b, none⟩) db ∧
    IndexesExact network db twoPayments := by
  have hrun : ∃ db₁ ∈ (ZebraDb.writeBlock { network := network } false (twoPayments.head (by decide)) none).toOption,
      ∃ db ∈ (db₁.writeBlock false (twoPayments.getLast (by decide)) none).toOption, True := by
    decide +kernel
  obtain ⟨db₁, h₁, db, h₂, -⟩ := hrun
  have hr : Run WriteStep { network := network } (twoPayments.map fun b => some ⟨false, b, none⟩) db :=
    .cons (.block (Outcome.toOption_eq_some.1 h₁)) (.cons (.block (Outcome.toOption_eq_some.1 h₂)) (.nil db))
  exact ⟨db, hr, transparent_indexes_exact hr twoPayments_valid⟩

end

end Zebra.Properties
