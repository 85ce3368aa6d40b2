import Zebra.State.WriteBlock

namespace Zebra.Ledger

open Lib DiskWriteBatch AddressBalances KeyedMap

variable {ε : Type} {C : Constraint} {db db' : ZebraDb} {batch batch' : DiskWriteBatch} {b : FinalizedBlock}

structure TransparentTables where
  network : Network
  txLocByHash : KeyedMap TransactionHash TransactionLocation
  utxoByOutLoc : KeyedMap OutputLocation Output
  balances : BalanceTable
  utxoLocs : KeyedMap AddressUnspentOutput Unit
  txLocs : KeyedMap AddressTransaction Unit

def transparentOf (db : ZebraDb) : TransparentTables :=
  ⟨db.network, db.txLocByHash, db.utxoByOutLoc, db.balanceByTransparentAddr, db.utxoLocByTransparentAddrLoc,
    db.txLocByTransparentAddrLoc⟩

structure ShieldedTables where
  network : Network
  hashByHeight : KeyedMap Nat BlockHash
  heightByHash : KeyedMap BlockHash Nat
  blockByHeight : KeyedMap Nat Block
  sproutNullifiers : KeyedMap Nat TransactionLocation
  saplingNullifiers : KeyedMap Nat TransactionLocation
  orchardNullifiers : KeyedMap Nat TransactionLocation
  sproutAnchors : SproutAnchors
  sproutTree : Option (NoteCommitmentTree .sprout)
  saplingAnchors : KeyedMap Nat Unit
  saplingTrees : KeyedMap Nat (NoteCommitmentTree .sapling)
  saplingSubtrees : Subtrees
  orchardAnchors : KeyedMap Nat Unit
  orchardTrees : KeyedMap Nat (NoteCommitmentTree .orchard)
  orchardSubtrees : Subtrees

def shieldedOf (db : ZebraDb) : ShieldedTables :=
  ⟨db.network, db.hashByHeight, db.heightByHash, db.blockByHeight, db.sproutNullifiers, db.saplingNullifiers,
    db.orchardNullifiers, db.sproutAnchors, db.sproutNoteCommitmentTree, db.saplingAnchors,
    db.saplingNoteCommitmentTree, db.saplingNoteCommitmentSubtree, db.orchardAnchors, db.orchardNoteCommitmentTree,
    db.orchardNoteCommitmentSubtree⟩

theorem mapM_fromUsize {α β : Type} {height : Nat} {f : α → β} {l : List α} {r : List (β × TransactionLocation)}
    (h : ((l.mapIdx fun i x => (f x, i)).mapM fun x => do
      let location ← TransactionLocation.fromUsize height x.2
      return (x.1, location) : Exec ε _) = .ok r) : r = l.mapIdx fun i x => (f x, ⟨height, i⟩) := by
  have hr : r = (l.mapIdx fun i x => (f x, i)).map fun x => (x.1, ⟨height, x.2⟩) := by
    refine eq_map_of_mapM_eq_ok ?_ h
    intro x _ y hy
    obtain ⟨l, hl, hy⟩ := bind_eq_ok.1 hy
    rw [TransactionLocation.fromUsize, Outcome.check_bind_eq_ok] at hl
    obtain rfl := Except.ok.inj hl.2
    exact (Except.ok.inj hy).symm
  rw [hr]
  refine List.ext_getElem (by simp) fun i _ _ => ?_
  simp

theorem prepareBlockHeader_ok
    (h : (prepareBlockHeaderAndTransactionDataBatch batch b : Exec ε _) = .ok batch') :
    batch' = { batch with
      blockByHeight := batch.blockByHeight.insert b.height b.block
      hashByHeight := batch.hashByHeight.insert b.height b.hash
      heightByHash := batch.heightByHash.insert b.hash b.height
      txLocByHash := batch.txLocByHash.insertMany
        ((b.block.transactions.zip b.transactionHashes).mapIdx fun i x => (x.2, ⟨b.height, i⟩)) } := by
  obtain ⟨locations, hl, h⟩ := bind_eq_ok.1 h
  rw [← Except.ok.inj h, mapM_fromUsize hl]

theorem prepareShielded_ok (h : (prepareShieldedTransactionBatch batch b : Exec ε _) = .ok batch') :
    batch' = (b.block.transactions.mapIdx fun i tx => (tx, (⟨b.height, i⟩ : TransactionLocation))).foldl
      prepareNullifierBatch batch := by
  obtain ⟨txs, hl, h⟩ := bind_eq_ok.1 h
  rw [← Except.ok.inj h, mapM_fromUsize hl]

theorem transparentOf_prepareNullifierBatch (txs : List (Transaction × TransactionLocation)) :
    transparentOf (txs.foldl prepareNullifierBatch batch) = transparentOf batch := by
  induction txs generalizing batch with
  | nil => rfl
  | cons x txs ih => exact ih

theorem shieldedOf_prepareNullifierBatch (txs : List (Transaction × TransactionLocation)) :
    ∃ sprout sapling orchard,
      shieldedOf (txs.foldl prepareNullifierBatch batch) =
        { shieldedOf batch with sproutNullifiers := sprout, saplingNullifiers := sapling, orchardNullifiers := orchard } ∧
      (∀ n, n ∈ sprout ↔ n ∈ batch.sproutNullifiers ∨ n ∈ txs.flatMap (·.1.sproutNullifiers)) ∧
      (∀ n, n ∈ sapling ↔ n ∈ batch.saplingNullifiers ∨ n ∈ txs.flatMap (·.1.saplingNullifiers)) ∧
      ∀ n, n ∈ orchard ↔ n ∈ batch.orchardNullifiers ∨ n ∈ txs.flatMap (·.1.orchardNullifiers) := by
  induction txs generalizing batch with
  | nil => exact ⟨_, _, _, rfl, by simp, by simp, by simp⟩
  | cons x txs ih =>
    obtain ⟨sprout, sapling, orchard, h, hsprout, hsapling, horchard⟩ :=
      @ih (prepareNullifierBatch batch x)
    refine ⟨sprout, sapling, orchard, h, fun n => ?_, fun n => ?_, fun n => ?_⟩
    · rw [hsprout, prepareNullifierBatch, mem_insertMany_iff]
      simp [or_assoc]
    · rw [hsapling, prepareNullifierBatch, mem_insertMany_iff]
      simp [or_assoc]
    · rw [horchard, prepareNullifierBatch, mem_insertMany_iff]
      simp [or_assoc]

theorem prepareChainValuePools_ok {spent : KeyedMap OutPoint Utxo} {pools : ValueBalance .nonNegative}
    (h : prepareChainValuePoolsBatch batch b spent pools = .ok batch') :
    transparentOf batch' = transparentOf batch ∧ shieldedOf batch' = shieldedOf batch := by
  obtain ⟨_, -, h⟩ := bind_eq_ok.1 h
  obtain ⟨_, -, h⟩ := bind_eq_ok.1 h
  rw [← Except.ok.inj h]
  exact ⟨rfl, rfl⟩

section

variable [MerkleHashing] {prev : Option NoteCommitmentTrees}

theorem transparentOf_prepareTrees (h : (prepareTreesBatch batch db b prev : Exec ε _) = .ok batch') :
    transparentOf batch' = transparentOf batch := by
  obtain ⟨_, -, h⟩ := bind_eq_ok.1 h
  obtain ⟨_, -, h⟩ := bind_eq_ok.1 h
  obtain ⟨_, -, h⟩ := bind_eq_ok.1 h
  rw [← Except.ok.inj h]
  split <;> split <;> split <;> rfl

/-- The shielded tables once the trees of a block are written, from the trees before it. -/
def treesWritten (t : ShieldedTables) (b : FinalizedBlock) (sprout : NoteCommitmentTree .sprout)
    (sapling : NoteCommitmentTree .sapling) (orchard : NoteCommitmentTree .orchard) : ShieldedTables :=
  let trees := b.treestate
  let sproutChanged := b.height = 0 ∨ sprout.root ≠ trees.sprout.root
  let saplingChanged := b.height = 0 ∨ sapling.root ≠ trees.sapling.root
  let orchardChanged := b.height = 0 ∨ orchard.root ≠ trees.orchard.root
  { t with
    sproutAnchors := if sproutChanged then t.sproutAnchors.insert trees.sprout.root trees.sprout else t.sproutAnchors
    sproutTree := if sproutChanged then some trees.sprout else t.sproutTree
    saplingAnchors := if saplingChanged then t.saplingAnchors.insert trees.sapling.root () else t.saplingAnchors
    saplingTrees := if saplingChanged then t.saplingTrees.insert b.height trees.sapling else t.saplingTrees
    saplingSubtrees :=
      if saplingChanged then insertSubtree t.saplingSubtrees trees.saplingSubtree else t.saplingSubtrees
    orchardAnchors := if orchardChanged then t.orchardAnchors.insert trees.orchard.root () else t.orchardAnchors
    orchardTrees := if orchardChanged then t.orchardTrees.insert b.height trees.orchard else t.orchardTrees
    orchardSubtrees :=
      if orchardChanged then insertSubtree t.orchardSubtrees trees.orchardSubtree else t.orchardSubtrees }

theorem prepareTrees_ok (h : (prepareTreesBatch batch db b prev : Exec ε _) = .ok batch') :
    ∃ sprout sapling orchard,
      (previousTree prev (·.sprout) db.sproutTreeForTip : Exec ε _) = .ok sprout ∧
      (previousTree prev (·.sapling) db.saplingTreeForTip : Exec ε _) = .ok sapling ∧
      (previousTree prev (·.orchard) db.orchardTreeForTip : Exec ε _) = .ok orchard ∧
      shieldedOf batch' = treesWritten (shieldedOf batch) b sprout sapling orchard := by
  obtain ⟨sprout, hsprout, h⟩ := bind_eq_ok.1 h
  obtain ⟨sapling, hsapling, h⟩ := bind_eq_ok.1 h
  obtain ⟨orchard, horchard, h⟩ := bind_eq_ok.1 h
  refine ⟨sprout, sapling, orchard, hsprout, hsapling, horchard, ?_⟩
  rw [← Except.ok.inj h, treesWritten]
  by_cases hs : b.height = 0 ∨ sprout.root ≠ b.treestate.sprout.root <;>
    by_cases ha : b.height = 0 ∨ sapling.root ≠ b.treestate.sapling.root <;>
      by_cases ho : b.height = 0 ∨ orchard.root ≠ b.treestate.orchard.root <;>
        simp only [hs, ha, ho, if_true, if_false] <;> rfl

end

section

variable [ScriptParsing] {net : Network} {mode : BalanceTable.Mode C} {new spent : LocatedUtxos}
  {spentByOutpoint : KeyedMap OutPoint Utxo} {m₀ : AddressBalances C}

theorem prepareNewOutputs_ok {m m' : AddressBalances C}
    (h : (prepareNewTransparentOutputsBatch batch net new m : Exec ε _) = .ok (batch', m')) :
    ∃ created, (pass (receive net) m new.toList : Exec ε _) = .ok (m', created) ∧
      batch' = { batch with
        utxoByOutLoc := batch.utxoByOutLoc.insertMany (new.toList.map fun x => (x.1, x.2.output))
        utxoLocByTransparentAddrLoc := batch.utxoLocByTransparentAddrLoc.insertMany (created.map (·, ()))
        txLocByTransparentAddrLoc := batch.txLocByTransparentAddrLoc.insertMany
          (created.map fun x => (⟨x.addressLocation, x.unspentOutputLocation.transactionLocation⟩, ())) } := by
  obtain ⟨⟨m₁, created⟩, hc, h⟩ := bind_eq_ok.1 h
  cases h
  exact ⟨created, hc, rfl⟩

theorem prepareSpentOutputs_ok {m m' : AddressBalances C}
    (h : (prepareSpentTransparentOutputsBatch batch net spent m : Exec ε _) = .ok (batch', m')) :
    ∃ deleted, (pass (spend net) m spent.toList : Exec ε _) = .ok (m', deleted) ∧
      batch' = { batch with
        utxoByOutLoc := batch.utxoByOutLoc.eraseAll (spent.toList.map Prod.fst)
        utxoLocByTransparentAddrLoc := batch.utxoLocByTransparentAddrLoc.eraseAll deleted } := by
  obtain ⟨⟨m₁, deleted⟩, hd, h⟩ := bind_eq_ok.1 h
  cases h
  exact ⟨deleted, hd, rfl⟩

/-- The tables after the transparent part of a batch, from the three passes over the block. -/
structure WritesTransparent (net : Network) (mode : BalanceTable.Mode C) (b : FinalizedBlock)
    (new : LocatedUtxos) (spentByOutpoint : KeyedMap OutPoint Utxo)
    (spent : LocatedUtxos) (m₀ : AddressBalances C) (t t' : TransparentTables)
    (m₁ m₂ : AddressBalances C) (created deleted : List AddressUnspentOutput) (spending : List (List AddressTransaction)) :
    Prop where
  createdPass : (pass (receive net) m₀ new.toList : Validated _) =
    .ok (m₁, created)
  deletedPass : (pass (spend net) m₁ spent.toList : Validated _) =
    .ok (m₂, deleted)
  spendingPass : ((b.block.transactions.mapIdx fun i tx => (tx, i)).mapM
    (m₂.spendingLinks net spentByOutpoint b.height) : Validated _) = .ok spending
  network : t'.network = t.network
  txLocByHash : t'.txLocByHash = t.txLocByHash
  utxoByOutLoc : t'.utxoByOutLoc =
    KeyedMap.eraseAll (t.utxoByOutLoc.insertMany (new.toList.map fun x => (x.1, x.2.output)))
      (spent.toList.map Prod.fst)
  utxoLocs : t'.utxoLocs = KeyedMap.eraseAll (t.utxoLocs.insertMany (created.map (·, ()))) deleted
  txLocs : t'.txLocs = (t.txLocs.insertMany
    (created.map fun x => (⟨x.addressLocation, x.unspentOutputLocation.transactionLocation⟩, ()))).insertMany
      (spending.flatten.map (·, ()))
  balances : t'.balances = t.balances.writeAddrLocs mode m₂

theorem prepareTransparent_ok
    (h : (prepareTransparentTransactionBatch batch net db mode b new spentByOutpoint spent m₀ :
      Validated _) = .ok batch') (hb : batch.balanceByTransparentAddr = db.balanceByTransparentAddr) :
    (∃ m₁ m₂ created deleted spending, WritesTransparent net mode b new spentByOutpoint spent m₀
      (transparentOf batch) (transparentOf batch') m₁ m₂ created deleted spending) ∧
    shieldedOf batch' = shieldedOf batch := by
  obtain ⟨⟨batch₁, m₁⟩, h₁, h⟩ := bind_eq_ok.1 h
  obtain ⟨⟨batch₂, m₂⟩, h₂, h⟩ := bind_eq_ok.1 h
  obtain ⟨batch₃, h₃, hlast⟩ := bind_eq_ok.1 h
  obtain ⟨created, hc, rfl⟩ := prepareNewOutputs_ok h₁
  obtain ⟨deleted, hd, rfl⟩ := prepareSpentOutputs_ok h₂
  obtain ⟨spending, hs, hspending⟩ := bind_eq_ok.1 h₃
  cases hspending
  cases hlast
  refine ⟨⟨m₁, m₂, created, deleted, spending, hc, hd, hs, rfl, rfl, rfl, rfl, rfl, ?_⟩, rfl⟩
  change db.balanceByTransparentAddr.writeAddrLocs mode m₂ = batch.balanceByTransparentAddr.writeAddrLocs mode m₂
  rw [hb]

end

section

variable [MerkleHashing] [ScriptParsing] {mode : BalanceTable.Mode C} {prev : Option NoteCommitmentTrees}

structure Writes (db : ZebraDb) (mode : BalanceTable.Mode C) (b : FinalizedBlock) (prev : Option NoteCommitmentTrees)
    (db' : ZebraDb) (new : LocatedUtxos) (spentUtxos : List (OutPoint × OutputLocation × Utxo))
    (m₀ : AddressBalances C) (trees batch : DiskWriteBatch) : Prop where
  newOutputs : (b.newOutputsByOutLoc : Validated _) = .ok new
  spends : (db.spentUtxos b : Validated _) = .ok spentUtxos
  reads : (db.balanceByTransparentAddr.readAddrLocs mode (BalanceTable.changedAddresses db.network
    (Std.ExtTreeMap.ofList (spentUtxos.map Prod.snd) compare).toList new.toList) : Validated _) = .ok m₀
  treesBatch : (prepareTreesBatch ((b.block.transactions.mapIdx fun i tx =>
      (tx, (⟨b.height, i⟩ : TransactionLocation))).foldl prepareNullifierBatch { db with
        blockByHeight := db.blockByHeight.insert b.height b.block
        hashByHeight := db.hashByHeight.insert b.height b.hash
        heightByHash := db.heightByHash.insert b.hash b.height
        txLocByHash := db.txLocByHash.insertMany
          ((b.block.transactions.zip b.transactionHashes).mapIdx fun i x => (x.2, ⟨b.height, i⟩)) }) db b prev :
    Validated _) = .ok trees
  transparentBatch : (prepareTransparentUnlessGenesis trees db.network db mode b new
    (.ofList (spentUtxos.map fun x => (x.1, x.2.2))) (.ofList (spentUtxos.map Prod.snd)) m₀ :
    Validated _) = .ok batch
  poolsBatch : prepareChainValuePoolsBatch batch b (.ofList (spentUtxos.map fun x => (x.1, x.2.2)))
    db.finalizedValuePool = .ok db'

theorem writeBlockWith_ok (h : db.writeBlockWith mode b prev = .ok db') :
    ∃ new spentUtxos m₀ trees batch, Writes db mode b prev db' new spentUtxos m₀ trees batch := by
  obtain ⟨new, hnew, h⟩ := bind_eq_ok.1 h
  obtain ⟨spentUtxos, hspent, h⟩ := bind_eq_ok.1 h
  obtain ⟨m₀, hm₀, h⟩ := bind_eq_ok.1 h
  obtain ⟨header, hheader, h⟩ := bind_eq_ok.1 h
  obtain ⟨shielded, hshielded, h⟩ := bind_eq_ok.1 h
  obtain ⟨trees, htrees, h⟩ := bind_eq_ok.1 h
  obtain ⟨batch, hbatch, hpools⟩ := bind_eq_ok.1 h
  obtain rfl := prepareBlockHeader_ok hheader
  obtain rfl := prepareShielded_ok hshielded
  exact ⟨new, spentUtxos, m₀, trees, batch, hnew, hspent, hm₀, htrees, hbatch, hpools⟩

def located (t : TransparentTables) (b : FinalizedBlock) : TransparentTables :=
  { t with
    txLocByHash := t.txLocByHash.insertMany
      ((b.block.transactions.zip b.transactionHashes).mapIdx fun i x => (x.2, ⟨b.height, i⟩)) }

namespace Writes

variable {new : LocatedUtxos} {spentUtxos : List (OutPoint × OutputLocation × Utxo)}
  {m₀ : AddressBalances C} {trees : DiskWriteBatch}

section

variable (h : Writes db mode b prev db' new spentUtxos m₀ trees batch)
include h

theorem transparentOf_trees :
    transparentOf trees = located (transparentOf db) b := by
  rw [transparentOf_prepareTrees h.treesBatch, transparentOf_prepareNullifierBatch]
  rfl

theorem transparent_genesis (h₀ : b.height = 0) :
    transparentOf db' = located (transparentOf db) b := by
  have hbatch := h.transparentBatch
  rw [prepareTransparentUnlessGenesis, if_pos h₀] at hbatch
  rw [(prepareChainValuePools_ok h.poolsBatch).1, ← Except.ok.inj hbatch, h.transparentOf_trees]

theorem transparent (h₀ : b.height ≠ 0) :
    ∃ m₁ m₂ created deleted spending, WritesTransparent db.network mode b new
      (.ofList (spentUtxos.map fun x => (x.1, x.2.2))) (.ofList (spentUtxos.map Prod.snd)) m₀
      (located (transparentOf db) b) (transparentOf db') m₁ m₂ created deleted spending := by
  have hbatch := h.transparentBatch
  rw [prepareTransparentUnlessGenesis, if_neg h₀] at hbatch
  have htrees := h.transparentOf_trees
  have hb : trees.balanceByTransparentAddr = db.balanceByTransparentAddr := congrArg TransparentTables.balances htrees
  rw [(prepareChainValuePools_ok h.poolsBatch).1, ← htrees]
  exact (prepareTransparent_ok hbatch hb).1

theorem shielded : shieldedOf db' = shieldedOf trees := by
  rw [(prepareChainValuePools_ok h.poolsBatch).2]
  have hbatch := h.transparentBatch
  unfold prepareTransparentUnlessGenesis at hbatch
  split at hbatch
  · rw [Except.ok.inj hbatch]
  · exact (prepareTransparent_ok hbatch (congrArg TransparentTables.balances h.transparentOf_trees)).2

end

end Writes

end

end Zebra.Ledger
