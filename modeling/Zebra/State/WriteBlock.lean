import Zebra.State.Check.Commitment
import Zebra.State.UpdateWith
import Zebra.State.ZebraDb

namespace Zebra

open Lib Outcome

def Treestate.noteCommitmentTrees (t : Treestate) : NoteCommitmentTrees :=
  ⟨t.sprout, t.sapling, t.saplingSubtree, t.orchard, t.orchardSubtree⟩

/-- A block and its treestate, ready to be written. -/
structure FinalizedBlock where
  block : Block
  hash : BlockHash
  height : Nat
  newOutputs : OrderedUtxos
  transactionHashes : List TransactionHash
  treestate : Treestate
  deferredPoolBalanceChange : Option (Amount .negativeAllowed)

namespace FinalizedBlock

def fromSemanticallyVerified (b : SemanticallyVerifiedBlock) (treestate : Treestate) : FinalizedBlock :=
  { b with treestate }

def fromContextuallyVerified (b : ContextuallyVerifiedBlock) (treestate : Treestate) : FinalizedBlock :=
  { b with treestate, deferredPoolBalanceChange := some b.chainValuePoolChange.deferred }

variable (b : FinalizedBlock) {ε : Type}

def txHashIndexes : KeyedMap TransactionHash Nat := .ofList (b.transactionHashes.mapIdx fun i hash => (hash, i))

def lookupOutLoc (o : OutPoint) : Exec ε OutputLocation := do
  let txIndex ← expect b.txHashIndexes[o.hash]? .outputLocation
  let location ← TransactionLocation.fromUsize b.height txIndex
  return .fromOutpoint location o

def newOutputsByOutLoc : Exec ε LocatedUtxos := do
  let outputs ← b.newOutputs.toList.mapM fun (o, u) => do
    let location ← b.lookupOutLoc o
    return (location, u.utxo)
  return .ofList outputs

end FinalizedBlock

/-- A batch of writes, as the tables that it leaves once it is written. Preparing a batch
reads the database as it was before. -/
abbrev DiskWriteBatch := ZebraDb

namespace ZebraDb

variable (db : ZebraDb) {ε : Type}

/-- An output that is spent in the block that creates it is not in the database yet. -/
def spentLocation (b : FinalizedBlock) (o : OutPoint) : Exec ε OutputLocation :=
  match db.outputLocation o with
  | some location => return location
  | none => b.lookupOutLoc o

def spentUtxo (b : FinalizedBlock) (o : OutPoint) : Exec ε (OutPoint × OutputLocation × Utxo) := do
  let location ← db.spentLocation b o
  let utxo ← expect ((db.utxo o).or b.newOutputs[o]?) .missingUtxo
  return (o, location, utxo.utxo)

def spentUtxos (b : FinalizedBlock) : Exec ε (List (OutPoint × OutputLocation × Utxo)) :=
  (b.block.transactions.flatMap Transaction.spentOutpoints).mapM (db.spentUtxo b)

def subtreeForTip (subtrees : Subtrees) : Option NoteCommitmentSubtree := do
  let (index, data) ← subtrees.toList.getLast?
  let tip ← db.finalizedTipHeight
  if data.endHeight = tip then some (data.withIndex index) else none

def noteCommitmentTreesForTip : Exec ε NoteCommitmentTrees := do
  let sprout ← db.sproutTreeForTip
  let sapling ← db.saplingTreeForTip
  let orchard ← db.orchardTreeForTip
  return { sprout, sapling, orchard,
           saplingSubtree := db.subtreeForTip db.saplingNoteCommitmentSubtree
           orchardSubtree := db.subtreeForTip db.orchardNoteCommitmentSubtree }

end ZebraDb

namespace DiskWriteBatch

variable {ε : Type} {C : Constraint} (batch : DiskWriteBatch)

def prepareBlockHeaderAndTransactionDataBatch (b : FinalizedBlock) : Exec ε DiskWriteBatch := do
  let locations ← ((b.block.transactions.zip b.transactionHashes).mapIdx fun i x => (x.2, i)).mapM fun (hash, i) => do
    let location ← TransactionLocation.fromUsize b.height i
    return (hash, location)
  return { batch with
    blockByHeight := batch.blockByHeight.insert b.height b.block
    hashByHeight := batch.hashByHeight.insert b.height b.hash
    heightByHash := batch.heightByHash.insert b.hash b.height
    txLocByHash := batch.txLocByHash.insertMany locations }

def prepareNullifierBatch (x : Transaction × TransactionLocation) : DiskWriteBatch :=
  { batch with
    sproutNullifiers := batch.sproutNullifiers.insertMany (x.1.sproutNullifiers.map (·, x.2))
    saplingNullifiers := batch.saplingNullifiers.insertMany (x.1.saplingNullifiers.map (·, x.2))
    orchardNullifiers := batch.orchardNullifiers.insertMany (x.1.orchardNullifiers.map (·, x.2)) }

def prepareShieldedTransactionBatch (b : FinalizedBlock) : Exec ε DiskWriteBatch := do
  let txs ← (b.block.transactions.mapIdx fun i tx => (tx, i)).mapM fun (tx, i) => do
    let location ← TransactionLocation.fromUsize b.height i
    return (tx, location)
  return txs.foldl prepareNullifierBatch batch

section

variable [MerkleHashing]

def updateSproutTree (tree : NoteCommitmentTree .sprout) : DiskWriteBatch :=
  { batch with
    sproutAnchors := batch.sproutAnchors.insert tree.root tree
    sproutNoteCommitmentTree := some tree }

def createSaplingTree (height : Nat) (tree : NoteCommitmentTree .sapling) (subtree : Option NoteCommitmentSubtree) :
    DiskWriteBatch :=
  { batch with
    saplingAnchors := batch.saplingAnchors.insert tree.root ()
    saplingNoteCommitmentTree := batch.saplingNoteCommitmentTree.insert height tree
    saplingNoteCommitmentSubtree := insertSubtree batch.saplingNoteCommitmentSubtree subtree }

def createOrchardTree (height : Nat) (tree : NoteCommitmentTree .orchard) (subtree : Option NoteCommitmentSubtree) :
    DiskWriteBatch :=
  { batch with
    orchardAnchors := batch.orchardAnchors.insert tree.root ()
    orchardNoteCommitmentTree := batch.orchardNoteCommitmentTree.insert height tree
    orchardNoteCommitmentSubtree := insertSubtree batch.orchardNoteCommitmentSubtree subtree }

def updateHistoryTree (tree : HistoryTree) : DiskWriteBatch :=
  { batch with historyTree := tree.or batch.historyTree }

/-- The trees before the block, from the caller or from the database. -/
def previousTree {p : Pool} (prev : Option NoteCommitmentTrees) (tree : NoteCommitmentTrees → NoteCommitmentTree p)
    (forTip : Exec ε (NoteCommitmentTree p)) : Exec ε (NoteCommitmentTree p) :=
  match prev with
  | some trees => return tree trees
  | none => forTip

/-- A tree is stored with its anchor and its subtree when it has changed. -/
def prepareTreesBatch (db : ZebraDb) (b : FinalizedBlock) (prev : Option NoteCommitmentTrees) :
    Exec ε DiskWriteBatch := do
  let t := b.treestate
  let prevSprout ← previousTree prev (·.sprout) db.sproutTreeForTip
  let prevSapling ← previousTree prev (·.sapling) db.saplingTreeForTip
  let prevOrchard ← previousTree prev (·.orchard) db.orchardTreeForTip
  let batch := if b.height = 0 ∨ prevSprout.root ≠ t.sprout.root then batch.updateSproutTree t.sprout else batch
  let batch :=
    if b.height = 0 ∨ prevSapling.root ≠ t.sapling.root then batch.createSaplingTree b.height t.sapling t.saplingSubtree
    else batch
  let batch :=
    if b.height = 0 ∨ prevOrchard.root ≠ t.orchard.root then batch.createOrchardTree b.height t.orchard t.orchardSubtree
    else batch
  return batch.updateHistoryTree t.history

end

section

variable [ScriptParsing] (net : Network)

def prepareNewTransparentOutputsBatch (new : LocatedUtxos) (m : AddressBalances C) :
    Exec ε (DiskWriteBatch × AddressBalances C) := do
  let (m, links) ← AddressBalances.pass (AddressBalances.receive net) m new.toList
  let batch := { batch with
    utxoByOutLoc := batch.utxoByOutLoc.insertMany (new.toList.map fun x => (x.1, x.2.output))
    utxoLocByTransparentAddrLoc := batch.utxoLocByTransparentAddrLoc.insertMany (links.map (·, ()))
    txLocByTransparentAddrLoc := batch.txLocByTransparentAddrLoc.insertMany
      (links.map fun x => (⟨x.addressLocation, x.unspentOutputLocation.transactionLocation⟩, ())) }
  return (batch, m)

def prepareSpentTransparentOutputsBatch (spent : LocatedUtxos) (m : AddressBalances C) :
    Exec ε (DiskWriteBatch × AddressBalances C) := do
  let (m, links) ← AddressBalances.pass (AddressBalances.spend net) m spent.toList
  let batch := { batch with
    utxoByOutLoc := batch.utxoByOutLoc.eraseAll (spent.toList.map Prod.fst)
    utxoLocByTransparentAddrLoc := batch.utxoLocByTransparentAddrLoc.eraseAll links }
  return (batch, m)

def prepareSpendingTransparentTxIdsBatch (b : FinalizedBlock) (spent : KeyedMap OutPoint Utxo) (m : AddressBalances C) :
    Exec ε DiskWriteBatch := do
  let links ← (b.block.transactions.mapIdx fun i tx => (tx, i)).mapM (m.spendingLinks net spent b.height)
  return { batch with
    txLocByTransparentAddrLoc := batch.txLocByTransparentAddrLoc.insertMany (links.flatten.map (·, ())) }

def prepareTransparentTransactionBatch (db : ZebraDb) (mode : BalanceTable.Mode C) (b : FinalizedBlock)
    (new : LocatedUtxos) (spentByOutpoint : KeyedMap OutPoint Utxo)
    (spent : LocatedUtxos) (m : AddressBalances C) : Exec ε DiskWriteBatch := do
  let (batch, m) ← batch.prepareNewTransparentOutputsBatch net new m
  let (batch, m) ← batch.prepareSpentTransparentOutputsBatch net spent m
  let batch ← batch.prepareSpendingTransparentTxIdsBatch net b spentByOutpoint m
  return { batch with balanceByTransparentAddr := db.balanceByTransparentAddr.writeAddrLocs mode m }

/-- The outputs of the genesis block can never be spent, so they are not indexed. -/
def prepareTransparentUnlessGenesis (db : ZebraDb) (mode : BalanceTable.Mode C) (b : FinalizedBlock)
    (new : LocatedUtxos) (spentByOutpoint : KeyedMap OutPoint Utxo)
    (spent : LocatedUtxos) (m : AddressBalances C) : Exec ε DiskWriteBatch :=
  if b.height = 0 then return batch
  else batch.prepareTransparentTransactionBatch net db mode b new spentByOutpoint spent m

end

def prepareChainValuePoolsBatch (b : FinalizedBlock) (spent : KeyedMap OutPoint Utxo)
    (pools : ValueBalance .nonNegative) : Validated DiskWriteBatch := do
  let change ← mapErr
    (fun e => .calculateBlockChainValueChange e b.height b.hash b.transactionHashes.length spent.size)
    (b.block.chainValuePoolChange spent b.deferredPoolBalanceChange)
  let pools ← lift (fun e => .addValuePool e pools change (some b.height)) (pools.addChainValuePoolChange change)
  return { batch with
    chainValuePools := some pools
    blockInfo := batch.blockInfo.insert b.height ⟨pools, b.block.serializedSize % 2 ^ 32⟩ }

end DiskWriteBatch

namespace ZebraDb

variable [MerkleHashing] [ScriptParsing] {C : Constraint}

/-- `write_block` once it has decided how to update the balances. -/
def writeBlockWith (db : ZebraDb) (mode : BalanceTable.Mode C) (b : FinalizedBlock) (prev : Option NoteCommitmentTrees) :
    Validated ZebraDb := do
  let new ← b.newOutputsByOutLoc
  let spentUtxos ← db.spentUtxos b
  let spentByOutpoint : KeyedMap OutPoint Utxo := .ofList (spentUtxos.map fun x => (x.1, x.2.2))
  let spent : LocatedUtxos := .ofList (spentUtxos.map Prod.snd)
  let m ← db.balanceByTransparentAddr.readAddrLocs mode
    (BalanceTable.changedAddresses db.network spent.toList new.toList)
  let batch ← DiskWriteBatch.prepareBlockHeaderAndTransactionDataBatch db b
  let batch ← batch.prepareShieldedTransactionBatch b
  let batch ← batch.prepareTreesBatch db b prev
  let batch ← batch.prepareTransparentUnlessGenesis db.network db mode b new spentByOutpoint spent m
  batch.prepareChainValuePoolsBatch b spentByOutpoint db.finalizedValuePool

/-- The database after `b` is written. While format upgrades are running, balances are
merged. -/
def writeBlock (db : ZebraDb) (finishedFormatUpgrades : Bool) (b : FinalizedBlock) (prev : Option NoteCommitmentTrees) :
    Validated ZebraDb :=
  if finishedFormatUpgrades then db.writeBlockWith BalanceTable.insertMode b prev
  else db.writeBlockWith BalanceTable.mergeMode b prev

end ZebraDb

/-- A block that the finalized state can commit: a checkpoint verified block, or a block of
the non-finalized state with its treestate. -/
inductive FinalizableBlock where
  | checkpoint (b : SemanticallyVerifiedBlock)
  | contextual (b : ContextuallyVerifiedBlock) (treestate : Treestate)

def FinalizableBlock.innerBlock : FinalizableBlock → Block
  | checkpoint b => b.block
  | contextual b _ => b.block

namespace ZebraDb

variable [BlockHashing] [BlockCommitments] [ChainHistory] [MerkleHashing] [ScriptParsing]

def treesOrTip {ε : Type} (db : ZebraDb) : Option NoteCommitmentTrees → Exec ε NoteCommitmentTrees
  | some trees => return trees
  | none => db.noteCommitmentTreesForTip

/-- The block with its treestate, and the trees before it. A checkpoint verified block gets
its treestate from that of the finalized tip. -/
def finalizedBlock (db : ZebraDb) (prev : Option NoteCommitmentTrees) :
    FinalizableBlock → Validated (FinalizedBlock × Option NoteCommitmentTrees)
  | .checkpoint b => do
    let prev ← db.treesOrTip prev
    let nct ← mapErr .noteCommitmentTreeError (prev.updateTreesParallel b.block)
    Check.blockCommitmentIsValidForChainHistory b.block db.network db.historyTree
    let history ← mapErr .historyTreeError
      (db.historyTree.push db.network b.block nct.sapling.root nct.orchard.root)
    return (.fromSemanticallyVerified b { nct with history }, some prev)
  | .contextual b treestate => return (.fromContextuallyVerified b treestate, prev)

/-- The order of the committed chain. -/
def checkChainOrder {ε : Type} (db : ZebraDb) (b : FinalizedBlock) : Exec ε Unit :=
  match db.finalizedTipHeight with
  | none => do
    check (db.finalizedTipHash = b.block.header.previousBlockHash) .genesisParent
    check (b.height = 0) .genesisHeight
  | some tip => do
    check (tip + 1 = b.height) .committedHeight
    check (db.finalizedTipHash = b.block.header.previousBlockHash) .committedParent

def commitFinalizedDirect (db : ZebraDb) (finishedFormatUpgrades : Bool) (fb : FinalizableBlock)
    (prev : Option NoteCommitmentTrees) : Validated (ZebraDb × BlockHash × NoteCommitmentTrees) := do
  let (b, prev) ← db.finalizedBlock prev fb
  db.checkChainOrder b
  let db ← db.writeBlock finishedFormatUpgrades b prev
  return (db, b.hash, b.treestate.noteCommitmentTrees)

end ZebraDb

end Zebra
