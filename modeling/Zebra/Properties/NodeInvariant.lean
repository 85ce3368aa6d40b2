import Zebra.Properties.InvalidatedRecords
import Zebra.Ledger.Descends
import Zebra.Ledger.Provenance

namespace Zebra.Properties

open Lib Lib.Transition Ledger KeyedMap

def nullifiersOf (tx : Transaction) : Pool → List Nat
  | .sprout => tx.sproutNullifiers
  | .sapling => tx.saplingNullifiers
  | .orchard => tx.orchardNullifiers

/-- Every other chain has less work than the best one, or as much work and a lower tip hash. -/
def BestHasMostWork (n : NodeState) : Prop :=
  ∀ best ∈ n.nonFinalized.bestChain, ∀ c ∈ n.nonFinalized.chainSet, c = best ∨
    totalWork (blocksOf c) < totalWork (blocksOf best) ∨ totalWork (blocksOf c) = totalWork (blocksOf best) ∧
      ∃ h h', tipHashOf c = some h ∧ tipHashOf best = some h' ∧ h < h'

def hashesOf (c : Chain) : List BlockHash := (blocksOf c).map (·.hash)

/-- The chains form a tree on top of the finalized tip: two chains with a common block agree below it. -/
structure FormsTree [BlockHashing] (n : NodeState) : Prop where
  rooted : ∀ c ∈ n.nonFinalized.chainSet, ∃ tip, n.db.tip = some tip ∧ Chained tip.2 (blocksOf c) ∧
    Consecutive tip.1 (blocksOf c)
  shared : ∀ c ∈ n.nonFinalized.chainSet, ∀ d ∈ n.nonFinalized.chainSet, ∀ (i j : Nat) hash, (hashesOf c)[i]? = some hash →
    (hashesOf d)[j]? = some hash → i = j ∧ ∀ k ≤ i, (hashesOf c)[k]? = (hashesOf d)[k]?

/-- The indexes of a chain hold what its blocks list, and nothing is listed twice. -/
structure IndexesBlocks (c : Chain) : Prop where
  locations : Indexes c.inner.txLocByHash (listed (blocksOf c) fun b _ hash i => [(hash, ⟨b.height, i⟩)])
  spends : Indexes c.inner.spentUtxos (listed (blocksOf c) fun _ tx hash _ => tx.spentOutpoints.map (·, hash))
  nullifiers : ∀ p, Indexes (c.inner.nullifiers p) (listed (blocksOf c) fun _ tx hash _ => (nullifiersOf tx p).map (·, hash))

section

variable [ScriptParsing] [MerkleHashing] [ChainHistory] [BlockHashing] [BlockCommitments] {net : Network} {db : ZebraDb}
  {ops : List NodeOp} {n : NodeState} (hdet : HashDetermines) (hdb : ∀ tip, db.tip = some tip → Known tip.2 tip.1)
  (hr : Run NodeState.Step ⟨NonFinalizedState.new net, db⟩ ops n)
include hdet hdb hr

theorem best_chain_has_most_work : BestHasMostWork n := by
  intro best hbest c hc
  have hsound := sound_of_run hdet hdb hr
  have hwork : ∀ c ∈ n.nonFinalized.chainSet, c.inner.partialCumulativeWork = totalWork (blocksOf c) := by
    intro c hc
    obtain ⟨tip, -, L, hL, -⟩ := hsound.rooted c hc
    rw [hL.inner.blocksOf_eq, hL.inner.work]
  obtain ⟨cs, hcs⟩ := List.getLast?_eq_some_iff.1 hbest
  rw [hcs, List.mem_append, List.mem_singleton] at hc
  rcases hc with hc | rfl
  · have hsorted := hsound.sorted
    rw [hcs] at hsorted
    have hbelow : Below c best := (List.pairwise_append.1 hsorted).2.2 c hc best (List.mem_singleton_self _)
    rw [Below, hwork c (by simp [hcs, hc]), hwork best (by simp [hcs])] at hbelow
    exact .inr hbelow
  · exact .inl rfl

theorem chains_form_tree : FormsTree n where
  rooted c hc := by
    obtain ⟨tip, htip, hrooted⟩ := (sound_of_run hdet hdb hr).rooted c hc
    exact ⟨tip, htip, hrooted.chained, hrooted.consecutive⟩
  shared c hc d hd i j hash hci hdj := by
    obtain ⟨tip, -, -, hrooted⟩ := (sound_of_run hdet hdb hr).exists_tip (List.ne_nil_of_mem hc)
    obtain ⟨hi, rfl⟩ := List.getElem?_eq_some_iff.1 hci
    obtain ⟨hj, heq⟩ := List.getElem?_eq_some_iff.1 hdj
    simp only [hashesOf, List.length_map, List.getElem_map] at hi hj heq
    obtain rfl := (hrooted c hc).index_eq hdet (hrooted d hd) hi hj heq.symm
    constructor
    · rfl
    intro k hk
    have hhash := (hrooted c hc).chained.hash_eq_of_le hdet (hrooted d hd).chained hi hj heq.symm hk
    simpa [hashesOf, List.getElem?_eq_getElem (hk.trans_lt hi), List.getElem?_eq_getElem (hk.trans_lt hj)] using hhash

/-- Each record of invalidated blocks is a branch that starts at its key. -/
theorem state_bounded : n.nonFinalized.chainSet.length ≤ maxNonFinalizedChainForks ∧
    n.nonFinalized.invalidatedBlocks.length ≤ maxInvalidatedBlocks ∧
    (n.nonFinalized.invalidatedBlocks.map Prod.fst).Nodup ∧ ∀ e ∈ n.nonFinalized.invalidatedBlocks, Detached e := by
  have hsound := sound_of_run hdet hdb hr
  exact ⟨hsound.few, hsound.fewRecords, hsound.keys, hsound.detached⟩

/-- No transaction, spent outpoint or nullifier occurs twice on a chain. -/
theorem chain_indexes_exact : ∀ c ∈ n.nonFinalized.chainSet, IndexesBlocks c := by
  intro c hc
  obtain ⟨tip, -, L, hL, -⟩ := (sound_of_run hdet hdb hr).rooted c hc
  have hholds := hL.inner.transactions
  rw [← hL.inner.blocksOf_eq] at hholds
  constructor
  · rw [← filterMap_blocksJournal (f := Entry.location?) (fun _ => rfl) (fun _ _ => rfl) (fun _ _ => rfl) hholds.sound]
    · exact hholds.locations
    · intro b tx hash i
      simp [Entry.location?, shieldedEntries, nullifierEntries]
  · rw [← filterMap_blocksJournal (f := Entry.spent?) (fun _ => rfl) (fun _ _ => rfl) (fun _ _ => rfl) hholds.sound]
    · exact hholds.spent
    · intro b tx hash i
      simp [Entry.spent?, shieldedEntries, nullifierEntries]
  · intro p
    rw [← filterMap_blocksJournal (f := Entry.nullifier? p) (fun _ => rfl) (fun _ _ => rfl) (fun _ _ => rfl) hholds.sound]
    · exact hholds.nullifiers p
    · intro b tx hash i
      cases p <;> simp [Entry.nullifier?, shieldedEntries, nullifierEntries, nullifiersOf, Function.comp_def]

end

section

open Sample

/-- A block on top of the root is invalidated, and two others take its place. -/
def forked : List NodeOp := replaceSecond ++ [.commitBlock (child 12 root.hash 3 [])]

theorem run_forked : ∃ n, Run NodeState.Step node forked n ∧ n.nonFinalized.chainSet.length = 2 ∧
    n.nonFinalized.invalidatedBlocks.length = 1 := by
  obtain ⟨n, hn, hlen⟩ : ∃ n ∈ node.performAll forked, n.nonFinalized.chainSet.length = 2 ∧
      n.nonFinalized.invalidatedBlocks.length = 1 := by decide +kernel
  exact ⟨n, NodeState.run_of_performAll hn, hlen⟩

theorem best_of_forked : ∃ n, Run NodeState.Step node forked n ∧ n.nonFinalized.chainSet.length = 2 ∧ BestHasMostWork n := by
  obtain ⟨n, hr, hlen, -⟩ := run_forked
  exact ⟨n, hr, hlen, best_chain_has_most_work hashDetermines node_known hr⟩

theorem tree_of_forked : ∃ n, Run NodeState.Step node forked n ∧ n.nonFinalized.chainSet.length = 2 ∧ FormsTree n := by
  obtain ⟨n, hr, hlen, -⟩ := run_forked
  exact ⟨n, hr, hlen, chains_form_tree hashDetermines node_known hr⟩

theorem records_of_forked : ∃ n, Run NodeState.Step node forked n ∧ n.nonFinalized.invalidatedBlocks.length = 1 ∧
    ∀ e ∈ n.nonFinalized.invalidatedBlocks, Detached e := by
  obtain ⟨n, hr, -, hlen⟩ := run_forked
  exact ⟨n, hr, hlen, (state_bounded hashDetermines node_known hr).2.2.2⟩

theorem indexes_of_forked : ∃ n, Run NodeState.Step node forked n ∧ n.nonFinalized.chainSet.length = 2 ∧
    ∀ c ∈ n.nonFinalized.chainSet, IndexesBlocks c := by
  obtain ⟨n, hr, hlen, -⟩ := run_forked
  exact ⟨n, hr, hlen, chain_indexes_exact hashDetermines node_known hr⟩

end

end Zebra.Properties
