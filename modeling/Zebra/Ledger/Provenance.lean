import Zebra.Ledger.Push
import Zebra.Ledger.Keys

namespace Zebra.Ledger

open Lib ContextuallyVerifiedBlock

/-- A block that comes after the blocks `F`: everything it spends was created in `F`, or by
an earlier transaction of the block. -/
structure Follows (F : Blocks) (b : ContextuallyVerifiedBlock) : Prop where
  outputs : ListsOutputs b
  above : ∀ b' ∈ F, b'.height < b.height
  spends : ∀ o i, (o, i) ∈ spendsOf b.block → ∃ u, b.spentOutputs[o]? = some u ∧
    (b.newOutputs[o]? = some u ∧ u.txIndexInBlock < i ∨ b.newOutputs[o]? = none ∧ CreatedIn F o u)

/-- Every block of a list comes after `F` and the blocks before it. -/
def Connected (F : Blocks) : Blocks → Prop
  | [] => True
  | b :: bs => Follows F b ∧ Connected (F ++ [b]) bs

variable {F bs bs' : Blocks} {b : ContextuallyVerifiedBlock} {o : OutPoint} {u : OrderedUtxo}

theorem connected_append : Connected F (bs ++ bs') ↔ Connected F bs ∧ Connected (F ++ bs) bs' := by
  induction bs generalizing F with
  | nil => simp [Connected]
  | cons b bs ih => simp [Connected, ih, and_assoc]

theorem Follows.createdIn (h : Follows F b) {i : Nat} (ho : (o, i) ∈ spendsOf b.block) :
    ∃ u, b.spentOutputs[o]? = some u ∧ CreatedIn (F ++ [b]) o u := by
  obtain ⟨u, hu, hsrc⟩ := h.spends o i ho
  refine ⟨u, hu, ?_⟩
  rcases hsrc with ⟨hnew, -⟩ | ⟨-, hF⟩
  · exact ⟨b, by simp, hnew⟩
  · exact hF.mono (List.subset_append_left _ _)

theorem Connected.follows (h : Connected F bs) (hb : b ∈ bs) : ∃ F', F' ++ [b] ⊆ F ++ bs ∧ Follows F' b := by
  obtain ⟨bs₁, bs₂, rfl⟩ := List.append_of_mem hb
  rw [connected_append] at h
  exact ⟨F ++ bs₁, by intro x; simp; tauto, h.2.1⟩

theorem Connected.nodup_heights (h : Connected F bs) (hF : (F.map height).Nodup) :
    ((F ++ bs).map height).Nodup := by
  induction bs generalizing F with
  | nil => simpa using hF
  | cons b bs ih =>
    have hb : ((F ++ [b]).map height).Nodup := by
      rw [List.map_append, List.nodup_append]
      refine ⟨hF, List.nodup_singleton _, ?_⟩
      intro x hx y hy
      obtain ⟨b', hb', rfl⟩ := List.mem_map.1 hx
      obtain rfl : y = b.height := by simpa using hy
      exact (h.1.above b' hb').ne
    simpa using ih h.2 hb

theorem Connected.listsOutputs (h : Connected F bs) (hF : ∀ b ∈ F, ListsOutputs b) : ∀ b ∈ F ++ bs, ListsOutputs b := by
  intro b hb
  rcases List.mem_append.1 hb with hb | hb
  · exact hF b hb
  · obtain ⟨F', -, hf⟩ := h.follows hb
    exact hf.outputs

/-- A block whose transactions the chain can index. -/
structure Indexable (b : ContextuallyVerifiedBlock) : Prop where
  isIndexed : ∀ tx ∈ b.block.transactions, tx.isIndexed = true
  outputCount : ∀ tx ∈ b.block.transactions, tx.outputs.length ≤ 2 ^ 32

variable {e : Entry}

theorem spentOutpoints_eq (hb : ListsOutputs b) : spentOutpoints b = (spendsOf b.block).map Prod.fst := by
  have hzip : b.transactions.map Prod.fst = b.block.transactions := List.map_fst_zip hb.hashes.ge
  rw [map_fst_spendsOf, spentOutpoints, ← hzip, List.flatMap_map]

theorem nodup_createdOutpoints (hb : ListsOutputs b) : (createdOutpoints b).Nodup := by
  have hzip : b.transactions.map Prod.snd = b.transactionHashes := List.map_snd_zip hb.hashes.le
  have hdist := hb.distinct
  rw [← hzip] at hdist
  rw [createdOutpoints, List.nodup_flatMap]
  refine ⟨fun x _ => List.Nodup.map (by intro i j hij; simpa using hij) List.nodup_range, ?_⟩
  refine (List.pairwise_map.1 hdist).imp ?_
  intro x y hxy o hx hy
  obtain ⟨i, -, rfl⟩ := List.mem_map.1 hx
  obtain ⟨j, -, hj⟩ := List.mem_map.1 hy
  exact hxy (by simpa using (congrArg OutPoint.hash hj).symm)

section

variable [ScriptParsing] {net : Network}

theorem mem_journal : e ∈ journal net b ↔ ∃ i tx hash, b.block.transactions[i]? = some tx ∧
    b.transactionHashes[i]? = some hash ∧ e ∈ txJournal net b tx hash i := by
  simp only [journal, transactions, List.mem_flatMap, Prod.exists,
    List.mem_zipIdx_iff_getElem?, List.getElem?_zip_eq_some]
  constructor
  · rintro ⟨tx, hash, i, ⟨htx, hhash⟩, he⟩
    exact ⟨i, tx, hash, htx, hhash, he⟩
  · rintro ⟨i, tx, hash, htx, hhash, he⟩
    exact ⟨tx, hash, i, ⟨htx, hhash⟩, he⟩

variable {m : OrderedUtxos} {key : Address → OutputLocation → Key}

theorem transferKey_eq_some {k : Key}
    (h : transferKey net m key o = some k) : ∃ u a, m[o]? = some u ∧ k = key a (outputLocation o u) := by
  simp only [transferKey, Option.bind_eq_some_iff, Option.map_eq_some_iff] at h
  obtain ⟨u, hu, a, -, rfl⟩ := h
  exact ⟨u, a, hu, rfl⟩

theorem nodup_transferKeys {bs : Blocks} (hbs : ∀ b ∈ bs, ListsOutputs b)
    (hheight : (bs.map height).Nodup) (hkey : ∀ a l a' l', key a l = key a' l' → l = l') {os : List OutPoint}
    (hos : os.Nodup) (hm : ∀ o ∈ os, ∀ u, m[o]? = some u → CreatedIn bs o u) :
    (os.filterMap (transferKey net m key)).Nodup := by
  refine nodup_filterMap hos ?_
  intro o ho o' ho' k hk hk'
  obtain ⟨u, a, hu, rfl⟩ := transferKey_eq_some hk
  obtain ⟨u', a', hu', heq⟩ := transferKey_eq_some hk'
  exact (hm o ho u hu).outpoint_eq hbs hheight (hm o' ho' u' hu') (hkey _ _ _ _ heq)

theorem mem_blocksJournal : e ∈ blocksJournal net bs ↔ ∃ b ∈ bs, e ∈ journal net b := by
  induction bs with
  | nil => simp [blocksJournal]
  | cons b bs ih =>
    rw [blocksJournal, List.map_cons, List.sum_cons, ← blocksJournal, Multiset.mem_add, ih]
    simp

def listed {β : Type} (bs : Blocks) (f : ContextuallyVerifiedBlock → Transaction → TransactionHash → Nat → List β) :
    Multiset β :=
  (bs.flatMap fun b => b.transactions.zipIdx.flatMap fun x => f b x.1.1 x.1.2 x.2 : List β)

variable {β : Type} {f : Entry → Option β} (hfault : ∀ p, f (.fault p) = none) (hcreated : ∀ o u, f (.created o u) = none)
  (htransfer : ∀ a t, f (.transfer a t) = none)
include hfault hcreated htransfer

theorem filterMap_transparentEntries (tx : Transaction) (hash : TransactionHash) :
    (transparentEntries net b tx hash).filterMap f = tx.spentOutpoints.filterMap fun o => f (.spent o hash) := by
  have hout : ∀ i, (outputEntries net b.newOutputs hash i).filterMap f = [] := by
    intro i
    rw [outputEntries]
    split
    · split <;> simp [hfault, hcreated, htransfer, List.filterMap_eq_nil_iff]
    · simp [hfault]
  have hin : ∀ input, (inputEntries net b.spentOutputs hash input).filterMap f =
      input.outpoint.toList.filterMap fun o => f (.spent o hash) := by
    intro input
    cases input with
    | coinbase _ => rfl
    | prevOut o =>
      rw [inputEntries, Input.outpoint]
      cases b.spentOutputs[o]? with
      | none => simp [List.filterMap_cons, hfault]
      | some u =>
        have htail : ((u.utxo.output.address net).map fun a => .transfer a (.sent o u hash)).toList.filterMap f = [] := by
          simp [List.filterMap_eq_nil_iff, htransfer]
        simp [List.filterMap_cons, htail]
  rw [transparentEntries, List.filterMap_append, List.filterMap_flatMap, List.filterMap_flatMap]
  simp only [hout, hin]
  simp [Transaction.spentOutpoints, List.filterMap_eq_flatMap_toList, List.flatMap_assoc, List.flatMap_eq_nil_iff.2]

theorem filterMap_blocksJournal {bs : Blocks} {g : ContextuallyVerifiedBlock → Transaction → TransactionHash → Nat → List β}
    (hs : ∀ e ∈ blocksJournal net bs, e.Sound)
    (hg : ∀ b tx hash i, (f (.location hash ⟨b.height, i⟩)).toList ++ ((tx.spentOutpoints.filterMap fun o =>
      f (.spent o hash)) ++ (shieldedEntries tx hash).filterMap f) = g b tx hash i) :
    (blocksJournal net bs).filterMap f = listed bs g := by
  have hlist : blocksJournal net bs = (bs.flatMap (journal net) : List Entry) := by
    clear hs
    induction bs with
    | nil => rfl
    | cons b bs ih =>
      rw [blocksJournal, List.map_cons, List.sum_cons, ← blocksJournal, ih, List.flatMap_cons, Multiset.coe_add]
  rw [hlist, Multiset.filterMap_coe, List.filterMap_flatMap, listed]
  apply congrArg
  apply List.flatMap_congr
  intro b hb
  rw [journal, List.filterMap_flatMap]
  apply List.flatMap_congr
  intro x hx
  have htx : x.1.1.isIndexed = true := by
    by_contra htx
    exact hs (.fault .oldTransactionVersion) (mem_blocksJournal.2
      ⟨b, hb, List.mem_flatMap.2 ⟨x, hx, by simp [txJournal, htx]⟩⟩)
  have ht : (transparentEntries net b x.1.1 x.1.2).filterMap f = _ :=
    filterMap_transparentEntries hfault hcreated htransfer _ _
  rw [txJournal, if_pos htx, ← hg]
  cases hf : f (.location x.1.2 ⟨b.height, x.2⟩) <;> simp [hf, ht]

end

end Zebra.Ledger
