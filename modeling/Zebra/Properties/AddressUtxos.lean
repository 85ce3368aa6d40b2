import Zebra.Ledger.AddressUtxos
import Zebra.Properties.Sample

namespace Zebra.Properties

open Lib Lib.Transition Ledger Std Read

/-- A chain of blocks: every block spends outputs of blocks below it or of its own earlier
transactions, and no transaction is repeated. -/
structure ValidBlocks (bs : Blocks) : Prop where
  connected : Connected [] bs
  distinct : (bs.flatMap (·.transactionHashes)).Nodup

section

variable {F bs : Blocks} {b : ContextuallyVerifiedBlock} {o : OutPoint} {u : OrderedUtxo}

instance : Decidable (ListsOutputs b) :=
  decidable_of_iff (b.transactionHashes.length = b.block.transactions.length ∧ b.transactionHashes.Nodup ∧
      b.newOutputs.toList = (newOrderedOutputsWithHeight b.block b.height b.transactionHashes).toList ∧
      b.block.transactions.length ≤ 2 ^ 16)
    ⟨fun h => ⟨h.1, h.2.1, ExtTreeMap.ext_toList (h.2.2.1 ▸ .rfl), h.2.2.2⟩,
      fun h => ⟨h.hashes, h.distinct, congrArg _ h.newOutputs, h.transactionCount⟩⟩

instance : Decidable (CreatedIn F o u) := inferInstanceAs (Decidable (∃ b ∈ F, b.newOutputs[o]? = some u))

instance : Decidable (Follows F b) :=
  decidable_of_iff (ListsOutputs b ∧ (∀ b' ∈ F, b'.height < b.height) ∧
      ∀ x ∈ spendsOf b.block, ∃ u ∈ b.spentOutputs[x.1]?,
        b.newOutputs[x.1]? = some u ∧ u.txIndexInBlock < x.2 ∨ b.newOutputs[x.1]? = none ∧ CreatedIn F x.1 u)
    ⟨fun h => ⟨h.1, h.2.1, fun o i ho => h.2.2 (o, i) ho⟩, fun h => ⟨h.outputs, h.above, fun x hx => h.spends x.1 x.2 hx⟩⟩

instance decidableConnected : (F bs : Blocks) → Decidable (Connected F bs)
  | _, [] => isTrue trivial
  | F, b :: bs =>
    haveI := decidableConnected (F ++ [b]) bs
    inferInstanceAs (Decidable (Follows F b ∧ _))

instance : Decidable (ValidBlocks bs) :=
  decidable_of_iff (Connected [] bs ∧ (bs.flatMap (·.transactionHashes)).Nodup)
    ⟨fun h => ⟨h.1, h.2⟩, fun h => ⟨h.connected, h.distinct⟩⟩

end

namespace ValidBlocks

variable {bs : Blocks} {b b' : ContextuallyVerifiedBlock} {o : OutPoint} {u u' : OrderedUtxo}
variable (h : ValidBlocks bs)
include h

theorem listsOutputs : ∀ b ∈ bs, ListsOutputs b := by
  simpa using h.connected.listsOutputs (by simp)

theorem ascending : bs.Pairwise fun b b' => b.height < b'.height := by
  simpa using h.connected.ascending List.Pairwise.nil

theorem heights_nodup : (bs.map ContextuallyVerifiedBlock.height).Nodup := by
  simpa using h.connected.nodup_heights (by simp)

theorem block_eq (hb : b ∈ bs) (hb' : b' ∈ bs) (hu : b.newOutputs[o]? = some u) (hu' : b'.newOutputs[o]? = some u') :
    b = b' := by
  obtain ⟨tx, _, -, hhash, -⟩ := (h.listsOutputs b hb).getElem?_newOutputs.1 hu
  obtain ⟨tx', _, -, hhash', -⟩ := (h.listsOutputs b' hb').getElem?_newOutputs.1 hu'
  exact eq_of_mem_transactionHashes h.distinct hb hb' (List.mem_of_getElem? hhash) (List.mem_of_getElem? hhash')

theorem utxo_eq (hu : CreatedIn bs o u) (hu' : CreatedIn bs o u') : u = u' := by
  obtain ⟨b, hb, hu⟩ := hu
  obtain ⟨b', hb', hu'⟩ := hu'
  obtain rfl := h.block_eq hb hb' hu hu'
  exact Option.some.inj (hu.symm.trans hu')

theorem created_of_spent (hb : b ∈ bs) {i : Nat} (ho : (o, i) ∈ spendsOf b.block) :
    ∃ u b', b.spentOutputs[o]? = some u ∧ b' ∈ bs ∧ b'.newOutputs[o]? = some u ∧ b'.height ≤ b.height := by
  obtain ⟨F, hF, hfollows⟩ := h.connected.follows hb
  obtain ⟨u, hu, b', hb', hnew⟩ := hfollows.createdIn ho
  refine ⟨u, b', hu, by simpa using hF hb', hnew, ?_⟩
  rcases List.mem_append.1 hb' with hb' | hb'
  · exact (hfollows.above b' hb').le
  · rw [List.mem_singleton.1 hb']

theorem mem_segment_iff {seg : Blocks} {root tip : Nat} (hseg : seg ⊆ bs)
    (hheights : ∀ b ∈ seg, root ≤ b.height ∧ b.height ≤ tip)
    (hall : ∀ k, root ≤ k → k ≤ tip → ∃ b ∈ seg, b.height = k) (hb : b ∈ bs) :
    b ∈ seg ↔ root ≤ b.height ∧ b.height ≤ tip := by
  refine ⟨hheights b, fun ⟨hlow, hhigh⟩ => ?_⟩
  obtain ⟨b', hb', heq⟩ := hall b.height hlow hhigh
  obtain rfl := List.inj_on_of_nodup_map h.heights_nodup (hseg hb') hb heq
  exact hb'

end ValidBlocks

/-- Outputs read at the height `t`, with the changes of the heights from `root` to `tip` applied
to them, are the outputs at the height `tip`: `created` is the height where an output is created,
and `spends` are the heights where it is spent. -/
theorem overlay_iff {created root tip t : Nat} {spends : Nat → Prop} (hafter : ∀ s, spends s → created ≤ s)
    (hroot : root ≤ t + 1) (htip : t ≤ tip) :
    ((created ≤ t ∧ ∀ s, spends s → t < s) ∨ root ≤ created ∧ created ≤ tip) ∧ (∀ s, spends s → s < root ∨ tip < s) ↔
      created ≤ tip ∧ ∀ s, spends s → tip < s := by
  constructor
  · rintro ⟨hin, hout⟩
    refine ⟨by omega, fun s hs => ?_⟩
    have hcreated := hafter s hs
    rcases hin with ⟨-, hin⟩ | hin
    · have := hin s hs
      have := hout s hs
      omega
    · have := hout s hs
      omega
  · rintro ⟨hcreated, hspends⟩
    refine ⟨?_, fun s hs => .inr (hspends s hs)⟩
    by_cases hseg : root ≤ created
    · exact .inr ⟨hseg, hcreated⟩
    · exact .inl ⟨by omega, fun s hs => htip.trans_lt (hspends s hs)⟩

def SpentAt (bs : Blocks) (o : OutPoint) (height : Nat) : Prop :=
  ∃ b ∈ bs, b.height = height ∧ ∃ i, (o, i) ∈ spendsOf b.block

section

variable [ScriptParsing]

/-- An output of an address that exists and is not spent at a height. The outputs of the genesis
block do not count. -/
structure UnspentAt (net : Network) (bs : Blocks) (height : Nat) (a : Address) (o : OutPoint)
    (u : OrderedUtxo) : Prop where
  created : ∃ b ∈ bs, 0 < b.height ∧ b.height ≤ height ∧ b.newOutputs[o]? = some u
  address : u.utxo.output.address net = some a
  unspent : ∀ s, SpentAt bs o s → height < s

theorem unspentAt_iff {net : Network} {bs : Blocks} {height : Nat} {a : Address} {o : OutPoint}
    {u : OrderedUtxo} {b : ContextuallyVerifiedBlock} (hbs : ValidBlocks bs) (hb : b ∈ bs) (hpos : 0 < b.height)
    (hu : b.newOutputs[o]? = some u) (ha : u.utxo.output.address net = some a) :
    UnspentAt net bs height a o u ↔ b.height ≤ height ∧ ∀ s, SpentAt bs o s → height < s := by
  constructor
  · rintro ⟨⟨b', hb', -, hle, hu'⟩, -, hunspent⟩
    obtain rfl := hbs.block_eq hb hb' hu hu'
    exact ⟨hle, hunspent⟩
  · rintro ⟨hle, hunspent⟩
    exact ⟨⟨b, hb, hpos, hle, hu⟩, ha, hunspent⟩

/-- The map has exactly the unspent outputs of the addresses, where the outputs of every address
are those at the height `heightOf`. -/
def HoldsUtxos (net : Network) (bs : Blocks) (addresses : List Address) (heightOf : Address → Nat)
    (m : KeyedMap OutputLocation Output) : Prop :=
  ∀ l output, m[l]? = some output ↔ ∃ a ∈ addresses, ∃ o u, UnspentAt net bs (heightOf a) a o u ∧
    outputLocation o u = l ∧ u.utxo.output = output

def unspentOutputs (net : Network) (bs : Blocks) (addresses : List Address)
    (heightOf : Address → Nat) : List (OutputLocation × Output) :=
  addresses.flatMap fun a => (bs.filter fun b => 0 < b.height ∧ b.height ≤ heightOf a).flatMap fun b =>
    (b.newOutputs.toList.filter fun x => x.2.utxo.output.address net = some a ∧
      ∀ b' ∈ bs, b'.height ≤ heightOf a → x.1 ∉ (spendsOf b'.block).map Prod.fst).map fun x =>
        (outputLocation x.1 x.2, x.2.utxo.output)

theorem mem_unspentOutputs {net : Network} {bs : Blocks} {addresses : List Address}
    {heightOf : Address → Nat} {l : OutputLocation} {output : Output} :
    (l, output) ∈ unspentOutputs net bs addresses heightOf ↔ ∃ a ∈ addresses, ∃ o u,
      UnspentAt net bs (heightOf a) a o u ∧ outputLocation o u = l ∧ u.utxo.output = output := by
  simp only [unspentOutputs, List.mem_flatMap, List.mem_map, List.mem_filter, decide_eq_true_eq, Prod.exists,
    ExtTreeMap.mem_toList_iff_getElem?_eq_some, Prod.mk.injEq, exists_and_right, exists_eq_right]
  refine exists_congr fun a => and_congr_right fun _ => ?_
  constructor
  · rintro ⟨b, ⟨hb, hpos, hle⟩, o, u, ⟨hu, haddress, hunspent⟩, heq⟩
    refine ⟨o, u, ⟨⟨b, hb, hpos, hle, hu⟩, haddress, ?_⟩, heq⟩
    rintro _ ⟨b', hb', rfl, i, ho⟩
    by_contra hnot
    exact hunspent b' hb' (Nat.not_lt.1 hnot) ⟨i, ho⟩
  · rintro ⟨o, u, ⟨⟨b, hb, hpos, hle, hu⟩, haddress, hunspent⟩, heq⟩
    refine ⟨b, ⟨hb, hpos, hle⟩, o, u, ⟨hu, haddress, ?_⟩, heq⟩
    rintro b' hb' hle' ⟨i, ho⟩
    exact Nat.not_lt.2 hle' (hunspent _ ⟨b', hb', rfl, i, ho⟩)

theorem holdsUtxos_unspentOutputs {net : Network} {bs : Blocks} (hbs : ValidBlocks bs)
    (addresses : List Address) (heightOf : Address → Nat) :
    HoldsUtxos net bs addresses heightOf (ExtTreeMap.ofList (unspentOutputs net bs addresses heightOf) compare) := by
  intro l output
  rw [KeyedMap.getElem?_ofList_iff, mem_unspentOutputs]
  intro l v v' hv hv'
  obtain ⟨-, -, o, u, ⟨⟨b, hb, -, -, hu⟩, -, -⟩, hl, rfl⟩ := mem_unspentOutputs.1 hv
  obtain ⟨-, -, o', u', ⟨⟨b', hb', -, -, hu'⟩, -, -⟩, hl', rfl⟩ := mem_unspentOutputs.1 hv'
  rw [(CreatedIn.eq_of_location hbs.listsOutputs hbs.heights_nodup ⟨b, hb, hu⟩ ⟨b', hb', hu'⟩ (hl.trans hl'.symm)).2]

variable [MerkleHashing] [ChainHistory]

/-- A non-finalized chain whose blocks are a contiguous part of the chain of blocks, and which
starts at or below the height after the finalized tip. -/
structure SegmentOf (net : Network) (bs : Blocks) (finalizedTip : Nat) (c : Chain) : Prop where
  reached : ∃ (height : Nat) (s : Snapshot) (c₀ : Chain) (ops : List ChainOp), height ≤ Height.max ∧
    (Chain.new net height s.sprout s.sapling s.orchard s.history s.pools : Validated _) = .ok c₀ ∧
    Run Chain.Step c₀ ops c
  contiguous : (c.inner.blocks.toList.map Prod.snd).IsInfix bs
  root : ∃ root, (c.inner.nonFinalizedRootHeight : Exec String _) = .ok root ∧ root ≤ finalizedTip + 1

variable {net : Network} {bs : Blocks} {finalizedTip : Nat} {c : Chain}

theorem blocks_of_pushes (bs : Blocks) (hcf : CollisionFree) {height : Nat} (hheight : height ≤ Height.max) (s : Snapshot) {c₀ : Chain}
    (hnew : (Chain.new net height s.sprout s.sapling s.orchard s.history s.pools : Validated _) = .ok c₀)
    (hrun : Run Chain.Step c₀ (bs.map .push) c) : c.inner.blocks.toList.map Prod.snd = bs := by
  obtain ⟨L, hL, hc, -⟩ := run_exact hcf (new_exact hheight s hnew) (ChainOp.not_isFork_pushes _) hrun
  obtain ⟨-, -, -, rs, hrs, hbs⟩ := records_of_pushes hL
  rw [hc.inner.map_snd_blocks, Lineage.blocks, hrs]
  exact hbs

/-- The non-finalized chain has exactly the blocks at the heights from `root` to `tip`. -/
structure CoversHeights (net : Network) (bs : Blocks) (c : Chain) (L : Lineage net) (root tip : Nat) :
    Prop where
  refines : Refines c L
  contiguous : L.blocks.IsInfix bs
  rootHeight : ∀ {ε : Type}, (c.inner.nonFinalizedRootHeight : Exec ε _) = .ok root
  tipHeight : ∀ {ε : Type}, (c.inner.nonFinalizedTipHeight : Exec ε _) = .ok tip
  root_pos : 0 < root
  mem_blocks : ∀ height, root ≤ height → height ≤ tip → height ∈ c.inner.blocks
  mem_iff : ∀ b ∈ bs, b ∈ L.blocks ↔ root ≤ b.height ∧ b.height ≤ tip

theorem SegmentOf.exists_coversHeights (h : SegmentOf net bs finalizedTip c) (hbs : ValidBlocks bs) :
    ∃ L root tip, CoversHeights net bs c L root tip ∧ root ≤ finalizedTip + 1 := by
  obtain ⟨height, s, c₀, ops, hheight, hnew, hrun⟩ := h.reached
  obtain ⟨L, -, hL⟩ := run_sound (new_exact hheight s hnew).toRefines hrun
  obtain ⟨root, hroot, hle⟩ := h.root
  have hinfix : L.blocks.IsInfix bs := hL.inner.map_snd_blocks ▸ h.contiguous
  obtain ⟨root', tip, hroot', htip, hpos, hheights, hall⟩ := hL.inner.bounds (hL.inner.records_ne_nil hroot)
  obtain rfl := Except.ok.inj (hroot.symm.trans hroot')
  refine ⟨L, root, tip, ⟨hL, hinfix, Outcome.expect_eq_ok.2 (Outcome.expect_eq_ok.1 hroot),
    Outcome.expect_eq_ok.2 (Outcome.expect_eq_ok.1 htip), hpos, hall, fun b hb => ?_⟩, hle⟩
  refine hbs.mem_segment_iff hinfix.subset hheights (fun k hk hk' => ?_) hb
  have hk := hL.inner.blocks.mem_iff.1 (hall k hk hk')
  simpa using hk

theorem partialTransparentUtxoChanges_spec {L : Lineage net} (hbs : ValidBlocks bs) (hL : Represents c.inner L)
    (hseg : L.blocks ⊆ bs) (addresses : List Address) :
    (∀ l output, (c.partialTransparentUtxoChanges addresses).1[l]? = some output ↔ ∃ a ∈ addresses, ∃ o u,
      CreatedIn L.blocks o u ∧ u.utxo.output.address net = some a ∧ outputLocation o u = l ∧ u.utxo.output = output) ∧
    ∀ l, l ∈ (c.partialTransparentUtxoChanges addresses).2 ↔ ∃ a ∈ addresses, ∃ b ∈ L.blocks, ∃ o u,
      (∃ i, (o, i) ∈ spendsOf b.block) ∧ b.spentOutputs[o]? = some u ∧ u.utxo.output.address net = some a ∧
        outputLocation o u = l := by
  have hlists : ∀ b ∈ L.blocks, ListsOutputs b := fun b hb => hbs.listsOutputs b (hseg hb)
  have hcreated : ∀ l output, (l, output) ∈ (c.partialTransparentIndexes addresses).flatMap (·.createdUtxos.toList) ↔
      ∃ a ∈ addresses, ∃ o u, CreatedIn L.blocks o u ∧ u.utxo.output.address net = some a ∧
        outputLocation o u = l ∧ u.utxo.output = output := by
    intro l output
    simp only [List.mem_flatMap, ExtTreeMap.mem_toList_iff_getElem?_eq_some]
    rw [mem_partialTransparentIndexes (by simp [TransparentTransfers.default])]
    simp only [createdUtxos_iff hL.transactions hlists]
  constructor
  · intro l output
    rw [Chain.partialTransparentUtxoChanges, KeyedMap.getElem?_ofList_iff, hcreated]
    intro l v v' hv hv'
    obtain ⟨a, -, o, u, hu, -, hl, rfl⟩ := (hcreated l v).1 hv
    obtain ⟨a', -, o', u', hu', -, hl', rfl⟩ := (hcreated l v').1 hv'
    rw [((hu.mono hseg).eq_of_location hbs.listsOutputs hbs.heights_nodup (hu'.mono hseg) (hl.trans hl'.symm)).2]
  · intro l
    rw [Chain.partialTransparentUtxoChanges, KeyedMap.mem_ofList_iff]
    simp only [List.map_flatMap, List.mem_flatMap, ExtTreeMap.map_fst_toList_eq_keys, ExtTreeMap.mem_keys]
    rw [mem_partialTransparentIndexes (by simp [TransparentTransfers.default])]
    simp only [spentUtxos_iff hL.transactions hlists]

section

variable {L : Lineage net} {root tip : Nat} {addresses : List Address} {tipOf : Address → Nat}
  {finalizedUtxos : KeyedMap OutputLocation Output} {b : ContextuallyVerifiedBlock} {a : Address} {o : OutPoint}
  {u : OrderedUtxo}

variable (hbs : ValidBlocks bs) (hc : CoversHeights net bs c L root tip)
include hbs hc

theorem createdIn_segment_iff (hb : b ∈ bs) (hu : b.newOutputs[o]? = some u) :
    CreatedIn L.blocks o u ↔ root ≤ b.height ∧ b.height ≤ tip := by
  rw [← hc.mem_iff b hb]
  constructor
  · rintro ⟨b', hb', hu'⟩
    rwa [hbs.block_eq hb (hc.contiguous.subset hb') hu hu']
  · exact fun hb' => ⟨b, hb', hu⟩

theorem mem_spent_iff (ha : a ∈ addresses) (hb : b ∈ bs) (hu : b.newOutputs[o]? = some u)
    (haddress : u.utxo.output.address net = some a) :
    outputLocation o u ∈ (c.partialTransparentUtxoChanges addresses).2 ↔ ∃ s, SpentAt bs o s ∧ root ≤ s ∧ s ≤ tip:= by
  have hseg := hc.contiguous.subset
  rw [(partialTransparentUtxoChanges_spec hbs hc.refines.inner hseg addresses).2]
  constructor
  · rintro ⟨a', -, b', hb', o', u', ⟨i, ho⟩, hu', -, heq⟩
    obtain ⟨u'', b'', hu'', hb'', hnew, -⟩ := hbs.created_of_spent (hseg hb') ho
    obtain rfl := Option.some.inj (hu'.symm.trans hu'')
    obtain ⟨rfl, -⟩ := CreatedIn.eq_of_location hbs.listsOutputs hbs.heights_nodup ⟨b'', hb'', hnew⟩ ⟨b, hb, hu⟩ heq
    exact ⟨b'.height, ⟨b', hseg hb', rfl, i, ho⟩, (hc.mem_iff b' (hseg hb')).1 hb'⟩
  · rintro ⟨_, ⟨b', hb', rfl, i, ho⟩, hbounds⟩
    obtain ⟨u', b'', hu', hb'', hnew, -⟩ := hbs.created_of_spent hb' ho
    obtain rfl := hbs.utxo_eq ⟨b, hb, hu⟩ ⟨b'', hb'', hnew⟩
    exact ⟨a, ha, b', (hc.mem_iff b' hb').2 hbounds, o, u, ⟨i, ho⟩, hu', haddress, rfl⟩

/-- The changes of the chain bring an output of an address from any height that the chain
overlaps to the tip of the chain. -/
theorem unspentAt_tip_iff (ha : a ∈ addresses) (hb : b ∈ bs) (hpos : 0 < b.height) (hu : b.newOutputs[o]? = some u)
    (haddress : u.utxo.output.address net = some a) (hroot : root ≤ tipOf a + 1) (htip : tipOf a ≤ tip) :
    (UnspentAt net bs (tipOf a) a o u ∨ CreatedIn L.blocks o u) ∧
        outputLocation o u ∉ (c.partialTransparentUtxoChanges addresses).2 ↔ UnspentAt net bs tip a o u:= by
  have hafter : ∀ s, SpentAt bs o s → b.height ≤ s := by
    rintro _ ⟨b', hb', rfl, i, ho⟩
    obtain ⟨u', b'', -, hb'', hnew, hle⟩ := hbs.created_of_spent hb' ho
    rwa [hbs.block_eq hb hb'' hu hnew]
  have hspent : outputLocation o u ∉ (c.partialTransparentUtxoChanges addresses).2 ↔
      ∀ s, SpentAt bs o s → s < root ∨ tip < s := by
    rw [mem_spent_iff hbs hc ha hb hu haddress]
    simp only [not_exists, not_and, Nat.not_le]
    exact forall₂_congr fun s _ => by omega
  rw [unspentAt_iff hbs hb hpos hu haddress, unspentAt_iff hbs hb hpos hu haddress,
    createdIn_segment_iff hbs hc hb hu, hspent]
  exact overlay_iff hafter hroot htip

theorem applyUtxoChanges_holds (hroot : ∀ a ∈ addresses, root ≤ tipOf a + 1)
    (htip : ∀ a ∈ addresses, tipOf a ≤ tip) (hread : HoldsUtxos net bs addresses tipOf finalizedUtxos) :
    HoldsUtxos net bs addresses (fun _ => tip) (applyUtxoChanges finalizedUtxos
      (c.partialTransparentUtxoChanges addresses).1 (c.partialTransparentUtxoChanges addresses).2) := by
  have hseg := hc.contiguous.subset
  have hcreated := (partialTransparentUtxoChanges_spec hbs hc.refines.inner hseg addresses).1
  set created := (c.partialTransparentUtxoChanges addresses).1
  -- the entries of both maps are outputs of the chain of blocks
  have hentry : ∀ l output, (l, output) ∈ finalizedUtxos.toList ++ created.toList ↔ ∃ a ∈ addresses, ∃ o u,
      (∃ b ∈ bs, 0 < b.height ∧ b.newOutputs[o]? = some u) ∧ u.utxo.output.address net = some a ∧
        (UnspentAt net bs (tipOf a) a o u ∨ CreatedIn L.blocks o u) ∧ outputLocation o u = l ∧ u.utxo.output = output := by
    intro l output
    rw [List.mem_append, ExtTreeMap.mem_toList_iff_getElem?_eq_some, ExtTreeMap.mem_toList_iff_getElem?_eq_some,
      hread l output, hcreated l output]
    constructor
    · rintro (⟨a, ha, o, u, hu, heq⟩ | ⟨a, ha, o, u, ⟨b, hb, hu⟩, haddress, heq⟩)
      · obtain ⟨b, hb, hb₀, -, hnew⟩ := hu.created
        exact ⟨a, ha, o, u, ⟨b, hb, hb₀, hnew⟩, hu.address, .inl hu, heq⟩
      · have hheight := (hc.mem_iff b (hseg hb)).1 hb
        exact ⟨a, ha, o, u, ⟨b, hseg hb, hc.root_pos.trans_le hheight.1, hu⟩, haddress, .inr ⟨b, hb, hu⟩, heq⟩
    · rintro ⟨a, ha, o, u, -, haddress, hu | hu, heq⟩
      · exact .inl ⟨a, ha, o, u, hu, heq⟩
      · exact .inr ⟨a, ha, o, u, hu, haddress, heq⟩
  intro l output
  rw [applyUtxoChanges, KeyedMap.getElem?_ofList_iff, List.mem_filter, hentry, decide_eq_true_eq]
  · constructor
    · rintro ⟨⟨a, ha, o, u, ⟨b, hb, hb₀, hu⟩, haddress, hor, rfl, rfl⟩, hspent⟩
      have hiff := unspentAt_tip_iff hbs hc ha hb hb₀ hu haddress (hroot a ha) (htip a ha)
      exact ⟨a, ha, o, u, hiff.1 ⟨hor, hspent⟩, rfl, rfl⟩
    · rintro ⟨a, ha, o, u, hunspent, rfl, rfl⟩
      obtain ⟨b, hb, hb₀, -, hu⟩ := hunspent.created
      have hiff := unspentAt_tip_iff hbs hc ha hb hb₀ hu hunspent.address (hroot a ha) (htip a ha)
      obtain ⟨hor, hspent⟩ := hiff.2 hunspent
      exact ⟨⟨a, ha, o, u, ⟨b, hb, hb₀, hu⟩, hunspent.address, hor, rfl, rfl⟩, hspent⟩
  · intro l v v' hv hv'
    obtain ⟨-, -, o, u, ⟨b, hb, -, hu⟩, -, -, hl, rfl⟩ := (hentry l v).1 (List.mem_filter.1 hv).1
    obtain ⟨-, -, o', u', ⟨b', hb', -, hu'⟩, -, -, hl', rfl⟩ := (hentry l v').1 (List.mem_filter.1 hv').1
    rw [(CreatedIn.eq_of_location hbs.listsOutputs hbs.heights_nodup ⟨b, hb, hu⟩ ⟨b', hb', hu'⟩ (hl.trans hl'.symm)).2]

end

omit [MerkleHashing] [ChainHistory] in
theorem applyUtxoChanges_empty {addresses : List Address} {tipOf : Address → Nat} {height : Nat}
    (htips : ∀ a ∈ addresses, tipOf a = height) {finalizedUtxos : KeyedMap OutputLocation Output}
    (hread : HoldsUtxos net bs addresses tipOf finalizedUtxos) :
    HoldsUtxos net bs addresses (fun _ => height) (applyUtxoChanges finalizedUtxos ∅ ∅) := by
  have hlist : (finalizedUtxos.toList ++ (∅ : KeyedMap OutputLocation Output).toList).filter
      (fun x => x.1 ∉ (∅ : KeyedMap OutputLocation Unit)) = finalizedUtxos.toList := by
    simp
  intro l output
  rw [applyUtxoChanges, hlist, KeyedMap.getElem?_ofList_iff, ExtTreeMap.mem_toList_iff_getElem?_eq_some, hread l output]
  · refine exists_congr fun a => and_congr_right fun ha => ?_
    rw [htips a ha]
  · intro l v v' hv hv'
    rw [ExtTreeMap.mem_toList_iff_getElem?_eq_some] at hv hv'
    exact Option.some.inj (hv.symm.trans hv')

/-- A query of the address outputs is exact, although every address may have been read at
another finalized tip: it fails if the chain does not cover the blocks that were finalized in
the meantime, and otherwise it gives the unspent outputs at the height that it reports. -/
theorem address_utxos_exact {start stop : Nat} (hle : start ≤ stop) {addresses : List Address} {tipOf : Address → Nat}
    {chain : Option Chain} {finalizedUtxos : KeyedMap OutputLocation Output} (hbs : ValidBlocks bs)
    (hchain : ∀ c ∈ chain, SegmentOf net bs start c) (htips : ∀ a ∈ addresses, start ≤ tipOf a ∧ tipOf a ≤ stop)
    (hread : HoldsUtxos net bs addresses tipOf finalizedUtxos) :
    (start < stop ∧ ∃ message, chainTransparentUtxoChanges chain addresses (some (start, stop)) = .fail message) ∨
    ∃ created spent last, chainTransparentUtxoChanges chain addresses (some (start, stop)) = .ok (created, spent, some last) ∧
      HoldsUtxos net bs addresses (fun _ => last) (applyUtxoChanges finalizedUtxos created spent) := by
  have hequal : ¬ start < stop → ∀ a ∈ addresses, tipOf a = stop := by
    intro hnot a ha
    have := htips a ha
    omega
  cases chain with
  | none =>
    by_cases hlt : start < stop
    · exact .inl ⟨hlt, _, if_neg (show ¬ stop < start + 1 by omega)⟩
    · exact .inr ⟨∅, ∅, stop, if_pos (show stop < start + 1 by omega), applyUtxoChanges_empty (hequal hlt) hread⟩
  | some c =>
    obtain ⟨L, root, tip, hc, hstart⟩ := (hchain c rfl).exists_coversHeights hbs
    have happly (hstop : stop ≤ tip) : HoldsUtxos net bs addresses (fun _ => tip) _ :=
      applyUtxoChanges_holds hbs hc (fun a ha => by have := htips a ha; omega)
        (fun a ha => (htips a ha).2.trans hstop) hread
    rw [chainTransparentUtxoChanges, overlappingUtxoChanges, hc.rootHeight, hc.tipHeight, Outcome.ok_bind, Outcome.ok_bind,
      Outcome.check, if_pos hstart, Outcome.ok_bind]
    dsimp only
    by_cases hlt : start < stop
    · rw [if_neg (show ¬ stop < start + 1 by omega)]
      by_cases hshort : tip < stop
      · rw [if_pos hshort]
        exact .inl ⟨hlt, _, rfl⟩
      · have hoverlap : ∀ height ∈ List.range' (start + 1) (stop - start), height ∈ c.inner.blocks := by
          intro height hheight
          rw [List.mem_range'_1] at hheight
          exact hc.mem_blocks height (by omega) (by omega)
        rw [if_neg hshort, Outcome.check, if_pos hoverlap, Outcome.ok_bind]
        exact .inr ⟨_, _, tip, rfl, happly (by omega)⟩
    · rw [if_pos (show stop < start + 1 by omega)]
      by_cases hshort : tip ≤ stop
      · rw [if_pos hshort]
        exact .inr ⟨_, _, stop, rfl, applyUtxoChanges_empty (hequal hlt) hread⟩
      · rw [if_neg hshort]
        exact .inr ⟨_, _, tip, rfl, happly (by omega)⟩

end

section

open Sample

def paidThere : ContextuallyVerifiedBlock :=
  contextualBlock (semanticBlock 10 10 9 [(100, .V5 [] [pay ⟨100, hundred_valid⟩ 1] none none)]) []

def paidOn : ContextuallyVerifiedBlock :=
  contextualBlock (semanticBlock 11 11 10 [(1, .V5 [.prevOut ⟨100, 0⟩] [pay ⟨100, hundred_valid⟩ 2] none none)])
    [(⟨100, 0⟩, ⟨⟨pay ⟨100, hundred_valid⟩ 1, 10, false⟩, 1⟩)]

def paidBack : ContextuallyVerifiedBlock :=
  contextualBlock (semanticBlock 12 12 11 [(2, .V5 [.prevOut ⟨1, 0⟩] [pay ⟨100, hundred_valid⟩ 1] none none)])
    [(⟨1, 0⟩, ⟨⟨pay ⟨100, hundred_valid⟩ 2, 11, false⟩, 1⟩)]

def paidStart : Snapshot :=
  ⟨.empty, .empty, .empty, some ⟨network, .nu6, 1, ∅, 10⟩, ⟨⟨100, hundred_valid⟩, .zero, .zero, .zero, .zero⟩⟩

def payees : List Address := [⟨.testnet, false, 1⟩, ⟨.testnet, false, 2⟩]

def readAt (a : Address) : Nat := if a = ⟨.testnet, false, 1⟩ then 10 else 11

theorem valid_paid : ValidBlocks [paidThere, paidOn, paidBack] := by decide +kernel

theorem paid_query :
    ∃ c₀ c created spent last, start ⟨100, by decide⟩ = .ok c₀ ∧ Run Chain.Step c₀ [.push paidOn, .push paidBack] c ∧
      chainTransparentUtxoChanges (some c) payees (some (10, 11)) = .ok (created, spent, some last) ∧
      HoldsUtxos network [paidThere, paidOn, paidBack] payees (fun _ => last) (applyUtxoChanges
        (ExtTreeMap.ofList (unspentOutputs network [paidThere, paidOn, paidBack] payees readAt) compare) created spent) := by
  obtain ⟨c₀, hnew, c, hrun, hroot, hsome⟩ : ∃ c₀ ∈ (start ⟨100, by decide⟩).toOption,
      ∃ c ∈ c₀.performAll [.push paidOn, .push paidBack],
        (c.inner.nonFinalizedRootHeight : Exec String _) = .ok 11 ∧
        (chainTransparentUtxoChanges (some c) payees (some (10, 11))).toOption.isSome := by decide +kernel
  have hnew := Outcome.toOption_eq_some.1 hnew
  have hrun := Chain.run_iff_performAll.2 hrun
  have hsegment : SegmentOf network [paidThere, paidOn, paidBack] 10 c := by
    refine ⟨⟨10, paidStart, c₀, _, by decide, hnew, hrun⟩, ?_, 11, hroot, by decide⟩
    rw [blocks_of_pushes [paidOn, paidBack] collisionFree (by decide) paidStart hnew hrun]
    exact ⟨[paidThere], [], rfl⟩
  rcases address_utxos_exact (show 10 ≤ 11 by decide) valid_paid 
      (fun _ hc => by rw [← Option.mem_some.1 hc]; exact hsegment) (by decide) (holdsUtxos_unspentOutputs valid_paid payees readAt) with
    ⟨-, message, hfail⟩ | ⟨created, spent, last, hok, hholds⟩
  · rw [hfail] at hsome
    exact absurd hsome Bool.false_ne_true
  · exact ⟨c₀, c, created, spent, last, hnew, hrun, hok, hholds⟩

end

end Zebra.Properties
