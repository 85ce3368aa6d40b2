import Zebra.Ledger.AddressFlows
import Zebra.Ledger.ChainSet
import Zebra.Ledger.PassRange
import Zebra.Properties.AddressUtxos

namespace Zebra.Properties

open Lib Lib.RunningTotal Lib.Transition Ledger Std

/-- The outputs that the blocks create. The outputs of the genesis block cannot be spent. -/
def chainOutputs (bs : Blocks) : List (OutPoint × OrderedUtxo) :=
  (bs.filter fun b => 0 < b.height).flatMap fun b => b.newOutputs.toList

def spentIn (bs : Blocks) : List OutPoint := bs.flatMap fun b => (spendsOf b.block).map Prod.fst

def unspentIn (bs : Blocks) : List (OutPoint × OrderedUtxo) :=
  (chainOutputs bs).filter fun x => x.1 ∉ spentIn bs

/-- A chain of blocks that spends no output twice and no output of the genesis block. -/
structure ValidSpends (bs : Blocks) : Prop extends ValidBlocks bs where
  spentOnce : (spentIn bs).Nodup
  aboveGenesis : ∀ o ∈ spentIn bs, ∀ u, CreatedIn bs o u → 0 < u.utxo.height

section

variable {bs bs' : Blocks} {b : ContextuallyVerifiedBlock} {o : OutPoint} {u : OrderedUtxo}

instance : Decidable (ValidSpends bs) :=
  decidable_of_iff (ValidBlocks bs ∧ (spentIn bs).Nodup ∧
      ∀ o ∈ spentIn bs, ∀ b ∈ bs, ∀ u ∈ b.newOutputs[o]?, 0 < u.utxo.height)
    ⟨fun h => ⟨h.1, h.2.1, fun o ho u ⟨b, hb, hu⟩ => h.2.2 o ho b hb u hu⟩,
      fun h => ⟨h.toValidBlocks, h.spentOnce, fun o ho b hb u hu => h.aboveGenesis o ho u ⟨b, hb, hu⟩⟩⟩

theorem mem_spentIn : o ∈ spentIn bs ↔ ∃ b ∈ bs, ∃ i, (o, i) ∈ spendsOf b.block := by
  simp [spentIn]

theorem spentIn_append : spentIn (bs ++ bs') = spentIn bs ++ spentIn bs' := by
  simp [spentIn]

theorem mem_chainOutputs : (o, u) ∈ chainOutputs bs ↔ ∃ b ∈ bs, 0 < b.height ∧ b.newOutputs[o]? = some u := by
  simp [chainOutputs, and_assoc]

theorem chainOutputs_concat (hb : 0 < b.height) : chainOutputs (bs ++ [b]) = chainOutputs bs ++ b.newOutputs.toList := by
  simp [chainOutputs, hb]

theorem ValidBlocks.of_append (h : ValidBlocks (bs ++ bs')) : ValidBlocks bs where
  connected := (connected_append.1 h.connected).1
  distinct := by
    have hd := h.distinct
    rw [List.flatMap_append] at hd
    exact hd.of_append_left

theorem ValidBlocks.nodup_chainOutputs (h : ValidBlocks bs) : (chainOutputs bs).Nodup := by
  have hblocks : (bs.filter fun b => 0 < b.height).Nodup := h.heights_nodup.of_map.filter _
  refine List.nodup_flatMap.2 ⟨fun b _ => nodup_newOutputs b, hblocks.imp_of_mem fun {b b'} hb hb' hne => ?_⟩
  rintro ⟨o, u⟩ hu hu'
  rw [ExtTreeMap.mem_toList_iff_getElem?_eq_some] at hu hu'
  exact hne (h.block_eq (List.mem_of_mem_filter hb) (List.mem_of_mem_filter hb') hu hu')

namespace ValidSpends

theorem of_append (h : ValidSpends (bs ++ bs')) : ValidSpends bs where
  toValidBlocks := h.toValidBlocks.of_append
  spentOnce := by
    have hd := h.spentOnce
    rw [spentIn_append] at hd
    exact hd.of_append_left
  aboveGenesis o ho u hu := h.aboveGenesis o (by rw [spentIn_append]; exact List.mem_append_left _ ho) u
    (hu.mono (List.subset_append_left _ _))

variable (h : ValidSpends (bs ++ [b]))
include h

theorem follows : Follows bs b := by
  simpa using (connected_append.1 h.connected).2.1

theorem spends_nodup : ((spendsOf b.block).map Prod.fst).Nodup := by
  have hd := h.spentOnce
  rw [spentIn_append] at hd
  simpa [spentIn] using hd.of_append_right

theorem not_mem_spentIn {i : Nat} (ho : (o, i) ∈ spendsOf b.block) : o ∉ spentIn bs := by
  have hd := h.spentOnce
  rw [spentIn_append, List.nodup_append] at hd
  exact fun ho' => hd.2.2 o ho' o (mem_spentIn.2 ⟨b, by simp, i, ho⟩) rfl

theorem new_not_mem_spentIn (hu : b.newOutputs[o]? = some u) : o ∉ spentIn bs := by
  intro ho
  obtain ⟨b', hb', i, ho⟩ := mem_spentIn.1 ho
  obtain ⟨u', b'', -, hb'', hnew, -⟩ := h.of_append.created_of_spent hb' ho
  obtain rfl := h.block_eq (List.mem_append_right _ (List.mem_singleton_self b)) (List.mem_append_left _ hb'') hu hnew
  exact absurd (h.follows.above b hb'') (Nat.lt_irrefl _)

variable (hpos : 0 < b.height)
include hpos

theorem unspentIn_concat :
    unspentIn (bs ++ [b]) = (unspentIn bs ++ b.newOutputs.toList).filter
      fun x => ! decide (x.1 ∈ (spendsOf b.block).map Prod.fst) := by
  have hspent : spentIn (bs ++ [b]) = spentIn bs ++ (spendsOf b.block).map Prod.fst := by simp [spentIn]
  rw [unspentIn, chainOutputs_concat hpos, hspent, List.filter_append, List.filter_append, unspentIn, List.filter_filter]
  congr 1
  · refine List.filter_congr fun x _ => ?_
    simp only [List.mem_append, not_or, Bool.decide_and, decide_not]
    exact Bool.and_comm _ _
  · refine List.filter_congr fun x hx => ?_
    have hnew := h.new_not_mem_spentIn (ExtTreeMap.mem_toList_iff_getElem?_eq_some.1 hx)
    simp [hnew]

theorem spentUtxos_perm :
    ((unspentIn bs ++ b.newOutputs.toList).filter fun x => x.1 ∈ (spendsOf b.block).map Prod.fst).Perm
      (spentUtxos b) := by
  have hnodup : (unspentIn bs ++ b.newOutputs.toList).Nodup := by
    have hall := h.nodup_chainOutputs
    rw [chainOutputs_concat hpos] at hall
    exact hall.sublist (List.filter_sublist.append_right _)
  refine (List.perm_ext_iff_of_nodup (hnodup.filter _) (nodup_spentUtxos h.spends_nodup)).2 ?_
  rintro ⟨o, u⟩
  rw [List.mem_filter, mem_spentUtxosOf, decide_eq_true_eq, and_comm]
  have hmem : o ∈ (spendsOf b.block).map Prod.fst ↔ ∃ i, (o, i) ∈ spendsOf b.block := by simp
  rw [hmem]
  refine and_congr_right ?_
  rintro ⟨i, ho⟩
  obtain ⟨u', hu', hcreated⟩ := h.follows.createdIn ho
  rw [List.mem_append, unspentIn, List.mem_filter, mem_chainOutputs, ExtTreeMap.mem_toList_iff_getElem?_eq_some,
    decide_eq_true_eq]
  constructor
  · intro hu
    obtain rfl : u = u' := by
      refine h.utxo_eq ?_ hcreated
      rcases hu with ⟨⟨b', hb', -, hu⟩, -⟩ | hu
      · exact ⟨b', List.mem_append_left _ hb', hu⟩
      · exact ⟨b, List.mem_append_right _ (List.mem_singleton_self b), hu⟩
    exact hu'
  · intro hu
    obtain rfl := Option.some.inj (hu.symm.trans hu')
    obtain ⟨b', hb', hnew⟩ := hcreated
    rcases List.mem_append.1 hb' with hb₁ | hb₁
    · refine .inl ⟨⟨b', hb₁, ?_, hnew⟩, h.not_mem_spentIn ho⟩
      have hgenesis := h.aboveGenesis o (mem_spentIn.2 ⟨b, by simp, i, ho⟩) u ⟨b', hb', hnew⟩
      rwa [((h.listsOutputs b' hb').getElem?_newOutputs.1 hnew).height] at hgenesis
    · rw [List.mem_singleton.1 hb₁] at hnew
      exact .inr hnew

end ValidSpends

end

section

variable [ScriptParsing] {net : Network} {F bs seg : Blocks} {b : ContextuallyVerifiedBlock}
  {a : Address}

def heldBy (net : Network) (bs : Blocks) (a : Address) : Int :=
  totalTo net a ((unspentIn bs).map utxoEntry)

theorem heldBy_nonneg : 0 ≤ heldBy net bs a := totalTo_nonneg

theorem heldBy_concat (h : ValidSpends (bs ++ [b])) (hpos : 0 < b.height) :
    heldBy net (bs ++ [b]) a = heldBy net bs a + paidBy net b a - takenBy net b a := by
  rw [heldBy, h.unspentIn_concat hpos, totalTo_filter_not, totalTo_perm ((h.spentUtxos_perm hpos).map utxoEntry),
    List.map_append, totalTo_append]
  rfl

theorem balance_segment (h : ValidSpends (F ++ seg)) (hpos : ∀ b ∈ seg, 0 < b.height) (hi : ∀ b ∈ seg, Indexable b) :
    balance (blocksJournal net seg) a = heldBy net (F ++ seg) a - heldBy net F a := by
  induction seg using List.reverseRecOn with
  | nil => simp [blocksJournal, balance, TransfersOf]
  | append_singleton seg b ih =>
    rw [← List.append_assoc] at h ⊢
    have hb : b ∈ seg ++ [b] := List.mem_append_right _ (List.mem_singleton_self b)
    rw [blocksJournal_concat, balance_add, heldBy_concat h (hpos b hb),
      ih h.of_append (fun b hb => hpos b (List.mem_append_left _ hb)) fun b hb => hi b (List.mem_append_left _ hb),
      gains_journal h.follows.outputs (hi b hb),
      losses_journal h.of_append.listsOutputs h.of_append.heights_nodup h.follows h.spends_nodup (hi b hb)]
    omega

/-- No address holds so much at any block of the chain that a whole block of payments to it would
exceed the supply. -/
def HasRoom (net : Network) (F seg : Blocks) : Prop :=
  ∀ a seg', seg'.IsPrefix seg → ∀ b ∈ seg, heldBy net (F ++ seg') a + paidBy net b a ≤ maxMoney

theorem HasRoom.of_append {seg' : Blocks} (h : HasRoom net F (seg ++ seg')) :
    HasRoom net F seg := fun a seg₁ hle b hb =>
  h a seg₁ (hle.trans (List.prefix_append _ _)) b (List.mem_append_left _ hb)

/-- What the steps need: the blocks `seg` are on top of the finalized blocks `F`. -/
structure OnTop (net : Network) (F seg : Blocks) : Prop where
  valid : ValidSpends (F ++ seg)
  above : ∀ b ∈ seg, 0 < b.height
  indexable : ∀ b ∈ seg, Indexable b
  room : HasRoom net F seg

theorem OnTop.of_append {seg' : Blocks} (h : OnTop net F (seg ++ seg')) : OnTop net F seg where
  valid := by
    have hvalid := h.valid
    rw [← List.append_assoc] at hvalid
    exact hvalid.of_append
  above b hb := h.above b (List.mem_append_left _ hb)
  indexable b hb := h.indexable b (List.mem_append_left _ hb)
  room := h.room.of_append

theorem takenBy_le (h : ValidSpends (bs ++ [b])) (hpos : 0 < b.height) (a : Address) :
    takenBy net b a ≤ heldBy net bs a + paidBy net b a := by
  have hafter : 0 ≤ heldBy net (bs ++ [b]) a := heldBy_nonneg
  rw [heldBy_concat h hpos] at hafter
  omega

theorem push_fits (h : OnTop net F seg) (hvalid : ValidSpends (F ++ seg ++ [b])) (hpos : 0 < b.height)
    (hroom : HasRoom net F (seg ++ [b])) :
    BalancesFit (balance (blocksJournal net seg)) (deltas (journal net b)) := by
  have hb : b ∈ seg ++ [b] := List.mem_append_right _ (List.mem_singleton_self b)
  have hbalance : ∀ a, balance (blocksJournal net seg) a = heldBy net (F ++ seg) a - heldBy net F a := fun _ =>
    balance_segment h.valid h.above h.indexable
  refine fits_of_gross (fun a => ?_) fun a => ?_
  · have hgains : gains (deltas (journal net b)) a ≤ paidBy net b a := gains_journal_le hvalid.follows.outputs
    have hstart : 0 ≤ heldBy net F a := heldBy_nonneg
    have hbefore := hroom a seg (List.prefix_append _ _) b hb
    rw [hbalance, Constraint.upper]
    omega
  · have hlosses : losses (deltas (journal net b)) a ≤ takenBy net b a :=
      losses_journal_le hvalid.of_append.listsOutputs hvalid.of_append.heights_nodup hvalid.follows hvalid.spends_nodup
    have htaken : takenBy net b a ≤ heldBy net (F ++ seg) a + paidBy net b a := takenBy_le hvalid hpos a
    have hstart := hroom a [] List.nil_prefix b hb
    rw [List.append_nil] at hstart
    rw [hbalance, Constraint.lower]
    omega

/-- What a revert subtracts from an address is what the block paid to it, and what it adds is what
the block took. -/
theorem revertFits_of_bounds (hF : ∀ b ∈ bs, ListsOutputs b) (hheight : (bs.map ContextuallyVerifiedBlock.height).Nodup)
    (hb : Follows bs b) (hspends : ((spendsOf b.block).map Prod.fst).Nodup) (hi : Indexable b)
    (hlow : ∀ a, -maxMoney ≤ balance (blocksJournal net seg) a - paidBy net b a)
    (hhigh : ∀ a, balance (blocksJournal net seg) a + takenBy net b a ≤ maxMoney) : RevertFits net seg b := by
  refine fits_of_gross (fun a => ?_) fun a => ?_
  · have hgains : gains (undone (deltas (journal net b))) a = losses (deltas (journal net b)) a := rfl
    rw [hgains, losses_journal hF hheight hb hspends hi]
    exact hhigh a
  · have hlosses : losses (undone (deltas (journal net b))) a = gains (deltas (journal net b)) a := by
      simp [losses, undone, Function.comp_def]
    rw [hlosses, gains_journal hb.outputs hi]
    exact hlow a

theorem popTip_fits (h : OnTop net F (seg ++ [b])) : RevertFits net (seg ++ [b]) b := by
  have hvalid : ValidSpends (F ++ seg ++ [b]) := by
    rw [List.append_assoc]
    exact h.valid
  have hb : b ∈ seg ++ [b] := List.mem_append_right _ (List.mem_singleton_self b)
  have hbalance : ∀ a, balance (blocksJournal net (seg ++ [b])) a =
      heldBy net (F ++ seg) a + paidBy net b a - takenBy net b a - heldBy net F a := fun a => by
    rw [balance_segment h.valid h.above h.indexable, ← List.append_assoc, heldBy_concat hvalid (h.above b hb)]
  refine revertFits_of_bounds hvalid.of_append.listsOutputs hvalid.of_append.heights_nodup hvalid.follows
    hvalid.spends_nodup (h.indexable b hb) (fun a => ?_) fun a => ?_
  · have htaken : takenBy net b a ≤ heldBy net (F ++ seg) a + paidBy net b a := takenBy_le hvalid (h.above b hb) a
    have hstart := h.room a [] List.nil_prefix b hb
    rw [List.append_nil] at hstart
    rw [hbalance]
    omega
  · have hstart : 0 ≤ heldBy net F a := heldBy_nonneg
    have hbefore := h.room a seg (List.prefix_append _ _) b hb
    rw [hbalance]
    omega

theorem popRoot_fits (h : OnTop net F (b :: seg)) : RevertFits net (b :: seg) b := by
  have hvalid : ValidSpends (F ++ [b]) := by
    have hall := h.valid
    rw [List.append_cons] at hall
    exact hall.of_append
  have hb : b ∈ b :: seg := List.mem_cons_self
  have hbalance : ∀ a, balance (blocksJournal net (b :: seg)) a = heldBy net (F ++ b :: seg) a - heldBy net F a := fun _ =>
    balance_segment h.valid h.above h.indexable
  refine revertFits_of_bounds hvalid.of_append.listsOutputs hvalid.of_append.heights_nodup hvalid.follows
    hvalid.spends_nodup (h.indexable b hb) (fun a => ?_) fun a => ?_
  · have htip : 0 ≤ heldBy net (F ++ b :: seg) a := heldBy_nonneg
    have hstart := h.room a [] List.nil_prefix b hb
    rw [List.append_nil] at hstart
    rw [hbalance]
    omega
  · have htaken : takenBy net b a ≤ heldBy net F a + paidBy net b a := takenBy_le hvalid (h.above b hb) a
    have htip := h.room a (b :: seg) List.prefix_rfl b hb
    rw [hbalance]
    omega

theorem tipReverts_fit {removed : Blocks} (h : OnTop net F (seg ++ removed)) :
    TipRevertsFit net seg removed := by
  induction removed using List.reverseRecOn with
  | nil => trivial
  | append_singleton removed b ih =>
    rw [← List.append_assoc] at h
    exact tipRevertsFit_concat.2 ⟨ih h.of_append, popTip_fits h⟩

variable [MerkleHashing] [ChainHistory] {c : Chain}

def Reached (net : Network) (c : Chain) : Prop :=
  ∃ (height : Nat) (s : Snapshot) (c₀ : Chain) (ops : List ChainOp), height ≤ Height.max ∧
    (Chain.new net height s.sprout s.sapling s.orchard s.history s.pools : Validated _) = .ok c₀ ∧
    Run Chain.Step c₀ ops c

theorem Reached.exists_lineage (h : Reached net c) : ∃ L : Lineage net, Refines c L ∧ L.blocks = blocksOf c := by
  obtain ⟨height, s, c₀, ops, hheight, hnew, hrun⟩ := h
  obtain ⟨L, -, hL⟩ := run_sound (new_exact hheight s hnew).toRefines hrun
  exact ⟨L, hL, hL.inner.map_snd_blocks.symm⟩

theorem onTop_of_represents {L : Lineage net} (hL : Represents c.inner L) (hvalid : ValidSpends (F ++ L.blocks))
    (hroom : HasRoom net F L.blocks) : OnTop net F L.blocks where
  valid := hvalid
  above b hb := by
    obtain ⟨root, tip, -, -, hpos, hheights, -⟩ := hL.bounds (ε := String) fun hnil => by
      rw [Lineage.blocks, hnil] at hb
      exact List.not_mem_nil hb
    exact hpos.trans_le (hheights b hb).1
  indexable := hL.transactions.indexable fun b hb => hvalid.listsOutputs b (List.mem_append_right _ hb)
  room := hroom

/-- As long as no block can pay an address beyond the supply, the address balances of a chain stay
in range at every transfer of a push, a fork or a pop. -/
theorem address_balances_in_range (hc : Reached net c) (hvalid : ValidSpends (F ++ blocksOf c))
    (hroom : HasRoom net F (blocksOf c)) :
    (∀ b, c.IsNext b → ValidSpends (F ++ blocksOf c ++ [b]) → HasRoom net F (blocksOf c ++ [b]) →
      KeepsBalances (c.inner.updateTransactions c.network b)) ∧
    (∀ b ∈ blocksOf c, (c.fork b.hash : Exec ValidateContextError _).Succeeds) ∧
    (blocksOf c ≠ [] → (c.popRoot : Exec ValidateContextError _).Succeeds) := by
  obtain ⟨L, ⟨rfl, hL⟩, hblocks⟩ := hc.exists_lineage
  rw [← hblocks] at hvalid hroom ⊢
  have htop := onTop_of_represents hL hvalid hroom
  refine ⟨fun b hnext hb hbroom => ?_, fun b hb => ?_, fun hne => ?_⟩
  · have hpos : 0 < b.height := by
      obtain ⟨k, -, hk⟩ := Option.map_eq_some_iff.1 hnext.height
      omega
    rw [updateTransactions_eq_writeAll]
    exact keepsBalances_writeAll hL.transactions (fun e he => keepsBalances_of_mem_journal he)
      (push_fits htop hb hpos hbroom)
  · obtain ⟨r, hr, rfl⟩ := List.mem_map.1 hb
    obtain ⟨rs, removed, hrec⟩ := List.append_of_mem hr
    have hrec' : L.records = rs ++ [r] ++ removed := by simpa using hrec
    rw [Lineage.blocks, hrec', List.map_append] at htop
    exact (fork_spec rfl hL hrec').1.2 (tipReverts_fit htop)
  · cases hrec : L.records with
    | nil => exact absurd (by rw [Lineage.blocks, hrec]; rfl) hne
    | cons r rs =>
      refine (popRoot_spec rfl hL hrec).1.2 ?_
      rw [Lineage.blocks, hrec] at htop ⊢
      exact popRoot_fits htop

end

section

open Sample

def totalOf (l : List (OutPoint × OrderedUtxo)) : Int := (l.map fun x => x.2.utxo.output.value.zatoshis).sum

theorem hasRoom_of_totals {F seg : Blocks}
    (h : ∀ seg' ∈ seg.inits, ∀ b ∈ seg, totalOf (unspentIn (F ++ seg')) + totalOf b.newOutputs.toList ≤ maxMoney) :
    HasRoom network F seg := by
  have htotal : ∀ a l, totalTo network a (l.map utxoEntry) ≤ totalOf l := by
    intro a l
    refine (totalTo_le a _).trans_eq ?_
    rw [List.map_map]
    rfl
  intro a seg' hprefix b hb
  have hroom := h seg' ((List.mem_inits _ _).2 hprefix) b hb
  have hheld : heldBy network (F ++ seg') a ≤ totalOf (unspentIn (F ++ seg')) := htotal _ _
  have hpaid : paidBy network b a ≤ totalOf b.newOutputs.toList := htotal _ _
  omega

theorem paid_in_range :
    ∃ c₀ c, start ⟨100, by decide⟩ = .ok c₀ ∧ Run Chain.Step c₀ [.push paidOn] c ∧
      KeepsBalances (c.inner.updateTransactions c.network paidBack) ∧
      (c.fork paidOn.hash : Exec ValidateContextError _).Succeeds ∧ (c.popRoot : Exec ValidateContextError _).Succeeds := by
  obtain ⟨c₀, hnew, c, hrun, hnext⟩ : ∃ c₀ ∈ (start ⟨100, by decide⟩).toOption,
      ∃ c ∈ c₀.performAll [.push paidOn], c.IsNext paidBack := by decide +kernel
  have hnew := Outcome.toOption_eq_some.1 hnew
  have hrun := Chain.run_iff_performAll.2 hrun
  have hblocks : blocksOf c = [paidOn] := blocks_of_pushes _ collisionFree (by decide) paidStart hnew hrun
  have hvalid : ValidSpends ([paidThere] ++ [paidOn] ++ [paidBack]) :=
    by decide +kernel
  obtain ⟨hpush, hfork, hpop⟩ := address_balances_in_range ⟨10, paidStart, c₀, _, by decide, hnew, hrun⟩
    (by rw [hblocks]; exact hvalid.of_append) (by rw [hblocks]; exact hasRoom_of_totals (by decide +kernel))
  rw [hblocks] at hpush hfork hpop
  exact ⟨c₀, c, hnew, hrun, hpush paidBack hnext hvalid (hasRoom_of_totals (by decide +kernel)),
    hfork paidOn List.mem_cons_self, hpop (List.cons_ne_nil _ _)⟩

def elevenMillion : Amount .nonNegative := ⟨11000000 * coin, by decide⟩

/-- The money leaves the Sapling pool for address 1, which then pays it to itself. -/
def unshield : SemanticallyVerifiedBlock :=
  semanticBlock 11 11 10 [(500, .V5 [] [pay elevenMillion 1] (some ⟨elevenMillion.widen, .justOutputs ⟨[7], seven_ne_nil⟩⟩) none)]

def payItself : SemanticallyVerifiedBlock :=
  semanticBlock 12 12 11 [(501, .V5 [.prevOut ⟨500, 0⟩] [pay elevenMillion 1] none none)]

def paidItself : List (OutPoint × OrderedUtxo) := [(⟨500, 0⟩, ⟨⟨pay elevenMillion 1, 11, false⟩, 1⟩)]

theorem valid_selfPayment : ValidSpends [contextualBlock unshield [], contextualBlock payItself paidItself] := by
  decide +kernel

/-- An address with more than half of the supply pays itself. The new output counts before the
spent one, so the node stops, although the value pools do not change. -/
theorem self_payment_overflows :
    ValidSpends [contextualBlock unshield [], contextualBlock payItself paidItself] ∧
    Check.remainingTransactionValue unshield ∅ = .ok () ∧
    Check.remainingTransactionValue payItself (.ofList paidItself) = .ok () ∧
    ∃ c₀ c pools, Chain.new network 10 .empty .empty .empty (some ⟨network, .nu6, 1, ∅, 10⟩)
        ⟨.zero, .zero, elevenMillion, .zero, .zero⟩ = (.ok c₀ : Exec ValidateContextError _) ∧
      Run Chain.Step c₀ [.push (contextualBlock unshield [])] c ∧ c.IsNext (contextualBlock payItself paidItself) ∧
      c.inner.chainValuePools.addChainValuePoolChange (contextualBlock payItself paidItself).chainValuePoolChange = .ok pools ∧
      c.push (contextualBlock payItself paidItself) = .panic .balanceOverflow := by
  refine ⟨valid_selfPayment, by decide +kernel, by decide +kernel, ?_⟩
  obtain ⟨c₀, hnew, c, hrun, hnext, pools, hpools, hpush⟩ : ∃ c₀ ∈ (Chain.new network 10 .empty .empty .empty
      (some ⟨network, .nu6, 1, ∅, 10⟩) ⟨.zero, .zero, elevenMillion, .zero, .zero⟩ : Validated _).toOption,
      ∃ c ∈ c₀.performAll [.push (contextualBlock unshield [])], c.IsNext (contextualBlock payItself paidItself) ∧
      ∃ pools ∈ (c.inner.chainValuePools.addChainValuePoolChange
        (contextualBlock payItself paidItself).chainValuePoolChange).toOption,
      (fun _ => ()) <$> c.push (contextualBlock payItself paidItself) = .panic .balanceOverflow := by decide +kernel
  refine ⟨c₀, c, pools, Outcome.toOption_eq_some.1 hnew, Chain.run_iff_performAll.2 hrun, hnext, ?_, ?_⟩
  · cases hadd : c.inner.chainValuePools.addChainValuePoolChange
      (contextualBlock payItself paidItself).chainValuePoolChange with
    | ok pools' =>
      rw [hadd] at hpools
      exact congrArg Except.ok (Option.some.inj hpools)
    | error e =>
      rw [hadd] at hpools
      cases hpools
  · exact Outcome.map_eq_panic.1 hpush

end

end Zebra.Properties
