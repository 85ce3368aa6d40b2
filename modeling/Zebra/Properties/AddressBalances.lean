import Zebra.Ledger.AddressBalances
import Zebra.Properties.AddressBalanceRange
import Zebra.Properties.TransparentIndexes

namespace Zebra.Properties

open Lib Lib.Transition Ledger Std Read Outcome Constraint

structure FinalizedAs (b : ContextuallyVerifiedBlock) (fb : FinalizedBlock) : Prop where
  block : fb.block = b.block
  height : fb.height = b.height
  newOutputs : fb.newOutputs = b.newOutputs
  transactionHashes : fb.transactionHashes = b.transactionHashes

section

variable {bs : Blocks} {fbs : List FinalizedBlock} {b : ContextuallyVerifiedBlock} {fb : FinalizedBlock}

def paidUtxo (p : Payment) : OutPoint × OrderedUtxo := (p.outpoint, p.utxo)

theorem utxoEntry_paidUtxo {p : Payment} (hp : p ∈ fb.payments) : utxoEntry (paidUtxo p) = p.entry := by
  obtain ⟨i, tx, hash, j, -, -, -, hout, hloc⟩ := mem_payments.1 hp
  obtain ⟨outpoint, location, output⟩ := p
  obtain rfl := hout
  obtain rfl := hloc
  rfl

theorem newOutputs_perm_payments (h : FinalizedAs b fb) (hb : ListsOutputs b) :
    b.newOutputs.toList.Perm (fb.payments.map paidUtxo) := by
  have hd : fb.transactionHashes.Nodup := h.transactionHashes ▸ hb.distinct
  have hnew : fb.newOutputs = newOrderedOutputsWithHeight fb.block fb.height fb.transactionHashes := by
    rw [h.newOutputs, h.block, h.height, h.transactionHashes, hb.newOutputs]
  have hnodup : (fb.payments.map paidUtxo).Nodup := by
    refine List.Nodup.map_on ?_ ?_
    · intro p hp q hq heq
      exact payment_eq_of_outpoint hd hp hq (Prod.mk.inj heq).1
    · refine (payments_ascending fb).imp ?_
      rintro p _ hlt rfl
      rw [ReflOrd.compare_self] at hlt
      exact absurd hlt (by decide)
  refine (List.perm_ext_iff_of_nodup (nodup_newOutputs b) hnodup).2 ?_
  rintro ⟨o, u⟩
  rw [ExtTreeMap.mem_toList_iff_getElem?_eq_some, ← h.newOutputs, getElem?_newOutputs hd hnew, List.mem_map]
  simp [paidUtxo]

theorem chainOutputs_perm (h : List.Forall₂ FinalizedAs bs fbs) (hb : ∀ b ∈ bs, ListsOutputs b) :
    (chainOutputs bs).Perm ((chainPayments fbs).map paidUtxo) := by
  induction h with
  | nil => rfl
  | @cons b fb bs fbs hfirst _ ih =>
    rw [List.forall_mem_cons] at hb
    have hheight : (decide (fb.height ≠ 0)) = decide (0 < b.height) := by
      rw [hfirst.height]
      exact decide_eq_decide.2 Nat.pos_iff_ne_zero.symm
    rw [chainOutputs, chainPayments, List.filter_cons, List.filter_cons, hheight]
    split
    · rw [List.flatMap_cons, List.flatMap_cons, List.map_append]
      exact (newOutputs_perm_payments hfirst hb.1).append (ih hb.2)
    · exact ih hb.2

theorem spentIn_eq (h : List.Forall₂ FinalizedAs bs fbs) : spentIn bs = (chainSpends fbs).map Prod.snd := by
  induction h with
  | nil => rfl
  | @cons b fb bs fbs hfirst _ ih =>
    rw [spentIn, chainSpends, List.flatMap_cons, List.flatMap_cons, List.map_append, map_snd_spends, hfirst.block,
      map_fst_spendsOf]
    exact congrArg _ ih

theorem exists_finalizedAs (h : List.Forall₂ FinalizedAs bs fbs) (hb : b ∈ bs) : ∃ fb ∈ fbs, FinalizedAs b fb := by
  induction h with
  | nil => cases hb
  | @cons _ fb _ _ hfirst _ ih =>
    rcases List.mem_cons.1 hb with rfl | hb
    · exact ⟨fb, List.mem_cons_self, hfirst⟩
    · obtain ⟨fb', hfb', hfinalized⟩ := ih hb
      exact ⟨fb', List.mem_cons_of_mem _ hfb', hfinalized⟩

variable [ScriptParsing] {net : Network} {a : Address}

def receivedBy (net : Network) (bs : Blocks) (a : Address) : Int :=
  totalTo net a ((chainOutputs bs).map utxoEntry)

variable (h : List.Forall₂ FinalizedAs bs fbs) (hb : ∀ b ∈ bs, ListsOutputs b)
include h hb

theorem receivedBy_eq : receivedBy net bs a = totalTo net a ((chainPayments fbs).map Payment.entry) := by
  rw [receivedBy, totalTo_perm ((chainOutputs_perm h hb).map utxoEntry), List.map_map]
  refine congrArg (totalTo net a) (List.map_congr_left fun p hp => ?_)
  obtain ⟨fb, -, -, hp⟩ := mem_chainPayments.1 hp
  exact utxoEntry_paidUtxo hp

theorem heldBy_eq : heldBy net bs a = totalTo net a ((unspent fbs).map Payment.entry) := by
  have hperm : (unspentIn bs).Perm ((unspent fbs).map paidUtxo) := by
    have hfilter := (chainOutputs_perm h hb).filter fun x => x.1 ∉ spentIn bs
    rw [List.filter_map, spentIn_eq h] at hfilter
    rw [unspentIn, spentIn_eq h]
    exact hfilter
  rw [heldBy, totalTo_perm (hperm.map utxoEntry), List.map_map]
  refine congrArg (totalTo net a) (List.map_congr_left fun p hp => ?_)
  obtain ⟨fb, -, -, hp⟩ := mem_chainPayments.1 (mem_unspent.1 hp).1
  exact utxoEntry_paidUtxo hp

end

variable {α ε : Type} {l : List α} {F : Blocks} {v : Amount .nonNegative}

section

variable [ScriptParsing] {net : Network} {bs : Blocks}

theorem sum_heldBy_le {addresses : List Address} (hd : addresses.Nodup) :
    (addresses.map (heldBy net bs)).sum ≤ totalOf (unspentIn bs) := by
  have hone : ∀ (x : OutPoint × OrderedUtxo), (addresses.map fun a =>
      if x.2.utxo.output.address net = some a then x.2.utxo.output.value.zatoshis else 0).sum ≤
        x.2.utxo.output.value.zatoshis := by
    intro x
    have hvalue := value_nonneg x.2.utxo.output
    cases x.2.utxo.output.address net with
    | none => simpa using hvalue
    | some a =>
      have hcount := List.nodup_iff_count_le_one.1 hd a
      have hsum := List.sum_map_ite_eq addresses (fun _ => x.2.utxo.output.value.zatoshis) (fun _ => (0 : Int)) a
      simp only [Option.some.injEq, eq_comm (a := a), hsum]
      rcases Nat.le_one_iff_eq_zero_or_eq_one.1 hcount with hc | hc <;> simp [hc, hvalue]
  unfold heldBy
  induction unspentIn bs with
  | nil => simp [totalOf]
  | cons x l ih =>
    have hcons : ∀ a, totalTo net a ((x :: l).map utxoEntry) =
        (if x.2.utxo.output.address net = some a then x.2.utxo.output.value.zatoshis else 0) +
          totalTo net a (l.map utxoEntry) := fun a => totalTo_cons
    simp only [hcons, List.sum_map_add]
    exact Int.add_le_add (hone x) ih

def HoldsBalances (net : Network) (bs : Blocks) (db : ZebraDb) : Prop :=
  ∀ a, ∃ x, (db.balanceByTransparentAddr.addressBalanceLocation a : Exec BalanceError _) = .ok x ∧
    balanceOf x = heldBy net bs a ∧ receivedOf x = min (receivedBy net bs a).toNat (2 ^ 64 - 1)

omit [ScriptParsing] in
theorem sum_map_nonneg {f : α → Int} (hf : ∀ x, 0 ≤ f x) : 0 ≤ (l.map f).sum := by
  refine List.sum_nonneg fun z hz => ?_
  obtain ⟨x, -, rfl⟩ := List.mem_map.1 hz
  exact hf x

omit [ScriptParsing] in
theorem sum_map_sub {f g : α → Int} : (l.map fun x => f x - g x).sum = (l.map f).sum - (l.map g).sum:= by
  induction l with
  | nil => rfl
  | cons x l ih =>
    simp only [List.map_cons, List.sum_cons, ih]
    omega

theorem receivedBy_nonneg {a : Address} : 0 ≤ receivedBy net bs a := totalTo_nonneg

section

variable {db : ZebraDb} (h : HoldsBalances net bs db) {sum : Amount .nonNegative × Nat} (hsum : sum.2 < 2 ^ 64)
include h hsum

theorem addFinalizedBalance_eq {a : Address} (hrange : sum.1.zatoshis + heldBy net bs a ≤ maxMoney) :
    ∃ balance, (db.addFinalizedBalance sum a : Exec BalanceError _) =
        .ok (balance, saturatingAdd sum.2 (receivedBy net bs a).toNat) ∧
      balance.zatoshis = sum.1.zatoshis + heldBy net bs a := by
  obtain ⟨x, hx, hbalance, hreceived⟩ := h a
  rw [ZebraDb.addFinalizedBalance, ZebraDb.addressBalance, hx]
  cases x with
  | none =>
    have hzero : (receivedBy net bs a).toNat = 0 := by
      simp only [receivedOf, Option.map_none, Option.getD_none] at hreceived
      omega
    refine ⟨sum.1, ?_, ?_⟩
    · rw [hzero, saturatingAdd_zero hsum]
      rfl
    · rw [← hbalance]
      exact (add_zero _).symm
  | some x =>
    have heq : x.balance.zatoshis = heldBy net bs a := hbalance
    have hmin : x.received = min (receivedBy net bs a).toNat (2 ^ 64 - 1) := hreceived
    have hcontains : nonNegative.Contains (sum.1.zatoshis + x.balance.zatoshis) := by
      have hlow := sum.1.valid.1
      have hlow' := x.balance.valid.1
      simp only [Constraint.Contains, lower, upper] at hlow hlow' ⊢
      omega
    have hadd : sum.1.add x.balance = .ok ⟨_, hcontains⟩ := Amount.add_eq_ok.2 rfl
    refine ⟨⟨_, hcontains⟩, ?_, by rw [← heq]⟩
    have hsaturated : saturatingAdd sum.2 x.received = saturatingAdd sum.2 (receivedBy net bs a).toNat := by
      simp only [saturatingAdd, hmin]
      omega
    simp only [ok_bind, pure_eq_ok, Option.map_some, hadd, unwrap, hsaturated]

theorem foldlM_addFinalizedBalance {addresses : List Address}
    (hrange : sum.1.zatoshis + (addresses.map (heldBy net bs)).sum ≤ maxMoney) :
    ∃ balance, (addresses.foldlM (fun sum a => db.addFinalizedBalance sum a) sum : Exec BalanceError _) =
        .ok (balance, saturatingAdd sum.2 (addresses.map (receivedBy net bs)).sum.toNat) ∧
      balance.zatoshis = sum.1.zatoshis + (addresses.map (heldBy net bs)).sum := by
  induction addresses generalizing sum with
  | nil => exact ⟨sum.1, by rw [List.map_nil, List.sum_nil, Int.toNat_zero, saturatingAdd_zero hsum]; rfl, by simp⟩
  | cons a addresses ih =>
    have hheld : (0 : Int) ≤ (addresses.map (heldBy net bs)).sum := sum_map_nonneg fun _ => heldBy_nonneg
    have hrest : (0 : Int) ≤ (addresses.map (receivedBy net bs)).sum := sum_map_nonneg fun _ => receivedBy_nonneg
    have hnonneg : 0 ≤ receivedBy net bs a := receivedBy_nonneg
    rw [List.map_cons, List.sum_cons] at hrange
    obtain ⟨balance, hstep, hbalance⟩ := addFinalizedBalance_eq h hsum (a := a) (by omega)
    obtain ⟨balance', hfold, hbalance'⟩ := @ih (balance, saturatingAdd sum.2 (receivedBy net bs a).toNat)
      (saturatingAdd_lt _ _) (by rw [hbalance]; omega)
    refine ⟨balance', ?_, ?_⟩
    · rw [List.foldlM_cons, hstep, ok_bind, hfold, List.map_cons, List.sum_cons, Int.toNat_add hnonneg hrest]
      simp only [saturatingAdd, Except.ok.injEq, Prod.mk.injEq, true_and]
      omega
    · rw [hbalance', hbalance, List.map_cons, List.sum_cons, add_assoc]

end

omit [ScriptParsing] in
theorem filter_le_append_filter_lt {key : α → Nat} (h : l.Pairwise fun x y => key x < key y)
    (n : Nat) : l.filter (fun x => key x ≤ n) ++ l.filter (fun x => n < key x) = l := by
  induction l with
  | nil => rfl
  | cons x l ih =>
    obtain ⟨hx, hl⟩ := List.pairwise_cons.1 h
    by_cases hn : key x ≤ n
    · rw [List.filter_cons_of_pos (by simpa using hn), List.filter_cons_of_neg (by simpa using hn), List.cons_append,
        ih hl]
    · have hnone : l.filter (fun x => key x ≤ n) = [] := by
        refine List.filter_eq_nil_iff.2 fun y hy => ?_
        have := hx y hy
        simp only [decide_eq_true_eq]
        omega
      have hall : l.filter (fun x => n < key x) = l := by
        refine List.filter_eq_self.2 fun y hy => ?_
        have := hx y hy
        simp only [decide_eq_true_eq]
        omega
      rw [List.filter_cons_of_neg (by simpa using hn), List.filter_cons_of_pos (by simpa using hn), hnone, hall]
      rfl

def upTo (bs : Blocks) (height : Nat) : Blocks :=
  bs.filter fun b => b.height ≤ height

omit [ScriptParsing] in
theorem upTo_append {l l' : Blocks} {height : Nat} (hl : ∀ b ∈ l, b.height ≤ height)
    (hl' : ∀ b ∈ l', height < b.height) : upTo (l ++ l') height = l := by
  have hlow : l.filter (fun b => b.height ≤ height) = l := List.filter_eq_self.2 fun b hb => decide_eq_true (hl b hb)
  have hhigh : l'.filter (fun b => b.height ≤ height) = [] :=
    List.filter_eq_nil_iff.2 fun b hb => by simpa using hl' b hb
  rw [upTo, List.filter_append, hlow, hhigh, List.append_nil]

/-- A chain of blocks that never has more than the supply in its unspent outputs. -/
structure ValidBalances (bs : Blocks) : Prop extends ValidSpends bs where
  supply : ∀ height, totalOf (unspentIn (upTo bs height)) ≤ maxMoney

variable [MerkleHashing]

/-- The database has the blocks, however they were written. -/
def Written (net : Network) (bs : Blocks) (db : ZebraDb) : Prop :=
  ∃ ops, Run WriteStep { network := net } ops db ∧ ValidChain net (blocksOfCalls ops) ∧
    List.Forall₂ FinalizedAs bs (blocksOfCalls ops)

theorem Written.holdsBalances {db : ZebraDb} (h : Written net bs db) (hb : ∀ b ∈ bs, ListsOutputs b) :
    HoldsBalances net bs db := by
  obtain ⟨ops, hr, hv, hblocks⟩ := h
  obtain ⟨v, hd⟩ := describes_run hr (List.nil_append _ ▸ hv) describes_empty
  rw [List.nil_append] at hd
  intro a
  refine ⟨v a, addressBalanceLocation_eq (hd.values a), ?_, ?_⟩
  · rw [hd.balance, heldBy_eq hblocks hb]
  · rw [hd.received, saturatingAdd, Nat.zero_add, receivedBy_eq hblocks hb]

theorem Written.height_lt {db : ZebraDb} (h : Written net bs db) : ∀ b ∈ bs, b.height < Height.max := by
  obtain ⟨ops, -, hv, hblocks⟩ := h
  intro b hb
  obtain ⟨fb, hfb, hfinalized⟩ := exists_finalizedAs hblocks hb
  rw [← hfinalized.height]
  exact (hv.heightFits fb hfb).trans_lt (by decide)

variable [ChainHistory] {c : Chain} {f : Nat} {addresses : List Address}

/-- The blocks of the cached chain that are finalized, and those above the finalized tip. -/
def finalizedPart (c : Chain) (f : Nat) : Blocks := (blocksOf c).filter fun b => b.height ≤ f

def remainingPart (c : Chain) (f : Nat) : Blocks := (blocksOf c).filter fun b => f < b.height

/-- The balances stay in range while the finalized blocks are popped from the cached chain, and what
the other blocks pay to the addresses fits into a `u64`. -/
def BalanceReadable (net : Network) (c : Chain) (f : Nat) (addresses : List Address) : Prop :=
  remainingPart c f ≠ [] → RootRevertsFit net (finalizedPart c f) (remainingPart c f) ∧
    (addresses.map fun a => ((remainingPart c f).map fun b => paidBy net b a).sum).sum < 2 ^ 64

def latestHeight (chain : Option Chain) (f : Nat) : Nat := max f ((chain.bind (·.inner.maxBlockHeight)).getD 0)

variable {L : Lineage net} {root tip : Nat}

section

variable (hc : CoversHeights net bs c L root tip)
include hc

theorem CoversHeights.blocksOf_eq : blocksOf c = L.blocks := hc.refines.inner.map_snd_blocks

theorem chainTransparentBalanceChange_iff (hvalid : ValidSpends (F ++ remainingPart c f)) (hf : f < Height.max)
    (hle : root ≤ f + 1) (hftip : f < tip) (hne : remainingPart c f ≠ [])
    (hrange : ∀ S : List Address, S.IsPrefix addresses → negativeAllowed.Contains
      ((S.map (heldBy net (F ++ remainingPart c f))).sum - (S.map (heldBy net F)).sum))
    {x : Amount .negativeAllowed × Nat} : (chainTransparentBalanceChange c addresses (some f) : Exec ε _) = .ok x ↔
      RootRevertsFit net (finalizedPart c f) (remainingPart c f) ∧
      x.1.zatoshis = (addresses.map (heldBy net (F ++ remainingPart c f))).sum - (addresses.map (heldBy net F)).sum ∧
      (x.2 : Int) = (addresses.map fun a => ((remainingPart c f).map fun b => paidBy net b a).sum).sum ∧ x.2 < 2 ^ 64 := by
  set popped := L.records.filter fun r => r.block.height ≤ f with hpopped
  set rest := L.records.filter fun r => f < r.block.height with hrest
  have hrecords : L.records = popped ++ rest := (filter_le_append_filter_lt L.linked_records.ascending f).symm
  have hfin : finalizedPart c f = popped.map Record.block := by
    rw [finalizedPart, hc.blocksOf_eq, Lineage.blocks, List.filter_map]
    rfl
  have hrem : remainingPart c f = rest.map Record.block := by
    rw [remainingPart, hc.blocksOf_eq, Lineage.blocks, List.filter_map]
    rfl
  have hrestne : rest ≠ [] := fun hnil => hne (by rw [hrem, hnil]; rfl)
  have hlow : ∀ r ∈ popped, r.block.height < f + 1 := fun r hr =>
    Nat.lt_succ_of_le (of_decide_eq_true (List.mem_filter.1 hr).2)
  have hhigh : ∀ r ∈ rest, f + 1 ≤ r.block.height := fun r hr => of_decide_eq_true (List.mem_filter.1 hr).2
  have hstart : (chainTransparentBalanceChange c addresses (some f) : Exec ε _) =
      (c.popRootsBelow (f + 1) (f + 1 - root + 1) >>= fun c => c.partialTransparentBalanceChange addresses) := by
    rw [chainTransparentBalanceChange, requiredChainRoot_eq hf, ok_bind, hc.rootHeight, ok_bind, check,
      if_pos hle, pure_eq_ok, ok_bind, hc.tipHeight, ok_bind, if_neg (by omega)]
  have hlength : popped.length < f + 1 - root + 1 := by
    obtain ⟨r, rs, hr⟩ := List.exists_cons_of_ne_nil (l := L.records) (by simp [hrecords, hrestne])
    have hfirst : r.block.height = root := Except.ok.inj ((hc.refines.inner.rootHeight hr).symm.trans (hc.rootHeight (ε := ε)))
    have hlinked := L.linked_records
    have hheight : r.block.height = L.startHeight + L.past.length + 1 := (hr ▸ hlinked).1
    rw [hrecords] at hlinked
    cases hlast : popped.getLast? with
    | none => simp [List.getLast?_eq_none_iff.1 hlast]
    | some r' =>
      have hr' := Lineage.height_getLast? (linked_append.1 hlinked).1 hlast
      have := hlow r' (List.mem_of_getLast? hlast)
      omega
  obtain ⟨hfits, hpop⟩ := popRootsBelow_spec (ε := ε) hc.refines hrecords hrestne hlow hhigh hlength
  have hchange : ∀ c', (c.popRootsBelow (f + 1) (f + 1 - root + 1) : Exec ε _) = .ok c' →
      ((c'.partialTransparentBalanceChange addresses : Exec ε _) = .ok x ↔
        x.1.zatoshis = (addresses.map (heldBy net (F ++ remainingPart c f))).sum - (addresses.map (heldBy net F)).sum ∧
        (x.2 : Int) = (addresses.map fun a => ((remainingPart c f).map fun b => paidBy net b a).sum).sum ∧
        x.2 < 2 ^ 64) := by
    intro c' hc'
    obtain ⟨L', hL', hrecords'⟩ := hpop c' hc'
    have hblocks' : L'.blocks = remainingPart c f := by rw [Lineage.blocks, hrecords', hrem]
    have hlists : ∀ b ∈ remainingPart c f, ListsOutputs b := fun b hb =>
      hvalid.listsOutputs b (List.mem_append_right _ hb)
    have hholds := hL'.inner.transactions
    rw [hblocks'] at hholds
    have hindexable := hholds.indexable hlists
    have hbalance : ∀ S : List Address, (S.map (balance (blocksJournal net (remainingPart c f)))).sum =
        (S.map (heldBy net (F ++ remainingPart c f))).sum - (S.map (heldBy net F)).sum := by
      intro S
      have hpos : ∀ b ∈ remainingPart c f, 0 < b.height := fun b hb =>
        Nat.zero_lt_of_lt (of_decide_eq_true (List.mem_filter.1 hb).2)
      rw [← sum_map_sub]
      exact congrArg List.sum (List.map_congr_left fun a _ => balance_segment hvalid hpos hindexable)
    rw [partialTransparentBalanceChange_eq_ok hholds fun S hS => hbalance S ▸ hrange S hS, hbalance]
    have hgross : addresses.map (grossIn (blocksJournal net (remainingPart c f))) =
        addresses.map fun a => ((remainingPart c f).map fun b => paidBy net b a).sum :=
      List.map_congr_left fun a _ => grossIn_blocksJournal hlists hindexable
    rw [hgross]
  rw [hstart, bind_eq_ok, hfin, hrem, ← hfits, ← hrem]
  constructor
  · rintro ⟨c', hc', hx⟩
    exact ⟨⟨c', hc'⟩, (hchange c' hc').1 hx⟩
  · rintro ⟨⟨c', hc'⟩, hx⟩
    exact ⟨c', hc', (hchange c' hc').2 hx⟩

theorem CoversHeights.upTo_tip (hbs : ValidBlocks bs) (hle : root ≤ f + 1) :
    (remainingPart c f = [] → tip ≤ f) ∧
      (remainingPart c f ≠ [] → f < tip ∧ upTo bs tip = upTo bs f ++ remainingPart c f) := by
  have hmem : ∀ b, b ∈ remainingPart c f ↔ b ∈ L.blocks ∧ f < b.height := fun b => by
    rw [remainingPart, hc.blocksOf_eq, List.mem_filter, decide_eq_true_eq]
  refine ⟨fun hnil => ?_, fun hsome => ?_⟩
  · by_contra hnot
    have htip := hc.refines.inner.blocks.mem_iff.1 (hc.mem_blocks tip (by omega) le_rfl)
    obtain ⟨b, hb, rfl⟩ : ∃ b ∈ L.blocks, b.height = tip := by simpa using htip
    exact List.not_mem_nil (hnil ▸ (hmem b).2 ⟨hb, Nat.not_le.1 hnot⟩)
  · obtain ⟨b, hb⟩ := List.exists_mem_of_ne_nil _ hsome
    obtain ⟨hb, hbf⟩ := (hmem b).1 hb
    have hftip : f < tip := hbf.trans_le ((hc.mem_iff b (hc.contiguous.subset hb)).1 hb).2
    have hasc : (upTo bs tip).Pairwise fun b b' => b.height < b'.height := hbs.ascending.sublist List.filter_sublist
    -- both lists have the blocks above the finalized tip in the order of the chain
    have hrest : (upTo bs tip).filter (fun b => f < b.height) = remainingPart c f := by
      refine @List.Perm.eq_of_pairwise _ (fun b b' => b.height < b'.height) _ _ (fun b b' _ _ h h' => by omega)
        (hasc.sublist List.filter_sublist) (hbs.ascending.sublist ?_) ((List.perm_ext_iff_of_nodup ?_ ?_).2 fun b => ?_)
      · exact List.filter_sublist.trans (hc.blocksOf_eq ▸ hc.contiguous.sublist)
      · exact (hbs.heights_nodup.of_map.filter _).filter _
      · exact (hc.blocksOf_eq ▸ hbs.heights_nodup.of_map.sublist hc.contiguous.sublist : (blocksOf c).Nodup).filter _
      · rw [hmem, List.mem_filter, upTo, List.mem_filter, decide_eq_true_eq, decide_eq_true_eq]
        constructor
        · rintro ⟨⟨hb, htip⟩, hbf⟩
          exact ⟨(hc.mem_iff b hb).2 ⟨by omega, htip⟩, hbf⟩
        · rintro ⟨hb, hbf⟩
          have hbs := hc.contiguous.subset hb
          exact ⟨⟨hbs, ((hc.mem_iff b hbs).1 hb).2⟩, hbf⟩
    have hbelow : (upTo bs tip).filter (fun b => b.height ≤ f) = upTo bs f := by
      rw [upTo, List.filter_filter]
      refine List.filter_congr fun b _ => ?_
      rw [← Bool.decide_and, decide_eq_decide]
      omega
    refine ⟨hftip, ?_⟩
    rw [← filter_le_append_filter_lt hasc f, hbelow, hrest]

theorem chainTransparentBalanceChange_finalized (hroot : root ≤ f + 1)
    (hf : f < Height.max) (hle : tip ≤ f) :
    (chainTransparentBalanceChange c addresses (some f) : Exec ε _) = .ok (.zero, 0) := by
  rw [chainTransparentBalanceChange, requiredChainRoot_eq hf, ok_bind, hc.rootHeight, ok_bind, check,
    if_pos hroot, pure_eq_ok, ok_bind, hc.tipHeight, ok_bind, if_pos (Nat.lt_succ_of_le hle)]

end

omit [MerkleHashing] [ChainHistory] in
theorem receivedBy_append {rest : Blocks} (hpos : ∀ b ∈ rest, 0 < b.height) {a : Address} :
    receivedBy net (F ++ rest) a = receivedBy net F a + (rest.map fun b => paidBy net b a).sum := by
  induction rest using List.reverseRecOn with
  | nil => simp
  | append_singleton rest b ih =>
    have hb : b ∈ rest ++ [b] := by simp
    rw [← List.append_assoc, receivedBy, chainOutputs_concat (hpos b hb), List.map_append, totalTo_append,
      List.map_append, List.sum_append, List.map_singleton, List.sum_singleton, ← add_assoc,
      ← ih fun b' hb' => hpos b' (List.mem_append_left _ hb')]
    rfl

theorem transparent_balance_exact (hbs : ValidBalances bs) (hf : ∃ b ∈ bs, b.height = f) {db : ZebraDb}
    (hdb : Written net (upTo bs f) db) (htip : db.finalizedTipHeight = some f) {chain : Option Chain}
    (hchain : ∀ c ∈ chain, SegmentOf net bs f c) (hd : addresses.Nodup) :
    (∃ balance received, transparentBalance chain (fun _ => .of db) addresses = .ok (balance, received) ∧
      balance.zatoshis = (addresses.map (heldBy net (upTo bs (latestHeight chain f)))).sum ∧
      received = min (addresses.map (receivedBy net (upTo bs (latestHeight chain f)))).sum.toNat (2 ^ 64 - 1)) ↔
    ∀ c ∈ chain, BalanceReadable net c f addresses := by
  have hlists : ∀ b ∈ upTo bs f, ListsOutputs b := fun b hb => hbs.listsOutputs b (List.mem_of_mem_filter hb)
  have hsum : (addresses.map (heldBy net (upTo bs f))).sum ≤ maxMoney := (sum_heldBy_le hd).trans (hbs.supply f)
  obtain ⟨balance, hfold, hbalance⟩ := foldlM_addFinalizedBalance (hdb.holdsBalances hlists)
    (by decide : ((Amount.zero, 0) : Amount .nonNegative × Nat).2 < 2 ^ 64) (by simpa using hsum)
  have hfinalized : retry (finalizedTransparentBalance addresses) finalizedStateQueryRetries (fun _ => .of db) =
      .ok ((balance, saturatingAdd 0 (addresses.map (receivedBy net (upTo bs f))).sum.toNat), some f) := by
    refine retry_eq_ok ?_ _
    have hsame : ¬ (FinalizedRead.of db).before.tip ≠ (FinalizedRead.of db).after.tip := fun h => h rfl
    have htip' : (FinalizedRead.of db).after.finalizedTipHeight = some f := htip
    rw [finalizedTransparentBalance, ZebraDb.partialFinalizedTransparentBalance]
    have hfold' : addresses.foldlM (fun sum a => ((FinalizedRead.of db).during a).addFinalizedBalance sum a) (.zero, 0) =
      (.ok (balance, saturatingAdd 0 (addresses.map (receivedBy net (upTo bs f))).sum.toNat) : Exec BalanceError _) := hfold
    rw [hfold', ok_bind, if_neg hsame, htip']
    rfl
  rw [Amount.zatoshis_zero, zero_add] at hbalance
  have hheight : f < Height.max := by
    obtain ⟨b, hb, rfl⟩ := hf
    exact hdb.height_lt b (List.mem_filter.2 ⟨hb, decide_eq_true le_rfl⟩)
  rw [transparentBalance, hfinalized, ok_bind]
  cases chain with
  | none =>
    have hlatest : latestHeight none f = f := Nat.max_zero f
    rw [hlatest]
    exact iff_of_true ⟨balance, _, rfl, hbalance, by rw [saturatingAdd, Nat.zero_add]⟩ (by simp)
  | some c =>
    obtain ⟨L, root, tip, hc, hle⟩ := (hchain c rfl).exists_coversHeights hbs.toValidBlocks
    obtain ⟨hlow, hhigh⟩ := hc.upTo_tip hbs.toValidBlocks hle
    have hmax : c.inner.maxBlockHeight = some tip := expect_eq_ok.1 (hc.tipHeight (ε := String))
    have hlatest : latestHeight (some c) f = max f tip := by simp [latestHeight, hmax]
    simp only [Option.mem_some_iff, forall_eq', bind_eq_ok, lift_eq_ok, applyBalanceChange_eq_ok, hlatest]
    by_cases hrem : remainingPart c f = []
    · rw [Nat.max_eq_left (hlow hrem)]
      refine iff_of_true ⟨balance, _, ⟨_, chainTransparentBalanceChange_finalized hc hle hheight (hlow hrem),
        (add_zero _).symm, rfl⟩, hbalance, ?_⟩ fun hne => absurd hrem hne
      simp only [saturatingAdd]
      omega
    · obtain ⟨hftip, htipBlocks⟩ := hhigh hrem
      have hvalid : ValidSpends (upTo bs f ++ remainingPart c f) := by
        have hall := hbs.toValidSpends
        rw [← filter_le_append_filter_lt hbs.ascending tip] at hall
        exact htipBlocks ▸ hall.of_append
      have hheld : ∀ (S : List Address) (height : Nat), S.Nodup → 0 ≤ (S.map (heldBy net (upTo bs height))).sum ∧
          (S.map (heldBy net (upTo bs height))).sum ≤ maxMoney := fun S height hS =>
        ⟨sum_map_nonneg fun _ => heldBy_nonneg, (sum_heldBy_le hS).trans (hbs.supply height)⟩
      have hrange : ∀ S : List Address, S.IsPrefix addresses → negativeAllowed.Contains
          ((S.map (heldBy net (upTo bs f ++ remainingPart c f))).sum - (S.map (heldBy net (upTo bs f))).sum) := by
        intro S hS
        have hnodup := hS.sublist.nodup hd
        have hbefore := hheld S f hnodup
        have hafter := hheld S tip hnodup
        rw [← htipBlocks, Constraint.Contains, lower, upper]
        omega
      have hchange := fun x => chainTransparentBalanceChange_iff (ε := BalanceError) hc hvalid hheight hle hftip hrem hrange (x := x)
      rw [Nat.max_eq_right hftip.le, htipBlocks]
      have hpos : ∀ b ∈ remainingPart c f, 0 < b.height := fun b hb =>
        Nat.zero_lt_of_lt (of_decide_eq_true (List.mem_filter.1 hb).2)
      have hreceived : (addresses.map (receivedBy net (upTo bs f ++ remainingPart c f))).sum =
          (addresses.map (receivedBy net (upTo bs f))).sum +
            (addresses.map fun a => ((remainingPart c f).map fun b => paidBy net b a).sum).sum := by
        rw [← List.sum_map_add]
        exact congrArg List.sum (List.map_congr_left fun a _ => receivedBy_append hpos)
      constructor
      · rintro ⟨balance', received', ⟨x, hx, -⟩, -⟩ -
        obtain ⟨hfit, -, hpaid, hlt⟩ := (hchange x).1 hx
        exact ⟨hfit, by omega⟩
      · intro hreadable
        obtain ⟨hfit, hlt⟩ := hreadable hrem
        have hpaid : 0 ≤ (addresses.map fun a => ((remainingPart c f).map fun b => paidBy net b a).sum).sum :=
          sum_map_nonneg fun a => sum_map_nonneg fun b => totalTo_nonneg
        have hold : 0 ≤ (addresses.map (receivedBy net (upTo bs f))).sum := sum_map_nonneg fun _ => receivedBy_nonneg
        have htotal := hheld addresses tip hd
        rw [htipBlocks] at htotal
        refine ⟨⟨_, htotal⟩, _, ⟨(⟨_, hrange addresses List.prefix_rfl⟩, Int.toNat _), (hchange _).2 ⟨hfit, rfl,
          Int.toNat_of_nonneg hpaid, ?_⟩, ?_, rfl⟩, rfl, ?_⟩
        · rw [Int.toNat_lt hpaid]
          exact hlt
        · dsimp only
          omega
        · rw [hreceived, Int.toNat_add hold hpaid]
          simp only [saturatingAdd]
          omega

end

section

open Sample

/-! A coinbase transaction pays the Sapling pool, the money goes to address 1, address 1 pays it to
itself, and then to address 2. -/

def shieldedBlock (v : Amount .nonNegative) : ContextuallyVerifiedBlock :=
  let coinbase : Transaction := .V5 [.coinbase 1] [] (some ⟨v.widen.neg, .justOutputs ⟨[7], seven_ne_nil⟩⟩) none
  let block : Block := ⟨⟨7, 0, 0, 0, 0x200f0f0f⟩, [coinbase], 1000, 0⟩
  contextualBlock
    { block, hash := 8, height := 1, newOutputs := ∅, transactionHashes := [300], deferredPoolBalanceChange := none } []

def unshieldedBlock (v : Amount .nonNegative) : ContextuallyVerifiedBlock :=
  contextualBlock (semanticBlock 2 9 8
    [(301, .V5 [] [pay v 1] (some ⟨v.widen, .justOutputs ⟨[7], seven_ne_nil⟩⟩) none)]) []

def keptBlock (v : Amount .nonNegative) : ContextuallyVerifiedBlock :=
  contextualBlock (semanticBlock 3 10 9 [(302, .V5 [.prevOut ⟨301, 0⟩] [pay v 1] none none)])
    [(⟨301, 0⟩, ⟨⟨pay v 1, 2, false⟩, 1⟩)]

def passedBlock (v : Amount .nonNegative) : ContextuallyVerifiedBlock :=
  contextualBlock (semanticBlock 4 11 10 [(303, .V5 [.prevOut ⟨302, 0⟩] [pay v 2] none none)])
    [(⟨302, 0⟩, ⟨⟨pay v 1, 3, false⟩, 1⟩)]

def finalizedFlow (v : Amount .nonNegative) : Blocks :=
  [contextualBlock (semanticBlock 0 7 genesisPreviousBlockHash []) [], shieldedBlock v, unshieldedBlock v, keptBlock v]

def flow (v : Amount .nonNegative) : Blocks := finalizedFlow v ++ [passedBlock v]

def flowAmounts : List (Amount .nonNegative) := [⟨100, hundred_valid⟩, elevenMillion]

theorem flow_blocks : ∀ v ∈ flowAmounts, ValidSpends (flow v) ∧
    (∀ bs ∈ (flow v).inits, totalOf (unspentIn bs) ≤ maxMoney) ∧
    PassesTotals ((finalizedFlow v).map fun b => .fromContextuallyVerified b emptyTreestate) ∧
    (∀ b ∈ finalizedFlow v, b.height ≤ 3) ∧ 3 < (passedBlock v).height := by
  decide +kernel

theorem flow_valid : ∀ v ∈ flowAmounts, ValidBalances (flow v) := by
  intro v hv
  obtain ⟨hspends, htotals, -⟩ := flow_blocks v hv
  refine ⟨hspends, fun height => htotals _ ((List.mem_inits _ _).2 ?_)⟩
  exact ⟨_, filter_le_append_filter_lt hspends.ascending height⟩

theorem flow_upTo : ∀ v ∈ flowAmounts, upTo (flow v) 3 = finalizedFlow v := by
  intro v hv
  obtain ⟨-, -, -, hbelow, habove⟩ := flow_blocks v hv
  exact upTo_append hbelow fun b hb => List.mem_singleton.1 hb ▸ habove

def writeFlow (bs : Blocks) (db : ZebraDb) : Validated ZebraDb :=
  bs.foldlM (fun db b => db.writeBlock false (.fromContextuallyVerified b emptyTreestate) none) db

def flowCall (b : ContextuallyVerifiedBlock) : Option WriteCall :=
  some ⟨false, .fromContextuallyVerified b emptyTreestate, none⟩

theorem run_writeFlow {bs : Blocks} {db db' : ZebraDb} (h : writeFlow bs db = .ok db') :
    Run WriteStep db (bs.map flowCall) db' := by
  induction bs generalizing db with
  | nil =>
    obtain rfl := Except.ok.inj h
    exact .nil db
  | cons b bs ih =>
    obtain ⟨db₁, h₁, h⟩ := bind_eq_ok.1 h
    exact .cons (.block h₁) (ih h)

theorem blocksOfCalls_flow (bs : Blocks) :
    blocksOfCalls (bs.map flowCall) = bs.map fun b => .fromContextuallyVerified b emptyTreestate := by
  induction bs with
  | nil => rfl
  | cons b bs ih => rw [List.map_cons, List.map_cons, ← ih]; rfl

theorem flow_written_take (hv : v ∈ flowAmounts) {n : Nat} {db : ZebraDb}
    (hdb : writeFlow ((finalizedFlow v).take n) { network := network } = .ok db) :
    Written network ((finalizedFlow v).take n) db := by
  refine ⟨_, run_writeFlow hdb, ?_, ?_⟩
  · rw [blocksOfCalls_flow, List.map_take]
    have hall : ValidChain network _ := (flow_blocks v hv).2.2.1.validChain
    rw [← List.take_append_drop n ((finalizedFlow v).map _)] at hall
    exact hall.of_append
  · rw [blocksOfCalls_flow, List.forall₂_map_right_iff]
    exact List.forall₂_same.2 fun b _ => ⟨rfl, rfl, rfl, rfl⟩

theorem flow_written (hv : v ∈ flowAmounts) {db : ZebraDb}
    (hdb : writeFlow (finalizedFlow v) { network := network } = .ok db) : Written network (finalizedFlow v) db :=
  flow_written_take (n := 4) hv hdb

def flowStart (v : Amount .nonNegative) : Snapshot :=
  ⟨.empty, .empty, .empty, some ⟨network, .nu6, 1, ∅, 2⟩, ⟨v, .zero, .zero, .zero, .zero⟩⟩

def flowChain (v : Amount .nonNegative) : Validated Chain :=
  Chain.new network 2 (flowStart v).sprout (flowStart v).sapling (flowStart v).orchard (flowStart v).history (flowStart v).pools

theorem flow_run : ∀ v ∈ flowAmounts, ∃ db c₀ c, writeFlow (finalizedFlow v) { network := network } = .ok db ∧
    db.finalizedTipHeight = some 3 ∧ flowChain v = .ok c₀ ∧ Run Chain.Step c₀ [.push (keptBlock v), .push (passedBlock v)] c ∧
    blocksOf c = [keptBlock v, passedBlock v] ∧ SegmentOf network (flow v) 2 c ∧ c.inner.maxBlockHeight = some 4 ∧
    (v = elevenMillion → transparentBalance (some c) (fun _ => .of db) payees = .panic .balanceUnderflow) := by
  intro v hv
  have heval : ∀ v ∈ flowAmounts, ∃ db ∈ (writeFlow (finalizedFlow v) { network := network }).toOption,
      db.finalizedTipHeight = some 3 ∧ ∃ c₀ ∈ (flowChain v).toOption,
      ∃ c ∈ c₀.performAll [.push (keptBlock v), .push (passedBlock v)],
        (c.inner.nonFinalizedRootHeight : Exec String _) = .ok 3 ∧ c.inner.maxBlockHeight = some 4 ∧
        (v = elevenMillion →
          (fun _ => ()) <$> transparentBalance (some c) (fun _ => .of db) payees = .panic .balanceUnderflow) := by
    decide +kernel
  obtain ⟨db, hdb, hstop, c₀, hnew, c, hrun, hroot, htip, hpanic⟩ := heval v hv
  have hnew := toOption_eq_some.1 hnew
  have hrun := Chain.run_iff_performAll.2 hrun
  have hc : blocksOf c = [keptBlock v, passedBlock v] :=
    blocks_of_pushes [keptBlock v, passedBlock v] collisionFree (by decide) (flowStart v) hnew hrun
  refine ⟨db, c₀, c, toOption_eq_some.1 hdb, hstop, hnew, hrun, hc,
    ⟨⟨2, flowStart v, c₀, _, by decide, hnew, hrun⟩, ?_, 3, hroot, by decide⟩, htip,
    fun heq => map_eq_panic.1 (hpanic heq)⟩
  change (blocksOf c).IsInfix (flow v)
  rw [hc]
  exact ⟨[_, shieldedBlock v, unshieldedBlock v], [], rfl⟩

theorem SegmentOf.mono {net : Network} {bs : Blocks} {c : Chain} {t t' : Nat} (h : SegmentOf net bs t c)
    (hle : t ≤ t') : SegmentOf net bs t' c := by
  obtain ⟨root, hroot, hroot'⟩ := h.root
  exact { h with root := ⟨root, hroot, by omega⟩ }

theorem flow_balance : ∃ db c₀ c balance received, writeFlow (finalizedFlow ⟨100, by decide⟩) { network := network } = .ok db ∧
    flowChain ⟨100, by decide⟩ = .ok c₀ ∧
    Run Chain.Step c₀ [.push (keptBlock ⟨100, by decide⟩), .push (passedBlock ⟨100, by decide⟩)] c ∧
    transparentBalance (some c) (fun _ => .of db) payees = .ok (balance, received) ∧
    balance.zatoshis = 100 ∧ received = 300 := by
  have hv : (⟨100, by decide⟩ : Amount .nonNegative) ∈ flowAmounts := List.mem_cons_self
  obtain ⟨db, c₀, c, hdb, htip, hnew, hrun, hc, hsegment, hmax, -⟩ := flow_run _ hv
  have hreadable : BalanceReadable network c 3 payees := by
    rw [BalanceReadable, remainingPart, finalizedPart, hc]
    decide +kernel
  obtain ⟨balance, received, hok, hbalance, hreceived⟩ := (transparent_balance_exact (flow_valid _ hv)
    ⟨keptBlock ⟨100, by decide⟩, by simp [flow, finalizedFlow], by decide +kernel⟩ (flow_upTo _ hv ▸ flow_written hv hdb) htip
    (fun c' hc' => Option.mem_some_iff.1 hc' ▸ hsegment.mono (by decide)) (by decide)).2
    (fun c' hc' => Option.mem_some_iff.1 hc' ▸ hreadable)
  have hlatest : latestHeight (some c) 3 = 4 := by simp [latestHeight, hmax]
  rw [hlatest] at hbalance hreceived
  refine ⟨db, c₀, c, balance, received, hdb, hnew, hrun, hok, hbalance.trans ?_, hreceived.trans ?_⟩
  · decide +kernel
  · decide +kernel

/-- Address 1 had more than half of the supply when it paid itself, and then it paid everything to
address 2. The payment to itself cannot be reverted any more. -/
theorem reverted_self_payment_overflows : ValidBalances (flow elevenMillion) ∧
    ∃ db c₀ c, Written network (upTo (flow elevenMillion) 3) db ∧ db.finalizedTipHeight = some 3 ∧
      flowChain elevenMillion = .ok c₀ ∧
      Run Chain.Step c₀ [.push (keptBlock elevenMillion), .push (passedBlock elevenMillion)] c ∧
      SegmentOf network (flow elevenMillion) 3 c ∧
      transparentBalance (some c) (fun _ => .of db) payees = .panic .balanceUnderflow := by
  have hv : elevenMillion ∈ flowAmounts := by simp [flowAmounts]
  obtain ⟨db, c₀, c, hdb, htip, hnew, hrun, -, hsegment, -, hpanic⟩ := flow_run _ hv
  exact ⟨flow_valid _ hv, db, c₀, c, flow_upTo _ hv ▸ flow_written hv hdb, htip, hnew, hrun, hsegment.mono (by decide),
    hpanic rfl⟩

end

end Zebra.Properties
