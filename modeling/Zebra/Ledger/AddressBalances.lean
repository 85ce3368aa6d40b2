import Mathlib.Algebra.BigOperators.Ring.Finset
import Zebra.Ledger.AddressFlows
import Zebra.State.Read.AddressBalance

namespace Zebra.Ledger

open Lib Lib.RunningTotal Std Read Outcome

variable {r : Nat} {t : TransparentTransfers} {c : Chain}

section

variable {ε α : Type}

theorem addU64_eq_ok {a b c : Nat} : (addU64 a b : Exec ε Nat) = .ok c ↔ c = a + b ∧ c < 2 ^ 64 := by
  rw [addU64, check_bind_eq_ok, pure_eq_ok, Except.ok.injEq]
  constructor
  · rintro ⟨hlt, rfl⟩
    exact ⟨rfl, hlt⟩
  · rintro ⟨rfl, hlt⟩
    exact ⟨hlt, rfl⟩

theorem foldlM_addU64 {f : α → Nat} {l : List α} {s : Nat} (hs : s < 2 ^ 64) :
    (l.foldlM (fun s x => addU64 s (f x)) s : Exec ε Nat) = .ok r ↔ r = s + (l.map f).sum ∧ r < 2 ^ 64 := by
  induction l generalizing s with
  | nil =>
    rw [List.foldlM_nil, pure_eq_ok, Except.ok.injEq, List.map_nil, List.sum_nil, Nat.add_zero]
    constructor
    · rintro rfl
      exact ⟨rfl, hs⟩
    · exact fun h => h.1.symm
  | cons x l ih =>
    rw [List.foldlM_cons, bind_eq_ok, List.map_cons, List.sum_cons]
    simp only [addU64_eq_ok]
    constructor
    · rintro ⟨s', ⟨rfl, hs'⟩, hr⟩
      obtain ⟨rfl, hr⟩ := (ih hs').1 hr
      exact ⟨Nat.add_assoc _ _ _, hr⟩
    · rintro ⟨rfl, hr⟩
      have hs' : s + f x < 2 ^ 64 := by omega
      exact ⟨_, ⟨rfl, hs'⟩, (ih hs').2 ⟨(Nat.add_assoc _ _ _).symm, hr⟩⟩

def grossOf (t : TransparentTransfers) : Nat := (t.createdUtxos.toList.map fun x => x.2.value.zatoshis.toNat).sum

theorem received_eq_ok : (t.received : Exec ε Nat) = .ok r ↔ r = grossOf t ∧ r < 2 ^ 64 := by
  rw [TransparentTransfers.received, foldlM_addU64 (by decide), Nat.zero_add]
  rfl

theorem addBalanceChange_eq_ok {sum sum' : Except AmountError (Amount .negativeAllowed) × Nat} :
    (Chain.addBalanceChange sum t : Exec ε _) = .ok sum' ↔
      sum'.1 = (sum.1 >>= fun balance => balance.add t.balance) ∧ sum'.2 = sum.2 + grossOf t ∧ sum'.2 < 2 ^ 64 := by
  simp only [Chain.addBalanceChange, bind_eq_ok, pure_eq_ok, Except.ok.injEq, received_eq_ok, addU64_eq_ok]
  constructor
  · rintro ⟨r, ⟨rfl, -⟩, r', ⟨rfl, hlt⟩, rfl⟩
    exact ⟨rfl, rfl, hlt⟩
  · obtain ⟨balance, received⟩ := sum'
    rintro ⟨rfl, rfl, hlt⟩
    dsimp only at hlt
    exact ⟨_, ⟨rfl, by omega⟩, _, ⟨rfl, hlt⟩, rfl⟩

theorem foldlM_addBalanceChange {ts : List TransparentTransfers} {balance : Amount .negativeAllowed} {received : Nat}
    (hs : received < 2 ^ 64) (hrange : ∀ ts' : List TransparentTransfers, ts'.IsPrefix ts →
      Constraint.negativeAllowed.Contains (balance.zatoshis + (ts'.map fun t => t.balance.zatoshis).sum))
    {x : Except AmountError (Amount .negativeAllowed) × Nat} :
    (ts.foldlM Chain.addBalanceChange (.ok balance, received) : Exec ε _) = .ok x ↔
      (∃ balance', x.1 = .ok balance' ∧ balance'.zatoshis = balance.zatoshis + (ts.map fun t => t.balance.zatoshis).sum) ∧
        x.2 = received + (ts.map grossOf).sum ∧ x.2 < 2 ^ 64 := by
  induction ts generalizing balance received with
  | nil =>
    rw [List.foldlM_nil, pure_eq_ok, Except.ok.injEq]
    constructor
    · rintro rfl
      exact ⟨⟨balance, rfl, by simp⟩, by simp, hs⟩
    · rintro ⟨⟨balance', hx, hbalance⟩, hx', -⟩
      obtain rfl : balance = balance' := Amount.ext (by simpa using hbalance.symm)
      exact Prod.ext hx.symm (by simpa using hx'.symm)
  | cons t ts ih =>
    obtain ⟨next, hadd, hnext⟩ : ∃ next, balance.add t.balance = .ok next ∧
        next.zatoshis = balance.zatoshis + t.balance.zatoshis := by
      have hfirst := hrange [t] (by simp)
      rw [List.map_singleton, List.sum_singleton] at hfirst
      exact ⟨⟨_, hfirst⟩, Amount.add_eq_ok.2 rfl, rfl⟩
    have hrest : ∀ ts' : List TransparentTransfers, ts'.IsPrefix ts →
        Constraint.negativeAllowed.Contains (next.zatoshis + (ts'.map fun t => t.balance.zatoshis).sum) := by
      intro ts' hts'
      have h := hrange (t :: ts') ((List.prefix_cons_inj t).2 hts')
      rwa [List.map_cons, List.sum_cons, ← add_assoc, ← hnext] at h
    rw [List.foldlM_cons, bind_eq_ok, List.map_cons, List.sum_cons, List.map_cons, List.sum_cons]
    simp only [addBalanceChange_eq_ok, Prod.exists]
    constructor
    · rintro ⟨b, r, ⟨hb, hr, hlt⟩, hfold⟩
      obtain rfl : b = .ok next := hb.trans hadd
      obtain ⟨⟨balance', hx, hbalance⟩, hx', hlt'⟩ := (ih hlt hrest).1 hfold
      exact ⟨⟨balance', hx, by rw [hbalance, hnext, add_assoc]⟩, by rw [hx', hr, Nat.add_assoc], hlt'⟩
    · rintro ⟨⟨balance', hx, hbalance⟩, hx', hlt'⟩
      have hlt : received + grossOf t < 2 ^ 64 := by omega
      refine ⟨.ok next, _, ⟨hadd.symm, rfl, hlt⟩, (ih hlt hrest).2 ⟨⟨balance', hx, ?_⟩, ?_, hlt'⟩⟩
      · rw [hbalance, hnext, add_assoc]
      · rw [hx', Nat.add_assoc]

theorem requiredChainRoot_eq {f : Nat} (hf : f < Height.max) : (requiredChainRoot (some f) : Exec ε Nat) = .ok (f + 1) := by
  rw [requiredChainRoot, expect_eq_ok, Height.next_eq_some]
  exact ⟨rfl, hf⟩

theorem applyBalanceChange_eq_ok {finalized result : Amount .nonNegative × Nat} {change : Amount .negativeAllowed × Nat} :
    applyBalanceChange finalized change = .ok result ↔
      result.1.zatoshis = finalized.1.zatoshis + change.1.zatoshis ∧ result.2 = saturatingAdd finalized.2 change.2 := by
  simp only [applyBalanceChange, bind_eq_ok, Amount.constrain_eq_ok, Amount.add_eq_ok]
  constructor
  · rintro ⟨balance, hbalance, sum, hsum, total, htotal, heq⟩
    cases heq
    exact ⟨by rw [htotal, hsum, hbalance], rfl⟩
  · obtain ⟨balance, received⟩ := result
    rintro ⟨hbalance, rfl⟩
    exact ⟨finalized.1.widen, rfl, balance.widen, hbalance, balance, rfl, rfl⟩

theorem retry_eq_ok {query : FinalizedRead → Exec ε α} {reads : Nat → FinalizedRead} {x : α}
    (h : query (reads 0) = .ok x) (n : Nat) : retry query n reads = .ok x := by
  cases n with
  | zero => exact h
  | succ n => rw [retry, h]

end

section

variable {a : Address} {idx : TxIndexes} {J : Multiset Entry}

def grossIn (J : Multiset Entry) (a : Address) : Int :=
  ((J.filterMap (Entry.receivedUtxo? a)).map fun x => x.2.utxo.output.value.zatoshis).sum

theorem grossIn_add (es : List Entry) : grossIn ((es : Multiset Entry) + J) a = gains (deltas es) a + grossIn J a := by
  rw [grossIn, Multiset.filterMap_add, Multiset.map_add, Multiset.sum_add, Multiset.filterMap_coe, Multiset.map_coe,
    Multiset.sum_coe, gains_deltas]
  rfl

theorem filterMap_received? : (TransfersOf J a).filterMap Transfer.received? =
    (J.filterMap (Entry.receivedUtxo? a)).map utxoEntry := by
  have hentry : ∀ e : Entry, (e.transfer? a).bind Transfer.received? = (e.receivedUtxo? a).map utxoEntry := by
    intro e
    cases e with
    | transfer a' t =>
      cases t with
      | received o u =>
        rw [Entry.transfer?, Entry.receivedUtxo?]
        split <;> rfl
      | sent o u txId =>
        rw [Entry.transfer?]
        split <;> rfl
    | _ => rfl
  rw [TransfersOf, Multiset.filterMap_filterMap, Multiset.map_filterMap]
  exact congrArg (Multiset.filterMap · J) (funext hentry)

theorem grossOf_eq (h : Holds idx J) :
    (grossOf (idx.partialTransparentTransfers.getD a .default) : Int) = grossIn J a := by
  have hlist := (KeyedMap.indexes_toList _).multiset_eq (h.transfers.represents a).created
  rw [filterMap_received?] at hlist
  have hsum := congrArg (fun s => (s.map fun x => x.2.value.zatoshis).sum) hlist
  simp only [Multiset.map_coe, Multiset.sum_coe, Multiset.map_map] at hsum
  rw [grossIn, grossOf, Nat.cast_list_sum, List.map_map]
  refine Eq.trans (congrArg List.sum (List.map_congr_left fun x _ => ?_)) hsum
  exact Int.toNat_of_nonneg (value_nonneg _)

theorem sum_partialTransparentIndexes {M : Type} [AddCommMonoid M] {g : TransparentTransfers → M}
    (hg : g .default = 0) (addresses : List Address) : ((c.partialTransparentIndexes addresses).map g).sum =
      (addresses.map fun a => g (c.inner.partialTransparentTransfers.getD a .default)).sum := by
  induction addresses with
  | nil => rfl
  | cons a addresses ih =>
    rw [Chain.partialTransparentIndexes, List.filterMap_cons, List.map_cons, List.sum_cons, ← ih,
      ExtTreeMap.getD_eq_getD_getElem?]
    cases c.inner.partialTransparentTransfers[a]? with
    | none => rw [Option.getD_none, hg, zero_add]; rfl
    | some t => rfl

theorem partialTransparentBalanceChange_eq_ok {ε : Type} (h : Holds c.inner.toTxIndexes J) {addresses : List Address}
    (hrange : ∀ S : List Address, S.IsPrefix addresses → Constraint.negativeAllowed.Contains (S.map (balance J)).sum)
    {x : Amount .negativeAllowed × Nat} : (c.partialTransparentBalanceChange addresses : Exec ε _) = .ok x ↔
      x.1.zatoshis = (addresses.map (balance J)).sum ∧ (x.2 : Int) = (addresses.map (grossIn J)).sum ∧ x.2 < 2 ^ 64 := by
  have hbalance : ∀ S : List Address, ((c.partialTransparentIndexes S).map fun t => t.balance.zatoshis).sum =
      (S.map (balance J)).sum := by
    intro S
    rw [sum_partialTransparentIndexes rfl]
    exact congrArg List.sum (List.map_congr_left fun a _ => (h.transfers.represents a).balance)
  have hgross : (((c.partialTransparentIndexes addresses).map grossOf).sum : Int) = (addresses.map (grossIn J)).sum := by
    rw [sum_partialTransparentIndexes rfl, Nat.cast_list_sum, List.map_map]
    exact congrArg List.sum (List.map_congr_left fun a _ => grossOf_eq h)
  have hfold := @foldlM_addBalanceChange ε (c.partialTransparentIndexes addresses) .zero 0 (by decide) ?_
  · simp only [Chain.partialTransparentBalanceChange, bind_eq_ok, pure_eq_ok, Except.ok.injEq,
      unwrap_eq_ok, hfold, Amount.zatoshis_zero, zero_add, hbalance]
    constructor
    · rintro ⟨⟨r, received⟩, ⟨⟨balance', rfl, hb⟩, rfl, hlt⟩, _, hok, rfl⟩
      cases hok
      exact ⟨hb, hgross, hlt⟩
    · obtain ⟨balance', received⟩ := x
      rintro ⟨hb, hr, hlt⟩
      rw [← hgross, Nat.cast_inj] at hr
      exact ⟨(.ok balance', received), ⟨⟨balance', rfl, hb⟩, hr, hlt⟩, balance', rfl, rfl⟩
  · intro ts' hts'
    obtain ⟨rest, hrest⟩ := hts'
    obtain ⟨S, S', rfl, rfl, -⟩ := List.filterMap_eq_append_iff.1 hrest.symm
    rw [Amount.zatoshis_zero, zero_add]
    exact hbalance S ▸ hrange S (List.prefix_append _ _)

variable [ScriptParsing] {net : Network} {bs : Blocks}

theorem grossIn_blocksJournal (hb : ∀ b ∈ bs, ListsOutputs b) (hi : ∀ b ∈ bs, Indexable b) :
    grossIn (blocksJournal net bs) a = (bs.map fun b => paidBy net b a).sum := by
  induction bs with
  | nil => rfl
  | cons b bs ih =>
    rw [List.forall_mem_cons] at hb hi
    have hcons : blocksJournal net (b :: bs) = (journal net b : List Entry) + blocksJournal net bs := by
      simp [blocksJournal]
    rw [hcons, grossIn_add, gains_journal hb.1 hi.1, ih hb.2 hi.2, List.map_cons, List.sum_cons]

/-- The balances stay in range while the blocks `popped` are reverted at the root of a chain, up to
the blocks `rest`. -/
def RootRevertsFit (net : Network) : Blocks → Blocks → Prop
  | [], _ => True
  | b :: popped, rest => RevertFits net (b :: (popped ++ rest)) b ∧ RootRevertsFit net popped rest

instance decidableRootRevertsFit (net : Network) :
    (popped rest : Blocks) → Decidable (RootRevertsFit net popped rest)
  | [], _ => isTrue trivial
  | b :: popped, rest =>
    haveI := decidableRootRevertsFit net popped rest
    inferInstanceAs (Decidable (RevertFits net (b :: (popped ++ rest)) b ∧ _))

variable [MerkleHashing] [ChainHistory] {ε : Type} {height : Nat}

theorem popRootsBelow_spec {L : Lineage net} (h : Refines c L) {popped rest : List Record}
    (hr : L.records = popped ++ rest) (hne : rest ≠ []) (hlow : ∀ r ∈ popped, r.block.height < height)
    (hhigh : ∀ r ∈ rest, height ≤ r.block.height) {n : Nat} (hn : popped.length < n) :
    ((c.popRootsBelow height n : Exec ε Chain).Succeeds ↔
        RootRevertsFit net (popped.map Record.block) (rest.map Record.block)) ∧
      ∀ c', (c.popRootsBelow height n : Exec ε Chain) = .ok c' → ∃ L' : Lineage net, Refines c' L' ∧ L'.records = rest := by
  induction popped generalizing c L n with
  | nil =>
    obtain ⟨n, rfl⟩ := Nat.exists_eq_add_of_lt hn
    obtain ⟨r, rs, rfl⟩ := List.exists_cons_of_ne_nil hne
    have hstop : (c.popRootsBelow height (0 + n + 1) : Exec ε Chain) = .ok c := by
      rw [Chain.popRootsBelow, h.inner.rootHeight hr, ok_bind,
        if_neg (Nat.not_lt.2 (hhigh r List.mem_cons_self)), pure_eq_ok]
    refine ⟨⟨fun _ => trivial, fun _ => ⟨c, hstop⟩⟩, fun c' hc' => ⟨L, ?_, hr⟩⟩
    obtain rfl := Except.ok.inj (hstop.symm.trans hc')
    exact h
  | cons r popped ih =>
    obtain ⟨n, rfl⟩ := Nat.exists_eq_succ_of_ne_zero (Nat.ne_zero_of_lt hn)
    obtain ⟨hpop, hpopped⟩ := popRoot_spec h.network h.inner hr
    have hloop : (c.popRootsBelow height (n + 1) : Exec ε Chain) =
        (c.popRoot >>= fun x => Chain.popRootsBelow height n x.2) := by
      rw [Chain.popRootsBelow, h.inner.rootHeight hr, ok_bind, if_pos (hlow r List.mem_cons_self)]
    have hrest : ∀ x c', (c.popRoot : Exec ε _) = .ok (x, c') → Refines c' L.dropRoot := fun x c' hx =>
      ⟨(hpopped x c' hx).2.2.2.1, (hpopped x c' hx).2.2.1⟩
    have hrecords : L.dropRoot.records = popped ++ rest := by
      rw [Lineage.records_dropRoot, hr, List.cons_append, List.drop_one, List.tail_cons]
    have hih : ∀ c' : Chain, Refines c' L.dropRoot → _ := fun c' hc' =>
      ih hc' hrecords (fun r' hr' => hlow r' (List.mem_cons_of_mem _ hr')) (Nat.lt_of_succ_lt_succ hn)
    rw [hloop]
    refine ⟨?_, fun c' hc' => ?_⟩
    · rw [bind_succeeds, List.map_cons, RootRevertsFit, ← List.map_append, ← List.map_cons, ← List.cons_append, ← hr]
      constructor
      · rintro ⟨⟨x, c'⟩, hx, hs⟩
        exact ⟨hpop.1 ⟨_, hx⟩, (hih c' (hrest x c' hx)).1.1 hs⟩
      · rintro ⟨hfit, hfits⟩
        obtain ⟨⟨x, c'⟩, hx⟩ := hpop.2 hfit
        exact ⟨(x, c'), hx, (hih c' (hrest x c' hx)).1.2 hfits⟩
    · obtain ⟨⟨x, c₁⟩, hx, hc'⟩ := bind_eq_ok.1 hc'
      exact (hih c₁ (hrest x c₁ hx)).2 c' hc'

end

end Zebra.Ledger
