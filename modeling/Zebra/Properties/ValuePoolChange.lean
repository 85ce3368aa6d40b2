import Zebra.Ledger.ValueTotals

namespace Zebra.Properties

open Lib Outcome Transaction ValueBalance

section transaction

variable (utxos : KeyedMap OutPoint Utxo) (tx : Transaction)

/-- The value of the output that an input spends. A coinbase input spends none. -/
def spentBy : Input → Int
  | .prevOut o => ((utxos[o]?).map fun u => u.output.value.zatoshis).getD 0
  | .coinbase _ => 0

def spentValue : Int := (tx.inputs.map (spentBy utxos)).sum

def createdValue : Int := (tx.outputs.map fun o => o.value.zatoshis).sum

def joinSplitValues : List Int :=
  ((tx.joinsplitData.map (·.joinsplits)).getD []).map fun j => j.vpubNew.zatoshis - j.vpubOld.zatoshis

def exactBalance : ValuePool → Int
  | .transparent => spentValue utxos tx - createdValue tx
  | .sprout => (joinSplitValues tx).sum
  | .sapling => tx.saplingValueBalance.sapling.zatoshis
  | .orchard => tx.orchardValueBalance.orchard.zatoshis
  | .deferred => 0

/-- The map has all outputs that the transaction spends. -/
def HasSpent : Prop := ∀ o, Input.prevOut o ∈ tx.inputs → ∃ u, utxos[o]? = some u

/-- The spent and the created outputs are worth at most the money supply, and so are the totals
of the JoinSplits. -/
def BalanceFits : Prop :=
  spentValue utxos tx ≤ maxMoney ∧ createdValue tx ≤ maxMoney ∧ TotalsFit .negativeAllowed 0 (joinSplitValues tx)

instance : Decidable (BalanceFits utxos tx) := inferInstanceAs (Decidable (_ ∧ _))

variable {utxos tx}

theorem inputValues_eq_ok {ε : Type} (h : HasSpent utxos tx) :
    ∃ values, (tx.inputs.mapM (Input.valueFromOutputs (utxos.map fun _ u => u.output)) : Exec ε _) = .ok values ∧
      (values.map Amount.zatoshis).sum = spentValue utxos tx := by
  rw [HasSpent] at h
  rw [spentValue]
  generalize tx.inputs = inputs at h ⊢
  induction inputs with
  | nil => exact ⟨[], rfl, rfl⟩
  | cons i inputs ih =>
    obtain ⟨values, hvalues, hsum⟩ := ih fun o ho => h o (List.mem_cons_of_mem _ ho)
    obtain ⟨value, hvalue, hspent⟩ : ∃ value : Amount .nonNegative,
        (Input.valueFromOutputs (utxos.map fun _ u => u.output) i : Exec ε _) = .ok value ∧
          value.zatoshis = spentBy utxos i := by
      cases i with
      | prevOut o =>
        obtain ⟨u, hu⟩ := h o List.mem_cons_self
        refine ⟨u.output.value, ?_, by rw [spentBy, hu, Option.map_some, Option.getD_some]⟩
        simp [Input.valueFromOutputs, hu]
      | coinbase height => exact ⟨.zero, rfl, rfl⟩
    refine ⟨value :: values, ?_, ?_⟩
    · rw [List.mapM_cons, hvalue, ok_bind, hvalues, ok_bind, pure_eq_ok]
    · rw [List.map_cons, List.map_cons, List.sum_cons, List.sum_cons, hspent, hsum]

theorem transparentValueBalance_cases (h : HasSpent utxos tx) :
    if spentValue utxos tx ≤ maxMoney ∧ createdValue tx ≤ maxMoney then
      ∃ a, tx.transparentValueBalanceFromOutputs (utxos.map fun _ u => u.output) = .ok (.fromTransparentAmount a) ∧
        a.zatoshis = spentValue utxos tx - createdValue tx
    else ∃ e, tx.transparentValueBalanceFromOutputs (utxos.map fun _ u => u.output) = .fail e := by
  obtain ⟨values, hvalues, hspent⟩ := inputValues_eq_ok (ε := ValueBalanceError) h
  have hcreated : ((tx.outputs.map Output.value).map Amount.zatoshis).sum = createdValue tx := by
    rw [List.map_map]
    rfl
  have hinput := Amount.exists_sum_iff (l := values)
  have houtput := Amount.exists_sum_iff (l := tx.outputs.map Output.value)
  rw [hspent] at hinput
  rw [hcreated] at houtput
  rw [transparentValueBalanceFromOutputs, hvalues, ok_bind]
  cases hsum : Amount.sum values with
  | error e =>
    rw [if_neg fun hfits => by simpa [hsum] using hinput.2 hfits.1]
    exact ⟨_, rfl⟩
  | ok spent =>
    cases hsum' : Amount.sum (tx.outputs.map Output.value) with
    | error e =>
      rw [if_neg fun hfits => by simpa [hsum'] using houtput.2 hfits.2]
      exact ⟨_, rfl⟩
    | ok created =>
      rw [if_pos ⟨hinput.1 ⟨_, hsum⟩, houtput.1 ⟨_, hsum'⟩⟩]
      have hs : spent.zatoshis = spentValue utxos tx := (Amount.sum_eq_ok hsum).trans hspent
      have hc : created.zatoshis = createdValue tx := (Amount.sum_eq_ok hsum').trans hcreated
      have hmem := JoinSplit.valueBalance_valid spent created
      have hsub : spent.widen.sub created.widen = .ok ⟨_, hmem⟩ := Amount.tryFrom_of_contains hmem
      refine ⟨⟨_, hmem⟩, ?_, by rw [← hs, ← hc]⟩
      change (lift .transparent (spent.widen.sub created.widen) >>= _ : Exec ValueBalanceError _) = _
      rw [hsub]
      rfl

theorem map_joinSplitBalances (pool : ValuePool) : (((tx.joinsplitData.map (·.joinsplits)).getD []).map fun j =>
      (fromSproutAmount j.valueBalance)).map (·.zatoshis pool) =
        if pool = .sprout then joinSplitValues tx else (joinSplitValues tx).map fun _ => 0 := by
  rw [List.map_map, joinSplitValues, List.map_map]
  split
  · subst pool
    rfl
  · rename_i hpool
    refine List.map_congr_left fun j _ => ?_
    exact (zatoshis_fromSproutAmount _ pool).trans (if_neg hpool)

theorem sproutValueBalance_cases (tx : Transaction) : if TotalsFit .negativeAllowed 0 (joinSplitValues tx) then
      ∃ v, tx.sproutValueBalance = .ok v ∧
        ∀ pool, v.zatoshis pool = if pool = .sprout then (joinSplitValues tx).sum else 0
    else ∃ e, tx.sproutValueBalance = .error e := by
  have hexists := exists_sum_iff (l := ((tx.joinsplitData.map (·.joinsplits)).getD []).map fun j =>
    (fromSproutAmount j.valueBalance : ValueBalance .negativeAllowed))
  simp only [map_joinSplitBalances] at hexists
  have hfits : (∀ pool, TotalsFit .negativeAllowed 0 (if pool = ValuePool.sprout then joinSplitValues tx
      else (joinSplitValues tx).map fun _ => 0)) ↔ TotalsFit .negativeAllowed 0 (joinSplitValues tx) := by
    constructor
    · intro hall
      exact hall .sprout
    · intro hsprout pool
      split
      · exact hsprout
      · apply totalsFit_zeros (Constraint.zero_mem _)
        intro v hv
        obtain ⟨_, -, rfl⟩ := List.mem_map.1 hv
        rfl
  rw [hfits] at hexists
  by_cases hall : TotalsFit .negativeAllowed 0 (joinSplitValues tx)
  · rw [if_pos hall]
    obtain ⟨v, hv⟩ := hexists.2 hall
    refine ⟨v, hv, fun pool => ?_⟩
    rw [sum_eq_ok_zatoshis hv, map_joinSplitBalances]
    split <;> simp
  · rw [if_neg hall]
    cases hsum : tx.sproutValueBalance with
    | ok v => exact absurd (hexists.1 ⟨v, hsum⟩) hall
    | error e => exact ⟨e, rfl⟩

theorem exists_add_of_disjoint {v w : ValueBalance .negativeAllowed}
    (h : ∀ pool, v.zatoshis pool = 0 ∨ w.zatoshis pool = 0) :
    ∃ u, v.add w = .ok u ∧ ∀ pool, u.zatoshis pool = v.zatoshis pool + w.zatoshis pool := by
  have hmem : ∀ pool, Constraint.negativeAllowed.Contains (v.zatoshis pool + w.zatoshis pool) := by
    intro pool
    rcases h pool with hzero | hzero
    · rw [hzero, Int.zero_add]
      exact w.contains_zatoshis pool
    · rw [hzero, Int.add_zero]
      exact v.contains_zatoshis pool
  obtain ⟨u, hu⟩ := exists_add_iff.2 hmem
  exact ⟨u, hu, add_eq_ok_zatoshis.1 hu⟩

theorem saplingValueBalance_zatoshis (tx : Transaction) (pool : ValuePool) :
    tx.saplingValueBalance.zatoshis pool = if pool = .sapling then tx.saplingValueBalance.sapling.zatoshis else 0 := by
  rw [saplingValueBalance.eq_def]
  split <;> rw [zatoshis_fromSaplingAmount] <;> rfl

theorem orchardValueBalance_zatoshis (tx : Transaction) (pool : ValuePool) :
    tx.orchardValueBalance.zatoshis pool = if pool = .orchard then tx.orchardValueBalance.orchard.zatoshis else 0 :=
  zatoshis_fromOrchardAmount _ pool

/-- The balance of a transaction is exact, or it is an error because a sum is out of range. -/
theorem valueBalance_cases (h : HasSpent utxos tx) : if BalanceFits utxos tx then
      ∃ v, tx.valueBalance utxos = .ok v ∧ ∀ pool, v.zatoshis pool = exactBalance utxos tx pool
    else ∃ e, tx.valueBalance utxos = .fail e := by
  have htransparent := transparentValueBalance_cases h
  have hsprout := sproutValueBalance_cases tx
  rw [valueBalance, valueBalanceFromOutputs]
  by_cases hsums : spentValue utxos tx ≤ maxMoney ∧ createdValue tx ≤ maxMoney
  · rw [if_pos hsums] at htransparent
    obtain ⟨a, ha, hbalance⟩ := htransparent
    rw [ha, ok_bind]
    by_cases hjoin : TotalsFit .negativeAllowed 0 (joinSplitValues tx)
    · rw [if_pos hjoin] at hsprout
      obtain ⟨v, hv, hvalue⟩ := hsprout
      rw [if_pos ⟨hsums.1, hsums.2, hjoin⟩, hv]
      obtain ⟨s₁, hs₁, hsum₁⟩ := exists_add_of_disjoint (v := .fromTransparentAmount a) (w := v) fun pool => by
        rw [hvalue, zatoshis_fromTransparentAmount]
        cases pool <;> simp
      obtain ⟨s₂, hs₂, hsum₂⟩ := exists_add_of_disjoint (v := s₁) (w := tx.saplingValueBalance) fun pool => by
        rw [hsum₁, hvalue, zatoshis_fromTransparentAmount, saplingValueBalance_zatoshis]
        cases pool <;> simp
      obtain ⟨s₃, hs₃, hsum₃⟩ := exists_add_of_disjoint (v := s₂) (w := tx.orchardValueBalance) fun pool => by
        rw [hsum₂, hsum₁, hvalue, zatoshis_fromTransparentAmount, saplingValueBalance_zatoshis,
          orchardValueBalance_zatoshis]
        cases pool <;> simp
      refine ⟨s₃, ?_, fun pool => ?_⟩
      · change (lift id (ValueBalance.add _ v) >>= _ : Exec ValueBalanceError _) = _
        rw [hs₁]
        change (lift id (s₁.add _) >>= _ : Exec ValueBalanceError _) = _
        rw [hs₂]
        change (lift id (s₂.add _) : Exec ValueBalanceError _) = _
        rw [hs₃]
        rfl
      · rw [hsum₃, hsum₂, hsum₁, hvalue, zatoshis_fromTransparentAmount, saplingValueBalance_zatoshis,
          orchardValueBalance_zatoshis]
        cases pool <;> simp [exactBalance, hbalance]
    · rw [if_neg hjoin] at hsprout
      obtain ⟨e, he⟩ := hsprout
      rw [if_neg fun hfits : BalanceFits utxos tx => hjoin hfits.2.2, he]
      exact ⟨e, rfl⟩
  · rw [if_neg hsums] at htransparent
    obtain ⟨e, he⟩ := htransparent
    rw [if_neg fun hfits : BalanceFits utxos tx => hsums ⟨hfits.1, hfits.2.1⟩, he]
    exact ⟨e, rfl⟩

end transaction

section block

variable {b : Block} {utxos : KeyedMap OutPoint Utxo}

theorem valueBalances_eq_ok (hspent : ∀ tx ∈ b.transactions, HasSpent utxos tx) :
    ∃ balances, b.valueBalances utxos = .ok balances ∧ ∀ pool, balances.map (·.zatoshis pool) =
      (b.transactions.filter (BalanceFits utxos ·)).map (exactBalance utxos · pool) := by
  rw [Block.valueBalances]
  generalize b.transactions = txs at hspent ⊢
  suffices h : ∀ f : List (ValueBalance .negativeAllowed) → Transaction → Exec ValueBalanceError _,
      (∀ {acc tx v}, tx.valueBalance utxos = .ok v → f acc tx = .ok (acc ++ [v])) →
      (∀ {acc tx e}, tx.valueBalance utxos = .fail e → f acc tx = .ok acc) →
      ∀ acc, ∃ balances, txs.foldlM f acc = .ok (acc ++ balances) ∧
        ∀ pool, balances.map (·.zatoshis pool) = (txs.filter (BalanceFits utxos ·)).map (exactBalance utxos · pool) by
    refine (h _ ?_ ?_ []).imp fun balances ⟨hfold, hmap⟩ => ⟨hfold, hmap⟩
    · intro _ _ _ hv
      rw [hv]
    · intro _ _ _ he
      rw [he]
      rfl
  intro f hok hfail
  induction txs with
  | nil => exact fun acc => ⟨[], by rw [List.append_nil]; rfl, fun _ => rfl⟩
  | cons tx txs ih =>
    intro acc
    rw [List.forall_mem_cons] at hspent
    have hcases := valueBalance_cases hspent.1
    by_cases hfits : BalanceFits utxos tx
    · rw [if_pos hfits] at hcases
      obtain ⟨v, hv, hexact⟩ := hcases
      obtain ⟨balances, hfold, hmap⟩ := ih hspent.2 (acc ++ [v])
      refine ⟨v :: balances, ?_, fun pool => ?_⟩
      · rw [List.foldlM_cons, hok hv]
        simpa using hfold
      · rw [List.filter_cons_of_pos (by simpa using hfits), List.map_cons, List.map_cons, hexact, hmap]
    · rw [if_neg hfits] at hcases
      obtain ⟨e, he⟩ := hcases
      obtain ⟨balances, hfold, hmap⟩ := ih hspent.2 acc
      refine ⟨balances, ?_, fun pool => ?_⟩
      · rw [List.foldlM_cons, hfail he]
        exact hfold
      · rw [List.filter_cons_of_neg (by simpa using hfits), hmap]

/-- The totals over the transactions that have a balance stay in range. -/
def PoolTotalsFit (utxos : KeyedMap OutPoint Utxo) (b : Block) : Prop :=
  ∀ pool, TotalsFit .negativeAllowed 0 ((b.transactions.filter (BalanceFits utxos ·)).map (exactBalance utxos · pool))

theorem chainValuePoolChange_cases (hspent : ∀ tx ∈ b.transactions, HasSpent utxos tx)
    (deferred : Option (Amount .negativeAllowed)) :
    (PoolTotalsFit utxos b ∧ ∃ change, b.chainValuePoolChange utxos deferred = .ok change ∧
      change.deferred = deferred.getD .zero ∧ ∀ pool ≠ .deferred, change.zatoshis pool =
        - ((b.transactions.filter (BalanceFits utxos ·)).map (exactBalance utxos · pool)).sum) ∨
    (¬ PoolTotalsFit utxos b ∧ ∃ e, b.chainValuePoolChange utxos deferred = .fail e) := by
  obtain ⟨balances, hbalances, hmap⟩ := valueBalances_eq_ok hspent
  have hexists : (∃ sum, ValueBalance.sum balances = .ok sum) ↔ PoolTotalsFit utxos b := by
    rw [exists_sum_iff]
    simp only [hmap, PoolTotalsFit]
  rw [Block.chainValuePoolChange, hbalances, ok_bind]
  cases hsum : ValueBalance.sum balances with
  | ok sum =>
    refine .inl ⟨hexists.1 ⟨sum, hsum⟩, sum.neg.setDeferredAmount (deferred.getD .zero), rfl, rfl, fun pool hpool => ?_⟩
    rw [← hmap, ← sum_eq_ok_zatoshis hsum, ← zatoshis_neg]
    cases pool <;> first | rfl | exact absurd rfl hpool
  | error e =>
    refine .inr ⟨fun hfits => ?_, e, rfl⟩
    obtain ⟨sum, hok⟩ := hexists.2 hfits
    rw [hsum] at hok
    cases hok

end block

def mint (values : List (Amount .nonNegative)) : Block :=
  ⟨⟨0, 0, 0, 0, 0⟩, [.V5 [.coinbase 1] (values.map fun v => ⟨v, 0⟩) none none], 1000, 0⟩

theorem mint_hasSpent (values : List (Amount .nonNegative)) : ∀ tx ∈ (mint values).transactions, HasSpent ∅ tx := by
  intro tx htx o ho
  obtain rfl := List.mem_singleton.1 htx
  simp [inputs] at ho

def wholeSupply : Amount .nonNegative := ⟨maxMoney, by decide⟩

end Zebra.Properties
