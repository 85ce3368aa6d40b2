import Zebra.Ledger.BalanceTable
import Zebra.Properties.Sample
import Mathlib.Data.List.ReduceOption

namespace Zebra.Properties

open Lib Lib.Transition Lib.MergeStore Ledger BalanceTable

section

variable [ScriptParsing]

structure BlockTransfers where
  new : List (OutputLocation × Utxo)
  spent : List (OutputLocation × Utxo)

def updateTable {C : Constraint} (net : Network) (mode : BalanceTable.Mode C) (t : BalanceTable) (b : BlockTransfers) :
    Validated BalanceTable := do
  let (m, _) ← t.prepare net mode b.new b.spent
  return t.writeAddrLocs mode m

/-- A table of merged balances: blocks are written, and the database combines what it wants
in between. -/
inductive MergeStep (net : Network) : BalanceTable → Option BlockTransfers → BalanceTable → Prop
  | block {t t' : BalanceTable} {b : BlockTransfers} :
      updateTable net mergeMode t b = .ok t' → MergeStep net t (some b) t'
  | compact {t : BalanceTable} {a : Address} {s s' : MergeStore Bytes} : t[a]? = some s →
      Compacts (MergesBalance ValidateContextError) s s' → MergeStep net t none (t.insert a s')

variable {net : Network} {t ti ti' tm tm' : BalanceTable} {v : Address → Option AddressBalanceLocation}
  {b : BlockTransfers} {ops : List (Option BlockTransfers)}

theorem updateTable_step (hi : HasValues ti v) (hm : HasValues tm v)
    (h : updateTable net insertMode ti b = .ok ti') :
    ∃ tm' v', updateTable net mergeMode tm b = .ok tm' ∧ HasValues ti' v' ∧ HasValues tm' v' := by
  obtain ⟨⟨m, created, deleted⟩, hp, h⟩ := bind_eq_ok.1 h
  cases h
  obtain ⟨d, hd, hs⟩ := prepare_inStep hi hm hp
  exact ⟨_, _, bind_eq_ok.2 ⟨_, hd, rfl⟩, hasValues_insert hi m, hasValues_merge hm hs⟩

omit [ScriptParsing] in
theorem hasValues_compact {a : Address} {s s' : MergeStore Bytes} (h : HasValues t v) (ha : t[a]? = some s)
    (hc : Compacts (MergesBalance ValidateContextError) s s') : HasValues (t.insert a s') v := by
  intro b
  have hb := h b
  by_cases hab : a = b
  · subst hab
    rw [ha] at hb
    rw [Std.ExtTreeMap.getElem?_insert_self]
    exact hb.compacts balanceLaws hc
  · rwa [KeyedMap.getElem?_insert_of_ne hab]

theorem same_values (hr : Run (MergeStep net) tm ops tm') (hi : HasValues ti v) (hm : HasValues tm v)
    (h : ops.reduceOption.foldlM (updateTable net insertMode) ti = .ok ti') :
    ∃ v', HasValues ti' v' ∧ HasValues tm' v' := by
  induction hr generalizing ti v with
  | nil =>
    cases h
    exact ⟨v, hi, hm⟩
  | cons hs _ ih =>
    cases hs with
    | block hb =>
      rw [List.reduceOption_cons_of_some, List.foldlM_cons] at h
      obtain ⟨ti₁, h₁, h⟩ := bind_eq_ok.1 h
      obtain ⟨tm₁, v₁, hm₁, hi₁, hv₁⟩ := updateTable_step hi hm h₁
      obtain rfl := Except.ok.inj (hm₁.symm.trans hb)
      exact ih hi₁ hv₁ h
    | compact ha hc =>
      rw [List.reduceOption_cons_of_none] at h
      exact ih hi (hasValues_compact hm ha hc) h

/-- Whatever the database combines and when, it reads the balances that the insert path has
stored; every group that it may still combine has a result, and so has the next block. -/
theorem merge_agrees_with_insert (hr : Run (MergeStep net) ∅ ops tm)
    (h : ops.reduceOption.foldlM (updateTable net BalanceTable.insertMode) ∅ = .ok ti) :
    (∀ a, ∃ bytes x, (BalanceTable.get (ti[a]?.getD {}) : Exec ValidateContextError _) = .ok bytes ∧
      (BalanceTable.get (tm[a]?.getD {}) : Exec ValidateContextError _) = .ok bytes ∧
      (ti.addressBalanceLocation a : Exec ValidateContextError _) = .ok x ∧
      (tm.addressBalanceLocation a : Exec ValidateContextError _) = .ok x) ∧
    (∀ (a : Address) (s : MergeStore Bytes), tm[a]? = some s →
      (∀ l xs r, s.pending = l ++ xs ++ r → xs ≠ [] → ∃ bytes, MergesBalance ValidateContextError none xs bytes) ∧
      ∀ xs r, s.pending = xs ++ r → (s.base = none → xs ≠ []) →
        ∃ bytes, MergesBalance ValidateContextError s.base xs bytes) ∧
    ∀ b, (updateTable net BalanceTable.insertMode ti b).Succeeds →
      (updateTable net BalanceTable.mergeMode tm b).Succeeds := by
  obtain ⟨v, hi, hm⟩ := same_values hr hasValues_empty hasValues_empty h
  refine ⟨?_, ?_, ?_⟩
  · intro a
    exact ⟨_, v a, (hi a).get, (hm a).get, addressBalanceLocation_eq (hi a), addressBalanceLocation_eq (hm a)⟩
  · intro a s hs
    have ha := hm a
    rw [hs, Option.getD_some] at ha
    refine ⟨fun l xs r hp hne => ha.exists_operand balanceLaws hp hne, ?_⟩
    intro xs r hp hne
    obtain ⟨bytes, -, hbytes, -⟩ := ha.exists_value balanceLaws hp hne
    exact ⟨bytes, hbytes⟩
  · rintro b ⟨ti', hb⟩
    obtain ⟨tm', -, hm', -⟩ := updateTable_step hi hm hb
    exact ⟨tm', hm'⟩

end

section

open Sample

def hundred : Utxo := ⟨pay ⟨100, by decide⟩ 5, 1, false⟩
def thirty : Utxo := ⟨pay ⟨30, by decide⟩ 5, 2, false⟩

def payThenSpend : List BlockTransfers :=
  [⟨[(⟨⟨1, 0⟩, 0⟩, hundred)], []⟩, ⟨[(⟨⟨2, 0⟩, 0⟩, thirty)], [(⟨⟨1, 0⟩, 0⟩, hundred)]⟩]

theorem merge_agrees_payThenSpend : ∃ tm ti, Run (MergeStep network) ∅ (payThenSpend.map some) tm ∧
    payThenSpend.foldlM (updateTable network BalanceTable.insertMode) ∅ = .ok ti ∧
    ∀ a, ∃ x, (ti.addressBalanceLocation a : Exec ValidateContextError _) = .ok x ∧
      (tm.addressBalanceLocation a : Exec ValidateContextError _) = .ok x := by
  have hi : ∃ ti ∈ (payThenSpend.foldlM (updateTable network insertMode) ∅).toOption, True := by
    decide +kernel
  have hm : ∃ t₁ ∈ (updateTable network mergeMode ∅ (payThenSpend.head (by decide))).toOption,
      ∃ tm ∈ (updateTable network mergeMode t₁ (payThenSpend.getLast (by decide))).toOption, True := by
    decide +kernel
  obtain ⟨ti, hti, -⟩ := hi
  obtain ⟨t₁, ht₁, tm, htm, -⟩ := hm
  have hti := Outcome.toOption_eq_some.1 hti
  have hr : Run (MergeStep network) ∅ (payThenSpend.map some) tm :=
    .cons (.block (Outcome.toOption_eq_some.1 ht₁)) (.cons (.block (Outcome.toOption_eq_some.1 htm)) (.nil tm))
  refine ⟨tm, ti, hr, hti, ?_⟩
  intro a
  obtain ⟨-, x, -, -, hx⟩ := (merge_agrees_with_insert hr hti).1 a
  exact ⟨x, hx⟩

end

end Zebra.Properties
