import Zebra.Ledger.BalancePass

namespace Zebra.Ledger

open Lib Outcome AddressBalances

variable [ScriptParsing] {ε : Type} {C : Constraint} {net : Network} {m : AddressBalances C} {l : OutputLocation}
  {o : Output} {us : List (OutputLocation × Utxo)} {x : OutputLocation × Utxo}

omit [ScriptParsing] in
theorem balanceIn_contains (m : AddressBalances C) (a : Address) : C.Contains (balanceIn m a) := by
  rw [balanceIn]
  cases m[a]? with
  | none => exact C.zero_mem
  | some y => exact y.balance.valid

theorem totalTo_le (a : Address) (os : LocatedOutputs) :
    totalTo net a os ≤ (os.map fun x => x.2.value.zatoshis).sum := by
  refine (List.filter_sublist.map _).sum_le_sum fun z hz => ?_
  obtain ⟨x, -, rfl⟩ := List.mem_map.1 hz
  exact value_nonneg _

theorem totalTo_outputsOf_cons (a : Address) : totalTo net a (outputsOf (x :: us)) =
      (if x.2.output.address net = some a then x.2.output.value.zatoshis else 0) + totalTo net a (outputsOf us) :=
  totalTo_cons

theorem receive_succeeds (h : ∀ a, o.address net = some a → balanceIn m a + o.value.zatoshis ≤ C.upper) :
    (receive net m l o : Exec ε _).Succeeds := by
  unfold receive
  cases ha : o.address net with
  | none => exact ⟨_, rfl⟩
  | some a =>
    have hbalance : (m[a]?.getD (.new l)).balance.zatoshis = balanceIn m a := by
      rw [balanceIn]
      cases m[a]? <;> rfl
    have hvalue := value_nonneg o
    have hrange : C.Contains ((m[a]?.getD (.new l)).balance.zatoshis + o.value.zatoshis) := by
      rw [hbalance]
      exact ⟨(balanceIn_contains m a).1.trans (by omega), h a ha⟩
    obtain ⟨y, hy⟩ : ∃ y, (m[a]?.getD (.new l)).receiveOutput o = .ok y := by
      rw [AddressBalanceLocationInner.receiveOutput, Amount.tryFrom_of_contains hrange]
      exact ⟨_, rfl⟩
    exact bind_succeeds.2 ⟨y, unwrap_eq_ok.2 hy, ⟨_, rfl⟩⟩

theorem receive_cases : (receive net m l o : Exec ε _).Succeeds ∨
    (receive net m l o : Exec ε _) = .panic .balanceOverflow := by
  unfold receive
  cases o.address net with
  | none => exact .inl ⟨_, rfl⟩
  | some a =>
    dsimp only
    cases (m[a]?.getD (.new l)).receiveOutput o with
    | ok y => exact .inl ⟨_, rfl⟩
    | error e => exact .inr rfl

theorem pass_receive_succeeds : (pass (receive net) m us : Exec ε _).Succeeds ↔
      ∀ a, balanceIn m a + totalTo net a (outputsOf us) ≤ C.upper := by
  constructor
  · rintro ⟨⟨m', links⟩, h⟩ a
    rw [← (pass_receive h).1.balance]
    exact (balanceIn_contains m' a).2
  · intro h
    induction us generalizing m with
    | nil => exact ⟨_, rfl⟩
    | cons x us ih =>
      have hfirst : (receive net m x.1 x.2.output : Exec ε _).Succeeds := by
        refine receive_succeeds fun a ha => ?_
        have hall := h a
        rw [totalTo_outputsOf_cons, if_pos ha] at hall
        have hrest : 0 ≤ totalTo net a (outputsOf us) := totalTo_nonneg
        omega
      obtain ⟨⟨m₁, link⟩, h₁⟩ := hfirst
      obtain ⟨y, hy⟩ := ih fun a => by
        have hall := h a
        rw [totalTo_outputsOf_cons] at hall
        rw [(receive_spec h₁).1.balance, totalTo_cons, totalTo_nil]
        dsimp only
        omega
      exact bind_succeeds.2 ⟨_, h₁, bind_succeeds.2 ⟨y, hy, ⟨_, rfl⟩⟩⟩

theorem pass_receive_cases (us : List (OutputLocation × Utxo)) :
    (pass (receive net) m us : Exec ε _).Succeeds ∨
      (pass (receive net) m us : Exec ε _) = .panic .balanceOverflow := by
  induction us generalizing m with
  | nil => exact .inl ⟨_, rfl⟩
  | cons x us ih =>
    rw [AddressBalances.pass]
    rcases receive_cases (C := C) (m := m) (l := x.1) (o := x.2.output) with ⟨⟨m₁, link⟩, h₁⟩ | h₁
    · rw [h₁, ok_bind]
      dsimp only
      rcases ih with ⟨y, hy⟩ | hy
      · rw [hy]
        exact .inl ⟨_, rfl⟩
      · rw [hy]
        exact .inr rfl
    · rw [h₁]
      exact .inr rfl

theorem spend_succeeds (hknown : ∀ a, o.address net = some a → (locationIn m a).isSome)
    (h : ∀ a, o.address net = some a → C.lower ≤ balanceIn m a - o.value.zatoshis) :
    (spend net m l o : Exec ε _).Succeeds := by
  unfold spend
  cases ha : o.address net with
  | none => exact ⟨_, rfl⟩
  | some a =>
    obtain ⟨y, hy, -⟩ := Option.map_eq_some_iff.1 (Option.eq_some_of_isSome (hknown a ha))
    have hbalance : y.balance.zatoshis = balanceIn m a := by simp [balanceIn, hy]
    have hvalue := value_nonneg o
    have hrange : C.Contains (y.balance.zatoshis - o.value.zatoshis) := by
      rw [hbalance]
      exact ⟨h a ha, le_trans (by omega) (balanceIn_contains m a).2⟩
    refine bind_succeeds.2 ⟨y, expect_eq_ok.2 hy, ?_⟩
    refine bind_succeeds.2 ⟨{ y with balance := ⟨_, hrange⟩ }, ?_, ⟨_, rfl⟩⟩
    rw [unwrap_eq_ok, AddressBalanceLocationInner.spendOutput, Amount.tryFrom_of_contains hrange]
    rfl

theorem pass_spend_succeeds (hknown : ∀ x ∈ outputsOf us, ∀ a, x.2.address net = some a → (locationIn m a).isSome)
    (h : ∀ a, C.lower ≤ balanceIn m a - totalTo net a (outputsOf us)) :
    (pass (spend net) m us : Exec ε _).Succeeds := by
  induction us generalizing m with
  | nil => exact ⟨_, rfl⟩
  | cons x us ih =>
    have hfirst : (spend net m x.1 x.2.output : Exec ε _).Succeeds := by
      refine spend_succeeds (hknown (x.1, x.2.output) List.mem_cons_self) fun a ha => ?_
      have hall := h a
      rw [totalTo_outputsOf_cons, if_pos ha] at hall
      have hrest : 0 ≤ totalTo net a (outputsOf us) := totalTo_nonneg
      omega
    obtain ⟨⟨m₁, link⟩, h₁⟩ := hfirst
    obtain ⟨hspent, -⟩ := spend_spec h₁
    obtain ⟨y, hy⟩ := ih (fun y hy a ha => by
      rw [hspent.location]
      exact hknown y (List.mem_cons_of_mem _ hy) a ha) fun a => by
        have hall := h a
        rw [totalTo_outputsOf_cons] at hall
        rw [hspent.balance, totalTo_cons, totalTo_nil]
        dsimp only
        omega
    exact bind_succeeds.2 ⟨_, h₁, bind_succeeds.2 ⟨y, hy, ⟨_, rfl⟩⟩⟩

end Zebra.Ledger
