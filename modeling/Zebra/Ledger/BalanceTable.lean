import Zebra.Ledger.BalanceMerge
import Mathlib.Data.List.Dedup

namespace Zebra.Ledger

open Lib MergeStore Std.ExtTreeMap Outcome BalanceTable AddressBalances KeyedMap

variable {C : Constraint} {ε : Type}

def HasValues (t : BalanceTable) (v : Address → Option AddressBalanceLocation) : Prop :=
  ∀ a, RepresentsBalance (t[a]?.getD {}) (v a)

theorem hasValues_empty : HasValues ∅ fun _ => none := by
  intro a
  rw [getElem?_empty]
  exact represents_empty

variable {t : BalanceTable} {v : Address → Option AddressBalanceLocation} {a : Address}

theorem readAddrLocs_eq (h : HasValues t v) (mode : BalanceTable.Mode C) (addresses : List Address) :
    ∃ m, (t.readAddrLocs mode addresses : Exec ε _) = .ok m ∧
      ∀ a, m[a]? = if a ∈ addresses then (v a).map mode.start else none := by
  have hfold : ∀ (l : List Address) (m₀ : AddressBalances C), ∃ m,
      (l.foldlM (fun m a => do
        let x ← t.addressBalanceLocation a
        return (x.map fun x => m.insert a (mode.start x)).getD m) m₀ : Exec ε _) = .ok m ∧
      ∀ a, m[a]? = if a ∈ l then ((v a).map mode.start).or m₀[a]? else m₀[a]? := by
    intro l
    induction l with
    | nil => exact fun m₀ => ⟨m₀, rfl, by simp⟩
    | cons b l ih =>
      intro m₀
      obtain ⟨m, hm, hget⟩ := ih (((v b).map fun x => m₀.insert b (mode.start x)).getD m₀)
      refine ⟨m, ?_, ?_⟩
      · rw [List.foldlM_cons, addressBalanceLocation_eq (h b), ok_bind, pure_eq_ok, ok_bind]
        exact hm
      · intro a
        rw [hget]
        by_cases hab : b = a
        · subst hab
          cases hv : v b <;> simp
        · have hne : a ≠ b := fun h => hab h.symm
          cases hv : v b with
          | none => simp [hne]
          | some x => simp [hne, getElem?_insert_of_ne hab]
  obtain ⟨m, hm, hget⟩ := hfold addresses ∅
  exact ⟨m, hm, fun a => by simp [hget]⟩

theorem getElem?_writeAddrLocs (t : BalanceTable) (mode : BalanceTable.Mode C) (m : AddressBalances C) (a : Address) :
    (t.writeAddrLocs mode m)[a]? = (m[a]?.map fun x => mode.write (t[a]?.getD {}) x.asBytes).or t[a]? := by
  have hkeys : (m.toList.map fun x => (x.1, mode.write (t[x.1]?.getD {}) x.2.asBytes)).map Prod.fst =
      m.toList.map Prod.fst := by
    rw [List.map_map]
    rfl
  rw [writeAddrLocs]
  by_cases ha : a ∈ m
  · have hx := getElem?_eq_some_getElem ha
    rw [hx, Option.map_some, Option.some_or]
    refine getElem?_insertMany_of_mem ?_
      (List.mem_map.2 ⟨_, mem_toList_iff_getElem?_eq_some.2 hx, rfl⟩)
    rw [hkeys]
    refine List.pairwise_map.2 (m.distinct_keys_toList.imp ?_)
    intro a b hc hab
    exact hc (by rw [hab]; exact Std.ReflOrd.compare_self)
  · rw [getElem?_eq_none ha, Option.map_none, Option.none_or, getElem?_insertMany_of_not_mem]
    rw [hkeys, map_fst_toList_eq_keys, mem_keys]
    exact ha

def valuesAfter (v : Address → Option AddressBalanceLocation) (m : AddressBalances .nonNegative) :
    Address → Option AddressBalanceLocation :=
  fun a => (m[a]?.map stored).or (v a)

theorem hasValues_insert (h : HasValues t v) (m : AddressBalances .nonNegative) :
    HasValues (t.writeAddrLocs insertMode m) (valuesAfter v m) := by
  intro a
  rw [getElem?_writeAddrLocs, valuesAfter]
  cases hx : m[a]? with
  | none => simpa using h a
  | some x =>
    refine ⟨some (stored x), ?_, nofun, .nil _⟩
    intro b hb
    cases hb
    exact ⟨stored x, rfl, OutputLocation.onDisk_onDisk _, (asBytes_stored x).symm⟩

theorem changes_intoNewChange (x : AddressBalanceLocation) : Changes (some x) x x.intoNewChange where
  balance := by simp [balanceOf, AddressBalanceLocation.intoNewChange, AddressBalanceLocationInner.new]
  received := by
    have := x.received_lt
    simp only [saturatingAdd, receivedOf, Option.map_some, Option.getD_some, AddressBalanceLocation.intoNewChange,
      AddressBalanceLocationInner.new]
    omega
  location := rfl
  same := by simp

/-- The changes that one block writes where another table gets the values. -/
structure InStep (v : Address → Option AddressBalanceLocation) (changed : List Address)
    (m : AddressBalances .nonNegative) (d : AddressBalances .negativeAllowed) : Prop where
  keys : ∀ a, a ∈ m ↔ a ∈ d
  changes : ∀ a x c, m[a]? = some x → d[a]? = some c → Changes (v a) x c
  known : ∀ a ∈ changed, a ∉ m → v a = none

theorem hasValues_mergeMode (h : HasValues t v) {d : AddressBalances .negativeAllowed}
    {v' : Address → Option AddressBalanceLocation} (hnone : ∀ a, d[a]? = none → v' a = v a)
    (hsome : ∀ a c, d[a]? = some c → ∃ x, v' a = some (stored x) ∧ Changes (v a) x c) :
    HasValues (t.writeAddrLocs mergeMode d) v' := by
  intro a
  rw [getElem?_writeAddrLocs]
  cases hc : d[a]? with
  | none =>
    rw [hnone a hc]
    exact h a
  | some c =>
    obtain ⟨x, hx, hch⟩ := hsome a c hc
    rw [hx]
    exact (h a).merge ⟨_, _, rfl, OutputLocation.onDisk_onDisk _, hch.stored (h a).onDisk, (asBytes_stored c).symm⟩

theorem hasValues_merge (h : HasValues t v) {changed : List Address} {m : AddressBalances .nonNegative}
    {d : AddressBalances .negativeAllowed} (hs : InStep v changed m d) :
    HasValues (t.writeAddrLocs mergeMode d) (valuesAfter v m) := by
  refine hasValues_mergeMode h ?_ ?_
  · intro a hc
    have hm : m[a]? = none := by
      refine getElem?_eq_none fun hm => ?_
      have := mem_iff_isSome_getElem?.1 ((hs.keys a).1 hm)
      simp [hc] at this
    simp [valuesAfter, hm]
  · intro a c hc
    have hmem : a ∈ m := (hs.keys a).2 (mem_iff_exists.2 ⟨_, hc⟩)
    have hx := getElem?_eq_some_getElem hmem
    exact ⟨_, by simp [valuesAfter, hx], hs.changes a _ c hx hc⟩

variable [ScriptParsing] {net : Network} {changed : List Address} {m m' : AddressBalances .nonNegative}
  {d : AddressBalances .negativeAllowed} {l : OutputLocation} {o : Output} {link : Option OutputLocation}

omit [ScriptParsing] in
theorem InStep.insert (h : InStep v changed m d) {x : AddressBalanceLocation} {c : AddressBalanceLocationChange}
    (hx : Changes (v a) x c) : InStep v changed (m.insert a x) (d.insert a c) where
  keys b := by simp [h.keys]
  changes b y e hy he := by
    by_cases hab : a = b
    · subst hab
      rw [getElem?_insert_self, Option.some.injEq] at hy he
      exact hy ▸ he ▸ hx
    · rw [getElem?_insert_of_ne hab] at hy he
      exact h.changes b y e hy he
  known b hb hn := h.known b hb fun hm => hn (mem_insert.2 (.inr hm))

omit [ScriptParsing] in
theorem Changes.receiveOutput {w : Option AddressBalanceLocation} {x x' : AddressBalanceLocation}
    {c : AddressBalanceLocationChange} (h : Changes w x c) (hr : x.receiveOutput o = .ok x') :
    ∃ c', c.receiveOutput o = .ok c' ∧ Changes w x' c' := by
  obtain ⟨b, hb, hr⟩ := bind_eq_ok.1 hr
  cases hr
  have hbz := Amount.tryFrom_eq_ok.1 hb
  have hvalid := contains_difference b.valid (balanceOf_contains w)
  have hsum : c.balance.zatoshis + o.value.zatoshis = b.zatoshis - balanceOf w := by
    rw [h.balance, hbz]
    omega
  have hrec : saturatingAdd x.received o.value.zatoshis.toNat =
      saturatingAdd (receivedOf w) (saturatingAdd c.received o.value.zatoshis.toNat) := by
    rw [h.received, saturatingAdd_assoc]
  refine ⟨⟨⟨_, hvalid⟩, saturatingAdd c.received o.value.zatoshis.toNat, c.location, saturatingAdd_lt _ _⟩, ?_, ?_⟩
  · rw [AddressBalanceLocationInner.receiveOutput, hsum, Amount.tryFrom_of_contains hvalid]
    rfl
  · exact ⟨rfl, hrec, h.location, h.same⟩

omit [ScriptParsing] in
theorem Changes.spendOutput {w : Option AddressBalanceLocation} {x x' : AddressBalanceLocation}
    {c : AddressBalanceLocationChange} (h : Changes w x c) (hr : x.spendOutput o = .ok x') :
    ∃ c', c.spendOutput o = .ok c' ∧ Changes w x' c' := by
  obtain ⟨b, hb, hr⟩ := bind_eq_ok.1 hr
  cases hr
  have hbz := Amount.tryFrom_eq_ok.1 hb
  have hvalid := contains_difference b.valid (balanceOf_contains w)
  have hsum : c.balance.zatoshis - o.value.zatoshis = b.zatoshis - balanceOf w := by
    rw [h.balance, hbz]
    omega
  refine ⟨{ c with balance := ⟨_, hvalid⟩ }, ?_, rfl, h.received, h.location, h.same⟩
  rw [AddressBalanceLocationInner.spendOutput, hsum, Amount.tryFrom_of_contains hvalid]
  rfl

theorem receive_inStep (h : InStep v changed m d) (ho : ∀ a, o.address net = some a → a ∈ changed)
    (hr : (receive net m l o : Exec ε _) = .ok (m', link)) :
    ∃ d', (receive net d l o : Exec ε _) = .ok (d', link) ∧ InStep v changed m' d' := by
  unfold receive at hr ⊢
  cases ha : o.address net with
  | none =>
    rw [ha] at hr
    cases hr
    exact ⟨d, rfl, h⟩
  | some a =>
    rw [ha] at hr
    obtain ⟨x, hx, hr⟩ := bind_eq_ok.1 hr
    cases hr
    rw [unwrap_eq_ok] at hx
    -- an address without a balance has not been paid before this block
    have hbefore : Changes (v a) (m[a]?.getD (.new l)) (d[a]?.getD (.new l)) := by
      cases hm : m[a]? with
      | none =>
        have hnm : a ∉ m := fun hmem => by simpa [hm] using mem_iff_isSome_getElem?.1 hmem
        rw [getElem?_eq_none fun hd => hnm ((h.keys a).2 hd), h.known a (ho a ha) hnm]
        exact changes_none (.new l)
      | some y =>
        have hmem : a ∈ d := (h.keys a).1 (mem_iff_exists.2 ⟨_, hm⟩)
        have hd := getElem?_eq_some_getElem hmem
        rw [hd]
        exact h.changes a y _ hm hd
    obtain ⟨c, hc, hch⟩ := hbefore.receiveOutput hx
    refine ⟨d.insert a c, ?_, h.insert hch⟩
    dsimp only
    rw [hc, ← hch.location]
    rfl

theorem spend_inStep (h : InStep v changed m d)
    (hr : (spend net m l o : Exec ε _) = .ok (m', link)) :
    ∃ d', (spend net d l o : Exec ε _) = .ok (d', link) ∧ InStep v changed m' d' := by
  unfold spend at hr ⊢
  cases ha : o.address net with
  | none =>
    rw [ha] at hr
    cases hr
    exact ⟨d, rfl, h⟩
  | some a =>
    rw [ha] at hr
    obtain ⟨y, hy, hr⟩ := bind_eq_ok.1 hr
    obtain ⟨x, hx, hr⟩ := bind_eq_ok.1 hr
    cases hr
    rw [expect_eq_ok] at hy
    rw [unwrap_eq_ok] at hx
    have hmem : a ∈ d := (h.keys a).1 (mem_iff_exists.2 ⟨_, hy⟩)
    have hd := getElem?_eq_some_getElem hmem
    obtain ⟨c, hc, hch⟩ := (h.changes a y _ hy hd).spendOutput hx
    refine ⟨d.insert a c, ?_, h.insert hch⟩
    dsimp only
    rw [hd, expect_some, ok_bind, hc, ← hch.location]
    rfl

omit [ScriptParsing] in
theorem pass_inStep {stepV : AddressBalances .nonNegative → OutputLocation → Output → Exec ε (_ × Option OutputLocation)}
    (stepC : AddressBalances .negativeAllowed → OutputLocation → Output → Exec ε (_ × Option OutputLocation))
    {us : List (OutputLocation × Utxo)} {links : List AddressUnspentOutput}
    (hstep : ∀ m d m' l u link, (l, u) ∈ us → InStep v changed m d → stepV m l u.output = .ok (m', link) →
      ∃ d', stepC d l u.output = .ok (d', link) ∧ InStep v changed m' d')
    (h : InStep v changed m d) (hp : pass stepV m us = .ok (m', links)) :
    ∃ d', pass stepC d us = .ok (d', links) ∧ InStep v changed m' d' := by
  induction us generalizing m d links with
  | nil =>
    cases hp
    exact ⟨d, rfl, h⟩
  | cons x us ih =>
    obtain ⟨⟨m₁, link⟩, h₁, hp⟩ := bind_eq_ok.1 hp
    obtain ⟨⟨m₂, rest⟩, h₂, hp⟩ := bind_eq_ok.1 hp
    cases hp
    obtain ⟨d₁, hd₁, hs₁⟩ := hstep _ _ _ x.1 x.2 _ List.mem_cons_self h h₁
    obtain ⟨d₂, hd₂, hs₂⟩ := ih (fun m d m' l u link hu => hstep m d m' l u link (List.mem_cons_of_mem _ hu)) hs₁ h₂
    exact ⟨d₂, bind_eq_ok.2 ⟨_, hd₁, bind_eq_ok.2 ⟨_, hd₂, rfl⟩⟩, hs₂⟩

theorem mem_changedAddresses {spent new : List (OutputLocation × Utxo)} :
    a ∈ changedAddresses net spent new ↔ ∃ x ∈ spent ++ new, x.2.output.address net = some a := by
  rw [changedAddresses, List.mem_dedup, List.mem_filterMap]

theorem prepare_inStep {tm : BalanceTable} {new spent : List (OutputLocation × Utxo)}
    {links links' : List AddressUnspentOutput} (h : HasValues t v) (hm : HasValues tm v)
    (hp : (t.prepare net insertMode new spent : Exec ε _) = .ok (m, links, links')) :
    ∃ d, (tm.prepare net mergeMode new spent : Exec ε _) = .ok (d, links, links') ∧
      InStep v (changedAddresses net spent new) m d := by
  obtain ⟨m₀, hm₀, hp⟩ := bind_eq_ok.1 hp
  obtain ⟨⟨m₁, created⟩, h₁, hp⟩ := bind_eq_ok.1 hp
  obtain ⟨⟨m₂, deleted⟩, h₂, hp⟩ := bind_eq_ok.1 hp
  obtain ⟨rfl, rfl, rfl⟩ : m₂ = m ∧ created = links ∧ deleted = links' := by simpa using Except.ok.inj hp
  obtain ⟨m₀', hm₀', hget⟩ := readAddrLocs_eq (ε := ε) h insertMode
    (changedAddresses net spent new)
  obtain rfl : m₀' = m₀ := by simpa [hm₀'] using hm₀
  obtain ⟨d₀, hd₀, hget'⟩ := readAddrLocs_eq hm mergeMode
    (changedAddresses net spent new)
  have hstart : InStep v (changedAddresses net spent new) m₀' d₀ := by
    refine ⟨?_, ?_, ?_⟩
    · intro a
      rw [mem_iff_isSome_getElem?, mem_iff_isSome_getElem?, hget, hget']
      split <;> simp
    · intro a x c hx hc
      rw [hget] at hx
      rw [hget'] at hc
      split at hx
      · rename_i hmem
        rw [if_pos hmem] at hc
        obtain ⟨y, hy, rfl⟩ := Option.map_eq_some_iff.1 hx
        rw [hy, Option.map_some, Option.some.injEq] at hc
        subst hc
        rw [hy]
        exact changes_intoNewChange y
      · simp at hx
    · intro a ha hn
      have := hget a
      rw [if_pos ha, getElem?_eq_none hn] at this
      simpa using this.symm
  have hnew : ∀ x ∈ new, ∀ a, x.2.output.address net = some a → a ∈ changedAddresses net spent new :=
    fun x hx a ha => mem_changedAddresses.2 ⟨x, List.mem_append_right _ hx, ha⟩
  obtain ⟨d₁, hd₁, hs₁⟩ := pass_inStep (receive net)
    (fun m d m' l u link hu h hr => receive_inStep h (hnew _ hu) hr) hstart h₁
  obtain ⟨d₂, hd₂, hs₂⟩ := pass_inStep (spend net)
    (fun m d m' l u link hu h hr => spend_inStep h hr) hs₁ h₂
  exact ⟨d₂, bind_eq_ok.2 ⟨_, hd₀, bind_eq_ok.2 ⟨_, hd₁, bind_eq_ok.2 ⟨_, hd₂, rfl⟩⟩⟩, hs₂⟩

end Zebra.Ledger
