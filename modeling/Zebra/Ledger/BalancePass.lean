import Zebra.Ledger.BalanceTable
import Mathlib.Algebra.Order.BigOperators.Group.List

namespace Zebra.Ledger

open Lib AddressBalances BalanceTable

abbrev LocatedOutputs := List (OutputLocation × Output)

section

variable [ScriptParsing] (net : Network) (a : Address)

def paidTo (os : LocatedOutputs) : LocatedOutputs :=
  os.filter fun x => x.2.address net = some a

def totalTo (os : LocatedOutputs) : Int := ((paidTo net a os).map fun x => x.2.value.zatoshis).sum

def firstTo (os : LocatedOutputs) : Option OutputLocation := (paidTo net a os).head?.map Prod.fst

variable {net a} {os os' : LocatedOutputs} {x : OutputLocation × Output}

theorem mem_paidTo : x ∈ paidTo net a os ↔ x ∈ os ∧ x.2.address net = some a := by
  simp [paidTo]

@[simp] theorem totalTo_nil : totalTo net a [] = 0 := rfl

@[simp] theorem firstTo_nil : firstTo net a [] = none := rfl

theorem totalTo_append : totalTo net a (os ++ os') = totalTo net a os + totalTo net a os' := by
  simp [totalTo, paidTo]

theorem firstTo_append : firstTo net a (os ++ os') = (firstTo net a os).or (firstTo net a os') := by
  rw [firstTo, paidTo, List.filter_append, List.head?_append, firstTo, firstTo, paidTo, paidTo]
  cases (os.filter fun x => x.2.address net = some a).head? <;> rfl

theorem totalTo_cons : totalTo net a (x :: os) = (if x.2.address net = some a then x.2.value.zatoshis else 0) + totalTo net a os := by
  by_cases h : x.2.address net = some a <;> simp [totalTo, paidTo, h]

theorem firstTo_cons : firstTo net a (x :: os) = if x.2.address net = some a then some x.1 else firstTo net a os := by
  by_cases h : x.2.address net = some a <;> simp [firstTo, paidTo, h]

theorem totalTo_perm (h : os.Perm os') : totalTo net a os = totalTo net a os' :=
  ((h.filter _).map _).sum_eq

omit [ScriptParsing] in
theorem value_nonneg (o : Output) : 0 ≤ o.value.zatoshis := by
  have := o.value.valid
  simp only [Constraint.Contains, Constraint.lower] at this
  exact this.1

theorem totalTo_nonneg : 0 ≤ totalTo net a os := by
  refine List.sum_nonneg fun z hz => ?_
  obtain ⟨x, -, rfl⟩ := List.mem_map.1 hz
  exact value_nonneg x.2

theorem firstTo_eq_none : firstTo net a os = none ↔ ∀ x ∈ os, x.2.address net ≠ some a := by
  simp [firstTo, paidTo]

theorem totalTo_eq_zero (h : ∀ x ∈ os, x.2.address net ≠ some a) : totalTo net a os = 0 := by
  rw [totalTo, paidTo, List.filter_eq_nil_iff.2 (by simpa using h)]
  rfl

end

section

variable {C : Constraint} {ε : Type} {m m' m₁ : AddressBalances C}

def locationIn (m : AddressBalances C) (a : Address) : Option OutputLocation := m[a]?.map (·.location)

def balanceIn (m : AddressBalances C) (a : Address) : Int := (m[a]?.map (·.balance.zatoshis)).getD 0

def receivedIn (m : AddressBalances C) (a : Address) : Nat := (m[a]?.map (·.received)).getD 0

theorem receivedIn_lt (m : AddressBalances C) (a : Address) : receivedIn m a < 2 ^ 64 := by
  rw [receivedIn]
  cases m[a]? with
  | none => exact Nat.two_pow_pos 64
  | some x => exact x.received_lt

section

variable (m) (b a : Address) (x : AddressBalanceLocationInner C)

theorem locationIn_insert : locationIn (m.insert b x) a = if b = a then some x.location else locationIn m a := by
  by_cases h : b = a
  · simp [locationIn, h]
  · simp [locationIn, h, KeyedMap.getElem?_insert_of_ne h]

theorem balanceIn_insert : balanceIn (m.insert b x) a = if b = a then x.balance.zatoshis else balanceIn m a := by
  by_cases h : b = a
  · simp [balanceIn, h]
  · simp [balanceIn, h, KeyedMap.getElem?_insert_of_ne h]

theorem receivedIn_insert : receivedIn (m.insert b x) a = if b = a then x.received else receivedIn m a := by
  by_cases h : b = a
  · simp [receivedIn, h]
  · simp [receivedIn, h, KeyedMap.getElem?_insert_of_ne h]

end

def outputsOf (us : List (OutputLocation × Utxo)) : LocatedOutputs := us.map fun x => (x.1, x.2.output)

variable [ScriptParsing] {net : Network} {l : OutputLocation} {o : Output} {us : List (OutputLocation × Utxo)}
  {links : List AddressUnspentOutput} {link : Option OutputLocation}

def linksTo (net : Network) (m : AddressBalances C) (os : LocatedOutputs) : List AddressUnspentOutput :=
  os.filterMap fun x => (x.2.address net).bind fun a => (locationIn m a).map fun l => ⟨l, x.1⟩

theorem mem_linksTo {os : LocatedOutputs} {al : OutputLocation} :
    ⟨al, l⟩ ∈ linksTo net m os ↔ ∃ x ∈ os, ∃ a, x.2.address net = some a ∧ locationIn m a = some al ∧ x.1 = l := by
  simp only [linksTo, List.mem_filterMap, Option.bind_eq_some_iff, Option.map_eq_some_iff, AddressUnspentOutput.mk.injEq]
  constructor
  · rintro ⟨x, hx, a, ha, l', hl', rfl, rfl⟩
    exact ⟨x, hx, a, ha, hl', rfl⟩
  · rintro ⟨x, hx, a, ha, hl', rfl⟩
    exact ⟨x, hx, a, ha, al, hl', rfl, rfl⟩

structure Received (net : Network) (m : AddressBalances C) (os : LocatedOutputs)
    (m' : AddressBalances C) : Prop where
  location : ∀ a, locationIn m' a = (locationIn m a).or (firstTo net a os)
  balance : ∀ a, balanceIn m' a = balanceIn m a + totalTo net a os
  received : ∀ a, receivedIn m' a = saturatingAdd (receivedIn m a) (totalTo net a os).toNat

structure Spent (net : Network) (m : AddressBalances C) (os : LocatedOutputs)
    (m' : AddressBalances C) : Prop where
  location : ∀ a, locationIn m' a = locationIn m a
  balance : ∀ a, balanceIn m' a = balanceIn m a - totalTo net a os
  received : ∀ a, receivedIn m' a = receivedIn m a
  known : ∀ x ∈ os, ∀ a, x.2.address net = some a → (locationIn m a).isSome

theorem Received.refl (m : AddressBalances C) : Received net m [] m where
  location a := by simp
  balance a := by simp
  received a := (saturatingAdd_zero (receivedIn_lt m a)).symm

theorem Received.trans {os os' : LocatedOutputs} (h : Received net m os m₁) (h' : Received net m₁ os' m') :
    Received net m (os ++ os') m' where
  location a := by rw [h'.location, h.location, firstTo_append, Option.or_assoc]
  balance a := by rw [h'.balance, h.balance, totalTo_append, add_assoc]
  received a := by
    rw [h'.received, h.received, saturatingAdd_assoc, saturatingAdd_right, totalTo_append,
      Int.toNat_add totalTo_nonneg totalTo_nonneg]

theorem Spent.refl (m : AddressBalances C) : Spent net m [] m where
  location a := rfl
  balance a := by simp
  received a := rfl
  known := nofun

theorem Spent.trans {os os' : LocatedOutputs} (h : Spent net m os m₁) (h' : Spent net m₁ os' m') :
    Spent net m (os ++ os') m' where
  location a := by rw [h'.location, h.location]
  balance a := by rw [h'.balance, h.balance, totalTo_append, sub_sub]
  received a := by rw [h'.received, h.received]
  known x hx a ha := by
    rcases List.mem_append.1 hx with hx | hx
    · exact h.known x hx a ha
    · rw [← h.location]
      exact h'.known x hx a ha

theorem receive_spec (h : (receive net m l o : Exec ε _) = .ok (m', link)) :
    Received net m [(l, o)] m' ∧ link = (o.address net).bind (locationIn m') := by
  unfold receive at h
  cases ha : o.address net with
  | none =>
    rw [ha] at h
    cases h
    refine ⟨⟨fun a => ?_, fun a => ?_, fun a => ?_⟩, rfl⟩
    · simp [firstTo_cons, ha]
    · simp [totalTo_cons, ha]
    · simp [totalTo_cons, ha, saturatingAdd_zero (receivedIn_lt m a)]
  | some b =>
    rw [ha] at h
    obtain ⟨x, hx, h⟩ := bind_eq_ok.1 h
    cases h
    rw [Outcome.unwrap_eq_ok] at hx
    obtain ⟨z, hz, hx⟩ := bind_eq_ok.1 hx
    cases hx
    rw [Amount.tryFrom_eq_ok] at hz
    refine ⟨⟨fun a => ?_, fun a => ?_, fun a => ?_⟩, ?_⟩
    · rw [locationIn_insert, firstTo_cons, ha]
      by_cases hab : b = a
      · subst hab
        cases hm : m[b]? <;> simp [locationIn, hm, AddressBalanceLocationInner.new]
      · simp [hab]
    · rw [balanceIn_insert, totalTo_cons, ha]
      by_cases hab : b = a
      · subst hab
        cases hm : m[b]? <;> simp [balanceIn, hm, hz, AddressBalanceLocationInner.new]
      · simp [hab]
    · rw [receivedIn_insert, totalTo_cons, ha]
      by_cases hab : b = a
      · subst hab
        cases hm : m[b]? <;> simp [receivedIn, hm, AddressBalanceLocationInner.new]
      · simp [hab, saturatingAdd_zero (receivedIn_lt m a)]
    · simp [locationIn_insert]

theorem spend_spec (h : (spend net m l o : Exec ε _) = .ok (m', link)) :
    Spent net m [(l, o)] m' ∧ link = (o.address net).bind (locationIn m') := by
  unfold spend at h
  cases ha : o.address net with
  | none =>
    rw [ha] at h
    cases h
    refine ⟨⟨fun a => rfl, fun a => ?_, fun a => rfl, ?_⟩, rfl⟩
    · simp [totalTo_cons, ha]
    · simp [ha]
  | some b =>
    rw [ha] at h
    obtain ⟨y, hy, h⟩ := bind_eq_ok.1 h
    obtain ⟨x, hx, h⟩ := bind_eq_ok.1 h
    cases h
    rw [Outcome.expect_eq_ok] at hy
    rw [Outcome.unwrap_eq_ok] at hx
    obtain ⟨z, hz, hx⟩ := bind_eq_ok.1 hx
    cases hx
    rw [Amount.tryFrom_eq_ok] at hz
    refine ⟨⟨fun a => ?_, fun a => ?_, fun a => ?_, ?_⟩, ?_⟩
    · rw [locationIn_insert]
      by_cases hab : b = a
      · subst hab
        simp [locationIn, hy]
      · simp [hab]
    · rw [balanceIn_insert, totalTo_cons, ha]
      by_cases hab : b = a
      · subst hab
        simp [balanceIn, hy, hz]
      · simp [hab]
    · rw [receivedIn_insert]
      by_cases hab : b = a
      · subst hab
        simp [receivedIn, hy]
      · simp [hab]
    · simp only [List.mem_singleton, forall_eq, ha, Option.some.injEq]
      rintro _ rfl
      simp [locationIn, hy]
    · simp [locationIn_insert]

/-- A pass whose steps compose and keep the locations that are known links every output to
the location its address has in the end. -/
theorem pass_spec {R : AddressBalances C → LocatedOutputs → AddressBalances C → Prop}
    {step : AddressBalances C → OutputLocation → Output → Exec ε (AddressBalances C × Option OutputLocation)}
    (hrefl : ∀ m, R m [] m) (htrans : ∀ {m m₁ m' os os'}, R m os m₁ → R m₁ os' m' → R m (os ++ os') m')
    (hkeep : ∀ {m m' os}, R m os m' → ∀ a, (locationIn m a).isSome → locationIn m' a = locationIn m a)
    (hstep : ∀ {m l o m' link}, step m l o = .ok (m', link) →
      R m [(l, o)] m' ∧ link = (o.address net).bind (locationIn m') ∧
        ∀ a, o.address net = some a → (locationIn m' a).isSome)
    (h : pass step m us = .ok (m', links)) :
    R m (outputsOf us) m' ∧ links = linksTo net m' (outputsOf us) := by
  induction us generalizing m links with
  | nil =>
    obtain ⟨rfl, rfl⟩ := Prod.mk.inj (Except.ok.inj h)
    exact ⟨hrefl m, rfl⟩
  | cons x us ih =>
    obtain ⟨⟨m₁, link⟩, h₁, h⟩ := bind_eq_ok.1 h
    obtain ⟨⟨m₂, rest⟩, h₂, h⟩ := bind_eq_ok.1 h
    obtain ⟨rfl, rfl⟩ := Prod.mk.inj (Except.ok.inj h)
    obtain ⟨hr₁, rfl, hsome⟩ := hstep h₁
    obtain ⟨hr₂, rfl⟩ := ih h₂
    refine ⟨htrans hr₁ hr₂, ?_⟩
    have hlink : ((x.2.output.address net).bind (locationIn m₁)).map (fun a => AddressUnspentOutput.mk a x.1) =
        (x.2.output.address net).bind fun a => (locationIn m₂ a).map fun l => ⟨l, x.1⟩ := by
      cases ha : x.2.output.address net with
      | none => rfl
      | some a => rw [Option.bind_some, Option.bind_some, hkeep hr₂ a (hsome a ha)]
    rw [hlink]
    simp only [linksTo, outputsOf, List.map_cons, List.filterMap_cons]
    cases (x.2.output.address net).bind fun a => (locationIn m₂ a).map fun l => AddressUnspentOutput.mk l x.1 <;> rfl

theorem pass_receive (h : (pass (receive net) m us : Exec ε _) = .ok (m', links)) :
    Received net m (outputsOf us) m' ∧ links = linksTo net m' (outputsOf us) := by
  refine pass_spec Received.refl Received.trans ?_ ?_ h
  · intro m m' os hr a ha
    rw [hr.location]
    obtain ⟨l, hl⟩ := Option.isSome_iff_exists.1 ha
    rw [hl, Option.some_or]
  · intro m l o m' link hs
    obtain ⟨hr, hlink⟩ := receive_spec hs
    refine ⟨hr, hlink, fun a ha => ?_⟩
    rw [hr.location, firstTo_cons, if_pos ha, Option.isSome_or]
    simp

theorem pass_spend (h : (pass (spend net) m us : Exec ε _) = .ok (m', links)) :
    Spent net m (outputsOf us) m' ∧ links = linksTo net m' (outputsOf us) := by
  refine pass_spec Spent.refl Spent.trans ?_ ?_ h
  · intro m m' os hr a _
    exact hr.location a
  · intro m l o m' link hs
    obtain ⟨hr, hlink⟩ := spend_spec hs
    refine ⟨hr, hlink, fun a ha => ?_⟩
    rw [hr.location]
    exact hr.known _ List.mem_cons_self a ha

end

section

variable [ScriptParsing] {C : Constraint} {net : Network} {v v' : Address → Option AddressBalanceLocation}
  {new spent : LocatedOutputs} {changed : List Address} {m₀ m₁ m₂ : AddressBalances C}

/-- The values before and after a block that creates `new` and spends `spent`. -/
structure Settles (net : Network) (v : Address → Option AddressBalanceLocation)
    (new spent : LocatedOutputs) (v' : Address → Option AddressBalanceLocation) : Prop where
  location : ∀ a, (v' a).map (·.location) = ((v a).map (·.location)).or (firstTo net a new)
  balance : ∀ a, balanceOf (v' a) = balanceOf (v a) + totalTo net a new - totalTo net a spent
  received : ∀ a, receivedOf (v' a) = saturatingAdd (receivedOf (v a)) (totalTo net a new).toNat

/-- What the passes start from: a value `y` becomes `start y`, and `base` and `earlier` are
the parts of its balance and of its total that are not in memory. -/
structure StartsFrom (v : Address → Option AddressBalanceLocation) (changed : List Address)
    (base : Address → Int) (earlier : Address → Nat) (m₀ : AddressBalances C) : Prop where
  location : ∀ a ∈ changed, locationIn m₀ a = (v a).map (·.location)
  balance : ∀ a ∈ changed, base a + balanceIn m₀ a = balanceOf (v a)
  received : ∀ a ∈ changed, saturatingAdd (earlier a) (receivedIn m₀ a) = receivedOf (v a)
  unchanged : ∀ a ∉ changed, m₀[a]? = none

omit [ScriptParsing] in
theorem locationIn_eq_none {m : AddressBalances C} {a : Address} : locationIn m a = none ↔ m[a]? = none := by
  simp [locationIn]

theorem mem_changed_of_passes (h₀ : ∀ a ∉ changed, m₀[a]? = none) (hr : Received net m₀ new m₁)
    (hs : Spent net m₁ spent m₂) (hchanged : ∀ x ∈ spent ++ new, ∀ a, x.2.address net = some a → a ∈ changed)
    {a : Address} {y : AddressBalanceLocationInner C} (hy : m₂[a]? = some y) : a ∈ changed := by
  by_contra ha
  have hpaid : ∀ x ∈ new, x.2.address net ≠ some a :=
    fun x hx hxa => ha (hchanged x (List.mem_append_right _ hx) a hxa)
  have hlocation : locationIn m₂ a = none := by
    rw [hs.location, hr.location, locationIn_eq_none.2 (h₀ a ha), firstTo_eq_none.2 hpaid, Option.or_none]
  rw [locationIn_eq_none, hy] at hlocation
  simp at hlocation

theorem settles_of_passes {base : Address → Int} {earlier : Address → Nat}
    (h₀ : StartsFrom v changed base earlier m₀) (hr : Received net m₀ new m₁) (hs : Spent net m₁ spent m₂)
    (hchanged : ∀ x ∈ spent ++ new, ∀ a, x.2.address net = some a → a ∈ changed)
    (hdisk : ∀ a, ∀ y ∈ v a, y.location.onDisk = y.location) (hnew : ∀ x ∈ new, x.1.onDisk = x.1)
    (hnone : ∀ a, m₂[a]? = none → v' a = v a)
    (hsome : ∀ a y, m₂[a]? = some y → ∃ x, v' a = some x ∧ x.location = y.location.onDisk ∧
      x.balance.zatoshis = base a + y.balance.zatoshis ∧ x.received = saturatingAdd (earlier a) y.received) :
    Settles net v new spent v' := by
  have key : ∀ a, (v' a).map (·.location) = ((v a).map (·.location)).or (firstTo net a new) ∧
      balanceOf (v' a) = balanceOf (v a) + totalTo net a new - totalTo net a spent ∧
      receivedOf (v' a) = saturatingAdd (receivedOf (v a)) (totalTo net a new).toNat := by
    intro a
    have hlocation : locationIn m₂ a = (locationIn m₀ a).or (firstTo net a new) := by rw [hs.location, hr.location]
    have hbalance : balanceIn m₂ a = balanceIn m₀ a + totalTo net a new - totalTo net a spent := by
      rw [hs.balance, hr.balance]
    have hreceived : receivedIn m₂ a = saturatingAdd (receivedIn m₀ a) (totalTo net a new).toNat := by
      rw [hs.received, hr.received]
    cases hm : m₂[a]? with
    | none =>
      -- the block neither pays the address nor spends from it
      rw [locationIn_eq_none.2 hm, eq_comm, Option.or_eq_none_iff, firstTo_eq_none] at hlocation
      have htotal := totalTo_eq_zero hlocation.2
      have hzero : balanceIn m₂ a = 0 ∧ balanceIn m₀ a = 0 := by
        simp [balanceIn, hm, locationIn_eq_none.1 hlocation.1]
      have hspent : totalTo net a spent = 0 := by omega
      rw [hnone a hm, firstTo_eq_none.2 hlocation.2, htotal, hspent, Option.or_none]
      exact ⟨rfl, by omega, (saturatingAdd_zero (receivedOf_lt _)).symm⟩
    | some y =>
      have ha := mem_changed_of_passes h₀.unchanged hr hs hchanged hm
      obtain ⟨x, hx, hxl, hxb, hxr⟩ := hsome a y hm
      rw [h₀.location a ha] at hlocation
      have hy : locationIn m₂ a = some y.location := by simp [locationIn, hm]
      have hydisk : y.location.onDisk = y.location := by
        rw [hy] at hlocation
        cases hv : v a with
        | some w =>
          rw [hv, Option.map_some, Option.some_or, Option.some.injEq] at hlocation
          rw [hlocation]
          exact hdisk a w hv
        | none =>
          rw [hv, Option.map_none, Option.none_or, eq_comm, firstTo, Option.map_eq_some_iff] at hlocation
          obtain ⟨z, hz, hzl⟩ := hlocation
          rw [← hzl]
          exact hnew z (mem_paidTo.1 (List.mem_of_mem_head? hz)).1
      refine ⟨?_, ?_, ?_⟩
      · rw [hx, Option.map_some, hxl, hydisk, ← hlocation, hy]
      · have hyb : balanceIn m₂ a = y.balance.zatoshis := by simp [balanceIn, hm]
        have := h₀.balance a ha
        rw [hx]
        simp only [balanceOf, Option.map_some, Option.getD_some, hxb] at *
        omega
      · have hyr : receivedIn m₂ a = y.received := by simp [receivedIn, hm]
        rw [hx, ← h₀.received a ha, saturatingAdd_assoc, ← hreceived, hyr]
        exact hxr
  exact ⟨fun a => (key a).1, fun a => (key a).2.1, fun a => (key a).2.2⟩

variable {ε : Type} {t : BalanceTable}

omit [ScriptParsing] in
theorem startsFrom_insertMode (h : HasValues t v) (changed : List Address) :
    ∃ m₀, (t.readAddrLocs insertMode changed : Exec ε _) = .ok m₀ ∧
      StartsFrom v changed (fun _ => 0) (fun _ => 0) m₀ := by
  obtain ⟨m, hm, hget⟩ := readAddrLocs_eq h insertMode changed
  refine ⟨m, hm, fun a ha => ?_, fun a ha => ?_, fun a ha => ?_, fun a ha => ?_⟩
  · rw [locationIn, hget, if_pos ha, Option.map_map]
    rfl
  · rw [balanceIn, hget, if_pos ha, Option.map_map, zero_add]
    rfl
  · rw [receivedIn, hget, if_pos ha, Option.map_map]
    exact zero_saturatingAdd (receivedOf_lt (v a))
  · rw [hget, if_neg ha]

omit [ScriptParsing] in
theorem startsFrom_mergeMode (h : HasValues t v) (changed : List Address) :
    ∃ m₀, (t.readAddrLocs mergeMode changed : Exec ε _) = .ok m₀ ∧ (∀ a, balanceIn m₀ a = 0) ∧
      StartsFrom v changed (fun a => balanceOf (v a)) (fun a => receivedOf (v a)) m₀ := by
  obtain ⟨m, hm, hget⟩ := readAddrLocs_eq h mergeMode changed
  have hzero : ∀ a, balanceIn m a = 0 ∧ receivedIn m a = 0 := by
    intro a
    rw [balanceIn, receivedIn, hget]
    split
    · cases v a <;> simp [mergeMode, AddressBalanceLocation.intoNewChange, AddressBalanceLocationInner.new]
    · simp
  refine ⟨m, hm, fun a => (hzero a).1, fun a ha => ?_, fun a _ => ?_, fun a _ => ?_, fun a ha => ?_⟩
  · rw [locationIn, hget, if_pos ha, Option.map_map]
    rfl
  · rw [(hzero a).1, add_zero]
  · rw [(hzero a).2, saturatingAdd_zero (receivedOf_lt _)]
  · rw [hget, if_neg ha]

theorem settles_insertMode {m₀ m₁ m₂ : AddressBalances .nonNegative} (h : HasValues t v)
    (hread : (t.readAddrLocs insertMode changed : Exec ε _) = .ok m₀) (hr : Received net m₀ new m₁)
    (hs : Spent net m₁ spent m₂) (hchanged : ∀ x ∈ spent ++ new, ∀ a, x.2.address net = some a → a ∈ changed)
    (hnew : ∀ x ∈ new, x.1.onDisk = x.1) :
    ∃ v', HasValues (t.writeAddrLocs insertMode m₂) v' ∧ Settles net v new spent v' := by
  obtain ⟨m, hm, h₀⟩ := startsFrom_insertMode h changed
  obtain rfl := Except.ok.inj (hm.symm.trans hread)
  refine ⟨_, hasValues_insert h m₂, settles_of_passes h₀ hr hs hchanged (fun a => (h a).onDisk) hnew ?_ ?_⟩
  · intro a ha
    simp [valuesAfter, ha]
  · intro a y ha
    exact ⟨stored y, by simp [valuesAfter, ha], rfl, (zero_add _).symm, (zero_saturatingAdd y.received_lt).symm⟩

theorem settles_mergeMode {m₀ m₁ m₂ : AddressBalances .negativeAllowed} (h : HasValues t v)
    (hread : (t.readAddrLocs mergeMode changed : Exec ε _) = .ok m₀) (hr : Received net m₀ new m₁)
    (hs : Spent net m₁ spent m₂) (hchanged : ∀ x ∈ spent ++ new, ∀ a, x.2.address net = some a → a ∈ changed)
    (hnew : ∀ x ∈ new, x.1.onDisk = x.1)
    (hrange : ∀ a, Constraint.nonNegative.Contains (balanceOf (v a) + totalTo net a new - totalTo net a spent)) :
    ∃ v', HasValues (t.writeAddrLocs mergeMode m₂) v' ∧ Settles net v new spent v' := by
  obtain ⟨m, hm, hzero, h₀⟩ := startsFrom_mergeMode h changed
  obtain rfl := Except.ok.inj (hm.symm.trans hread)
  have hsum : ∀ a y, m₂[a]? = some y →
      balanceOf (v a) + totalTo net a new - totalTo net a spent = balanceOf (v a) + y.balance.zatoshis := by
    intro a y hy
    have hb := hs.balance a
    rw [hr.balance, hzero a, balanceIn, hy, Option.map_some, Option.getD_some] at hb
    omega
  let after (a : Address) (y : AddressBalanceLocationChange) : AddressBalanceLocation :=
    ⟨⟨_, hrange a⟩, saturatingAdd (receivedOf (v a)) y.received, y.location, saturatingAdd_lt _ _⟩
  refine ⟨fun a => (m₂[a]?.map fun y => stored (after a y)).or (v a), hasValues_mergeMode h ?_ ?_,
    settles_of_passes h₀ hr hs hchanged (fun a => (h a).onDisk) hnew ?_ ?_⟩
  · intro a ha
    simp [ha]
  · intro a y ha
    refine ⟨after a y, by simp [ha], ⟨?_, rfl, rfl, ?_⟩⟩
    · change y.balance.zatoshis = balanceOf (v a) + totalTo net a new - totalTo net a spent - balanceOf (v a)
      rw [hsum a y ha]
      omega
    · intro w hw
      have hl := hs.location a
      rw [hr.location, h₀.location a (mem_changed_of_passes h₀.unchanged hr hs hchanged ha), Option.mem_def.1 hw,
        locationIn, ha] at hl
      exact (Option.some.inj hl).symm
  · intro a ha
    simp [ha]
  · intro a y ha
    exact ⟨stored (after a y), by simp [ha], rfl, hsum a y ha, rfl⟩

end

end Zebra.Ledger
