import Zebra.Ledger.AddressLookup

namespace Zebra

open Lib Outcome NetworkUpgrade

variable [ScriptParsing]

section payments

variable {outputs : List Output} {address : Address} {amount : Amount .nonNegative}

theorem hasAmount_panics_iff : (hasAmount outputs address amount).Panics ↔ address.isScriptHash = false := by
  rw [hasAmount, check]
  by_cases h : address.isScriptHash = true <;> simp [h]

theorem hasAmount_cons (h : address.isScriptHash = true) :
    hasAmount (⟨amount, address.script⟩ :: outputs) address amount = .ok (some outputs) := by
  simp [hasAmount, check, h]

end payments

/-- Every disbursement that is reached is to a script hash. A disbursement is not reached if the
balance left the valid range before. -/
def Payable : Payments → Int → Prop
  | [], _ => True
  | (address, amount) :: disbursements, balance =>
    address.isScriptHash = true ∧ (-maxMoney ≤ balance - amount.zatoshis → Payable disbursements (balance - amount.zatoshis))

instance instDecidablePayable : ∀ l balance, Decidable (Payable l balance)
  | [], _ => isTrue trivial
  | (_, amount) :: l, balance =>
    have := instDecidablePayable l (balance - amount.zatoshis)
    inferInstanceAs (Decidable (_ ∧ (_ → _)))

def balanceAfter (disbursements : Payments) (balance : Int) : Int :=
  balance - (disbursements.map fun d => d.2.zatoshis).sum

section disburse

variable {disbursements : Payments} {balance : Amount .negativeAllowed}

theorem contains_sub (balance : Amount .negativeAllowed) (amount : Amount .nonNegative)
    (h : -maxMoney ≤ balance.zatoshis - amount.zatoshis) :
    Constraint.negativeAllowed.Contains (balance.zatoshis - amount.zatoshis) := by
  have hupper := balance.valid.2
  have hnonneg := amount.valid.1
  simp only [Constraint.Contains, Constraint.lower, Constraint.upper] at *
  omega

theorem disburse_cons {address : Address} {amount : Amount .nonNegative} (haddress : address.isScriptHash = true)
    (hbalance : -maxMoney ≤ balance.zatoshis - amount.zatoshis) (outputs : List Output) :
    disburse ((address, amount) :: disbursements) (⟨amount, address.script⟩ :: outputs) balance =
      disburse disbursements outputs ⟨_, contains_sub balance amount hbalance⟩ := by
  rw [disburse, hasAmount_cons haddress, ok_bind]
  dsimp only
  rw [Amount.tryFrom_of_contains (contains_sub balance amount hbalance)]

theorem disburse_not_panics_iff :
    (∀ outputs, ¬ (disburse disbursements outputs balance).Panics) ↔ Payable disbursements balance.zatoshis := by
  induction disbursements generalizing balance with
  | nil => simp [disburse, Payable]
  | cons d disbursements ih =>
    obtain ⟨address, amount⟩ := d
    constructor
    · intro h
      have haddress : address.isScriptHash = true := by
        by_contra hnot
        refine h [] (bind_panics.2 (.inl (hasAmount_panics_iff.2 ?_)))
        simpa using hnot
      refine ⟨haddress, fun hbalance => ?_⟩
      refine (@ih ⟨_, contains_sub balance amount hbalance⟩).1 fun outputs => ?_
      rw [← disburse_cons haddress hbalance outputs]
      exact h _
    · rintro ⟨haddress, hrest⟩ outputs hpanics
      rw [disburse, bind_panics, hasAmount_panics_iff, haddress] at hpanics
      obtain hfalse | ⟨left, -, hpanics⟩ := hpanics
      · cases hfalse
      · cases left with
        | none => simp at hpanics
        | some left =>
          dsimp only at hpanics
          split at hpanics
          · rename_i balance' hbalance'
            have heq := Amount.tryFrom_eq_ok.1 hbalance'
            have hlow : -maxMoney ≤ balance'.zatoshis := balance'.valid.1
            refine (@ih balance').2 ?_ left hpanics
            rw [heq]
            exact hrest (heq ▸ hlow)
          · simp at hpanics

theorem sum_disbursements_nonneg (disbursements : Payments) :
    0 ≤ (disbursements.map fun d => d.2.zatoshis).sum :=
  List.sum_nonneg fun v hv => by
    obtain ⟨d, -, rfl⟩ := List.mem_map.1 hv
    exact d.2.valid.1

theorem exists_disburse (haddresses : ∀ d ∈ disbursements, d.1.isScriptHash = true)
    (hbalance : -maxMoney ≤ balanceAfter disbursements balance.zatoshis) (left : List Output) :
    ∃ outputs balance', disburse disbursements outputs balance = .ok (left, balance') := by
  induction disbursements generalizing balance with
  | nil => exact ⟨left, balance, rfl⟩
  | cons d disbursements ih =>
    obtain ⟨address, amount⟩ := d
    have hsum := sum_disbursements_nonneg disbursements
    rw [balanceAfter, List.map_cons, List.sum_cons] at hbalance
    dsimp only at hbalance
    have hfirst : -maxMoney ≤ balance.zatoshis - amount.zatoshis := by omega
    obtain ⟨outputs, balance', h⟩ := @ih ⟨_, contains_sub balance amount hfirst⟩
      (fun d hd => haddresses d (List.mem_cons_of_mem _ hd)) (by rw [balanceAfter]; dsimp only; omega)
    refine ⟨⟨amount, address.script⟩ :: outputs, balance', ?_⟩
    rw [disburse_cons (haddresses _ List.mem_cons_self) hfirst, h]

theorem disburse_eq_ok {outputs left : List Output} {balance' : Amount .negativeAllowed}
    (h : disburse disbursements outputs balance = .ok (left, balance')) :
    (∀ d ∈ disbursements, d.1.isScriptHash = true) ∧ balance'.zatoshis = balanceAfter disbursements balance.zatoshis := by
  induction disbursements generalizing outputs balance with
  | nil =>
    obtain ⟨-, rfl⟩ := Prod.mk.inj (Except.ok.inj h)
    exact ⟨by simp, by simp [balanceAfter]⟩
  | cons d disbursements ih =>
    obtain ⟨address, amount⟩ := d
    obtain ⟨paid, hpaid, h⟩ := bind_eq_ok.1 h
    have haddress : address.isScriptHash = true := (check_bind_eq_ok.1 hpaid).1
    cases paid with
    | none => cases h
    | some paid =>
      dsimp only at h
      split at h
      · rename_i balance₁ hbalance₁
        obtain ⟨haddresses, heq⟩ := ih h
        refine ⟨List.forall_mem_cons.2 ⟨haddress, haddresses⟩, ?_⟩
        rw [heq, Amount.tryFrom_eq_ok.1 hbalance₁, balanceAfter, balanceAfter, List.map_cons, List.sum_cons]
        dsimp only
        omega
      · cases h

end disburse

variable {values : List (FundingStreamReceiver × Amount .nonNegative)} {subsidy : Amount .nonNegative}

theorem payStreams_not_panics_iff {height : Nat} {net : Network}
    (haddress : ∀ v ∈ values, ∃ address, (fundingStreamAddress height net v.1 : Exec SubsidyBlockError _) = .ok (some address)) :
    (∀ outputs, ¬ (payStreams height net values outputs).Panics) ↔ ∀ v ∈ values, ∀ address,
      (fundingStreamAddress height net v.1 : Exec SubsidyBlockError _) = .ok (some address) →
        address.isScriptHash = true := by
  induction values with
  | nil => simp [payStreams]
  | cons v values ih =>
    obtain ⟨receiver, amount⟩ := v
    rw [List.forall_mem_cons] at haddress
    obtain ⟨⟨address, hlookup⟩, haddress⟩ := haddress
    have hround : ∀ outputs, payStreams height net ((receiver, amount) :: values) outputs =
        hasAmount outputs address amount >>= fun left =>
          left.elim (.fail (.subsidy .fundingStreamNotFound)) (payStreams height net values) := by
      intro outputs
      rw [payStreams, hlookup, ok_bind]
      dsimp only
      cases hasAmount outputs address amount with
      | error e => rfl
      | ok left => cases left <;> rfl
    rw [List.forall_mem_cons, ← ih haddress]
    constructor
    · intro h
      have hscript : address.isScriptHash = true := by
        by_contra hnot
        refine h [] ?_
        rw [hround]
        exact bind_panics.2 (.inl (hasAmount_panics_iff.2 (by simpa using hnot)))
      refine ⟨fun address' h' => ?_, fun outputs => ?_⟩
      · obtain rfl : address = address' := Option.some.inj (Except.ok.inj (hlookup.symm.trans h'))
        exact hscript
      · have hpaid := h (⟨amount, address.script⟩ :: outputs)
        rw [hround, hasAmount_cons hscript] at hpaid
        exact hpaid
    · rintro ⟨hscript, h⟩ outputs hpanics
      rw [hround, bind_panics, hasAmount_panics_iff, hscript address hlookup] at hpanics
      obtain hfalse | ⟨left, -, hpanics⟩ := hpanics
      · cases hfalse
      · cases left with
        | none => simp at hpanics
        | some left => exact h left hpanics

def disbursementList (net : ConfiguredNetwork) : Payments :=
  net.lockboxTexts.filterMap fun d => d.1.map fun address => (address, d.2)

def deferredShare (values : List (FundingStreamReceiver × Amount .nonNegative)) : Int :=
  (((values.find? fun s => s.1 = .deferred).map Prod.snd).getD .zero).zatoshis

/-- The address of each stream of the height is a script hash. -/
def StreamsToScripts (net : Network) (blossom height : Nat) : Prop :=
  ∀ streams ∈ net.fundingStreamsAt height, ∀ r ∈ streams.recipients, r.1 ≠ .deferred →
    ∀ address ∈ r.2.addresses[addressPeriod net blossom height - addressPeriod net blossom streams.rangeStart]?,
      address.isScriptHash = true

/-- At the NU6.1 height, some outputs pay all disbursements. -/
def Disbursable (net : ConfiguredNetwork) (height : Nat) (share : Int) : Prop :=
  nu6_1.activationHeight net.network = some height →
    net.lockboxTexts ≠ [] ∧ -maxMoney ≤ balanceAfter (disbursementList net) share

/-- The addresses of a height from Canopy on are addresses of scripts, as far as they are used. -/
def PaymentsSupported (net : ConfiguredNetwork) (blossom height : Nat) (expectedBlockSubsidy : Amount .nonNegative) : Prop :=
  ∀ values, fundingStreamValues height net.network expectedBlockSubsidy = .ok values →
    (nu6_1.activationHeight net.network = some height →
      (∀ d ∈ net.lockboxTexts, d.1.isSome = true) ∧ Payable (disbursementList net) (deferredShare values)) ∧
    (Disbursable net height (deferredShare values) → StreamsToScripts net.network blossom height)

theorem Payable.isScriptHash {disbursements : Payments} {balance : Int}
    (h : Payable disbursements balance) (hbalance : -maxMoney ≤ balanceAfter disbursements balance) :
    ∀ d ∈ disbursements, d.1.isScriptHash = true := by
  induction disbursements generalizing balance with
  | nil => simp
  | cons d disbursements ih =>
    obtain ⟨address, amount⟩ := d
    have hsum := sum_disbursements_nonneg disbursements
    rw [balanceAfter, List.map_cons, List.sum_cons] at hbalance
    dsimp only at hbalance
    refine List.forall_mem_cons.2 ⟨h.1, ih (h.2 (by omega)) ?_⟩
    rw [balanceAfter]
    omega

section lockbox

variable {net : ConfiguredNetwork} {height : Nat} {ε : Type}

theorem lockboxDisbursements_eq (hheight : nu6_1.activationHeight net.network = some height)
    (hparse : ∀ d ∈ net.lockboxTexts, d.1.isSome = true) :
    (net.lockboxDisbursements height : Exec ε _) = .ok (disbursementList net) := by
  rw [ConfiguredNetwork.lockboxDisbursements, if_pos hheight, mapM_eq_ok, disbursementList]
  generalize net.lockboxTexts = texts at hparse
  induction texts with
  | nil => exact .nil
  | cons d texts ih =>
    rw [List.forall_mem_cons] at hparse
    obtain ⟨address, haddress⟩ := Option.isSome_iff_exists.1 hparse.1
    rw [List.filterMap_cons, haddress]
    exact .cons (by rw [haddress]; rfl) (ih hparse.2)

theorem lockboxDisbursements_panics (hheight : nu6_1.activationHeight net.network = some height)
    (hparse : ¬ ∀ d ∈ net.lockboxTexts, d.1.isSome = true) : (net.lockboxDisbursements height : Exec ε _).Panics := by
  rw [ConfiguredNetwork.lockboxDisbursements, if_pos hheight]
  generalize net.lockboxTexts = texts at hparse
  induction texts with
  | nil => simp at hparse
  | cons d texts ih =>
    rw [List.mapM_cons, bind_panics]
    cases haddress : d.1 with
    | none => exact .inl (by simp)
    | some address =>
      refine .inr ⟨(address, d.2), rfl, bind_panics.2 (.inl (ih fun h => hparse ?_))⟩
      exact List.forall_mem_cons.2 ⟨by rw [haddress]; rfl, h⟩

theorem disbursementList_isEmpty (hparse : ∀ d ∈ net.lockboxTexts, d.1.isSome = true) :
    (disbursementList net).isEmpty = true ↔ net.lockboxTexts = [] := by
  rw [List.isEmpty_iff, disbursementList, List.filterMap_eq_nil_iff]
  refine ⟨fun h => List.eq_nil_iff_forall_not_mem.2 fun d hd => ?_, fun h d hd => by rw [h] at hd; cases hd⟩
  have hnone := Option.map_eq_none_iff.1 (h d hd)
  have hsome := hparse d hd
  rw [hnone] at hsome
  cases hsome

theorem lockboxIsValid_eq (hheight : nu6_1.activationHeight net.network = some height)
    (hparse : ∀ d ∈ net.lockboxTexts, d.1.isSome = true) (hne : net.lockboxTexts ≠ []) (outputs : List Output)
    (balance : Amount .negativeAllowed) :
    lockboxIsValid net height outputs balance = disburse (disbursementList net) outputs balance := by
  rw [lockboxIsValid, if_pos hheight, lockboxDisbursements_eq hheight hparse, ok_bind,
    if_neg (mt (disbursementList_isEmpty hparse).1 hne)]

theorem lockbox_then_iff (pay : List Output → Exec SubsidyBlockError Unit) {share : Amount .negativeAllowed}
    (hheight : nu6_1.activationHeight net.network = some height) :
    (∀ outputs, ¬ (lockboxIsValid net height outputs share).Panics ∧
        ∀ r, lockboxIsValid net height outputs share = .ok r → ¬ (pay r.1).Panics) ↔
      ((∀ d ∈ net.lockboxTexts, d.1.isSome = true) ∧ Payable (disbursementList net) share.zatoshis) ∧
        (Disbursable net height share.zatoshis → ∀ outputs, ¬ (pay outputs).Panics) := by
  by_cases hparse : ∀ d ∈ net.lockboxTexts, d.1.isSome = true
  · by_cases hnil : net.lockboxTexts = []
    · -- without disbursements, the check fails before the streams are paid
      have hfail : ∀ outputs, lockboxIsValid net height outputs share =
          .fail (.other "missing lockbox disbursements for NU6.1 activation block") := by
        intro outputs
        rw [lockboxIsValid, if_pos hheight, lockboxDisbursements_eq hheight hparse, ok_bind,
          if_pos ((disbursementList_isEmpty hparse).2 hnil)]
      have hempty : disbursementList net = [] := List.isEmpty_iff.1 ((disbursementList_isEmpty hparse).2 hnil)
      simp [hfail, hempty, hnil, Payable, Disbursable, hheight]
    · simp only [lockboxIsValid_eq hheight hparse hnil]
      constructor
      · intro h
        have hpayable := disburse_not_panics_iff.1 fun outputs => (h outputs).1
        refine ⟨⟨hparse, hpayable⟩, fun hdisbursable left => ?_⟩
        have hbalance := (hdisbursable hheight).2
        obtain ⟨outputs, balance', hpaid⟩ := exists_disburse (hpayable.isScriptHash hbalance) hbalance left
        exact (h outputs).2 _ hpaid
      · rintro ⟨⟨-, hpayable⟩, hpay⟩ outputs
        refine ⟨disburse_not_panics_iff.2 hpayable outputs, fun r hpaid => ?_⟩
        have hbalance := (disburse_eq_ok hpaid).2
        refine hpay (fun _ => ⟨hnil, ?_⟩) r.1
        rw [← hbalance]
        exact r.2.valid.1
  · refine ⟨fun h => absurd ?_ (h []).1, fun h => absurd h.1.1 hparse⟩
    rw [lockboxIsValid, if_pos hheight]
    exact bind_panics.2 (.inl (lockboxDisbursements_panics hheight hparse))

end lockbox

theorem receivers_of_fundingStreamValues {height : Nat} {net : Network} (hne : subsidy.zatoshis ≠ 0)
    (hcanopy : ¬ current net height < .canopy) (h : fundingStreamValues height net subsidy = .ok values)
    (receiver : FundingStreamReceiver) :
    (∃ v ∈ values, v.1 = receiver) ↔ ∃ streams ∈ net.fundingStreamsAt height, ∃ r ∈ streams.recipients, r.1 = receiver := by
  rw [fundingStreamValues, if_neg (not_or.2 ⟨hne, hcanopy⟩)] at h
  cases hstreams : net.fundingStreamsAt height with
  | none =>
    rw [hstreams] at h
    cases h
    simp
  | some streams =>
    rw [hstreams] at h
    dsimp only at h
    have hmem := fun v => mem_of_mapM_eq_ok h (b := v)
    constructor
    · rintro ⟨v, hv, rfl⟩
      obtain ⟨r, hr, hvalue⟩ := (hmem v).1 hv
      obtain ⟨scaled, -, hvalue⟩ := bind_eq_ok.1 hvalue
      obtain ⟨value, -, hvalue⟩ := bind_eq_ok.1 hvalue
      cases hvalue
      exact ⟨streams, rfl, r, hr, rfl⟩
    · rintro ⟨streams', hstreams', r, hr, rfl⟩
      cases hstreams'
      obtain ⟨v, hvalue⟩ := exists_of_mapM_eq_ok h hr
      refine ⟨v, (hmem v).2 ⟨r, hr, hvalue⟩, ?_⟩
      obtain ⟨scaled, -, hvalue⟩ := bind_eq_ok.1 hvalue
      obtain ⟨value, -, hvalue⟩ := bind_eq_ok.1 hvalue
      exact (Except.ok.inj hvalue) ▸ rfl

namespace Parameters

variable {net : ConfiguredNetwork} {blossom height : Nat}

section

variable (hp : Parameters net blossom)
include hp

theorem payStreams_iff (hheight : height ≤ Height.max)
    (hdefined : PeriodDefined net.network blossom height) (hrange : IndexInRange net.network blossom height)
    (hne : subsidy.zatoshis ≠ 0) (hcanopy : ¬ current net.network height < .canopy)
    (hvalues : fundingStreamValues height net.network subsidy = .ok values) :
    (∀ outputs, ¬ (payStreams height net.network (values.filter fun s => s.1 ≠ .deferred) outputs).Panics) ↔
      StreamsToScripts net.network blossom height := by
  have hreceivers := receivers_of_fundingStreamValues hne hcanopy hvalues
  have hvalue : ∀ v ∈ values.filter (fun s => s.1 ≠ .deferred), v ∈ values ∧ v.1 ≠ .deferred := by
    intro v hv
    simpa using hv
  rw [payStreams_not_panics_iff]
  · constructor
    · intro h streams hstreams r hr hdeferred address haddress
      obtain ⟨v, hv, heq⟩ := (hreceivers r.1).2 ⟨streams, hstreams, r, hr, rfl⟩
      obtain ⟨address', haddress', hlookup⟩ :=
        hp.fundingStreamAddress_eq hheight hstreams hdefined hr hdeferred
          (hrange streams hstreams r hr hdeferred)
      obtain rfl : address' = address := Option.some.inj (haddress'.symm.trans haddress)
      refine h v ?_ address' (heq ▸ hlookup)
      simpa using ⟨hv, heq ▸ hdeferred⟩
    · intro h v hv address hlookup
      obtain ⟨hv, hdeferred⟩ := hvalue v hv
      obtain ⟨streams, hstreams, r, hr, heq⟩ := (hreceivers v.1).1 ⟨v, hv, rfl⟩
      rw [← heq] at hlookup hdeferred
      obtain ⟨address', haddress', hlookup'⟩ :=
        hp.fundingStreamAddress_eq hheight hstreams hdefined hr hdeferred
          (hrange streams hstreams r hr hdeferred)
      obtain rfl : address' = address := Option.some.inj (Except.ok.inj (hlookup'.symm.trans hlookup))
      exact h streams hstreams r hr hdeferred address' haddress'
  · intro v hv
    obtain ⟨hv, hdeferred⟩ := hvalue v hv
    obtain ⟨streams, hstreams, r, hr, heq⟩ := (hreceivers v.1).1 ⟨v, hv, rfl⟩
    rw [← heq] at hdeferred ⊢
    obtain ⟨address, -, hlookup⟩ := hp.fundingStreamAddress_eq hheight hstreams hdefined hr hdeferred
      (hrange streams hstreams r hr hdeferred)
    exact ⟨address, hlookup⟩

theorem fundingStreamsAreValid_iff (hheight : height ≤ Height.max)
    (hdefined : PeriodDefined net.network blossom height) (hrange : IndexInRange net.network blossom height) (hne : subsidy.zatoshis ≠ 0)
    (hcanopy : ¬ current net.network height < .canopy) :
    (∀ outputs, ¬ (fundingStreamsAreValid net height outputs subsidy).Panics) ↔
      PaymentsSupported net blossom height subsidy := by
  cases hvalues : fundingStreamValues height net.network subsidy with
  | error e => simp [fundingStreamsAreValid, PaymentsSupported, hvalues, lift]
  | ok values =>
    have hstreams := hp.payStreams_iff hheight hdefined hrange hne hcanopy hvalues
    have hpanics : ∀ outputs, (fundingStreamsAreValid net height outputs subsidy).Panics ↔
        (lockboxIsValid net height outputs ⟨deferredShare values, (Amount.widen _).valid⟩).Panics ∨
          ∃ r, lockboxIsValid net height outputs ⟨deferredShare values, (Amount.widen _).valid⟩ = .ok r ∧
            (payStreams height net.network (values.filter fun s => s.1 ≠ .deferred) r.1).Panics := by
      intro outputs
      rw [fundingStreamsAreValid, hvalues]
      change Panics (lockboxIsValid net height outputs _ >>= _) ↔ _
      rw [bind_panics]
      refine or_congr Iff.rfl (exists_congr fun r => and_congr_right fun _ => ?_)
      rw [bind_panics]
      simp
    simp only [PaymentsSupported, hvalues, Except.ok.injEq, forall_eq', hpanics, not_or, not_exists, not_and]
    by_cases hactivation : nu6_1.activationHeight net.network = some height
    · rw [lockbox_then_iff (payStreams height net.network _) hactivation, hstreams]
      simp only [hactivation, true_implies]
    · have hlockbox : ∀ outputs balance, lockboxIsValid net height outputs balance = .ok (outputs, balance) :=
        fun outputs balance => if_neg hactivation
      simp only [hlockbox, not_panics_ok, not_false_eq_true, Except.ok.injEq, forall_eq', true_and, hstreams,
        Disbursable, hactivation, false_implies, true_implies]

theorem foundersRewardAddress_succeeds {ε : Type}
    (hhalving : HalvingDefined net.network blossom height) :
    ∃ address, (foundersRewardAddress net.network height : Exec ε _) = .ok address ∧
      ∀ a ∈ address, a.isScriptHash = true := by
  rw [foundersRewardAddress]
  cases hinterval : I64.toU32 net.network.preBlossomHalvingInterval with
  | none => exact ⟨none, rfl, by simp⟩
  | some interval =>
    dsimp only
    split
    · exact ⟨none, rfl, by simp⟩
    · -- an interval of zero would leave the number of halvings undefined
      have hne : (net.network.slowStartShift + interval + net.network.founderAddressList.length - 1) /
          net.network.founderAddressList.length ≠ 0 := by
        rw [hp.founders_length]
        intro hzero
        have hpre : net.network.preBlossomHalvingInterval = 0 := by
          rw [I64.toU32, Option.ite_none_right_eq_some, Option.some.injEq] at hinterval
          omega
        have hpost := hp.post
        rcases hhalving with hlow | ⟨hdenominator, -⟩
        · omega
        · rw [halvingDenominator] at hdenominator
          split at hdenominator <;> omega
      rw [check, if_pos (by rw [hp.founders_length]; decide), ok_bind]
      cases founderAddressAdjustedHeight net.network height with
      | none => exact ⟨none, rfl, by simp⟩
      | some adjusted =>
        dsimp only
        rw [check, if_pos hne, ok_bind]
        exact ⟨_, rfl, fun a ha => hp.founders_isScriptHash a (List.mem_of_getElem? ha)⟩

theorem foundersRewardIsValid_not_panics
    (hhalving : HalvingDefined net.network blossom height) (hdefined : PeriodDefined net.network blossom height)
    (hreward : (foundersReward net.network height : Exec SubsidyBlockError _).Succeeds) (outputs : List Output) :
    ¬ (foundersRewardIsValid net.network height outputs).Panics := by
  obtain ⟨address, haddress, hscript⟩ := hp.foundersRewardAddress_succeeds hhalving
  obtain ⟨reward, hreward⟩ := hreward
  have hfirst : (net.network.heightForFirstHalving : Exec SubsidyBlockError _) =
      .ok (firstHalvingHeight net.network blossom).toNat :=
    hp.heightForFirstHalving_eq_ok.2 ⟨hdefined.1, hdefined.2.1, Int.toNat_of_nonneg hdefined.1⟩
  rw [foundersRewardIsValid, hfirst, ok_bind]
  split
  · split
    · rw [haddress, ok_bind]
      cases address with
      | none => simp
      | some address =>
        dsimp only
        rw [hreward, ok_bind, bind_panics, hasAmount_panics_iff, hscript address rfl]
        rintro (hfalse | ⟨left, -, hpanics⟩)
        · cases hfalse
        · cases left <;> simp at hpanics
    · simp
  · simp

end

end Parameters

end Zebra
