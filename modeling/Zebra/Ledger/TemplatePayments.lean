import Zebra.Ledger.Coinbase
import Zebra.Rpc.CoinbaseOutputs

namespace Zebra

open Lib Outcome

variable [ScriptParsing]

def paymentOutput (p : Address × Amount .nonNegative) : Output := ⟨p.2, p.1.script⟩

variable {values : List (FundingStreamReceiver × Amount .nonNegative)}
  {payments : Payments} {subsidy : Amount .nonNegative}

section perm

variable {outputs rest : List Output}

theorem hasAmount_of_perm {p : Address × Amount .nonNegative} (hscript : p.1.isScriptHash = true)
    (hperm : outputs.Perm (paymentOutput p :: rest)) :
    ∃ left, hasAmount outputs p.1 p.2 = .ok (some left) ∧ left.Perm rest := by
  refine ⟨outputs.erase (paymentOutput p), ?_, ?_⟩
  · have hmem : (⟨p.2, p.1.script⟩ : Output) ∈ outputs := hperm.mem_iff.2 List.mem_cons_self
    rw [hasAmount, check, if_pos hscript, ok_bind]
    dsimp only
    rw [if_pos hmem]
    rfl
  · simpa using hperm.erase (paymentOutput p)

theorem disburse_of_perm {disbursements : Payments} {balance : Amount .negativeAllowed}
    (hscripts : ∀ d ∈ disbursements, d.1.isScriptHash = true)
    (hbalance : -maxMoney ≤ balanceAfter disbursements balance.zatoshis)
    (hperm : outputs.Perm (disbursements.map paymentOutput ++ rest)) :
    ∃ left balance', disburse disbursements outputs balance = .ok (left, balance') ∧ left.Perm rest := by
  induction disbursements generalizing outputs balance with
  | nil => exact ⟨outputs, balance, rfl, hperm⟩
  | cons d disbursements ih =>
    obtain ⟨address, amount⟩ := d
    have hsum := sum_disbursements_nonneg disbursements
    rw [balanceAfter, List.map_cons, List.sum_cons] at hbalance
    dsimp only at hbalance
    have hfirst : -maxMoney ≤ balance.zatoshis - amount.zatoshis := by omega
    rw [List.forall_mem_cons] at hscripts
    obtain ⟨left, hleft, hrest⟩ := hasAmount_of_perm (p := (address, amount)) hscripts.1 hperm
    obtain ⟨left', balance', hpaid, hperm'⟩ := @ih _ ⟨_, contains_sub balance amount hfirst⟩ hscripts.2
      (by rw [balanceAfter]; dsimp only; omega) hrest
    refine ⟨left', balance', ?_, hperm'⟩
    rw [disburse, hleft, ok_bind]
    rw [Amount.tryFrom_of_contains (contains_sub balance amount hfirst)]
    exact hpaid

def PaidTo (height : Nat) (net : Network) (v : FundingStreamReceiver × Amount .nonNegative)
    (p : Address × Amount .nonNegative) : Prop :=
  (fundingStreamAddress height net v.1 : Exec SubsidyBlockError _) = .ok (some p.1) ∧ p.2 = v.2 ∧
    p.1.isScriptHash = true

theorem payStreams_of_perm {height : Nat} {net : Network} (hpaid : List.Forall₂ (PaidTo height net) values payments)
    (hperm : outputs.Perm (payments.map paymentOutput ++ rest)) : payStreams height net values outputs = .ok () := by
  induction hpaid generalizing outputs with
  | nil => rfl
  | @cons v p values payments hv _ ih =>
    obtain ⟨hlookup, hamount, hscript⟩ := hv
    obtain ⟨left, hleft, hrest⟩ := hasAmount_of_perm hscript hperm
    rw [payStreams, hlookup, ok_bind]
    dsimp only
    rw [← hamount, hleft, ok_bind]
    exact ih hrest

end perm

omit [ScriptParsing] in
theorem map_fst_of_fundingStreamValues {height : Nat} {net : Network}
    (h : fundingStreamValues height net subsidy = .ok values) : (values.map Prod.fst).Nodup := by
  rw [fundingStreamValues] at h
  split at h
  · cases h
    exact List.nodup_nil
  split at h
  · cases h
    exact List.nodup_nil
  · rename_i streams _
    have heq : values.map Prod.fst = streams.recipients.map Prod.fst := by
      rw [mapM_eq_ok] at h
      generalize streams.recipients = recipients at h
      induction h with
      | nil => rfl
      | cons hvalue _ ih =>
        obtain ⟨scaled, -, hvalue⟩ := bind_eq_ok.1 hvalue
        obtain ⟨value, -, hvalue⟩ := bind_eq_ok.1 hvalue
        rw [List.map_cons, List.map_cons, ih, ← Except.ok.inj hvalue]
    exact heq ▸ streams.nodup

omit [ScriptParsing] in
theorem sum_values (h : (values.map Prod.fst).Nodup) : (values.map fun v => v.2.zatoshis).sum = deferredShare values +
      ((values.filter fun s => s.1 ≠ .deferred).map fun v => v.2.zatoshis).sum := by
  induction values with
  | nil => rfl
  | cons v values ih =>
    rw [List.map_cons, List.nodup_cons] at h
    rw [List.map_cons, List.sum_cons]
    by_cases hv : v.1 = .deferred
    · have hfilter : values.filter (fun s => s.1 ≠ .deferred) = values := by
        refine List.filter_eq_self.2 fun s hs => ?_
        simp only [ne_eq, decide_not, Bool.not_eq_eq_eq_not, Bool.not_true, decide_eq_false_iff_not]
        exact fun heq => h.1 (hv ▸ heq ▸ List.mem_map_of_mem hs)
      rw [List.filter_cons_of_neg (by simp [hv]), hfilter, deferredShare, List.find?_cons_of_pos (by simp [hv])]
      rfl
    · rw [List.filter_cons_of_pos (by simp [hv]), List.map_cons, List.sum_cons, ih h.2, deferredShare, deferredShare,
        List.find?_cons_of_neg (by simp [hv])]
      omega

section payments

variable {net : ConfiguredNetwork} {blossom height : Nat}

theorem Parameters.paidTo_of_streamPayments (hp : Parameters net blossom) (hheight : height ≤ Height.max)
    (hscripts : ∀ s ∈ net.network.fundingStreams, ∀ r ∈ s.recipients, ∀ a ∈ r.2.addresses, a.isScriptHash = true)
    (hreceivers : ∀ v ∈ values, ∃ streams ∈ net.network.fundingStreamsAt height, ∃ r ∈ streams.recipients, r.1 = v.1)
    (h : (streamPayments net.network height values : Exec SubsidyBlockError _) = .ok payments) :
    List.Forall₂ (PaidTo height net.network) (values.filter fun s => s.1 ≠ .deferred) payments := by
  obtain ⟨addresses, haddresses, hpayments⟩ := bind_eq_ok.1 h
  obtain rfl := Except.ok.inj hpayments
  rw [mapM_eq_ok] at haddresses
  clear h hpayments
  induction haddresses with
  | nil => exact .nil
  | @cons v found values addresses hv _ ih =>
    rw [List.forall_mem_cons] at hreceivers
    obtain ⟨address, haddress, hfound⟩ := bind_eq_ok.1 hv
    cases hfound
    by_cases hdeferred : v.1 = .deferred
    · -- the deferred pool has no address
      have hnone : (fundingStreamAddress height net.network v.1 : Exec SubsidyBlockError _) = .ok none := by
        rw [fundingStreamAddress, fundingStreamAddressIndex, if_pos hdeferred]
        rfl
      obtain rfl := Except.ok.inj (hnone.symm.trans haddress)
      rw [List.filter_cons_of_neg (by simp [hdeferred]), Option.map_none, List.filterMap_cons_none rfl]
      exact ih hreceivers.2
    · obtain ⟨streams, hstreams, r, hr, heq⟩ := hreceivers.1
      obtain ⟨a, ha, rfl⟩ := hp.exists_address hheight hstreams hr (heq ▸ hdeferred) (heq ▸ haddress)
      have hscript := hscripts streams (Network.range_of_fundingStreamsAt hstreams).1 r hr a ha
      rw [List.filter_cons_of_pos (by simp [hdeferred]), Option.map_some, List.filterMap_cons_some (f := id) rfl]
      exact .cons ⟨haddress, rfl, hscript⟩ (ih hreceivers.2)

omit [ScriptParsing] in
theorem minerSubsidy_eq_ok {reward : Amount .nonNegative}
    (hcanopy : ¬ NetworkUpgrade.current net.network height < .canopy)
    (hvalues : fundingStreamValues height net.network subsidy = .ok values)
    (h : minerSubsidy height net.network subsidy = .ok reward) :
    reward.zatoshis = subsidy.zatoshis - (values.map fun v => v.2.zatoshis).sum := by
  obtain ⟨founders, hfounders, h⟩ := bind_eq_ok.1 h
  obtain ⟨values', hvalues', h⟩ := bind_eq_ok.1 h
  obtain rfl := Except.ok.inj (hvalues.symm.trans (lift_eq_ok.1 hvalues'))
  obtain ⟨sum, hsum, h⟩ := bind_eq_ok.1 h
  obtain ⟨rest, hrest, h⟩ := bind_eq_ok.1 h
  have hzero : founders.zatoshis = 0 := by
    obtain ⟨q, -, hfounders⟩ := bind_eq_ok.1 hfounders
    rw [if_neg fun h => hcanopy h.2] at hfounders
    rw [← Except.ok.inj hfounders]
    rfl
  have hsum' := Amount.sum_eq_ok (lift_eq_ok.1 hsum)
  rw [List.map_map] at hsum'
  rw [Amount.sub_eq_ok.1 (lift_eq_ok.1 h), Amount.sub_eq_ok.1 (lift_eq_ok.1 hrest), hzero, hsum']
  simp [Function.comp_def]

end payments

end Zebra
