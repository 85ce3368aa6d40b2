import Zebra.Ledger.TemplatePayments
import Zebra.Properties.SubsidyTotal

namespace Zebra.Properties

open Lib Outcome

/-- Only the transparent part of a transaction is used. -/
def NoShieldedData : Transaction → Prop
  | .V1 _ _ => True
  | .V2 _ _ joinsplits | .V3 _ _ joinsplits => joinsplits = none
  | .V4 _ _ joinsplits sapling => joinsplits = none ∧ sapling = none
  | .V5 _ _ sapling orchard => sapling = none ∧ orchard = none

theorem NoShieldedData.balances {tx : Transaction} (h : NoShieldedData tx) :
    tx.saplingValueBalance.sapling = .zero ∧ tx.orchardValueBalance.orchard = .zero := by
  cases tx with
  | V1 | V2 | V3 => exact ⟨rfl, rfl⟩
  | V4 =>
    obtain ⟨-, rfl⟩ := h
    exact ⟨rfl, rfl⟩
  | V5 =>
    obtain ⟨rfl, rfl⟩ := h
    exact ⟨rfl, rfl⟩

def disbursementsAt (net : ConfiguredNetwork) (height : Nat) : Payments :=
  if NetworkUpgrade.nu6_1.activationHeight net.network = some height then disbursementList net else []

/-- The addresses that coinbase outputs are paid to are script hashes. -/
structure PaysToScripts (net : ConfiguredNetwork) : Prop where
  streams : ∀ s ∈ net.network.fundingStreams, ∀ r ∈ s.recipients, ∀ a ∈ r.2.addresses, a.isScriptHash = true
  disbursements : ∀ d ∈ disbursementList net, d.1.isScriptHash = true

def paymentTotal (payments : Payments) : Int := (payments.map fun p => p.2.zatoshis).sum

theorem paymentTotal_nonneg (payments : Payments) : 0 ≤ paymentTotal payments :=
  List.sum_nonneg fun v hv => by
    obtain ⟨p, -, rfl⟩ := List.mem_map.1 hv
    exact p.2.valid.1

section template

variable [ScriptParsing] {net : ConfiguredNetwork} {height : Nat} {le : Script → Script → Bool} {miner : Option Address}
  {fee subsidy : Amount .nonNegative}

theorem standardCoinbaseOutputs_eq_ok {outputs : List Output}
    (hcanopy : ¬ NetworkUpgrade.current net.network height < .canopy)
    (hsubsidy : blockSubsidy height net.network = .ok subsidy)
    (h : (standardCoinbaseOutputs le net height miner fee : Exec SubsidyBlockError _) = .ok outputs) :
    ∃ values payments, ∃ reward : Output, fundingStreamValues height net.network subsidy = .ok values ∧
      (streamPayments net.network height values : Exec SubsidyBlockError _) = .ok payments ∧
        (net.lockboxDisbursements height : Exec SubsidyBlockError _) = .ok (disbursementsAt net height) ∧
          reward.value.zatoshis = subsidy.zatoshis - (values.map fun v => v.2.zatoshis).sum + fee.zatoshis ∧
            outputs.Perm (reward :: (payments ++ disbursementsAt net height).map paymentOutput) := by
  obtain ⟨subsidy', hsubsidy', h⟩ := bind_eq_ok.1 h
  obtain rfl := Except.ok.inj (hsubsidy.symm.trans (orPanic_eq_ok.1 hsubsidy'))
  obtain ⟨values, hvalues, h⟩ := bind_eq_ok.1 h
  obtain ⟨miner, hminer, h⟩ := bind_eq_ok.1 h
  obtain ⟨reward, hreward, h⟩ := bind_eq_ok.1 h
  obtain ⟨payments, hpayments, h⟩ := bind_eq_ok.1 h
  obtain ⟨disbursements, hdisbursements, h⟩ := bind_eq_ok.1 h
  obtain ⟨address, -, h⟩ := bind_eq_ok.1 h
  cases h
  have hvalues := unwrap_eq_ok.1 hvalues
  have hdisbursements_eq : disbursements = disbursementsAt net height := by
    by_cases hheight : NetworkUpgrade.nu6_1.activationHeight net.network = some height
    · have hparse : ∀ d ∈ net.lockboxTexts, d.1.isSome = true := by
        by_contra hparse
        exact not_panics_of_ok hdisbursements (lockboxDisbursements_panics hheight hparse)
      rw [disbursementsAt, if_pos hheight]
      exact Except.ok.inj (hdisbursements.symm.trans (lockboxDisbursements_eq hheight hparse))
    · rw [disbursementsAt, if_neg hheight]
      rw [ConfiguredNetwork.lockboxDisbursements, if_neg hheight] at hdisbursements
      exact (Except.ok.inj hdisbursements).symm
  subst hdisbursements_eq
  refine ⟨values, payments, ⟨reward, address.script⟩, hvalues, hpayments, hdisbursements, ?_, ?_⟩
  · rw [Amount.add_eq_ok.1 (unwrap_eq_ok.1 hreward),
      minerSubsidy_eq_ok hcanopy hvalues (orPanic_eq_ok.1 hminer)]
  · exact (List.mergeSort_perm _ _).cons _

theorem minerFeesAreValid_of_sum {coinbase : Transaction} {change : Amount .negativeAllowed}
    (hshielded : NoShieldedData coinbase) (hmax : (coinbase.outputs.map fun o => o.value.zatoshis).sum ≤ maxMoney)
    (hinput : subsidy.zatoshis + fee.zatoshis ≤ maxMoney)
    (hsum : (coinbase.outputs.map fun o => o.value.zatoshis).sum + change.zatoshis = subsidy.zatoshis + fee.zatoshis) :
    minerFeesAreValid coinbase height fee subsidy change net.network = .ok () := by
  have hfee : 0 ≤ fee.zatoshis := fee.valid.1
  have hsubsidy : 0 ≤ subsidy.zatoshis := subsidy.valid.1
  obtain ⟨transparent, htransparent⟩ : ∃ s, Amount.sumFrom .zero (coinbase.outputs.map Output.value) = .ok s := by
    refine Amount.sumFrom_of_le ?_
    rw [List.map_map]
    change 0 + (coinbase.outputs.map fun o => o.value.zatoshis).sum ≤ maxMoney
    omega
  have hvalue : transparent.zatoshis = (coinbase.outputs.map fun o => o.value.zatoshis).sum := by
    rw [Amount.sum_eq_ok htransparent, List.map_map]
    rfl
  have hin : Constraint.nonNegative.Contains (subsidy.zatoshis + fee.zatoshis) := by
    simp only [Constraint.Contains, Constraint.lower, Constraint.upper]
    omega
  have hout : Constraint.negativeAllowed.Contains (subsidy.zatoshis + fee.zatoshis) := hin.negativeAllowed
  have htotal : totalOutputValue coinbase transparent.widen change = .ok ⟨_, hout⟩ := by
    obtain ⟨hsapling, horchard⟩ := hshielded.balances
    rw [totalOutputValue, hsapling, horchard]
    refine bind_eq_ok.2 ⟨transparent.widen, Amount.sub_eq_ok.2 (by simp), bind_eq_ok.2 ⟨transparent.widen,
      Amount.sub_eq_ok.2 (by simp), bind_eq_ok.2 ⟨⟨_, hout⟩, Amount.add_eq_ok.2 ?_, Amount.add_eq_ok.2 (by simp)⟩⟩⟩
    rw [Amount.zatoshis_widen, hvalue, hsum]
  refine bind_eq_ok.2 ⟨transparent, mapError_eq_ok.2 htransparent, bind_eq_ok.2 ⟨_, mapError_eq_ok.2 htotal,
    bind_eq_ok.2 ⟨⟨_, hin⟩, mapError_eq_ok.2 (Amount.add_eq_ok.2 rfl), ?_⟩⟩⟩
  simp

theorem sum_paidTo {values : List (FundingStreamReceiver × Amount .nonNegative)}
    {payments : Payments} (h : List.Forall₂ (PaidTo height net.network) values payments) :
    paymentTotal payments = (values.map fun v => v.2.zatoshis).sum := by
  induction h with
  | nil => rfl
  | cons hv _ ih =>
    rw [paymentTotal, List.map_cons, List.sum_cons, List.map_cons, List.sum_cons, hv.2.1]
    exact congrArg _ ih

theorem lockboxIsValid_of_perm (hscripts : PaysToScripts net)
    (hconfigured : NetworkUpgrade.nu6_1.activationHeight net.network = some height → net.lockboxTexts ≠ [])
    (hlockbox : (net.lockboxDisbursements height : Exec SubsidyBlockError _) = .ok (disbursementsAt net height))
    (share : Amount .negativeAllowed) (hshare : -maxMoney ≤ share.zatoshis - paymentTotal (disbursementsAt net height))
    {outputs rest : List Output} (hperm : outputs.Perm ((disbursementsAt net height).map paymentOutput ++ rest)) :
    ∃ left change, lockboxIsValid net height outputs share = .ok (left, change) ∧ left.Perm rest ∧
      change.zatoshis = share.zatoshis - paymentTotal (disbursementsAt net height) := by
  by_cases hheight : NetworkUpgrade.nu6_1.activationHeight net.network = some height
  · have hat : disbursementsAt net height = disbursementList net := if_pos hheight
    have hparse : ∀ d ∈ net.lockboxTexts, d.1.isSome = true := by
      by_contra hparse
      exact not_panics_of_ok hlockbox (lockboxDisbursements_panics hheight hparse)
    rw [hat] at hshare hperm ⊢
    obtain ⟨left, change, hpaid, hleft⟩ := disburse_of_perm hscripts.disbursements hshare hperm
    exact ⟨left, change, by rw [lockboxIsValid_eq hheight hparse (hconfigured hheight), hpaid], hleft,
      (disburse_eq_ok hpaid).2⟩
  · have hat : disbursementsAt net height = [] := if_neg hheight
    rw [hat] at hperm ⊢
    exact ⟨outputs, share, if_neg hheight, hperm, by simp [paymentTotal]⟩

/-- The checks accept the outputs of the node's own templates. -/
theorem template_accepted {k : TestnetConstants} (haccepted : Accepted k net) (hscripts : PaysToScripts net)
    (hconfigured : NetworkUpgrade.nu6_1.activationHeight net.network = some height → net.lockboxTexts ≠ [])
    (hheight : height ≤ Height.max) (hcanopy : ¬ NetworkUpgrade.current net.network height < .canopy)
    (hsubsidy : blockSubsidy height net.network = .ok subsidy) (hne : subsidy.zatoshis ≠ 0)
    (hfits : subsidy.zatoshis + fee.zatoshis + paymentTotal (disbursementsAt net height) ≤ maxMoney)
    {outputs : List Output}
    (houtputs : (standardCoinbaseOutputs le net height miner fee : Exec SubsidyBlockError _) = .ok outputs)
    {b : Block} {coinbase : Transaction} {rest : List Transaction} (hcoinbase : b.transactions = coinbase :: rest)
    (hb : b.coinbaseHeight = some height) (hpaid : coinbase.outputs.Perm outputs) (hshielded : NoShieldedData coinbase) :
    ∃ change, subsidyIsValid b net subsidy = .ok change ∧
      minerFeesAreValid coinbase height fee subsidy change net.network = .ok () := by
  obtain ⟨blossom, hp⟩ := haccepted.parameters
  obtain ⟨values, payments, reward, hvalues, hpayments, hlockbox, hreward, hperm⟩ :=
    standardCoinbaseOutputs_eq_ok hcanopy hsubsidy houtputs
  have hpaidTo := hp.paidTo_of_streamPayments hheight hscripts.streams
    (fun v hv => (receivers_of_fundingStreamValues hne hcanopy hvalues v.1).1 ⟨v, hv, rfl⟩) hpayments
  have hsum := sum_values (map_fst_of_fundingStreamValues hvalues)
  have hstreams := sum_paidTo hpaidTo
  have hdisbursed := paymentTotal_nonneg (disbursementsAt net height)
  have hsubsidy_nonneg : 0 ≤ subsidy.zatoshis := subsidy.valid.1
  have hfee_nonneg : 0 ≤ fee.zatoshis := fee.valid.1
  have hshare : 0 ≤ deferredShare values := (Amount.valid _).1
  -- the outputs are the disbursements, the streams and the reward
  have hall : coinbase.outputs.Perm ((disbursementsAt net height).map paymentOutput ++
      (payments.map paymentOutput ++ [reward])) := by
    refine (hpaid.trans hperm).trans ?_
    rw [List.map_append, ← List.append_assoc]
    exact (List.perm_append_comm.cons reward).trans (List.perm_append_singleton reward _).symm
  have htotal : (coinbase.outputs.map fun o => o.value.zatoshis).sum = paymentTotal (disbursementsAt net height) +
      (paymentTotal payments + reward.value.zatoshis) := by
    rw [(hall.map fun o => o.value.zatoshis).sum_eq]
    simp [paymentTotal, paymentOutput, Function.comp_def]
  obtain ⟨change, hchange, hchange_eq⟩ : ∃ change, subsidyIsValid b net subsidy = .ok change ∧
      change.zatoshis = deferredShare values - paymentTotal (disbursementsAt net height) := by
    obtain ⟨left, change, hdisburse, hleft, hchange⟩ := lockboxIsValid_of_perm hscripts hconfigured hlockbox
      ⟨deferredShare values, (Amount.widen _).valid⟩ (by dsimp only; omega) hall
    refine ⟨change, ?_, hchange⟩
    rw [subsidyIsValid, if_neg hne, hb, hcoinbase]
    dsimp only
    rw [if_neg hcanopy, fundingStreamsAreValid, hvalues]
    refine bind_eq_ok.2 ⟨values, rfl, bind_eq_ok.2 ⟨(left, change), hdisburse, bind_eq_ok.2 ⟨(), ?_, rfl⟩⟩⟩
    exact payStreams_of_perm hpaidTo hleft
  refine ⟨change, hchange, minerFeesAreValid_of_sum hshielded ?_ (by omega) ?_⟩
  · rw [htotal]
    omega
  · rw [htotal, hchange_eq]
    omega

end template

open Sample

def fundedRegtest : RegtestParameters where
  activationHeights := { nu6_1 := some 2 }
  fundingStreams := some [{
    heightRange := some (1, 10)
    recipients := some [⟨.ecc, 7, some [some sampleScript]⟩, ⟨.deferred, 12, none⟩] }]
  lockboxDisbursements := some [(some sampleScript, ⟨1000, by decide⟩)]

def Funded (net : ConfiguredNetwork) : Prop :=
  ((∀ s ∈ net.network.fundingStreams, ∀ r ∈ s.recipients, ∀ a ∈ r.2.addresses, a.isScriptHash = true) ∧
    ∀ d ∈ disbursementList net, d.1.isScriptHash = true) ∧
  net.lockboxTexts.length ≠ 0 ∧ ¬ NetworkUpgrade.current net.network 2 < .canopy ∧
  blockSubsidy 2 net.network = .ok ⟨625000000, by decide⟩ ∧
  625000000 + 300 + paymentTotal (disbursementsAt net 2) ≤ maxMoney ∧
  (standardCoinbaseOutputs (fun a b => decide (a ≤ b)) net 2 (some sampleScript) ⟨300, by decide⟩ :
    Exec SubsidyBlockError _).isOk = true

instance (net : ConfiguredNetwork) : Decidable (Funded net) := inferInstanceAs (Decidable (_ ∧ _))

theorem fundedRegtest_accepted : ∃ net, newRegtest sampleConstants fundedRegtest = .ok net ∧ ∃ outputs change,
    (standardCoinbaseOutputs (fun a b => decide (a ≤ b)) net 2 (some sampleScript) ⟨300, by decide⟩ :
        Exec SubsidyBlockError _) = .ok outputs ∧
      subsidyIsValid (coinbaseBlock 2 outputs) net ⟨625000000, by decide⟩ = .ok change ∧
        minerFeesAreValid (.V5 [.coinbase 2] outputs none none) 2 ⟨300, by decide⟩ ⟨625000000, by decide⟩ change
          net.network = .ok () := by
  have hbuild : (fun net => decide (Funded net)) <$> newRegtest sampleConstants fundedRegtest = .ok true := by
    decide +kernel
  obtain ⟨net, hnet, hfunded⟩ := map_eq_ok.1 hbuild
  obtain ⟨⟨hstreams, hdisbursements⟩, hne, hcanopy, hsubsidy, hfits, houtputs⟩ := of_decide_eq_true hfunded
  obtain ⟨outputs, houtputs⟩ : ∃ outputs, (standardCoinbaseOutputs (fun a b => decide (a ≤ b)) net 2 (some sampleScript)
      ⟨300, by decide⟩ : Exec SubsidyBlockError _) = .ok outputs := by
    cases h : (standardCoinbaseOutputs (fun a b => decide (a ≤ b)) net 2 (some sampleScript) ⟨300, by decide⟩ :
        Exec SubsidyBlockError _) with
    | ok outputs => exact ⟨outputs, rfl⟩
    | error e =>
      rw [h] at houtputs
      cases houtputs
  obtain ⟨change, hvalid, hfees⟩ := template_accepted (.regtest hnet) ⟨hstreams, hdisbursements⟩
    (fun _ hnil => hne (hnil ▸ rfl)) (by decide) hcanopy hsubsidy (by decide) hfits houtputs
    (b := coinbaseBlock 2 outputs) rfl rfl (.refl _) ⟨rfl, rfl⟩
  exact ⟨net, hnet, outputs, change, houtputs, hvalid, hfees⟩

end Zebra.Properties
