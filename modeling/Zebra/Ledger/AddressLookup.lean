import Zebra.Ledger.SubsidyTotal

namespace Zebra

open Lib Outcome FundingStreams

variable {net : ConfiguredNetwork} {blossom height : Nat} {ε : Type} {streams : FundingStreams}
  {r : FundingStreamReceiver × FundingStreamRecipient}

/-- The streams of the height have an address for its period. -/
def IndexInRange (net : Network) (blossom height : Nat) : Prop :=
  ∀ streams ∈ net.fundingStreamsAt height, ∀ r ∈ streams.recipients, r.1 ≠ .deferred →
    addressPeriod net blossom streams.rangeStart ≤ addressPeriod net blossom height ∧
      addressPeriod net blossom height < addressPeriod net blossom streams.rangeStart + r.2.addresses.length

theorem Network.range_of_fundingStreamsAt {net : Network} (h : net.fundingStreamsAt height = some streams) :
    streams ∈ net.fundingStreams ∧ streams.rangeStart ≤ height ∧ height < streams.rangeEnd :=
  ⟨List.mem_of_find?_eq_some h, by simpa using List.find?_some h⟩

theorem FundingStreams.recipient_eq_some (hr : r ∈ streams.recipients) : streams.recipient r.1 = some r.2 := by
  rw [recipient, Option.map_eq_some_iff]
  refine ⟨r, ?_, rfl⟩
  obtain ⟨r', hfind⟩ := Option.isSome_iff_exists.1
    (List.find?_isSome.2 ⟨r, hr, by simp⟩ : (streams.recipients.find? fun r' => decide (r'.1 = r.1)).isSome)
  have heq : r'.1 = r.1 := by simpa using List.find?_some hfind
  rw [hfind, List.inj_on_of_nodup_map streams.nodup (List.mem_of_find?_eq_some hfind) hr heq]

theorem FundingStreams.exists_of_recipient {receiver : FundingStreamReceiver} {recipient : FundingStreamRecipient}
    (h : streams.recipient receiver = some recipient) : (receiver, recipient) ∈ streams.recipients := by
  obtain ⟨r, hfind, rfl⟩ := Option.map_eq_some_iff.1 h
  have heq : r.1 = receiver := by simpa using List.find?_some hfind
  exact heq ▸ List.mem_of_find?_eq_some hfind

theorem checkFundingStreamAddressPeriod_eq_ok {net : Network}
    (h : (checkFundingStreamAddressPeriod streams net : Exec ε _) = .ok ()) :
    ∃ last lastPeriod firstPeriod, streams.rangeEnd = last + 1 ∧ last ≤ Height.max ∧
      (fundingStreamAddressPeriod last net : Exec ε _) = .ok lastPeriod ∧
        (fundingStreamAddressPeriod streams.rangeStart net : Exec ε _) = .ok firstPeriod ∧ firstPeriod ≤ 1 + lastPeriod ∧
          ∀ r ∈ streams.recipients, r.1 ≠ .deferred → 1 + lastPeriod - firstPeriod ≤ r.2.addresses.length := by
  obtain ⟨required, hrequired, h⟩ := bind_eq_ok.1 h
  obtain ⟨last, hlast, hrequired⟩ := bind_eq_ok.1 hrequired
  obtain ⟨lastPeriod, hlastPeriod, hrequired⟩ := bind_eq_ok.1 hrequired
  obtain ⟨-, hrequired⟩ := check_bind_eq_ok.1 hrequired
  obtain ⟨firstPeriod, hfirstPeriod, hrequired⟩ := bind_eq_ok.1 hrequired
  obtain ⟨hle, hrequired⟩ := check_bind_eq_ok.1 hrequired
  cases hrequired
  obtain ⟨hend, hmax⟩ := Height.previous_eq_some.1 (expect_eq_ok.1 hlast)
  refine ⟨last, lastPeriod, firstPeriod, hend, hmax, hlastPeriod, hfirstPeriod, hle, fun r hr hdeferred => ?_⟩
  have hcheck := forM_eq_ok.1 h r hr
  rw [if_neg hdeferred] at hcheck
  exact (check_bind_eq_ok.1 hcheck).1

namespace Parameters

theorem periodDefined_regtest (hvariant : net.network.variant = .regtest)
    (hpost : net.network.postBlossomHalvingInterval = 288) : PeriodDefined net.network blossom height := by
  have hfirst : firstHalvingHeight net.network blossom = 287 := if_pos hvariant
  have hinterval : periodInterval net.network = 6 := by rw [periodInterval, hpost]; rfl
  rw [PeriodDefined, periodNumerator, hfirst, hinterval, hpost, Height.max]
  exact ⟨by omega, by omega, by decide, .inr (by omega)⟩

section

variable (hp : Parameters net blossom)
include hp

theorem post_regtest (hpre : net.network.preBlossomHalvingInterval = 144) :
    net.network.postBlossomHalvingInterval = 288 := by
  rw [hp.post, hpre]
  rfl

theorem rangeStart_period (hstreams : net.network.fundingStreamsAt height = some streams)
    (hdefined : PeriodDefined net.network blossom height) : PeriodDefined net.network blossom streams.rangeStart ∧
      addressPeriod net.network blossom streams.rangeStart ≤ 1 + addressPeriod net.network blossom height := by
  obtain ⟨hmem, hstart, hend⟩ := Network.range_of_fundingStreamsAt hstreams
  rcases hp.variant with ⟨-, hcheck⟩ | ⟨hvariant, hpre, -⟩
  · obtain ⟨last, lastPeriod, firstPeriod, hlast, hmax, hlastPeriod, hfirstPeriod, hle, -⟩ :=
      checkFundingStreamAddressPeriod_eq_ok (hcheck streams hmem)
    obtain ⟨hfirst, rfl⟩ := (hp.fundingStreamAddressPeriod_eq_ok (by omega)).1 hfirstPeriod
    obtain ⟨hlastDefined, rfl⟩ := (hp.fundingStreamAddressPeriod_eq_ok hmax).1 hlastPeriod
    refine ⟨hfirst, ?_⟩
    rcases Int.lt_trichotomy net.network.postBlossomHalvingInterval 0 with hneg | hzero | hpos
    · have hanti := addressPeriod_anti hneg (by omega : height ≤ last) hlastDefined
      omega
    · exact absurd (by rw [periodInterval, hzero]; rfl) hdefined.2.2.1
    · have hmono := addressPeriod_mono hpos hstart hfirst
      omega
  · have hpost := hp.post_regtest hpre
    have hfirst : PeriodDefined net.network blossom streams.rangeStart := periodDefined_regtest hvariant hpost
    have hmono := addressPeriod_mono (by omega) hstart hfirst
    exact ⟨hfirst, by omega⟩

theorem indexInRange_of_pos (hvariant : net.network.variant = .configuredTestnet)
    (hpos : 0 < net.network.postBlossomHalvingInterval) (hdefined : PeriodDefined net.network blossom height) :
    IndexInRange net.network blossom height := by
  intro streams hstreams r hr hdeferred
  obtain ⟨hmem, hstart, hend⟩ := Network.range_of_fundingStreamsAt hstreams
  rcases hp.variant with ⟨-, hcheck⟩ | ⟨hregtest, -⟩
  · obtain ⟨last, lastPeriod, firstPeriod, hlast, hmax, hlastPeriod, hfirstPeriod, -, haddresses⟩ :=
      checkFundingStreamAddressPeriod_eq_ok (hcheck streams hmem)
    obtain ⟨hfirst, rfl⟩ := (hp.fundingStreamAddressPeriod_eq_ok (by omega)).1 hfirstPeriod
    obtain ⟨-, rfl⟩ := (hp.fundingStreamAddressPeriod_eq_ok hmax).1 hlastPeriod
    have hrequired := haddresses r hr hdeferred
    have hlower := addressPeriod_mono hpos hstart hfirst
    have hupper := addressPeriod_mono hpos (by omega : height ≤ last) hdefined
    omega
  · rw [hvariant] at hregtest
    cases hregtest

theorem fundingStreamAddressIndex_eq (hheight : height ≤ Height.max)
    (hstreams : net.network.fundingStreamsAt height = some streams) (hdefined : PeriodDefined net.network blossom height)
    (hr : r ∈ streams.recipients) (hdeferred : r.1 ≠ .deferred) :
    (fundingStreamAddressIndex height net.network r.1 : Exec ε _) =
      if addressPeriod net.network blossom streams.rangeStart ≤ addressPeriod net.network blossom height ∧
          addressPeriod net.network blossom height <
            addressPeriod net.network blossom streams.rangeStart + r.2.addresses.length then
        .ok (some (addressPeriod net.network blossom height - addressPeriod net.network blossom streams.rangeStart))
      else Outcome.panic .addressIndex := by
  obtain ⟨hfirst, hle⟩ := hp.rangeStart_period hstreams hdefined
  obtain ⟨-, hstart, -⟩ := Network.range_of_fundingStreamsAt hstreams
  have hlt := addressPeriod_lt hheight hdefined
  rw [fundingStreamAddressIndex, if_neg hdeferred, hstreams]
  dsimp only
  rw [recipient_eq_some hr]
  dsimp only
  rw [(hp.fundingStreamAddressPeriod_eq_ok hheight).2 ⟨hdefined, rfl⟩, ok_bind, if_neg (by omega),
    (hp.fundingStreamAddressPeriod_eq_ok (by omega)).2 ⟨hfirst, rfl⟩, ok_bind, if_neg (by omega), check]
  by_cases hrange : addressPeriod net.network blossom streams.rangeStart ≤ addressPeriod net.network blossom height ∧
      addressPeriod net.network blossom height <
        addressPeriod net.network blossom streams.rangeStart + r.2.addresses.length
  · rw [if_pos (by omega), if_pos hrange, ok_bind, pure_eq_ok]
    congr 2
    omega
  · rw [if_neg (by omega), if_neg hrange, panic_bind]

theorem fundingStreamAddress_succeeds_iff (hheight : height ≤ Height.max)
    (hdefined : PeriodDefined net.network blossom height) :
    (∀ receiver, (fundingStreamAddress height net.network receiver : Exec ε _).Succeeds) ↔
      IndexInRange net.network blossom height := by
  constructor
  · intro h streams hstreams r hr hdeferred
    obtain ⟨index, hindex, -⟩ := bind_succeeds.1 (h r.1)
    rw [hp.fundingStreamAddressIndex_eq hheight hstreams hdefined hr hdeferred] at hindex
    by_contra hrange
    rw [if_neg hrange] at hindex
    cases hindex
  · intro h receiver
    refine bind_succeeds.2 ?_
    by_cases hdeferred : receiver = .deferred
    · exact ⟨none, if_pos hdeferred, succeeds_ok _⟩
    cases hstreams : net.network.fundingStreamsAt height with
    | none => exact ⟨none, by rw [fundingStreamAddressIndex, if_neg hdeferred, hstreams]; rfl, succeeds_ok _⟩
    | some streams =>
      cases hrecipient : streams.recipient receiver with
      | none =>
        refine ⟨none, ?_, succeeds_ok _⟩
        rw [fundingStreamAddressIndex, if_neg hdeferred, hstreams]
        dsimp only
        rw [hrecipient]
        rfl
      | some recipient =>
        have hr := exists_of_recipient hrecipient
        have hindex := hp.fundingStreamAddressIndex_eq (ε := ε) hheight hstreams hdefined hr hdeferred
        rw [if_pos (h streams hstreams _ hr hdeferred)] at hindex
        exact ⟨_, hindex, succeeds_ok _⟩

theorem fundingStreamAddress_eq (hheight : height ≤ Height.max)
    (hstreams : net.network.fundingStreamsAt height = some streams) (hdefined : PeriodDefined net.network blossom height)
    (hr : r ∈ streams.recipients) (hdeferred : r.1 ≠ .deferred)
    (hrange : addressPeriod net.network blossom streams.rangeStart ≤ addressPeriod net.network blossom height ∧
      addressPeriod net.network blossom height <
        addressPeriod net.network blossom streams.rangeStart + r.2.addresses.length) :
    ∃ address, r.2.addresses[addressPeriod net.network blossom height -
        addressPeriod net.network blossom streams.rangeStart]? = some address ∧
      (fundingStreamAddress height net.network r.1 : Exec ε _) = .ok (some address) := by
  obtain ⟨hle, hlt⟩ := hrange
  obtain ⟨address, haddress⟩ : ∃ address, r.2.addresses[addressPeriod net.network blossom height -
      addressPeriod net.network blossom streams.rangeStart]? = some address :=
    ⟨_, List.getElem?_eq_getElem (by omega)⟩
  refine ⟨address, haddress, ?_⟩
  rw [fundingStreamAddress, hp.fundingStreamAddressIndex_eq hheight hstreams hdefined hr hdeferred, if_pos ⟨hle, hlt⟩,
    ok_bind, hstreams, ← haddress]
  change Except.ok ((streams.recipient r.1) >>= _) = _
  rw [recipient_eq_some hr]
  rfl

theorem exists_address (hheight : height ≤ Height.max)
    (hstreams : net.network.fundingStreamsAt height = some streams) (hr : r ∈ streams.recipients)
    (hdeferred : r.1 ≠ .deferred) {found : Option Address}
    (h : (fundingStreamAddress height net.network r.1 : Exec ε _) = .ok found) :
    ∃ address ∈ r.2.addresses, found = some address := by
  obtain ⟨index, hindex, -⟩ := bind_eq_ok.1 h
  have hdefined : PeriodDefined net.network blossom height := by
    rw [fundingStreamAddressIndex, if_neg hdeferred, hstreams] at hindex
    dsimp only at hindex
    rw [recipient_eq_some hr] at hindex
    obtain ⟨period, hperiod, -⟩ := bind_eq_ok.1 hindex
    exact ((hp.fundingStreamAddressPeriod_eq_ok hheight).1 hperiod).1
  rw [hp.fundingStreamAddressIndex_eq hheight hstreams hdefined hr hdeferred] at hindex
  split at hindex
  · rename_i hrange
    obtain ⟨address, haddress, heq⟩ := hp.fundingStreamAddress_eq hheight hstreams hdefined hr hdeferred hrange
    exact ⟨address, List.mem_of_getElem? haddress, Except.ok.inj (h.symm.trans heq)⟩
  · cases hindex

end

end Parameters

end Zebra
