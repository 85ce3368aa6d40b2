import Zebra.Network
import Zebra.Panic

namespace Zebra

open Lib Outcome

namespace I64

def Fits (v : Int) : Prop := -2 ^ 63 ≤ v ∧ v < 2 ^ 63

instance (v : Int) : Decidable (Fits v) := inferInstanceAs (Decidable (_ ∧ _))

variable {ε : Type}

def arith (v : Int) : Exec ε Int := if Fits v then .ok v else Outcome.panic .arithmetic

def checked (v : Int) : Option Int := if Fits v then some v else none

def div (a b : Int) : Exec ε Int := if b = 0 then Outcome.panic .arithmetic else arith (a.tdiv b)

/-- `u32::try_from`. -/
def toU32 (v : Int) : Option Nat := if 0 ≤ v ∧ v < 2 ^ 32 then some v.toNat else none

theorem div_natCast {a b : Nat} (hb : 0 < b) (ha : a < 2 ^ 63) : (div a b : Exec ε Int) = .ok ((a / b : Nat) : Int) := by
  rw [div, if_neg (by omega), ← Int.ofNat_tdiv]
  have hle : a / b ≤ a := Nat.div_le_self a b
  generalize a / b = quotient at hle ⊢
  rw [arith, if_pos ⟨by omega, by omega⟩]

theorem toU32_natCast {n : Nat} (h : n < 2 ^ 32) : toU32 n = some n := by
  rw [toU32, if_pos ⟨by omega, by omega⟩, Int.toNat_natCast]

end I64

namespace Amount

variable {C : Constraint}

theorem contains_tdiv {v : Int} (h : C.Contains v) (n : Nat) : C.Contains (v.tdiv n) := by
  obtain ⟨hl, hu⟩ := h
  obtain ⟨hl₀, hu₀⟩ := C.zero_mem
  rcases Int.le_total 0 v with hv | hv
  · have hnonneg := Int.tdiv_nonneg hv (Int.natCast_nonneg n)
    have hle := Int.tdiv_le_self n hv
    exact ⟨hl₀.trans hnonneg, hle.trans hu⟩
  · have hnonneg := Int.tdiv_nonneg (Int.neg_nonneg.2 hv) (Int.natCast_nonneg n)
    have hle := Int.tdiv_le_self n (Int.neg_nonneg.2 hv)
    rw [Int.neg_tdiv] at hnonneg hle
    exact ⟨by omega, by omega⟩

/-- The quotient always stays within the constraint, so the `expect` is not modelled. -/
def div (a : Amount C) (n : Nat) : Except AmountError (Amount C) :=
  if n = 0 then .error (.divideByZero a.zatoshis) else .ok ⟨a.zatoshis.tdiv n, contains_tdiv a.valid n⟩

def divExact {ε : Type} (a : Amount C) (n : Nat) : Exec ε (Amount C) :=
  if n = 0 ∨ a.zatoshis % n ≠ 0 then Outcome.panic .divExact
  else .ok ⟨a.zatoshis.tdiv n, contains_tdiv a.valid n⟩

end Amount

def maxBlockSubsidy : Nat := 1250000000

def blossomPowTargetSpacingRatio : Nat := 2

def preBlossomHalvingInterval : Int := 840000

def postBlossomHalvingInterval : Int := preBlossomHalvingInterval * blossomPowTargetSpacingRatio

def fundingStreamReceiverDenominator : Nat := 100

def slowStartIntervalDefault : Nat := 20000

def regtestFirstHalving : Nat := 287

def testnetFirstHalving : Nat := 1116000

inductive SubsidyError where
  | noCoinbase
  | fundingStreamNotFound
  | foundersRewardNotFound
  | oneTimeLockboxDisbursementNotFound
  | invalidMinerFees
  | overflow
  | underflow
  | unsupportedHeight
  | invalidAmount (error : AmountError)
deriving DecidableEq

namespace Network

/-- Mainnet. The recipients of the funding streams, the lockbox disbursements and the founders
addresses are parameters. -/
def mainnet (fundingStreams : List FundingStreams) (lockboxDisbursements : Payments)
    (founderAddressList : List Address) : Network where
  variant := .mainnet
  activationHeights :=
    [(0, .genesis), (1, .beforeOverwinter), (347500, .overwinter), (419200, .sapling), (653600, .blossom),
      (903000, .heartwood), (1046400, .canopy), (1687104, .nu5), (2726400, .nu6), (3146400, .nu6_1)]
  ascending := by decide
  genesisFirst := rfl
  slowStartInterval := slowStartIntervalDefault
  slowStartShift := slowStartIntervalDefault / 2
  preBlossomHalvingInterval := Zebra.preBlossomHalvingInterval
  postBlossomHalvingInterval := Zebra.postBlossomHalvingInterval
  fundingStreams
  lockboxDisbursements
  founderAddressList
  shouldAllowUnshieldedCoinbaseSpends := false

variable {ε : Type} (net : Network)

def fundingStreamsAt (height : Nat) : Option FundingStreams :=
  net.fundingStreams.find? fun streams => decide (streams.rangeStart ≤ height ∧ height < streams.rangeEnd)

def lockboxDisbursementsAt (height : Nat) : Payments :=
  if NetworkUpgrade.nu6_1.activationHeight net = some height then net.lockboxDisbursements else []

def fundingStreamAddressChangeInterval : Exec ε Int := I64.div net.postBlossomHalvingInterval 48

end Network

namespace FundingStreams

def recipient (streams : FundingStreams) (receiver : FundingStreamReceiver) : Option FundingStreamRecipient :=
  (streams.recipients.find? fun r => r.1 = receiver).map Prod.snd

end FundingStreams

section

variable {ε : Type}

/-- The first height of a halving. Only one of its subtractions is unchecked. -/
def heightForHalving (halving : Nat) (net : Network) : Exec ε (Option Nat) :=
  if halving = 0 then return some 0
  else
    match NetworkUpgrade.blossom.activationHeight net with
    | none => return none
    | some blossomHeight =>
      match I64.checked (halving * net.preBlossomHalvingInterval) with
      | none => return none
      | some unscaledHeight => do
        let scaled ← I64.arith (unscaledHeight - blossomHeight)
        return do
          let preBlossomHeight ← I64.checked (min unscaledHeight blossomHeight + net.slowStartShift)
          let postBlossomHeight ← I64.checked (max 0 scaled * blossomPowTargetSpacingRatio)
          let postBlossomHeight ← I64.checked (postBlossomHeight + net.slowStartShift)
          let height ← I64.checked (preBlossomHeight + postBlossomHeight)
          let height ← I64.toU32 height
          if height ≤ Height.max then some height else none

def Network.heightForFirstHalving (net : Network) : Exec ε Nat :=
  match net.variant with
  | .mainnet => expect (NetworkUpgrade.canopy.activationHeight net) .canopyHeight
  | .regtest => return regtestFirstHalving
  | .defaultTestnet => return testnetFirstHalving
  | .configuredTestnet => do
    let height ← heightForHalving 1 net
    expect height .firstHalving

def halvingIndex (height blossomHeight : Nat) (net : Network) : Exec ε Int :=
  if height < net.slowStartShift then return 0
  else if height < blossomHeight then I64.div (height - net.slowStartShift) net.preBlossomHalvingInterval
  else
    I64.div ((blossomHeight - net.slowStartShift) * blossomPowTargetSpacingRatio + (height - blossomHeight))
      net.postBlossomHalvingInterval

def halving (height : Nat) (net : Network) : Exec ε Nat := do
  let blossomHeight ← expect (NetworkUpgrade.blossom.activationHeight net) .blossomHeight
  let index ← halvingIndex height blossomHeight net
  expect (I64.toU32 index) .halvingIndex

/-- `1 << halving`, unless a shift of a `u64` by so much overflows. -/
def halvingDivisor (height : Nat) (net : Network) : Exec ε (Option Nat) := do
  let index ← halving height net
  return if index < 64 then some (2 ^ index) else none

/-- The subsidy in zatoshis, for a divisor of the halvings. -/
def subsidyAmount (height : Nat) (net : Network) (halvingDiv : Nat) : Nat :=
  if height < net.slowStartInterval then
    let slowStartRate := maxBlockSubsidy / net.slowStartInterval
    if height < net.slowStartShift then slowStartRate * height else slowStartRate * (height + 1)
  else
    let baseSubsidy :=
      if NetworkUpgrade.current net height < .blossom then maxBlockSubsidy
      else maxBlockSubsidy / blossomPowTargetSpacingRatio
    baseSubsidy / halvingDiv

def blockSubsidy (height : Nat) (net : Network) : Exec SubsidyError (Amount .nonNegative) := do
  let halvingDiv ← halvingDivisor height net
  match halvingDiv with
  | none => return .zero
  | some halvingDiv =>
    lift .invalidAmount (Amount.tryFrom .nonNegative (subsidyAmount height net halvingDiv))

def foundersReward (net : Network) (height : Nat) : Exec ε (Amount .nonNegative) := do
  let index ← halving height net
  if index < 1 ∧ NetworkUpgrade.current net height < .canopy then
    let subsidy ← orPanic (blockSubsidy height net) .subsidy
    subsidy.divExact 5
  else return .zero

/-- The height that counts for the founders address. -/
def founderAddressAdjustedHeight (net : Network) (height : Nat) : Option Nat :=
  if NetworkUpgrade.current net height < .blossom then some height
  else do
    let blossomHeight ← NetworkUpgrade.blossom.activationHeight net
    if height < blossomHeight then none
    else
      let adjusted := blossomHeight + (height - blossomHeight) / blossomPowTargetSpacingRatio
      if adjusted < 2 ^ 32 then some adjusted else none

def foundersRewardAddress (net : Network) (height : Nat) : Exec ε (Option Address) :=
  match I64.toU32 net.preBlossomHalvingInterval with
  | none => return none
  | some interval =>
    if 2 ^ 32 ≤ net.slowStartShift + interval then return none
    else do
      let num := net.founderAddressList.length
      check (num ≠ 0) .arithmetic
      let changeInterval := (net.slowStartShift + interval + num - 1) / num
      match founderAddressAdjustedHeight net height with
      | none => return none
      | some adjusted => do
        check (changeInterval ≠ 0) .arithmetic
        return net.founderAddressList[adjusted / changeInterval]?

def fundingStreamAddressPeriod (height : Nat) (net : Network) : Exec ε Nat := do
  let firstHalving ← net.heightForFirstHalving
  let total ← I64.arith (((height : Int) - firstHalving) + net.postBlossomHalvingInterval)
  let interval ← net.fundingStreamAddressChangeInterval
  let period ← I64.div total interval
  expect (I64.toU32 period) .addressPeriod

/-- The values of the funding streams, one for each receiver. -/
def fundingStreamValues (height : Nat) (net : Network) (expectedBlockSubsidy : Amount .nonNegative) :
    Except AmountError (List (FundingStreamReceiver × Amount .nonNegative)) :=
  if expectedBlockSubsidy.zatoshis = 0 ∨ NetworkUpgrade.current net height < .canopy then .ok []
  else
    match net.fundingStreamsAt height with
    | none => .ok []
    | some streams =>
      streams.recipients.mapM fun r => do
        let scaled ← expectedBlockSubsidy.mul r.2.numerator
        let value ← scaled.div fundingStreamReceiverDenominator
        return (r.1, value)

def minerSubsidy (height : Nat) (net : Network) (expectedBlockSubsidy : Amount .nonNegative) :
    Exec AmountError (Amount .nonNegative) := do
  let reward ← foundersReward net height
  let streams ← lift id (fundingStreamValues height net expectedBlockSubsidy)
  let sum ← lift id (Amount.sum (streams.map Prod.snd))
  let rest ← lift id (expectedBlockSubsidy.sub reward)
  lift id (rest.sub sum)

end

end Zebra
