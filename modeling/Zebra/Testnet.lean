import Mathlib.Data.Vector.Basic
import Zebra.Block
import Zebra.Subsidy

namespace Zebra

open Lib Std Outcome ExtTreeMap

inductive ParametersBuilderError where
  | lockFundingStreams
  | invalidActivationHeight
  | invalidHeightZero
  | outOfOrderUpgrades
  | invaildDifficultyLimits
  | halvingIntervalAfterFundingStreams
  | failedToParseDefaultCheckpoint
  | invalidCustomCheckpoints
  | checkpointGenesisMismatch
  | insufficientCheckpointCoverage
deriving DecidableEq

structure ConfiguredActivationHeights where
  beforeOverwinter : Option Nat := none
  overwinter : Option Nat := none
  sapling : Option Nat := none
  blossom : Option Nat := none
  heartwood : Option Nat := none
  canopy : Option Nat := none
  nu5 : Option Nat := none
  nu6 : Option Nat := none
  nu6_1 : Option Nat := none
  nu7 : Option Nat := none
deriving DecidableEq

namespace ConfiguredActivationHeights

def fields (c : ConfiguredActivationHeights) : List (Option Nat × NetworkUpgrade) :=
  [(c.beforeOverwinter, .beforeOverwinter), (c.overwinter, .overwinter), (c.sapling, .sapling), (c.blossom, .blossom),
    (c.heartwood, .heartwood), (c.canopy, .canopy), (c.nu5, .nu5), (c.nu6, .nu6), (c.nu6_1, .nu6_1), (c.nu7, .nu7)]

def entries (c : ConfiguredActivationHeights) : List (Nat × NetworkUpgrade) :=
  c.fields.filterMap fun f => f.1.map fun height => (height, f.2)

/-- The configured upgrades by height: a later upgrade takes the place of one at the same height. -/
def byHeight (c : ConfiguredActivationHeights) : KeyedMap Nat NetworkUpgrade :=
  c.entries.foldl (fun map e => map.insert e.1 e.2) ∅

def forRegtest (c : ConfiguredActivationHeights) : ConfiguredActivationHeights :=
  let overwinter := (c.overwinter.or c.beforeOverwinter).or (some 1)
  let sapling := c.sapling.or overwinter
  let blossom := c.blossom.or sapling
  let heartwood := c.heartwood.or blossom
  let canopy := c.canopy.or heartwood
  { c with overwinter, sapling, blossom, heartwood, canopy }

end ConfiguredActivationHeights

/-- The activation heights of a network. Genesis is at height zero. -/
structure ActivationHeights where
  entries : List (Nat × NetworkUpgrade)
  ascending : entries.Pairwise fun a b => a.1 < b.1 ∧ a.2 < b.2
  genesisFirst : entries.head? = some (0, .genesis)

namespace ActivationHeights

def checkOrder (present : List NetworkUpgrade) :
    List NetworkUpgrade → List (Nat × NetworkUpgrade) → Except ParametersBuilderError Unit
  | [], _ => .ok ()
  | expected :: rest, entries =>
    if expected ∉ present then checkOrder present rest entries
    else
      match entries with
      | [] => checkOrder present rest []
      | (height, upgrade) :: entries =>
        if height = 0 then .error .invalidHeightZero
        else if upgrade ≠ expected then .error .outOfOrderUpgrades
        else checkOrder present rest entries

theorem ascending_of_checkOrder {present expected : List NetworkUpgrade} {entries : List (Nat × NetworkUpgrade)}
    (hexpected : expected.Pairwise (· < ·)) (hmem : ∀ e ∈ entries, e.2 ∈ expected)
    (hpresent : ∀ u ∈ expected, u ∈ present ↔ u ∈ entries.map Prod.snd) (hnodup : (entries.map Prod.snd).Nodup)
    (h : checkOrder present expected entries = .ok ()) :
    entries.Pairwise (fun a b => a.2 < b.2) ∧ ∀ e ∈ entries, e.1 ≠ 0 := by
  induction expected generalizing entries with
  | nil =>
    have hnil : entries = [] := List.eq_nil_iff_forall_not_mem.2 fun e he => nomatch hmem e he
    rw [hnil]
    exact ⟨.nil, fun e he => nomatch he⟩
  | cons u rest ih =>
    rw [List.pairwise_cons] at hexpected
    by_cases hu : u ∈ present
    · unfold checkOrder at h
      rw [if_neg (not_not.2 hu)] at h
      have hin := (hpresent u List.mem_cons_self).1 hu
      cases entries with
      | nil => cases hin
      | cons e entries =>
        obtain ⟨height, upgrade⟩ := e
        dsimp only at h
        split at h
        · cases h
        rename_i hheight
        split at h
        · cases h
        rename_i hupgrade
        obtain rfl := not_not.1 hupgrade
        rw [List.map_cons, List.nodup_cons] at hnodup
        have hrest : ∀ e ∈ entries, e.2 ∈ rest := by
          intro e he
          have hin' : e.2 ∈ entries.map Prod.snd := List.mem_map_of_mem he
          have hne : e.2 ≠ upgrade := fun heq => hnodup.1 (heq ▸ hin')
          exact (List.mem_cons.1 (hmem e (List.mem_cons_of_mem _ he))).resolve_left hne
        have hpresent' : ∀ v ∈ rest, v ∈ present ↔ v ∈ entries.map Prod.snd := by
          intro v hv
          have hne : v ≠ upgrade := fun heq => Nat.lt_irrefl _ (NetworkUpgrade.lt_iff.1 (heq ▸ hexpected.1 v hv))
          rw [hpresent v (List.mem_cons_of_mem _ hv), List.map_cons, List.mem_cons]
          exact ⟨fun h => h.resolve_left hne, .inr⟩
        obtain ⟨hpair, hpos⟩ := ih hexpected.2 hrest hpresent' hnodup.2 h
        refine ⟨List.pairwise_cons.2 ⟨fun e he => hexpected.1 _ (hrest e he), hpair⟩, ?_⟩
        intro e he
        rcases List.mem_cons.1 he with rfl | he
        · exact hheight
        · exact hpos e he
    · unfold checkOrder at h
      rw [if_pos hu] at h
      have hnot : u ∉ entries.map Prod.snd := mt (hpresent u List.mem_cons_self).2 hu
      refine ih hexpected.2 (fun e he => ?_) (fun v hv => hpresent v (List.mem_cons_of_mem _ hv)) hnodup h
      exact (List.mem_cons.1 (hmem e he)).resolve_left fun heq => hnot (heq ▸ List.mem_map_of_mem he)

end ActivationHeights

variable {e : Nat × NetworkUpgrade}

namespace ConfiguredActivationHeights

variable (c : ConfiguredActivationHeights)

theorem entries_ascending : c.entries.Pairwise fun a b => a.2 < b.2 := by
  have hfields : c.fields.Pairwise fun a b => a.2 < b.2 := by
    simp only [fields, List.pairwise_cons, List.forall_mem_cons, NetworkUpgrade.lt_iff, NetworkUpgrade.rank]
    simp
  refine hfields.filterMap _ fun f f' hlt e he e' he' => ?_
  obtain ⟨_, -, rfl⟩ := Option.map_eq_some_iff.1 he
  obtain ⟨_, -, rfl⟩ := Option.map_eq_some_iff.1 he'
  exact hlt

theorem genesis_lt_of_mem_entries (he : e ∈ c.entries) : NetworkUpgrade.genesis < e.2 := by
  obtain ⟨f, hf, he⟩ := List.mem_filterMap.1 he
  obtain ⟨height, -, rfl⟩ := Option.map_eq_some_iff.1 he
  simp only [fields, List.mem_cons, List.not_mem_nil, or_false] at hf
  rcases hf with rfl | rfl | rfl | rfl | rfl | rfl | rfl | rfl | rfl | rfl <;>
    simp [NetworkUpgrade.lt_iff, NetworkUpgrade.rank]

theorem mem_entries_of_mem_byHeight (he : e ∈ c.byHeight.toList) : e ∈ c.entries := by
  have hfold : ∀ (l : List (Nat × NetworkUpgrade)) (map : KeyedMap Nat NetworkUpgrade) (P : Nat × NetworkUpgrade → Prop),
      (∀ k v, map[k]? = some v → P (k, v)) → (∀ e ∈ l, P e) →
        ∀ k v, (l.foldl (fun map e => map.insert e.1 e.2) map)[k]? = some v → P (k, v) := by
    intro l
    induction l with
    | nil => exact fun map P hmap _ => hmap
    | cons e l ih =>
      intro map P hmap hl
      refine ih (map.insert e.1 e.2) P (fun k v hkv => ?_) fun e' he' => hl e' (List.mem_cons_of_mem _ he')
      by_cases hk : e.1 = k
      · subst hk
        rw [getElem?_insert_self] at hkv
        exact Option.some.inj hkv ▸ hl e List.mem_cons_self
      · rw [KeyedMap.getElem?_insert_of_ne hk] at hkv
        exact hmap k v hkv
  exact hfold c.entries ∅ (· ∈ c.entries) (fun k v h => by simp at h) (fun _ => id) e.1 e.2
    (mem_toList_iff_getElem?_eq_some.1 he)

theorem nodup_byHeight : (c.byHeight.toList.map Prod.snd).Nodup := by
  have hkeys : c.byHeight.toList.Pairwise fun a b => a ≠ b ∧ a.1 ≠ b.1 := by
    refine distinct_keys_toList.imp fun {a b} hne => ?_
    have hfst : a.1 ≠ b.1 := fun heq => hne (heq ▸ ReflOrd.compare_self)
    exact ⟨fun heq => hfst (heq ▸ rfl), hfst⟩
  rw [List.Nodup, List.pairwise_map]
  refine hkeys.imp_of_mem fun {a b} ha hb hne heq => ?_
  -- two entries for one upgrade are one entry of the configuration
  have hnodup : (c.entries.map Prod.snd).Nodup := by
    rw [List.Nodup, List.pairwise_map]
    refine c.entries_ascending.imp fun {a b} hlt heq => ?_
    rw [heq] at hlt
    exact Nat.lt_irrefl _ (NetworkUpgrade.lt_iff.1 hlt)
  exact hne.1 (List.inj_on_of_nodup_map hnodup (c.mem_entries_of_mem_byHeight ha) (c.mem_entries_of_mem_byHeight hb) heq)

theorem byHeight_increasing : c.byHeight.toList.Pairwise fun a b => a.1 < b.1 :=
  ordered_keys_toList.imp fun h => Nat.compare_eq_lt.1 h

end ConfiguredActivationHeights

namespace ActivationHeights

theorem eq_genesis (a : ActivationHeights) (he : e ∈ a.entries) (h : e.1 < 1) : e = (0, .genesis):= by
  obtain ⟨rest, hrest⟩ := List.head?_eq_some_iff.1 a.genesisFirst
  have hasc := a.ascending
  rw [hrest] at he hasc
  rcases List.mem_cons.1 he with rfl | he
  · rfl
  · have hlt := ((List.pairwise_cons.1 hasc).1 e he).1
    omega

def replace (a : ActivationHeights) (c : ConfiguredActivationHeights)
    (h : checkOrder (c.byHeight.toList.map Prod.snd) NetworkUpgrade.all c.byHeight.toList = .ok ()) :
    ActivationHeights where
  entries := a.entries.filter (fun e => e.1 < 1) ++ c.byHeight.toList
  ascending := by
    have hall : NetworkUpgrade.all.Pairwise (· < ·) := by decide
    obtain ⟨hupgrades, hpos⟩ := ascending_of_checkOrder hall (fun e _ => by cases e.2 <;> decide)
      (fun _ _ => Iff.rfl) c.nodup_byHeight h
    refine List.pairwise_append.2 ⟨a.ascending.filter _, c.byHeight_increasing.and hupgrades, ?_⟩
    intro e he e' he'
    obtain ⟨hmem, hzero⟩ := List.mem_filter.1 he
    obtain rfl : e = (0, .genesis) := a.eq_genesis hmem (of_decide_eq_true hzero)
    exact ⟨Nat.pos_of_ne_zero (hpos e' he'), c.genesis_lt_of_mem_entries (c.mem_entries_of_mem_byHeight he')⟩
  genesisFirst := by
    obtain ⟨rest, hrest⟩ := List.head?_eq_some_iff.1 a.genesisFirst
    rw [hrest]
    rfl

end ActivationHeights

def testnetActivationHeights : ActivationHeights where
  entries := [(0, .genesis), (1, .beforeOverwinter), (207500, .overwinter), (280000, .sapling), (584000, .blossom),
    (903800, .heartwood), (1028500, .canopy), (1842420, .nu5), (2976000, .nu6), (3536500, .nu6_1)]
  ascending := by decide
  genesisFirst := rfl

def testnetGenesisHash : BlockHash := 0x05a60a92d99d85997cce3b87616c089f6124d7342af37106edc76126334a2c38

def regtestGenesisHash : BlockHash := 0x029f11d80ef9765602235e1bc9727e3eb6ba20839319f761fee920d63401e327

structure CheckpointList where
  checkpoints : List (Nat × BlockHash)

namespace CheckpointList

def fromList (list : List (Nat × BlockHash)) : Option CheckpointList :=
  if 0 ∈ list.map Prod.fst ∧ (list.map Prod.fst).Nodup ∧ (list.map Prod.snd).Nodup ∧ 0 ∉ list.map Prod.snd ∧
      ∀ height ∈ list.map Prod.fst, height ≤ Height.max then some ⟨list⟩
  else none

def hash (l : CheckpointList) (height : Nat) : Option BlockHash :=
  (l.checkpoints.find? fun c => c.1 = height).map Prod.snd

def maxHeight (l : CheckpointList) : Nat := (l.checkpoints.map Prod.fst).foldl max 0

end CheckpointList

/-- The hard-coded addresses and checkpoints of the public test network. The addresses are P2SH
addresses. -/
structure TestnetConstants where
  ecc : List.Vector Address 51
  zcashFoundation : List.Vector Address 51
  majorGrants : List.Vector Address 51
  postNu6 : List.Vector Address 13
  postNu6_1 : List.Vector Address 27
  founders : List.Vector Address 48
  lockbox : Address
  checkpoints : CheckpointList
  founders_isScriptHash : ∀ a ∈ founders.toList, a.isScriptHash = true

namespace TestnetConstants

variable (k : TestnetConstants)

def fundingStreams : List FundingStreams :=
  [{ rangeStart := 1028500, rangeEnd := 2796000, nodup := by simp
     recipients := [(.ecc, ⟨7, k.ecc.toList⟩), (.zcashFoundation, ⟨5, k.zcashFoundation.toList⟩),
       (.majorGrants, ⟨8, k.majorGrants.toList⟩)] },
   { rangeStart := 2976000, rangeEnd := 2976000 + 420000, nodup := by simp
     recipients := [(.deferred, ⟨12, []⟩), (.majorGrants, ⟨8, k.postNu6.toList⟩)] },
   { rangeStart := 3536500, rangeEnd := 4476000, nodup := by simp
     recipients := [(.deferred, ⟨12, []⟩), (.majorGrants, ⟨8, k.postNu6_1.toList⟩)] }]

/-- A tenth of 78750 ZEC, ten times. -/
def lockboxDisbursements : List (Option Address × Amount .nonNegative) :=
  List.replicate 10 (some k.lockbox, ⟨787500000000, by decide⟩)

end TestnetConstants

/-- The addresses of a configuration are texts. Only what they parse to is modelled, which is
nothing for a text that is not an address. -/
structure ConfiguredFundingStreamRecipient where
  receiver : FundingStreamReceiver
  numerator : Nat
  addresses : Option (List (Option Address)) := none

structure ConfiguredFundingStreams where
  heightRange : Option (Nat × Nat) := none
  recipients : Option (List ConfiguredFundingStreamRecipient) := none

namespace FundingStreams

def insertRecipient (recipients : Recipients)
    (r : FundingStreamReceiver × FundingStreamRecipient) : Recipients :=
  recipients.filter (fun r' => r'.1 ≠ r.1) ++ [r]

/-- A map from receivers to recipients: of two recipients for one receiver, the later one stays. -/
def collectRecipients (recipients : Recipients) :
    Recipients := recipients.foldl insertRecipient []

theorem nodup_insertRecipient {recipients : Recipients}
    (h : (recipients.map Prod.fst).Nodup) (r : FundingStreamReceiver × FundingStreamRecipient) :
    ((insertRecipient recipients r).map Prod.fst).Nodup := by
  rw [insertRecipient, List.map_append, List.map_singleton, List.nodup_append]
  refine ⟨h.sublist (List.filter_sublist.map Prod.fst), List.nodup_singleton _, ?_⟩
  intro a ha b hb
  obtain ⟨r', hr', rfl⟩ := List.mem_map.1 ha
  rw [List.mem_singleton.1 hb]
  exact of_decide_eq_true (List.mem_filter.1 hr').2

theorem nodup_collectRecipients (recipients : Recipients) :
    ((collectRecipients recipients).map Prod.fst).Nodup := by
  have hfold : ∀ acc : Recipients, (acc.map Prod.fst).Nodup →
      ((recipients.foldl insertRecipient acc).map Prod.fst).Nodup := by
    induction recipients with
    | nil => exact fun _ h => h
    | cons r recipients ih => exact fun acc h => ih _ (nodup_insertRecipient h r)
  exact hfold [] List.nodup_nil

def sumNumerators (streams : FundingStreams) : Nat := (streams.recipients.map fun r => r.2.numerator).sum

end FundingStreams

variable {ε : Type}

def ConfiguredFundingStreamRecipient.intoRecipient (r : ConfiguredFundingStreamRecipient) :
    Exec ε (FundingStreamReceiver × FundingStreamRecipient) := do
  let addresses ← (r.addresses.getD []).mapM fun text => expect text .fundingStreamAddress
  return (r.receiver, ⟨r.numerator, addresses⟩)

namespace ConfiguredFundingStreams

def range (s : ConfiguredFundingStreams) (default : Option FundingStreams) : Exec ε (Nat × Nat) :=
  match s.heightRange with
  | some range => return range
  | none => do
    let streams ← expect default .defaultFundingStreams
    return (streams.rangeStart, streams.rangeEnd)

def recipientsOr (s : ConfiguredFundingStreams) (default : Option FundingStreams) :
    Exec ε Recipients :=
  match s.recipients with
  | some recipients => recipients.mapM ConfiguredFundingStreamRecipient.intoRecipient
  | none => do
    let streams ← expect default .defaultFundingStreams
    return streams.recipients

def convertWithDefault (s : ConfiguredFundingStreams) (default : Option FundingStreams) : Exec ε FundingStreams := do
  let (rangeStart, rangeEnd) ← s.range default
  let recipients ← s.recipientsOr default
  check (rangeStart ≤ rangeEnd) .fundingStreamRange
  let streams : FundingStreams :=
    ⟨rangeStart, rangeEnd, FundingStreams.collectRecipients recipients, FundingStreams.nodup_collectRecipients recipients⟩
  check (streams.sumNumerators ≤ fundingStreamReceiverDenominator) .fundingStreamNumerators
  return streams

end ConfiguredFundingStreams

def numFundingStreamAddressesRequiredForHeightRange (streams : FundingStreams) (net : Network) : Exec ε Nat := do
  let last ← expect (Height.previous streams.rangeEnd) .fundingStreamRange
  let lastPeriod ← fundingStreamAddressPeriod last net
  check (1 + lastPeriod < 2 ^ 32) .fundingStreamAddresses
  let firstPeriod ← fundingStreamAddressPeriod streams.rangeStart net
  check (firstPeriod ≤ 1 + lastPeriod) .fundingStreamAddresses
  return 1 + lastPeriod - firstPeriod

def checkFundingStreamAddressPeriod (streams : FundingStreams) (net : Network) : Exec ε Unit := do
  let expectedMinNumAddresses ← numFundingStreamAddressesRequiredForHeightRange streams net
  streams.recipients.forM fun r => do
    if r.1 = .deferred then return ()
    else do
      check (expectedMinNumAddresses ≤ r.2.addresses.length) .fundingStreamAddresses
      check (∀ a ∈ r.2.addresses, a.networkKind = .testnet) .fundingStreamAddress

/-- The addresses, repeated from the start until there are `targetLen` of them. -/
def FundingStreamRecipient.extendAddresses (r : FundingStreamRecipient) (targetLen : Nat) : FundingStreamRecipient :=
  { r with addresses := (List.range targetLen).filterMap fun i => r.addresses[i % r.addresses.length]? }

def FundingStreams.extendRecipientAddresses (streams : FundingStreams) (targetLen : Nat) : Exec ε FundingStreams := do
  check (∀ r ∈ streams.recipients, r.1 ≠ .deferred → r.2.addresses ≠ []) .noRecipientAddress
  let extend (r : FundingStreamReceiver × FundingStreamRecipient) :=
    if r.1 = .deferred then r else (r.1, r.2.extendAddresses targetLen)
  have hfst : (streams.recipients.map extend).map Prod.fst = streams.recipients.map Prod.fst := by
    rw [List.map_map]
    refine List.map_congr_left fun r _ => ?_
    dsimp only [Function.comp, extend]
    split <;> rfl
  return { streams with recipients := streams.recipients.map extend, nodup := hfst ▸ streams.nodup }

/-- The parameters that subsidies and difficulties depend on. The name and the magic of a network
and its proof of work flag are left out. -/
structure ParametersBuilder where
  genesisHash : BlockHash
  activationHeights : ActivationHeights
  slowStartInterval : UInt32
  fundingStreams : List FundingStreams
  shouldLockFundingStreamAddressPeriod : Bool
  targetDifficultyLimit : Nat
  shouldAllowUnshieldedCoinbaseSpends : Bool
  preBlossomHalvingInterval : Int
  postBlossomHalvingInterval : Int
  lockboxDisbursements : List (Option Address × Amount .nonNegative)
  checkpoints : CheckpointList

/-- A test network. The texts of the lockbox addresses are parsed each time they are used. -/
structure ConfiguredNetwork where
  network : Network
  lockboxTexts : List (Option Address × Amount .nonNegative)

inductive ConfiguredCheckpoints where
  | default (testnet : Bool)
  | heightsAndHashes (list : List (Nat × BlockHash))

namespace ParametersBuilder

def default (k : TestnetConstants) : ParametersBuilder where
  genesisHash := testnetGenesisHash
  activationHeights := testnetActivationHeights
  slowStartInterval := .ofNat slowStartIntervalDefault
  fundingStreams := k.fundingStreams
  shouldLockFundingStreamAddressPeriod := false
  -- `2 ^ 251 - 1` as a compact value
  targetDifficultyLimit := 0x7ffff * 2 ^ 232
  shouldAllowUnshieldedCoinbaseSpends := false
  preBlossomHalvingInterval := Zebra.preBlossomHalvingInterval
  postBlossomHalvingInterval := Zebra.postBlossomHalvingInterval
  lockboxDisbursements := k.lockboxDisbursements
  checkpoints := k.checkpoints

def withGenesisHash (b : ParametersBuilder) (genesisHash : BlockHash) : ParametersBuilder := { b with genesisHash }

def withActivationHeights (b : ParametersBuilder) (c : ConfiguredActivationHeights) :
    Except ParametersBuilderError ParametersBuilder :=
  if b.shouldLockFundingStreamAddressPeriod then .error .lockFundingStreams
  else if c.entries.any fun e => Height.max < e.1 then .error .invalidActivationHeight
  else
    match h : ActivationHeights.checkOrder (c.byHeight.toList.map Prod.snd) NetworkUpgrade.all c.byHeight.toList with
    | .error e => .error e
    | .ok () => .ok { b with activationHeights := b.activationHeights.replace c h }

def withSlowStartInterval (b : ParametersBuilder) (slowStartInterval : UInt32) : ParametersBuilder :=
  { b with slowStartInterval }

def withFundingStreams (b : ParametersBuilder) (k : TestnetConstants) (streams : List ConfiguredFundingStreams) :
    Exec ε ParametersBuilder := do
  let fundingStreams ← streams.zipIdx.mapM fun s => s.1.convertWithDefault k.fundingStreams[s.2]?
  return { b with fundingStreams, shouldLockFundingStreamAddressPeriod := true }

def clearFundingStreams (b : ParametersBuilder) : ParametersBuilder := { b with fundingStreams := [] }

def withTargetDifficultyLimit (b : ParametersBuilder) (targetDifficultyLimit : Nat) :
    Exec ParametersBuilderError ParametersBuilder := do
  let compact ← ExpandedDifficulty.toCompact targetDifficultyLimit
  match CompactDifficulty.toExpanded compact with
  | none => .fail .invaildDifficultyLimits
  | some targetDifficultyLimit => return { b with targetDifficultyLimit }

def withUnshieldedCoinbaseSpends (b : ParametersBuilder) (allow : Bool) : ParametersBuilder :=
  { b with shouldAllowUnshieldedCoinbaseSpends := allow }

def withHalvingInterval (b : ParametersBuilder) (preBlossomHalvingInterval : Int) :
    Exec ParametersBuilderError ParametersBuilder :=
  if b.shouldLockFundingStreamAddressPeriod then .fail .halvingIntervalAfterFundingStreams
  else do
    let postBlossomHalvingInterval ← I64.arith (preBlossomHalvingInterval * blossomPowTargetSpacingRatio)
    return { b with preBlossomHalvingInterval, postBlossomHalvingInterval }

def withLockboxDisbursements (b : ParametersBuilder)
    (lockboxDisbursements : List (Option Address × Amount .nonNegative)) : ParametersBuilder :=
  { b with lockboxDisbursements }

def withCheckpoints (b : ParametersBuilder) (k : TestnetConstants) :
    ConfiguredCheckpoints → Except ParametersBuilderError ParametersBuilder
  | .default true => .ok { b with checkpoints := k.checkpoints }
  | .default false =>
    match CheckpointList.fromList [(0, b.genesisHash)] with
    | some checkpoints => .ok { b with checkpoints }
    | none => .error .failedToParseDefaultCheckpoint
  | .heightsAndHashes list =>
    match CheckpointList.fromList list with
    | some checkpoints => .ok { b with checkpoints }
    | none => .error .invalidCustomCheckpoints

def finish (b : ParametersBuilder) (k : TestnetConstants) (variant : NetworkVariant) : ConfiguredNetwork where
  network := {
    variant
    activationHeights := b.activationHeights.entries
    ascending := b.activationHeights.ascending
    genesisFirst := b.activationHeights.genesisFirst
    slowStartInterval := b.slowStartInterval.toNat
    slowStartShift := b.slowStartInterval.toNat / 2
    preBlossomHalvingInterval := b.preBlossomHalvingInterval
    postBlossomHalvingInterval := b.postBlossomHalvingInterval
    fundingStreams := b.fundingStreams
    lockboxDisbursements := b.lockboxDisbursements.filterMap fun d => d.1.map fun a => (a, d.2)
    founderAddressList := k.founders.toList
    shouldAllowUnshieldedCoinbaseSpends := b.shouldAllowUnshieldedCoinbaseSpends
    testnetTargetDifficultyLimit := b.targetDifficultyLimit }
  lockboxTexts := b.lockboxDisbursements

def extendFundingStreams (b : ParametersBuilder) (k : TestnetConstants) : Exec ε ParametersBuilder := do
  let net := (b.finish k .configuredTestnet).network
  let fundingStreams ← b.fundingStreams.mapM fun streams => do
    let targetLen ← numFundingStreamAddressesRequiredForHeightRange streams net
    streams.extendRecipientAddresses targetLen
  return { b with fundingStreams }

/-- The height before Canopy, up to which every network has to have checkpoints. -/
def mandatoryCheckpointHeight (net : Network) : Exec ε Nat := do
  let canopy ← expect (NetworkUpgrade.canopy.activationHeight net) .canopyHeight
  expect (Height.previous canopy) .canopyHeight

def toNetwork (b : ParametersBuilder) (k : TestnetConstants) : Exec ParametersBuilderError ConfiguredNetwork := do
  let net := b.finish k .configuredTestnet
  b.fundingStreams.forM fun streams => checkFundingStreamAddressPeriod streams net.network
  if b.checkpoints.hash 0 ≠ some b.genesisHash then .fail .checkpointGenesisMismatch
  else do
    let mandatory ← mandatoryCheckpointHeight net.network
    if b.checkpoints.maxHeight < mandatory then .fail .insufficientCheckpointCoverage else return net

end ParametersBuilder

/-- A call of one of the builder's methods. -/
inductive BuilderCall where
  | genesisHash (genesisHash : BlockHash)
  | activationHeights (c : ConfiguredActivationHeights)
  | slowStartInterval (slowStartInterval : UInt32)
  | fundingStreams (streams : List ConfiguredFundingStreams)
  | clearFundingStreams
  | extendFundingStreams
  | targetDifficultyLimit (targetDifficultyLimit : Nat)
  | unshieldedCoinbaseSpends (allow : Bool)
  | halvingInterval (preBlossomHalvingInterval : Int)
  | lockboxDisbursements (disbursements : List (Option Address × Amount .nonNegative))
  | checkpoints (checkpoints : ConfiguredCheckpoints)

def BuilderCall.apply (k : TestnetConstants) (b : ParametersBuilder) :
    BuilderCall → Exec ParametersBuilderError ParametersBuilder
  | genesisHash h => .ok (b.withGenesisHash h)
  | activationHeights c => lift id (b.withActivationHeights c)
  | slowStartInterval n => .ok (b.withSlowStartInterval n)
  | fundingStreams streams => b.withFundingStreams k streams
  | .clearFundingStreams => .ok b.clearFundingStreams
  | .extendFundingStreams => b.extendFundingStreams k
  | targetDifficultyLimit limit => b.withTargetDifficultyLimit limit
  | unshieldedCoinbaseSpends allow => .ok (b.withUnshieldedCoinbaseSpends allow)
  | halvingInterval interval => b.withHalvingInterval interval
  | lockboxDisbursements disbursements => .ok (b.withLockboxDisbursements disbursements)
  | checkpoints c => lift id (b.withCheckpoints k c)

structure RegtestParameters where
  activationHeights : ConfiguredActivationHeights := {}
  fundingStreams : Option (List ConfiguredFundingStreams) := none
  lockboxDisbursements : Option (List (Option Address × Amount .nonNegative)) := none
  checkpoints : Option ConfiguredCheckpoints := none
  extendFundingStreamAddressesAsRequired : Option Bool := none

/-- All bytes of the number are `0x0f`. -/
def regtestTargetDifficultyLimit : Nat := 0x0f0f0f0f0f0f0f0f0f0f0f0f0f0f0f0f0f0f0f0f0f0f0f0f0f0f0f0f0f0f0f0f

def regtestCalls (p : RegtestParameters) : List BuilderCall :=
  [.genesisHash regtestGenesisHash, .targetDifficultyLimit regtestTargetDifficultyLimit, .unshieldedCoinbaseSpends true,
    .slowStartInterval 0, .activationHeights p.activationHeights.forRegtest, .halvingInterval 144, .fundingStreams (p.fundingStreams.getD []),
    .lockboxDisbursements (p.lockboxDisbursements.getD []), .checkpoints (p.checkpoints.getD (.default false))] ++
  if p.extendFundingStreamAddressesAsRequired = some true then [.extendFundingStreams] else []

def newRegtest (k : TestnetConstants) (p : RegtestParameters) : Exec ParametersBuilderError ConfiguredNetwork := do
  let b ← (regtestCalls p).foldlM (BuilderCall.apply k) (.default k)
  return b.finish k .regtest

/-- The networks that the builder or `new_regtest` returns. -/
inductive Accepted (k : TestnetConstants) : ConfiguredNetwork → Prop where
  | configured {calls : List BuilderCall} {b : ParametersBuilder} {net : ConfiguredNetwork}
      (hbuild : calls.foldlM (BuilderCall.apply k) (.default k) = .ok b) (hnet : b.toNetwork k = .ok net) :
      Accepted k net
  | regtest {p : RegtestParameters} {net : ConfiguredNetwork} (hnet : newRegtest k p = .ok net) : Accepted k net

namespace ConfiguredNetwork

def lockboxDisbursements (net : ConfiguredNetwork) (height : Nat) : Exec ε Payments :=
  if NetworkUpgrade.nu6_1.activationHeight net.network = some height then
    net.lockboxTexts.mapM fun d => do
      let address ← expect d.1 .lockboxAddress
      return (address, d.2)
  else return []

end ConfiguredNetwork

end Zebra
