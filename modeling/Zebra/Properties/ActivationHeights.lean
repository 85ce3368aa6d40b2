import Zebra.Properties.SubsidyTotal

namespace Zebra.Properties

open Lib Ledger NetworkUpgrade

variable {e : Nat × NetworkUpgrade}

section

variable {net : Network} {nu : NetworkUpgrade} {height : Nat}

theorem le_current_iff : nu ≤ current net height ↔ ∃ a, nu.activationHeight net = some a ∧ a ≤ height := by
  have hlt : current net height < nu ↔ _ := current_lt_iff_activationHeight
  rw [lt_iff] at hlt
  rw [le_iff, ← Nat.not_lt, hlt]
  push Not
  rfl

theorem activationHeight_le (he : e ∈ net.activationHeights) (hle : nu ≤ e.2) :
    ∃ a, nu.activationHeight net = some a ∧ a ≤ e.1 := by
  rw [← le_current_iff, le_iff, ← Nat.not_lt, ← lt_iff, current_lt_iff]
  intro hnone
  exact Nat.lt_irrefl _ (hnone e he hle)

end

section

variable {b b' : ParametersBuilder} {c : ConfiguredActivationHeights}

theorem mem_entries_of_withActivationHeights (h : b.withActivationHeights c = .ok b')
    (he : e ∈ b'.activationHeights.entries) (hgenesis : .genesis < e.2) : e ∈ c.entries := by
  obtain ⟨-, hcheck, rfl⟩ := ParametersBuilder.withActivationHeights_eq_ok h
  rcases List.mem_append.1 he with he | he
  · obtain ⟨hmem, hzero⟩ := List.mem_filter.1 he
    obtain rfl := b.activationHeights.eq_genesis hmem (of_decide_eq_true hzero)
    exact absurd hgenesis (by decide)
  · exact c.mem_entries_of_mem_byHeight he

theorem exists_entry_of_withActivationHeights (h : b.withActivationHeights c = .ok b')
    (he : e ∈ c.entries) : ∃ u, e.2 ≤ u ∧ (e.1, u) ∈ b'.activationHeights.entries := by
  obtain ⟨-, hcheck, rfl⟩ := ParametersBuilder.withActivationHeights_eq_ok h
  obtain ⟨u, hle, hu⟩ := ConfiguredActivationHeights.exists_byHeight he
  exact ⟨u, hle, List.mem_append_right _ hu⟩

/-- No upgrade is configured after a later one. -/
def HeightsInOrder (c : ConfiguredActivationHeights) : Prop := ∀ e ∈ c.entries, ∀ e' ∈ c.entries, e.2 ≤ e'.2 → e.1 ≤ e'.1

theorem activationHeight_of_heightsInOrder (h : b.withActivationHeights c = .ok b') (hinc : HeightsInOrder c) {net : Network}
    (hnet : net.activationHeights = b'.activationHeights.entries) (he : e ∈ c.entries) :
    e.2.activationHeight net = some e.1 := by
  obtain ⟨u, hle, hu⟩ := exists_entry_of_withActivationHeights h he
  obtain ⟨a, ha, hupper⟩ := activationHeight_le (hnet ▸ hu) hle
  obtain ⟨u', hle', hu'⟩ := exists_of_activationHeight ha
  have hmem : (a, u') ∈ c.entries := by
    apply mem_entries_of_withActivationHeights h (hnet ▸ hu')
    have hgenesis := lt_iff.1 (c.genesis_lt_of_mem_entries he)
    exact lt_iff.2 (hgenesis.trans_le (le_iff.1 hle'))
  rw [ha, Nat.le_antisymm hupper (hinc e he (a, u') hmem hle')]

/-- The configured heights are honoured exactly if they are in the order of the upgrades: the
order is checked only after upgrades at the same height have replaced each other. -/
theorem configured_heights_honoured_iff (h : b.withActivationHeights c = .ok b') (k : TestnetConstants)
    (variant : NetworkVariant) : (∀ e ∈ c.entries, e.2.activationHeight (b'.finish k variant).network = some e.1) ∧
      (∀ (height : Nat) (nu : NetworkUpgrade), nu ≤ current (b'.finish k variant).network height ↔
        ∃ a, nu.activationHeight (b'.finish k variant).network = some a ∧ a ≤ height) ↔ HeightsInOrder c := by
  constructor
  · rintro ⟨hheights, hcurrent⟩ e he e' he' hle
    have hactive : e'.2 ≤ current (b'.finish k variant).network e'.1 := (hcurrent _ _).2 ⟨_, hheights e' he', le_rfl⟩
    obtain ⟨a, ha, hle'⟩ := (hcurrent e'.1 e.2).1 (le_iff.2 ((le_iff.1 hle).trans (le_iff.1 hactive)))
    rw [hheights e he, Option.some.injEq] at ha
    exact ha ▸ hle'
  · intro hinc
    exact ⟨fun e he => activationHeight_of_heightsInOrder h hinc rfl he, fun height nu => le_current_iff⟩

end

/-- Canopy is hidden behind a later upgrade at its height, and NU5 is configured before it. -/
def hiddenCanopy : ConfiguredActivationHeights := { canopy := some 10, nu5 := some 5, nu6 := some 10 }

/-- The configuration is accepted, and Canopy activates at the height of NU5. -/
theorem hiddenCanopy_activates_early :
    ∃ b', (ParametersBuilder.default sampleConstants).withActivationHeights hiddenCanopy = .ok b' ∧
      (10, canopy) ∈ hiddenCanopy.entries ∧
        canopy.activationHeight (b'.finish sampleConstants .configuredTestnet).network = some 5 := by
  have hbuild : (fun b' : ParametersBuilder =>
      canopy.activationHeight (b'.finish sampleConstants .configuredTestnet).network) <$>
        (ParametersBuilder.default sampleConstants).withActivationHeights hiddenCanopy = .ok (some 5) := by
    decide +kernel
  obtain ⟨b', hb', hheight⟩ := map_eq_ok.1 hbuild
  exact ⟨b', hb', by decide, hheight⟩

theorem configured_heights_honoured_sample :
    ∃ b', (ParametersBuilder.default sampleConstants).withActivationHeights { canopy := some 5, nu5 := some 5 } = .ok b' ∧
      canopy.activationHeight (b'.finish sampleConstants .configuredTestnet).network = some 5 := by
  have hbuild : (fun _ => ()) <$> (ParametersBuilder.default sampleConstants).withActivationHeights
      { canopy := some 5, nu5 := some 5 } = .ok () := by
    decide +kernel
  obtain ⟨b', hb', -⟩ := map_eq_ok.1 hbuild
  obtain ⟨hheights, -⟩ := (configured_heights_honoured_iff hb' sampleConstants .configuredTestnet).2 (by
    unfold HeightsInOrder
    decide)
  exact ⟨b', hb', hheights (5, canopy) (by decide)⟩

end Zebra.Properties
