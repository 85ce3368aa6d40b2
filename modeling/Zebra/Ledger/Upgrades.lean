import Zebra.Network

namespace Zebra.NetworkUpgrade

variable {net : Network} {nu : NetworkUpgrade} {height : Nat}

theorem mem_all (nu : NetworkUpgrade) : nu ∈ all := by
  cases nu <;> decide

theorem all_ascending : all.Pairwise (· < ·) := by
  decide

theorem ascending_of_split {before after : List (Nat × NetworkUpgrade)} {e : Nat × NetworkUpgrade}
    (h : net.activationHeights = before ++ e :: after) :
    (∀ e' ∈ before, e'.1 < e.1 ∧ e'.2 < e.2) ∧ ∀ e' ∈ after, e.1 < e'.1 ∧ e.2 < e'.2 := by
  have hasc := net.ascending
  rw [h, List.pairwise_append, List.pairwise_cons] at hasc
  exact ⟨fun e' he' => hasc.2.2 e' he' e List.mem_cons_self, hasc.2.1.1⟩

theorem genesis_mem (net : Network) : (0, .genesis) ∈ net.activationHeights :=
  List.mem_of_mem_head? net.genesisFirst

theorem exists_currentEntry (net : Network) (height : Nat) : ∃ e ∈ net.activationHeights, e.1 ≤ height ∧
    currentEntry net height = some e ∧ ∀ e' ∈ net.activationHeights, e'.1 ≤ height → e'.2 ≤ e.2:= by
  have hmem : (0, .genesis) ∈ net.activationHeights.filter fun e => decide (e.1 ≤ height) :=
    List.mem_filter.2 ⟨genesis_mem net, by simp⟩
  obtain ⟨e, he⟩ := Option.ne_none_iff_exists'.1 (mt List.getLast?_eq_none_iff.1 (List.ne_nil_of_mem hmem))
  obtain ⟨init, hinit⟩ := List.getLast?_eq_some_iff.1 he
  have hasc := net.ascending.filter fun e => decide (e.1 ≤ height)
  rw [hinit, List.pairwise_append] at hasc
  have hlast : e ∈ net.activationHeights.filter fun e => decide (e.1 ≤ height) := by
    rw [hinit]
    simp
  obtain ⟨hin, hle⟩ := List.mem_filter.1 hlast
  refine ⟨e, hin, of_decide_eq_true hle, he, fun e' he' hle' => ?_⟩
  have hmem' : e' ∈ init ++ [e] := hinit ▸ List.mem_filter.2 ⟨he', decide_eq_true hle'⟩
  rcases List.mem_append.1 hmem' with hmem' | hmem'
  · exact Nat.le_of_lt (hasc.2.2 e' hmem' e (List.mem_singleton_self e)).2
  · rw [List.mem_singleton.1 hmem']
    exact Nat.le_refl _

theorem current_lt_iff : current net height < nu ↔ ∀ e ∈ net.activationHeights, nu ≤ e.2 → height < e.1 := by
  obtain ⟨last, hmem, hle, hlast, hmax⟩ := exists_currentEntry net height
  have hcurrent : current net height = last.2 := by
    rw [current, hlast, Option.map_some, Option.getD_some]
  rw [hcurrent, lt_iff]
  constructor
  · intro hlt e he hnu
    by_contra hheight
    have hrank := le_iff.1 (hmax e he (Nat.not_lt.1 hheight))
    have hnu := le_iff.1 hnu
    omega
  · intro h
    by_contra hrank
    exact Nat.not_lt.2 hle (h last hmem (le_iff.2 (Nat.not_lt.1 hrank)))

theorem activationHeight_eq_find :
    nu.activationHeight net = (net.activationHeights.find? fun e => decide (nu ≤ e.2)).map Prod.fst := by
  cases hfind : net.activationHeights.find? fun e => decide (nu ≤ e.2) with
  | none =>
    rw [Option.map_none, activationHeight, List.findSome?_eq_none_iff]
    intro u hu
    rw [Option.map_eq_none_iff, List.find?_eq_none]
    intro e he heq
    have hnone := List.find?_eq_none.1 hfind e he
    rw [of_decide_eq_true heq] at hnone
    exact hnone (List.mem_filter.1 hu).2
  | some e =>
    obtain ⟨hnu, before, after, hsplit, hbefore⟩ := List.find?_eq_some_iff_append.1 hfind
    obtain ⟨hlow, hhigh⟩ := ascending_of_split hsplit
    have hin : e.2 ∈ all.filter fun u => decide (nu ≤ u) := List.mem_filter.2 ⟨mem_all e.2, hnu⟩
    obtain ⟨earlier, later, hall⟩ := List.append_of_mem hin
    have hasc := all_ascending.filter fun u => decide (nu ≤ u)
    rw [hall, List.pairwise_append] at hasc
    rw [Option.map_some, activationHeight, List.findSome?_eq_some_iff]
    refine ⟨earlier, e.2, later, hall, ?_, ?_⟩
    · rw [Option.map_eq_some_iff]
      refine ⟨e, List.find?_eq_some_iff_append.2 ⟨by simp, before, after, hsplit, fun e' he' => ?_⟩, rfl⟩
      have hlt := lt_iff.1 (hlow e' he').2
      simp only [Bool.not_eq_eq_eq_not, Bool.not_true, decide_eq_false_iff_not]
      intro heq
      rw [heq] at hlt
      exact Nat.lt_irrefl _ hlt
    · -- an earlier upgrade has no entry
      intro u hu
      have hlt := lt_iff.1 (hasc.2.2 u hu e.2 List.mem_cons_self)
      have hle : decide (nu ≤ u) = true := by
        have hmem : u ∈ all.filter fun u => decide (nu ≤ u) := hall ▸ List.mem_append_left _ hu
        exact (List.mem_filter.1 hmem).2
      rw [Option.map_eq_none_iff, List.find?_eq_none]
      intro e' he' heq
      obtain rfl := of_decide_eq_true heq
      rw [hsplit, List.mem_append, List.mem_cons] at he'
      rcases he' with he' | rfl | he'
      · have hnot := hbefore e' he'
        rw [hle] at hnot
        exact absurd hnot Bool.false_ne_true
      · exact Nat.lt_irrefl _ hlt
      · exact Nat.lt_asymm hlt (lt_iff.1 (hhigh e' he').2)

theorem current_lt_iff_activationHeight : current net height < nu ↔ ∀ a ∈ nu.activationHeight net, height < a := by
  rw [current_lt_iff, activationHeight_eq_find]
  constructor
  · intro h a ha
    obtain ⟨e, he, rfl⟩ := Option.map_eq_some_iff.1 ha
    exact h e (List.mem_of_find?_eq_some he) (by simpa using List.find?_some he)
  · intro h e he hnu
    obtain ⟨first, hfirst⟩ := Option.isSome_iff_exists.1
      (List.find?_isSome.2 ⟨e, he, decide_eq_true hnu⟩ : (net.activationHeights.find? fun e => decide (nu ≤ e.2)).isSome)
    obtain ⟨-, before, after, hsplit, hbefore⟩ := List.find?_eq_some_iff_append.1 hfirst
    have hlt := h first.1 (Option.map_eq_some_iff.2 ⟨first, hfirst, rfl⟩)
    rw [hsplit, List.mem_append, List.mem_cons] at he
    rcases he with he | rfl | he
    · have hnot := hbefore e he
      simp [hnu] at hnot
    · exact hlt
    · exact Nat.lt_trans hlt ((ascending_of_split hsplit).2 e he).1

end Zebra.NetworkUpgrade
