import Zebra.Lib.KeyedMap

namespace Zebra.Lib

open Std ExtTreeMap KeyedMap

/-- Sets of values by a key that many values can share. -/
abbrev Buckets (κ α : Type) [Ord κ] [Ord α] := KeyedMap κ (KeyedMap α Unit)

namespace Buckets

variable {κ α : Type} [Ord κ] [TransOrd κ] [LawfulEqOrd κ] [Ord α] [TransOrd α] [LawfulEqOrd α]

def bucket (m : Buckets κ α) (k : κ) : KeyedMap α Unit := m[k]?.getD ∅

/-- `entry(k).or_default().insert(a)`. -/
def add (m : Buckets κ α) (k : κ) (a : α) : Buckets κ α := m.insert k ((m.bucket k).insert a ())

/-- Takes a value out of a bucket, and the bucket with its last value. -/
def remove (m : Buckets κ α) (k : κ) (a : α) : Buckets κ α :=
  match m[k]? with
  | none => m
  | some s => if (s.erase a).isEmpty then m.erase k else m.insert k (s.erase a)

/-- The buckets hold exactly the related pairs, and no bucket is empty. -/
structure Holds (m : Buckets κ α) (R : κ → α → Prop) : Prop where
  mem : ∀ k a, a ∈ m.bucket k ↔ R k a
  nonempty : ∀ (k : κ) (s : KeyedMap α Unit), m[k]? = some s → ∃ a, a ∈ s

variable {m : Buckets κ α} {R : κ → α → Prop} {k k' : κ} {a : α} {s : KeyedMap α Unit}

theorem bucket_of_getElem? (h : m[k]? = some s) : m.bucket k = s := by
  rw [bucket, h, Option.getD_some]

theorem bucket_insert_self (m : Buckets κ α) (k : κ) (s : KeyedMap α Unit) : bucket (m.insert k s) k = s :=
  bucket_of_getElem? getElem?_insert_self

theorem bucket_insert_of_ne (h : k ≠ k') (s : KeyedMap α Unit) : bucket (m.insert k s) k' = m.bucket k' := by
  rw [bucket, getElem?_insert_of_ne h, bucket]

theorem size_remove_le (m : Buckets κ α) (k : κ) (a : α) : (m.remove k a).size ≤ m.size := by
  rw [remove]
  split
  · exact le_rfl
  · rename_i s hs
    have hk : m.contains k = true := contains_iff_mem.2 (mem_iff_exists.2 ⟨_, hs⟩)
    split
    · exact size_erase_le
    · rw [size_insert, if_pos hk]

theorem size_removeAll_le (m : Buckets κ α) (ks : List κ) (a : α) :
    (ks.foldl (fun m k => m.remove k a) m).size ≤ m.size := by
  induction ks generalizing m with
  | nil => exact le_rfl
  | cons k ks ih => exact (ih _).trans (size_remove_le m k a)

theorem holds_empty : Holds (∅ : Buckets κ α) fun _ _ => False where
  mem k a := by simp [bucket]
  nonempty k s hs := by simp at hs

namespace Holds

section

variable (h : Holds m R)
include h

theorem congr {R' : κ → α → Prop} (hR : ∀ k a, R k a ↔ R' k a) : Holds m R' where
  mem k a := (h.mem k a).trans (hR k a)
  nonempty := h.nonempty

theorem exists_bucket (hR : R k a) : ∃ s, m[k]? = some s ∧ a ∈ s := by
  have ha := (h.mem k a).2 hR
  cases hs : m[k]? with
  | none => simp [bucket, hs] at ha
  | some s => exact ⟨s, rfl, bucket_of_getElem? hs ▸ ha⟩

theorem mem_of_getElem? (hs : m[k]? = some s) : a ∈ s ↔ R k a := by
  rw [← h.mem, bucket_of_getElem? hs]

theorem add (k : κ) (a : α) : Holds (m.add k a) fun k' a' => R k' a' ∨ k' = k ∧ a' = a where
  mem k' a' := by
    by_cases hk : k = k'
    · subst hk
      rw [Buckets.add, bucket_insert_self, mem_insert, LawfulEqOrd.compare_eq_iff_eq, h.mem]
      simp [or_comm, eq_comm]
    · rw [Buckets.add, bucket_insert_of_ne hk, h.mem]
      simp [Ne.symm hk]
  nonempty k' s hs := by
    by_cases hk : k = k'
    · subst hk
      rw [Buckets.add, getElem?_insert_self] at hs
      exact ⟨a, Option.some.inj hs ▸ mem_insert_self⟩
    · rw [Buckets.add, getElem?_insert_of_ne hk] at hs
      exact h.nonempty k' s hs

theorem filter (p : κ → Bool) : Holds (ExtTreeMap.filter (fun k _ => p k) m) fun k a => R k a ∧ p k where
  mem k a := by
    rw [← h.mem, bucket, bucket, getElem?_filter']
    cases hs : m[k]? <;> cases hp : p k <;> simp [Option.filter, hp]
  nonempty k s hs := by
    rw [getElem?_filter', Option.filter_eq_some_iff] at hs
    exact h.nonempty k s hs.1

theorem erase (k : κ) : Holds (ExtTreeMap.erase m k) fun k' a => R k' a ∧ k' ≠ k where
  mem k' a := by
    by_cases hk : k = k'
    · subst hk
      simp [bucket]
    · rw [bucket, getElem?_erase_of_ne hk, ← bucket, h.mem]
      simp [Ne.symm hk]
  nonempty k' s hs := by
    by_cases hk : k = k'
    · subst hk
      simp at hs
    · rw [getElem?_erase_of_ne hk] at hs
      exact h.nonempty k' s hs

theorem eraseAll [DecidableEq κ] (ks : List κ) :
    Holds (eraseAll m ks) fun k a => R k a ∧ k ∉ ks where
  mem k a := by
    rw [← h.mem, bucket, bucket, getElem?_eraseAll]
    by_cases hk : k ∈ ks <;> simp [hk]
  nonempty k s hs := by
    rw [getElem?_eraseAll] at hs
    split at hs
    · simp at hs
    · exact h.nonempty k s hs

theorem shrink (hs : m[k]? = some s) (hsize : s.size ≠ 1) (ha : a ∈ s) :
    Holds (m.insert k (s.erase a)) fun k' a' => R k' a' ∧ ¬ (k' = k ∧ a' = a) where
  mem k' a' := by
    by_cases hk : k = k'
    · subst hk
      rw [bucket_insert_self, mem_erase, h.mem_of_getElem? hs]
      simp [LawfulEqOrd.compare_eq_iff_eq.not, and_comm, eq_comm]
    · rw [bucket_insert_of_ne hk, h.mem]
      simp [Ne.symm hk]
  nonempty k' s' hs' := by
    by_cases hk : k = k'
    · subst hk
      rw [getElem?_insert_self, Option.some.injEq] at hs'
      subst hs'
      by_contra hnone
      have hempty : s.erase a = ∅ := eq_empty_iff_forall_not_mem.2 fun x hx => hnone ⟨x, hx⟩
      have hpos : 0 < s.size := by
        rw [← length_keys]
        exact List.length_pos_of_mem (mem_keys.2 ha)
      have herase : (s.erase a).size = s.size - 1 := by
        rw [size_erase, if_pos (contains_iff_mem.2 ha)]
      rw [hempty] at herase
      simp at herase
      omega
    · rw [getElem?_insert_of_ne hk] at hs'
      exact h.nonempty k' s' hs'

theorem remove (k : κ) (a : α) : Holds (m.remove k a) fun k' a' => R k' a' ∧ ¬ (k' = k ∧ a' = a) := by
  rw [Buckets.remove]
  cases hs : m[k]? with
  | none =>
    refine h.congr fun k' a' => (and_iff_left_of_imp ?_).symm
    rintro hR ⟨rfl, -⟩
    obtain ⟨s, hs', -⟩ := h.exists_bucket hR
    rw [hs] at hs'
    cases hs'
  | some s =>
    have hmem : ∀ a', a' ∈ s.erase a ↔ R k a' ∧ a' ≠ a := fun a' => by
      rw [mem_erase, h.mem_of_getElem? hs, Ne, LawfulEqOrd.compare_eq_iff_eq, and_comm, eq_comm]
    dsimp only
    split
    · rename_i hempty
      refine (h.erase k).congr fun k' a' => and_congr_right fun hR => ?_
      refine ⟨fun hne heq => hne heq.1, ?_⟩
      rintro hne rfl
      have ha := (hmem a').2 ⟨hR, fun heq => hne ⟨rfl, heq⟩⟩
      rw [isEmpty_iff.1 hempty] at ha
      exact not_mem_empty ha
    · rename_i hfull
      refine ⟨fun k' a' => ?_, fun k' s' hs' => ?_⟩
      · by_cases hk : k = k'
        · subst hk
          rw [bucket_insert_self, hmem]
          simp
        · rw [bucket_insert_of_ne hk, h.mem]
          simp [Ne.symm hk]
      · by_cases hk : k = k'
        · subst hk
          rw [getElem?_insert_self, Option.some.injEq] at hs'
          subst hs'
          by_contra hnone
          exact hfull (isEmpty_iff.2 (eq_empty_iff_forall_not_mem.2 fun x hx => hnone ⟨x, hx⟩))
        · rw [getElem?_insert_of_ne hk] at hs'
          exact h.nonempty k' s' hs'

theorem removeAll (ks : List κ) (a : α) :
    Holds (ks.foldl (fun m k => m.remove k a) m) fun k' a' => R k' a' ∧ ¬ (k' ∈ ks ∧ a' = a) := by
  induction ks generalizing m R with
  | nil => exact h.congr fun k' a' => by simp
  | cons k ks ih =>
    refine (ih (h.remove k a)).congr fun k' a' => ?_
    rw [List.mem_cons]
    tauto

theorem erase_singleton (hs : m[k]? = some s) (hsize : s.size = 1) (ha : a ∈ s) :
    Holds (ExtTreeMap.erase m k) fun k' a' => R k' a' ∧ ¬ (k' = k ∧ a' = a) := by
  refine (h.erase k).congr fun k' a' => and_congr_right fun hR => ?_
  refine ⟨fun hne ⟨heq, _⟩ => hne heq, ?_⟩
  rintro hne rfl
  refine hne ⟨rfl, ?_⟩
  have ha' := (h.mem_of_getElem? hs).2 hR
  rw [← length_keys, List.length_eq_one_iff] at hsize
  obtain ⟨x, hx⟩ := hsize
  rw [← mem_keys, hx, List.mem_singleton] at ha ha'
  rw [ha, ha']

end

section

variable {arrange : List α → List α}

theorem mem_flatMap_toList (h : Holds m R) (harrange : ∀ l, (arrange l).Perm l) :
    (a ∈ m.toList.flatMap fun e => arrange e.2.keys) ↔ ∃ k, R k a := by
  rw [List.mem_flatMap]
  constructor
  · rintro ⟨⟨k, s⟩, hs, ha⟩
    rw [(harrange _).mem_iff, mem_keys] at ha
    exact ⟨k, (h.mem_of_getElem? (mem_toList_iff_getElem?_eq_some.1 hs)).1 ha⟩
  · rintro ⟨k, hR⟩
    obtain ⟨s, hs, ha⟩ := h.exists_bucket hR
    refine ⟨(k, s), mem_toList_iff_getElem?_eq_some.2 hs, ?_⟩
    rwa [(harrange _).mem_iff, mem_keys]

theorem nodup_flatMap_toList (h : Holds m R) (harrange : ∀ l, (arrange l).Perm l)
    (hunique : ∀ k k' a, R k a → R k' a → k = k') : (m.toList.flatMap fun e => arrange e.2.keys).Nodup := by
  have hmem : ∀ e ∈ m.toList, ∀ a ∈ arrange e.2.keys, R e.1 a := by
    intro e he a ha
    rw [(harrange _).mem_iff, mem_keys] at ha
    exact (h.mem_of_getElem? (mem_toList_iff_getElem?_eq_some.1 he)).1 ha
  refine List.nodup_flatMap.2 ⟨fun e _ => (harrange _).nodup_iff.2 nodup_keys, ?_⟩
  refine distinct_keys_toList.imp_of_mem fun he he' hne a ha ha' => ?_
  exact hne (LawfulEqOrd.compare_eq_iff_eq.2 (hunique _ _ a (hmem _ he a ha) (hmem _ he' a ha')))

end

end Holds

end Buckets

end Zebra.Lib
