import Mathlib.Data.List.Nodup

/-! Maps in the order in which their keys were first inserted. -/

namespace Zebra.IndexMap

variable {α β : Type} [DecidableEq α]

/-- `IndexMap::insert`: a new key is added at the end, an old one keeps its place. -/
def insert (l : List (α × β)) (k : α) (v : β) : List (α × β) :=
  if k ∈ l.map Prod.fst then l.map fun e => if e.1 = k then (k, v) else e else l ++ [(k, v)]

variable {l : List (α × β)} {k : α} {v : β}

theorem mem_insert {e : α × β} (h : e ∈ insert l k v) : e = (k, v) ∨ e ∈ l ∧ e.1 ≠ k := by
  unfold insert at h
  split at h
  · obtain ⟨e', he', rfl⟩ := List.mem_map.1 h
    by_cases hk : e'.1 = k
    · exact .inl (if_pos hk)
    · rw [if_neg hk]
      exact .inr ⟨he', hk⟩
  · rename_i hk
    rcases List.mem_append.1 h with he | he
    · exact .inr ⟨he, fun heq => hk (heq ▸ List.mem_map_of_mem he)⟩
    · exact .inl (List.mem_singleton.1 he)

theorem self_mem_insert : (k, v) ∈ insert l k v := by
  unfold insert
  split
  · rename_i hk
    obtain ⟨e, he, rfl⟩ := List.mem_map.1 hk
    exact List.mem_map.2 ⟨e, he, if_pos rfl⟩
  · simp

theorem mem_insert_of_ne {e : α × β} (he : e ∈ l) (hk : e.1 ≠ k) : e ∈ insert l k v := by
  unfold insert
  split
  · exact List.mem_map.2 ⟨e, he, if_neg hk⟩
  · exact List.mem_append_left _ he

theorem keys_insert : (insert l k v).map Prod.fst = if k ∈ l.map Prod.fst then l.map Prod.fst else l.map Prod.fst ++ [k] := by
  unfold insert
  split
  · rw [List.map_map]
    apply List.map_congr_left
    intro e _
    by_cases hk : e.1 = k <;> simp [hk]
  · rw [List.map_append, List.map_singleton]

theorem nodup_insert (h : (l.map Prod.fst).Nodup) : ((insert l k v).map Prod.fst).Nodup := by
  rw [keys_insert]
  split
  · exact h
  · rename_i hk
    exact List.nodup_append.2 ⟨h, List.nodup_singleton k, fun a ha b hb heq => hk (List.mem_singleton.1 hb ▸ heq ▸ ha)⟩

theorem lookup_eq_some_iff (h : (l.map Prod.fst).Nodup) : l.lookup k = some v ↔ (k, v) ∈ l := by
  induction l with
  | nil => simp
  | cons e l ih =>
    rw [List.map_cons, List.nodup_cons] at h
    rw [List.lookup_cons, List.mem_cons]
    by_cases hk : k = e.1
    · have hmem : (k, v) ∉ l := fun hmem => h.1 (hk ▸ List.mem_map_of_mem hmem)
      simp [hk, Prod.ext_iff, eq_comm, hk ▸ hmem]
    · have hbeq : (k == e.1) = false := by simpa using hk
      rw [hbeq]
      simp [hk, Prod.ext_iff, ih h.2]

end Zebra.IndexMap
