import Mathlib.Algebra.Order.Ring.Int
import Mathlib.Data.List.Perm.Subperm
import Mathlib.Data.Multiset.MapFold
import Mathlib.Data.Multiset.Filter
import Mathlib.Data.Multiset.UnionInter
import Std.Data.ExtTreeMap
import Zebra.Lib.Outcome

namespace Zebra.Lib

open Std ExtTreeMap

/-- Ordered and hashed maps of a program, up to the order of iteration. -/
abbrev KeyedMap (α β : Type) [Ord α] := ExtTreeMap α β compare

theorem lawfulEqCmp_compareOn {α β : Type} [Ord β] [LawfulEqOrd β] {f : α → β} (hf : Function.Injective f) :
    LawfulEqCmp (compareOn f) where
  eq_of_compare h := hf (LawfulEqOrd.eq_of_compare h)
  compare_self := ReflOrd.compare_self

theorem filterMap_cons_elim {α β : Type} (f : α → Option β) (a : α) (s : Multiset α) :
    (a ::ₘ s).filterMap f = (f a).elim (s.filterMap f) (· ::ₘ s.filterMap f) := by
  cases h : f a with
  | none => simp [Multiset.filterMap_cons_none _ _ h]
  | some b => simp [Multiset.filterMap_cons_some _ _ _ h]

namespace KeyedMap

variable {α β π ε : Type} [Ord α] [TransOrd α]

def insertNew (m : KeyedMap α β) (k : α) (v : β) (p : π) : Outcome π ε (KeyedMap α β) :=
  if k ∈ m then .panic p else .ok (m.insert k v)

def removePresent (m : KeyedMap α β) (k : α) (p : π) : Outcome π ε (KeyedMap α β) :=
  if k ∈ m then .ok (m.erase k) else .panic p

def eraseAll (m : KeyedMap α β) (ks : List α) : KeyedMap α β := ks.foldl ExtTreeMap.erase m

/-- `m` holds exactly the entries of `s`, and no key of `s` occurs twice. -/
structure Indexes (m : KeyedMap α β) (s : Multiset (α × β)) : Prop where
  nodup : (s.map Prod.fst).Nodup
  get : ∀ k v, m[k]? = some v ↔ (k, v) ∈ s

variable {m m' : KeyedMap α β} {s : Multiset (α × β)} {k : α} {v : β}

theorem insertNew_of_not_mem (hk : k ∉ m) (p : π) :
    (insertNew m k v p : Outcome π ε _) = .ok (m.insert k v) := by
  simp [insertNew, hk]

theorem removePresent_of_mem (hk : k ∈ m) (p : π) :
    (removePresent m k p : Outcome π ε _) = .ok (m.erase k) := by
  simp [removePresent, hk]

theorem insertNew_eq_ok {p : π} :
    (insertNew m k v p : Outcome π ε _) = .ok m' ↔ k ∉ m ∧ m' = m.insert k v := by
  by_cases hk : k ∈ m
  · simp [insertNew, hk]
  · simp [insertNew, hk, eq_comm]

theorem removePresent_eq_ok {p : π} :
    (removePresent m k p : Outcome π ε _) = .ok m' ↔ k ∈ m ∧ m' = m.erase k := by
  by_cases hk : k ∈ m
  · simp [removePresent, hk, eq_comm]
  · simp [removePresent, hk]

theorem mem_iff_exists : k ∈ m ↔ ∃ v, m[k]? = some v := by
  rw [mem_iff_isSome_getElem?, Option.isSome_iff_exists]

theorem indexes_empty : Indexes (∅ : KeyedMap α β) 0 :=
  ⟨by simp, by simp⟩

theorem Indexes.mem_iff (h : Indexes m s) : k ∈ m ↔ k ∈ s.map Prod.fst := by
  rw [mem_iff_exists]
  simp only [h.get, Multiset.mem_map, Prod.exists, exists_and_right, exists_eq_right]

variable [LawfulEqOrd α]

theorem getElem?_insert_of_ne {k' : α} (h : k ≠ k') : (m.insert k v)[k']? = m[k']? := by
  have hc : compare k k' ≠ .eq := fun hc => h (LawfulEqOrd.eq_of_compare hc)
  simp [getElem?_insert, hc]

theorem getElem?_erase_of_ne {k' : α} (h : k ≠ k') : (m.erase k)[k']? = m[k']? := by
  have hc : compare k k' ≠ .eq := fun hc => h (LawfulEqOrd.eq_of_compare hc)
  simp [getElem?_erase, hc]

theorem erase_eq_self (hk : k ∉ m) : m.erase k = m := by
  refine ext_getElem? fun k' => ?_
  by_cases h : k = k'
  · subst h
    rw [getElem?_eq_none hk]
    simp
  · exact getElem?_erase_of_ne h

theorem Indexes.insert (h : Indexes m s) (hk : k ∉ m) : Indexes (m.insert k v) ((k, v) ::ₘ s) := by
  have hks := hk
  rw [h.mem_iff] at hks
  refine ⟨by simpa [Multiset.nodup_cons] using ⟨by simpa using hks, h.nodup⟩, fun k' v' => ?_⟩
  rw [Multiset.mem_cons, Prod.mk.injEq, ← h.get]
  by_cases hkk : k = k'
  · subst hkk
    simp [getElem?_eq_none hk, eq_comm]
  · simp [getElem?_insert_of_ne hkk, Ne.symm hkk]

theorem Indexes.erase (h : Indexes m ((k, v) ::ₘ s)) : Indexes (m.erase k) s := by
  have hn := h.nodup
  rw [Multiset.map_cons, Multiset.nodup_cons] at hn
  refine ⟨hn.2, fun k' v' => ?_⟩
  by_cases hkk : k = k'
  · subst hkk
    have hs : (k, v') ∉ s := fun hm => hn.1 (Multiset.mem_map.2 ⟨_, hm, rfl⟩)
    simp [hs]
  · rw [getElem?_erase_of_ne hkk, h.get]
    simp [Ne.symm hkk]

theorem Indexes.filter (h : Indexes m s) (f : α → β → Bool) :
    Indexes (m.filter f) (s.filter fun x => f x.1 x.2 = true) := by
  refine ⟨Multiset.nodup_of_le (Multiset.map_le_map (Multiset.filter_le _ s)) h.nodup, fun k v => ?_⟩
  rw [Multiset.mem_filter, ← h.get, getElem?_filter']
  simp [Option.filter_eq_some_iff]

theorem Indexes.concat {l : List (α × β)} (h : Indexes m (l : Multiset (α × β))) (hk : k ∉ m) :
    Indexes (m.insert k v) ((l ++ [(k, v)] : List (α × β)) : Multiset (α × β)) := by
  rw [Multiset.coe_eq_coe.2 (List.perm_append_singleton (k, v) l), ← Multiset.cons_coe]
  exact h.insert hk

theorem Indexes.erase_of_perm {l l' : List (α × β)} (h : Indexes m (l : Multiset (α × β))) (hl : l.Perm ((k, v) :: l')) :
    Indexes (m.erase k) (l' : Multiset (α × β)) := by
  rw [Multiset.coe_eq_coe.2 hl, ← Multiset.cons_coe] at h
  exact h.erase

theorem Indexes.unconcat {l : List (α × β)}
    (h : Indexes m ((l ++ [(k, v)] : List (α × β)) : Multiset (α × β))) :
    k ∈ m ∧ Indexes (m.erase k) (l : Multiset (α × β)) := by
  rw [Multiset.coe_eq_coe.2 (List.perm_append_singleton (k, v) l), ← Multiset.cons_coe] at h
  exact ⟨by simp [h.mem_iff], h.erase⟩

theorem Indexes.unique (h : Indexes m s) (h' : Indexes m' s) : m = m' := by
  refine ext_getElem? fun k => Option.ext fun v => ?_
  rw [h.get, h'.get]

section

variable {γ : Type} {J : Multiset γ} {f : γ → Option (α × β)} {e : γ}

omit [LawfulEqOrd α] in
/-- A map that indexes a view of some records does not see the records outside the view. -/
theorem indexes_cons_of_none (he : f e = none) :
    Indexes m ((e ::ₘ J).filterMap f) ↔ Indexes m (J.filterMap f) := by
  rw [filterMap_cons_elim, he, Option.elim_none]

theorem Indexes.skip (h : Indexes m (J.filterMap f)) (he : f e = none) : Indexes m ((e ::ₘ J).filterMap f) :=
  (indexes_cons_of_none he).2 h

theorem Indexes.unskip (h : Indexes m ((e ::ₘ J).filterMap f)) (he : f e = none) : Indexes m (J.filterMap f) :=
  (indexes_cons_of_none he).1 h

theorem Indexes.cons (h : Indexes m (J.filterMap f)) (he : f e = some (k, v)) (hk : k ∉ m) :
    Indexes (m.insert k v) ((e ::ₘ J).filterMap f) := by
  rw [filterMap_cons_elim, he, Option.elim_some]
  exact h.insert hk

theorem Indexes.uncons (h : Indexes m ((e ::ₘ J).filterMap f)) (he : f e = some (k, v)) :
    k ∈ m ∧ Indexes (m.erase k) (J.filterMap f) := by
  rw [filterMap_cons_elim, he, Option.elim_some] at h
  exact ⟨by simp [h.mem_iff], h.erase⟩

end

theorem getElem?_insertMany_of_not_mem {l : List (α × β)} (hk : k ∉ l.map Prod.fst) :
    (m.insertMany l)[k]? = m[k]? := by
  induction l generalizing m with
  | nil => rw [insertMany_nil]
  | cons e l ih =>
    rw [List.map_cons, List.mem_cons, not_or] at hk
    rw [insertMany_cons, ih hk.2, getElem?_insert_of_ne (Ne.symm hk.1)]

theorem getElem?_eraseAll (m : KeyedMap α β) (ks : List α) (k : α) [DecidableEq α] :
    (m.eraseAll ks)[k]? = if k ∈ ks then none else m[k]? := by
  induction ks generalizing m with
  | nil => rfl
  | cons k' ks ih =>
    rw [eraseAll, List.foldl_cons, ← eraseAll, ih]
    by_cases hk : k' = k
    · subst hk
      simp
    · rw [getElem?_erase_of_ne hk]
      simp [Ne.symm hk]

theorem mem_eraseAll_iff {ks : List α} [DecidableEq α] : k ∈ m.eraseAll ks ↔ k ∈ m ∧ k ∉ ks := by
  rw [mem_iff_isSome_getElem?, getElem?_eraseAll, mem_iff_isSome_getElem?]
  split <;> simp_all

theorem size_eraseAll {ks : List α} (hnodup : ks.Nodup) (hmem : ∀ k ∈ ks, k ∈ m) :
    (m.eraseAll ks).size + ks.length = m.size := by
  induction ks generalizing m with
  | nil => rfl
  | cons k ks ih =>
    obtain ⟨hfresh, hnodup⟩ := List.nodup_cons.1 hnodup
    obtain ⟨hk, hmem⟩ := List.forall_mem_cons.1 hmem
    have hrest := ih (m := m.erase k) hnodup fun k' hk' => by
      refine mem_erase.2 ⟨LawfulEqOrd.compare_eq_iff_eq.ne.2 ?_, hmem k' hk'⟩
      rintro rfl
      exact hfresh hk'
    have hpos : 0 < m.size := by
      rw [← length_keys]
      exact List.length_pos_of_mem (mem_keys.2 hk)
    rw [size_erase, if_pos (contains_iff_mem.2 hk)] at hrest
    rw [eraseAll, List.foldl_cons, ← eraseAll, List.length_cons]
    omega

theorem mem_of_getElem?_insertMany {l : List (α × β)} (h : (m.insertMany l)[k]? = some v) :
    (k, v) ∈ l ∨ k ∉ l.map Prod.fst ∧ m[k]? = some v := by
  induction l generalizing m with
  | nil => exact .inr ⟨List.not_mem_nil, by rwa [insertMany_nil] at h⟩
  | cons e l ih =>
    rw [insertMany_cons] at h
    rcases ih h with hl | ⟨hl, hv⟩
    · exact .inl (List.mem_cons_of_mem _ hl)
    · by_cases hk : e.1 = k
      · subst hk
        rw [getElem?_insert_self, Option.some.injEq] at hv
        exact .inl (hv ▸ List.mem_cons_self)
      · rw [getElem?_insert_of_ne hk] at hv
        exact .inr ⟨by simpa [Ne.symm hk] using hl, hv⟩

theorem mem_insertMany_iff {l : List (α × β)} : k ∈ m.insertMany l ↔ k ∈ m ∨ k ∈ l.map Prod.fst := by
  induction l generalizing m with
  | nil => simp
  | cons e l ih =>
    rw [insertMany_cons, ih, mem_insert, LawfulEqOrd.compare_eq_iff_eq]
    simp [eq_comm, or_left_comm, or_assoc]

theorem mem_ofList_iff {l : List (α × β)} : k ∈ ofList l compare ↔ k ∈ l.map Prod.fst := by
  rw [ofList_eq_insertMany_empty, mem_insertMany_iff]
  simp

theorem mem_of_getElem?_ofList {l : List (α × β)} (h : (ofList l compare)[k]? = some v) : (k, v) ∈ l := by
  rw [ofList_eq_insertMany_empty] at h
  rcases mem_of_getElem?_insertMany h with hl | ⟨-, hv⟩
  · exact hl
  · simp at hv

theorem getElem?_insertMany_iff {l : List (α × β)} (hl : ∀ k v v', (k, v) ∈ l → (k, v') ∈ l → v = v') :
    (m.insertMany l)[k]? = some v ↔ (k, v) ∈ l ∨ k ∉ l.map Prod.fst ∧ m[k]? = some v := by
  refine ⟨mem_of_getElem?_insertMany, ?_⟩
  rintro (h | ⟨hk, hv⟩)
  · have hk : k ∈ m.insertMany l := mem_insertMany_iff.2 (.inr (List.mem_map_of_mem h))
    have hv := getElem?_eq_some_getElem hk
    rcases mem_of_getElem?_insertMany hv with h' | ⟨hn, -⟩
    · rw [hv, hl k _ _ h' h]
    · exact absurd (List.mem_map_of_mem h) hn
  · rw [getElem?_insertMany_of_not_mem hk, hv]

theorem getElem?_ofList_iff {l : List (α × β)} (hl : ∀ k v v', (k, v) ∈ l → (k, v') ∈ l → v = v') :
    (ofList l compare)[k]? = some v ↔ (k, v) ∈ l := by
  rw [ofList_eq_insertMany_empty, getElem?_insertMany_iff hl]
  simp

theorem getElem?_insertMany_of_mem {l : List (α × β)} (hl : (l.map Prod.fst).Nodup) (h : (k, v) ∈ l) :
    (m.insertMany l)[k]? = some v := by
  induction l generalizing m with
  | nil => cases h
  | cons e l ih =>
    rw [List.map_cons, List.nodup_cons] at hl
    rw [insertMany_cons]
    rcases List.mem_cons.1 h with rfl | h
    · rw [getElem?_insertMany_of_not_mem hl.1, getElem?_insert_self]
    · exact ih hl.2 h

theorem exists_indexes (hs : (s.map Prod.fst).Nodup) : ∃ m : KeyedMap α β, Indexes m s := by
  induction s using Multiset.induction_on with
  | empty => exact ⟨∅, indexes_empty⟩
  | cons e s ih =>
    rw [Multiset.map_cons, Multiset.nodup_cons] at hs
    obtain ⟨m, hm⟩ := ih hs.2
    exact ⟨m.insert e.1 e.2, hm.insert (by rw [hm.mem_iff]; exact hs.1)⟩

theorem Indexes.toList_eq {l : List (α × β)} (h : Indexes m (l : Multiset (α × β)))
    (hl : l.Pairwise fun a b => compare a.1 b.1 = .lt) : m.toList = l := by
  have hs := m.ordered_keys_toList
  have hirr : ∀ a b : α × β, compare a.1 b.1 = .lt → a ≠ b := by
    rintro a _ hab rfl
    simp [ReflOrd.compare_self] at hab
  refine List.Perm.eq_of_pairwise (fun a b _ _ hab hba => ?_) hs hl
    ((List.perm_ext_iff_of_nodup (hs.imp (hirr _ _)) (hl.imp (hirr _ _))).2 fun a => ?_)
  · rw [OrientedCmp.gt_of_lt hab] at hba
    simp at hba
  · rw [mem_toList_iff_getElem?_eq_some, h.get]
    simp

theorem indexes_toList (m : KeyedMap α β) : Indexes m (m.toList : Multiset (α × β)) where
  nodup := by
    rw [Multiset.map_coe, Multiset.coe_nodup]
    refine List.pairwise_map.2 (m.distinct_keys_toList.imp fun hne heq => ?_)
    exact hne (LawfulEqOrd.compare_eq_iff_eq.2 heq)
  get k v := by simp [mem_toList_iff_getElem?_eq_some]

theorem map_fst_toList_eq_range {m : KeyedMap Nat β} {n : Nat} (h : ∀ k, k ∈ m ↔ k < n) :
    m.toList.map Prod.fst = List.range n := by
  have hs : (m.toList.map Prod.fst).Pairwise (· < ·) :=
    List.pairwise_map.2 (m.ordered_keys_toList.imp fun hab => Nat.compare_eq_lt.1 hab)
  refine List.Perm.eq_of_pairwise (fun a b _ _ hab hba => absurd hba hab.asymm) hs List.pairwise_lt_range
    ((List.perm_ext_iff_of_nodup (hs.imp Nat.ne_of_lt) List.nodup_range).2 fun k => ?_)
  rw [List.mem_range, ← h k, map_fst_toList_eq_keys, mem_keys]

theorem getLast?_toList {m : KeyedMap Nat β} {k : Nat} {v : β} (hk : m[k]? = some v) (hmax : ∀ k' ∈ m, k' ≤ k) :
    m.toList.getLast? = some (k, v) := by
  have hmem : (k, v) ∈ m.toList := mem_toList_iff_getElem?_eq_some.2 hk
  rcases List.eq_nil_or_concat' m.toList with hnil | ⟨init, e, heq⟩
  · rw [hnil] at hmem
    cases hmem
  have he : e.1 ≤ k := by
    refine hmax e.1 ?_
    rw [← mem_keys, ← map_fst_toList_eq_keys, heq]
    simp
  have hordered := m.ordered_keys_toList
  rw [heq] at hmem hordered
  rw [heq, List.getLast?_append, List.getLast?_singleton, Option.some_or]
  rcases List.mem_append.1 hmem with hinit | hlast
  · have hlt := (List.pairwise_append.1 hordered).2.2 (k, v) hinit e (List.mem_singleton_self e)
    exact absurd (Nat.compare_eq_lt.1 hlt) (Nat.not_lt.2 he)
  · rw [List.mem_singleton.1 hlast]

theorem Indexes.multiset_eq {s' : Multiset (α × β)} (h : Indexes m s) (h' : Indexes m s') : s = s' := by
  refine (Multiset.Nodup.ext (.of_map _ h.nodup) (.of_map _ h'.nodup)).2 fun ⟨k, v⟩ => ?_
  rw [← h.get, ← h'.get]

theorem Indexes.size_eq {l : List (α × β)} (h : Indexes m (l : Multiset (α × β))) : m.size = l.length := by
  rw [← length_toList]
  exact (Multiset.coe_eq_coe.1 ((indexes_toList m).multiset_eq h)).length_eq

def total (f : β → Nat) (m : KeyedMap α β) : Nat := (m.toList.map fun e => f e.2).sum

variable {f : β → Nat}

theorem total_insert (hk : k ∉ m) : total f (m.insert k v) = f v + total f m := by
  have hs := (indexes_toList (m.insert k v)).multiset_eq ((indexes_toList m).insert hk)
  rw [Multiset.cons_coe, Multiset.coe_eq_coe] at hs
  rw [total, (hs.map _).sum_nat, List.map_cons, List.sum_cons, total]

theorem total_eq_add_erase (h : m[k]? = some v) : total f m = f v + total f (m.erase k) := by
  have hk : k ∉ m.erase k := fun hk => by simp at hk
  have hm : (m.erase k).insert k v = m := by
    refine ext_getElem? fun k' => ?_
    by_cases hkk : k = k'
    · subst hkk
      rw [getElem?_insert_self, h]
    · rw [getElem?_insert_of_ne hkk, getElem?_erase_of_ne hkk]
  rw [← total_insert hk, hm]

theorem le_total (h : m[k]? = some v) : f v ≤ total f m := by
  rw [total_eq_add_erase h]
  exact Nat.le_add_right _ _

theorem total_le (h : ∀ (k : α) (v : β), m'[k]? = some v → m[k]? = some v) : total f m' ≤ total f m := by
  have hnodup : ∀ m : KeyedMap α β, m.toList.Nodup := fun m => by
    simpa using Multiset.Nodup.of_map _ (indexes_toList m).nodup
  have hsub : m'.toList.Subperm m.toList := List.subperm_of_subset (hnodup m') fun ⟨k, v⟩ he =>
    mem_toList_iff_getElem?_eq_some.2 (h k v (mem_toList_iff_getElem?_eq_some.1 he))
  obtain ⟨l, hperm, hsublist⟩ := hsub
  obtain ⟨rest, hrest⟩ := hsublist.exists_perm_append
  have hsum := (((hrest.trans (hperm.append_right rest))).map fun e => f e.2).sum_nat
  rw [List.map_append, List.sum_append] at hsum
  rw [total, total, hsum]
  exact Nat.le_add_right _ _

end KeyedMap

end Zebra.Lib
