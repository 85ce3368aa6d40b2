import Mathlib.Logic.Relation
import Zebra.Lib.Buckets

/-! A relation that is kept in both directions, and the removal of everything below an element. -/

namespace Zebra.Lib

open Std ExtTreeMap KeyedMap

/-- The order in which a set is iterated, which is any. -/
structure IterationOrder (κ : Type) where
  arrange : List κ → List κ
  perm : ∀ l, (arrange l).Perm l

structure DependencyMaps (κ : Type) [Ord κ] where
  dependencies : Buckets κ κ
  dependents : Buckets κ κ

namespace DependencyMaps

variable {κ : Type} [Ord κ] [TransOrd κ] [LawfulEqOrd κ] [DecidableEq κ]

def empty : DependencyMaps κ := ⟨∅, ∅⟩

variable (d : DependencyMaps κ)

def link (dependent : κ) (on : List κ) : DependencyMaps κ where
  dependencies := if on = [] then d.dependencies else d.dependencies.insert dependent (.ofList (on.map fun p => (p, ())) compare)
  dependents := on.foldl (fun m p => m.add p dependent) d.dependents

def unlink (p : κ) : DependencyMaps κ where
  dependencies := (d.dependents.bucket p).keys.foldl (fun m t => m.remove t p) d.dependencies
  dependents := d.dependents.erase p

/-- Removes the entries of one element, and returns those that depend on it. -/
def visit (x : κ) : KeyedMap κ Unit × DependencyMaps κ :=
  let dependents := (d.dependencies.bucket x).keys.foldl (fun m p => m.remove p x) d.dependents
  (dependents.bucket x, ⟨d.dependencies.erase x, dependents.erase x⟩)

def visitLevel : DependencyMaps κ → List κ → KeyedMap κ Unit × DependencyMaps κ
  | d, [] => (∅, d)
  | d, x :: level =>
    let next := visitLevel (d.visit x).2 level
    (next.1.insertMany (d.visit x).1.toList, next.2)

/-- `none` means that the rounds were not enough. -/
def visitLevels (order : IterationOrder κ) (d : DependencyMaps κ) :
    (rounds : Nat) → (all level : KeyedMap κ Unit) → Option (KeyedMap κ Unit × DependencyMaps κ)
  | 0, _, _ => none
  | rounds + 1, all, level =>
    if level.isEmpty then some (all, d)
    else
      let next := d.visitLevel (order.arrange level.keys)
      visitLevels order next.2 rounds (all.insertMany next.1.toList) next.1

/-- Removes an element and everything that depends on it, directly or not. -/
def removeAll (order : IterationOrder κ) (x : κ) : Option (KeyedMap κ Unit × DependencyMaps κ) :=
  visitLevels order d (d.dependents.size + 2) ∅ (ExtTreeMap.insert ∅ x ())

/-- Both maps hold the relation: `R t p` if `t` depends on `p`. -/
structure Relates (d : DependencyMaps κ) (R : κ → κ → Prop) : Prop where
  dependencies : d.dependencies.Holds R
  dependents : d.dependents.Holds fun p t => R t p

variable {d : DependencyMaps κ} {R : κ → κ → Prop} {t p x y : κ}

theorem relates_empty : (empty : DependencyMaps κ).Relates fun _ _ => False := ⟨Buckets.holds_empty, Buckets.holds_empty⟩

theorem Relates.congr {R' : κ → κ → Prop} (h : d.Relates R) (hR : ∀ t p, R t p ↔ R' t p) : d.Relates R' :=
  ⟨h.dependencies.congr hR, h.dependents.congr fun p t => hR t p⟩

theorem holds_addAll {m : Buckets κ κ} {S : κ → κ → Prop} (h : m.Holds S) (t : κ) (ps : List κ) :
    (ps.foldl (fun m p => m.add p t) m).Holds fun p' t' => S p' t' ∨ p' ∈ ps ∧ t' = t := by
  induction ps generalizing m S with
  | nil => exact h.congr fun p' t' => by simp
  | cons p ps ih =>
    refine (ih (h.add p t)).congr fun p' t' => ?_
    rw [List.mem_cons, or_and_right, or_assoc]

theorem Relates.link (h : d.Relates R) (hfresh : ∀ p, ¬ R t p) (ps : List κ) :
    (d.link t ps).Relates fun t' p' => R t' p' ∨ p' ∈ ps ∧ t' = t where
  dependents := holds_addAll h.dependents t ps
  dependencies := by
    rw [DependencyMaps.link]
    split
    · rename_i hnil
      subst hnil
      exact h.dependencies.congr fun t' p' => by simp
    · rename_i hne
      have hmem : ∀ p', p' ∈ ofList (ps.map fun p => (p, ())) compare ↔ p' ∈ ps := fun p' => by
        rw [mem_ofList_iff, List.map_map]
        simp
      refine ⟨fun t' p' => ?_, fun t' s hs => ?_⟩
      · by_cases ht : t = t'
        · subst ht
          rw [Buckets.bucket_insert_self, hmem]
          simp [hfresh p']
        · rw [Buckets.bucket_insert_of_ne ht, h.dependencies.mem]
          simp [Ne.symm ht]
      · by_cases ht : t = t'
        · subst ht
          rw [getElem?_insert_self, Option.some.injEq] at hs
          subst hs
          obtain ⟨p', hp'⟩ := List.exists_mem_of_ne_nil ps hne
          exact ⟨p', (hmem p').2 hp'⟩
        · rw [getElem?_insert_of_ne ht] at hs
          exact h.dependencies.nonempty t' s hs

theorem Relates.unlink (h : d.Relates R) (p : κ) : (d.unlink p).Relates fun t' p' => R t' p' ∧ p' ≠ p where
  dependents := h.dependents.erase p
  dependencies := by
    refine (h.dependencies.removeAll _ p).congr fun t' p' => and_congr_right fun hR => ?_
    rw [mem_keys, h.dependents.mem]
    refine ⟨?_, fun hne heq => hne heq.2⟩
    rintro hnot rfl
    exact hnot ⟨hR, rfl⟩

theorem Relates.unlinkAll (h : d.Relates R) (ps : List κ) :
    (ps.foldl DependencyMaps.unlink d).Relates fun t' p' => R t' p' ∧ p' ∉ ps := by
  induction ps generalizing d R with
  | nil => exact h.congr fun t' p' => by simp
  | cons p ps ih =>
    refine (ih (h.unlink p)).congr fun t' p' => ?_
    rw [List.mem_cons, not_or, and_assoc]

/-- The maps while the elements of `V` are removed. What depends on a removed element still has it
among its dependencies, until it is removed itself. -/
structure Removing (d : DependencyMaps κ) (R : κ → κ → Prop) (V : κ → Prop) : Prop where
  dependencies : d.dependencies.Holds fun t p => R t p ∧ ¬ V t
  dependents : d.dependents.Holds fun p t => R t p ∧ ¬ V p ∧ ¬ V t

variable {V : κ → Prop}

theorem Removing.congr {V' : κ → Prop} (h : d.Removing R V) (hV : ∀ x, V x ↔ V' x) : d.Removing R V' := by
  obtain rfl : V = V' := funext fun x => propext (hV x)
  exact h

theorem Removing.visit (h : d.Removing R V) (x : κ) :
    (d.visit x).2.Removing R (fun y => V y ∨ y = x) ∧ ∀ t, t ∈ (d.visit x).1 ↔ R t x ∧ ¬ V x ∧ ¬ V t ∧ t ≠ x := by
  have hdependents := h.dependents.removeAll (d.dependencies.bucket x).keys x
  have hR : ∀ p t, ((R t p ∧ ¬ V p ∧ ¬ V t) ∧ ¬ (p ∈ (d.dependencies.bucket x).keys ∧ t = x)) ↔
      R t p ∧ ¬ V p ∧ ¬ V t ∧ t ≠ x := fun p t => by
    rw [mem_keys, h.dependencies.mem]
    refine ⟨fun ⟨⟨hR, hp, ht⟩, hnot⟩ => ⟨hR, hp, ht, ?_⟩, fun ⟨hR, hp, ht, hne⟩ => ⟨⟨hR, hp, ht⟩, fun heq => hne heq.2⟩⟩
    rintro rfl
    exact hnot ⟨⟨hR, ht⟩, rfl⟩
  refine ⟨⟨(h.dependencies.erase x).congr fun t p => ?_, (hdependents.erase x).congr fun p t => ?_⟩, fun t => ?_⟩
  · tauto
  · rw [hR]
    tauto
  · exact (hdependents.mem x t).trans (hR x t)

theorem Removing.visitLevel (h : d.Removing R V) (level : List κ) :
    (d.visitLevel level).2.Removing R (fun y => V y ∨ y ∈ level) ∧
      (∀ t ∈ (d.visitLevel level).1, ∃ x ∈ level, R t x) ∧
      ∀ x ∈ level, ¬ V x → ∀ t, R t x → V t ∨ t ∈ level ∨ t ∈ (d.visitLevel level).1 := by
  induction level generalizing d V with
  | nil =>
    refine ⟨h.congr fun x => by simp, fun t ht => ?_, fun x hx => nomatch hx⟩
    exact absurd ht not_mem_empty
  | cons x level ih =>
    obtain ⟨hvisit, hfound⟩ := h.visit x
    obtain ⟨hrest, hsub, hclosed⟩ := ih hvisit
    have hmem : ∀ t, t ∈ (d.visitLevel (x :: level)).1 ↔ t ∈ ((d.visit x).2.visitLevel level).1 ∨ t ∈ (d.visit x).1 := fun t => by
      rw [DependencyMaps.visitLevel, mem_insertMany_iff, map_fst_toList_eq_keys, mem_keys]
    refine ⟨hrest.congr fun y => ?_, fun t ht => ?_, fun y hy hV t hR => ?_⟩
    · rw [List.mem_cons, or_assoc]
    · rcases (hmem t).1 ht with ht | ht
      · obtain ⟨y, hy, hR⟩ := hsub t ht
        exact ⟨y, List.mem_cons_of_mem _ hy, hR⟩
      · exact ⟨x, List.mem_cons_self, ((hfound t).1 ht).1⟩
    · rw [hmem, List.mem_cons]
      by_cases hyx : y = x
      · subst hyx
        by_cases hVt : V t
        · exact .inl hVt
        by_cases ht : t = y
        · exact .inr (.inl (.inl ht))
        · exact .inr (.inr (.inr ((hfound t).2 ⟨hR, hV, hVt, ht⟩)))
      · have hy' : y ∈ level := (List.mem_cons.1 hy).resolve_left hyx
        have := hclosed y hy' (fun hor => hor.elim hV hyx) t hR
        tauto

/-- A level with dependents uses up an entry. -/
theorem size_visit_le (d : DependencyMaps κ) (x : κ) :
    (d.visit x).2.dependents.size ≤ d.dependents.size ∧
      (t ∈ (d.visit x).1 → (d.visit x).2.dependents.size < d.dependents.size) := by
  have hle := Buckets.size_removeAll_le d.dependents (d.dependencies.bucket x).keys x
  refine ⟨size_erase_le.trans hle, fun ht => ?_⟩
  have hx : x ∈ (d.dependencies.bucket x).keys.foldl (fun m p => m.remove p x) d.dependents := by
    by_contra hx
    rw [DependencyMaps.visit, Buckets.bucket, getElem?_eq_none hx] at ht
    exact not_mem_empty ht
  have hpos : 0 < ((d.dependencies.bucket x).keys.foldl (fun m p => m.remove p x) d.dependents).size := by
    rw [← length_keys]
    exact List.length_pos_of_mem (mem_keys.2 hx)
  rw [DependencyMaps.visit]
  rw [size_erase, if_pos (contains_iff_mem.2 hx)]
  omega

theorem size_visitLevel_le (d : DependencyMaps κ) (level : List κ) :
    (d.visitLevel level).2.dependents.size ≤ d.dependents.size ∧
      (t ∈ (d.visitLevel level).1 → (d.visitLevel level).2.dependents.size < d.dependents.size) := by
  induction level generalizing d with
  | nil => exact ⟨le_rfl, fun ht => absurd ht not_mem_empty⟩
  | cons x level ih =>
    have hvisit := size_visit_le (t := t) d x
    have hrest := ih (d.visit x).2
    refine ⟨hrest.1.trans hvisit.1, fun ht => ?_⟩
    rw [DependencyMaps.visitLevel, mem_insertMany_iff, map_fst_toList_eq_keys, mem_keys] at ht
    rcases ht with ht | ht
    · exact (hrest.2 ht).trans_le hvisit.1
    · exact hrest.1.trans_lt (hvisit.2 ht)

/-- `y` is `x` or depends on it, directly or not. -/
def Below (R : κ → κ → Prop) (x y : κ) : Prop := Relation.ReflTransGen (fun p t => R t p) x y

/-- The loop between two levels: `V` was visited, the level is next, and together they are what was
found. -/
structure AtLevel (R : κ → κ → Prop) (x : κ) (V : κ → Prop) (all level : KeyedMap κ Unit) : Prop where
  found : ∀ y, V y ∨ y ∈ level ↔ y = x ∨ y ∈ all
  below : ∀ y ∈ all, Relation.TransGen (fun p t => R t p) x y
  closed : ∀ y t, V y → R t y → V t ∨ t ∈ level

variable {all level : KeyedMap κ Unit}

theorem AtLevel.below_of_found (h : AtLevel R x V all level) (hy : y = x ∨ y ∈ all) : Below R x y := by
  rcases hy with rfl | hy
  · exact .refl
  · exact (h.below y hy).to_reflTransGen

theorem AtLevel.next (h : AtLevel R x V all level) (hd : d.Removing R V) (order : IterationOrder κ) :
    let next := d.visitLevel (order.arrange level.keys)
    next.2.Removing R (fun y => V y ∨ y ∈ level) ∧
      AtLevel R x (fun y => V y ∨ y ∈ level) (all.insertMany next.1.toList) next.1 := by
  have hlevel : ∀ y, y ∈ order.arrange level.keys ↔ y ∈ level := fun y => by
    rw [(order.perm _).mem_iff, mem_keys]
  obtain ⟨hremoving, hsub, hclosed⟩ := hd.visitLevel (order.arrange level.keys)
  have hall : ∀ y, y ∈ all.insertMany (d.visitLevel (order.arrange level.keys)).1.toList ↔
      y ∈ all ∨ y ∈ (d.visitLevel (order.arrange level.keys)).1 := fun y => by
    rw [mem_insertMany_iff, map_fst_toList_eq_keys, mem_keys]
  refine ⟨hremoving.congr fun y => or_congr_right (hlevel y), ⟨fun y => ?_, fun y hy => ?_, fun y t hV hR => ?_⟩⟩
  · rw [h.found, hall, or_assoc]
  · rcases (hall y).1 hy with hy | hy
    · exact h.below y hy
    · obtain ⟨z, hz, hR⟩ := hsub y hy
      have hfound := (h.found z).1 (.inr ((hlevel z).1 hz))
      exact Relation.TransGen.tail' (h.below_of_found hfound) hR
  · by_cases hVy : V y
    · exact .inl (h.closed y t hVy hR)
    · have hy : y ∈ level := hV.resolve_left hVy
      have hor := hclosed y ((hlevel y).2 hy) hVy t hR
      rwa [hlevel, ← or_assoc] at hor

theorem AtLevel.visitLevels (h : AtLevel R x V all level) (hd : d.Removing R V) (order : IterationOrder κ) {rounds : Nat}
    (hpos : 0 < rounds) (hrounds : level.isEmpty = false → d.dependents.size + 1 < rounds) :
    ∃ all' d' V', d.visitLevels order rounds all level = some (all', d') ∧ d'.Removing R V' ∧ AtLevel R x V' all' ∅ := by
  induction rounds generalizing d V all level with
  | zero => exact absurd hpos (Nat.lt_irrefl 0)
  | succ rounds ih =>
    rw [DependencyMaps.visitLevels]
    split
    · rename_i hempty
      obtain rfl : level = ∅ := isEmpty_iff.1 hempty
      exact ⟨all, d, V, rfl, hd, h⟩
    · rename_i hfull
      have hsize := hrounds (Bool.not_eq_true _ ▸ hfull)
      obtain ⟨hremoving, hnext⟩ := h.next hd order
      refine ih hnext hremoving (by omega) fun hmore => ?_
      obtain ⟨t, ht⟩ : ∃ t, t ∈ (d.visitLevel (order.arrange level.keys)).1 := by
        by_contra hnone
        rw [eq_empty_iff_forall_not_mem.2 fun t ht => hnone ⟨t, ht⟩] at hmore
        simp at hmore
      have := (size_visitLevel_le d (order.arrange level.keys)).2 ht
      omega

theorem AtLevel.mem_iff_below (h : AtLevel R x V all ∅) : V y ↔ Below R x y := by
  have hV : ∀ z, V z ↔ z = x ∨ z ∈ all := fun z => by
    rw [← h.found z]
    simp
  refine ⟨fun hy => h.below_of_found ((hV y).1 hy), fun hy => ?_⟩
  induction hy with
  | refl => exact (hV x).2 (.inl rfl)
  | tail _ hR ih => exact (h.closed _ _ ih hR).resolve_right not_mem_empty

/-- The removal ends, finds all that depends on the element, and leaves the rest of the relation. -/
theorem Relates.removeAll (h : d.Relates R) (order : IterationOrder κ) (x : κ) :
    ∃ all d', d.removeAll order x = some (all, d') ∧ d'.Relates (fun t p => R t p ∧ ¬ Below R x t) ∧
      (∀ y, Below R x y ↔ y = x ∨ y ∈ all) ∧ ∀ y ∈ all, Relation.TransGen (fun p t => R t p) x y := by
  have hstart : AtLevel R x (fun _ => False) ∅ (ExtTreeMap.insert ∅ x ()) := by
    refine ⟨fun y => ?_, fun y hy => absurd hy not_mem_empty, fun y t hV => hV.elim⟩
    rw [mem_insert, LawfulEqOrd.compare_eq_iff_eq, eq_comm]
    simp
  have hremoving : d.Removing R fun _ => False :=
    ⟨h.dependencies.congr fun t p => by simp, h.dependents.congr fun p t => by simp⟩
  obtain ⟨all, d', V, hrun, hend, hlevel⟩ := hstart.visitLevels hremoving order (Nat.succ_pos (d.dependents.size + 1))
    fun _ => Nat.lt_succ_self _
  refine ⟨all, d', hrun, ⟨hend.dependencies.congr fun t p => ?_, hend.dependents.congr fun p t => ?_⟩, fun y => ?_, hlevel.below⟩
  · rw [hlevel.mem_iff_below]
  · rw [hlevel.mem_iff_below, hlevel.mem_iff_below]
    refine and_congr_right fun hR => and_iff_right_of_imp fun hnot hp => hnot (hp.tail hR)
  · rw [← hlevel.mem_iff_below, ← hlevel.found]
    simp

section

variable {κ : Type} {R : κ → κ → Prop} {x y k k' : κ}

/-- A new element that depends on others makes no cycle. -/
theorem acyclic_link {ps : List κ} (hR : ∀ t, ¬ Relation.TransGen R t t) (hfresh : ∀ t p, R t p → p ≠ x) (hps : x ∉ ps) (t : κ) :
    ¬ Relation.TransGen (fun t p => R t p ∨ p ∈ ps ∧ t = x) t t := by
  have htarget : ∀ a b, R a b ∨ b ∈ ps ∧ a = x → b ≠ x := by
    rintro a b (h | ⟨h, -⟩)
    · exact hfresh a b h
    · exact fun heq => hps (heq ▸ h)
  have hpath : ∀ a b, Relation.TransGen (fun t p => R t p ∨ p ∈ ps ∧ t = x) a b → b ≠ x ∧ (a ≠ x → Relation.TransGen R a b) := by
    intro a b h
    induction h with
    | single h => exact ⟨htarget _ _ h, fun ha => .single (h.resolve_right fun hx => ha hx.2)⟩
    | tail _ h ih => exact ⟨htarget _ _ h, fun ha => (ih.2 ha).tail (h.resolve_right fun hx => ih.1 hx.2)⟩
  intro h
  obtain ⟨hne, hold⟩ := hpath t t h
  exact hR t (hold hne)

/-- What is below an element is still so without the part below another one, or is in that part. -/
theorem Below.restrict (h : Below R k' y) : Below R k y ∨ Below (fun t p => R t p ∧ ¬ Below R k t) k' y := by
  induction h with
  | refl => exact .inr .refl
  | @tail b c _ hR ih =>
    rcases ih with hb | hb
    · exact .inl (hb.tail hR)
    · by_cases hc : Below R k c
      · exact .inl hc
      · exact .inr (hb.tail ⟨hR, hc⟩)

theorem Below.mono {R' : κ → κ → Prop} (h : Below R k y) (hR : ∀ t p, R t p → R' t p) : Below R' k y :=
  Relation.ReflTransGen.mono (fun p t => hR t p) _ _ h

end

end DependencyMaps

end Zebra.Lib
