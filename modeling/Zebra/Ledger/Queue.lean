import Zebra.State.QueuedBlocks

namespace Zebra.Ledger

open Lib Std ExtTreeMap KeyedMap Outcome

def Listed {κ : Type} (blocks : KeyedMap BlockHash SemanticallyVerifiedBlock)
    (key : SemanticallyVerifiedBlock → κ) (k : κ) (hash : BlockHash) : Prop :=
  ∃ b, blocks[hash]? = some b ∧ key b = k

/-- The blocks are stored under their hashes, and the parents list them. This holds whatever
happens to the heights. -/
structure Parented (q : QueuedBlocks) : Prop where
  keyed : ∀ (hash : BlockHash) (b : SemanticallyVerifiedBlock), q.blocks[hash]? = some b → b.hash = hash
  byParent : Buckets.Holds q.byParent (Listed q.blocks (·.parentHash))

structure Agree (q : QueuedBlocks) : Prop extends Parented q where
  byHeight : Buckets.Holds q.byHeight (Listed q.blocks (·.height))

variable {ε κ : Type} {q : QueuedBlocks} {blocks : KeyedMap BlockHash SemanticallyVerifiedBlock}
  {key : SemanticallyVerifiedBlock → κ} {k : κ} {hash : BlockHash} {b : SemanticallyVerifiedBlock}

theorem agree_empty : Agree {} where
  keyed hash b hb := by simp at hb
  byParent := Buckets.holds_empty.congr fun _ _ => by simp [Listed]
  byHeight := Buckets.holds_empty.congr fun _ _ => by simp [Listed]

theorem listed_insert (hnew : b.hash ∉ blocks) :
    Listed (blocks.insert b.hash b) key k hash ↔ Listed blocks key k hash ∨ k = key b ∧ hash = b.hash := by
  by_cases hh : b.hash = hash
  · subst hh
    simp [Listed, getElem?_eq_none hnew, eq_comm]
  · simp [Listed, getElem?_insert_of_ne hh, Ne.symm hh]

theorem listed_eraseAll {hashes : List BlockHash} :
    Listed (blocks.eraseAll hashes) key k hash ↔ Listed blocks key k hash ∧ hash ∉ hashes := by
  rw [Listed, getElem?_eraseAll]
  by_cases hh : hash ∈ hashes <;> simp [hh, Listed]

theorem Parented.queue (h : Parented q) (b : SemanticallyVerifiedBlock) : Parented (q.queue b) := by
  by_cases hnew : b.hash ∈ q.blocks
  · rw [QueuedBlocks.queue, if_pos hnew]
    exact h
  rw [QueuedBlocks.queue, if_neg hnew]
  constructor
  · intro hash b' hb'
    by_cases hh : b.hash = hash
    · subst hh
      rw [getElem?_insert_self, Option.some.injEq] at hb'
      rw [← hb']
    · rw [getElem?_insert_of_ne hh] at hb'
      exact h.keyed hash b' hb'
  · exact (h.byParent.add _ _).congr fun _ _ => (listed_insert hnew).symm

theorem Agree.queue (h : Agree q) (b : SemanticallyVerifiedBlock) : Agree (q.queue b) := by
  refine { h.toParented.queue b with byHeight := ?_ }
  by_cases hnew : b.hash ∈ q.blocks
  · rw [QueuedBlocks.queue, if_pos hnew]
    exact h.byHeight
  rw [QueuedBlocks.queue, if_neg hnew]
  exact (h.byHeight.add _ _).congr fun _ _ => (listed_insert hnew).symm

theorem takeBlocks_eq_ok {hashes : List BlockHash} (hnodup : hashes.Nodup) (hmem : ∀ x ∈ hashes, x ∈ blocks) :
    (QueuedBlocks.takeBlocks blocks hashes : Exec ε _) =
      .ok (hashes.filterMap (blocks[·]?), blocks.eraseAll hashes) := by
  induction hashes generalizing blocks with
  | nil => rfl
  | cons hash hashes ih =>
    obtain ⟨hfresh, hnodup⟩ := List.nodup_cons.1 hnodup
    have hne : ∀ x ∈ hashes, hash ≠ x := by
      rintro x hx rfl
      exact hfresh hx
    have hb := getElem?_eq_some_getElem (hmem hash List.mem_cons_self)
    have hrest := @ih (blocks.erase hash) hnodup fun x hx =>
      mem_erase.2 ⟨LawfulEqOrd.compare_eq_iff_eq.ne.2 (hne x hx), hmem x (List.mem_cons_of_mem _ hx)⟩
    rw [QueuedBlocks.takeBlocks, hb, expect_some, ok_bind, hrest, List.filterMap_cons_some hb,
      List.filterMap_congr fun x hx => getElem?_erase_of_ne (hne x hx)]
    rfl

theorem Parented.map_hash (h : Parented q) {hashes : List BlockHash} (hmem : ∀ x ∈ hashes, x ∈ q.blocks) :
    (hashes.filterMap (q.blocks[·]?)).map (·.hash) = hashes := by
  rw [List.map_filterMap]
  refine (List.filterMap_congr fun x hx => ?_).trans List.filterMap_some
  have hb := getElem?_eq_some_getElem (hmem x hx)
  rw [hb, Option.map_some, h.keyed x _ hb]

theorem Parented.mem_filterMap (h : Parented q) {hashes : List BlockHash} :
    b ∈ hashes.filterMap (q.blocks[·]?) ↔ b.hash ∈ hashes ∧ q.blocks[b.hash]? = some b := by
  rw [List.mem_filterMap]
  refine ⟨?_, fun ⟨hx, hb⟩ => ⟨b.hash, hx, hb⟩⟩
  rintro ⟨x, hx, hb⟩
  rw [h.keyed x b hb]
  exact ⟨hx, hb⟩

theorem mem_of_getElem? (h : blocks[hash]? = some b) : hash ∈ blocks := by
  rw [mem_iff_isSome_getElem?, h, Option.isSome_some]

structure Dequeues (q : QueuedBlocks) (parent : BlockHash) (children : SemanticBlocks)
    (q' : QueuedBlocks) : Prop where
  nodup : (children.map (·.hash)).Nodup
  mem : ∀ b, b ∈ children ↔ q.blocks[b.hash]? = some b ∧ b.parentHash = parent
  blocks : q'.blocks = q.blocks.eraseAll (children.map (·.hash))
  byHeight : q'.byHeight = q.byHeight.eraseAll (children.map (·.height))
  parented : Parented q'

theorem Dequeues.getElem?_iff {parent : BlockHash} {children : SemanticBlocks} {q' : QueuedBlocks}
    (h : Dequeues q parent children q') (hq : Parented q) :
    q'.blocks[hash]? = some b ↔ q.blocks[hash]? = some b ∧ b.parentHash ≠ parent := by
  rw [h.blocks, getElem?_eraseAll]
  by_cases hb : q.blocks[hash]? = some b
  · obtain rfl := hq.keyed hash b hb
    have hmem : b.hash ∈ children.map (·.hash) ↔ b.parentHash = parent := by
      rw [List.mem_map]
      refine ⟨?_, fun hp => ⟨b, (h.mem b).2 ⟨hb, hp⟩, rfl⟩⟩
      rintro ⟨b', hb', heq⟩
      obtain ⟨hb'', hp⟩ := (h.mem b').1 hb'
      rw [heq, hb] at hb''
      rw [Option.some.inj hb'', hp]
    by_cases hp : b.parentHash = parent <;> simp [hmem, hp, hb]
  · simp [hb]

theorem Parented.dequeueChildren (h : Parented q) (order : HashOrder) (parent : BlockHash) :
    ∃ children q', (q.dequeueChildren order parent : Exec ε _) = .ok (children, q') ∧
      Dequeues q parent children q' := by
  set hashes := order.arrange (q.byParent.bucket parent).keys with hhashes
  have hperm : hashes.Perm (q.byParent.bucket parent).keys := order.perm _
  have hmem : ∀ x, x ∈ hashes ↔ Listed q.blocks (·.parentHash) parent x := fun x => by
    rw [hperm.mem_iff, mem_keys, h.byParent.mem]
  have hnodup : hashes.Nodup := hperm.nodup_iff.2 nodup_keys
  have hin : ∀ x ∈ hashes, x ∈ q.blocks := fun x hx => by
    obtain ⟨b, hb, -⟩ := (hmem x).1 hx
    exact mem_of_getElem? hb
  -- the blocks come out in the order of their hashes
  have hmap := h.map_hash hin
  rw [QueuedBlocks.dequeueChildren, ← hhashes, takeBlocks_eq_ok hnodup hin, ok_bind]
  refine ⟨_, _, rfl, hmap.symm ▸ hnodup, ?_, ?_, rfl, ?_, ?_⟩
  · intro b
    rw [h.mem_filterMap, hmem, and_comm]
    refine and_congr_right fun hb => ?_
    simp [Listed, hb]
  · rw [hmap]
  · intro x b hb
    rw [getElem?_eraseAll] at hb
    split at hb
    · simp at hb
    · exact h.keyed x b hb
  · refine (h.byParent.erase parent).congr fun p x => ?_
    rw [listed_eraseAll, hmem]
    refine and_congr_right fun ⟨b, hb, hp⟩ => ?_
    simp [Listed, hb, hp]

/-- Every queued block at the height of a child of `parent` is a child of `parent`. -/
def AloneAtHeight (q : QueuedBlocks) (parent : BlockHash) : Prop :=
  ∀ (x y : BlockHash) (c b : SemanticallyVerifiedBlock), q.blocks[x]? = some c → q.blocks[y]? = some b →
    c.parentHash = parent → b.height = c.height → b.parentHash = parent

instance (q : QueuedBlocks) (parent : BlockHash) : Decidable (AloneAtHeight q parent) :=
  decidable_of_iff
    (∀ e ∈ q.blocks.toList, ∀ e' ∈ q.blocks.toList, e.2.parentHash = parent → e'.2.height = e.2.height →
      e'.2.parentHash = parent) <| by
    simp only [Prod.forall, mem_toList_iff_getElem?_eq_some, AloneAtHeight]
    exact ⟨fun h x y c b hc hb => h x c hc y b hb, fun h x c hc y b hb => h x y c b hc hb⟩

theorem Agree.dequeueChildren_iff (h : Agree q) {parent : BlockHash} {children : SemanticBlocks}
    {q' : QueuedBlocks} (hd : Dequeues q parent children q') : Agree q' ↔ AloneAtHeight q parent := by
  constructor
  · intro h' x y c b hc hb hp hheight
    by_contra hne
    have hb' : q'.blocks[y]? = some b := (hd.getElem?_iff h.toParented).2 ⟨hb, hne⟩
    obtain ⟨s, hs, -⟩ := h'.byHeight.exists_bucket ⟨b, hb', rfl⟩
    rw [hd.byHeight, getElem?_eraseAll, if_pos] at hs
    · simp at hs
    · obtain rfl := h.keyed x c hc
      exact List.mem_map.2 ⟨c, (hd.mem c).2 ⟨hc, hp⟩, hheight.symm⟩
  · intro hcond
    refine { hd.parented with byHeight := ?_ }
    rw [hd.byHeight]
    refine (h.byHeight.eraseAll _).congr fun k x => ?_
    constructor
    · rintro ⟨⟨b, hb, rfl⟩, hk⟩
      refine ⟨b, (hd.getElem?_iff h.toParented).2 ⟨hb, ?_⟩, rfl⟩
      rintro hp
      obtain rfl := h.keyed x b hb
      exact hk (List.mem_map.2 ⟨b, (hd.mem b).2 ⟨hb, hp⟩, rfl⟩)
    · rintro ⟨b, hb, rfl⟩
      obtain ⟨hb, hne⟩ := (hd.getElem?_iff h.toParented).1 hb
      refine ⟨⟨b, hb, rfl⟩, ?_⟩
      rw [List.mem_map]
      rintro ⟨c, hc, hheight⟩
      obtain ⟨hc, hp⟩ := (hd.mem c).1 hc
      exact hne (hcond _ x c b hc hb hp hheight.symm)

def expiredAnswer (b : SemanticallyVerifiedBlock) : BlockHash × CommitBlockError :=
  (b.hash, .duplicate (some b.height) .finalized)

theorem removeFromParent_spec {m : Buckets BlockHash BlockHash} {R : BlockHash → BlockHash → Prop}
    (h : Buckets.Holds m R) {parent : BlockHash} (hR : R parent hash) :
    ∃ m', (QueuedBlocks.removeFromParent m parent hash : Exec ε _) = .ok m' ∧
      Buckets.Holds m' fun p x => R p x ∧ ¬ (p = parent ∧ x = hash) := by
  obtain ⟨s, hs, hmem⟩ := h.exists_bucket hR
  rw [QueuedBlocks.removeFromParent, hs, expect_some, ok_bind, check, if_pos hmem,
    ok_bind]
  by_cases hsize : s.size = 1
  · rw [if_pos hsize]
    exact ⟨_, rfl, h.erase_singleton hs hsize hmem⟩
  · rw [if_neg hsize]
    exact ⟨_, rfl, h.shrink hs hsize hmem⟩

theorem Parented.expire (h : Parented q) (hb : q.blocks[hash]? = some b) :
    ∃ q', (q.expire hash : Exec ε _) = .ok (expiredAnswer b, q') ∧ q'.blocks = q.blocks.erase hash ∧
      q'.byHeight = q.byHeight ∧ Parented q' := by
  have hlisted : Listed q.blocks (·.parentHash) b.parentHash hash := ⟨b, hb, rfl⟩
  obtain ⟨m', hm', hholds⟩ := removeFromParent_spec h.byParent hlisted
  rw [QueuedBlocks.expire, hb, expect_some, ok_bind, hm', ok_bind, expiredAnswer,
    h.keyed hash b hb]
  refine ⟨_, rfl, rfl, rfl, ?_, ?_⟩
  · intro x b' hb'
    rw [getElem?_erase] at hb'
    split at hb'
    · simp at hb'
    · exact h.keyed x b' hb'
  · refine hholds.congr fun p x => ?_
    by_cases hx : hash = x
    · subst hx
      simp [Listed, hb, eq_comm]
    · simp [Listed, getElem?_erase_of_ne hx, Ne.symm hx]

theorem Parented.expireAll {hashes : List BlockHash} (h : Parented q) (hnodup : hashes.Nodup)
    (hmem : ∀ x ∈ hashes, x ∈ q.blocks) :
    ∃ q', (QueuedBlocks.expireAll q hashes : Exec ε _) =
        .ok ((hashes.filterMap (q.blocks[·]?)).map expiredAnswer, q') ∧
      q'.blocks = q.blocks.eraseAll hashes ∧ q'.byHeight = q.byHeight ∧ Parented q' := by
  induction hashes generalizing q with
  | nil => exact ⟨q, rfl, rfl, rfl, h⟩
  | cons hash hashes ih =>
    obtain ⟨hfresh, hnodup⟩ := List.nodup_cons.1 hnodup
    have hne : ∀ x ∈ hashes, hash ≠ x := by
      rintro x hx rfl
      exact hfresh hx
    have hb := getElem?_eq_some_getElem (hmem hash List.mem_cons_self)
    obtain ⟨q₁, hq₁, hblocks₁, hheight₁, hparented₁⟩ := h.expire hb
    obtain ⟨q₂, hq₂, hblocks₂, hheight₂, hparented₂⟩ := ih hparented₁ hnodup fun x hx => by
      rw [hblocks₁]
      exact mem_erase.2
        ⟨LawfulEqOrd.compare_eq_iff_eq.ne.2 (hne x hx), hmem x (List.mem_cons_of_mem _ hx)⟩
    refine ⟨q₂, ?_, ?_, hheight₂.trans hheight₁, hparented₂⟩
    · rw [QueuedBlocks.expireAll, hq₁, ok_bind]
      dsimp only
      rw [hq₂, ok_bind, List.filterMap_cons_some hb, List.filterMap_congr fun x hx => by rw [hblocks₁, getElem?_erase_of_ne (hne x hx)]]
      rfl
    · rw [hblocks₂, hblocks₁]
      rfl

theorem Parented.of_expireAll {q' : QueuedBlocks} {hashes : List BlockHash} {answers : List (BlockHash × CommitBlockError)}
    (h : Parented q) (hrun : (QueuedBlocks.expireAll q hashes : Exec ε _) = .ok (answers, q')) : Parented q' := by
  induction hashes generalizing q answers with
  | nil =>
    obtain ⟨-, rfl⟩ := Prod.mk.inj (Except.ok.inj hrun)
    exact h
  | cons hash hashes ih =>
    obtain ⟨⟨answer, q₁⟩, hexpire, hrun⟩ := bind_eq_ok.1 hrun
    obtain ⟨⟨answers', q₂⟩, hrest, hrun⟩ := bind_eq_ok.1 hrun
    obtain ⟨-, rfl⟩ := Prod.mk.inj (Except.ok.inj hrun)
    obtain ⟨b, hb, -⟩ := bind_eq_ok.1 hexpire
    obtain ⟨q₁', hq₁', -, -, hparented⟩ := h.expire (expect_eq_ok.1 hb)
    obtain ⟨-, rfl⟩ := Prod.mk.inj (Except.ok.inj (hexpire.symm.trans hq₁'))
    exact ih hparented hrest

structure Prunes (q : QueuedBlocks) (finalized : Nat) (answers : List (BlockHash × CommitBlockError))
    (q' : QueuedBlocks) : Prop where
  once : (answers.map Prod.fst).Nodup
  mem : ∀ a, a ∈ answers ↔ ∃ b, q.blocks[b.hash]? = some b ∧ b.height ≤ finalized ∧ a = expiredAnswer b
  kept : ∀ (hash : BlockHash) (b : SemanticallyVerifiedBlock),
    q'.blocks[hash]? = some b ↔ q.blocks[hash]? = some b ∧ finalized < b.height

theorem Agree.pruneByHeight (h : Agree q) (order : HashOrder) {finalized : Nat} (hmax : finalized < Height.max) :
    ∃ answers q', (q.pruneByHeight order finalized : Exec ε _) = .ok (answers, q') ∧
      Prunes q finalized answers q' ∧ Agree q' := by
  set expired := Std.ExtTreeMap.filter (fun k _ => decide (k < finalized + 1)) q.byHeight
  set kept := Std.ExtTreeMap.filter (fun k _ => decide (finalized + 1 ≤ k)) q.byHeight
  set hashes := expired.toList.flatMap fun e => order.arrange e.2.keys with hhashes
  have hexpired : Buckets.Holds expired fun k x => Listed q.blocks (·.height) k x ∧ k ≤ finalized :=
    (h.byHeight.filter fun k => decide (k < finalized + 1)).congr fun k x => by
      rw [decide_eq_true_eq, Nat.lt_succ_iff]
  have hkept : Buckets.Holds kept fun k x => Listed q.blocks (·.height) k x ∧ finalized < k :=
    (h.byHeight.filter fun k => decide (finalized + 1 ≤ k)).congr fun k x => by
      rw [decide_eq_true_eq, Nat.succ_le_iff]
  have hmem : ∀ x, x ∈ hashes ↔ ∃ b, q.blocks[x]? = some b ∧ b.height ≤ finalized := by
    intro x
    rw [hhashes, hexpired.mem_flatMap_toList order.perm]
    constructor
    · rintro ⟨_, ⟨b, hb, rfl⟩, hle⟩
      exact ⟨b, hb, hle⟩
    · rintro ⟨b, hb, hle⟩
      exact ⟨b.height, ⟨b, hb, rfl⟩, hle⟩
  have hnodup : hashes.Nodup := hexpired.nodup_flatMap_toList order.perm fun k k' x => by
    rintro ⟨⟨b, hb, rfl⟩, -⟩ ⟨⟨b', hb', rfl⟩, -⟩
    rw [Option.some.inj (hb.symm.trans hb')]
  have hin : ∀ x ∈ hashes, x ∈ q.blocks := fun x hx => by
    obtain ⟨b, hb, -⟩ := (hmem x).1 hx
    exact mem_of_getElem? hb
  have hparented : Parented { q with byHeight := kept } := ⟨h.keyed, h.byParent⟩
  obtain ⟨q', hq', hblocks, hheight, hparented'⟩ := hparented.expireAll hnodup hin
  have hget : ∀ (x : BlockHash) (b : SemanticallyVerifiedBlock),
      q'.blocks[x]? = some b ↔ q.blocks[x]? = some b ∧ finalized < b.height := by
    intro x b
    rw [hblocks, getElem?_eraseAll]
    by_cases hb : q.blocks[x]? = some b
    · simp [hmem, hb]
    · simp [hb]
  rw [QueuedBlocks.pruneByHeight, Height.next_eq_some.2 ⟨rfl, hmax⟩, expect_some, ok_bind]
  refine ⟨_, q', hq', ⟨?_, ?_, hget⟩, hparented', ?_⟩
  · rw [List.map_map]
    exact (h.map_hash hin).symm ▸ hnodup
  · intro a
    rw [List.mem_map]
    constructor
    · rintro ⟨b, hb, rfl⟩
      obtain ⟨hx, hb⟩ := h.mem_filterMap.1 hb
      obtain ⟨b', hb', hle⟩ := (hmem _).1 hx
      exact ⟨b, hb, Option.some.inj (hb'.symm.trans hb) ▸ hle, rfl⟩
    · rintro ⟨b, hb, hle, rfl⟩
      exact ⟨b, h.mem_filterMap.2 ⟨(hmem _).2 ⟨b, hb, hle⟩, hb⟩, rfl⟩
  · rw [hheight]
    refine hkept.congr fun k x => ?_
    simp only [Listed, hget]
    constructor
    · rintro ⟨⟨b, hb, rfl⟩, hlt⟩
      exact ⟨b, ⟨hb, hlt⟩, rfl⟩
    · rintro ⟨b, ⟨hb, hlt⟩, rfl⟩
      exact ⟨⟨b, hb, rfl⟩, hlt⟩

end Zebra.Ledger
