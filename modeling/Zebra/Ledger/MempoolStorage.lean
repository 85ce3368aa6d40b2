import Mathlib.Data.List.TakeWhile
import Zebra.Ledger.MempoolSet
import Zebra.Mempool.Storage

namespace Zebra

open Lib Std Outcome ExtTreeMap UnminedTxId KeyedMap

abbrev Evictions := List (TransactionHash × Nat)

namespace EvictionList

variable {l l' : EvictionList} {es : Evictions} {now later t : Nat} {key : TransactionHash}

structure Lists (l : EvictionList) (es : Evictions) (now : Nat) : Prop where
  ordered : l.orderedEntries = es.map Prod.fst
  indexes : l.uniqueEntries.Indexes es
  sorted : es.Pairwise fun a b => a.2 ≤ b.2
  past : ∀ e ∈ es, e.2 ≤ now

theorem lists_new (maxSize evictionMemoryTime now : Nat) : (new maxSize evictionMemoryTime).Lists [] now :=
  ⟨rfl, indexes_empty, .nil, nofun⟩

theorem hasExpired_mono (h : l.hasExpired now t = true) (hlater : now ≤ later) : l.hasExpired later t = true := by
  simp only [hasExpired, decide_eq_true_eq] at h ⊢
  omega

theorem hasExpired_of_le {t' : Nat} (h : l.hasExpired now t = true) (hle : t' ≤ t) : l.hasExpired now t' = true := by
  simp only [hasExpired, decide_eq_true_eq] at h ⊢
  omega

theorem Lists.containsKey_iff (h : l.Lists es now) :
    l.containsKey later key = true ↔ ∃ t, (key, t) ∈ es ∧ l.hasExpired later t = false := by
  have hget : ∀ t, l.uniqueEntries[key]? = some t ↔ (key, t) ∈ es := fun t => by
    rw [h.indexes.get, Multiset.mem_coe]
  rw [containsKey]
  cases hkey : l.uniqueEntries[key]? with
  | none => simpa [hkey] using fun t ht => absurd ((hget t).2 ht) (by simp [hkey])
  | some t =>
    simp only [Option.any_some, Bool.not_eq_true']
    refine ⟨fun hfresh => ⟨t, (hget t).1 hkey, hfresh⟩, fun ⟨t', ht', hfresh⟩ => ?_⟩
    obtain rfl : t = t' := Option.some.inj (hkey.symm.trans ((hget t').2 ht'))
    exact hfresh

theorem pruneEntries_eq (l : EvictionList) (now : Nat) {unique : KeyedMap TransactionHash Nat}
    (h : unique.Indexes (es : Multiset (TransactionHash × Nat))) :
    ∃ unique' : KeyedMap TransactionHash Nat,
      (l.pruneEntries now (es.map Prod.fst) unique : MempoolExec _) =
        .ok { l with uniqueEntries := unique', orderedEntries := (es.dropWhile fun e => l.hasExpired now e.2).map Prod.fst } ∧
      unique'.Indexes ((es.dropWhile fun e => l.hasExpired now e.2 : Evictions) : Multiset (TransactionHash × Nat)) := by
  induction es generalizing unique with
  | nil => exact ⟨unique, rfl, h⟩
  | cons e es ih =>
    have hget : unique[e.1]? = some e.2 := (h.get e.1 e.2).2 (by simp)
    rw [List.map_cons, pruneEntries, hget, expect, ok_bind, List.dropWhile_cons]
    split
    · exact ih (Indexes.erase (v := e.2) h)
    · exact ⟨unique, rfl, h⟩

theorem Lists.pruneOld (h : l.Lists es now) (hlater : now ≤ later) :
    ∃ l', (l.pruneOld later : MempoolExec _) = .ok l' ∧
      l'.Lists (es.dropWhile fun e => l.hasExpired later e.2) later ∧ l'.evictionMemoryTime = l.evictionMemoryTime ∧
      l'.maxSize = l.maxSize := by
  obtain ⟨unique, hrun, hindexes⟩ := pruneEntries_eq l later h.indexes
  rw [← h.ordered] at hrun
  refine ⟨_, hrun, ⟨rfl, hindexes, h.sorted.sublist (List.dropWhile_sublist _), fun e he => ?_⟩, rfl, rfl⟩
  exact (h.past e ((List.dropWhile_sublist _).subset he)).trans hlater

theorem Lists.dropOldest (h : l.Lists es now) :
    ∃ l', (l.dropOldest : MempoolExec _) = .ok l' ∧
      l'.Lists (if l.maxSize ≤ es.length then es.tail else es) now ∧ l'.evictionMemoryTime = l.evictionMemoryTime ∧
      l'.maxSize = l.maxSize := by
  rw [EvictionList.dropOldest, h.indexes.size_eq]
  split
  · rw [popFront]
    cases es with
    | nil =>
      rw [h.ordered]
      exact ⟨l, rfl, h, rfl, rfl⟩
    | cons e es =>
      have hmem : e.1 ∈ l.uniqueEntries := by
        rw [mem_iff_isSome_getElem?, (h.indexes.get e.1 e.2).2 (by simp)]
        rfl
      simp only [h.ordered, List.map_cons]
      rw [check, if_pos hmem, ok_bind]
      refine ⟨_, rfl, ⟨rfl, Indexes.erase (v := e.2) h.indexes, (List.pairwise_cons.1 h.sorted).2, fun e' he' => ?_⟩, rfl, rfl⟩
      exact h.past e' (List.mem_cons_of_mem _ he')
  · exact ⟨l, rfl, h, rfl, rfl⟩

def recent (l : EvictionList) (now : Nat) (es : Evictions) : Evictions :=
  es.dropWhile fun e => l.hasExpired now e.2

def room (l : EvictionList) (now : Nat) (es : Evictions) : Evictions :=
  if l.maxSize ≤ (l.recent now es).length then (l.recent now es).tail else l.recent now es

theorem mem_recent {e : TransactionHash × Nat} (he : e ∈ es) (hfresh : ¬ l.hasExpired now e.2 = true) : e ∈ l.recent now es := by
  rw [← List.takeWhile_append_dropWhile (p := fun e : TransactionHash × Nat => l.hasExpired now e.2) (l := es)] at he
  rcases List.mem_append.1 he with htaken | hdropped
  · exact absurd (List.mem_takeWhile_imp (p := fun e : TransactionHash × Nat => l.hasExpired now e.2) htaken) hfresh
  · exact hdropped

theorem room_suffix (l : EvictionList) (now : Nat) (es : Evictions) : l.room now es <:+ es := by
  unfold room
  split
  · exact (List.tail_suffix _).trans (List.dropWhile_suffix _)
  · exact List.dropWhile_suffix _

theorem sorted_concat (key : TransactionHash) (hsorted : es.Pairwise fun a b => a.2 ≤ b.2) (hpast : ∀ e ∈ es, e.2 ≤ now) :
    (es ++ [(key, now)]).Pairwise (fun a b => a.2 ≤ b.2) ∧ ∀ e ∈ es ++ [(key, now)], e.2 ≤ now := by
  refine ⟨List.pairwise_append.2 ⟨hsorted, List.pairwise_singleton _ _, fun a ha b hb => ?_⟩, fun e he => ?_⟩
  · rw [List.mem_singleton.1 hb]
    exact hpast a ha
  · rcases List.mem_append.1 he with he | he
    · exact hpast e he
    · rw [List.mem_singleton.1 he]

theorem Lists.insert_eq_ok (h : l.Lists es now) (hlater : now ≤ later)
    (hinsert : (l.insert later key : MempoolExec _) = .ok l') :
    l'.Lists (l.room later es ++ [(key, later)]) later ∧ l'.evictionMemoryTime = l.evictionMemoryTime ∧ l'.maxSize = l.maxSize := by
  obtain ⟨l₁, hprune, hl₁, htime₁, hmax₁⟩ := h.pruneOld hlater
  obtain ⟨l₂, hdrop, hl₂, htime₂, hmax₂⟩ := hl₁.dropOldest
  rw [hmax₁] at hl₂
  rw [EvictionList.insert, hprune, ok_bind, hdrop, ok_bind] at hinsert
  obtain ⟨hfresh, hinsert⟩ := check_bind_eq_ok.1 hinsert
  cases hinsert
  obtain ⟨hsorted, hpast⟩ := sorted_concat key hl₂.sorted hl₂.past
  refine ⟨⟨?_, hl₂.indexes.concat hfresh, hsorted, hpast⟩, htime₂.trans htime₁, hmax₂.trans hmax₁⟩
  rw [hl₂.ordered, List.map_append]
  rfl

theorem Lists.insert_succeeds (h : l.Lists es now) (hkey : l.containsKey now key = false) :
    ∃ l', (l.insert now key : MempoolExec _) = .ok l' := by
  obtain ⟨l₁, hprune, hl₁, -, hmax₁⟩ := h.pruneOld le_rfl
  obtain ⟨l₂, hdrop, hl₂, -⟩ := hl₁.dropOldest
  rw [hmax₁] at hl₂
  change l₂.Lists (l.room now es) now at hl₂
  have hfresh : key ∉ l₂.uniqueEntries := by
    intro hmem
    obtain ⟨t, ht⟩ := mem_iff_exists.1 hmem
    have hroom : (key, t) ∈ l.room now es := by simpa using (hl₂.indexes.get key t).1 ht
    have hin : (key, t) ∈ l.recent now es := by
      unfold room at hroom
      split at hroom
      · exact List.mem_of_mem_tail hroom
      · exact hroom
    have hexpired : l.hasExpired now t = true := by
      by_contra hnot
      have hcontains := h.containsKey_iff.2 ⟨t, (List.dropWhile_sublist _).subset hin, Bool.eq_false_iff.2 hnot⟩
      rw [hkey] at hcontains
      cases hcontains
    -- The first entry that is left has not expired, and is not newer.
    obtain ⟨e, rest, hrest⟩ := List.exists_cons_of_ne_nil (List.ne_nil_of_mem hin)
    have hfirst : l.hasExpired now e.2 = false := by
      have hhead := List.head?_dropWhile_not (fun e : TransactionHash × Nat => l.hasExpired now e.2) es
      rw [recent] at hrest
      rw [hrest] at hhead
      exact hhead
    have hle : e.2 ≤ t := by
      have hsorted := hl₁.sorted
      change (l.recent now es).Pairwise _ at hsorted
      rw [hrest] at hin hsorted
      rcases List.mem_cons.1 hin with heq | hin
      · rw [← heq]
      · exact (List.pairwise_cons.1 hsorted).1 _ hin
    rw [hasExpired_of_le hexpired hle] at hfirst
    cases hfirst
  rw [EvictionList.insert, hprune, ok_bind, hdrop, ok_bind, check, if_pos hfresh, ok_bind]
  exact ⟨_, rfl⟩

/-- The list that these insertions lead to, oldest first. It keeps the most recent ones, but for some
that have expired. -/
structure Recalls (l : EvictionList) (history : Evictions) (now : Nat) : Prop where
  replays : (history.foldlM (fun l e => l.insert e.2 e.1) (new l.maxSize l.evictionMemoryTime) : MempoolExec _) = .ok l
  sorted : history.Pairwise fun a b => a.2 ≤ b.2
  past : ∀ e ∈ history, e.2 ≤ now
  lists : ∃ es, l.Lists es now ∧ es <:+ history ∧ es.length ≤ l.maxSize ∧
    ∀ e ∈ history.drop (history.length - l.maxSize), e ∈ es ∨ l.hasExpired now e.2 = true

variable {history : Evictions}

theorem recalls_new (maxSize evictionMemoryTime now : Nat) : (new maxSize evictionMemoryTime).Recalls [] now :=
  ⟨rfl, .nil, nofun, [], lists_new _ _ _, List.suffix_rfl, Nat.zero_le _, fun _ he => absurd he (by simp)⟩

theorem containsKey_of_later (hlater : now ≤ later) (h : l.containsKey later key = true) : l.containsKey now key = true := by
  obtain ⟨t, ht, hfresh⟩ := (Option.any_eq_true _ _).1 h
  refine (Option.any_eq_true _ _).2 ⟨t, ht, ?_⟩
  rw [Bool.not_eq_true'] at hfresh ⊢
  by_contra hexpired
  rw [hasExpired_mono (Bool.of_not_eq_false hexpired) hlater] at hfresh
  cases hfresh

theorem Recalls.elapse (h : l.Recalls history now) (hlater : now ≤ later) : l.Recalls history later := by
  obtain ⟨es, hes, hsuffix, hlength, hrecent⟩ := h.lists
  refine ⟨h.replays, h.sorted, fun e he => (h.past e he).trans hlater, es, ⟨hes.ordered, hes.indexes, hes.sorted, ?_⟩, hsuffix, hlength, ?_⟩
  · exact fun e he => (hes.past e he).trans hlater
  · exact fun e he => (hrecent e he).imp_right fun hexpired => hasExpired_mono hexpired hlater

theorem Recalls.containsKey_iff (h : l.Recalls history now) (hlater : now ≤ later) :
    l.containsKey later key = true ↔
      ∃ t, (key, t) ∈ history.drop (history.length - l.maxSize) ∧ later - t ≤ l.evictionMemoryTime := by
  obtain ⟨es, hes, hsuffix, hlength, hrecent⟩ := h.lists
  have hrecentOf : ∀ e ∈ es, e ∈ history.drop (history.length - l.maxSize) := by
    intro e he
    rw [List.suffix_iff_eq_drop.1 hsuffix] at he
    exact (List.drop_suffix_drop_left _ (by omega)).subset he
  rw [hes.containsKey_iff]
  apply exists_congr
  intro t
  rw [hasExpired, decide_eq_false_iff_not, Nat.not_lt]
  constructor
  · rintro ⟨ht, hage⟩
    exact ⟨hrecentOf _ ht, hage⟩
  · rintro ⟨ht, hage⟩
    refine ⟨(hrecent _ ht).resolve_right fun hexpired => ?_, hage⟩
    have hold := hasExpired_mono hexpired hlater
    rw [hasExpired, decide_eq_true_eq] at hold
    omega

theorem Recalls.insert (h : l.Recalls history now) (hmax : 0 < l.maxSize)
    (hinsert : (l.insert now key : MempoolExec _) = .ok l') :
    l'.Recalls (history ++ [(key, now)]) now ∧ l'.evictionMemoryTime = l.evictionMemoryTime ∧ l'.maxSize = l.maxSize ∧
      ∀ id, l'.containsKey now id = true → id = key ∨ l.containsKey now id = true := by
  obtain ⟨es, hes, hsuffix, hlength, hrecent⟩ := h.lists
  obtain ⟨hlists, htime, hmax'⟩ := hes.insert_eq_ok le_rfl hinsert
  have hexpired : ∀ t, l'.hasExpired now t = l.hasExpired now t := fun t => by rw [hasExpired, hasExpired, htime]
  obtain ⟨hsorted, hpast⟩ := sorted_concat key h.sorted h.past
  refine ⟨⟨?_, hsorted, hpast, _, hlists, ?_, ?_, ?_⟩, htime, hmax', ?_⟩
  · rw [htime, hmax', List.foldlM_append, h.replays, ok_bind]
    exact (congrArg (· >>= pure) hinsert).trans rfl
  · obtain ⟨before, hbefore⟩ := (l.room_suffix now es).trans hsuffix
    exact ⟨before, by rw [← List.append_assoc, hbefore]⟩
  · have hle : (l.recent now es).length ≤ es.length := (List.dropWhile_sublist _).length_le
    rw [hmax', List.length_append, List.length_singleton]
    unfold room
    split
    · rw [List.length_tail]
      omega
    · omega
  · intro e he
    rw [hmax', List.length_append, List.length_singleton, List.drop_append_of_le_length (by omega)] at he
    rw [hexpired]
    rcases List.mem_append.1 he with he | he
    · by_cases hold : l.hasExpired now e.2 = true
      · exact .inr hold
      · have hin : e ∈ es := (hrecent e ((List.drop_suffix_drop_left _ (by omega)).subset he)).resolve_right hold
        have hkept := mem_recent hin hold
        refine .inl (List.mem_append_left _ ?_)
        unfold room
        split
        · -- the list is full, so that its entries are the most recent ones of the history
          rename_i hmaxle
          have hsub : l.recent now es <:+ history := (List.dropWhile_suffix _).trans hsuffix
          have hle : (l.recent now es).length ≤ es.length := (List.dropWhile_sublist _).length_le
          have hfull : l.recent now es = history.drop (history.length - l.maxSize) := by
            rw [List.suffix_iff_eq_drop.1 hsub]
            congr 2
            omega
          rw [hfull, List.tail_drop]
          rwa [Nat.sub_add_comm (hmaxle.trans hsub.length_le)] at he
        · exact hkept
    · exact .inl (List.mem_append_right _ he)
  · intro id hid
    obtain ⟨t, ht, hfresh⟩ := hlists.containsKey_iff.1 hid
    rcases List.mem_append.1 ht with ht | ht
    · exact .inr (hes.containsKey_iff.2 ⟨t, (l.room_suffix now es).subset ht, hexpired t ▸ hfresh⟩)
    · exact .inl (Prod.mk.inj (List.mem_singleton.1 ht)).1

end EvictionList

namespace VerifiedSet

variable [TransactionIds] {s s' : VerifiedSet} {gone : TransactionHash → Prop} {R : TransactionHash → TransactionHash → Prop}
  {id : TransactionHash}

theorem RemovedFrom.mem (h : RemovedFrom s s' gone R) (hid : id ∈ s'.transactions) : ¬ gone id ∧ id ∈ s.transactions := by
  obtain ⟨tx, htx⟩ := mem_iff_exists.1 hid
  obtain ⟨hnot, hold⟩ := (h.kept id tx).1 htx
  exact ⟨hnot, mem_iff_exists.2 ⟨_, hold⟩⟩

theorem RemovedFrom.totalCost_le (h : RemovedFrom s s' gone R) (hs : s.Consistent R) : s'.totalCost ≤ s.totalCost := by
  rw [h.consistent.cost, hs.cost]
  exact total_le fun id tx htx => ((h.kept id tx).1 htx).2

theorem RemovedFrom.size_lt (h : RemovedFrom s s' gone R) (hgone : gone id) (hid : id ∈ s.transactions) :
    s'.transactions.size < s.transactions.size := by
  have hsub : s'.transactions.keys ⊆ (s.transactions.erase id).keys := fun k hk => by
    obtain ⟨hnot, hold⟩ := h.mem (mem_keys.1 hk)
    refine mem_keys.2 (mem_erase.2 ⟨LawfulEqOrd.compare_eq_iff_eq.ne.2 ?_, hold⟩)
    rintro rfl
    exact hnot hgone
  have hle := (List.subperm_of_subset nodup_keys hsub).length_le
  have hpos := List.length_pos_of_mem (mem_keys.2 hid)
  rw [length_keys] at hpos
  rw [length_keys, length_keys, size_erase,
    if_pos (contains_iff_mem.2 hid)] at hle
  omega

end VerifiedSet

namespace Storage

variable [TransactionIds] {s s' : Storage} {v : VerifiedSet} {now later : Nat} {R : TransactionHash → TransactionHash → Prop}

/-- Every list recalls what was rejected, and no stored transaction is in one. -/
structure Sound (s : Storage) (now : Nat) : Prop where
  consistent : ∃ R, s.verified.Consistent R
  recalls : ∀ e, ∃ history, (s.chainRejectedSameEffects e).Recalls history now
  bounds : ∀ e, (s.chainRejectedSameEffects e).maxSize = maxEvictionMemoryEntries ∧
    (s.chainRejectedSameEffects e).evictionMemoryTime = s.evictionMemoryTime
  fresh : ∀ e, ∀ id ∈ s.verified.transactions, (s.chainRejectedSameEffects e).containsKey now id = false

theorem sound_new (evictionMemoryTime txCostLimit now : Nat) : (new evictionMemoryTime txCostLimit).Sound now where
  consistent := ⟨_, VerifiedSet.consistent_empty⟩
  recalls _ := ⟨[], EvictionList.recalls_new _ _ _⟩
  bounds _ := ⟨rfl, rfl⟩
  fresh _ id hid := by
    change id ∈ (∅ : KeyedMap TransactionHash VerifiedUnminedTx) at hid
    simp at hid

theorem Sound.elapse (h : s.Sound now) (hlater : now ≤ later) : s.Sound later where
  consistent := h.consistent
  recalls e := (h.recalls e).imp fun _ hrecalls => hrecalls.elapse hlater
  bounds := h.bounds
  fresh e id hid := by
    rw [← Bool.not_eq_true]
    intro hcontains
    have hnow := EvictionList.containsKey_of_later hlater hcontains
    rw [h.fresh e id hid] at hnow
    cases hnow

theorem Sound.of_subset (h : s.Sound now) (hconsistent : s'.verified.Consistent R)
    (hsub : ∀ id ∈ s'.verified.transactions, id ∈ s.verified.transactions)
    (hlists : s'.chainRejectedSameEffects = s.chainRejectedSameEffects) (htime : s'.evictionMemoryTime = s.evictionMemoryTime) :
    s'.Sound now where
  consistent := ⟨R, hconsistent⟩
  recalls := hlists ▸ h.recalls
  bounds := hlists ▸ htime ▸ h.bounds
  fresh e id hid := hlists ▸ h.fresh e id (hsub id hid)

theorem reject_eq_ok {reason : RejectionError} {txId : UnminedTxId}
    (h : (s.reject now txId reason : MempoolExec _) = .ok s') :
    s'.verified = s.verified ∧ s'.txCostLimit = s.txCostLimit ∧ s'.evictionMemoryTime = s.evictionMemoryTime ∧
      ∀ e, s'.chainRejectedSameEffects e = s.chainRejectedSameEffects e ∨ reason = .sameEffectsChain e ∧
        ((s.chainRejectedSameEffects e).insert now txId.minedId : MempoolExec _) = .ok (s'.chainRejectedSameEffects e) := by
  cases reason with
  | exactTip e | sameEffectsTip e | nonStandardTransaction e =>
    cases h
    exact ⟨rfl, rfl, rfl, fun _ => .inl rfl⟩
  | sameEffectsChain e =>
    obtain ⟨list, hlist, h⟩ := bind_eq_ok.1 h
    cases h
    refine ⟨rfl, rfl, rfl, fun e' => ?_⟩
    by_cases he : e' = e
    · subst he
      refine .inr ⟨rfl, hlist.trans (congrArg Except.ok ?_)⟩
      exact (Function.update_self e' list s.chainRejectedSameEffects).symm
    · left
      exact Function.update_of_ne he list s.chainRejectedSameEffects

theorem Sound.reject {reason : RejectionError} {txId : UnminedTxId} (h : s.Sound now)
    (hnot : ∀ e, reason = .sameEffectsChain e → txId.minedId ∉ s.verified.transactions)
    (hrun : (s.reject now txId reason : MempoolExec _) = .ok s') :
    s'.Sound now ∧ ∀ e id, (s'.chainRejectedSameEffects e).containsKey now id = true →
      reason = .sameEffectsChain e ∧ id = txId.minedId ∨ (s.chainRejectedSameEffects e).containsKey now id = true := by
  obtain ⟨hverified, -, htime, hlists⟩ := reject_eq_ok hrun
  have hlist : ∀ e, (∃ history, (s'.chainRejectedSameEffects e).Recalls history now) ∧
      ((s'.chainRejectedSameEffects e).maxSize = maxEvictionMemoryEntries ∧
        (s'.chainRejectedSameEffects e).evictionMemoryTime = s.evictionMemoryTime) ∧
      ∀ id, (s'.chainRejectedSameEffects e).containsKey now id = true →
        reason = .sameEffectsChain e ∧ id = txId.minedId ∨ (s.chainRejectedSameEffects e).containsKey now id = true := by
    intro e
    rcases hlists e with heq | ⟨hreason, hinsert⟩
    · rw [heq]
      exact ⟨h.recalls e, h.bounds e, fun _ => .inr⟩
    · obtain ⟨history, hrecalls⟩ := h.recalls e
      obtain ⟨hmax, hmemory⟩ := h.bounds e
      obtain ⟨hrecalls', htime', hmax', hcontains⟩ := hrecalls.insert (by rw [hmax]; decide) hinsert
      exact ⟨⟨_, hrecalls'⟩, ⟨hmax'.trans hmax, htime'.trans hmemory⟩, fun id hid => (hcontains id hid).imp_left fun heq => ⟨hreason, heq⟩⟩
  refine ⟨⟨hverified ▸ h.consistent, fun e => (hlist e).1, fun e => htime ▸ (hlist e).2.1, fun e id hid => ?_⟩,
    fun e => (hlist e).2.2⟩
  rw [hverified] at hid
  rw [← Bool.not_eq_true]
  intro hcontains
  rcases (hlist e).2.2 id hcontains with ⟨hreason, rfl⟩ | hold
  · exact hnot e hreason hid
  · rw [h.fresh e id hid] at hold
    cases hold

theorem Sound.reject_succeeds {e : SameEffectsChainRejectionError} (txId : UnminedTxId) (h : s.Sound now)
    (hfresh : (s.chainRejectedSameEffects e).containsKey now txId.minedId = false) :
    ∃ s', (s.reject now txId (.sameEffectsChain e) : MempoolExec _) = .ok s' := by
  obtain ⟨history, hrecalls⟩ := h.recalls e
  obtain ⟨es, hes, -⟩ := hrecalls.lists
  obtain ⟨list, hlist⟩ := hes.insert_succeeds hfresh
  rw [Storage.reject, hlist, ok_bind]
  exact ⟨_, rfl⟩

theorem rejectAll_eq_ok {reason : RejectionError} {txIds : List UnminedTxId}
    (h : (s.rejectAll now reason txIds : MempoolExec _) = .ok s') :
    s'.verified = s.verified ∧ s'.txCostLimit = s.txCostLimit ∧ s'.evictionMemoryTime = s.evictionMemoryTime := by
  refine foldlM_invariant (I := fun _ t => t.verified = s.verified ∧ t.txCostLimit = s.txCostLimit ∧
    t.evictionMemoryTime = s.evictionMemoryTime) ?_ h ⟨rfl, rfl, rfl⟩
  intro txId _ t t' hreject ht
  obtain ⟨hverified, hlimit, htime, -⟩ := reject_eq_ok hreject
  exact ⟨hverified.trans ht.1, hlimit.trans ht.2.1, htime.trans ht.2.2⟩

theorem Sound.rejectAll {e : SameEffectsChainRejectionError} {txIds : List UnminedTxId} (h : s.Sound now)
    (hnot : ∀ txId ∈ txIds, txId.minedId ∉ s.verified.transactions)
    (hrun : (s.rejectAll now (.sameEffectsChain e) txIds : MempoolExec _) = .ok s') :
    s'.Sound now ∧ ∀ e' id, (s'.chainRejectedSameEffects e').containsKey now id = true →
      e' = e ∧ id ∈ txIds.map minedId ∨ (s.chainRejectedSameEffects e').containsKey now id = true := by
  induction txIds generalizing s with
  | nil =>
    cases hrun
    exact ⟨h, fun _ _ => .inr⟩
  | cons txId txIds ih =>
    rw [Storage.rejectAll, List.foldlM_cons] at hrun
    obtain ⟨s₁, hfirst, hrun⟩ := bind_eq_ok.1 hrun
    obtain ⟨hverified, -⟩ := reject_eq_ok hfirst
    obtain ⟨h₁, hcontains₁⟩ := h.reject (fun _ _ => hnot txId List.mem_cons_self) hfirst
    obtain ⟨h', hcontains⟩ := ih h₁ (fun txId' hmem => hverified ▸ hnot txId' (List.mem_cons_of_mem _ hmem)) hrun
    refine ⟨h', fun e' id hid => ?_⟩
    rcases hcontains e' id hid with ⟨he, hmem⟩ | hold
    · exact .inl ⟨he, List.mem_cons_of_mem _ hmem⟩
    · refine (hcontains₁ e' id hold).imp_left fun ⟨he, hid⟩ => ⟨?_, hid ▸ List.mem_cons_self⟩
      exact (RejectionError.sameEffectsChain.inj he).symm

theorem Sound.rejectAll_succeeds {e : SameEffectsChainRejectionError} {txIds : List UnminedTxId} (h : s.Sound now)
    (hnot : ∀ txId ∈ txIds, txId.minedId ∉ s.verified.transactions) (hnodup : (txIds.map minedId).Nodup)
    (hfresh : ∀ txId ∈ txIds, (s.chainRejectedSameEffects e).containsKey now txId.minedId = false) :
    ∃ s', (s.rejectAll now (.sameEffectsChain e) txIds : MempoolExec _) = .ok s' := by
  induction txIds generalizing s with
  | nil => exact ⟨s, rfl⟩
  | cons txId txIds ih =>
    obtain ⟨s₁, hfirst⟩ := h.reject_succeeds txId (hfresh txId List.mem_cons_self)
    obtain ⟨hverified, -⟩ := reject_eq_ok hfirst
    obtain ⟨h₁, hcontains⟩ := h.reject (fun _ _ => hnot txId List.mem_cons_self) hfirst
    rw [List.map_cons, List.nodup_cons] at hnodup
    rw [Storage.rejectAll, List.foldlM_cons, hfirst, ok_bind]
    refine ih h₁ (fun txId' hmem => hverified ▸ hnot txId' (List.mem_cons_of_mem _ hmem)) hnodup.2 fun txId' hmem => ?_
    rw [← Bool.not_eq_true]
    intro hin
    rcases hcontains e _ hin with ⟨-, heq⟩ | hold
    · exact hnodup.1 (heq ▸ List.mem_map_of_mem hmem)
    · rw [hfresh txId' (List.mem_cons_of_mem _ hmem)] at hold
      cases hold

/-- What is recalled as mined was so before, for the same time. -/
structure MinedWithin (s' s : Storage) (now : Nat) : Prop where
  contains : ∀ id, (s'.chainRejectedSameEffects .mined).containsKey now id = true →
    (s.chainRejectedSameEffects .mined).containsKey now id = true
  memory : s'.evictionMemoryTime = s.evictionMemoryTime

theorem MinedWithin.refl (s : Storage) (now : Nat) : MinedWithin s s now := ⟨fun _ hid => hid, rfl⟩

theorem Sound.evictLoop {rounds : Nat} (h : s.Sound now) (order : IterationOrder TransactionHash) (samplers : Nat → WeightedSampler)
    (unminedTxId : UnminedTxId) (result : Except MempoolError UnminedTxId) (hrounds : s.verified.transactions.size < rounds) :
    ∃ result' s', (evictLoop now order samplers unminedTxId rounds result s : MempoolExec _) = .ok (result', s') ∧
      s'.Sound now ∧ MinedWithin s' s now ∧ s'.verified.totalCost ≤ s'.txCostLimit ∧ s'.txCostLimit = s.txCostLimit := by
  induction rounds generalizing s result with
  | zero => cases hrounds
  | succ rounds ih =>
    rw [Storage.evictLoop]
    split
    · rename_i hcost
      exact ⟨result, s, rfl, h, .refl s now, hcost, rfl⟩
    · rename_i hcost
      obtain ⟨R, hR⟩ := h.consistent
      obtain ⟨key, tx, v, hevict, hkey, hremoved⟩ := hR.evictOne order (samplers rounds) (by omega)
      have hid : tx.transaction.id.minedId = key := hR.keyed key tx hkey
      have hstored : key ∈ s.verified.transactions := mem_iff_exists.2 ⟨_, hkey⟩
      have hsound : Sound { s with verified := v } now := h.of_subset hremoved.consistent (fun id hin => (hremoved.mem hin).2) rfl rfl
      obtain ⟨s₁, hreject⟩ := hsound.reject_succeeds tx.transaction.id (hid.symm ▸ h.fresh .randomlyEvicted key hstored)
      obtain ⟨hverified, hlimit, htime, -⟩ := reject_eq_ok hreject
      obtain ⟨hs₁, hcontains⟩ := hsound.reject (fun _ _ hin => (hremoved.mem hin).1 (hid.symm ▸ .refl)) hreject
      have hsize := hremoved.size_lt (.refl) hstored
      obtain ⟨result', s', hloop, hs', hmined, hbound, hlimit'⟩ := ih hs₁
        (if tx.transaction.id = unminedTxId then .error (.storageEffectsChain .randomlyEvicted) else result) (by
          rw [hverified]
          exact Nat.lt_of_lt_of_le hsize (Nat.le_of_lt_succ hrounds))
      refine ⟨result', s', ?_, hs', ⟨fun id hin => ?_, hmined.memory.trans htime⟩, hbound, hlimit'.trans hlimit⟩
      · rw [hevict, ok_bind]
        dsimp only [expect]
        rw [ok_bind, hreject, ok_bind]
        exact hloop
      · exact (hcontains .mined id (hmined.contains id hin)).resolve_left fun hreason => by simp at hreason

theorem Sound.insert [StandardPolicy] (h : s.Sound now) (hcost : s.verified.totalCost ≤ s.txCostLimit)
    (order : IterationOrder TransactionHash) (samplers : Nat → WeightedSampler) (tx : VerifiedUnminedTx)
    (outpoints : List OutPoint) (height : Option Nat) :
    ∃ result s', (s.insert now order samplers tx outpoints height : MempoolExec _) = .ok (result, s') ∧
      s'.Sound now ∧ MinedWithin s' s now ∧ s'.verified.totalCost ≤ s'.txCostLimit ∧ s'.txCostLimit = s.txCostLimit := by
  obtain ⟨R, hR⟩ := h.consistent
  rw [Storage.insert]
  split
  · exact ⟨_, s, rfl, h, .refl s now, hcost, rfl⟩
  rename_i hnone
  split
  · exact ⟨_, s, rfl, h, .refl s now, hcost, rfl⟩
  split
  · exact ⟨_, _, rfl, h.of_subset hR (fun _ hid => hid) rfl rfl, ⟨fun _ hid => hid, rfl⟩, hcost, rfl⟩
  split
  · rename_i v hinsert
    have hsound : Sound { s with verified := v } now := by
      refine ⟨⟨_, hR.insert hinsert⟩, h.recalls, h.bounds, fun e id hid => ?_⟩
      obtain ⟨-, -, rfl⟩ := VerifiedSet.insert_eq_ok hinsert
      rcases mem_insert.1 hid with heq | hold
      · obtain rfl := LawfulEqOrd.compare_eq_iff_eq.1 heq
        have hchain : s.chainRejectionError now tx.transaction.id.minedId = none := by
          rw [rejectionError, Option.or_eq_none_iff, Option.or_eq_none_iff] at hnone
          exact Option.map_eq_none_iff.1 hnone.2.2
        rw [chainRejectionError, List.find?_eq_none] at hchain
        exact Bool.eq_false_iff.2 (hchain e (by cases e <;> simp))
      · exact h.fresh e id hold
    obtain ⟨result, s', hloop, hs', hwithin, hbound⟩ := hsound.evictLoop order samplers tx.transaction.id (.ok tx.transaction.id) (Nat.lt_succ_self _)
    exact ⟨result, s', hloop, hs', ⟨hwithin.contains, hwithin.memory⟩, hbound⟩
  · rename_i error _
    have hreject : (s.reject now tx.transaction.id (.sameEffectsTip error) : MempoolExec _) = .ok (limitRejectionListMemory
        { s with tipRejectedSameEffects := s.tipRejectedSameEffects.insert tx.transaction.id.minedId error }) := rfl
    rw [hreject, ok_bind]
    obtain ⟨result, s', hloop, hs', hwithin, hbound⟩ := (h.reject (fun e heq => by cases heq) hreject).1.evictLoop order samplers
      tx.transaction.id (.error (.storageEffectsTip error)) (Nat.lt_succ_self _)
    exact ⟨result, s', hloop, hs', ⟨hwithin.contains, hwithin.memory⟩, hbound⟩

theorem insert_cases [StandardPolicy] {order : IterationOrder TransactionHash} {samplers : Nat → WeightedSampler} {tx : VerifiedUnminedTx}
    {outpoints : List OutPoint} {height : Option Nat} {result : Except MempoolError UnminedTxId}
    (hcost : s.verified.totalCost + tx.cost ≤ s.txCostLimit)
    (h : (s.insert now order samplers tx outpoints height : MempoolExec _) = .ok (result, s')) :
    s'.txCostLimit = s.txCostLimit ∧
      (result = .ok tx.transaction.id ∧ s.verified.insert tx outpoints height = .ok s'.verified ∨
        (∃ e, result = .error e) ∧ s'.verified = s.verified) := by
  have hevict : ∀ (s₁ : Storage) (r : Except MempoolError UnminedTxId), s₁.verified.totalCost ≤ s₁.txCostLimit →
      (s₁.evictAll now order samplers tx.transaction.id r : MempoolExec _) = .ok (r, s₁) := fun s₁ r hle => by
    rw [evictAll, Storage.evictLoop, if_pos hle]
    rfl
  rw [Storage.insert] at h
  split at h
  · cases h
    exact ⟨rfl, .inr ⟨⟨_, rfl⟩, rfl⟩⟩
  split at h
  · cases h
    exact ⟨rfl, .inr ⟨⟨_, rfl⟩, rfl⟩⟩
  split at h
  · cases h
    exact ⟨rfl, .inr ⟨⟨_, rfl⟩, rfl⟩⟩
  split at h
  · rename_i v hinsert
    have hv : v.totalCost = s.verified.totalCost + tx.cost := by
      obtain ⟨-, -, rfl⟩ := VerifiedSet.insert_eq_ok hinsert
      rfl
    rw [hevict _ _ (hv.trans_le hcost)] at h
    cases h
    exact ⟨rfl, .inl ⟨rfl, hinsert⟩⟩
  · rename_i e _
    obtain ⟨s₁, hreject, h⟩ := bind_eq_ok.1 h
    obtain ⟨hverified, hlimit, -⟩ := reject_eq_ok hreject
    rw [hevict s₁ _ (by rw [hverified, hlimit]; exact (Nat.le_add_right _ _).trans hcost)] at h
    cases h
    exact ⟨hlimit, .inr ⟨⟨_, rfl⟩, hverified⟩⟩

theorem rejectIfNeeded_eq_ok {txId : UnminedTxId} {error : TransactionDownloadVerifyError}
    (h : (s.rejectIfNeeded now txId error : MempoolExec _) = .ok s') :
    s'.verified = s.verified ∧ s'.chainRejectedSameEffects = s.chainRejectedSameEffects ∧
      s'.evictionMemoryTime = s.evictionMemoryTime ∧ s'.txCostLimit = s.txCostLimit := by
  cases error <;> obtain rfl := Except.ok.inj h <;> exact ⟨rfl, rfl, rfl, rfl⟩

structure Smaller (s' s : Storage) : Prop where
  consistent : ∃ R, s'.verified.Consistent R
  sub : ∀ (id : TransactionHash) (tx : VerifiedUnminedTx), s'.verified.transactions[id]? = some tx → s.verified.transactions[id]? = some tx
  cost : s'.verified.totalCost ≤ s.verified.totalCost
  limit : s'.txCostLimit = s.txCostLimit

theorem Smaller.of_removed {gone : TransactionHash → Prop} (hR : s.verified.Consistent R)
    (h : s.verified.RemovedFrom v gone R) (hverified : s'.verified = v) (hlimit : s'.txCostLimit = s.txCostLimit) : Smaller s' s := by
  subst hverified
  exact ⟨⟨_, h.consistent⟩, fun id tx htx => ((h.kept id tx).1 htx).2, h.totalCost_le hR, hlimit⟩

section

open VerifiedSet

variable {order : IterationOrder TransactionHash} {minedIds : List TransactionHash} {transactions : List Transaction}
  {removed : RemovedTransactionIds} {tipHeight : Nat} {expired : List UnminedTxId}

/-- The stored transactions of a kind, and what goes with them. -/
structure Selected (v v' : VerifiedSet) (txIds : List UnminedTxId) : Prop where
  nodup : (txIds.map minedId).Nodup
  stored : ∀ txId ∈ txIds, txId.minedId ∈ v.transactions
  gone : ∀ txId ∈ txIds, txId.minedId ∉ v'.transactions

theorem mem_filter_transactions {p : VerifiedUnminedTx → Bool} {e : TransactionHash × VerifiedUnminedTx} :
    e ∈ v.transactions.toList.filter (fun e => p e.2) ↔ v.transactions[e.1]? = some e.2 ∧ p e.2 = true := by
  rw [List.mem_filter]
  exact and_congr_left fun _ => mem_toList_iff_getElem?_eq_some

theorem selected_of_filter {p : VerifiedUnminedTx → Bool} {v' : VerifiedSet} {f : TransactionHash × VerifiedUnminedTx → UnminedTxId}
    (hf : ∀ e, v.transactions[e.1]? = some e.2 → (f e).minedId = e.1) (hremoved : v.RemovedFrom v' (v.Matched R p) R) :
    Selected v v' ((v.transactions.toList.filter fun e => p e.2).map f) := by
  constructor
  case nodup =>
    have hkeys : ((v.transactions.toList.filter fun e => p e.2).map f).map minedId =
        (v.transactions.toList.filter fun e => p e.2).map Prod.fst := by
      rw [List.map_map]
      apply List.map_congr_left
      intro e he
      exact hf e (mem_filter_transactions.1 he).1
    rw [hkeys]
    exact (List.filter_sublist.map _).nodup ((indexes_toList v.transactions).nodup)
  case stored =>
    intro txId hmem
    obtain ⟨e, he, rfl⟩ := List.mem_map.1 hmem
    obtain ⟨hget, -⟩ := mem_filter_transactions.1 he
    rw [hf e hget, mem_iff_isSome_getElem?, hget]
    rfl
  case gone =>
    intro txId hmem hin
    obtain ⟨e, he, rfl⟩ := List.mem_map.1 hmem
    obtain ⟨hget, hp⟩ := mem_filter_transactions.1 he
    exact (hremoved.mem hin).1 ⟨e.1, e.2, hget, hp, hf e hget ▸ .refl⟩

/-- A filter by the keys of the stored transactions that match is the match. -/
theorem matched_filter_iff {κ : Type} [DecidableEq κ] {p : VerifiedUnminedTx → Bool} {f : TransactionHash × VerifiedUnminedTx → κ}
    {g : VerifiedUnminedTx → κ} (hself : ∀ (key : TransactionHash) (tx : VerifiedUnminedTx), v.transactions[key]? = some tx → f (key, tx) = g tx)
    (hinj : ∀ e key tx, v.transactions[e.1]? = some e.2 → v.transactions[key]? = some tx → f e = g tx → e.1 = key) (id : TransactionHash) :
    v.Matched R (fun tx => g tx ∈ (v.transactions.toList.filter fun e => p e.2).map f) id ↔ v.Matched R p id := by
  refine exists_congr fun key => exists_congr fun tx => and_congr_right fun htx => and_congr_left fun _ => ?_
  rw [decide_eq_true_eq, List.mem_map]
  constructor
  · rintro ⟨e, he, hid⟩
    obtain ⟨hget, hp⟩ := mem_filter_transactions.1 he
    rw [hinj e key tx hget htx hid, htx] at hget
    exact Option.some.inj hget ▸ hp
  · exact fun hp => ⟨(key, tx), mem_filter_transactions.2 ⟨htx, hp⟩, hself key tx htx⟩

/-- What a new block removes: the mined transactions, and then those that spend the same. -/
structure SameEffectsRemoved (v v₁ v₂ : VerifiedSet) (R : TransactionHash → TransactionHash → Prop) (gone : TransactionHash → Prop)
    (transactions : List Transaction) (removed : RemovedTransactionIds) : Prop where
  mined : v.RemovedFrom v₁ gone R
  reportsMined : Reports removed.mined v gone
  invalidated : v₁.RemovedFrom v₂ (v₁.Matched (fun t p => R t p ∧ ¬ gone t) (isDuplicateSpend transactions)) fun t p => R t p ∧ ¬ gone t
  reportsInvalidated : Reports removed.invalidated v₁ (v₁.Matched (fun t p => R t p ∧ ¬ gone t) (isDuplicateSpend transactions))

/-- The removals succeed, and the rejections follow. -/
theorem rejectAndRemoveSameEffects_eq (now : Nat) (order : IterationOrder TransactionHash) (minedIds : List TransactionHash)
    (transactions : List Transaction) (hR : s.verified.Consistent R) :
    ∃ removed v₁ v₂ duplicates, Selected v₁ v₂ duplicates ∧
      SameEffectsRemoved s.verified v₁ v₂ R (s.verified.Matched R fun tx => tx.minedId ∈ minedIds) transactions removed ∧
      (s.rejectAndRemoveSameEffects now order minedIds transactions : MempoolExec _) = do
        let s ← { s with verified := v₂ }.rejectAll now (.sameEffectsChain .mined) (minedIds.map .legacy)
        let s ← s.rejectAll now (.sameEffectsChain .duplicateSpend) duplicates
        return (removed, s) := by
  obtain ⟨mined, v₁, hmined, hremoved, hreports⟩ := hR.removeAllThat order fun tx => tx.minedId ∈ minedIds
  have hv₁ := hremoved.consistent
  obtain ⟨invalidated, v₂, hinvalidated, hremoved', hreports'⟩ := hv₁.removeAllThat order
    fun tx => tx.transaction.id ∈ (v₁.transactions.toList.filter fun e => isDuplicateSpend transactions e.2).map fun e => e.2.transaction.id
  have hduplicates := matched_filter_iff (R := fun t p => R t p ∧ ¬ s.verified.Matched R (fun tx => tx.minedId ∈ minedIds) t) (v := v₁)
    (p := isDuplicateSpend transactions) (f := fun e => e.2.transaction.id) (g := fun tx => tx.transaction.id) (fun _ _ _ => rfl)
    fun e key tx hget htx hid => (hv₁.keyed _ _ hget).symm.trans ((congrArg minedId hid).trans (hv₁.keyed _ _ htx))
  refine ⟨⟨mined, invalidated⟩, v₁, v₂, _, selected_of_filter (f := fun e => e.2.transaction.id) (fun e hget => hv₁.keyed _ _ hget)
    (hremoved'.congr hduplicates), ⟨hremoved, hreports, hremoved'.congr hduplicates, hreports'.congr hduplicates⟩, ?_⟩
  rw [rejectAndRemoveSameEffects, hmined, ok_bind]
  dsimp only
  rw [hinvalidated]
  rfl

theorem removeExpiredTransactions_eq (now : Nat) (order : IterationOrder TransactionHash) (tipHeight : Nat) (hR : s.verified.Consistent R) :
    ∃ v₁ ids, s.verified.RemovedFrom v₁ (s.verified.Matched R (isExpired tipHeight)) R ∧ Selected s.verified v₁ ids ∧
      (s.removeExpiredTransactions now order tipHeight : MempoolExec _) = do
        let s' ← { s with verified := v₁ }.rejectAll now (.sameEffectsChain .expired) ids
        return ((s.verified.transactions.toList.filter fun e => isExpired tipHeight e.2).map fun e => e.2.transaction.id, s') := by
  obtain ⟨ids, v₁, hremove, hremoved, -⟩ := hR.removeAllThat order fun tx => tx.minedId ∈
    (s.verified.transactions.toList.filter fun e => isExpired tipHeight e.2).map Prod.fst
  replace hremoved := hremoved.congr (matched_filter_iff (fun key tx htx => (hR.keyed key tx htx).symm)
    fun e key tx _ htx hid => hid.trans (hR.keyed key tx htx))
  refine ⟨v₁, _, hremoved, selected_of_filter (f := fun e => .legacy e.1) (fun _ _ => rfl) hremoved, ?_⟩
  rw [removeExpiredTransactions, hremove, ok_bind, List.map_map]
  rfl

theorem SameEffectsRemoved.not_mem {v v₁ v₂ : VerifiedSet} (hv : v.Consistent R)
    (h : SameEffectsRemoved v v₁ v₂ R (v.Matched R fun tx => tx.minedId ∈ minedIds) transactions removed) {id : TransactionHash}
    (hid : id ∈ minedIds) : id ∉ v₂.transactions := by
  intro hin
  obtain ⟨hnot, hold⟩ := h.mined.mem (h.invalidated.mem hin).2
  obtain ⟨tx, htx⟩ := mem_iff_exists.1 hold
  exact hnot ⟨id, tx, htx, decide_eq_true ((hv.keyed id tx htx).symm ▸ hid), .refl⟩

theorem rejectAndRemoveSameEffects_eq_ok (hR : s.verified.Consistent R)
    (h : (s.rejectAndRemoveSameEffects now order minedIds transactions : MempoolExec _) = .ok (removed, s')) :
    Smaller s' s ∧ ∃ v, SameEffectsRemoved s.verified v s'.verified R (s.verified.Matched R fun tx => tx.minedId ∈ minedIds)
      transactions removed := by
  obtain ⟨removed', v₁, v₂, duplicates, -, hremoved, heq⟩ := rejectAndRemoveSameEffects_eq now order minedIds transactions hR
  rw [heq] at h
  obtain ⟨s₁, hs₁, h⟩ := bind_eq_ok.1 h
  obtain ⟨s₂, hs₂, h⟩ := bind_eq_ok.1 h
  obtain ⟨rfl, rfl⟩ := Prod.mk.inj (Except.ok.inj h)
  obtain ⟨hverified₁, hlimit₁, -⟩ := rejectAll_eq_ok hs₁
  obtain ⟨hverified₂, hlimit₂, -⟩ := rejectAll_eq_ok hs₂
  have hverified : s₂.verified = v₂ := hverified₂.trans hverified₁
  exact ⟨.of_removed hR (hremoved.mined.trans hremoved.invalidated) hverified (hlimit₂.trans hlimit₁), v₁, hverified ▸ hremoved⟩

theorem removeExpiredTransactions_eq_ok (hR : s.verified.Consistent R)
    (h : (s.removeExpiredTransactions now order tipHeight : MempoolExec _) = .ok (expired, s')) :
    Smaller s' s ∧ s.verified.RemovedFrom s'.verified (s.verified.Matched R (isExpired tipHeight)) R ∧
      ∀ unminedId, unminedId ∈ expired ↔ ∃ (id : TransactionHash) (tx : VerifiedUnminedTx),
        s.verified.transactions[id]? = some tx ∧ isExpired tipHeight tx = true ∧ tx.transaction.id = unminedId := by
  obtain ⟨v₁, ids, hremoved, -, heq⟩ := removeExpiredTransactions_eq now order tipHeight hR
  rw [heq] at h
  obtain ⟨s₁, hs₁, h⟩ := bind_eq_ok.1 h
  cases h
  obtain ⟨hverified, hlimit, -⟩ := rejectAll_eq_ok hs₁
  refine ⟨.of_removed hR hremoved hverified hlimit, hverified ▸ hremoved, fun unminedId => ?_⟩
  rw [List.mem_map]
  constructor
  · rintro ⟨e, he, rfl⟩
    obtain ⟨hget, hexpired⟩ := mem_filter_transactions.1 he
    exact ⟨e.1, e.2, hget, hexpired, rfl⟩
  · rintro ⟨id, tx, htx, hexpired, rfl⟩
    exact ⟨(id, tx), mem_filter_transactions.2 ⟨htx, hexpired⟩, rfl⟩

theorem Sound.rejectAndRemoveSameEffects (h : s.Sound now)
    (hrun : (s.rejectAndRemoveSameEffects now order minedIds transactions : MempoolExec _) = .ok (removed, s')) :
    s'.Sound now ∧ s'.evictionMemoryTime = s.evictionMemoryTime ∧ ∀ id, (s'.chainRejectedSameEffects .mined).containsKey now id = true →
      id ∈ minedIds ∨ (s.chainRejectedSameEffects .mined).containsKey now id = true := by
  obtain ⟨R, hR⟩ := h.consistent
  obtain ⟨removed', v₁, v₂, duplicates, hselected, hremoved, heq⟩ := rejectAndRemoveSameEffects_eq now order minedIds transactions hR
  rw [heq] at hrun
  obtain ⟨s₁, hs₁, hrun⟩ := bind_eq_ok.1 hrun
  obtain ⟨s₂, hs₂, hrun⟩ := bind_eq_ok.1 hrun
  cases hrun
  have hbefore : Sound { s with verified := v₂ } now :=
    h.of_subset hremoved.invalidated.consistent (fun id hin => (hremoved.mined.mem (hremoved.invalidated.mem hin).2).2) rfl rfl
  obtain ⟨h₁, hcontains₁⟩ := hbefore.rejectAll (List.forall_mem_map.2 fun id hid => hremoved.not_mem hR hid) hs₁
  obtain ⟨h₂, hcontains₂⟩ := h₁.rejectAll (fun txId hmem => (rejectAll_eq_ok hs₁).1 ▸ hselected.gone txId hmem) hs₂
  refine ⟨h₂, (rejectAll_eq_ok hs₂).2.2.trans (rejectAll_eq_ok hs₁).2.2, fun id hid => ?_⟩
  refine (hcontains₁ .mined id ((hcontains₂ .mined id hid).resolve_left fun hne => by simp at hne)).imp_left fun hmined => ?_
  simpa [minedId] using hmined.2

theorem Sound.rejectAndRemoveSameEffects_succeeds (h : s.Sound now) (order : IterationOrder TransactionHash)
    (transactions : List Transaction) (hnodup : minedIds.Nodup)
    (hfresh : ∀ id ∈ minedIds, (s.chainRejectedSameEffects .mined).containsKey now id = false) :
    ∃ removed s', (s.rejectAndRemoveSameEffects now order minedIds transactions : MempoolExec _) = .ok (removed, s') := by
  obtain ⟨R, hR⟩ := h.consistent
  obtain ⟨removed, v₁, v₂, duplicates, hselected, hremoved, heq⟩ := rejectAndRemoveSameEffects_eq now order minedIds transactions hR
  have hbefore : Sound { s with verified := v₂ } now :=
    h.of_subset hremoved.invalidated.consistent (fun id hin => (hremoved.mined.mem (hremoved.invalidated.mem hin).2).2) rfl rfl
  have hnot : ∀ txId ∈ minedIds.map legacy, txId.minedId ∉ v₂.transactions :=
    List.forall_mem_map.2 fun id hid => hremoved.not_mem hR hid
  have hids : (minedIds.map legacy).map minedId = minedIds := by
    rw [List.map_map]
    exact List.map_id _
  obtain ⟨s₁, hs₁⟩ := hbefore.rejectAll_succeeds hnot (hids.symm ▸ hnodup) (List.forall_mem_map.2 hfresh)
  obtain ⟨h₁, hcontains⟩ := hbefore.rejectAll hnot hs₁
  obtain ⟨s₂, hs₂⟩ := h₁.rejectAll_succeeds (e := .duplicateSpend) (fun txId hmem => (rejectAll_eq_ok hs₁).1 ▸ hselected.gone txId hmem)
    hselected.nodup fun txId hmem => by
      rw [← Bool.not_eq_true]
      intro hin
      have hold := (hcontains _ _ hin).resolve_left fun hne => by simp at hne
      rw [h.fresh .duplicateSpend _ (hremoved.mined.mem (hselected.stored txId hmem)).2] at hold
      cases hold
  rw [heq, hs₁, ok_bind, hs₂]
  exact ⟨_, _, rfl⟩

theorem Sound.removeExpiredTransactions (h : s.Sound now) (order : IterationOrder TransactionHash) (tipHeight : Nat) :
    ∃ expired s', (s.removeExpiredTransactions now order tipHeight : MempoolExec _) = .ok (expired, s') ∧
      s'.Sound now ∧ MinedWithin s' s now := by
  obtain ⟨R, hR⟩ := h.consistent
  obtain ⟨v₁, ids, hremoved, hselected, heq⟩ := removeExpiredTransactions_eq now order tipHeight hR
  have hbefore : Sound { s with verified := v₁ } now := h.of_subset hremoved.consistent (fun id hin => (hremoved.mem hin).2) rfl rfl
  obtain ⟨s₁, hs₁⟩ := hbefore.rejectAll_succeeds (e := .expired) hselected.gone hselected.nodup
    fun txId hmem => h.fresh .expired _ (hselected.stored txId hmem)
  obtain ⟨h₁, hcontains⟩ := hbefore.rejectAll hselected.gone hs₁
  rw [heq, hs₁]
  exact ⟨_, s₁, rfl, h₁, fun id hid => (hcontains .mined id hid).resolve_left fun hne => by simp at hne, (rejectAll_eq_ok hs₁).2.2⟩

end

end Storage

end Zebra
