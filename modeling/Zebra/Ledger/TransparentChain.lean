import Zebra.Ledger.TransparentBlock

namespace Zebra.Ledger

open Lib Std.ExtTreeMap

variable [ScriptParsing] {ε : Type} {net : Network} {db : ZebraDb} {t : TransparentTables} {bs : List FinalizedBlock}
  {b : FinalizedBlock} {v : Address → Option AddressBalanceLocation} {p q : Payment} {o : OutPoint}

/-- The location of the first output ever paid to an address. -/
def firstLocation (net : Network) (bs : List FinalizedBlock) (a : Address) : Option OutputLocation :=
  firstTo net a ((chainPayments bs).map Payment.entry)

/-- The tables describe the outputs of the chain: `v` are the values of the addresses. -/
structure DescribesChain (net : Network) (t : TransparentTables) (bs : List FinalizedBlock)
    (v : Address → Option AddressBalanceLocation) : Prop where
  network : t.network = net
  located : ∀ hash l, t.txLocByHash[hash]? = some l ↔ ∃ b ∈ bs, (hash, l) ∈ b.txLocations
  known : ∀ o ∈ (chainSpends bs).map Prod.snd, ∃ b ∈ bs, o.hash ∈ b.transactionHashes
  utxos : ∀ l o, t.utxoByOutLoc[l]? = some o ↔ (l, o) ∈ (unspent bs).map Payment.entry
  values : HasValues t.balances v
  location : ∀ a, (v a).map (·.location) = firstLocation net bs a
  balance : ∀ a, balanceOf (v a) = totalTo net a ((unspent bs).map Payment.entry)
  received : ∀ a, receivedOf (v a) = saturatingAdd 0 (totalTo net a ((chainPayments bs).map Payment.entry)).toNat
  outputLinks : ∀ al l, ⟨al, l⟩ ∈ t.utxoLocs ↔ ∃ a, firstLocation net bs a = some al ∧
    ∃ p ∈ unspent bs, p.output.address net = some a ∧ p.location = l
  txLinks : ∀ al tl, ⟨al, tl⟩ ∈ t.txLocs ↔ ∃ a, firstLocation net bs a = some al ∧
    ∃ p ∈ chainPayments bs, p.output.address net = some a ∧
      (p.location.transactionLocation = tl ∨ (tl, p.outpoint) ∈ chainSpends bs)

def available (bs : List FinalizedBlock) (b : FinalizedBlock) : List Payment := unspent bs ++ b.payments

def spentBy (bs : List FinalizedBlock) (b : FinalizedBlock) : List Payment :=
  (available bs b).filter fun p => p.outpoint ∈ b.spends.map Prod.snd

omit [ScriptParsing] in
theorem mem_chainPayments_available (h₀ : b.height ≠ 0) (hp : p ∈ available bs b) : p ∈ chainPayments (bs ++ [b]) := by
  rw [chainPayments_concat h₀, List.mem_append]
  rcases List.mem_append.1 hp with hp | hp
  · exact .inl (mem_unspent.1 hp).1
  · exact .inr hp

omit [ScriptParsing] in
theorem hash_mem_of_payments (hp : p ∈ b.payments) : p.outpoint.hash ∈ b.transactionHashes := by
  obtain ⟨l, hl, -⟩ := exists_txLocation hp
  exact map_fst_txLocations b ▸ List.mem_map_of_mem hl

section

variable (hl : OneChain (bs ++ [b]))
include hl

omit [ScriptParsing] in
theorem hash_fresh {hash : TransactionHash} (h : hash ∈ b.transactionHashes) {b' : FinalizedBlock} (hb : b' ∈ bs) :
    hash ∉ b'.transactionHashes := by
  have hd := hl.distinct
  rw [List.flatMap_append, List.nodup_append] at hd
  exact fun h' => hd.2.2 hash (List.mem_flatMap.2 ⟨b', hb, h'⟩) hash (by simpa using h) rfl

omit [ScriptParsing] in
theorem outpoint_fresh (hk : ∀ o ∈ (chainSpends bs).map Prod.snd, ∃ b ∈ bs, o.hash ∈ b.transactionHashes)
    (hp : p ∈ b.payments) : p.outpoint ∉ (chainSpends bs).map Prod.snd := by
  intro ho
  obtain ⟨b', hb', hh⟩ := hk _ ho
  exact hash_fresh hl (hash_mem_of_payments hp) hb' hh

omit [ScriptParsing] in
theorem unspent_concat (h₀ : b.height ≠ 0)
    (hk : ∀ o ∈ (chainSpends bs).map Prod.snd, ∃ b ∈ bs, o.hash ∈ b.transactionHashes) :
    unspent (bs ++ [b]) = (available bs b).filter fun p => p.outpoint ∉ b.spends.map Prod.snd := by
  rw [unspent, chainPayments_concat h₀, chainSpends_concat, available, unspent, List.filter_append, List.filter_append,
    List.filter_filter]
  congr 1
  · refine List.filter_congr fun p _ => ?_
    simp only [List.map_append, List.mem_append, not_or, Bool.decide_and]
    exact Bool.and_comm _ _
  · refine List.filter_congr fun p hp => ?_
    have := outpoint_fresh hl hk hp
    simp_all

variable {x : OutPoint × OutputLocation × Utxo} {u : Utxo}

theorem spentUtxo_ok (hd : DescribesChain net (transparentOf db) bs v) (h : (db.spentUtxo b o : Exec ε _) = .ok x) :
    ∃ p ∈ available bs b, p.outpoint = o ∧ x = (o, p.location, p.utxo.utxo) := by
  obtain ⟨l, hloc, h⟩ := bind_eq_ok.1 h
  obtain ⟨u, hu, h⟩ := bind_eq_ok.1 h
  cases h
  rw [Outcome.expect_eq_ok, Option.or_eq_some_iff] at hu
  unfold ZebraDb.spentLocation at hloc
  rcases hu with hu | ⟨-, hu⟩
  · -- the output is in the database
    obtain ⟨l', hl', hout⟩ := Option.bind_eq_some_iff.1 hu
    rw [hl'] at hloc
    cases hloc
    obtain ⟨out, hget, rfl⟩ := Option.map_eq_some_iff.1 hout
    obtain ⟨p, hp, hpe⟩ := List.mem_map.1 ((hd.utxos _ _).1 hget)
    obtain ⟨hploc, rfl⟩ := Prod.mk.inj hpe
    obtain ⟨tl, htl, hfrom⟩ := Option.map_eq_some_iff.1 hl'
    obtain ⟨b', hb', htl⟩ := (hd.located _ _).1 htl
    have hpout : p.outpoint = o := by
      obtain ⟨b₁, hb₁, -, hpb₁⟩ := mem_chainPayments.1 (mem_unspent.1 hp).1
      obtain ⟨tl₁, htl₁, hloc₁⟩ := exists_txLocation hpb₁
      obtain ⟨rfl, hindex⟩ := OutputLocation.mk.inj (hloc₁.symm.trans (hploc.trans hfrom.symm))
      exact OutPoint.ext (hl.of_append.hash_eq_of_txLocation hb₁ hb' htl₁ htl) hindex
    subst hpout hploc
    exact ⟨p, List.mem_append_left _ hp, rfl, rfl⟩
  · -- the output is spent in the block that creates it
    obtain ⟨p, hp, rfl, rfl⟩ := (getElem?_newOutputs (hl.hashes_nodup (by simp)) (hl.outputs b (by simp))).1 hu
    have hnone : db.outputLocation p.outpoint = none := by
      rw [ZebraDb.outputLocation, Option.map_eq_none_iff, Option.eq_none_iff_forall_ne_some]
      intro tl htl
      obtain ⟨b', hb', htl⟩ := (hd.located _ _).1 htl
      exact hash_fresh hl (hash_mem_of_payments hp) hb' (map_fst_txLocations b' ▸ List.mem_map_of_mem htl)
    rw [hnone] at hloc
    have := lookupOutLoc_ok (hl.hashes_nodup (by simp)) hp hloc
    subst this
    exact ⟨p, List.mem_append_right _ hp, rfl, rfl⟩

variable (h₀ : b.height ≠ 0)
include h₀

omit [ScriptParsing] in
theorem available_nodup : (available bs b).Nodup := by
  have hn := hl.chainPayments_nodup
  rw [chainPayments_concat h₀] at hn
  exact hn.sublist ((List.filter_sublist).append_right _)

omit [ScriptParsing] in
theorem available_eq_of_location (hp : p ∈ available bs b) (hq : q ∈ available bs b) (h : p.location = q.location) :
    p = q :=
  hl.payment_eq_of_location (mem_chainPayments_available h₀ hp) (mem_chainPayments_available h₀ hq) h

omit [ScriptParsing] in
theorem mem_spentBy : p ∈ spentBy bs b ↔ p ∈ available bs b ∧ p.outpoint ∈ b.spends.map Prod.snd := by
  simp [spentBy]

variable (hd : DescribesChain net (transparentOf db) bs v) {us : List (OutPoint × OutputLocation × Utxo)}
  (hus : (db.spentUtxos b : Exec ε _) = .ok us)
include hd hus

theorem mem_spentUtxos : x ∈ us ↔ ∃ p ∈ spentBy bs b, (p.outpoint, p.location, p.utxo.utxo) = x:= by
  rw [ZebraDb.spentUtxos, ← map_snd_spends] at hus
  rw [mem_of_mapM_eq_ok hus]
  constructor
  · rintro ⟨o, ho, hx⟩
    obtain ⟨p, hp, rfl, rfl⟩ := spentUtxo_ok hl hd hx
    exact ⟨p, (mem_spentBy hl h₀).2 ⟨hp, ho⟩, rfl⟩
  · rintro ⟨p, hp, rfl⟩
    rw [mem_spentBy hl h₀] at hp
    obtain ⟨x, hx⟩ := exists_of_mapM_eq_ok hus hp.2
    obtain ⟨q, hq, hqo, rfl⟩ := spentUtxo_ok hl hd hx
    obtain rfl := hl.payment_eq_of_outpoint (mem_chainPayments_available h₀ hq) (mem_chainPayments_available h₀ hp.1) hqo
    exact ⟨_, hp.2, hx⟩

theorem getElem?_spentMap {K : Type} [Ord K] [Std.TransOrd K] [Std.LawfulEqOrd K] {κ : Payment → K}
    (hκ : ∀ p q, p ∈ available bs b → q ∈ available bs b → κ p = κ q → p = q)
    {f : OutPoint × OutputLocation × Utxo → K × Utxo}
    (hf : ∀ p : Payment, f (p.outpoint, p.location, p.utxo.utxo) = (κ p, p.utxo.utxo)) {k : K} :
    (ofList (us.map f) compare)[k]? = some u ↔ ∃ p ∈ spentBy bs b, κ p = k ∧ p.utxo.utxo = u := by
  have hmem : ∀ x, x ∈ us.map f ↔ ∃ p ∈ spentBy bs b, (κ p, p.utxo.utxo) = x := by
    intro x
    simp only [List.mem_map, mem_spentUtxos hl h₀ hd hus]
    constructor
    · rintro ⟨-, ⟨p, hp, rfl⟩, rfl⟩
      exact ⟨p, hp, (hf p).symm⟩
    · rintro ⟨p, hp, rfl⟩
      exact ⟨_, ⟨p, hp, rfl⟩, hf p⟩
  rw [KeyedMap.getElem?_ofList_iff, hmem]
  · simp
  · intro k u u' hu hu'
    obtain ⟨p, hp, hpk⟩ := (hmem _).1 hu
    obtain ⟨q, hq, hqk⟩ := (hmem _).1 hu'
    obtain ⟨rfl, rfl⟩ := Prod.mk.inj hpk
    obtain ⟨hkey, rfl⟩ := Prod.mk.inj hqk
    rw [mem_spentBy hl h₀] at hp hq
    rw [hκ p q hp.1 hq.1 hkey.symm]

theorem getElem?_spent {l : OutputLocation} : (ofList (us.map Prod.snd) compare)[l]? = some u ↔
      ∃ p ∈ spentBy bs b, p.location = l ∧ p.utxo.utxo = u :=
  getElem?_spentMap hl h₀ hd hus (fun _ _ hp hq => available_eq_of_location hl h₀ hp hq) fun _ => rfl

theorem getElem?_spentByOutpoint : (ofList (us.map fun x => (x.1, x.2.2)) compare)[o]? = some u ↔
      ∃ p ∈ spentBy bs b, p.outpoint = o ∧ p.utxo.utxo = u :=
  getElem?_spentMap hl h₀ hd hus
    (fun _ _ hp hq => hl.payment_eq_of_outpoint (mem_chainPayments_available h₀ hp) (mem_chainPayments_available h₀ hq))
    fun _ => rfl

theorem outputsOf_spent_perm :
    (outputsOf (ofList (us.map Prod.snd) compare).toList).Perm ((spentBy bs b).map Payment.entry) := by
  refine (List.perm_ext_iff_of_nodup ?_ ?_).2 fun x => ?_
  · refine List.Nodup.of_map Prod.fst ?_
    rw [outputsOf, List.map_map]
    refine List.pairwise_map.2 ((distinct_keys_toList).imp ?_)
    intro x y hc hxy
    exact hc (by rw [show x.1 = y.1 from hxy]; exact Std.ReflOrd.compare_self)
  · refine List.Nodup.map_on ?_ ((available_nodup hl h₀).filter _)
    intro p hp q hq h
    rw [mem_spentBy hl h₀] at hp hq
    exact available_eq_of_location hl h₀ hp.1 hq.1 (Prod.mk.inj h).1
  · simp only [outputsOf, List.mem_map]
    constructor
    · rintro ⟨⟨l, u⟩, hlu, rfl⟩
      rw [mem_toList_iff_getElem?_eq_some, getElem?_spent hl h₀ hd hus] at hlu
      obtain ⟨p, hp, rfl, rfl⟩ := hlu
      exact ⟨p, hp, rfl⟩
    · rintro ⟨p, hp, rfl⟩
      refine ⟨(p.location, p.utxo.utxo), ?_, rfl⟩
      rw [mem_toList_iff_getElem?_eq_some, getElem?_spent hl h₀ hd hus]
      exact ⟨p, hp, rfl, rfl⟩

end

end Zebra.Ledger
