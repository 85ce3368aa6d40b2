import Zebra.Ledger.AddressTxIds
import Zebra.Properties.AddressBalances

namespace Zebra.Properties

open Lib Lib.Transition Ledger Std Read Outcome ExtTreeMap

section

variable [ScriptParsing] {net : Network} {bs : Blocks} {b : ContextuallyVerifiedBlock}
  {a a' : Address} {l : TransactionLocation} {hash hash' : TransactionHash}

/-- The transaction at a place of the chain pays an address, or spends an output that paid it. The
genesis block does not count. -/
def TransfersAt (net : Network) (bs : Blocks) (a : Address) (l : TransactionLocation)
    (hash : TransactionHash) : Prop :=
  ∃ b ∈ bs, 0 < b.height ∧ b.height = l.height ∧ b.transactionHashes[l.index]? = some hash ∧
    ((∃ k u, b.newOutputs[(⟨hash, k⟩ : OutPoint)]? = some u ∧ u.utxo.output.address net = some a) ∨
      ∃ o u, (o, l.index) ∈ spendsOf b.block ∧ CreatedIn bs o u ∧ u.utxo.output.address net = some a)

section

variable (hbs : ValidBlocks bs)
include hbs

theorem TransfersAt.hash_eq (h : TransfersAt net bs a l hash) (h' : TransfersAt net bs a' l hash') : hash = hash' := by
  obtain ⟨b, hb, -, hheight, hhash, -⟩ := h
  obtain ⟨b', hb', -, hheight', hhash', -⟩ := h'
  obtain rfl := List.inj_on_of_nodup_map hbs.heights_nodup hb hb' (hheight.trans hheight'.symm)
  exact Option.some.inj (hhash.symm.trans hhash')

theorem transfersAt_iff (hb : b ∈ bs) (hpos : 0 < b.height) (hheight : b.height = l.height) :
    TransfersAt net bs a l hash ↔ TransfersIn net b a l.index hash := by
  constructor
  · rintro ⟨b', hb', -, hheight', hhash, hor⟩
    obtain rfl := List.inj_on_of_nodup_map hbs.heights_nodup hb hb' (hheight.trans hheight'.symm)
    refine ⟨hhash, hor.imp_right ?_⟩
    rintro ⟨o, u, ho, hu, ha⟩
    obtain ⟨u', b'', hu', hb'', hnew, -⟩ := hbs.created_of_spent hb ho
    obtain rfl := hbs.utxo_eq hu ⟨b'', hb'', hnew⟩
    exact ⟨o, u, ho, hu', ha⟩
  · rintro ⟨hhash, hor⟩
    refine ⟨b, hb, hpos, hheight, hhash, hor.imp_right ?_⟩
    rintro ⟨o, u, ho, hu, ha⟩
    obtain ⟨u', b', hu', hb', hnew, -⟩ := hbs.created_of_spent hb ho
    obtain rfl := Option.some.inj (hu.symm.trans hu')
    exact ⟨o, u, ho, ⟨b', hb', hnew⟩, ha⟩

end

/-- The ids are exactly those of the transactions in the range that concern the addresses, where
the transactions of every address are those up to the height `heightOf`. -/
def HoldsTxIds (net : Network) (bs : Blocks) (addresses : List Address) (heightOf : Address → Nat)
    (query : QueryHeightRange) (ids : TxIds) : Prop :=
  ∀ (l : TransactionLocation) (hash : TransactionHash), ids[l]? = some hash ↔ ∃ a ∈ addresses,
    TransfersAt net bs a l hash ∧ l.height ≤ heightOf a ∧ query.contains l.height = true

variable {addresses : List Address} {tipOf : Address → Nat} {query : QueryHeightRange} {finalizedTxIds chainTxIds : TxIds}

theorem partialFinalizedTransparentTxIds_holds {ε : Type} (hbs : ValidBlocks bs) {db : Address → ZebraDb}
    (hread : ∀ a ∈ addresses, ∃ ids, ((db a).addressTxIds a query : Exec ε TxIds) = .ok ids ∧
      HoldsTxIds net bs [a] tipOf query ids) :
    ∃ ids, (ZebraDb.partialFinalizedTransparentTxIds db addresses query : Exec ε TxIds) = .ok ids ∧
      HoldsTxIds net bs addresses tipOf query ids := by
  obtain ⟨r, hr, hspec⟩ := exists_txIds_mapM (ε := ε) (s := addresses) (f := fun a => (db a).addressTxIds a query)
    (P := fun a l hash => TransfersAt net bs a l hash ∧ l.height ≤ tipOf a ∧ query.contains l.height = true)
    (fun a ha => by
      obtain ⟨ids, hids, hholds⟩ := hread a ha
      refine ⟨ids, hids, fun l hash => ?_⟩
      rw [hholds l hash]
      simp)
    (fun _ _ _ _ l hash hash' hP hP' => hP.1.hash_eq hbs hP'.1)
  exact ⟨_, by rw [ZebraDb.partialFinalizedTransparentTxIds, hr, ok_bind]; rfl, hspec⟩

theorem applyTxIdChanges_holds (hbs : ValidBlocks bs) (inChain : Nat → Prop) {last : Nat}
    (hread : HoldsTxIds net bs addresses tipOf query finalizedTxIds)
    (hchain : ∀ (l : TransactionLocation) (hash : TransactionHash), chainTxIds[l]? = some hash ↔
      ∃ a ∈ addresses, TransfersAt net bs a l hash ∧ inChain l.height ∧ query.contains l.height = true)
    (hlast : ∀ a ∈ addresses, ∀ height, height ≤ tipOf a ∨ inChain height ↔ height ≤ last) :
    HoldsTxIds net bs addresses (fun _ => last) query (applyTxIdChanges finalizedTxIds chainTxIds) := by
  have hentry : ∀ l hash, (l, hash) ∈ finalizedTxIds.toList ++ chainTxIds.toList ↔ ∃ a ∈ addresses,
      TransfersAt net bs a l hash ∧ l.height ≤ last ∧ query.contains l.height = true := by
    intro l hash
    rw [List.mem_append, mem_toList_iff_getElem?_eq_some, mem_toList_iff_getElem?_eq_some,
      hread l hash, hchain l hash]
    constructor
    · rintro (⟨a, ha, ht, hheight, hin⟩ | ⟨a, ha, ht, hheight, hin⟩)
      · exact ⟨a, ha, ht, (hlast a ha _).1 (.inl hheight), hin⟩
      · exact ⟨a, ha, ht, (hlast a ha _).1 (.inr hheight), hin⟩
    · rintro ⟨a, ha, ht, hheight, hin⟩
      rcases (hlast a ha _).2 hheight with hheight | hheight
      · exact .inl ⟨a, ha, ht, hheight, hin⟩
      · exact .inr ⟨a, ha, ht, hheight, hin⟩
  intro l hash
  rw [applyTxIdChanges, KeyedMap.getElem?_ofList_iff, hentry]
  intro l hash hash' h h'
  obtain ⟨a, -, ht, -⟩ := (hentry l hash).1 h
  obtain ⟨a', -, ht', -⟩ := (hentry l hash').1 h'
  exact ht.hash_eq hbs ht'

def transfersOf (net : Network) (bs : Blocks) (a : Address) :
    List (TransactionLocation × TransactionHash) :=
  (bs.filter fun b => 0 < b.height).flatMap fun b => (b.transactionHashes.zipIdx.filter fun x =>
    b.newOutputs.toList.any (fun y => y.1.hash = x.1 ∧ y.2.utxo.output.address net = some a) ||
    (spendsOf b.block).any fun y => y.2 = x.2 ∧ ∃ b' ∈ bs, ∃ u ∈ b'.newOutputs[y.1]?, u.utxo.output.address net = some a).map
      fun x => (⟨b.height, x.2⟩, x.1)

theorem mem_transfersOf : (l, hash) ∈ transfersOf net bs a ↔ TransfersAt net bs a l hash := by
  simp only [transfersOf, List.mem_flatMap, List.mem_filter, List.mem_map, Prod.exists, Prod.mk.injEq, TransfersAt,
    Bool.or_eq_true, List.any_eq_true, decide_eq_true_iff, mem_toList_iff_getElem?_eq_some,
    List.mem_zipIdx_iff_getElem?, CreatedIn]
  constructor
  · rintro ⟨b, ⟨hb, hpos⟩, _, i, ⟨hhash, hor⟩, rfl, rfl⟩
    refine ⟨b, hb, hpos, rfl, hhash, hor.imp ?_ ?_⟩
    · rintro ⟨o, u, hu, rfl, ha⟩
      exact ⟨o.index, u, hu, ha⟩
    · rintro ⟨o, _, ho, rfl, b', hb', u, hu, ha⟩
      exact ⟨o, u, ho, ⟨b', hb', hu⟩, ha⟩
  · rintro ⟨b, hb, hpos, hheight, hhash, hor⟩
    refine ⟨b, ⟨hb, hpos⟩, hash, l.index, ⟨hhash, hor.imp ?_ ?_⟩, by rw [hheight], rfl⟩
    · rintro ⟨k, u, hu, ha⟩
      exact ⟨⟨hash, k⟩, u, hu, rfl, ha⟩
    · rintro ⟨o, u, ho, ⟨b', hb', hu⟩, ha⟩
      exact ⟨o, _, ho, rfl, b', hb', u, hu, ha⟩

theorem holdsTxIds_of_toList {ids : TxIds} (h : ids.toList = (transfersOf net bs a).filter fun x =>
    x.1.height ≤ tipOf a ∧ query.contains x.1.height = true) : HoldsTxIds net bs [a] tipOf query ids := by
  intro l hash
  rw [← mem_toList_iff_getElem?_eq_some, h, List.mem_filter, mem_transfersOf]
  simp

variable [MerkleHashing] [ChainHistory] {c : Chain}

theorem partialTransparentTxIds_segment {ε : Type} {L : Lineage net} {root tip : Nat} (hbs : ValidBlocks bs)
    (hc : CoversHeights net bs c L root tip) (addresses : List Address) (query : QueryHeightRange) :
    ∃ ids, (c.partialTransparentTxIds addresses query : Exec ε TxIds) = .ok ids ∧
      ∀ (l : TransactionLocation) (hash : TransactionHash), ids[l]? = some hash ↔ ∃ a ∈ addresses,
        TransfersAt net bs a l hash ∧ (root ≤ l.height ∧ l.height ≤ tip) ∧ query.contains l.height = true := by
  have hseg := hc.contiguous
  have hdistinct : (L.blocks.flatMap (·.transactionHashes)).Nodup :=
    hbs.distinct.sublist (hseg.sublist.flatMap _)
  obtain ⟨ids, hids, hspec⟩ := partialTransparentTxIds_spec (ε := ε) hc.refines.inner.transactions
    (fun b hb => hbs.listsOutputs b (hseg.subset hb)) rfl (hbs.heights_nodup.sublist (hseg.sublist.map _)) hdistinct
    addresses query
  refine ⟨ids, hids, fun l hash => ?_⟩
  rw [hspec l hash]
  refine exists_congr fun a => and_congr_right fun _ => ?_
  rw [← and_assoc]
  refine and_congr_left fun _ => ?_
  constructor
  · rintro ⟨b, hb, hheight, hin⟩
    have hbounds := (hc.mem_iff b (hseg.subset hb)).1 hb
    exact ⟨(transfersAt_iff hbs (hseg.subset hb) (hc.root_pos.trans_le hbounds.1) hheight).2 hin, hheight ▸ hbounds⟩
  · rintro ⟨ht, hbounds⟩
    obtain ⟨b, hb, hb₀, hheight, -⟩ := id ht
    exact ⟨b, (hc.mem_iff b hb).2 (hheight ▸ hbounds), hheight, (transfersAt_iff hbs hb hb₀ hheight).1 ht⟩

omit [MerkleHashing] [ChainHistory] [ScriptParsing] in
theorem txIds_ordered (ids : TxIds) : ids.toList.Pairwise fun x y =>
    x.1.height < y.1.height ∨ x.1.height = y.1.height ∧ x.1.index < y.1.index := by
  have hcompare (l l' : TransactionLocation) : compare l l' = (compare l.height l'.height).then (compare l.index l'.index) := by
    change List.compareLex compare l.key l'.key = _
    simp [TransactionLocation.key, List.compareLex_cons_cons, List.compareLex_nil_nil]
  refine ordered_keys_toList.imp fun {x y} hlt => ?_
  rwa [hcompare, Ordering.then_eq_lt, Nat.compare_eq_lt, Nat.compare_eq_eq, Nat.compare_eq_lt] at hlt

/-- A query of the address transactions is exact, although every address may have been read at
another finalized tip: it fails if several addresses were read while blocks were finalized that
the chain does not cover, and otherwise it gives the transactions up to one height, which is
neither below the finalized tip at the start nor below the tip of the chain. -/
theorem address_tx_ids_exact {start stop : Nat} (hle : start ≤ stop) {chain : Option Chain} {read : FinalizedRead}
    (hbs : ValidBlocks bs) (hchain : ∀ c ∈ chain, SegmentOf net bs start c)
    (hbefore : read.before.finalizedTipHeight = some start) (hafter : read.after.finalizedTipHeight = some stop)
    (htips : ∀ a ∈ addresses, start ≤ tipOf a ∧ tipOf a ≤ stop)
    (hread : ∀ a ∈ addresses, ∃ ids, ((read.during a).addressTxIds a query : Exec String TxIds) = .ok ids ∧
      HoldsTxIds net bs [a] tipOf query ids) : (start < stop ∧ 1 < addresses.length ∧
      (∀ c ∈ chain, ∃ tip, (c.inner.nonFinalizedTipHeight : Exec String _) = .ok tip ∧ tip < stop) ∧
      ∃ message, attemptTransparentTxIds chain addresses query read = .fail message) ∨
    ∃ ids last, attemptTransparentTxIds chain addresses query read = .ok ids ∧ start ≤ last ∧
      (∀ c ∈ chain, ∃ tip, (c.inner.nonFinalizedTipHeight : Exec String _) = .ok tip ∧ tip ≤ last) ∧
      HoldsTxIds net bs addresses (fun _ => last) query ids ∧
      ids.toList.Pairwise fun x y => x.1.height < y.1.height ∨ x.1.height = y.1.height ∧ x.1.index < y.1.index := by
  obtain ⟨finalizedTxIds, hfinalized, hholds⟩ := partialFinalizedTransparentTxIds_holds hbs hread
  have hattempt : attemptTransparentTxIds chain addresses query read =
      applyTxIdChanges finalizedTxIds <$> chainTransparentTxIdChanges chain addresses (some (start, stop)) query := by
    rw [attemptTransparentTxIds, finalizedTransparentTxIds, hfinalized, hbefore, hafter]
    rfl
  -- the addresses were read at one tip, if there is only one of them or only one tip
  have hone : addresses.length ≤ 1 ∨ stop < start + 1 → ∃ t, start ≤ t ∧ t ≤ stop ∧ ∀ a ∈ addresses, tipOf a = t := by
    rintro (hshort | hsame)
    · rcases addresses with _ | ⟨a, _ | ⟨a', rest⟩⟩
      · exact ⟨start, le_rfl, hle, by simp⟩
      · obtain ⟨hlow, hhigh⟩ := htips a List.mem_cons_self
        exact ⟨tipOf a, hlow, hhigh, by simp⟩
      · rw [List.length_cons, List.length_cons] at hshort
        omega
    · refine ⟨start, le_rfl, hle, fun a ha => ?_⟩
      have := htips a ha
      omega
  have hempty {t : Nat} (ht : ∀ a ∈ addresses, tipOf a = t) :
      HoldsTxIds net bs addresses (fun _ => t) query (applyTxIdChanges finalizedTxIds ∅) :=
    applyTxIdChanges_holds hbs (fun _ => False) hholds (by simp) fun a ha height => by simp [ht a ha]
  rw [hattempt]
  cases chain with
  | none =>
    rw [chainTransparentTxIdChanges]
    by_cases hconsistent : addresses.length ≤ 1 ∨ stop < start + 1
    · obtain ⟨t, hlow, -, ht⟩ := hone hconsistent
      rw [if_pos hconsistent]
      exact .inr ⟨_, t, rfl, hlow, by simp, hempty ht, txIds_ordered _⟩
    · rw [if_neg hconsistent]
      exact .inl ⟨by omega, by omega, by simp, _, rfl⟩
  | some c =>
    obtain ⟨L, root, tip, hc, hstart⟩ := (hchain c rfl).exists_coversHeights hbs
    have htip := hc.tipHeight (ε := String)
    obtain ⟨chainTxIds, hchainIds, hspec⟩ := partialTransparentTxIds_segment (ε := String) hbs hc addresses query
    have happly {last : Nat} (hlast : ∀ a ∈ addresses, max (tipOf a) tip = last) :
        HoldsTxIds net bs addresses (fun _ => last) query (applyTxIdChanges finalizedTxIds chainTxIds) := by
      refine applyTxIdChanges_holds hbs (fun height => root ≤ height ∧ height ≤ tip) hholds hspec fun a ha height => ?_
      have := htips a ha
      have := hlast a ha
      omega
    rw [chainTransparentTxIdChanges, overlappingTxIdChanges, hc.rootHeight, htip, ok_bind, ok_bind,
      check, if_pos hstart, ok_bind]
    by_cases hlt : start < stop
    · rw [if_neg (show ¬ stop < start + 1 by omega)]
      by_cases hshort : 1 < addresses.length ∧ tip < stop
      · rw [if_pos hshort]
        exact .inl ⟨hlt, hshort.1, by simpa [htip] using hshort.2, _, rfl⟩
      · have hoverlap : addresses.length ≤ 1 ∨
            ∀ height ∈ List.range' (start + 1) (stop - start), height ∈ c.inner.blocks := by
          refine or_iff_not_imp_left.2 fun hmany height hheight => ?_
          rw [List.mem_range'_1] at hheight
          exact hc.mem_blocks height (by omega) (by omega)
        rw [if_neg hshort, check, if_pos hoverlap, ok_bind, hchainIds]
        obtain ⟨last, hlow, hhigh, hlast⟩ : ∃ last, start ≤ last ∧ tip ≤ last ∧ ∀ a ∈ addresses, max (tipOf a) tip = last := by
          by_cases hmany : 1 < addresses.length
          · refine ⟨tip, by omega, le_rfl, fun a ha => ?_⟩
            have := htips a ha
            omega
          · obtain ⟨t, hlow, -, ht⟩ := hone (.inl (by omega))
            exact ⟨max t tip, by omega, by omega, fun a ha => by rw [ht a ha]⟩
        exact .inr ⟨_, last, rfl, hlow, by simpa [htip] using hhigh, happly hlast, txIds_ordered _⟩
    · obtain ⟨t, hlow, hhigh, ht⟩ := hone (.inr (by omega))
      rw [if_pos (show stop < start + 1 by omega)]
      by_cases hshort : tip ≤ stop
      · rw [if_pos hshort]
        exact .inr ⟨_, t, rfl, hlow, by simpa [htip] using (by omega : tip ≤ t), hempty ht, txIds_ordered _⟩
      · rw [if_neg hshort, hchainIds]
        refine .inr ⟨_, tip, rfl, by omega, by simp [htip], happly fun a ha => ?_, txIds_ordered _⟩
        rw [ht a ha]
        omega

end

section

open Sample

/-- Address 1 is read before the block at height 3 is finalized, and address 2 afterwards. -/
def flowRead (db db' : ZebraDb) : FinalizedRead :=
  { before := db, during := fun a => if a = ⟨.testnet, false, 1⟩ then db else db', after := db' }

def flowTip (a : Address) : Nat := if a = ⟨.testnet, false, 1⟩ then 2 else 3

/-- The transaction that address 1 pays to itself is not in its read, and the cached chain adds it. -/
theorem flow_tx_ids : ∃ db db' c₀ c ids last,
    writeFlow ((finalizedFlow ⟨100, by decide⟩).take 3) { network := network } = .ok db ∧
    writeFlow (finalizedFlow ⟨100, by decide⟩) { network := network } = .ok db' ∧ flowChain ⟨100, by decide⟩ = .ok c₀ ∧
    Run Chain.Step c₀ [.push (keptBlock ⟨100, by decide⟩), .push (passedBlock ⟨100, by decide⟩)] c ∧
    attemptTransparentTxIds (some c) payees ⟨1, 10⟩ (flowRead db db') = .ok ids ∧
    HoldsTxIds network (flow ⟨100, by decide⟩) payees (fun _ => last) ⟨1, 10⟩ ids ∧
    ids[(⟨3, 1⟩ : TransactionLocation)]? = some 302 := by
  have hv : (⟨100, by decide⟩ : Amount .nonNegative) ∈ flowAmounts := List.mem_cons_self
  obtain ⟨db', c₀, c, hdb', hstop, hnew, hrun, -, hsegment, hmax, -⟩ := flow_run _ hv
  have hread₁ : ∃ db ∈ (writeFlow ((finalizedFlow ⟨100, by decide⟩).take 3) { network := network }).toOption,
      db.finalizedTipHeight = some 2 ∧ ∃ ids ∈ (db.addressTxIds (ε := String) ⟨.testnet, false, 1⟩ ⟨1, 10⟩).toOption,
        ids.toList = (transfersOf network (flow ⟨100, by decide⟩) ⟨.testnet, false, 1⟩).filter fun x =>
          x.1.height ≤ 2 ∧ (⟨1, 10⟩ : QueryHeightRange).contains x.1.height = true := by
    decide +kernel
  have hread₂ : ∃ db ∈ (writeFlow (finalizedFlow ⟨100, by decide⟩) { network := network }).toOption,
      ∃ ids ∈ (db.addressTxIds (ε := String) ⟨.testnet, false, 2⟩ ⟨1, 10⟩).toOption,
        ids.toList = (transfersOf network (flow ⟨100, by decide⟩) ⟨.testnet, false, 2⟩).filter fun x =>
          x.1.height ≤ 3 ∧ (⟨1, 10⟩ : QueryHeightRange).contains x.1.height = true := by
    decide +kernel
  obtain ⟨db, hdb, hstart, ids₁, hids₁, hlist₁⟩ := hread₁
  obtain ⟨db₂, hdb₂, ids₂, hids₂, hlist₂⟩ := hread₂
  obtain rfl := Except.ok.inj (hdb'.symm.trans (toOption_eq_some.1 hdb₂))
  have hdb := toOption_eq_some.1 hdb
  have htip : (c.inner.nonFinalizedTipHeight : Exec String _) = .ok 4 := expect_eq_ok.2 hmax
  have hbs := (flow_valid _ hv).toValidBlocks
  have hread : ∀ a ∈ payees, ∃ ids, (((flowRead db db').during a).addressTxIds a ⟨1, 10⟩ : Exec String TxIds) = .ok ids ∧
      HoldsTxIds network (flow ⟨100, by decide⟩) [a] flowTip ⟨1, 10⟩ ids := by
    intro a ha
    rcases List.mem_cons.1 ha with rfl | ha
    · exact ⟨ids₁, toOption_eq_some.1 hids₁, holdsTxIds_of_toList hlist₁⟩
    · obtain rfl := List.mem_singleton.1 ha
      exact ⟨ids₂, toOption_eq_some.1 hids₂, holdsTxIds_of_toList hlist₂⟩
  rcases address_tx_ids_exact (show 2 ≤ 3 by decide) hbs
      (fun _ hc => by rw [← Option.mem_some.1 hc]; exact hsegment) hstart hstop (by decide) hread with
    ⟨-, -, hshort, -⟩ | ⟨ids, last, hok, -, hlast, hholds, -⟩
  · obtain ⟨tip, htip', hlt⟩ := hshort c rfl
    obtain rfl := Except.ok.inj (htip.symm.trans htip')
    omega
  · obtain ⟨tip, htip', hle⟩ := hlast c rfl
    obtain rfl := Except.ok.inj (htip.symm.trans htip')
    refine ⟨db, db', c₀, c, ids, last, hdb, hdb', hnew, hrun, hok, hholds, (hholds _ _).2 ?_⟩
    have hkept : (keptBlock ⟨100, by decide⟩).transactionHashes[1]? = some 302 ∧
        ∃ u ∈ (keptBlock ⟨100, by decide⟩).newOutputs[(⟨302, 0⟩ : OutPoint)]?,
          u.utxo.output.address network = some ⟨.testnet, false, 1⟩ := by decide +kernel
    obtain ⟨hhash, u, hu, ha⟩ := hkept
    exact ⟨⟨.testnet, false, 1⟩, List.mem_cons_self, ⟨keptBlock ⟨100, by decide⟩, by simp [flow, finalizedFlow], by decide, rfl,
      hhash, .inl ⟨0, u, hu, ha⟩⟩, (show 3 ≤ last by omega), rfl⟩

end

end Zebra.Properties
