import Zebra.State.Read.Find

namespace Zebra.Ledger

open Lib Std Read ExtTreeMap KeyedMap

/-- The non-finalized chain has the blocks of `hashes` from the height `root` on. -/
structure HoldsFrom (c : ChainInner) (root : Nat) (hashes : List BlockHash) : Prop where
  blocks : ∀ height, c.blocks[height]?.map (·.hash) = if root ≤ height then hashes[height]? else none
  heightByHash : ∀ (hash : BlockHash) (height : Nat), c.heightByHash[hash]? = some height ↔ root ≤ height ∧ hashes[height]? = some hash

/-- The finalized state and the non-finalized chain have one chain of blocks, whose hashes from the
genesis block on are `hashes`. They may overlap. -/
structure HoldsHashes (chain : Option Chain) (db : ZebraDb) (hashes : List BlockHash) : Prop where
  unique : hashes.Nodup
  finalized : ∃ len ≤ hashes.length, (∀ height : Nat, db.hashByHeight[height]? = (hashes.take len)[height]?) ∧
    (∀ (hash : BlockHash) (height : Nat), db.heightByHash[hash]? = some height ↔ (hashes.take len)[height]? = some hash) ∧
    (chain = none → len = hashes.length) ∧
    ∀ c ∈ chain, ∃ root ≤ len, root < hashes.length ∧ HoldsFrom c.inner root hashes

variable {ε : Type} {chain : Option Chain} {db : ZebraDb} {hashes : List BlockHash} {hash : BlockHash} {height : Nat}

theorem height_unique {height' : Nat} (hunique : hashes.Nodup) (h : hashes[height]? = some hash) (h' : hashes[height']? = some hash) :
    height = height' :=
  (List.getElem?_inj (List.getElem?_eq_some_iff.1 h).1 hunique).1 (h.trans h'.symm)

namespace HoldsHashes

section

variable (h : HoldsHashes chain db hashes)
include h

theorem hashByHeight_eq (height : Nat) : hashByHeight chain db height = hashes[height]? := by
  obtain ⟨len, -, hfinalized, -, hnone, hsome⟩ := h.finalized
  rw [hashByHeight, hfinalized]
  cases chain with
  | none =>
    rw [Option.bind_none, Option.none_or, hnone rfl, List.take_length]
  | some c =>
    obtain ⟨root, hroot, -, hc⟩ := hsome c rfl
    rw [Option.bind_some, hc.blocks]
    split
    · cases hget : hashes[height]? with
      | some hash => rfl
      | none => rw [Option.none_or, List.getElem?_take, hget, ite_self]
    · rw [Option.none_or, List.getElem?_take, if_pos (by omega)]

theorem heightByHash_eq_some :
    heightByHash chain db hash = some height ↔ hashes[height]? = some hash := by
  obtain ⟨len, -, -, hfinalized, hnone, hsome⟩ := h.finalized
  have htake : ∀ height, (hashes.take len)[height]? = some hash ↔ height < len ∧ hashes[height]? = some hash := fun height => by
    rw [List.getElem?_take]
    split <;> simp [*]
  rw [heightByHash]
  cases chain with
  | none =>
    rw [Option.bind_none, Option.none_or, hfinalized, hnone rfl, List.take_length]
  | some c =>
    obtain ⟨root, hroot, -, hc⟩ := hsome c rfl
    rw [Option.bind_some, Option.or_eq_some_iff, hc.heightByHash, hfinalized, htake, Option.eq_none_iff_forall_ne_some]
    constructor
    · rintro (⟨-, hget⟩ | ⟨-, -, hget⟩) <;> exact hget
    · intro hget
      by_cases hle : root ≤ height
      · exact .inl ⟨hle, hget⟩
      · refine .inr ⟨fun height' hheight' => ?_, by omega, hget⟩
        obtain ⟨hle', hget'⟩ := (hc.heightByHash hash height').1 hheight'
        have heq := height_unique h.unique hget hget'
        omega

theorem chainContainsHash_iff : chainContainsHash chain db hash = true ↔ hash ∈ hashes := by
  have hlookup : chainContainsHash chain db hash = true ↔ ∃ height, heightByHash chain db hash = some height := by
    rw [← Option.isSome_iff_exists, chainContainsHash, heightByHash, Option.isSome_or, Bool.or_eq_true, Bool.or_eq_true]
    refine or_congr ?_ (by rw [decide_eq_true_eq, mem_iff_isSome_getElem?])
    cases chain with
    | none => simp
    | some c => simp
  rw [hlookup, List.mem_iff_getElem?]
  exact exists_congr fun height => h.heightByHash_eq_some

theorem tipHeight_eq (hne : hashes ≠ []) :
    (tipHeight chain db : Exec ε _) = .ok (some (hashes.length - 1)) := by
  have hpos := List.length_pos_iff.2 hne
  obtain ⟨len, -, hfinalized, -, hnone, hsome⟩ := h.finalized
  cases chain with
  | none =>
    rw [hnone rfl, List.take_length] at hfinalized
    have hlast := (hfinalized (hashes.length - 1)).trans (List.getElem?_eq_getElem (by omega))
    have htip : db.tip = some (hashes.length - 1, _) := getLast?_toList hlast fun k hk => by
      rw [mem_iff_isSome_getElem?, hfinalized, isSome_getElem?] at hk
      omega
    rw [tipHeight, tip, htip]
    rfl
  | some c =>
    obtain ⟨root, -, hroot, hc⟩ := hsome c rfl
    have hlast := hc.blocks (hashes.length - 1)
    rw [if_pos (by omega), List.getElem?_eq_getElem (by omega), Option.map_eq_some_iff] at hlast
    obtain ⟨b, hb, -⟩ := hlast
    have htip : c.inner.blocks.toList.getLast? = some (hashes.length - 1, b) := getLast?_toList hb fun k hk => by
      have hk' := hc.blocks k
      rw [mem_iff_isSome_getElem?] at hk
      obtain ⟨b', hb'⟩ := Option.isSome_iff_exists.1 hk
      rw [hb', Option.map_some] at hk'
      split at hk'
      · have hlt := (List.getElem?_eq_some_iff.1 hk'.symm).1
        omega
      · cases hk'
    rw [tipHeight, tip, ChainInner.nonFinalizedTipHeight, ChainInner.maxBlockHeight, ChainInner.nonFinalizedTipHash, htip]
    rfl

end

end HoldsHashes

def dbOfHashes (network : Network) (hashes : List BlockHash) : ZebraDb :=
  { network
    hashByHeight := ofList (hashes.zipIdx.map Prod.swap) compare
    heightByHash := ofList hashes.zipIdx compare }

theorem holdsHashes_dbOfHashes (network : Network) (hashes : List BlockHash) (hunique : hashes.Nodup) :
    HoldsHashes none (dbOfHashes network hashes) hashes where
  unique := hunique
  finalized := by
    have hmem : ∀ (hash : BlockHash) (height : Nat), (hash, height) ∈ hashes.zipIdx ↔ hashes[height]? = some hash := fun hash height => by
      rw [List.mem_zipIdx_iff_getElem?]
    have hswap : ∀ (height : Nat) (hash : BlockHash), (height, hash) ∈ hashes.zipIdx.map Prod.swap ↔ hashes[height]? = some hash := by
      intro height hash
      rw [List.mem_map, ← hmem]
      refine ⟨?_, fun he => ⟨_, he, rfl⟩⟩
      rintro ⟨⟨_, _⟩, he, heq⟩
      obtain ⟨rfl, rfl⟩ := Prod.mk.inj heq
      exact he
    refine ⟨hashes.length, le_rfl, fun height => ?_, fun hash height => ?_, fun _ => rfl, fun c hc => nomatch hc⟩
    · rw [List.take_length]
      refine Option.ext fun hash => ?_
      rw [dbOfHashes, getElem?_ofList_iff, hswap]
      intro height hash hash' he he'
      exact Option.some.inj (((hswap height hash).1 he).symm.trans ((hswap height hash').1 he'))
    · rw [List.take_length, ← hmem hash height, dbOfHashes, getElem?_ofList_iff]
      intro hash height height' he he'
      exact height_unique hunique ((hmem hash height).1 he) ((hmem hash height').1 he')

end Zebra.Ledger
