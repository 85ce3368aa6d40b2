import Zebra.State.TransparentBatch

namespace Zebra.Ledger

open Lib MergeStore Outcome

section

variable {C : Constraint} {ε : Type}

theorem saturatingAdd_assoc (a b c : Nat) : saturatingAdd (saturatingAdd a b) c = saturatingAdd a (saturatingAdd b c) := by
  simp only [saturatingAdd]
  omega

theorem zero_saturatingAdd {a : Nat} (h : a < 2 ^ 64) : saturatingAdd 0 a = a := by
  rw [saturatingAdd]
  omega

theorem saturatingAdd_zero {a : Nat} (h : a < 2 ^ 64) : saturatingAdd a 0 = a := by
  rw [saturatingAdd]
  omega

theorem saturatingAdd_right (a b c : Nat) : saturatingAdd a (saturatingAdd b c) = saturatingAdd a (b + c) := by
  simp only [saturatingAdd]
  omega

def stored (x : AddressBalanceLocationInner C) : AddressBalanceLocationInner C := { x with location := x.location.onDisk }

theorem asBytes_onDisk (l : OutputLocation) : l.onDisk.asBytes = l.asBytes := by
  simp [OutputLocation.asBytes, OutputLocation.onDisk]

theorem asBytes_stored (x : AddressBalanceLocationInner C) : (stored x).asBytes = x.asBytes := by
  simp [AddressBalanceLocationInner.asBytes, stored, asBytes_onDisk]

theorem fromBytes_asBytes (x : AddressBalanceLocationInner C) {D : Constraint} (h : D.Contains x.balance.zatoshis) :
    (AddressBalanceLocationInner.fromBytes D x.asBytes : Exec ε _) =
      .ok ⟨⟨x.balance.zatoshis, h⟩, x.received, x.location.onDisk, x.received_lt⟩ := by
  have hb := Bytes.length_ofInt 8 x.balance.zatoshis
  have hl := x.location.length_asBytes
  have hr := Bytes.length_toLE 8 x.received
  have hlen : x.asBytes.length = 24 := by simp [AddressBalanceLocationInner.asBytes]
  have hrange : -(256 ^ 8) ≤ 2 * x.balance.zatoshis ∧ 2 * x.balance.zatoshis < 256 ^ 8 := by
    obtain ⟨hlow, hhigh⟩ := h.negativeAllowed
    simp only [Constraint.lower, Constraint.upper, maxMoney, coin] at hlow hhigh
    omega
  have htake : x.asBytes.take 8 = Bytes.ofInt 8 x.balance.zatoshis := by
    rw [AddressBalanceLocationInner.asBytes, List.append_assoc, List.take_left' hb]
  have hmid : (x.asBytes.drop 8).take 8 = x.location.asBytes := by
    rw [AddressBalanceLocationInner.asBytes, List.append_assoc, List.drop_left' hb, List.take_left' hl]
  have hend : (x.asBytes.drop 16).take 8 = Bytes.toLE 8 x.received := by
    rw [AddressBalanceLocationInner.asBytes, List.drop_left' (by simp), List.take_of_length_le hr.le]
  have hok := Amount.tryFrom_of_contains h
  -- the bytes themselves would be evaluated to compare the sums that they are read as
  generalize x.asBytes = bytes at hlen htake hmid hend ⊢
  simp only [AddressBalanceLocationInner.fromBytes, hlen, htake, hmid, hend, Bytes.toInt_ofInt hrange.1 hrange.2, hok,
    Bytes.ofLE_toLE (show x.received < 256 ^ 8 from x.received_lt), OutputLocation.fromBytes_asBytes]
  simpa [check, unwrap] using x.received_lt

theorem fromBytes_asBytes_self (x : AddressBalanceLocationInner C) :
    (AddressBalanceLocationInner.fromBytes C x.asBytes : Exec ε _) = .ok (stored x) :=
  fromBytes_asBytes x x.balance.valid

end

def balanceOf (v : Option AddressBalanceLocation) : Int := (v.map fun x => x.balance.zatoshis).getD 0

def receivedOf (v : Option AddressBalanceLocation) : Nat := (v.map (·.received)).getD 0

theorem balanceOf_contains (v : Option AddressBalanceLocation) : Constraint.nonNegative.Contains (balanceOf v) := by
  cases v with
  | none => exact Constraint.zero_mem _
  | some x => exact x.balance.valid

theorem receivedOf_lt (v : Option AddressBalanceLocation) : receivedOf v < 2 ^ 64 := by
  cases v with
  | none => exact Nat.two_pow_pos 64
  | some x => exact x.received_lt

structure Changes (v : Option AddressBalanceLocation) (x : AddressBalanceLocation) (c : AddressBalanceLocationChange) :
    Prop where
  balance : c.balance.zatoshis = x.balance.zatoshis - balanceOf v
  received : x.received = saturatingAdd (receivedOf v) c.received
  location : c.location = x.location
  same : ∀ y ∈ v, y.location = x.location

theorem contains_difference {a b : Int} (ha : Constraint.nonNegative.Contains a) (hb : Constraint.nonNegative.Contains b) :
    Constraint.negativeAllowed.Contains (a - b) := by
  simp only [Constraint.Contains, Constraint.lower, Constraint.upper] at ha hb ⊢
  omega

namespace Changes

variable {v : Option AddressBalanceLocation} {x y : AddressBalanceLocation} {c d : AddressBalanceLocationChange}

theorem add (h : Changes v x c) (h' : Changes (some x) y d) : ∃ e, c.add d = .ok e ∧ Changes v y e := by
  have hsum : c.balance.zatoshis + d.balance.zatoshis = y.balance.zatoshis - balanceOf v := by
    have := h.balance
    have := h'.balance
    simp only [balanceOf, Option.map_some, Option.getD_some] at this
    simp only [balanceOf] at *
    omega
  have hvalid := contains_difference y.balance.valid (balanceOf_contains v)
  have hadd : c.balance.add d.balance = .ok ⟨y.balance.zatoshis - balanceOf v, hvalid⟩ := by
    rw [Amount.add, hsum]
    exact Amount.tryFrom_of_contains hvalid
  have hloc : c.location = d.location := by rw [h.location, h'.location, h'.same x rfl]
  refine ⟨⟨⟨_, hvalid⟩, saturatingAdd c.received d.received, c.location, saturatingAdd_lt _ _⟩, ?_, rfl, ?_, ?_, ?_⟩
  · rw [AddressBalanceLocationInner.add, hadd, ← hloc, OutputLocation.min_self]
    rfl
  · rw [h'.received, receivedOf, Option.map_some, Option.getD_some, h.received, saturatingAdd_assoc]
  · rw [h.location, h'.same x rfl]
  · intro z hz
    rw [h.same z hz, h'.same x rfl]

theorem asBytes_eq (h : Changes none x c) : c.asBytes = x.asBytes := by
  have hb := h.balance
  have hr := h.received
  simp only [balanceOf, receivedOf, Option.map_none, Option.getD_none, sub_zero] at hb hr
  rw [zero_saturatingAdd c.received_lt] at hr
  rw [AddressBalanceLocationInner.asBytes, AddressBalanceLocationInner.asBytes, hb, hr, h.location]

theorem stored (h : Changes v x c) (hv : ∀ y ∈ v, y.location.onDisk = y.location) :
    Changes v (stored x) (stored c) where
  balance := h.balance
  received := h.received
  location := congrArg OutputLocation.onDisk h.location
  same y hy := by
    rw [← hv y hy, h.same y hy]
    rfl

end Changes

def HoldsBalance (v : Option AddressBalanceLocation) (bytes : Bytes) : Prop :=
  ∃ x, v = some x ∧ x.location.onDisk = x.location ∧ bytes = x.asBytes

def CarriesBalance (v w : Option AddressBalanceLocation) (bytes : Bytes) : Prop :=
  ∃ x c, w = some x ∧ x.location.onDisk = x.location ∧ Changes v x c ∧ bytes = c.asBytes

def MergesBalance (ε : Type) (base : Option Bytes) (operands : List Bytes) (bytes : Bytes) : Prop :=
  (fetchAddBalanceAndReceived base operands : Exec ε _) = .ok (some bytes)

variable {ε : Type} {v w : Option AddressBalanceLocation} {x : AddressBalanceLocation} {c : AddressBalanceLocationChange}
  {ys : List Bytes}

theorem Changes.fromBytes (h : Changes v x c) (hx : x.location.onDisk = x.location) :
    (AddressBalanceLocationInner.fromBytes .negativeAllowed c.asBytes : Exec ε _) = .ok c := by
  rw [fromBytes_asBytes_self, Ledger.stored, h.location, hx, ← h.location]

theorem sum_of_path (hx : x.location.onDisk = x.location) (h : Changes v x c) (hp : Path CarriesBalance (some x) ys w) :
    ∃ cs e y, (ys.mapM (AddressBalanceLocationInner.fromBytes .negativeAllowed) : Exec ε _) = .ok cs ∧
      (cs.foldlM (fun a b => unwrap (a.add b) .mergeOverflow) c : Exec ε _) = .ok e ∧
      w = some y ∧ y.location.onDisk = y.location ∧ Changes v y e := by
  induction ys generalizing x c with
  | nil =>
    cases hp
    exact ⟨[], c, x, rfl, rfl, rfl, hx, h⟩
  | cons b ys ih =>
    obtain _ | ⟨⟨x', d, rfl, hx', hd, rfl⟩, hp⟩ := hp
    obtain ⟨e, he, hve⟩ := h.add hd
    obtain ⟨cs, f, y, hcs, hf, hrest⟩ := ih hx' hve hp
    refine ⟨d :: cs, f, y, ?_, ?_, hrest⟩
    · rw [List.mapM_cons, hd.fromBytes hx', ok_bind, hcs]
      rfl
    · rw [List.foldlM_cons, he]
      exact hf

theorem mergesBalance_of_path {b : Bytes} (hx : x.location.onDisk = x.location) (h : Changes v x c)
    (hp : Path CarriesBalance (some x) ys w) :
    ∃ e y, w = some y ∧ y.location.onDisk = y.location ∧ Changes v y e ∧
      MergesBalance ε none (c.asBytes :: ys) e.asBytes ∧
      (b = c.asBytes → MergesBalance ε (some b) ys e.asBytes) := by
  obtain ⟨cs, e, y, hcs, he, rfl, hy, hve⟩ := sum_of_path (ε := ε) hx h hp
  have hmerge : (fetchAddBalanceAndReceived none (c.asBytes :: ys) : Exec ε _) = .ok (some e.asBytes) := by
    rw [fetchAddBalanceAndReceived, Option.toList_none, List.nil_append, List.mapM_cons, h.fromBytes hx,
      ok_bind, hcs]
    simp [he]
  refine ⟨e, y, rfl, hy, hve, hmerge, ?_⟩
  rintro rfl
  exact hmerge

theorem changes_none (x : AddressBalanceLocation) :
    Changes none x ⟨x.balance.widen, x.received, x.location, x.received_lt⟩ where
  balance := by simp [balanceOf]
  received := (zero_saturatingAdd x.received_lt).symm
  location := rfl
  same := by simp

theorem balanceLaws : Laws (MergesBalance ε) CarriesBalance HoldsBalance none where
  carries {a b xs} hne hp := by
    obtain _ | ⟨⟨x, c, rfl, hx, hc, rfl⟩, hp⟩ := hp
    · exact absurd rfl hne
    · obtain ⟨e, y, rfl, hy, he, hm, -⟩ := mergesBalance_of_path (b := []) hx hc hp
      exact ⟨_, hm, y, e, rfl, hy, he, rfl⟩
  holds {a b bytes xs} hh hp := by
    obtain ⟨x, rfl, hx, rfl⟩ := hh
    obtain ⟨e, y, rfl, hy, he, -, hm⟩ := mergesBalance_of_path hx (changes_none x) hp
    exact ⟨_, hm (changes_none x).asBytes_eq.symm, y, rfl, hy, he.asBytes_eq⟩
  start {b xs} hne hp := by
    obtain _ | ⟨⟨x, c, rfl, hx, hc, rfl⟩, hp⟩ := hp
    · exact absurd rfl hne
    · obtain ⟨e, y, rfl, hy, he, hm, -⟩ := mergesBalance_of_path (b := []) hx hc hp
      exact ⟨_, hm, y, rfl, hy, he.asBytes_eq⟩
  functional h h' := Option.some.inj (Except.ok.inj (h.symm.trans h'))
  nonempty h := by
    have h := Except.ok.inj h
    simp at h

abbrev RepresentsBalance (s : MergeStore Bytes) (v : Option AddressBalanceLocation) : Prop :=
  Represents CarriesBalance HoldsBalance none s v

theorem RepresentsBalance.onDisk {s : MergeStore Bytes} (h : RepresentsBalance s v) : ∀ y ∈ v, y.location.onDisk = y.location := by
  obtain ⟨a, hbase, hempty, hp⟩ := h
  have hstart : ∀ y ∈ a, y.location.onDisk = y.location := by
    intro y hy
    cases hb : s.base with
    | none => simp [hempty hb] at hy
    | some b =>
      obtain ⟨x, rfl, hx, -⟩ := hbase b hb
      rwa [← Option.some.inj hy]
  clear hbase hempty
  generalize s.pending = ys at hp
  induction hp with
  | nil => exact hstart
  | cons hc _ ih =>
    obtain ⟨x, c, rfl, hx, -⟩ := hc
    exact ih fun y hy => by rwa [← Option.some.inj hy]

theorem RepresentsBalance.get {s : MergeStore Bytes} (h : RepresentsBalance s v) :
    (BalanceTable.get s : Exec ε _) = .ok (v.map fun x => x.asBytes) := by
  unfold BalanceTable.get
  split
  · rename_i hnil
    obtain ⟨a, hbase, hempty, hp⟩ := h
    rw [hnil] at hp
    cases hp
    cases hb : s.base with
    | none => rw [hempty hb]; rfl
    | some b =>
      obtain ⟨x, rfl, -, rfl⟩ := hbase b hb
      rfl
  · rename_i hne
    obtain ⟨y, hy, x, rfl, -, rfl⟩ := h.read (balanceLaws (ε := ε)) fun _ => hne
    exact hy

theorem addressBalanceLocation_eq {t : BalanceTable} {a : Address} (h : RepresentsBalance (t[a]?.getD {}) v) :
    (t.addressBalanceLocation a : Exec ε _) = .ok v := by
  rw [BalanceTable.addressBalanceLocation, h.get, ok_bind]
  cases v with
  | none => rfl
  | some x =>
    simp only [Option.map_some, fromBytes_asBytes_self, Ledger.stored, h.onDisk x rfl]
    rfl

end Zebra.Ledger
