import Zebra.Peers.RecentByIp

namespace Zebra.Properties

open Lib Std RecentByIp KeyedMap Outcome

structure LimitedCall where
  ip : IpAddr
  now : Nat
  pastLimit : Bool
deriving DecidableEq

variable {ε : Type} {byIp : KeyedMap IpAddr Nat} {r : RecentByIp} {l : List (IpAddr × Nat)} {log : List LimitedCall}
  {ip : IpAddr} {last now : Nat}

def CountsEntries (byIp : KeyedMap IpAddr Nat) (l : List (IpAddr × Nat)) : Prop :=
  ∀ ip, byIp[ip]? = if l.countP (fun e => e.1 = ip) = 0 then none else some (l.countP fun e => e.1 = ip)

theorem CountsEntries.getD (h : CountsEntries byIp l) (ip : IpAddr) : byIp[ip]?.getD 0 = l.countP fun e => e.1 = ip := by
  rw [h ip]
  split
  · rename_i hzero
    exact hzero.symm
  · rfl

theorem CountsEntries.remove {e : IpAddr × Nat} (h : CountsEntries byIp (e :: l)) :
    ∃ byIp', (removeCount byIp e.1 : Exec ε _) = .ok byIp' ∧ CountsEntries byIp' l := by
  have hcount : ∀ ip, (e :: l).countP (fun e => e.1 = ip) = l.countP (fun e => e.1 = ip) + if e.1 = ip then 1 else 0 := by
    intro ip
    simp [List.countP_cons]
  have hself := h e.1
  rw [hcount, if_pos rfl, if_neg (Nat.succ_ne_zero _)] at hself
  have hother : ∀ ip, e.1 ≠ ip → byIp[ip]? = if l.countP (fun e => e.1 = ip) = 0 then none else some (l.countP fun e => e.1 = ip) := by
    intro ip hne
    rw [h ip, hcount, if_neg hne, Nat.add_zero]
  rw [RecentByIp.removeCount, hself]
  refine ⟨_, rfl, fun ip => ?_⟩
  rw [Nat.add_sub_cancel]
  by_cases hne : e.1 = ip
  · subst hne
    split
    · rw [ExtTreeMap.getElem?_erase_self]
    · rw [ExtTreeMap.getElem?_insert_self]
  · split
    · rw [getElem?_erase_of_ne hne, hother ip hne]
    · rw [getElem?_insert_of_ne hne, hother ip hne]

theorem CountsEntries.removeAll {outdated : List (IpAddr × Nat)} (h : CountsEntries byIp (outdated ++ l)) :
    ∃ byIp', (outdated.foldlM (fun byIp e => removeCount byIp e.1) byIp : Exec ε _) = .ok byIp' ∧ CountsEntries byIp' l := by
  induction outdated generalizing byIp with
  | nil => exact ⟨byIp, rfl, h⟩
  | cons e outdated ih =>
    obtain ⟨byIp₁, hfirst, h₁⟩ := h.remove
    rw [List.foldlM_cons, hfirst]
    exact ih h₁

theorem dropWhile_eq_filter {a : Nat} (h : l.Pairwise fun e e' => e.2 ≤ e'.2) :
    l.dropWhile (fun e => e.2 ≤ a) = l.filter fun e => a < e.2 := by
  induction l with
  | nil => rfl
  | cons e l ih =>
    rw [List.pairwise_cons] at h
    by_cases he : e.2 ≤ a
    · rw [List.dropWhile_cons_of_pos (by simpa using he), List.filter_cons_of_neg (by simpa using he), ih h.2]
    · rw [List.dropWhile_cons_of_neg (by simpa using he), List.filter_eq_self.2]
      intro e' he'
      rcases List.mem_cons.1 he' with rfl | he'
      · simpa using he
      · have := h.1 e' he'
        simp only [decide_eq_true_eq]
        omega

def accepted (log : List LimitedCall) : List (IpAddr × Nat) :=
  (log.filter fun c => !c.pastLimit).map fun c => (c.ip, c.now)

/-- The calls of an address that were not past the limit and are later than the age limit. -/
def recentCalls (log : List LimitedCall) (ip : IpAddr) (ageLimit : Nat) : Nat :=
  log.countP fun c => c.ip = ip ∧ c.pastLimit = false ∧ ageLimit < c.now

/-- Every result is the one of the window before the call. -/
def ExactWindow (log : List LimitedCall) (maxConnectionsPerIp timeLimit : Nat) : Prop :=
  ∀ before c after, log = before ++ c :: after →
    (c.pastLimit = false ↔ recentCalls before c.ip (c.now - timeLimit) < maxConnectionsPerIp)

theorem ExactWindow.concat {m limit : Nat} (h : ExactWindow log m limit) {c : LimitedCall}
    (hc : c.pastLimit = false ↔ recentCalls log c.ip (c.now - limit) < m) : ExactWindow (log ++ [c]) m limit := by
  intro before c' after heq
  rcases List.eq_nil_or_concat after with rfl | ⟨after, last, rfl⟩
  · obtain ⟨rfl, hlast⟩ := List.append_inj' heq rfl
    obtain rfl := List.singleton_inj.1 hlast
    exact hc
  · rw [List.concat_eq_append, ← List.cons_append, ← List.append_assoc] at heq
    exact h before c' after (List.append_inj' heq rfl).1

/-- The limiter after the calls of the log, the last of which was at the time `last`. The entries
by time are those that any later call can count. -/
structure Limits (r : RecentByIp) (log : List LimitedCall) (last : Nat) : Prop where
  byTime : ∀ now ≥ last, (r.byTime.filter fun e => now - r.timeLimit < e.2) =
    (accepted log).filter fun e => now - r.timeLimit < e.2
  byIp : CountsEntries r.byIp r.byTime
  sorted : r.byTime.Pairwise fun e e' => e.2 ≤ e'.2
  past : ∀ e ∈ r.byTime, e.2 ≤ last
  window : ExactWindow log r.maxConnectionsPerIp r.timeLimit

theorem Limits.pruneByTime (h : Limits r log last) (ip : IpAddr) (hlater : last ≤ now) (hclock : r.timeLimit ≤ now) :
    ∃ byIp, (r.pruneByTime now : Exec ε _) =
        .ok { r with byTime := r.byTime.filter fun e => now - r.timeLimit < e.2, byIp } ∧
      CountsEntries byIp (r.byTime.filter fun e => now - r.timeLimit < e.2) ∧
      byIp[ip]?.getD 0 = recentCalls log ip (now - r.timeLimit) := by
  have hcounts : CountsEntries r.byIp r.byTime := h.byIp
  rw [← List.takeWhile_append_dropWhile (p := fun e => decide (e.2 ≤ now - r.timeLimit)) (l := r.byTime),
    dropWhile_eq_filter h.sorted] at hcounts
  obtain ⟨byIp, hfold, hbyIp⟩ := hcounts.removeAll
  refine ⟨byIp, ?_, hbyIp, ?_⟩
  · rw [RecentByIp.pruneByTime, check, if_pos hclock]
    dsimp only [ok_bind, pure_eq_ok]
    rw [hfold, dropWhile_eq_filter h.sorted]
    rfl
  · rw [hbyIp.getD, h.byTime now hlater, recentCalls, accepted, List.countP_filter, List.countP_map, List.countP_filter]
    apply List.countP_congr
    intro c _
    simp [and_left_comm, and_comm]

theorem Limits.byTime_filter (h : Limits r log last) (hlater : last ≤ now) {now' : Nat} (hnow' : now ≤ now') :
    ((r.byTime.filter fun e => now - r.timeLimit < e.2).filter fun e => now' - r.timeLimit < e.2) =
      (accepted log).filter fun e => now' - r.timeLimit < e.2 := by
  rw [← h.byTime now' (hlater.trans hnow'), List.filter_filter]
  apply List.filter_congr
  intro e _
  rw [← Bool.decide_and, decide_eq_decide]
  omega

theorem Limits.call (h : Limits r log last) (hm : 1 ≤ r.maxConnectionsPerIp) (ip : IpAddr) (hlater : last ≤ now)
    (hclock : r.timeLimit ≤ now) : ∃ pastLimit r', (r.isPastLimitOrAdd ip now : Exec ε _) = .ok (pastLimit, r') ∧
      r'.maxConnectionsPerIp = r.maxConnectionsPerIp ∧ r'.timeLimit = r.timeLimit ∧
      Limits r' (log ++ [⟨ip, now, pastLimit⟩]) now := by
  obtain ⟨byIp, hprune, hcounts, hcount⟩ := h.pruneByTime ip hlater hclock
  have hpast : ∀ e ∈ r.byTime.filter fun e => now - r.timeLimit < e.2, e.2 ≤ now :=
    fun e he => (h.past e (List.mem_of_mem_filter he)).trans hlater
  rw [isPastLimitOrAdd, hprune, ok_bind]
  dsimp only
  split
  case isTrue hmax =>
    have haccepted : accepted (log ++ [⟨ip, now, true⟩]) = accepted log := by simp [accepted]
    refine ⟨true, _, rfl, rfl, rfl, ?_⟩
    constructor
    case byTime => exact fun now' hnow' => haccepted ▸ h.byTime_filter hlater hnow'
    case byIp =>
      intro ip'
      by_cases hip : ip = ip'
      · -- the limit is positive, so the address has an entry
        subst hip
        rw [ExtTreeMap.getElem?_insert_self, hcounts.getD, if_neg]
        rw [← hcounts.getD]
        omega
      · rw [getElem?_insert_of_ne hip]
        exact hcounts ip'
    case sorted => exact h.sorted.filter _
    case past => exact hpast
    case window =>
      apply h.window.concat
      rw [hcount] at hmax
      simpa using hmax
  case isFalse hmax =>
    have haccepted : accepted (log ++ [⟨ip, now, false⟩]) = accepted log ++ [(ip, now)] := by simp [accepted]
    refine ⟨false, _, rfl, rfl, rfl, ?_⟩
    constructor
    case byTime =>
      intro now' hnow'
      rw [haccepted, List.filter_append, List.filter_append, h.byTime_filter hlater hnow']
    case byIp =>
      intro ip'
      rw [List.countP_append, List.countP_singleton]
      by_cases hip : ip = ip'
      · subst hip
        simp [hcounts.getD]
      · rw [getElem?_insert_of_ne hip, hcounts ip']
        simp only [hip, decide_false, Bool.false_eq_true, if_false, Nat.add_zero]
    case sorted =>
      rw [List.pairwise_append]
      refine ⟨h.sorted.filter _, List.pairwise_singleton .., ?_⟩
      intro e he e' he'
      obtain rfl := List.mem_singleton.1 he'
      exact hpast e he
    case past =>
      intro e he
      rcases List.mem_append.1 he with he | he
      · exact hpast e he
      · exact (congrArg Prod.snd (List.mem_singleton.1 he)).le
    case window =>
      apply h.window.concat
      rw [hcount] at hmax
      simpa using hmax

def runCalls (r : RecentByIp) : List (IpAddr × Nat) → Exec ε (List LimitedCall × RecentByIp)
  | [] => return ([], r)
  | (ip, now) :: calls => do
    let (pastLimit, r) ← r.isPastLimitOrAdd ip now
    let (log, r) ← runCalls r calls
    return (⟨ip, now, pastLimit⟩ :: log, r)

theorem Limits.runCalls {calls : List (IpAddr × Nat)} (h : Limits r log last) (hm : 1 ≤ r.maxConnectionsPerIp)
    (hsorted : ((ip, last) :: calls).Pairwise fun c c' => c.2 ≤ c'.2) (hclock : ∀ c ∈ calls, r.timeLimit ≤ c.2) :
    ∃ log' r' last', (runCalls r calls : Exec ε _) = .ok (log', r') ∧ log'.map (fun c => (c.ip, c.now)) = calls ∧
      r'.maxConnectionsPerIp = r.maxConnectionsPerIp ∧ r'.timeLimit = r.timeLimit ∧ Limits r' (log ++ log') last' := by
  induction calls generalizing r log last ip with
  | nil => exact ⟨[], r, last, rfl, rfl, rfl, rfl, (List.append_nil log).symm ▸ h⟩
  | cons c calls ih =>
    obtain ⟨hfirst, hsorted⟩ := List.pairwise_cons.1 hsorted
    obtain ⟨pastLimit, r₁, hcall, hmax, hlimit, h₁⟩ :=
      h.call hm c.1 (hfirst c List.mem_cons_self) (hclock c List.mem_cons_self)
    obtain ⟨log', r', last', hcalls, hlog, hmax', hlimit', h'⟩ :=
      ih h₁ (hmax ▸ hm) hsorted fun c hc => hlimit ▸ hclock c (List.mem_cons_of_mem _ hc)
    refine ⟨⟨c.1, c.2, pastLimit⟩ :: log', r', last', ?_, ?_, hmax'.trans hmax, hlimit'.trans hlimit, ?_⟩
    · rw [Properties.runCalls, hcall, ok_bind]
      dsimp only
      rw [hcalls]
      rfl
    · rw [List.map_cons, hlog]
    · rwa [← List.append_cons] at h'

/-- The limiter is an exact sliding window of the calls that were not past the limit. -/
theorem inbound_limit_exact {timeLimit maxConnectionsPerIp : Option Nat}
    (hm : 1 ≤ (new timeLimit maxConnectionsPerIp).maxConnectionsPerIp) {calls : List (IpAddr × Nat)}
    (hsorted : calls.Pairwise fun c c' => c.2 ≤ c'.2)
    (hclock : ∀ c ∈ calls, (new timeLimit maxConnectionsPerIp).timeLimit ≤ c.2) :
    ∃ log r, (runCalls (new timeLimit maxConnectionsPerIp) calls : Exec ε _) = .ok (log, r) ∧
      log.map (fun c => (c.ip, c.now)) = calls ∧ ExactWindow log (new timeLimit maxConnectionsPerIp).maxConnectionsPerIp
        (new timeLimit maxConnectionsPerIp).timeLimit ∧ CountsEntries r.byIp r.byTime:= by
  have hnew : Limits (new timeLimit maxConnectionsPerIp) [] 0 := by
    constructor
    case window =>
      intro before c after heq
      simp at heq
    all_goals simp [new, accepted, CountsEntries]
  have hfirst : ((IpAddr.v4 0, 0) :: calls).Pairwise fun c c' => c.2 ≤ c'.2 :=
    List.pairwise_cons.2 ⟨fun _ _ => Nat.zero_le _, hsorted⟩
  obtain ⟨log, r, last, hrun, hlog, hmax, hlimit, h⟩ := hnew.runCalls hm hfirst hclock
  rw [List.nil_append] at h
  exact ⟨log, r, hrun, hlog, hmax ▸ hlimit ▸ h.window, h.byIp⟩

theorem inbound_limit_exact_four_calls :
    ∃ log r, (runCalls (new (some 10) (some 2)) [(.v4 1, 10), (.v4 1, 12), (.v4 1, 15), (.v4 1, 21)] : Exec Unit _) =
        .ok (log, r) ∧ log.map (fun c => (c.ip, c.now)) = [(.v4 1, 10), (.v4 1, 12), (.v4 1, 15), (.v4 1, 21)] ∧
      ExactWindow log 2 10 ∧ CountsEntries r.byIp r.byTime :=
  inbound_limit_exact (by decide) (by decide) (by decide)

end Zebra.Properties
