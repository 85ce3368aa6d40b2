import Zebra.Peers.InventoryRegistry

namespace Zebra.Properties

open Lib InventoryRegistry Outcome

variable {ε : Type} {r r' : InventoryRegistry} {pending : List InventoryMessage} {closed : Bool}
  {result result' : InventoryPoll} {channel channel' : InventoryChannel}

def InventoryMessage.change? : InventoryMessage → Option InventoryChange
  | .change change => some change
  | .lagged _ => none

def pendingChanges (channel : InventoryChannel) : List InventoryChange := channel.pending.filterMap InventoryMessage.change?

/-- The poll returns with every pending change registered, and with an error exactly when the channel is closed. -/
def PollsInventory (ε : Type) (r : InventoryRegistry) (tick : Bool) (channel : InventoryChannel) : Prop :=
  ∃ fuel result r' channel', (r.pollInventory fuel tick channel : Option (Exec ε _)) = some (.ok (result, r', channel')) ∧
    ((pendingChanges channel).foldlM register (if tick then r.rotate else r) : Exec ε _) = .ok r' ∧
    (result = .closed ↔ channel.closed = true)

theorem register_succeeds (r : InventoryRegistry) (change : InventoryChange) :
    Succeeds (r.register change : Exec ε _) ↔ ∀ inv ∈ change.invs, inv.isExpected := by
  have hinv : ∀ current inv, Succeeds (registerInv change.marker change.addr current inv : Exec ε _) ↔ inv.isExpected := by
    intro current inv
    unfold registerInv
    by_cases hexpected : inv.isExpected = true
    · simp only [check, hexpected, if_pos, iff_true]
      dsimp only [ok_bind]
      split
      · exact succeeds_ok _
      · exact succeeds_ok _
    · simp only [check, hexpected]
      simp [Succeeds]
  rw [register, bind_succeeds, ← foldlM_succeeds hinv (s := r.current)]
  simp [Succeeds, pure_eq_ok]

/-- On a closed channel the loop has no end. -/
theorem drain_closed (fuel : Nat) : (drain fuel r ⟨pending, true⟩ result : Option (Exec ε _)) ≠ some (.ok (result', r', channel')) := by
  induction fuel generalizing r pending result with
  | zero => simp [drain]
  | succ fuel ih =>
    rcases pending with _ | ⟨change | count, pending⟩
    · exact ih
    · rw [drain]
      split
      · exact ih
      · simp
    · exact ih

theorem drain_open (hresult : result ≠ .closed)
    (h : ((pendingChanges ⟨pending, false⟩).foldlM register r : Exec ε _) = .ok r') :
    ∃ result', (drain (pending.length + 1) r ⟨pending, false⟩ result : Option (Exec ε _)) =
      some (.ok (result', r', ⟨[], false⟩)) ∧ result' ≠ .closed := by
  induction pending generalizing r result with
  | nil =>
    cases h
    exact ⟨result, rfl, hresult⟩
  | cons message pending ih =>
    cases message with
    | change change =>
      have hcons : pendingChanges ⟨.change change :: pending, false⟩ = change :: pendingChanges ⟨pending, false⟩ := rfl
      rw [hcons, List.foldlM_cons] at h
      obtain ⟨next, hnext, h⟩ := bind_eq_ok.1 h
      rw [List.length_cons, drain, hnext]
      exact ih (by decide) h
    | lagged count => exact ih hresult h

end Zebra.Properties
