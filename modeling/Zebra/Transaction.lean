import Zebra.Panic
import Zebra.Transparent
import Zebra.ValueBalance

namespace Zebra

open Lib Outcome

structure AtLeastOne (α : Type) where
  toList : List α
  nonempty : toList ≠ []
deriving DecidableEq

structure JoinSplit where
  vpubOld : Amount .nonNegative
  vpubNew : Amount .nonNegative
  anchor : Nat
  nullifiers : Nat × Nat
  commitments : Nat × Nat
deriving DecidableEq

theorem JoinSplit.valueBalance_valid (a b : Amount .nonNegative) :
    Constraint.negativeAllowed.Contains (a.zatoshis - b.zatoshis) := by
  have ha := a.valid
  have hb := b.valid
  simp only [Constraint.Contains, Constraint.lower, Constraint.upper, maxMoney, coin] at ha hb ⊢
  omega

def JoinSplit.valueBalance (j : JoinSplit) : Amount .negativeAllowed :=
  ⟨j.vpubNew.zatoshis - j.vpubOld.zatoshis, valueBalance_valid j.vpubNew j.vpubOld⟩

structure JoinSplitData where
  first : JoinSplit
  rest : List JoinSplit
deriving DecidableEq

namespace JoinSplitData

def joinsplits (d : JoinSplitData) : List JoinSplit := d.first :: d.rest

def nullifiers (d : JoinSplitData) : List Nat :=
  d.joinsplits.flatMap fun j => [j.nullifiers.1, j.nullifiers.2]

def noteCommitments (d : JoinSplitData) : List Nat :=
  d.joinsplits.flatMap fun j => [j.commitments.1, j.commitments.2]

end JoinSplitData

namespace Sapling

structure Spend (P : Type) where
  perSpendAnchor : P
  nullifier : Nat
deriving DecidableEq

/-- `S` and `P` are the types of the shared and of the per-spend anchor; `Unit` marks a
field that is not present in a transaction version. -/
inductive TransferData (S P : Type) where
  | spendsAndMaybeOutputs (sharedAnchor : S) (spends : AtLeastOne (Spend P)) (maybeOutputs : List Nat)
  | justOutputs (outputs : AtLeastOne Nat)
deriving DecidableEq

structure ShieldedData (S P : Type) where
  valueBalance : Amount .negativeAllowed
  transfers : TransferData S P
deriving DecidableEq

namespace ShieldedData

variable {S P : Type}

def spends (d : ShieldedData S P) : List (Spend P) :=
  match d.transfers with
  | .spendsAndMaybeOutputs _ spends _ => spends.toList
  | .justOutputs _ => []

def noteCommitments (d : ShieldedData S P) : List Nat :=
  match d.transfers with
  | .spendsAndMaybeOutputs _ _ outputs => outputs
  | .justOutputs outputs => outputs.toList

def nullifiers (d : ShieldedData S P) : List Nat := d.spends.map Spend.nullifier

/-- Deduplicated anchors; `toAnchor` is the conversion to a per-spend anchor. -/
def anchors (toAnchor : S → P → Nat) (d : ShieldedData S P) : List Nat :=
  match d.transfers with
  | .spendsAndMaybeOutputs shared spends _ =>
    (spends.toList.map fun s => toAnchor shared s.perSpendAnchor).eraseDups
  | .justOutputs _ => []

end ShieldedData

end Sapling

namespace Orchard

structure Action where
  nullifier : Nat
  cmX : Nat
deriving DecidableEq

structure ShieldedData where
  enableSpends : Bool
  enableOutputs : Bool
  valueBalance : Amount .negativeAllowed
  sharedAnchor : Nat
  actions : AtLeastOne Action
deriving DecidableEq

namespace ShieldedData

def nullifiers (d : ShieldedData) : List Nat := d.actions.toList.map Action.nullifier

def noteCommitments (d : ShieldedData) : List Nat := d.actions.toList.map Action.cmX

end ShieldedData

end Orchard

inductive Transaction where
  | V1 (inputs : List Input) (outputs : List Output)
  | V2 (inputs : List Input) (outputs : List Output) (joinsplitData : Option JoinSplitData)
  | V3 (inputs : List Input) (outputs : List Output) (joinsplitData : Option JoinSplitData)
  | V4 (inputs : List Input) (outputs : List Output) (joinsplitData : Option JoinSplitData)
      (saplingShieldedData : Option (Sapling.ShieldedData Unit Nat))
  | V5 (inputs : List Input) (outputs : List Output)
      (saplingShieldedData : Option (Sapling.ShieldedData Nat Unit))
      (orchardShieldedData : Option Orchard.ShieldedData)
deriving DecidableEq

namespace Transaction

def inputs : Transaction → List Input
  | V1 i _ | V2 i _ _ | V3 i _ _ | V4 i _ _ _ | V5 i _ _ _ => i

def outputs : Transaction → List Output
  | V1 _ o | V2 _ o _ | V3 _ o _ | V4 _ o _ _ | V5 _ o _ _ => o

def spentOutpoints (tx : Transaction) : List OutPoint := tx.inputs.filterMap Input.outpoint

def isCoinbase (tx : Transaction) : Bool :=
  match tx.inputs with
  | [.coinbase _] => true
  | _ => false

def isValidNonCoinbase (tx : Transaction) : Bool := tx.inputs.all fun i => i.outpoint.isSome

def joinsplitData : Transaction → Option JoinSplitData
  | V1 .. | V5 .. => none
  | V2 _ _ d | V3 _ _ d | V4 _ _ d _ => d

def sproutGroth16Joinsplits : Transaction → List JoinSplit
  | V4 _ _ (some d) _ => d.joinsplits
  | _ => []

def joinsplitCount (tx : Transaction) : Nat := (tx.joinsplitData.map fun d => d.joinsplits.length).getD 0

def sproutNullifiers (tx : Transaction) : List Nat := (tx.joinsplitData.map (·.nullifiers)).getD []

def sproutNoteCommitments (tx : Transaction) : List Nat :=
  (tx.joinsplitData.map (·.noteCommitments)).getD []

def saplingAnchors : Transaction → List Nat
  | V4 _ _ _ (some d) => d.anchors fun _ a => a
  | V5 _ _ (some d) _ => d.anchors fun a _ => a
  | _ => []

def saplingSpendsCount : Transaction → Nat
  | V4 _ _ _ (some d) => d.spends.length
  | V5 _ _ (some d) _ => d.spends.length
  | _ => 0

def saplingNullifiers : Transaction → List Nat
  | V4 _ _ _ (some d) => d.nullifiers
  | V5 _ _ (some d) _ => d.nullifiers
  | _ => []

def saplingNoteCommitments : Transaction → List Nat
  | V4 _ _ _ (some d) => d.noteCommitments
  | V5 _ _ (some d) _ => d.noteCommitments
  | _ => []

def orchardShieldedData : Transaction → Option Orchard.ShieldedData
  | V5 _ _ _ d => d
  | V1 .. | V2 .. | V3 .. | V4 .. => none

def orchardNullifiers (tx : Transaction) : List Nat := (tx.orchardShieldedData.map (·.nullifiers)).getD []

def orchardNoteCommitments (tx : Transaction) : List Nat :=
  (tx.orchardShieldedData.map (·.noteCommitments)).getD []

def hasShieldedInputs (tx : Transaction) : Bool :=
  tx.joinsplitCount > 0 || tx.saplingSpendsCount > 0 ||
    ((tx.orchardShieldedData.map (·.enableSpends)).getD false)

def hasTransparentOrShieldedInputs (tx : Transaction) : Bool := !tx.inputs.isEmpty || tx.hasShieldedInputs

end Transaction

/-- `Input::value_from_outputs`: the value of the spent output, which must be in `outputs`. -/
def Input.valueFromOutputs {ε : Type} (outputs : KeyedMap OutPoint Output) :
    Input → Exec ε (Amount .nonNegative)
  | prevOut o => do
    let output ← expect outputs[o]? .missingUtxo
    return output.value
  | coinbase _ => return .zero

namespace Transaction

def transparentValueBalanceFromOutputs (tx : Transaction) (outputs : KeyedMap OutPoint Output) :
    Exec ValueBalanceError (ValueBalance .negativeAllowed) := do
  let inputValues ← tx.inputs.mapM (Input.valueFromOutputs outputs)
  let inputValue ← lift .transparent (Amount.sum inputValues)
  let outputValue ← lift .transparent (Amount.sum (tx.outputs.map Output.value))
  let balance ← lift .transparent (inputValue.widen.sub outputValue.widen)
  return .fromTransparentAmount balance

def sproutValueBalance (tx : Transaction) : Except ValueBalanceError (ValueBalance .negativeAllowed) :=
  ValueBalance.sum <| ((tx.joinsplitData.map (·.joinsplits)).getD []).map fun j =>
    .fromSproutAmount j.valueBalance

def saplingValueBalance : Transaction → ValueBalance .negativeAllowed
  | V4 _ _ _ (some d) => .fromSaplingAmount d.valueBalance
  | V5 _ _ (some d) _ => .fromSaplingAmount d.valueBalance
  | _ => .fromSaplingAmount .zero

def orchardValueBalance (tx : Transaction) : ValueBalance .negativeAllowed :=
  .fromOrchardAmount ((tx.orchardShieldedData.map (·.valueBalance)).getD .zero)

def valueBalanceFromOutputs (tx : Transaction) (outputs : KeyedMap OutPoint Output) :
    Exec ValueBalanceError (ValueBalance .negativeAllowed) := do
  let transparent ← tx.transparentValueBalanceFromOutputs outputs
  let sprout ← lift id tx.sproutValueBalance
  let sum ← lift id (transparent.add sprout)
  let sum ← lift id (sum.add tx.saplingValueBalance)
  lift id (sum.add tx.orchardValueBalance)

def valueBalance (tx : Transaction) (utxos : KeyedMap OutPoint Utxo) :
    Exec ValueBalanceError (ValueBalance .negativeAllowed) :=
  tx.valueBalanceFromOutputs (utxos.map fun _ u => u.output)

end Transaction

end Zebra
