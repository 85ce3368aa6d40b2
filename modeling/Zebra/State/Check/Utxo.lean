import Zebra.State.ZebraDb

namespace Zebra

open Lib

inductive CoinbaseSpendRestriction where
  | checkCoinbaseMaturity (spendHeight : Nat)
  | disallowCoinbaseSpend
deriving DecidableEq

def Transaction.coinbaseSpendRestriction (tx : Transaction) (net : Network) (spendHeight : Nat) :
    CoinbaseSpendRestriction :=
  if tx.outputs.isEmpty || net.shouldAllowUnshieldedCoinbaseSpends then .checkCoinbaseMaturity spendHeight
  else .disallowCoinbaseSpend

def minTransparentCoinbaseMaturity : Nat := 100

namespace Check

def transparentCoinbaseSpend (outpoint : OutPoint) (restriction : CoinbaseSpendRestriction) (utxo : Utxo) :
    Validated Unit :=
  if !utxo.fromCoinbase then return ()
  else
    match restriction with
    | .checkCoinbaseMaturity spendHeight => do
      let minSpendHeight ← Outcome.expect (Height.addDiff utxo.height minTransparentCoinbaseMaturity) .minSpendHeight
      if minSpendHeight ≤ spendHeight then return ()
      else .fail (.immatureTransparentCoinbaseSpend outpoint spendHeight minSpendHeight utxo.height)
    | .disallowCoinbaseSpend => .fail (.unshieldedTransparentCoinbaseSpend outpoint)

def transparentSpendChainOrder (spend : OutPoint) (spendTxIndexInBlock : Nat)
    (blockNewOutputs : OrderedUtxos) (unspentUtxos : OrderedUtxos)
    (spentUtxos : KeyedMap OutPoint TransactionHash) (db : ZebraDb) : Validated OrderedUtxo :=
  match blockNewOutputs[spend]? with
  | some output =>
    if spendTxIndexInBlock ≤ output.txIndexInBlock then .fail (.earlyTransparentSpend spend) else return output
  | none =>
    if spend ∈ spentUtxos then .fail (.duplicateTransparentSpend spend .nonFinalizedChain)
    else
      match unspentUtxos[spend]?.or (db.utxo spend) with
      | some output => return output
      | none => .fail (.missingTransparentOutput spend .nonFinalizedAndFinalizedChain)

def isNegativeConstraint : AmountError → Bool
  | .constraint value _ => value < 0
  | _ => false

def remainingTransactionValue (b : SemanticallyVerifiedBlock) (utxos : OrderedUtxos) :
    Validated Unit :=
  b.block.transactions.zipIdx.forM fun (tx, i) =>
    if tx.isCoinbase then return ()
    else
      match tx.valueBalance (utxos.map fun _ u => u.utxo) with
      | .ok balance =>
        match balance.remainingTransactionValue with
        | .ok _ => return ()
        | .error e => do
          let hash ← Outcome.expect b.transactionHashes[i]? .transactionHash
          if isNegativeConstraint e then .fail (.negativeRemainingTransactionValue e b.height i hash)
          else .fail (.calculateRemainingTransactionValue e b.height i hash)
      | .error (.error e) => do
        let hash ← Outcome.expect b.transactionHashes[i]? .transactionHash
        .fail (.calculateTransactionValueBalances e b.height i hash)
      | .error (.panic p) => .panic p

/-- The round of the spend loop for one input. -/
def spendOutpoint (b : SemanticallyVerifiedBlock) (unspentUtxos : OrderedUtxos)
    (spentUtxos : KeyedMap OutPoint TransactionHash) (db : ZebraDb) (tx : Transaction) (i : Nat)
    (blockSpends : OrderedUtxos) (spend : OutPoint) :
    Validated OrderedUtxos := do
  let utxo ← transparentSpendChainOrder spend i b.newOutputs unspentUtxos spentUtxos db
  transparentCoinbaseSpend spend (tx.coinbaseSpendRestriction db.network b.height) utxo.utxo
  if spend ∈ blockSpends then .fail (.duplicateTransparentSpend spend .sameBlock)
  else return blockSpends.insert spend utxo

def transparentSpend (b : SemanticallyVerifiedBlock) (unspentUtxos : OrderedUtxos)
    (spentUtxos : KeyedMap OutPoint TransactionHash) (db : ZebraDb) :
    Validated OrderedUtxos := do
  let blockSpends ← b.block.transactions.zipIdx.foldlM (fun blockSpends (tx, i) =>
    tx.spentOutpoints.foldlM (spendOutpoint b unspentUtxos spentUtxos db tx i) blockSpends) ∅
  remainingTransactionValue b blockSpends
  return blockSpends

end Check

end Zebra
