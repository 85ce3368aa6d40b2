import Zebra.State.ChainInner

namespace Zebra.Check

open Lib

variable [BlockHashing] [BlockCommitments] [ChainHistory]

def blockCommitmentIsValidForChainHistory (b : Block) (net : Network) (historyTree : HistoryTree) :
    Validated Unit := do
  match ← Outcome.lift .invalidBlockCommitment (b.commitment net) with
  | .preSaplingReserved _ | .finalSaplingRoot _ | .chainHistoryActivationReserved => return ()
  | .chainHistoryRoot actual =>
    let expected ← Outcome.expect historyTree.hash .historyTreeMissing
    if actual = expected then return ()
    else .fail (.invalidBlockCommitment (.invalidChainHistoryRoot actual expected))
  | .chainHistoryBlockTxAuthCommitment actual =>
    let fallback :=
      if NetworkUpgrade.activationHeight .heartwood net = b.coinbaseHeight then
        some chainHistoryActivationReserved
      else none
    let root ← Outcome.expect (historyTree.hash.or fallback) .historyTreeMissing
    let expected := BlockCommitments.fromCommitments root b.authDataRoot
    if actual = expected then return ()
    else .fail (.invalidBlockCommitment (.invalidChainHistoryBlockTxAuthCommitment actual expected))

end Zebra.Check
