import Zebra.Lib.Outcome

namespace Zebra

/-- The places where the modelled code can abort, named after what the code expects there. -/
inductive Panic where
  -- transactions and blocks
  | missingUtxo
  | coinbaseHeight
  | emptyMerkleTree
  | divExact
  | blossomHeight
  | canopyHeight
  | firstHalving
  | halvingIndex
  | addressPeriod
  | addressIndex
  | notScriptHash
  | subsidy
  | arithmetic
  -- parameters of test networks
  | defaultFundingStreams
  | fundingStreamRange
  | fundingStreamNumerators
  | fundingStreamAddress
  | fundingStreamAddresses
  | noRecipientAddress
  | lockboxAddress
  -- history trees
  | historyTreeBeforeHeartwood
  | historyTreeMissing
  | historyTreeHeight
  | historyTreeUpgrade
  | branchId
  -- indexes of a chain
  | duplicateBlockHash
  | invalidWork
  | workOverflow
  | workUnderflow
  | oldTransactionVersion
  | transactionIndex
  | outputIndex
  | duplicateTransaction
  | newOutputMissing
  | duplicateCreatedUtxo
  | duplicateSpentUtxo
  | spentOutputMissing
  | balanceOverflow
  | balanceUnderflow
  | duplicateAddressUtxo
  | missingAddressTransfers
  | missingAddressUtxo
  | missingAddressTransaction
  | missingNullifier
  | missingTransaction
  | missingBlockHash
  -- trees and anchors of a chain
  | treeOverwrite
  | anchorOverwrite
  | historyTreeOverwrite
  | missingAnchor
  | missingTree
  | missingHistoryTree
  | previousHeight
  | nextHeight
  | poolRevert
  -- difficulty
  | u256Overflow
  | zeroDifficulty
  | compactSize
  | compactMantissa
  | difficultyLimit
  | difficultyContext
  | previousThreshold
  | genesisCandidate
  | minDifficultyNetwork
  -- contextual checks
  | genesisActivation
  | minSpendHeight
  | transactionHash
  | joinSplitCount
  -- chains
  | emptyChain
  | missingTreestate
  | chainCmp
  | tipHash
  | lastBlock
  -- the set of chains
  | noChain
  | rootHash
  | forkMissing
  | noInvalidatedBlocks
  | reconsideredBlock
  | finalizedTip
  -- the finalized state
  | finalizedTree
  | diskBytes
  | mergeOverflow
  | missingAddressBalance
  | outputLocation
  | genesisParent
  | genesisHeight
  | committedHeight
  | committedParent
  -- address queries
  | unexpectedChain
  | chainGap
  | overlapBlocks
  -- responses to peers that look for blocks
  | findMaxLen
  | findLength
  | findIntersection
  | findStop
  -- transaction encodings
  | compactSizeLimit
  | vectorLength
  | negativeAmount
  | lockTimeRange
  | coinbaseHeightLimit
  | validatingKeyPoint
  | sharedAnchorSpends
  | shieldedSpends
  | shieldedOutputs
  -- block templates
  | templateReward
  | templateStreams
  | minerAddress
  -- the address book
  | addrMismatch
  | misbehaviorScore
  | mostRecentByIp
  | surplusPeer
  | addrLimit
  | recentlyLivePeers
  -- the inventory registry
  | inventoryType
  -- queued blocks
  | splitHeight
  | queuedBlock
  | queuedParent
  | parentList
  -- the block write task
  | emptyNonFinalizedState
  | emptyBestChain
  | finalizedCommit
deriving DecidableEq

abbrev Exec (ε α : Type) := Lib.Outcome Panic ε α

end Zebra
