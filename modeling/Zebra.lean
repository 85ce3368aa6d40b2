import Zebra.Properties.FinalizeReplay
import Zebra.Properties.TreeIndexes
import Zebra.Properties.NodeInvariant
import Zebra.Properties.Reconsider
import Zebra.Properties.ValuePoolChange
import Zebra.Properties.WrittenBalances
import Zebra.Properties.ShieldedIndexes
import Zebra.Properties.BlockLocator
import Zebra.Properties.ReadyBlocks
import Zebra.Properties.SentHashes
import Zebra.Properties.SubtreeQueries
import Zebra.Properties.SupplyCap
import Zebra.Properties.CompactDifficulty
import Zebra.Properties.ExpectedDifficulty
import Zebra.Properties.AddressTxIds
import Zebra.Properties.MerkleRoot
import Zebra.Properties.TransactionEncoding
import Zebra.Properties.ActivationHeights
import Zebra.Properties.AdjustmentArithmetic
import Zebra.Properties.CoinbaseHeight
import Zebra.Properties.CoinbaseOutputs
import Zebra.Properties.HalvingHeights
import Zebra.Properties.AddressBans
import Zebra.Properties.RecentResponses
import Zebra.Properties.MessageFraming
import Zebra.Properties.DownloadHandles
import Zebra.Properties.PeerBookkeeping
import Zebra.Properties.MempoolBroadcast
import Zebra.Properties.RejectionLists
import Zebra.Properties.InboundLimit
import Zebra.Properties.InventoryPolling
import Zebra.Properties.MissingMarkers
import Zebra.Properties.ResponseTimes
import Zebra.Properties.MinedBlocks
