import LedgerZcash.Lib.Hex
import LedgerZcash.Lib.Collect
import LedgerZcash.Lib.Segments
import LedgerZcash.Lib.Ledger
import LedgerZcash.Lib.Bisect
import LedgerZcash.Lib.Slots
import LedgerZcash.Lib.Der
import LedgerZcash.Lib.Trace
import LedgerZcash.Lib.Channel
import LedgerZcash.Lib.Words
import LedgerZcash.Lib.Decimal
import LedgerZcash.Lib.Double
import LedgerZcash.Lib.Calendar
import LedgerZcash.Lib.Pipeline
import LedgerZcash.Lib.TryPipeline
import LedgerZcash.Lib.Merkle
import LedgerZcash.Lib.MerkleTree
import LedgerZcash.Lib.Frontier
import LedgerZcash.Lib.SparseTree
import LedgerZcash.Basic
import LedgerZcash.Crypto.Network
import LedgerZcash.Crypto.Decrypt
import LedgerZcash.Crypto.TrialDecrypt
import LedgerZcash.Crypto.OneByOne
import LedgerZcash.Crypto.Zip212
import LedgerZcash.Crypto.Tree
import LedgerZcash.Crypto.ShardRoot
import LedgerZcash.Crypto.Authentication
import LedgerZcash.Crypto.Fee
import LedgerZcash.Crypto.Builder
import LedgerZcash.Crypto.Craft
import LedgerZcash.Crypto.Balance
import LedgerZcash.Crypto.Layout
import LedgerZcash.Crypto.FeeRule
import LedgerZcash.Crypto.FeeChoice
import LedgerZcash.Crypto.Pczt
import LedgerZcash.Crypto.Expiry
import LedgerZcash.Crypto.Finalize
import LedgerZcash.Crypto.Stamps
import LedgerZcash.Crypto.PathText
import LedgerZcash.Crypto.Parse
import LedgerZcash.Crypto.ParsePczt
import LedgerZcash.Crypto.DeviceInput
import LedgerZcash.Crypto.Keys
import LedgerZcash.Crypto.TestSigning
import LedgerZcash.Crypto.Signatures
import LedgerZcash.Crypto.DeviceDer
import LedgerZcash.Crypto.Memo
import LedgerZcash.Sync.Client
import LedgerZcash.Sync.Scan
import LedgerZcash.Sync.Located
import LedgerZcash.Sync.ScanSpec
import LedgerZcash.Sync.Outcome
import LedgerZcash.Sync.Detection
import LedgerZcash.Sync.Chain
import LedgerZcash.Sync.Incremental
import LedgerZcash.Sync.Retry
import LedgerZcash.Sync.Splits
import LedgerZcash.Sync.Partition
import LedgerZcash.Sync.Budget
import LedgerZcash.Sync.Coverage
import LedgerZcash.Sync.Classification
import LedgerZcash.Sync.KnownNullifiers
import LedgerZcash.Sync.OrchardOnly
import LedgerZcash.Sync.Witness
import LedgerZcash.Sync.FirstLeaf
import LedgerZcash.Sync.Positions
import LedgerZcash.Sync.TreeSize
import LedgerZcash.Sync.LeafBounds
import LedgerZcash.Sync.Shards
import LedgerZcash.Sync.Craft
import LedgerZcash.Sync.Pairing
import LedgerZcash.Sync.Authentic
import LedgerZcash.Sync.Spendable
import LedgerZcash.Sync.OwnKeys
import LedgerZcash.Sync.Bounds
import LedgerZcash.Sync.BlockSearch
import LedgerZcash.Sync.Progress
import LedgerZcash.Sync.Details
import LedgerZcash.Sync.Interleaving
import LedgerZcash.Sync.WithoutSapling
import LedgerZcash.Ffi.Stream
import LedgerZcash.Ffi.Delivery
import LedgerZcash.Ffi.HandOver
import LedgerZcash.Ffi.Pczt
import LedgerZcash.Ffi.Build
import LedgerZcash.Ffi.Spending
import LedgerZcash.Ffi.Payment
import LedgerZcash.Ffi.Broadcast
import LedgerZcash.Ffi.Details
import LedgerZcash.Cli.Chunks
import LedgerZcash.Cli.Dates
