import RollupNode.BatchStatusRuns
import RollupNode.UnwindReplay
import RollupNode.FinalizationOrder
import RollupNode.UnwindForkchoice
import RollupNode.UnwindCoherence
import RollupNode.WatcherReorg
import RollupNode.ForkImport
import RollupNode.SequencedHead
import RollupNode.ForkchoiceCalls
import RollupNode.DerivedRows
import RollupNode.ProcessingOwners
import RollupNode.SyncedCommits
import RollupNode.MessageQueue
import RollupNode.CommittedBatches
import RollupNode.AttemptGuarantees
import RollupNode.RetryRuns
import RollupNode.RebuiltBlocks
import RollupNode.ByteReader
import RollupNode.Codec
import RollupNode.Derivation
import RollupNode.PlanShape
import RollupNode.StartupHead
import RollupNode.WatcherStart
import RollupNode.ColumnReplay
import RollupNode.RestartReplay
import RollupNode.IncludedMessages
import RollupNode.ChunkedConsolidation
import RollupNode.BlobProviders
import RollupNode.SignedBlocks
import RollupNode.GroupedTraversal
import RollupNode.BlockLogs
import RollupNode.WatcherGrowth
import RollupNode.WatcherDelivery
import RollupNode.PayloadV7
import RollupNode.QueueSlices
import RollupNode.SkippedBitmap
import RollupNode.DecodedBlocks
import RollupNode.HintCache
import RollupNode.RequestedBatches
import RollupNode.SkipMarks
import RollupNode.HeldRevalidation
import RollupNode.ForkPoint
import RollupNode.CommitBlobs
import RollupNode.WatcherReset
import RollupNode.SignerRotation
import RollupNode.GenesisRows
import RollupNode.BudgetedPrefix
import RollupNode.PayloadMessages
import RollupNode.PayloadRecovery
import RollupNode.HeaderHash
import RollupNode.RequestedHead
import RollupNode.ChunkHashes
import RollupNode.DecodingFaults
import RollupNode.BuildRequests
import RollupNode.StoredMessages
import RollupNode.BlockedImports
import RollupNode.LoadHeaderMetadata
import RollupNode.Gossip
import RollupNode.Signer
import RollupNode.RemoteBlockSource
