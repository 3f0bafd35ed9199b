import NemoRL.Error
import NemoRL.Lib.Transition
import NemoRL.Lib.Select
import NemoRL.Lib.BinPacking
import NemoRL.Lib.Except
import NemoRL.Lib.Distribute
import NemoRL.Lib.IndexPerm
import NemoRL.Lib.Tensor
import NemoRL.Lib.Dict
import NemoRL.Lib.MixedRadix
import NemoRL.Lib.Segments
import NemoRL.Lib.Batching
import NemoRL.Lib.Traced
import NemoRL.Lib.Mat
import NemoRL.Lib.Layout
import NemoRL.Lib.ZigZag
import NemoRL.Lib.ActiveSet
import NemoRL.Lib.SmoothedMean
import NemoRL.Data.Packing
import NemoRL.Data.PackingSpec
import NemoRL.Distributed.BatchedDataDict
import NemoRL.Distributed.Reorder
import NemoRL.Distributed.PackedLogprobs
import NemoRL.Distributed.PackedSharding
import NemoRL.Distributed.DispatchOrder
import NemoRL.Distributed.DynamicPlan
import NemoRL.Distributed.ModelUtils
import NemoRL.Distributed.NamedSharding
import NemoRL.Distributed.WorkerGroup
import NemoRL.Distributed.ShardedResults
import NemoRL.AsyncUtils.ReplayBuffer
import NemoRL.AsyncUtils.ReplayBufferSpec
import NemoRL.AsyncUtils.ReplayBufferRuns
import NemoRL.AsyncUtils.ReplayBufferRestore
import NemoRL.DataPlane.Preshard
import NemoRL.DataPlane.PreshardSpec
import NemoRL.DataPlane.Codec
import NemoRL.DataPlane.ColumnIO
import NemoRL.DataPlane.RoundTrip
import NemoRL.DataPlane.PadSeqlen
import NemoRL.XToken.Canonical
import NemoRL.XToken.Pairs
import NemoRL.XToken.AlignDP
import NemoRL.XToken.Anchors
import NemoRL.XToken.PostProcess
import NemoRL.XToken.TokenAligner
import NemoRL.XToken.ChunkIds
import NemoRL.XToken.TeacherLogits
import NemoRL.XToken.TeacherLogitsSpec
import NemoRL.Utils.PackedTensor
import NemoRL.Utils.PackedTensorSpec
import NemoRL.Utils.IpcStream
import NemoRL.Utils.IpcStreamSpec
import NemoRL.Utils.IpcStreamRuns
import NemoRL.Loss.ClippedPG
import NemoRL.Loss.ClippedPGSpec
import NemoRL.Loss.MaskedMean
import NemoRL.Loss.Wrapper
import NemoRL.Loss.Microbatch
import NemoRL.Loss.Prepare
import NemoRL.Loss.Fusion
import NemoRL.Megatron.Data
import NemoRL.Megatron.PackedLayout
import NemoRL.Megatron.PipelinePacking
import NemoRL.Environments.NemoGym
import NemoRL.Environments.RunRollouts
import NemoRL.Experience.RoutedMessages
import NemoRL.Experience.RouterReplay
import NemoRL.Environments.GymRoutes
import NemoRL.Experience.Rollouts
import NemoRL.Experience.RolloutsSpec
import NemoRL.Environments.NemoGymSpec
import NemoRL.Generation.PrefixTokens
import NemoRL.Generation.TokenMonotonic
import NemoRL.Generation.RoutedExperts
import NemoRL.Lib.Variance
import NemoRL.Algorithms.BaselineStd
import NemoRL.Algorithms.DynamicSampling
import NemoRL.Algorithms.DynamicSamplingSpec
import NemoRL.Algorithms.PromptGroups
import NemoRL.Algorithms.PromptGroupRuns
import NemoRL.Algorithms.TrainPartition
import NemoRL.Algorithms.RewardShaping
import NemoRL.Algorithms.SyncLegacy
import NemoRL.Algorithms.SyncLegacySpec
import NemoRL.Lib.BreakLoop
import NemoRL.Experience.SampleRollout
import NemoRL.Experience.RolloutManager
import NemoRL.Experience.RolloutManagerSpec
import NemoRL.XToken.Replace
import NemoRL.XToken.RepairTable
import NemoRL.XToken.Idempotent
import NemoRL.Lib.BestPath
import NemoRL.XToken.AlignOptimal
import NemoRL.Data.PackingTotal
import NemoRL.Data.LeftoverBins
import NemoRL.Distributed.DynamicReorder
import NemoRL.Distributed.DynamicCover
import NemoRL.DataPlane.WorkerMixin
import NemoRL.DataPlane.StoreReads
import NemoRL.DataPlane.WriteBack
import NemoRL.DataPlane.LogprobCall
import NemoRL.Lib.CountedMean
import NemoRL.Loss.GoldLoss
import NemoRL.Loss.GoldLossSpec
import NemoRL.DataPlane.TransferQueue
import NemoRL.Lib.Grouping
import NemoRL.Distributed.VirtualCluster
import NemoRL.Distributed.SegmentNodes
import NemoRL.Lib.Blocks
import NemoRL.Distributed.VocabExchange
import NemoRL.Lib.TopK
import NemoRL.Distributed.VocabTopk
import NemoRL.Distributed.VocabTopkSpec
import NemoRL.Distributed.ColumnSharding
import NemoRL.Distributed.ColumnShardingSpec
import NemoRL.Algorithms.LeaveOneOut
import NemoRL.Megatron.Unpacking
import NemoRL.Data.MessageLog
import NemoRL.Data.MessageLogSpec
import NemoRL.Lib.Runs
import NemoRL.Distributed.BundleOrder
import NemoRL.Experience.RolloutCounts
import NemoRL.Lib.Grid
import NemoRL.Environments.SlidingPuzzleRuns
import NemoRL.Utils.Checkpoint
import NemoRL.Utils.CheckpointSpec
import NemoRL.Utils.Retention
import NemoRL.AsyncUtils.RestoreComplete
import NemoRL.Algorithms.MaskedGae
import NemoRL.Experience.TaskEnvironments
import NemoRL.HuggingFace.PackedRows
import NemoRL.Data.MultimodalOrder
import NemoRL.Environments.GymStitching
import NemoRL.Experience.EffortShaping
import NemoRL.Lib.Subsets
import NemoRL.Evals.PassK
import NemoRL.Lib.Strided
import NemoRL.Data.FlatRows
import NemoRL.Algorithms.MessagePenalties
import NemoRL.Algorithms.PenalizedSpans
import NemoRL.Lib.RowConcat
import NemoRL.Distributed.FromBatches
import NemoRL.Distributed.StackedColumns
import NemoRL.Distributed.MergedBatches
import NemoRL.Distributed.RowConcatenation
import NemoRL.Lib.Scatter
import NemoRL.XToken.ExactTokenMap
import NemoRL.XToken.ExactMatching
import NemoRL.Lib.DataTree
import NemoRL.Tools.ConfigCli
import NemoRL.Tools.Minimize
import NemoRL.Tools.MinimizedRecipes
import NemoRL.AsyncUtils.Collector
import NemoRL.Lib.Threads
import NemoRL.AsyncUtils.Reservations
import NemoRL.AsyncUtils.AgeWindow
import NemoRL.AsyncUtils.TrainedGroups
import NemoRL.Lib.Gradient
import NemoRL.Lib.LogSoftmax
import NemoRL.Distributed.VocabParallel
import NemoRL.Distributed.VocabGradients
import NemoRL.Distributed.FlatLogprob
import NemoRL.Distributed.DistillationGradients
import NemoRL.Distributed.FusedLinear
import NemoRL.Lib.DictTotal
import NemoRL.DataPlane.NoOp
import NemoRL.DataPlane.NoOpRuns
import NemoRL.DataPlane.NoOpReads
import NemoRL.DataPlane.Observability
import NemoRL.DataPlane.ObservabilityRuns
import NemoRL.DataPlane.ObservedStore
