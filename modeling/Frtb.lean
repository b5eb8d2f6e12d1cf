import Frtb.Library.AssocMaps
import Frtb.Library.JsonText
import Frtb.Library.NumberText
import Frtb.Library.DelimitedNames
import Frtb.Library.DeltaLedger
import Frtb.Library.SharedCache
import Frtb.Library.PairSums
import Frtb.Library.ApplyExpr
import Frtb.RollupKeys
import Frtb.EnrichDoc
import Frtb.RedisStore
import Frtb.StorageWriter
import Frtb.RollupDelta
import Frtb.BatchWriters
import Frtb.RollupContribution
import Frtb.HashLayout
import Frtb.RowVersions
import Frtb.AtomicDelivery
import Frtb.BatchRuns
import Frtb.CrashReplay
import Frtb.Reingest
import Frtb.StoredContribution
import Frtb.Interleaving
import Frtb.ConcurrentReingest
import Frtb.ParentChild
import Frtb.AckSafety
import Frtb.PoisonEntries
import Frtb.StoredRows
import Frtb.StreamRouter
import Frtb.SourceUpload
import Frtb.ChargeReduce
import Frtb.CalcService
import Frtb.CalcCache
import Frtb.TotalCharge
import Frtb.FastPath
import Frtb.FastPathSums
import Frtb.FastPathRows
import Frtb.CurvatureKernel
import Frtb.LazyMath
import Frtb.AliasNames
import Frtb.ShardPlacement
import Frtb.EnrichedReports
import Frtb.IndexedRows
import Frtb.RollupReadout
import Frtb.ReadoutAgreement
import Frtb.KbHistory
import Frtb.SlimWriter
import Frtb.SlimAgreement
import Frtb.BulkWorker
import Frtb.BulkDispatcher
import Frtb.BulkConservation
import Frtb.DirectWriter
import Frtb.Library.EventRuns
import Frtb.Discovery
import Frtb.BootstrapTracker
import Frtb.ActiveProfile
import Frtb.Library.CodeUnits
import Frtb.HttpProducer
import Frtb.RedisTarget
import Frtb.TargetSwitch
import Frtb.SwitchAcks
import Frtb.ShardRuntime
import Frtb.ShardExclusion
import Frtb.IngestTarget
import Frtb.IngestRebind
import Frtb.RedisPool
import Frtb.PoolOwnership
import Frtb.PoolCircuit
import Frtb.RqeIndex
import Frtb.Bootstrap
import Frtb.BootstrapReady
import Frtb.FailedBootstrap
import Frtb.SlimNames
import Frtb.FieldNames
import Frtb.Library.WeightedSums
import Frtb.RollupFinaliser
import Frtb.FinaliserSums
import Frtb.FinaliserRows
import Frtb.FinaliserAgreement
import Frtb.FinaliserExact
import Frtb.ChargeFormula
import Frtb.ConstantRho
import Frtb.HashFlattening
import Frtb.HaltAndFlush
import Frtb.LoaderRows
import Frtb.LoaderFlush
import Frtb.LoaderSettles
import Frtb.FlowControl
import Frtb.ProbeTimers
import Frtb.PoolSteps
import Frtb.ProbeRecovery
import Frtb.SourceWatcher
import Frtb.SourcePublish
import Frtb.CurvatureFloor
import Frtb.Library.CsvText
import Frtb.CsvReader
import Frtb.ConnectionStore
import Frtb.RebuildFailure
import Frtb.DriftDetector
import Frtb.SideTable
import Frtb.PivotReconstruction
import Frtb.Library.StrideLoop
import Frtb.BulkRunLifecycle
import Frtb.Library.JsNumbers
import Frtb.BackendReplies
import Frtb.ReplyReduce
import Frtb.ReplyCharge
import Frtb.RowGenerator
import Frtb.BulkCoverage
import Frtb.Library.PoolSums
import Frtb.MapWithConcurrency
import Frtb.ClassInterleaver
import Frtb.Backpressure
import Frtb.Library.HighWater
import Frtb.IngestSnapshot
import Frtb.Library.EscapedText
import Frtb.Library.TagGrammar
import Frtb.Library.SplitText
import Frtb.RequestFilters
import Frtb.TagQuery
import Frtb.RegionFilters
import Frtb.Library.OrderedPairs
import Frtb.Drilldown
import Frtb.ShardMarkers
import Frtb.Library.AtLeastOnce
import Frtb.Backfill
