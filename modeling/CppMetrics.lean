import CppMetrics.Lib.Machine
import CppMetrics.Core.Types
import CppMetrics.Core.MetricRegistry
import CppMetrics.Core.RegistryBindings
import CppMetrics.Lib.ReadersWriter
import CppMetrics.Core.RegistryThreads
import CppMetrics.Core.Ewma
import CppMetrics.Core.Meter
import CppMetrics.Core.MeterLedger
import CppMetrics.Core.MeterObservation
import CppMetrics.Lib.AlgorithmR
import CppMetrics.Core.UniformSample
import CppMetrics.Lib.OrderedMap
import CppMetrics.Lib.TopK
import CppMetrics.Core.Snapshot
import CppMetrics.Core.ExpDecaySample
import CppMetrics.Core.ExpDecaySizes
import CppMetrics.Core.ExpDecayTopK
import CppMetrics.Core.MeterThreads
import CppMetrics.Core.MeterLosses
import CppMetrics.Core.MeterProgress
import CppMetrics.Lib.Exclusive
import CppMetrics.Concurrent.SimpleScheduledThreadPoolExecutor
import CppMetrics.Concurrent.ScheduledTasks
import CppMetrics.Concurrent.SingleFlight
import CppMetrics.Concurrent.Shutdown
import CppMetrics.Concurrent.ShutdownReturns
import CppMetrics.Concurrent.TasksRunAgain
import CppMetrics.Concurrent.SimpleThreadPoolExecutor
import CppMetrics.Concurrent.PostedCommands
import CppMetrics.Core.ScheduledReporter
import CppMetrics.Core.ReporterLifecycle
import CppMetrics.Core.ReporterDestruction
import CppMetrics.Core.ReportedMaps
import CppMetrics.Lib.Fallible
import CppMetrics.Graphite.GraphiteReporter
import CppMetrics.Graphite.ConnectionProtocol
import CppMetrics.Lib.Delimited
import CppMetrics.Graphite.GraphiteSenderTCP
import CppMetrics.Graphite.MetricPaths
import CppMetrics.Lib.Sourced
import CppMetrics.Core.UniformThreads
import CppMetrics.Core.Histogram
import CppMetrics.Core.HistogramThreads
import CppMetrics.Core.HistogramRuns
import CppMetrics.Core.ExpDecayThreads
import CppMetrics.Core.Timer
import CppMetrics.Core.TimerAgreement
import CppMetrics.Core.SnapshotQuantiles
import CppMetrics.Lib.BoundedSum
import CppMetrics.Lib.Moments
import CppMetrics.Core.SnapshotMoments
import CppMetrics.Lib.MovingAverage
import CppMetrics.Core.EwmaHistory
import CppMetrics.Core.MeterRates
import CppMetrics.Core.MeterMeanRate
import CppMetrics.Core.UniformRuns
import CppMetrics.Core.UniformDraws
import CppMetrics.Core.ExpDecayDrift
import CppMetrics.Core.ExpDecayEviction
import CppMetrics.Core.RegistryAllocation
import CppMetrics.Graphite.SenderConnection
import CppMetrics.Graphite.Delivery
import CppMetrics.Graphite.WireReader
import CppMetrics.Graphite.ReportedMetrics
import CppMetrics.Core.ConsoleReporter
import CppMetrics.Core.ConsoleReport
import CppMetrics.Graphite.ReportTimestamps
import CppMetrics.Core.TimerContexts
import CppMetrics.Core.TimerThreads
