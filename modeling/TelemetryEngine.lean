import TelemetryEngine.Foundation.Calendar
import TelemetryEngine.Foundation.Tiling
import TelemetryEngine.Foundation.Traced
import TelemetryEngine.Foundation.Rounding
import TelemetryEngine.Foundation.MergingTable
import TelemetryEngine.HotTier.SpansRaw
import TelemetryEngine.ColdTier.Layout
import TelemetryEngine.ColdTier.Planner
import TelemetryEngine.ColdTier.Fingerprint
import TelemetryEngine.ColdTier.Export
import TelemetryEngine.ColdTier.RunExport
import TelemetryEngine.ColdTier.Source
import TelemetryEngine.ColdTier.ExactlyOnce
import TelemetryEngine.ColdTier.Watermark
import TelemetryEngine.ColdTier.Retry
import TelemetryEngine.ColdTier.Rewind
import TelemetryEngine.ColdTier.Expiry
import TelemetryEngine.Emitters.Workload
import TelemetryEngine.Emitters.Otlp
import TelemetryEngine.ColdTier.LateArrival
import TelemetryEngine.Cardinality.Registry
import TelemetryEngine.Cardinality.Guard
import TelemetryEngine.Rollup.MinuteView
import TelemetryEngine.Rollup.Budget
import TelemetryEngine.Rollup.Classification
import TelemetryEngine.Rollup.Totals
import TelemetryEngine.Rollup.Backfill
import TelemetryEngine.Rollup.Completion
import TelemetryEngine.Rollup.Interleaving
import TelemetryEngine.Rollup.Interruption
import TelemetryEngine.Rollup.Equivalence
import TelemetryEngine.Rollup.HourView
import TelemetryEngine.Rollup.Ceiling
import TelemetryEngine.Experiments.Accounting
import TelemetryEngine.Storage.MigrationRuns
import TelemetryEngine.Storage.Recovery
import TelemetryEngine.Foundation.Decimal
import TelemetryEngine.Ingest.MvSpansRaw
import TelemetryEngine.Ingest.Partitions
import TelemetryEngine.Foundation.ReplacingTable
import TelemetryEngine.Storage.Migrations
import TelemetryEngine.Storage.Schema
import TelemetryEngine.Emitters.Emittable
import TelemetryEngine.Ingest.OtlpJson
import TelemetryEngine.Ingest.Agreement
import TelemetryEngine.Emitters.Nesting
import TelemetryEngine.Foundation.Counters
import TelemetryEngine.Experiments.Restarts
import TelemetryEngine.Experiments.Sampling
import TelemetryEngine.Emitters.Load
import TelemetryEngine.Ingest.Topics
import TelemetryEngine.Ingest.Reconciliation
import TelemetryEngine.ColdTier.Names
import TelemetryEngine.ColdTier.Listing
import TelemetryEngine.ColdTier.Query
import TelemetryEngine.ColdTier.Failure
import TelemetryEngine.ColdTier.Health
import TelemetryEngine.ColdTier.PlanRange
import TelemetryEngine.Emitters.Pacing
import TelemetryEngine.ColdTier.Sorting
import TelemetryEngine.Storage.Drift
import TelemetryEngine.Foundation.RowNumber
import TelemetryEngine.ColdTier.Duplication
import TelemetryEngine.Ingest.DryRun
import TelemetryEngine.Ingest.AlterConfigs
import TelemetryEngine.Emitters.Measurements
import TelemetryEngine.Rollup.Status
import TelemetryEngine.Foundation.Quoting
import TelemetryEngine.Storage.Statements
import TelemetryEngine.Foundation.Stability
import TelemetryEngine.Experiments.Quiescence
import TelemetryEngine.Ingest.Lag
import TelemetryEngine.Foundation.OrderStatistics
import TelemetryEngine.Experiments.Percentiles
import TelemetryEngine.Foundation.Bisection
import TelemetryEngine.Emitters.Tenants
import TelemetryEngine.Foundation.LeftSums
import TelemetryEngine.Emitters.TargetIntegral
import TelemetryEngine.ColdTier.Chronology
import TelemetryEngine.Foundation.FloatText
import TelemetryEngine.Foundation.Exposition
import TelemetryEngine.Ingest.CollectorMetrics
import TelemetryEngine.Foundation.Grouping
import TelemetryEngine.Foundation.Resumption
import TelemetryEngine.ColdTier.Conservation
import TelemetryEngine.ColdTier.DailyVolume
import TelemetryEngine.ColdTier.Resume
import TelemetryEngine.Pipeline.EndToEnd
import TelemetryEngine.Rollup.Audit
import TelemetryEngine.Dashboards.Source
import TelemetryEngine.Dashboards.Overview
import TelemetryEngine.Dashboards.Cardinality
import TelemetryEngine.Foundation.Differences
import TelemetryEngine.Ingest.Monitor
import TelemetryEngine.Dashboards.PipelineHealth
import TelemetryEngine.Dashboards.LivePage
import TelemetryEngine.Foundation.Contracts
import TelemetryEngine.Experiments.Driver
import TelemetryEngine.Emitters.RunLoad
import TelemetryEngine.Pipeline.Live
import TelemetryEngine.Foundation.Location
import TelemetryEngine.Ingest.Latency
import TelemetryEngine.ColdTier.History
import TelemetryEngine.ColdTier.TopTenants
import TelemetryEngine.Pipeline.Archive
import TelemetryEngine.Emitters.Endpoint
import TelemetryEngine.Pipeline.Clients
import TelemetryEngine.Experiments.Recovery
