import LogRisk.Agentic.Accounting
import LogRisk.Agentic.Compiler
import LogRisk.Agentic.Gate
import LogRisk.Agentic.WorkflowRuns
import LogRisk.Analytics.Exports
import LogRisk.Analytics.UnionRows
import LogRisk.Approval.Distinct
import LogRisk.Approval.Reuse
import LogRisk.Approval.Signatures
import LogRisk.Benchmark.Finality
import LogRisk.Database.Placeholders
import LogRisk.DrainEval.Merges
import LogRisk.Events.Delivery
import LogRisk.Events.Saves
import LogRisk.FileSource.OncePerLine
import LogRisk.FileSource.Reader
import LogRisk.FileSource.Resume
import LogRisk.Governance.History
import LogRisk.Governance.Interleaving
import LogRisk.Governance.Validity
import LogRisk.Jobs.Collapse
import LogRisk.Jobs.Export
import LogRisk.Kafka.Adapter
import LogRisk.Kafka.ExactlyOnce
import LogRisk.Kafka.Invariant
import LogRisk.Kafka.Pipeline
import LogRisk.Knowledge.LifeCycle
import LogRisk.Ledger.Analysis
import LogRisk.Ledger.Coverage
import LogRisk.Ledger.FinishCall
import LogRisk.Ledger.IngestedOnce
import LogRisk.Ledger.Ingestion
import LogRisk.Ledger.RangeAlgebra
import LogRisk.Ledger.Ranges
import LogRisk.Ledger.RootStatus
import LogRisk.Ledger.Run
import LogRisk.Ledger.Tables
import LogRisk.Ledger.TokenDensity
import LogRisk.Library.Checks
import LogRisk.Library.Dict
import LogRisk.Library.Intervals
import LogRisk.Library.IsoTime
import LogRisk.Library.Json
import LogRisk.Library.JsonLines
import LogRisk.Library.JsonText
import LogRisk.Library.KeyedIntervals
import LogRisk.Library.Layering
import LogRisk.Library.LineFiles
import LogRisk.Library.Lines
import LogRisk.Library.Log
import LogRisk.Library.Paging
import LogRisk.Library.Pool
import LogRisk.Library.Pyformat
import LogRisk.Library.Scatter
import LogRisk.Library.Splice
import LogRisk.Library.Text
import LogRisk.Library.Transaction
import LogRisk.Library.Utf8
import LogRisk.Library.Value
import LogRisk.Library.Writers
import LogRisk.Mining.Collision
import LogRisk.Mining.LargeFile
import LogRisk.Mining.Spool
import LogRisk.Mining.Spooled
import LogRisk.Mining.SpooledPool
import LogRisk.Mining.SpooledWindows
import LogRisk.MultiSource.Arrangement
import LogRisk.MultiSource.Incremental
import LogRisk.NodeRisk.EventWindows
import LogRisk.NodeRisk.ScoreRange
import LogRisk.NodeRisk.Scoring
import LogRisk.NodeRisk.Workers
import LogRisk.Problems.Partition
import LogRisk.Problems.Safety
import LogRisk.Prompts.Snapshots
import LogRisk.Reports.Lifecycle
import LogRisk.Results.Apart
import LogRisk.Results.Build
import LogRisk.Results.Fold
import LogRisk.Results.Overlap
import LogRisk.Results.Reading
import LogRisk.Results.Resume
import LogRisk.Results.Scores
import LogRisk.Results.Tables
import LogRisk.Results.Workers
import LogRisk.Review.Outcome
import LogRisk.RiskSemantics.Bundles
import LogRisk.RiskSemantics.Documents
import LogRisk.RiskSemantics.Extraction
import LogRisk.RiskSemantics.Published
import LogRisk.RiskSemantics.Registry
import LogRisk.RiskSemantics.Rollback
import LogRisk.RiskSemantics.RuleStore
import LogRisk.RiskSemantics.Soundness
import LogRisk.Runtime.Retention
import LogRisk.Semantic.Active
import LogRisk.Semantic.Masking
import LogRisk.ServerRisk.CoversDay
import LogRisk.ServerRisk.DateRanges
import LogRisk.ServerRisk.Episodes
import LogRisk.ServerRisk.SubmittedOnce
import LogRisk.Streaming.Checkpoint
import LogRisk.Streaming.Commit
import LogRisk.Streaming.Cursor
import LogRisk.Streaming.Lease
import LogRisk.Streaming.Prefix
import LogRisk.Streaming.PrefixRun
import LogRisk.Streaming.Rules
import LogRisk.Streaming.Run
import LogRisk.Streaming.Store
import LogRisk.Streaming.Task
import LogRisk.Windows.Aggregator
import LogRisk.Windows.Arrival
import LogRisk.Windows.Batches
import LogRisk.Windows.Merge
import LogRisk.Windows.Split
