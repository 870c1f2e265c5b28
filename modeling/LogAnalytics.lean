import LogAnalytics.Lib.Runs
import LogAnalytics.Lib.Files
import LogAnalytics.Lib.Group
import LogAnalytics.Lib.Calendar
import LogAnalytics.Lib.Digits
import LogAnalytics.Lib.Loops
import LogAnalytics.Lib.Counter
import LogAnalytics.Lib.TokenBucket
import LogAnalytics.Lib.Recency
import LogAnalytics.Lib.Assoc
import LogAnalytics.Lib.Counts
import LogAnalytics.Lib.Csv
import LogAnalytics.Lib.Rounding
import LogAnalytics.Lib.Like
import LogAnalytics.Lib.ThreeValued
import LogAnalytics.Lib.Regex
import LogAnalytics.Lib.RegexScan
import LogAnalytics.Lib.Replace
import LogAnalytics.Lib.Utf8
import LogAnalytics.Exn
import LogAnalytics.Models.Text
import LogAnalytics.Models.Results
import LogAnalytics.Validation.Dlq
import LogAnalytics.Lib.Json
import LogAnalytics.Lib.JsonPrefix
import LogAnalytics.Validation.Rejections
import LogAnalytics.Validation.DeadLetterLog
import LogAnalytics.Validation.Threads
import LogAnalytics.Validation.Recovery
import LogAnalytics.Validation.Durability
import LogAnalytics.Validation.Since
import LogAnalytics.Timeutil
import LogAnalytics.Paths
import LogAnalytics.Deduplication
import LogAnalytics.SeenKeys
import LogAnalytics.Stream.Processor
import LogAnalytics.Stream.Effects
import LogAnalytics.Stream.Accounting
import LogAnalytics.Stream.Consumer
import LogAnalytics.Stream.CommitSafety
import LogAnalytics.Stream.EffectivelyOnce
import LogAnalytics.Storage.Parquet
import LogAnalytics.Storage.ParquetEffects
import LogAnalytics.Storage.Text
import LogAnalytics.Storage.EventStore
import LogAnalytics.Storage.Jsonl
import LogAnalytics.Storage.Crash
import LogAnalytics.Models.Records
import LogAnalytics.Pipeline.Orchestrator
import LogAnalytics.Pipeline.Effects
import LogAnalytics.Pipeline.Conservation
import LogAnalytics.Storage.FlushRetry
import LogAnalytics.Storage.Partitioning
import LogAnalytics.Storage.Pruning
import LogAnalytics.Storage.Dataset
import LogAnalytics.Storage.ReadBack
import LogAnalytics.Jobs.Compact
import LogAnalytics.Jobs.Cleanup
import LogAnalytics.Pipeline.ErrorRate
import LogAnalytics.Pipeline.RunMany
import LogAnalytics.Pipeline.Parallel
import LogAnalytics.Pipeline.Simulation
import LogAnalytics.Masking
import LogAnalytics.MaskingRules
import LogAnalytics.MaskingTriggers
import LogAnalytics.MaskingSecrets
import LogAnalytics.MaskingNoninterference
import LogAnalytics.Pipeline.Duplicates
import LogAnalytics.Jobs.Ingest
import LogAnalytics.Search.Service
import LogAnalytics.Search.Export
import LogAnalytics.Search.Keyset
import LogAnalytics.Search.Syntax
import LogAnalytics.Search.Tokenizer
import LogAnalytics.Search.Parser
import LogAnalytics.Search.Compile
import LogAnalytics.Search.Injection
import LogAnalytics.Search.Grammar
import LogAnalytics.Search.Conformance
import LogAnalytics.Search.RoundTrip
import LogAnalytics.Models.Value
import LogAnalytics.Timestamps
import LogAnalytics.Models.LogEvent
import LogAnalytics.Parsers.Base
import LogAnalytics.Validation.Validators
import LogAnalytics.Storage.Schema
import LogAnalytics.Parsers.Coerce
import LogAnalytics.Parsers.Text
import LogAnalytics.Parsers.Custom
import LogAnalytics.Parsers.Verdicts
import LogAnalytics.Parsers.Registry
import LogAnalytics.Pipeline.Assembly
import LogAnalytics.Pipeline.Determinism
import LogAnalytics.Pipeline.Containment
import LogAnalytics.Parsers.Structured
import LogAnalytics.Parsers.Access
import LogAnalytics.Transformation.Enrichment
import LogAnalytics.Analytics.Scope
import LogAnalytics.Search.Patterns
import LogAnalytics.Search.Semantics
import LogAnalytics.Search.Complement
import LogAnalytics.Search.Colons
import LogAnalytics.Search.Overlong
import LogAnalytics.Analytics.Agreement
import LogAnalytics.Analytics.StatusCodes
import LogAnalytics.Analytics.TimeSeries
import LogAnalytics.Cache.Backends
import LogAnalytics.Cache.Memory
import LogAnalytics.CircuitBreaker
import LogAnalytics.Api.CacheKeys
import LogAnalytics.Api.RateLimit
import LogAnalytics.Api.Limiter
import LogAnalytics.Api.PrincipalCache
import LogAnalytics.Api.Authorization
import LogAnalytics.Workers.Queue
import LogAnalytics.Workers.Discipline
import LogAnalytics.Workers.Pruning
import LogAnalytics.Workers.Shutdown
import LogAnalytics.Transformation.Cleaning
import LogAnalytics.Transformation.Normalization
import LogAnalytics.Transformation.Chain
import LogAnalytics.Lib.Separated
import LogAnalytics.Hashing
import LogAnalytics.Pipeline.Identity
import LogAnalytics.Ingestion.Files
import LogAnalytics.Ingestion.Columns
import LogAnalytics.Ingestion.Isolation
import LogAnalytics.Ingestion.HttpApi
import LogAnalytics.Ingestion.Redirects
import LogAnalytics.Ingestion.Paging
import LogAnalytics.Lib.Lexer
import LogAnalytics.Lib.Windows
import LogAnalytics.Ingestion.Select
import LogAnalytics.Ingestion.Database
import LogAnalytics.Pipeline.Reasons
import LogAnalytics.Parsers.Aliases
import LogAnalytics.Parsers.Mapping
import LogAnalytics.Parsers.Losses
import LogAnalytics.Ingestion.Columns
import LogAnalytics.Lib.Json
import LogAnalytics.Lib.JsonPrefix
import LogAnalytics.Validation.Rejections
import LogAnalytics.Validation.DeadLetterLog
import LogAnalytics.Validation.Threads
import LogAnalytics.Validation.Recovery
import LogAnalytics.Validation.Durability
import LogAnalytics.Lib.RegexFirst
import LogAnalytics.Parsers.AccessPatterns
import LogAnalytics.Parsers.AccessRoundTrip
import LogAnalytics.Analytics.Statistics
import LogAnalytics.Lib.Table
import LogAnalytics.AnomalyDetection.Detectors
import LogAnalytics.Lib.Causal
import LogAnalytics.AnomalyDetection.Online
import LogAnalytics.AnomalyDetection.Service
import LogAnalytics.Epochs
import LogAnalytics.Analytics.Buckets
import LogAnalytics.Analytics.Buckets
import LogAnalytics.Analytics.Days
import LogAnalytics.Analytics.TopN
import LogAnalytics.Lib.Ranking
import LogAnalytics.Analytics.TopN
import LogAnalytics.Lib.Expiry
import LogAnalytics.Stream.LiveWindow
import LogAnalytics.Stream.GivenWindow
import LogAnalytics.Pipeline.Handed
import LogAnalytics.Storage.Shared
import LogAnalytics.Pipeline.SharedRuns
import LogAnalytics.Pipeline.OutputNames
import LogAnalytics.Analytics.Percentiles
import LogAnalytics.Retry
import LogAnalytics.Analytics.Security
import LogAnalytics.Registry
import LogAnalytics.Transformation.Templates
import LogAnalytics.Outages
import LogAnalytics.Cache.Redis
import LogAnalytics.Api.RevocationWindow
import LogAnalytics.Cache.Agreement
import LogAnalytics.Lib.CsvWriter
import LogAnalytics.Storage.CsvExport
