import JanusGraph.Lib.Prog
import JanusGraph.Lib.Table
import JanusGraph.Lib.Chase
import JanusGraph.Lib.Repeats
import JanusGraph.Lib.Python
import JanusGraph.Lib.Semaphore
import JanusGraph.Lib.Sqlite
import JanusGraph.Lib.Interleave
import JanusGraph.Lib.Work
import JanusGraph.Queue.Schema
import JanusGraph.Queue.Policy
import JanusGraph.Queue.Queue
import JanusGraph.Queue.Effect
import JanusGraph.Queue.Transition
import JanusGraph.Queue.DeadLetters
import JanusGraph.Queue.Replay
import JanusGraph.Queue.Exclusive
import JanusGraph.Queue.Worker
import JanusGraph.Queue.Stranded
import JanusGraph.Queue.ReferenceTime
import JanusGraph.Queue.Attempts
import JanusGraph.Queue.Overlap
import JanusGraph.Queue.Enqueue
import JanusGraph.Queue.ReplayAtomicity
import JanusGraph.Queue.Processes
import JanusGraph.Queue.ClaimRace
import JanusGraph.Queue.IndexInvariant
import JanusGraph.Queue.IndexDiscipline
import JanusGraph.Queue.Stale
import JanusGraph.Queue.UniqueIndex
import JanusGraph.Queue.WriterParity
import JanusGraph.Queue.PayloadHash
import JanusGraph.Graph.Schema
import JanusGraph.Graph.Plan
import JanusGraph.Graph.Fold
import JanusGraph.Graph.Classify
import JanusGraph.Graph.Redirect
import JanusGraph.Heuristics.Rules
import JanusGraph.Heuristics.Client
import JanusGraph.Graph.Serve
import JanusGraph.Graph.Match
import JanusGraph.Graph.FoldRun
import JanusGraph.Graph.Dedup
import JanusGraph.Graph.Apply
import JanusGraph.Graph.Chains
import JanusGraph.Graph.ApplyOutcome
import JanusGraph.Graph.ApplyRun
import JanusGraph.Graph.Frame
import JanusGraph.Graph.Disturb
import JanusGraph.Graph.Lossless
import JanusGraph.Graph.Kept
import JanusGraph.Graph.FoldOutcome
import JanusGraph.Graph.FoldCorrect
import JanusGraph.Graph.CrashSafe
import JanusGraph.Graph.Undo
import JanusGraph.Daemon.Breaker
import JanusGraph.Daemon.Probe
import JanusGraph.Daemon.RestartPolicy
import JanusGraph.Lib.Plurality
import JanusGraph.Dream.Phases
import JanusGraph.Dream.Adjacency
import JanusGraph.Dream.Components
import JanusGraph.Dream.Labels
import JanusGraph.Dream.Period
import JanusGraph.Dream.Communities
import JanusGraph.Dream.Presentation
import JanusGraph.Dream.Resolution
import JanusGraph.Dream.Prune
import JanusGraph.Dream.PruneRace
import JanusGraph.Graph.Snapshot
import JanusGraph.Graph.Moved
import JanusGraph.Graph.Agree
import JanusGraph.Queue.Refusal
import JanusGraph.Queue.Backstop
import JanusGraph.Lib.Rotation
import JanusGraph.Queue.Backfill
import JanusGraph.Queue.Fairness
import JanusGraph.Lib.Replace
import JanusGraph.Search.Cypher
import JanusGraph.Mcp.ReadOnly
import JanusGraph.Lib.Sorting
import JanusGraph.Lib.Float
import JanusGraph.Search.Embedding
import JanusGraph.Search.Engine
import JanusGraph.Search.Filters
import JanusGraph.Search.Outage
import JanusGraph.Graph.DropCounters
import JanusGraph.Graph.PlanExact
import JanusGraph.Graph.PlanOrder
import JanusGraph.Queue.ReapStats
import JanusGraph.Heuristics.Found
import JanusGraph.Queue.Deadline
import JanusGraph.Search.Dominance
import JanusGraph.Cache.EmbedCache
import JanusGraph.Daemon.RestartGate
import JanusGraph.Daemon.TokenBucket
import JanusGraph.Dream.Fingerprint
import JanusGraph.Lib.Calendar
import JanusGraph.Lib.IsoFormat
import JanusGraph.Queue.Fifo
import JanusGraph.Search.CompactReply
import JanusGraph.Search.Memory
import JanusGraph.Search.Provenance
import JanusGraph.Cache.Clients
import JanusGraph.Daemon.CronLoop
import JanusGraph.Daemon.Daily
import JanusGraph.Queue.Waiting
import JanusGraph.Report.FileSink
import JanusGraph.Lib.Counting
import JanusGraph.Queue.Accounting
import JanusGraph.Queue.Statistics
import JanusGraph.Dream.Converge
import JanusGraph.Dream.Audit
import JanusGraph.Lib.Wal
import JanusGraph.Migrate.Resume
import JanusGraph.Lib.Blocks
import JanusGraph.Queue.Justified
import JanusGraph.Daemon.Episodes
import JanusGraph.Daemon.Lifespan
import JanusGraph.Queue.DedupStats
import JanusGraph.Dream.Failures
