import Retracer.Library.Table
import Retracer.Library.Shared
import Retracer.Library.Execution
import Retracer.Library.Traverse
import Retracer.Library.Replay
import Retracer.Library.Sorting
import Retracer.Library.Paging
import Retracer.Tip
import Retracer.Storage.Wire
import Retracer.Storage.Database
import Retracer.Storage.Insert
import Retracer.Storage.Rollback
import Retracer.Storage.Statements
import Retracer.Storage.HeightTables
import Retracer.Storage.Disputes
import Retracer.Storage.Delivery
import Retracer.Storage.Heights
import Retracer.Storage.Redelivery
import Retracer.Storage.Surviving
import Retracer.Storage.Kept
import Retracer.Storage.Reads
import Retracer.Storage.Snapshots
import Retracer.Storage.TornReads
import Retracer.Storage.AddressIndexes
import Retracer.Storage.Reindex
import Retracer.Storage.TokenEvents
import Retracer.Storage.Rebuild
import Retracer.Storage.Incremental
import Retracer.Storage.Maintained
import Retracer.Storage.DisputedFlag
import Retracer.Storage.ChainRows
import Retracer.Library.Versioned
import Retracer.Storage.StateReads
import Retracer.Storage.SparseTables
import Retracer.Storage.ChainState
import Retracer.Storage.AsOf
import Retracer.Library.Broadcast
import Retracer.Library.Grouping
import Retracer.Library.HashChain
import Retracer.Sse.Stream
import Retracer.Sse.FailedReplay
import Retracer.Sse.Feed
import Retracer.Sse.Handoff
import Retracer.Sse.Replaced
import Retracer.Webhooks.Hooks
import Retracer.Webhooks.Dispatch
import Retracer.Webhooks.Capped
import Retracer.Webhooks.Rows
import Retracer.Storage.Isolation
import Retracer.Storage.Projections
import Retracer.Storage.BlockActions
import Retracer.Storage.Anchored
import Retracer.Storage.Streamed
import Retracer.Storage.Collisions
import Retracer.Storage.Lookup
import Retracer.Storage.History
import Retracer.Storage.HistoryPages
import Retracer.Rest.Search
import Retracer.Webhooks.Pages
import Retracer.Webhooks.AtLeastOnce
import Retracer.Webhooks.Rearmed
import Retracer.Ingestion.Rpc
import Retracer.Indexing.Loop
import Retracer.Indexing.Transition
import Retracer.Indexing.Refusal
import Retracer.Indexing.Finality
import Retracer.Indexing.DurableTip
import Retracer.Indexing.Links
import Retracer.Ingestion.RpcBlock
import Retracer.Ingestion.Pending
import Retracer.Ingestion.Identities
import Retracer.Pipeline.System
import Retracer.Pipeline.Stored
import Retracer.Pipeline.Deadlock
import Retracer.Pipeline.Spine
import Retracer.Pipeline.Following
import Retracer.Pipeline.OneChain
import Retracer.Pipeline.LostCommit
import Retracer.Pipeline.Converging
import Retracer.Pipeline.Reorg
import Retracer.Library.Counting
import Retracer.Rest.Uptime
import Retracer.Sse.FromHeight
import Retracer.Sse.LiveFilter
import Retracer.Storage.SchemaConfig
import Retracer.Storage.Proposers
import Retracer.Storage.RoleNames
import Retracer.Storage.ReindexPages
import Retracer.Ingestion.Sequence
import Retracer.Library.InTurn
import Retracer.Library.Keyset
import Retracer.Storage.Positions
import Retracer.Storage.ListReads
import Retracer.Storage.ListPages
import Retracer.Storage.ListWalks
import Retracer.Webhooks.FailureClock
import Retracer.Library.Quoting
import Retracer.Library.Csv
import Retracer.Library.Prefixes
import Retracer.Library.Sweeping
import Retracer.Library.Escaping
import Retracer.Library.Sql
import Retracer.Storage.Transpose
import Retracer.Storage.ProjectionSql
import Retracer.Rest.AuditCsv
import Retracer.Rest.MetricLabels
import Retracer.Rest.UptimeCache
import Retracer.Auth.Cidr
import Retracer.Auth.ClientIp
import Retracer.Auth.RateLimiter
import Retracer.Auth.Guard
import Retracer.Library.Firsts
import Retracer.Storage.FirstSeen
import Retracer.Storage.Validators
import Retracer.Storage.AuditReads
import Retracer.Rest.AuditExports
import Retracer.Rest.Readiness
import Retracer.Rest.Stats
import Retracer.Rest.UptimeReport
import Retracer.Sse.Events
import Retracer.Rest.Lists
import Retracer.Rest.ListClients
import Retracer.Rest.TokenRollups
import Retracer.Webhooks.InOrder
