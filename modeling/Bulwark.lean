import Bulwark.Foundation.Text
import Bulwark.Foundation.Net
import Bulwark.Foundation.Glob
import Bulwark.Foundation.Selection
import Bulwark.Foundation.Runs
import Bulwark.Foundation.Bytes
import Bulwark.Foundation.Tally
import Bulwark.Foundation.Window
import Bulwark.Foundation.Lru
import Bulwark.Foundation.Utf8
import Bulwark.Foundation.SpaceSaving
import Bulwark.Foundation.Cursor
import Bulwark.Foundation.Regexp
import Bulwark.Foundation.Lines
import Bulwark.Foundation.Transaction
import Bulwark.Foundation.Like
import Bulwark.Foundation.Sql
import Bulwark.Foundation.Literal
import Bulwark.Foundation.Framing
import Bulwark.Foundation.Mailbox
import Bulwark.Foundation.Lease
import Bulwark.Foundation.Base64
import Bulwark.Foundation.Pin
import Bulwark.Foundation.AtomicFile
import Bulwark.Filter.Rule
import Bulwark.Filter.Token
import Bulwark.Filter.Regex
import Bulwark.Filter.Parser
import Bulwark.Filter.Compiler
import Bulwark.Filter.Index
import Bulwark.Filter.Engine
import Bulwark.Filter.Build
import Bulwark.Filter.Lookup
import Bulwark.Filter.Scan
import Bulwark.Filter.Winner
import Bulwark.Filter.Parsed
import Bulwark.Filter.Agreement
import Bulwark.Filter.HostsList
import Bulwark.Filter.Safety
import Bulwark.Filter.Front
import Bulwark.Filter.Prune
import Bulwark.Filter.Signature
import Bulwark.Filter.ClientBlind
import Bulwark.Filter.Rebuild
import Bulwark.Filter.ContentHash
import Bulwark.Filter.Dnsrewrite
import Bulwark.Filter.Wildcard
import Bulwark.Filter.Attribution
import Bulwark.Filter.ScriptTokens
import Bulwark.Dns.Message
import Bulwark.Dns.Decode
import Bulwark.Upstream.Transport
import Bulwark.Upstream.Pool
import Bulwark.Upstream.PoolSteps
import Bulwark.Upstream.SingleFlight
import Bulwark.Upstream.Returned
import Bulwark.Upstream.Traits
import Bulwark.Upstream.Health
import Bulwark.Upstream.Failover
import Bulwark.Upstream.Ordering
import Bulwark.Upstream.Demux
import Bulwark.Upstream.DemuxIds
import Bulwark.Upstream.AltSvc
import Bulwark.Upstream.Spec
import Bulwark.Upstream.SpecGrammar
import Bulwark.Upstream.Identity
import Bulwark.Upstream.ProbeLog
import Bulwark.Upstream.Tcp
import Bulwark.Upstream.DemuxReplies
import Bulwark.Upstream.Shared
import Bulwark.Upstream.SharedRuns
import Bulwark.Upstream.Bootstrap
import Bulwark.Upstream.Doh
import Bulwark.Upstream.DohRuns
import Bulwark.Upstream.DohVersions
import Bulwark.Upstream.Prober
import Bulwark.Upstream.Doq
import Bulwark.Upstream.DoqRuns
import Bulwark.Engine.Wire
import Bulwark.Engine.Patch
import Bulwark.Engine.Query
import Bulwark.Engine.QueryLog
import Bulwark.Engine.Stats
import Bulwark.Engine.StatsCounts
import Bulwark.Engine.StatsBound
import Bulwark.Engine.StatsSeries
import Bulwark.Engine.Cache
import Bulwark.Engine.CacheRuns
import Bulwark.Engine.Snapshot
import Bulwark.Engine.SnapshotRestore
import Bulwark.Engine.Block
import Bulwark.Engine.Clients
import Bulwark.Engine.ResponseFilter
import Bulwark.Engine.Handle
import Bulwark.Engine.HandleSteps
import Bulwark.Engine.CachedVerdicts
import Bulwark.Engine.Contract
import Bulwark.Engine.Exceptions
import Bulwark.Engine.Questions
import Bulwark.Engine.Fitting
import Bulwark.Engine.StatsLoad
import Bulwark.Engine.TopNames
import Bulwark.Engine.Identify
import Bulwark.Engine.Retention
import Bulwark.Engine.Lifetimes
import Bulwark.Engine.Import
import Bulwark.Engine.Recency
import Bulwark.Engine.Udp
import Bulwark.Engine.QuestionName
import Bulwark.Engine.Rewrite
import Bulwark.Engine.Listener
import Bulwark.Engine.ListenerRuns
import Bulwark.Engine.TopLists
import Bulwark.Server.Setup
import Bulwark.Server.LogStore
import Bulwark.Server.QueryStore
import Bulwark.Server.QueryPage
import Bulwark.Server.LogWriter
import Bulwark.Server.ProbeStore
import Bulwark.Server.Pipelines
import Bulwark.Server.Session
import Bulwark.Server.Guard
import Bulwark.Server.StatsFile
import Bulwark.Server.StatsRestart
import Bulwark.Api.Config
import Bulwark.Api.Requests
import Bulwark.Api.ListIds
import Bulwark.Api.Server
import Bulwark.Api.Serial
import Bulwark.Api.Failure
import Bulwark.Api.ListFiles
import Bulwark.Api.Upstreams
import Bulwark.Api.CustomRules
import Bulwark.Api.Restart
