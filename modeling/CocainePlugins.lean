import CocainePlugins.Framework.Transition
import CocainePlugins.Framework.Timer
import CocainePlugins.Node.Error
import CocainePlugins.Node.Slave.State
import CocainePlugins.Node.Slave.Machine
import CocainePlugins.Node.Slave.Step
import CocainePlugins.Node.Slave.Inactive
import CocainePlugins.Node.Slave.Owner
import CocainePlugins.Node.Slave.Evolve
import CocainePlugins.Node.Slave.Cleanup
import CocainePlugins.Framework.Word
import CocainePlugins.Node.Engine.State
import CocainePlugins.Node.Engine.Dispatch
import CocainePlugins.Node.Engine.Rebalance
import CocainePlugins.Node.Engine.Step
import CocainePlugins.Node.Engine.Flow
import CocainePlugins.Node.Slave.Active
import CocainePlugins.Node.Engine.Moves
import CocainePlugins.Node.Engine.Pool
import CocainePlugins.Node.Engine.Capacity
import CocainePlugins.Node.Engine.Conserve
import CocainePlugins.Node.Engine.Wakeup
import CocainePlugins.Framework.Stream
import CocainePlugins.Node.Engine.Enqueue
import CocainePlugins.Node.Engine.Terminal
import CocainePlugins.Node.Engine.Codes
import CocainePlugins.Node.Engine.Active
import CocainePlugins.Node.Engine.Publish
import CocainePlugins.Framework.Dynamic
import CocainePlugins.Framework.Tree
import CocainePlugins.Unicorn.Acl
import CocainePlugins.Unicorn.Atomic
import CocainePlugins.Unicorn.Feed
import CocainePlugins.Unicorn.Protect
import CocainePlugins.Unicorn.Subscribe
import CocainePlugins.Unicorn.Grant
import CocainePlugins.Unicorn.Mutex
import CocainePlugins.Framework.Optimistic
import CocainePlugins.Node.App
import CocainePlugins.Node.Slave.Accounts
import CocainePlugins.Unicat.Authority
import CocainePlugins.Unicat.Concurrent
import CocainePlugins.Unicorn.Inquiry
import CocainePlugins.Vicodyn.Dispatch
import CocainePlugins.Vicodyn.Replay
import CocainePlugins.Vicodyn.Retry
import CocainePlugins.Isolate.External
import CocainePlugins.Isolate.Outcome
import CocainePlugins.Isolate.Stranded
import CocainePlugins.Unicorn.Cluster
import CocainePlugins.Unicorn.Connection
import CocainePlugins.Vicodyn.Answer
import CocainePlugins.Vicodyn.Gateway
import CocainePlugins.Vicodyn.Peer
import CocainePlugins.Logging.Load
import CocainePlugins.Logging.Metafilter
import CocainePlugins.Logging.Named
import CocainePlugins.Uniresis.Updater
import CocainePlugins.Chrono.Timers
import CocainePlugins.Framework.Double
import CocainePlugins.Framework.OrderedMap
import CocainePlugins.Ipvs.Gateway
import CocainePlugins.Node.Client
import CocainePlugins.Node.Document
import CocainePlugins.Node.Engine.Backoff
import CocainePlugins.Node.Engine.Expiry
import CocainePlugins.Node.Engine.Growth
import CocainePlugins.Node.Service
import CocainePlugins.Postgres.Index
import CocainePlugins.Framework.Assoc
import CocainePlugins.Framework.Lexicographic
import CocainePlugins.Framework.Lines
import CocainePlugins.Framework.SortedUnion
import CocainePlugins.Isolate.Drain
import CocainePlugins.Logging.Compare
import CocainePlugins.Logging.Grammar
import CocainePlugins.Logging.Semantics
import CocainePlugins.Node.Metrics.Counters
import CocainePlugins.Node.Metrics.Ledger
import CocainePlugins.Node.Slave.Output
import CocainePlugins.Cache.Lru
import CocainePlugins.Framework.Nested
import CocainePlugins.Graphite.Flush
import CocainePlugins.Logging.Cleanup
import CocainePlugins.Logging.Ttl
import CocainePlugins.Metrics.Output
import CocainePlugins.Metrics.Query
import CocainePlugins.Postgres.Pool
import CocainePlugins.Unicat.Alterations
import CocainePlugins.Vicodyn.Buffering
import CocainePlugins.Vicodyn.Undo
import CocainePlugins.Framework.Occurrences
import CocainePlugins.Unicorn.Prefix
import CocainePlugins.Vicodyn.Balancer
