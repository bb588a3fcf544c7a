import RedisServer.Lib.Program
import RedisServer.Lib.Noting
import RedisServer.Lib.Protocol
import RedisServer.Lib.Run
import RedisServer.Lib.Framing
import RedisServer.Lib.Stream
import RedisServer.Lib.Handover
import RedisServer.Lib.Map
import RedisServer.Lib.Registry
import RedisServer.Lib.FloatOrder
import RedisServer.Lib.Layout
import RedisServer.Lib.Lzf
import RedisServer.Lib.Wildcard
import RedisServer.Lib.Spacing
import RedisServer.Lib.FloatCast
import RedisServer.Lib.Grid
import RedisServer.Lib.Tail
import RedisServer.Lib.Backlog
import RedisServer.Text
import RedisServer.Resp
import RedisServer.Wire
import RedisServer.Grammar
import RedisServer.Aof
import RedisServer.Manifest
import RedisServer.Spelling
import RedisServer.Store.EntryId
import RedisServer.Store.SortedSet
import RedisServer.Store.State
import RedisServer.Store.Strings
import RedisServer.Store.Lists
import RedisServer.Store.Streams
import RedisServer.Store.SortedSets
import RedisServer.Store.Call
import RedisServer.Store.Keyspace
import RedisServer.Store.Refine
import RedisServer.Store.Waiters
import RedisServer.Store.Invariant
import RedisServer.Store.Expiry
import RedisServer.Store.Blocking
import RedisServer.Store.Queues
import RedisServer.Store.Windows
import RedisServer.Store.Numbering
import RedisServer.Store.Scores
import RedisServer.Store.Lingering
import RedisServer.Store.Tail
import RedisServer.Glob
import RedisServer.Globbing
import RedisServer.Rdb
import RedisServer.Unsqueezing
import RedisServer.Untrusted
import RedisServer.Dataset
import RedisServer.Server.World
import RedisServer.Server.Frames
import RedisServer.Commands.Command
import RedisServer.Commands.Strings
import RedisServer.Commands.Lists
import RedisServer.Commands.Streams
import RedisServer.Commands.SortedSets
import RedisServer.Commands.Geo
import RedisServer.Commands.Panicking
import RedisServer.Commands.Weaving
import RedisServer.Commands.Decoding
import RedisServer.Commands.Exact
import RedisServer.Commands.Administration
import RedisServer.Commands.Pubsub
import RedisServer.Commands.Ranges
import RedisServer.Commands.Dispatch
import RedisServer.Store.Settled
import RedisServer.Store.Doing
import RedisServer.Store.Watchers
import RedisServer.Commands.Shape
import RedisServer.Commands.Passing
import RedisServer.Commands.Watching
import RedisServer.Commands.Transacting
import RedisServer.Commands.Listening
import RedisServer.Commands.Speaking
import RedisServer.Commands.Subscribing
import RedisServer.Commands.Parking
import RedisServer.Commands.Admission
import RedisServer.Commands.Effect
import RedisServer.Commands.Owing
import RedisServer.Commands.Refused
import RedisServer.Commands.Clean
import RedisServer.Commands.Replies
import RedisServer.Commands.Execution
import RedisServer.Commands.Tail
import RedisServer.Server.Service
import RedisServer.Server.Reading
import RedisServer.Server.Replicas
import RedisServer.Server.Following
import RedisServer.Recovery.Replay
import RedisServer.Recovery.History
import RedisServer.Recovery.Sequential
import RedisServer.Recovery.Stopping
import RedisServer.Recovery.Missed
import RedisServer.Recovery.Timed
import RedisServer.Recovery.Ids
import RedisServer.Recovery.Deadlines
import RedisServer.Concurrency.Pool
import RedisServer.Concurrency.Replicating
import RedisServer.Concurrency.Handover
import RedisServer.Concurrency.Waiting
import RedisServer.Concurrency.Storing
import RedisServer.Concurrency.Watching
import RedisServer.Concurrency.Isolation
import RedisServer.Concurrency.Admission
import RedisServer.Concurrency.Registry
import RedisServer.Concurrency.Hearing
import RedisServer.Concurrency.Parked
import RedisServer.Concurrency.HangingUp
import RedisServer.Concurrency.Alert
import RedisServer.Concurrency.Lingering
import RedisServer.Concurrency.Tail
import RedisServer.Recovery.Owing
import RedisServer.Concurrency.Owing
import RedisServer.Recovery.Interleaved
