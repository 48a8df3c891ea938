import Kivo.Engine.ArrayRuns
import Kivo.Engine.HashRuns
import Kivo.Engine.OutOfMemory
import Kivo.Engine.RbtreeCost
import Kivo.Engine.RbtreeRuns
import Kivo.Engine.SkipRuns
import Kivo.MemPool.Routes
import Kivo.Net.Backends
import Kivo.Net.Clients
import Kivo.Net.Service
import Kivo.Net.WriteBuffer
import Kivo.Persistence.AofClose
import Kivo.Persistence.CrashRecovery
import Kivo.Persistence.Deadlines
import Kivo.Persistence.Recovery
import Kivo.Persistence.Restart
import Kivo.Persistence.SaveProcess
import Kivo.Persistence.SemanticCache
import Kivo.Persistence.SnapshotChecksum
import Kivo.Persistence.SnapshotRoundTrip
import Kivo.Persistence.Startup
import Kivo.Relay.Filter
import Kivo.Relay.Flushing
import Kivo.Relay.Mirror
import Kivo.Repl.Backlog
import Kivo.Repl.FullSync
import Kivo.Repl.Handshake
import Kivo.Repl.RdmaSync
import Kivo.Repl.Replica
import Kivo.Resp.Canonical
import Kivo.Resp.Progress
import Kivo.Resp.Rejection
import Kivo.Server.ActiveExpiry
import Kivo.Server.ArgumentBounds
import Kivo.Server.ConfigFile
import Kivo.Server.ContextTime
import Kivo.Server.ExpireRounds
import Kivo.Server.FrameReads
import Kivo.Server.IdLists
import Kivo.Server.IndexedRecords
import Kivo.Server.LazyExpiry
import Kivo.Server.QueueSteps
import Kivo.Server.ReadBack
import Kivo.Server.RecentCount
import Kivo.Server.TimeIndex
import Kivo.Server.TimerRuns
import Kivo.Server.Ttl
