import KimRpc.Library.HeaderFraming
import KimRpc.Library.Runs
import KimRpc.Server.Pipelining
import KimRpc.Client.CallMethod
import KimRpc.Client.Reconnect
import KimRpc.Client.Orphans
import KimRpc.Client.TcpClient
import KimRpc.Server.Reactor
import KimRpc.Server.Lifecycle
import KimRpc.Server.Handlers
import KimRpc.Server.Quiet
import KimRpc.Server.ContextClasses
import KimRpc.Server.SocketIsolation
import KimRpc.Server.TwoServers
import KimRpc.Client.Connections
import KimRpc.Client.Routing
import KimRpc.Client.RequestStream
import KimRpc.Client.Nesting
import KimRpc.Client.Waiting
import KimRpc.Server.Backpressure
import KimRpc.Server.Notifications
import KimRpc.Coroutine.SyncWait
import KimRpc.Discovery.WatchResume
import KimRpc.Discovery.WatchChunks
import KimRpc.Discovery.Registration
import KimRpc.Server.ReadLimits
import KimRpc.Discovery.KeepAlive
import KimRpc.Discovery.RoundRobin
import KimRpc.Client.AsyncClient
import KimRpc.Network.Calls
import KimRpc.Server.BufferRing
import KimRpc.Server.WorkerPool
import KimRpc.Server.Listening
import KimRpc.Application.LockQueue
import KimRpc.Client.Dialling
