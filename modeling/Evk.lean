import Evk.Region
import Evk.RoundRobin
import Evk.PerSource
import Evk.Agenda
import Evk.TextCodec
import Evk.Machine
import Evk.Simulation
import Evk.Fault
import Evk.Wire
import Evk.Posix
import Evk.Buffer
import Evk.BufferInvariant
import Evk.BufferQueue
import Evk.TypedIntegers
import Evk.WireOrder
import Evk.BufferLimits
import Evk.PrependReserve
import Evk.BufferSpace
import Evk.InputStream
import Evk.Channel
import Evk.EPoller
import Evk.EventList
import Evk.Poller
import Evk.PollerIndex
import Evk.Backends
import Evk.TcpConnection
import Evk.OutputStream
import Evk.OrderedSet
import Evk.TimerQueue
import Evk.TimerLoop
import Evk.TimerOwnership
import Evk.TimerInvariant
import Evk.TimerFiring
import Evk.TimerArming
import Evk.TimerCancel
import Evk.Acceptor
import Evk.Server
import Evk.ServerHomes
import Evk.ServerPieces
import Evk.Life
import Evk.ServerLife
import Evk.Lifecycle
import Evk.WriteInterest
import Evk.Echo
import Evk.FlowControl
import Evk.LifeInvariant
import Evk.LifeFaults
import Evk.Notification
import Evk.GracefulShutdown
import Evk.CloseOnce
import Evk.Teardown
import Evk.EventLoop
import Evk.LoopThreads
import Evk.ChannelOwners
import Evk.FunctorQueue
import Evk.LoopRounds
import Evk.EventLoopThread
import Evk.EventLoopThreadPool
import Evk.LoopStop
import Evk.PoolThreads
import Evk.PoolStart
import Evk.ServerStart
import Evk.TimerIds
import Evk.SendCapture
import Evk.Registration
import Evk.PollerTurns
import Evk.ServerPollers
import Evk.ConnectionTable
import Evk.InetAddress
import Evk.TimeValue
import Evk.ServerDestruction
import Evk.ServerSpread
import Evk.LifeProgress
import Evk.ServerRest
import Evk.SendOrder
