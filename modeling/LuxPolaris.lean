import LuxPolaris.Outcome
import LuxPolaris.Runtime
import LuxPolaris.Slice
import LuxPolaris.Buffer
import LuxPolaris.BufferContents
import LuxPolaris.BufferRefinement
import LuxPolaris.ByteOrder
import LuxPolaris.BufferIntegers
import LuxPolaris.IntegerCodec
import LuxPolaris.Channel
import LuxPolaris.EPollPoller
import LuxPolaris.PollerKernel
import LuxPolaris.TCPConnection
import LuxPolaris.OutputStream
import LuxPolaris.SortedSet
import LuxPolaris.TimerQueue
import LuxPolaris.TimerOwnership
import LuxPolaris.TimerExpiry
import LuxPolaris.TimerRuns
import LuxPolaris.TimerCancel
import LuxPolaris.TimerArming
import LuxPolaris.TimerThreads
import LuxPolaris.TimerIdentity
import LuxPolaris.EventLoop
import LuxPolaris.EventLoopInvariant
import LuxPolaris.PendingFunctors
import LuxPolaris.WakeUp
import LuxPolaris.QuitOrder
import LuxPolaris.EventLoopThread
import LuxPolaris.Connector
import LuxPolaris.ConnectorInvariant
import LuxPolaris.ConnectorConsistency
import LuxPolaris.TCPServer
import LuxPolaris.ConnectionStates
import LuxPolaris.ConnectionPlace
import LuxPolaris.ServerSteps
import LuxPolaris.ConnectionLifecycle
import LuxPolaris.ConnectionLoop
import LuxPolaris.ClosedConnection
import LuxPolaris.ConnectionThreads
import LuxPolaris.ConnectionOutput
import LuxPolaris.SendInvariant
import LuxPolaris.SendOrder
import LuxPolaris.GracefulShutdown
import LuxPolaris.InetAddress
import LuxPolaris.InFlight
import LuxPolaris.ServerLoops
import LuxPolaris.ServerRegistry
import LuxPolaris.RegistrySteps
import LuxPolaris.RegistryRuns
import LuxPolaris.BufferReads
import LuxPolaris.OutputNotifications
import LuxPolaris.TimerFates
import LuxPolaris.TimerBatch
import LuxPolaris.TimerFrame
import LuxPolaris.ClosingThreads
import LuxPolaris.ConnectionReferences
import LuxPolaris.Descriptors
import LuxPolaris.ConnectorSockets
import LuxPolaris.ClientStop
import LuxPolaris.LoopChannels
import LuxPolaris.Dispatch
import LuxPolaris.ConnectionOwners
import LuxPolaris.OwnerTeardown
import LuxPolaris.BufferPrograms
import LuxPolaris.BufferReservation
import LuxPolaris.BufferMoves
import LuxPolaris.ClientNames
import LuxPolaris.ReadingState
import LuxPolaris.InputStream
import LuxPolaris.ConnectionPair
import LuxPolaris.ConnectionDelivery
import LuxPolaris.PollEvents
import LuxPolaris.SlotTable
import LuxPolaris.Acceptor
import LuxPolaris.AcceptorRuns
import LuxPolaris.AcceptorReserve
import LuxPolaris.Framing
import LuxPolaris.LineReading
import LuxPolaris.PoolBalance
import LuxPolaris.TimerPace
import LuxPolaris.EchoServer
import LuxPolaris.ClientProgress
import LuxPolaris.Ownership
import LuxPolaris.LuxAny
import LuxPolaris.AnyOwnership
import LuxPolaris.AnyValues
