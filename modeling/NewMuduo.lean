import NewMuduo.Machine
import NewMuduo.Simulation
import NewMuduo.Splice
import NewMuduo.Owners
import NewMuduo.OrderedSet
import NewMuduo.Ledger
import NewMuduo.Errands
import NewMuduo.TaggedPointer
import NewMuduo.Linked
import NewMuduo.Places
import NewMuduo.LFMemoryPool
import NewMuduo.FreeLists
import NewMuduo.PoolBlocks
import NewMuduo.HazardPointer
import NewMuduo.HazardRecords
import NewMuduo.HazardScans
import NewMuduo.Buffer
import NewMuduo.BufferContents
import NewMuduo.BufferRuns
import NewMuduo.Channel
import NewMuduo.EpollPoller
import NewMuduo.EpollInterest
import NewMuduo.Acceptor
import NewMuduo.EpollAsserts
import NewMuduo.TcpConnection
import NewMuduo.ConnectionLoop
import NewMuduo.ConnectionStream
import NewMuduo.ConnectionClose
import NewMuduo.ConnectionReceive
import NewMuduo.ConnectionEffects
import NewMuduo.ConnectionThreads
import NewMuduo.ConnectionDisconnect
import NewMuduo.ConnectionTraffic
import NewMuduo.ConnectionShutdown
import NewMuduo.ConnectionRefs
import NewMuduo.EventLoop
import NewMuduo.EventLoopQueue
import NewMuduo.EventLoopThread
import NewMuduo.EventLoopQuit
import NewMuduo.CoroScheduler
import NewMuduo.MPMCQueue
import NewMuduo.MPMCPositions
import NewMuduo.MPMCContents
import NewMuduo.MPMCQueueV2
import NewMuduo.MPMCRefinement
import NewMuduo.Tally
import NewMuduo.Monitor
import NewMuduo.ThreadPool
import NewMuduo.ThreadPoolMoves
import NewMuduo.ThreadPoolTasks
import NewMuduo.ThreadPoolFloor
import NewMuduo.Termination
import NewMuduo.ThreadPoolStop
import NewMuduo.ThreadPoolReturns
import NewMuduo.LockFreeThreadPool
import NewMuduo.LockFreeThreadPoolTokens
import NewMuduo.LockFreeThreadPoolRuns
import NewMuduo.TimerQueue
import NewMuduo.TimerSets
import NewMuduo.TimerLedger
import NewMuduo.TimerRuns
import NewMuduo.TimerThreads
import NewMuduo.TimerMemory
import NewMuduo.TimerCancel
import NewMuduo.TimerCreation
import NewMuduo.TimerArming
import NewMuduo.TcpServer
import NewMuduo.ConnectionLife
import NewMuduo.ServerConnections
import NewMuduo.ServerDestruction
import NewMuduo.ServerDestructionRuns
import NewMuduo.DynamicThreadPool
import NewMuduo.DynamicThreadPoolMoves
import NewMuduo.DynamicThreadPoolCount
import NewMuduo.DynamicThreadPoolBounds
import NewMuduo.DynamicThreadPoolStop
import NewMuduo.Extents
import NewMuduo.MemPool
import NewMuduo.MemPoolBlocks
import NewMuduo.MemPoolRuns
import NewMuduo.CoroTcpConnection
import NewMuduo.CoroConnectionRuns
import NewMuduo.Awaitables
import NewMuduo.CoroChannels
import NewMuduo.Ring
import NewMuduo.UringPoller
import NewMuduo.UringDeliveries
import NewMuduo.UringTcpConnection
import NewMuduo.UringConnectionClose
import NewMuduo.ConnectionTeardown
import NewMuduo.ConnectionDestroyed
import NewMuduo.TimerSchedule
import NewMuduo.ConnectionNotices
import NewMuduo.BufferGrowth
import NewMuduo.Separators
import NewMuduo.BufferLines
import NewMuduo.Laps
import NewMuduo.MPMCSerial
import NewMuduo.MPMCSerialV2
import NewMuduo.LFStack
import NewMuduo.ThreadPoolLength
import NewMuduo.FixedBlockPool
import NewMuduo.MemPoolTotals
import NewMuduo.CoroutinePool
import NewMuduo.CoroutinePoolBlocks
import NewMuduo.CoroutinePoolRuns
import NewMuduo.CoroChannelWaiters
import NewMuduo.Integers
import NewMuduo.LogStream
import NewMuduo.TaggedPointerHalves
import NewMuduo.UringTransfer
import NewMuduo.UringTransferPieces
import NewMuduo.UringTransferErrno
import NewMuduo.SlabAllocator
import NewMuduo.SlabAllocatorRuns
import NewMuduo.CallStacks
import NewMuduo.Task
import NewMuduo.TaskRuns
import NewMuduo.EchoServer
import NewMuduo.CoroEchoServer
import NewMuduo.AtomicObject
import NewMuduo.LFStackAtomic
import NewMuduo.LockFreeThreadPoolStop
import NewMuduo.HazardGarbage
import NewMuduo.UringRefs
import NewMuduo.UringLifetime
import NewMuduo.UringRequests
import NewMuduo.ServerLoops
import NewMuduo.Logging
import NewMuduo.LogLines
import NewMuduo.MPMCAtomic
import NewMuduo.PoolCaches
import NewMuduo.DynamicThreadPoolDrain
import NewMuduo.RoundRobin
import NewMuduo.EpollRounds
import NewMuduo.PoolMemory
