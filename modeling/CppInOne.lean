import CppInOne.Lib.Transition
import CppInOne.Lib.ArrayCopy
import CppInOne.Lib.Trace
import CppInOne.Lib.ByteString
import CppInOne.Lib.UnorderedMap
import CppInOne.Lib.Numeral
import CppInOne.Lib.BreadthFirst
import CppInOne.Lib.DecimalText
import CppInOne.Lib.Loop
import CppInOne.Lib.Trail
import CppInOne.Lib.Coder
import CppInOne.Lib.Varint
import CppInOne.Algorithm.Dfs
import CppInOne.Algorithm.DfsPath
import CppInOne.Algorithm.TopK
import CppInOne.Algorithm.Partation
import CppInOne.Lib.OrderStatistic
import CppInOne.Algorithm.SelectNoK
import CppInOne.Lib.PriorityQueue
import CppInOne.Algorithm.BigdataInTopK
import CppInOne.Algorithm.BfsPath
import CppInOne.Algorithm.MazeAgreement
import CppInOne.Lib.ByteMemory
import CppInOne.Lib.Stdio
import CppInOne.Mymuduo.Buffer
import CppInOne.Mymuduo.BufferQueue
import CppInOne.Mymuduo.SizedBuffer
import CppInOne.Mymuduo.Channel
import CppInOne.Mymuduo.EPollPoller
import CppInOne.Mymuduo.EventLoop
import CppInOne.Mymuduo.TcpConnection
import CppInOne.Mymuduo.OutputStream
import CppInOne.Mymuduo.EchoServer
import CppInOne.Mymuduo.CloseOnce
import CppInOne.Mymuduo.ShutdownOrder
import CppInOne.Mprpc.Protobuf
import CppInOne.Mprpc.RpcProvider
import CppInOne.Mprpc.RequestSafety
import CppInOne.Mprpc.MprpcChannel
import CppInOne.Mprpc.Reply
import CppInOne.Mprpc.Framing
import CppInOne.Mprpc.Exchange
import CppInOne.Mprpc.WholeFrame
import CppInOne.Mprpc.SocketRelease
import CppInOne.Mprpc.MprpcConfig
import CppInOne.Mprpc.ConfigFile
import CppInOne.Mprpc.LockQueue
import CppInOne.Mprpc.Logger
import CppInOne.Mprpc.ServiceDiscovery
import CppInOne.Mprpc.FormattedWrites
import CppInOne.Mymuduo.PendingFunctors
import CppInOne.Mymuduo.EventLoopThread
import CppInOne.Mymuduo.TcpServer
import CppInOne.Mymuduo.ConnectionRegistry
import CppInOne.Mymuduo.ServerShutdown
import CppInOne.Mymuduo.ServerLifetime
import CppInOne.Mymuduo.RoundRobin
import CppInOne.Lib.RingBuffer
import CppInOne.ThreadPool.ThrdPool
import CppInOne.ThreadPool.TaskOrder
import CppInOne.ThreadPool.Creation
import CppInOne.ThreadPool.ErrorPaths
import CppInOne.ThreadPool.StartOrder
import CppInOne.ThreadPool.Release
import CppInOne.ThreadPool.ThreadsTele
import CppInOne.ThreadPool.SellTicket
import CppInOne.Lib.Alignment
import CppInOne.Lib.Chain
import CppInOne.Pool.NgxMemPool
import CppInOne.Pool.SmallAllocations
import CppInOne.Pool.BlockChain
import CppInOne.Pool.ReachablePool
import CppInOne.Pool.PoolGrowth
import CppInOne.Pool.LargeRegions
import CppInOne.Pool.LargeBookkeeping
import CppInOne.Pool.LoadConfig
import CppInOne.Pool.PoolLayout
import CppInOne.Pool.Cleanups
import CppInOne.Pool.ConnectionPool
import CppInOne.Pool.ConnectionConservation
import CppInOne.Pool.IdleOrder
import CppInOne.Pool.IdleScanner
import CppInOne.Pool.WaitingClients
import CppInOne.Mymuduo.UnwatchedChannel
import CppInOne.Mymuduo.ActiveChannels
import CppInOne.Mymuduo.BufferReads
import CppInOne.Mymuduo.StateOrder
import CppInOne.Mymuduo.ConnectDestroyed
import CppInOne.Mymuduo.SendCapture
import CppInOne.Mymuduo.OutputNotifications
import CppInOne.Algorithm.BigInt
import CppInOne.Algorithm.BigIntArithmetic
import CppInOne.Mprpc.MessageClass
import CppInOne.Mprpc.WireRuntime
import CppInOne.Mprpc.GeneratedMessages
import CppInOne.Mprpc.GeneratedProtobuf
import CppInOne.Mprpc.MessageSizes
import CppInOne.Mprpc.EndToEnd
import CppInOne.Mprpc.ExampleServices
import CppInOne.Mymuduo.ConnectionOwners
import CppInOne.Algorithm.BigIntExpression
import CppInOne.ThreadPool.PoolMain
import CppInOne.Mymuduo.EventList
import CppInOne.Mprpc.ProviderOffer
import CppInOne.Mprpc.Ensemble
import CppInOne.Mprpc.ProviderRegistry
import CppInOne.Mprpc.ProviderIsolation
import CppInOne.Mprpc.LogFiles
import CppInOne.Mymuduo.EventLoopThreadPool
