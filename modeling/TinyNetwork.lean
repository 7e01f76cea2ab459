import TinyNetwork.Lib.Run
import TinyNetwork.Lib.Search
import TinyNetwork.Lib.Bytes
import TinyNetwork.Lib.Incremental
import TinyNetwork.Net.Buffer
import TinyNetwork.Http.HttpContext
import TinyNetwork.Net.EventLoop
import TinyNetwork.Net.FunctorQueue
import TinyNetwork.Net.TcpConnection
import TinyNetwork.Net.ConnLoop
import TinyNetwork.Net.OutputStream
import TinyNetwork.Lib.Trace
import TinyNetwork.Net.GracefulShutdown
import TinyNetwork.Http.RequestHead
import TinyNetwork.Http.HttpResponse
import TinyNetwork.Http.HttpServer
import TinyNetwork.Http.RequestDelivery
import TinyNetwork.Base.FixedBuffer
import TinyNetwork.Base.RawBuffer
import TinyNetwork.Log.LogStream
import TinyNetwork.Log.FormatInteger
import TinyNetwork.Log.Logging
import TinyNetwork.Log.RecordEnd
import TinyNetwork.Http.ParseTermination
import TinyNetwork.Http.RequestLine
import TinyNetwork.Http.ClosingConnection
import TinyNetwork.Log.AsyncLogging
import TinyNetwork.Log.StopLoss
import TinyNetwork.Net.Lifecycle
import TinyNetwork.Net.InetAddress
import TinyNetwork.Net.TcpServer
import TinyNetwork.Net.ServerLifecycle
import TinyNetwork.Http.HeaderSection
import TinyNetwork.Lib.Fifo
import TinyNetwork.Net.BufferFifo
import TinyNetwork.Http.BodyFraming
import TinyNetwork.Log.StreamOrder
import TinyNetwork.Mysql.ConnectionPool
import TinyNetwork.Mysql.PoolAccounting
import TinyNetwork.Net.Teardown
import TinyNetwork.Net.CallbackOrder
import TinyNetwork.Net.Ownership
import TinyNetwork.Net.EPollPoller
import TinyNetwork.Net.Dispatch
import TinyNetwork.Net.Wakeup
import TinyNetwork.Net.EventLoopThread
import TinyNetwork.Base.TaskDelivery
import TinyNetwork.Log.LogFile
import TinyNetwork.Mysql.PoolWakeups
import TinyNetwork.Mysql.IdleRecycling
import TinyNetwork.Mysql.UsableConnections
import TinyNetwork.Lib.OrderedSet
import TinyNetwork.Time.TimerQueue
import TinyNetwork.Time.TimerArming
import TinyNetwork.Time.TimerExpiry
import TinyNetwork.Net.WriteInterest
import TinyNetwork.Http.HeadRoundTrip
import TinyNetwork.Net.Poller
import TinyNetwork.Net.IdleChannels
import TinyNetwork.Http.ResponseDecoder
import TinyNetwork.Lib.Block
import TinyNetwork.Net.Backlog
import TinyNetwork.Base.WorkerWakeups
import TinyNetwork.Log.BufferExchange
import TinyNetwork.Log.DailyRoll
import TinyNetwork.Net.ReadFd
import TinyNetwork.Log.ShortWrites
import TinyNetwork.Mysql.MysqlConn
import TinyNetwork.Http.ContextReset
import TinyNetwork.Net.PollEvents
import TinyNetwork.Lib.Cut
import TinyNetwork.Log.LogPipeline
import TinyNetwork.Time.TimerPace
import TinyNetwork.Net.EchoServer
import TinyNetwork.Http.RequestService
import TinyNetwork.Http.Pipelining
import TinyNetwork.Net.LoopBalance
import TinyNetwork.Lib.Progress
import TinyNetwork.Base.WorkerProgress
import TinyNetwork.Net.LoopProgress
import TinyNetwork.Net.Descriptors
import TinyNetwork.Net.ServerStart
import TinyNetwork.Lib.Calendar
import TinyNetwork.Lib.FixedWidth
import TinyNetwork.Time.LocalTime
import TinyNetwork.Log.TimeOrder
import TinyNetwork.Log.LogProgress
