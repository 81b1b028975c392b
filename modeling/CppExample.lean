import CppExample.Lib.Buffer
import CppExample.Lib.Run
import CppExample.Lib.Threads
import CppExample.Lib.WorkQueue
import CppExample.Lib.Monitor
import CppExample.Lib.Heap
import CppExample.Lib.Slots
import CppExample.Lib.Walk
import CppExample.Lib.Lines
import CppExample.Lib.Processes
import CppExample.BasicLib.Readline
import CppExample.BasicLib.TextLines
import CppExample.BasicLib.StrEcho
import CppExample.Dns.Model
import CppExample.Dns.Decoder
import CppExample.Dns.Names
import CppExample.Dns.Message
import CppExample.Dns.Rounds
import CppExample.Dns.Response
import CppExample.Dns.Question
import CppExample.Dns.QuestionWrites
import CppExample.Dns.Query
import CppExample.Dns.Fields
import CppExample.Dns.ForeignRecords
import CppExample.Dns.OwnerFields
import CppExample.Dns.Termination
import CppExample.Dns.Compression
import CppExample.Dns.Reads
import CppExample.Dns.Bounds
import CppExample.Dns.NameBuffers
import CppExample.Dns.CutResponse
import CppExample.Dns.Lookup
import CppExample.Dns.AsyncClient
import CppExample.Dns.Delivery
import CppExample.Dns.AsyncLookup
import CppExample.ThreadPool.Model
import CppExample.ThreadPool.Conservation
import CppExample.ThreadPool.Timeout
import CppExample.ThreadPool.Wakeup
import CppExample.ThreadPool.AllDone
import CppExample.ThreadPool.Stop
import CppExample.ThreadPool.Stranded
import CppExample.ThreadPool.Restart
import CppExample.ThreadPool.Drain
import CppExample.ThreadPool.Futures
import CppExample.SyncQueue.Model
import CppExample.SyncQueue.Fifo
import CppExample.SyncQueue.Wakeup
import CppExample.SyncQueue.Workload
import CppExample.SyncQueue.WorkloadEnds
import CppExample.Echo.EpollServer
import CppExample.Echo.PollServer
import CppExample.Echo.SelectServer
import CppExample.Echo.Equivalence
import CppExample.Echo.PollReads
import CppExample.Echo.SelectTable
import CppExample.Echo.SelectRange
import CppExample.Echo.ThreadedServer
import CppExample.Echo.Clients
import CppExample.Echo.Forwarding
import CppExample.Echo.StopAndWait
import CppExample.Echo.StopAndWaitEnds
import CppExample.Echo.FullDuplex
import CppExample.Echo.FullDuplexEnds
import CppExample.Echo.ProcessServer
import CppExample.Udp.TcpUdpServer
import CppExample.Udp.DatagramEcho
import CppExample.C1000k.Reactor
import CppExample.C1000k.Table
import CppExample.C1000k.TableRuns
import CppExample.C1000k.AllocationFailure
import CppExample.C1000k.Server
import CppExample.C1000k.Registration
import CppExample.C1000k.Custody
import CppExample.C1000k.Sessions
import CppExample.C1000k.Memory
import CppExample.C1000k.Connections
import CppExample.C1000k.Echo
import CppExample.C1000k.Isolation
import CppExample.C1000k.Client
import CppExample.Demo.EpollServer
import CppExample.Demo.EpollEdges
import CppExample.Demo.SelectServer
import CppExample.Libev.EchoServer
import CppExample.Libev.Balance
import CppExample.Libev.LostBytes
import CppExample.Libev.EchoClient
import CppExample.Libev.Session
