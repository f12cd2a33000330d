import KwNet.Lib.Run
import KwNet.Lib.Pool
import KwNet.Lib.Ring
import KwNet.Lib.Window
import KwNet.Lib.Endian
import KwNet.Lib.BitField
import KwNet.Lib.SortedMap
import KwNet.Lib.Numeral
import KwNet.Lib.Cells
import KwNet.Lib.Search
import KwNet.Lib.Count
import KwNet.Lib.Blocks
import KwNet.Lib.Padded
import KwNet.Lib.Keyed
import KwNet.Lib.Credit
import KwNet.Lib.Monitor
import KwNet.Lib.Http
import KwNet.Queue.Model
import KwNet.Queue.Invariant
import KwNet.Queue.Steps
import KwNet.Queue.Fifo
import KwNet.Queue.Sequential
import KwNet.Queue.Ticket
import KwNet.Queue.Refine
import KwNet.Queue.Blocking
import KwNet.Queue.Progress
import KwNet.Queue.Emptiness
import KwNet.Loop.Model
import KwNet.Loop.Moves
import KwNet.Loop.Wakeup
import KwNet.Loop.Quit
import KwNet.Loop.Pool
import KwNet.Threads.Pool
import KwNet.Threads.Drain
import KwNet.Threads.Dropping
import KwNet.Threads.Stopping
import KwNet.Threads.Mutex
import KwNet.Threads.Latch
import KwNet.Loop.Thread
import KwNet.Loop.LifeCycle
import KwNet.Timers.Model
import KwNet.Timers.Moves
import KwNet.Timers.Armed
import KwNet.Timers.Expiry
import KwNet.Timers.Firing
import KwNet.Timers.Content
import KwNet.Timers.Reentry
import KwNet.Timers.Kept
import KwNet.Timers.Pacing
import KwNet.Log.Model
import KwNet.Log.Moves
import KwNet.Log.Word
import KwNet.Log.Conserve
import KwNet.Log.Convert
import KwNet.Log.Stream
import KwNet.Log.Logger
import KwNet.Log.Time
import KwNet.Log.AppendFile
import KwNet.Log.LogFile
import KwNet.Log.Rolling
import KwNet.Log.Directory
import KwNet.Https.Request
import KwNet.Https.Client
import KwNet.Https.Sending
import KwNet.Https.Matching
import KwNet.Https.Headers
import KwNet.Https.Url
import KwNet.Https.Wire
import KwNet.Server.Model
import KwNet.Server.PeerAddress
import KwNet.Server.Removal
import KwNet.Server.Acceptor
import KwNet.Poll.Model
import KwNet.Poll.Interest
import KwNet.Lib.Observe
import KwNet.Poll.Dispatch
import KwNet.Poll.Teardown
import KwNet.Poll.Stale
import KwNet.Https.Handshake
import KwNet.Client.Connector
import KwNet.Client.Retry
import KwNet.Client.Descriptors
import KwNet.Client.Close
import KwNet.Memory.Buffer
import KwNet.Memory.Fifo
import KwNet.Memory.Piece
import KwNet.Memory.Scan
import KwNet.Memory.Codec
import KwNet.Sockets.InetAddr
import KwNet.Tcp.Word
import KwNet.Tcp.Channel
import KwNet.Tcp.Call
import KwNet.Tcp.Model
import KwNet.Tcp.Message
import KwNet.Tcp.Handlers
import KwNet.Tcp.Moves
import KwNet.Tcp.Transition
import KwNet.Tcp.Phases
import KwNet.Tcp.Close
import KwNet.Tcp.SslClose
import KwNet.Tcp.Barrier
import KwNet.Tcp.Unused
import KwNet.Tcp.Delivery
import KwNet.Tcp.Accounting
import KwNet.Tcp.Shutdown
import KwNet.Tcp.Order
import KwNet.Tcp.AfterClose
import KwNet.Tcp.Tied
import KwNet.Poll.Connection
import KwNet.Signals.Handler
import KwNet.Tcp.Disconnected
import KwNet.Tcp.Edge
import KwNet.Tcp.Blocking
import KwNet.Tcp.BackPressure
import KwNet.Tcp.Capture
import KwNet.Tcp.Visit
import KwNet.Tcp.Sending
import KwNet.Lib.Bounded
import KwNet.Tcp.Draining
import KwNet.Tcp.SslDraining
import KwNet.Tcp.SslFinish
import KwNet.Tcp.Reading
import KwNet.Tcp.HalfClose
import KwNet.Tcp.Connecting
import KwNet.Tcp.HighWater
import KwNet.Tcp.RdhupPhrase
