import Ice.Lib.Machine
import Ice.Lib.Lehmer
import Ice.Utility
import Ice.Proof.Utility
import Ice.Lib.Chain
import Ice.Lib.Demand
import Ice.Lib.Direct
import Ice.Lib.Fifo
import Ice.Lib.Mailbox
import Ice.Error
import Ice.Error.Message
import Ice.Proof.Error.Message
import Ice.Async
import Ice.Async.Await
import Ice.Async.Frame
import Ice.Async.Mutex
import Ice.Async.Generator
import Ice.Scheduler
import Ice.Context
import Ice.Net.Service
import Ice.Net.Port
import Ice.Net.Tcp.Socket
import Ice.Net.Tcp.Connect
import Ice.Proof.Scheduler.Queue
import Ice.Proof.Context.Wakeup
import Ice.Proof.Context.Drain
import Ice.Proof.Net.Service.Wakeup
import Ice.Proof.Net.Service.Drain
import Ice.Proof.Net.Port
import Ice.Proof.Net.Tcp.Send
import Ice.Proof.Net.Tcp.Connect
import Ice.Proof.Net.Tcp.Duplex
import Ice.Proof.Net.Ssh.Session
import Ice.Proof.Net.Ssh.Bridge
import Ice.Lib.Lines
import Ice.Parser
import Ice.Proof.Parser.Resolve
import Ice.Proof.Parser.Lines
import Ice.Proof.Parser.Endings
import Ice.Proof.Parser.Positions
import Ice.Proof.Parser.Partial
import Ice.Proof.Parser.Run
import Ice.Proof.Parser.Representation
import Ice.Schedule
import Ice.Proof.Schedule.Loop
import Ice.Proof.Schedule.Affinity
import Ice.Lib.Bytes
import Ice.Lib.OneShot
import Ice.Net.Event
import Ice.Lib.Request
import Ice.Net.Completion
import Ice.Net.Tcp.Duplex
import Ice.Net.Ssh.Session
import Ice.Net.Ssh.Bridge
import Ice.Net.Endpoint
import Ice.Proof.Net.Event
import Ice.Proof.Net.Completion
import Ice.Proof.Net.Endpoint
import Ice.Drain
import Ice.Proof.Scheduler.Drain
import Ice.Log
import Ice.Log.Print
import Ice.Proof.Log.Print
import Ice.Proof.Log.Steps
import Ice.Proof.Log.Order
import Ice.Proof.Log.Lifetime
import Ice.Proof.Log.Handshake
import Ice.Proof.Log.Release
import Ice.Net.Overlapped
import Ice.Net.Serial
import Ice.Proof.Net.Serial
import Ice.Proof.Net.Overlapped
import Ice.Net.Ssh.Callbacks
import Ice.Net.Ssh.Retry
import Ice.Proof.Net.Ssh.Callbacks
import Ice.Proof.Net.Ssh.Retry
import Ice.Proof.Net.Ssh.Disconnect
import Ice.Proof.Net.Ssh.Ownership
import Ice.Proof.Log.Counter
import Ice.Proof.Async.Await
import Ice.Proof.Async.Frame
import Ice.Proof.Async.Calls
import Ice.Proof.Async.Generator
import Ice.Proof.Async.Mutex
import Ice.Proof.Async.Unlock
import Ice.Proof.Handle
import Ice.Generator
import Ice.Proof.Generator
import Ice.Net.Option
import Ice.Proof.Net.Option
import Ice.Result
import Ice.Terminal
import Ice.Terminal.Output
import Ice.Proof.Terminal
import Ice.Proof.Result
import Ice.Proof.Result.Storage
