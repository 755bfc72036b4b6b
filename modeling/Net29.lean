import Net29.Lib.Transition
import Net29.Lib.SwapRemove
import Net29.Basic
import Net29.Os
import Net29.Lib.Chain
import Net29.Lib.LinkedList
import Net29.Timers
import Net29.SortedList
import Net29.Container
import Net29.FiniteMap
import Net29.Sender
import Net29.Steps
import Net29.Phases
import Net29.Ledger
import Net29.Poll.Context
import Net29.Poll.Queues
import Net29.Poll.Ledger
import Net29.Poll.Waiting
import Net29.Poll.Pending
import Net29.Poll.Deadlines
import Net29.Poll.Standing
import Net29.Poll.Steps
import Net29.Poll.Timers
import Net29.Sockets
import Net29.Poll.Sockets
import Net29.Uring.Context
import Net29.Uring.Queues
import Net29.Uring.Ledger
import Net29.Uring.Counters
import Net29.Uring.Finished
import Net29.Uring.Sockets
import Net29.Uring.Interrupted
import Net29.Iocp.Context
import Net29.Iocp.Queues
import Net29.Iocp.Ledger
import Net29.Iocp.Idle
import Net29.Iocp.Storage
import Net29.Receivers
import Net29.Cancellation
import Net29.SocketIdentity
import Net29.Lib.Program
import Net29.Repeat.State
import Net29.Repeat.WhileLoop
import Net29.Repeat.MovedBody
import Net29.Repeat.Signatures
import Net29.IoContext
import Net29.Running
import Net29.Poll.Drain
import Net29.Lib.Ownership
import Net29.Poll.Objects
import Net29.Poll.Holders
import Net29.Poll.Owners
import Net29.AsyncRun
import Net29.Lib.Memory
import Net29.Internet
import Net29.Poll.Intact
import Net29.Poll.Acceptor
import Net29.Poll.Results
import Net29.Transfers
import Net29.Iocp.Accounting
import Net29.Iocp.Wiring
import Net29.Iocp.Holdings
import Net29.Iocp.AcceptSockets
import Net29.Iocp.ByteCounts
import Net29.Poll.Addresses
import Net29.Poll.Messages
import Net29.Poll.ResumeAfter
import Net29.Uring.Timespec
import Net29.Poll.TimerList
import Net29.Uring.Drain
import Net29.Iocp.Drain
import Net29.Lib.Tally
import Net29.Demo.WhenAny
import Net29.Lib.Search
import Net29.Demo.Buffered
import Net29.Demo.TaskLifetime
import Net29.Iocp.Timers
import Net29.Repeat.Declared
import Net29.Poll.Fairness
import Net29.Demo.Updates
import Net29.Demo.MemoryStream
import Net29.Connections
