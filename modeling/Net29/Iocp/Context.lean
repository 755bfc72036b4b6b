import Net29.Os
import Net29.Container
import Net29.Timers
import Net29.Sender

/-!
# `iocp_context`

The context on top of an I/O completion port. Every socket owns a block of storage
(`iocp_socket_data`) with one `OVERLAPPED` for each direction; an operation initialises the one of
its direction, hands it to the system, and is found again through it when the completion packet
arrives.

* `IocpContext.submit` (`poll`, `accept`, `connect`, `receive`, `send`, `resume_at`), `cancel`;
* `IocpContext.work`: the work functions;
* `IocpContext.runOne`, `popDeferred`: `run_one` up to the work function, and after it;
* `IocpContext.makeSocket`, `release`: storage comes and goes with the sockets.

`storage` is the heap of these blocks: `none` for a block that was freed (or not allocated yet).
`requests` are the overlapped requests the system has accepted and whose packet was not dequeued,
`wakeups` the packets `schedule` posted. Using a block that was freed, or initialising an
`OVERLAPPED` the system still uses, is undefined behaviour.
-/

namespace Net29

def ERROR_NETNAME_DELETED : ℕ := 64
def ERROR_OPERATION_ABORTED : ℕ := 995
def ERROR_IO_PENDING : ℕ := 997
def WSAEINVAL : ℕ := 10022
def WSAECONNRESET : ℕ := 10054

/-- `INFINITE`: the greatest `DWORD`. -/
def INFINITE : ℕ := 2 ^ 32 - 1

/-- The four directions of a socket. -/
inductive Direction
  | accept
  | connect
  | recv
  | send
  deriving DecidableEq, Repr

/-- `iocp_overlapped` with the members of `iocp_accept_data` and `iocp_io_data`: the pre-created
socket, and the length of the buffer. -/
structure Overlapped where
  completion : Option IoBase := none
  result : ℤ := 0
  acceptSocket : Option Fd := none
  len : ℕ := 0
  deriving DecidableEq, Repr

/-- The address of an `iocp_socket_data`. -/
abbrev StorageId := ℕ

/-- `iocp_socket_data`: `accept_ol`, `connect_ol`, `recv_ol` and `send_ol`. -/
abbrev IocpSocketData := Direction → Overlapped

/-- `iocp_record`. -/
structure IocpRecord where
  handle : Fd
  io : StorageId
  deriving DecidableEq, Repr

/-- An overlapped request: the address of its `OVERLAPPED`, and the operation it was made for. -/
structure Request where
  storage : StorageId
  direction : Direction
  op : OpId
  deriving DecidableEq, Repr

/-- What happens to a socket: it was created for the `AcceptEx` of an operation, its handle was
given a record, or was closed. -/
inductive SocketEvent
  | created (o : OpId) (sock : Option Sock)
  | inserted (sock : Option Sock)
  | closed (sock : Option Sock)
  deriving DecidableEq, Repr

/-- `iocp_context` with its port. The heap of storage blocks, the operations' `extra` pointers, the
system's part, the storage of the work functions that are running (innermost first) and the history
of the sockets (newest first) are not members of the class. -/
structure IocpContext where
  sockets : Container IocpRecord := {}
  tasks : TaskList := {}
  outstanding : ℕ := 0
  deferred : List StorageId := []
  timeouts : List IoBase := []
  storage : StorageId → Option IocpSocketData := fun _ => none
  allocated : StorageId := 0
  extra : OpId → Option (StorageId × Direction) := fun _ => none
  requests : List Request := []
  wakeups : ℕ := 0
  os : Os := {}
  working : List StorageId := []
  history : List SocketEvent := []

/-- How `GetQueuedCompletionStatus` returns. -/
inductive PortAnswer
  /-- `WAIT_TIMEOUT`; `now` is the clock reading after it -/
  | timeout (now : Time)
  /-- any other failure without a packet -/
  | failed
  /-- a packet of `schedule` -/
  | wakeup
  /-- the packet of a request, with the bytes transferred and the address of the peer or the error;
  `associate` is the answer when an accepted socket is associated with the port -/
  | completion (index : ℕ) (result : SysAnswer) (associate : Option Errno)
  deriving DecidableEq, Repr

namespace IocpContext

/-- What a submission or a work function returns. -/
abbrev Result := IocpContext × List (Frame StorageId) × SubmitResult

/-! ### Sockets and their storage -/

/-- The record of a live id. -/
def record (c : IocpContext) (id : SocketId) : Exec IocpRecord :=
  match c.sockets.get? id with
  | some r => .ok r
  | none => .error .assertion

/-- `native_handle`. -/
def nativeHandle (c : IocpContext) (id : SocketId) : Exec Fd := do
  let r ← c.record id
  .ok r.handle

/-- The system opens a socket. -/
def opened (c : IocpContext) (fd : Fd) : Exec IocpContext := do
  let os ← c.os.open fd
  .ok { c with os := os }

/-- `::closesocket`. -/
def closeSocket (c : IocpContext) (fd : Fd) : IocpContext :=
  { c with os := c.os.close fd, history := .closed (c.os.denotes fd) :: c.history }

/-- `make_socket` with a native handle: the record gets a new block of storage. -/
def makeSocketNative (c : IocpContext) (handle : Fd) : Exec (IocpContext × SocketId) := do
  let (sockets, id) ← c.sockets.insert ⟨handle, c.allocated⟩
  .ok ({ c with
    sockets := sockets
    storage := Function.update c.storage c.allocated (some fun _ => {})
    allocated := c.allocated + 1
    history := .inserted (c.os.denotes handle) :: c.history }, id)

/-- `make_socket`, with the answers of `WSASocketW` and of the association with the port. The error
is reported in the first case and thrown in the second. -/
def makeSocket (c : IocpContext) (answer : SysAnswer) (associate : Option Errno) :
    Exec (IocpContext × SocketId × Option Errno) :=
  match answer with
  | .err e => .ok (c, SocketId.invalid, some e)
  | .ok fd _ => do
      let c ← c.opened fd
      match associate with
      | some e => .ok (c, SocketId.invalid, some e)
      | none => do
          let (c, id) ← c.makeSocketNative fd
          .ok (c, id, none)

/-- The destructor of `iocp_socket_data`, which closes a pre-created socket. -/
def free (c : IocpContext) (s : StorageId) : IocpContext :=
  match c.storage s with
  | none => c
  | some data =>
      let c := { c with storage := Function.update c.storage s none }
      match (data .accept).acceptSocket with
      | some fd => c.closeSocket fd
      | none => c

/-- `release`, with the answer of `::closesocket`: the storage is kept while anything is
outstanding, else it is freed with the record. -/
def release (c : IocpContext) (id : SocketId) (answer : Option Errno) :
    Exec (IocpContext × Option Errno) := do
  let r ← c.record id
  let c := { c with sockets := c.sockets.erase id }
  -- the storage that was not moved away goes with the record
  let c := if 0 < c.outstanding then { c with deferred := r.io :: c.deferred } else c.free r.io
  .ok (c.closeSocket r.handle, answer)

/-- Access to an `OVERLAPPED`. -/
def overlapped (c : IocpContext) (s : StorageId) (d : Direction) : Exec Overlapped :=
  match c.storage s with
  | some data => .ok (data d)
  | none => .error .undefined

/-- An `OVERLAPPED` is written. -/
def write (c : IocpContext) (s : StorageId) (d : Direction) (ol : Overlapped) :
    Exec IocpContext :=
  match c.storage s with
  | some data =>
      .ok { c with storage := Function.update c.storage s (some (Function.update data d ol)) }
  | none => .error .undefined

/-! ### Tasks and timers -/

/-- `schedule`, which also posts a packet. -/
def schedule (c : IocpContext) (t : TaskId) : IocpContext :=
  { c with tasks := c.tasks.push t, wakeups := c.wakeups + 1 }

/-- `process_task`, if there is a task. -/
def processTask (c : IocpContext) : Option (IocpContext × List (Frame StorageId)) :=
  c.tasks.pop?.map fun (t, tasks) => ({ c with tasks := tasks }, [.task t])

/-- `process_timeout`, if a timer is due. -/
def processTimeout (c : IocpContext) (now : Time) :
    Option (IocpContext × List (Frame StorageId)) :=
  (Timers.popDue? c.timeouts now).map fun (io, timeouts) =>
    ({ c with timeouts := timeouts }, [.complete io.self none])

/-! ### Work functions -/

/-- Minus for an `int`; that of the least one is itself. -/
def negInt (n : ℤ) : ℤ := Int.bmod (-n) (2 ^ 32)

/-- What the work functions have in common: the request was aborted, or failed with `err`. -/
def failedWork (c : IocpContext) (io : IoBase) (err : ℤ) : Exec Result :=
  if err = ERROR_OPERATION_ABORTED then .ok (c, [.cancel io.self], .ready)
  else .ok (c, [.error io.self (.system err)], .error)

/-- The pre-created socket is closed. -/
def dropAccepted (c : IocpContext) (s : StorageId) (d : Direction) (ol : Overlapped) :
    Exec IocpContext := do
  let c ← c.write s d { ol with acceptSocket := none }
  .ok ((ol.acceptSocket.map c.closeSocket).getD c)

/-- The work function of `accept`. -/
def acceptWork (c : IocpContext) (io : IoBase) (s : StorageId) (d : Direction) (ol : Overlapped)
    (peer : List UInt8) (associate : Option Errno) : Exec Result :=
  if ol.result < 0 then do
    let c ← c.dropAccepted s d ol
    c.failedWork io (negInt ol.result)
  else do
    let _ ← c.nativeHandle io.op.id
    match associate with
    | some e => do
        let c ← c.dropAccepted s d ol
        .ok (c, [.error io.self (.system e)], .error)
    | none =>
        match ol.acceptSocket with
        | none => .error .undefined
        | some fd => do
            let (c, id) ← c.makeSocketNative fd
            let c ← c.write s d { ol with acceptSocket := none }
            .ok (c, [.complete io.self (some (.accepted id (Endpoint.ofBytes peer)))], .ready)

/-- The work function of `connect`. -/
def connectWork (c : IocpContext) (io : IoBase) (ol : Overlapped) : Exec Result :=
  if ol.result < 0 then c.failedWork io (negInt ol.result)
  else do
    let _ ← c.nativeHandle io.op.id
    .ok (c, [.complete io.self none], .ready)

/-- The work functions of `receive` and `send`, which are the same. -/
def transferWork (c : IocpContext) (io : IoBase) (ol : Overlapped) : Exec Result :=
  if ol.result < 0 then
    if negInt ol.result = WSAECONNRESET ∨ negInt ol.result = ERROR_NETNAME_DELETED then
      .ok (c, [.complete io.self (some (.size 0))], .ready)
    else c.failedWork io (negInt ol.result)
  else .ok (c, [.complete io.self (some (.size ol.result.toNat))], .ready)

/-- `comp->work(*this, comp)`: the `OVERLAPPED` is the one `extra` points to. -/
def work (c : IocpContext) (io : IoBase) (peer : List UInt8) (associate : Option Errno) :
    Exec Result :=
  match c.extra io.self with
  | none => .error .undefined
  | some (s, d) => do
      let ol ← c.overlapped s d
      match io.op with
      | .accept _ _ => c.acceptWork io s d ol peer associate
      | .connect _ _ => c.connectWork io ol
      | .receive _ _ | .send _ _ => c.transferWork io ol
      | .poll _ _ | .resumeAt _ => .error .undefined

/-! ### Submission and cancellation -/

/-- The `OVERLAPPED` of a direction is initialised for an operation. -/
def initialise (c : IocpContext) (s : StorageId) (d : Direction) (ol : Overlapped) :
    Exec IocpContext :=
  -- at most one outstanding operation per direction
  if c.requests.any fun r => r.storage = s ∧ r.direction = d then .error .undefined
  else c.write s d ol

/-- `op->extra` is set. -/
def setExtra (c : IocpContext) (io : IoBase) (s : StorageId) (d : Direction) : IocpContext :=
  { c with extra := Function.update c.extra io.self (some (s, d)) }

/-- The request is handed to the system. It is accepted also when it succeeds at once; `failed` is
what is done when it is not. -/
def request (c : IocpContext) (io : IoBase) (s : StorageId) (d : Direction)
    (failed : IocpContext → Exec IocpContext) (answer : SysAnswer) : Exec Result :=
  let accepted : IocpContext :=
    { c with requests := c.requests ++ [⟨s, d, io.self⟩], outstanding := c.outstanding + 1 }
  match answer with
  | .ok _ _ => .ok (accepted, [], .submit)
  | .err e =>
      if e = ERROR_IO_PENDING then .ok (accepted, [], .submit)
      else do
        let c ← failed c
        .ok (c, [.error io.self (.system e)], .error)

/-- `accept`: `answers` are those of `WSASocketW` and `AcceptEx`. -/
def accept (c : IocpContext) (io : IoBase) (answers : List SysAnswer) : Exec Result := do
  let r ← c.record io.op.id
  let c ← c.initialise r.io .accept { completion := some io }
  match answers with
  | [] => .error .blocked
  | .err e :: _ => .ok (c, [.error io.self (.system e)], .error)
  | .ok fd _ :: answers => do
      let c ← c.opened fd
      let c := { c with history := .created io.self (c.os.denotes fd) :: c.history }
      let ol : Overlapped := { completion := some io, acceptSocket := some fd }
      let c ← c.write r.io .accept ol
      match answers with
      | [] => .error .blocked
      | answer :: _ =>
          (c.setExtra io r.io .accept).request io r.io .accept (·.dropAccepted r.io .accept ol)
            answer

/-- The rest of `connect`, when the socket is bound. -/
def connectEx (c : IocpContext) (io : IoBase) (s : StorageId) (answers : List SysAnswer) :
    Exec Result := do
  let c ← c.initialise s .connect { completion := some io }
  match answers with
  | [] => .error .blocked
  | answer :: _ => (c.setExtra io s .connect).request io s .connect .ok answer

/-- `connect`: `answers` are those of `bind` and `ConnectEx`. -/
def connect (c : IocpContext) (io : IoBase) (answers : List SysAnswer) : Exec Result := do
  let r ← c.record io.op.id
  match answers with
  | [] => .error .blocked
  | .err e :: answers =>
      if e = WSAEINVAL then c.connectEx io r.io answers
      else .ok (c, [.error io.self (.system e)], .error)
  | .ok _ _ :: answers => c.connectEx io r.io answers

/-- `receive` and `send`: only the first buffer is used, with its length narrowed to 32 bits. -/
def transfer (c : IocpContext) (io : IoBase) (d : Direction) (buffers : List ℕ)
    (answers : List SysAnswer) : Exec Result := do
  let r ← c.record io.op.id
  let len := (buffers.head?.getD 0) % 2 ^ 32
  let c ← c.initialise r.io d { completion := some io, len := len }
  match answers with
  | [] => .error .blocked
  | answer :: _ => (c.setExtra io r.io d).request io r.io d .ok answer

/-- `resume_at`. -/
def resumeAt (c : IocpContext) (io : IoBase) (time now : Time) : Exec Result :=
  if now < time then .ok ({ c with timeouts := Timers.insert c.timeouts io }, [], .submit)
  else .ok (c, [.complete io.self none], .ready)

/-- The functions that take an operation; `poll` does nothing yet and returns `ready`. -/
def submit (c : IocpContext) (io : IoBase) (req : Answers) : Exec Result :=
  match io.op with
  | .poll _ _ => .ok (c, [], .ready)
  | .accept _ _ => c.accept io req.sys
  | .connect _ _ => c.connect io req.sys
  | .receive _ buffers => c.transfer io .recv buffers req.sys
  | .send _ buffers => c.transfer io .send buffers req.sys
  | .resumeAt time => c.resumeAt io time req.now

/-- `cancel`: a timer is removed; for a request the system is asked to abort it, so that its packet
comes later. The `cancel_callback` is told at once. -/
def cancel (c : IocpContext) (io : IoBase) (_ : Unit) :
    Exec (IocpContext × List (Frame StorageId)) :=
  match Timers.erase? c.timeouts io.self with
  | some timeouts => .ok ({ c with timeouts := timeouts }, [.cancel io.self, .cancelOp io.self])
  | none =>
      if io.op.id ≠ SocketId.invalid ∧ (c.extra io.self).isSome then do
        -- `CancelIoEx`, whose result is ignored
        let _ ← c.nativeHandle io.op.id
        .ok (c, [.cancelOp io.self])
      else .ok (c, [.cancelOp io.self])

/-! ### `run_one` -/

/-- The time to wait: rounded down to milliseconds and bounded. -/
def timeoutMs (c : IocpContext) (now : Time) : ℕ :=
  match c.timeouts with
  | [] => INFINITE
  | io :: _ =>
      if io.deadline ≤ now then 0
      else
        let ms := ((io.deadline - now).tdiv (10 ^ 6)).toNat
        if ms < INFINITE - 1 then ms else INFINITE - 1

/-- The `result` stored in an `OVERLAPPED`, an `int`. -/
def resultOf : SysAnswer → ℤ
  | .ok bytes _ => Int.bmod bytes (2 ^ 32)
  | .err e => negInt (Int.bmod e (2 ^ 32))

/-- The address of the peer, for `accept`. -/
def peerOf : SysAnswer → List UInt8
  | .ok _ peer => peer
  | .err _ => []

/-- The packet of a request was dequeued: its operation is found through the `OVERLAPPED` and its
work function called, after which the call goes on with `popDeferred`. -/
def complete (c : IocpContext) (index : ℕ) (result : SysAnswer) (associate : Option Errno) :
    Exec (IocpContext × List (Frame StorageId)) :=
  match c.requests[index]? with
  | none => .error .blocked
  | some r => do
      let c := { c with
        requests := c.requests.eraseIdx index
        outstanding := c.outstanding - 1
        working := r.storage :: c.working }
      let ol ← c.overlapped r.storage r.direction
      let c ← c.write r.storage r.direction { ol with result := resultOf result }
      match ol.completion with
      | none => .error .undefined
      | some comp => do
          let (c, fs, _) ← c.work comp (peerOf result) associate
          .ok (c, fs ++ [.tail r.storage])

/-- The end of `run_one` after a work function (of a request in `s`): the head of `deferred` is
freed. -/
def popDeferred (c : IocpContext) (s : StorageId) : IocpContext :=
  let c := { c with working := c.working.erase s }
  match c.deferred with
  | [] => c
  | head :: deferred => { c with deferred := deferred }.free head

/-- `run_one`; `answer` is that of `GetQueuedCompletionStatus`, which times out only if it was given
a time, and delivers only packets that were posted. -/
def runOne (c : IocpContext) (now : Time) (answer : Option PortAnswer) :
    Exec (IocpContext × List (Frame StorageId) × ℕ) :=
  match c.processTimeout now with
  | some (c, fs) => .ok (c, fs, 1)
  | none =>
      match c.processTask with
      | some (c, fs) => .ok (c, fs, 1)
      | none =>
          if c.outstanding = 0 ∧ c.timeouts = [] then .ok (c, [], 0)
          else
            match answer with
            | none => .error .blocked
            | some (.timeout later) =>
                if c.timeoutMs now = INFINITE then .error .blocked
                else
                  match c.processTimeout later with
                  | some (c, fs) => .ok (c, fs, 1)
                  | none => .ok (c, [], 0)
            | some .failed => .ok (c, [], 0)
            | some .wakeup =>
                if c.wakeups = 0 then .error .blocked
                else
                  let c := { c with wakeups := c.wakeups - 1 }
                  -- its task may have run before the packet arrived
                  match c.processTask with
                  | some (c, fs) => .ok (c, fs, 1)
                  | none => .ok (c, [], 0)
            | some (.completion index result associate) => do
                let (c, fs) ← c.complete index result associate
                .ok (c, fs, 1)

end IocpContext

/-- The other calls of an `iocp_context`. -/
inductive IocpCall
  | runOne (now : Time) (answer : Option PortAnswer)
  | schedule (t : TaskId)
  | makeSocket (answer : SysAnswer) (associate : Option Errno)
  | makeSocketNative (handle : Fd)
  | release (id : SocketId) (answer : Option Errno)

/-- `iocp_context` as a `context_base`. -/
def iocpBase : ContextBase IocpContext Answers Unit IocpCall StorageId where
  submit := IocpContext.submit
  cancel := IocpContext.cancel
  call c
    | .runOne now answer => (c.runOne now answer).map fun r => (r.1, r.2.1)
    | .schedule t => .ok (c.schedule t, [])
    | .makeSocket answer associate => (c.makeSocket answer associate).map fun r => (r.1, [])
    | .makeSocketNative handle => (c.makeSocketNative handle).map fun r => (r.1, [])
    | .release id answer => (c.release id answer).map fun r => (r.1, [])
  tail := IocpContext.popDeferred
  pending c o := (c.requests.any fun r => r.op = o) || c.timeouts.any fun io => io.self = o

end Net29
