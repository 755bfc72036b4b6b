import Net29.Os
import Net29.Container
import Net29.Timers
import Net29.Sender
import Net29.Lib.SwapRemove
import Mathlib.Data.BitVec
import Mathlib.Algebra.Order.Group.Unbundled.Int

/-!
# `poll_context`

The context on top of `poll(2)`: descriptors that are waited for stand in `poll`, with the operation
that waits in the same place of `outstanding`; timers are in `timeouts`, tasks in `tasks`.

* `PollContext.submit` (`poll`, `accept`, `connect`, `receive`, `send`, `resume_at`), `cancel`,
  `schedule`, `makeSocket`, `release`;
* `PollContext.work`: the work functions, run when a descriptor was reported;
* `PollContext.wait`, `dispatch`, `runOne`: the three parts of `run_one`.

The clock readings and the answers of the system are arguments; a call whose answers are used up
is still waiting (`blocked`).
-/

namespace Net29

open SwapRemove

/-- `poll_record`. -/
structure PollRecord where
  handle : Fd
  blocking : Bool := true
  deriving DecidableEq, Repr

/-- `pollfd`, with masks of 16 bits. -/
structure Pollfd where
  fd : Fd
  events : BitVec 16
  revents : BitVec 16 := 0
  deriving DecidableEq, Repr

def POLLIN : BitVec 16 := 1
def POLLOUT : BitVec 16 := 4
def POLLERR : BitVec 16 := 8

/-- The `events` mask `add_outstanding` computes. -/
def eventMask (e : EventType) : BitVec 16 :=
  (if e.hasIn then POLLIN else 0) ||| (if e.hasOut then POLLOUT else 0)

/-- The condition of `run_one`: a requested event or an error was reported. -/
def Pollfd.reported (p : Pollfd) : Bool := p.revents &&& (p.events ||| POLLERR) ≠ 0

/-- `poll_context`. The environment and the time-outs handed to `poll` (newest first) are not
members of the class. -/
structure PollContext where
  sockets : Container PollRecord := {}
  poll : List Pollfd := []
  outstanding : List IoBase := []
  timeouts : List IoBase := []
  tasks : TaskList := {}
  env : Env := {}
  polls : List ℤ := []

/-- How `poll` returns: with an error, or with what is reported for each entry; then `now` is the
next clock reading and `sys` has the answers to the system calls of the work function. -/
inductive PollAnswer
  | err (e : Errno)
  | ok (revents : List (BitVec 16)) (now : Time) (sys : List SysAnswer)
  deriving DecidableEq, Repr

namespace PollContext

/-- What a submission or a work function returns. -/
abbrev Result := PollContext × List (Frame Empty) × SubmitResult

/-! ### Sockets -/

/-- `native_handle`. -/
def nativeHandle (c : PollContext) (id : SocketId) : Exec Fd :=
  match c.sockets.get? id with
  | some r => .ok r.handle
  | none => .error .assertion

/-- The system opens a descriptor. -/
def opened (c : PollContext) (fd : Fd) : Exec PollContext := do
  let os ← c.env.os.open fd
  .ok { c with env := { c.env with os := os } }

/-- `make_socket` with a native handle. -/
def makeSocketNative (c : PollContext) (fd : Fd) : Exec (PollContext × SocketId) := do
  let (sockets, id) ← c.sockets.insert { handle := fd }
  .ok ({ c with sockets := sockets }, id)

/-- `make_socket`, with the answer of `::socket`. -/
def makeSocket (c : PollContext) : SysAnswer → Exec (PollContext × SocketId × Option Errno)
  | .err e => .ok (c, SocketId.invalid, some e)
  | .ok fd _ => do
      let c ← c.opened fd
      let (c, id) ← c.makeSocketNative fd
      .ok (c, id, none)

/-- `release`, with the answer of `::close`; the descriptor is closed in either case. -/
def release (c : PollContext) (id : SocketId) (answer : Option Errno) :
    Exec (PollContext × Option Errno) := do
  let fd ← c.nativeHandle id
  let c := { c with sockets := c.sockets.erase id }
  .ok ({ c with env := { c.env with os := c.env.os.close fd } }, answer)

/-! ### Tasks and timers -/

/-- `schedule`. -/
def schedule (c : PollContext) (t : TaskId) : PollContext := { c with tasks := c.tasks.push t }

/-- `process_task`, if there is a task. -/
def processTask (c : PollContext) : Option (PollContext × List (Frame Empty)) :=
  c.tasks.pop?.map fun (t, tasks) => ({ c with tasks := tasks }, [.task t])

/-- `process_timeout`, if a timer is due. -/
def processTimeout (c : PollContext) (now : Time) : Option (PollContext × List (Frame Empty)) :=
  (Timers.popDue? c.timeouts now).map fun (io, timeouts) =>
    ({ c with timeouts := timeouts }, [.complete io.self none])

/-! ### Work functions -/

/-- System calls made on behalf of an operation. -/
def logCalls (c : PollContext) (n : ℕ) (io : IoBase) (call : Syscall) (fd : Fd) (len : ℕ) :
    PollContext :=
  { c with env := c.env.logCalls n io.self call fd len }

/-- The work function of `poll`. -/
def pollWork (c : PollContext) (io : IoBase) : Exec Result :=
  .ok (c, [.complete io.self none], .submit)

/-- The work function of `accept`. -/
def acceptWork (c : PollContext) (io : IoBase) (addrlen : ℕ) (sys : List SysAnswer) :
    Exec Result := do
  let fd ← c.nativeHandle io.op.id
  match retry sys with
  | none => .error .blocked
  | some (n, .ok rc peer) => do
      let c ← (c.logCalls n io .accept fd addrlen).opened rc
      let (c, id) ← c.makeSocketNative rc
      .ok (c, [.complete io.self (some (.accepted id (Endpoint.empty.write peer addrlen)))], .ready)
  | some (n, .err e) =>
      let c := c.logCalls n io .accept fd addrlen
      -- `submit` asks the caller to queue the operation
      if e = Errno.EWOULDBLOCK then .ok (c, [], .submit)
      else .ok (c, [.error io.self (.system e)], .error)

/-- The work function of `connect`: `getsockopt` delivers the error of the connection. -/
def connectWork (c : PollContext) (io : IoBase) (sys : List SysAnswer) : Exec Result := do
  let fd ← c.nativeHandle io.op.id
  let c := c.logCalls 1 io .getsockopt fd 0
  match sys with
  | [] => .error .blocked
  | .err e :: _ => .ok (c, [.error io.self (.system e)], .error)
  | .ok error _ :: _ =>
      if error = 0 then .ok (c, [.complete io.self none], .ready)
      else .ok (c, [.error io.self (.system error)], .error)

/-- The work functions of `receive` and `send`, which only differ in the call they make. -/
def transferWork (call : Syscall) (c : PollContext) (io : IoBase) (sys : List SysAnswer) :
    Exec Result := do
  let fd ← c.nativeHandle io.op.id
  match retry sys with
  | none => .error .blocked
  | some (n, a) =>
      let c := c.logCalls n io call fd 0
      match a with
      | .ok rc _ => .ok (c, [.complete io.self (some (.size rc))], .ready)
      | .err e =>
          if e = Errno.ECONNRESET ∨ e = Errno.EPIPE then
            -- a lost connection looks like the end of the stream
            .ok (c, [.complete io.self (some (.size 0))], .ready)
          else if e = Errno.EWOULDBLOCK then .ok (c, [], .submit)
          else .ok (c, [.error io.self (.system e)], .error)

/-- The work function of `receive`. -/
def receiveWork := transferWork .recvmsg

/-- The work function of `send`. -/
def sendWork := transferWork .sendmsg

/-- `completion->work(*this, completion)`; a timer has no work function. -/
def work (c : PollContext) (io : IoBase) (sys : List SysAnswer) : Exec Result :=
  match io.op with
  | .poll _ _ => c.pollWork io
  | .accept _ addrlen => c.acceptWork io addrlen sys
  | .connect _ _ => c.connectWork io sys
  | .receive _ _ => c.receiveWork io sys
  | .send _ _ => c.sendWork io sys
  | .resumeAt _ => .error .undefined

/-! ### Submission and cancellation -/

/-- The entries are appended to both vectors. -/
def emplaceBack (c : PollContext) (io : IoBase) : Exec PollContext := do
  let fd ← c.nativeHandle io.op.id
  .ok { c with
    poll := c.poll ++ [{ fd := fd, events := eventMask io.op.events }]
    outstanding := c.outstanding ++ [io] }

/-- `add_outstanding`. -/
def addOutstanding (c : PollContext) (io : IoBase) (sys : List SysAnswer) : Exec Result :=
  match c.sockets.get? io.op.id with
  | none => .error .assertion
  | some r =>
      if r.blocking then do
        let c ← c.emplaceBack io
        .ok (c, [], .submit)
      else do
        let (c, fs, rc) ← c.work io sys
        if rc = .submit then do
          let c ← c.emplaceBack io
          .ok (c, fs, .submit)
        -- also after an error
        else .ok (c, fs, .ready)

/-- `connect`: at once, with an error, or by waiting for the descriptor. -/
def connect (c : PollContext) (io : IoBase) (endpoint : Endpoint) (sys : List SysAnswer) :
    Exec Result := do
  let fd ← c.nativeHandle io.op.id
  let c := c.logCalls 1 io .fcntl fd 0
  match sys with
  | [] => .error .blocked
  | .err e :: _ => .ok (c, [.error io.self (.system e)], .error)
  | .ok _ _ :: sys =>
      let c := c.logCalls 1 io .connect fd endpoint.size
      match sys with
      | [] => .error .blocked
      | .ok _ _ :: _ => .ok (c, [.complete io.self none], .ready)
      | .err e :: sys =>
          if e = Errno.EINPROGRESS ∨ e = Errno.EINTR then c.addOutstanding io sys
          else .ok (c, [.error io.self (.system e)], .error)

/-- `resume_at`. -/
def resumeAt (c : PollContext) (io : IoBase) (time now : Time) : Exec Result :=
  if now < time then .ok ({ c with timeouts := Timers.insert c.timeouts io }, [], .submit)
  else .ok (c, [.complete io.self none], .ready)

/-- The socket that the operation's id denotes now is recorded. -/
def record (c : PollContext) (io : IoBase) : PollContext :=
  { c with env := c.env.submitted io.self ((c.sockets.get? io.op.id).map PollRecord.handle) }

/-- The functions that take an operation. -/
def submit (c : PollContext) (io : IoBase) (req : Answers) : Exec Result :=
  match io.op with
  | .connect _ endpoint => (c.record io).connect io endpoint req.sys
  | .resumeAt time => c.resumeAt io time req.now
  | .poll _ _ | .accept _ _ | .receive _ _ | .send _ _ => (c.record io).addOutstanding io req.sys

/-- `remove_outstanding`. -/
def removeOutstanding (c : PollContext) (i : ℕ) : PollContext :=
  let c :=
    if i + 1 ≠ c.poll.length then
      { c with poll := overwrite c.poll i, outstanding := overwrite c.outstanding i }
    else c
  { c with poll := c.poll.dropLast, outstanding := c.outstanding.dropLast }

/-- `cancel`. -/
def cancel (c : PollContext) (io : IoBase) (_ : Unit) : Exec (PollContext × List (Frame Empty)) :=
  match c.outstanding.findIdx? fun io' => io'.self = io.self with
  | some i => .ok (c.removeOutstanding i, [.cancel io.self, .cancelOp io.self])
  | none =>
      match Timers.erase? c.timeouts io.self with
      | some timeouts =>
          .ok ({ c with timeouts := timeouts }, [.cancel io.self, .cancelOp io.self])
      | none => .error .terminate

/-! ### `run_one` -/

/-- `to_milliseconds`: the count of nanoseconds is divided and narrowed to an `int`. -/
def toMilliseconds (d : ℤ) : ℤ := (d.tdiv (10 ^ 6)).bmod (2 ^ 32)

/-- The time-out handed to `poll`. -/
def timeout (c : PollContext) (now : Time) : ℤ :=
  let nextTime := Timers.valueOr c.timeouts now
  if now = nextTime then -1 else toMilliseconds (nextTime - now)

/-- The loop over the entries, from the back: the first that was reported. -/
def scan (c : PollContext) : ℕ → Option ℕ
  | 0 => none
  | i + 1 =>
      match c.poll[i]? with
      | some p => if p.reported then some i else c.scan i
      | none => c.scan i

/-- How the loop around `poll` is left. -/
inductive Exit
  /-- `poll` failed -/
  | failed
  /-- entry `i` was reported -/
  | entry (i : ℕ) (sys : List SysAnswer)
  /-- a timer was due after `poll` returned -/
  | timer (c : PollContext) (fs : List (Frame Empty))

/-- The system fills in what is reported. -/
def report (c : PollContext) (revents : List (BitVec 16)) : PollContext :=
  { c with poll := c.poll.zipWith (fun p r => { p with revents := r }) revents }

/-- The loop around `poll`. -/
def wait (c : PollContext) (now : Time) : List PollAnswer → Exec (PollContext × Exit)
  | [] => .error .blocked
  | answer :: answers =>
      let c := { c with polls := c.timeout now :: c.polls }
      match answer with
      | .err e =>
          -- the time-out is computed again, from the old clock reading
          if e = Errno.EINTR ∨ e = Errno.EAGAIN then c.wait now answers else .ok (c, .failed)
      | .ok revents later sys =>
          if revents.length ≠ c.poll.length then .error .blocked
          else
            let c := c.report revents
            match c.scan c.poll.length with
            | some i => .ok (c, .entry i sys)
            | none =>
                match c.processTimeout later with
                | some (c', fs) => .ok (c, .timer c' fs)
                | none => c.wait now answers

/-- The body of the loop over the entries for the one reported: its work function runs after it was
removed, and what that returns is not looked at. -/
def dispatch (c : PollContext) (i : ℕ) (sys : List SysAnswer) :
    Exec (PollContext × List (Frame Empty)) :=
  match c.outstanding[i]? with
  | none => .error .undefined
  | some completion => do
      let (c, fs, _) ← (c.removeOutstanding i).work completion sys
      .ok (c, fs)

/-- `run_one`. -/
def runOne (c : PollContext) (now : Time) (answers : List PollAnswer) :
    Exec (PollContext × List (Frame Empty) × ℕ) :=
  match c.processTimeout now with
  | some (c, fs) => .ok (c, fs, 1)
  | none =>
      match c.processTask with
      | some (c, fs) => .ok (c, fs, 1)
      | none =>
          if c.poll = [] ∧ c.timeouts = [] then .ok (c, [], 0)
          else do
            let (c, exit) ← c.wait now answers
            match exit with
            | .failed => .ok (c, [], 0)
            | .entry i sys => do
                let (c, fs) ← c.dispatch i sys
                .ok (c, fs, 1)
            | .timer c fs => .ok (c, fs, 1)

end PollContext

/-- The other calls of a `poll_context`. -/
inductive PollCall
  | runOne (now : Time) (answers : List PollAnswer)
  | schedule (t : TaskId)
  | makeSocket (answer : SysAnswer)
  | makeSocketNative (fd : Fd)
  | release (id : SocketId) (answer : Option Errno)

/-- `poll_context` as a `context_base`. -/
def pollBase : ContextBase PollContext Answers Unit PollCall Empty where
  submit := PollContext.submit
  cancel := PollContext.cancel
  call c
    | .runOne now answers => (c.runOne now answers).map fun r => (r.1, r.2.1)
    | .schedule t => .ok (c.schedule t, [])
    | .makeSocket answer => (c.makeSocket answer).map fun r => (r.1, [])
    | .makeSocketNative fd => (c.makeSocketNative fd).map fun r => (r.1, [])
    | .release id answer => (c.release id answer).map fun r => (r.1, [])
  tail _ t := t.elim
  pending c o := (c.outstanding ++ c.timeouts).any fun io => io.self = o

end Net29
