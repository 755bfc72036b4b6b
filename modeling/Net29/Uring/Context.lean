import Net29.Os
import Net29.Container
import Net29.Sender

/-!
# `uring_context`

The context on top of io_uring: an operation is a submission queue entry, which the system consumes
and later answers by a completion queue entry with the same user data. A cancel request is an entry
of its own, with the `cancel_callback` as user data.

* `UringContext.submit` (`accept`, `connect`, `receive`, `send`, `resume_at`), `cancel`, `runOne`;
* `UringContext.work`: the work functions, which decode the result of a completion;
* `UringContext.post`: the system finishes an entry it has consumed.

`sq`, `inflight` and `cq` are the entries acquired, consumed and finished. Every call of the ring
takes its result as an argument. Exceptions leave `noexcept` functions, which terminates the
process.
-/

namespace Net29

/-- A completion pointer: an operation or the `cancel_callback` of one. -/
inductive Completion
  | op (io : IoBase)
  | cancelOp (o : OpId)
  deriving DecidableEq, Repr

/-- Whether a completion pointer is the operation. -/
def Completion.isOp (o : OpId) : Completion → Bool
  | .op io => io.self = o
  | .cancelOp _ => false

/-- Whether a completion pointer is the `cancel_callback` of the operation. -/
def Completion.isCancelOp (o : OpId) : Completion → Bool
  | .op _ => false
  | .cancelOp o' => o' = o

/-- What an entry asks for, as the `io_uring_prep` functions fill it in. -/
inductive SqeRequest
  | socket (call : Syscall) (fd : Fd) (len : ℕ)
  | timeout (sec nsec : ℤ)
  | cancel (o : OpId)
  deriving DecidableEq, Repr

/-- `io_uring_sqe`. -/
structure Sqe where
  data : Completion
  request : SqeRequest
  deriving DecidableEq, Repr

/-- `io_uring_cqe`; `accept` has also written the address of the peer. -/
structure Cqe where
  res : ℤ
  data : Completion
  peer : List UInt8 := []
  deriving DecidableEq, Repr

/-- The system finishes the entry at `index` of those it has consumed. -/
structure Post where
  index : ℕ
  res : ℤ
  peer : List UInt8 := []
  deriving DecidableEq, Repr

/-- `uring_context` with its ring. The environment and the completions `run_one` has read (newest
first) are not members of the class. -/
@[ext] structure UringContext where
  sockets : Container Fd := {}
  tasks : TaskList := {}
  submitting : ℕ := 0
  outstanding : ℕ := 0
  sq : List Sqe := []
  inflight : List Sqe := []
  cq : List Cqe := []
  env : Env := {}
  seen : List Cqe := []

/-- The results of `io_uring_submit`: while the queue is full, and at the end of `resume_at`. -/
structure UringRequest where
  flush : List ℤ := []
  submit : ℤ := 0
  deriving DecidableEq, Repr

/-- At the consumption of an entry: the call on its descriptor is recorded. -/
def Env.consumed (e : Env) (sqe : Sqe) : Env :=
  match sqe.data, sqe.request with
  | .op io, .socket call fd len => e.logCalls 1 io.self call fd len
  | _, _ => e

namespace UringContext

/-- What a submission or a work function returns. -/
abbrev Result := UringContext × List (Frame Empty) × SubmitResult

def QUEUE_DEPTH : ℕ := 128

/-- The completion pointers handed to the ring whose completion has not been read. -/
def pointers (c : UringContext) : List Completion :=
  c.sq.map Sqe.data ++ c.inflight.map Sqe.data ++ c.cq.map Cqe.data

/-! ### Sockets -/

/-- `native_handle`. -/
def nativeHandle (c : UringContext) (id : SocketId) : Exec Fd :=
  match c.sockets.get? id with
  | some fd => .ok fd
  | none => .error .assertion

/-- The system opens a descriptor. -/
def opened (c : UringContext) (fd : Fd) : Exec UringContext := do
  let os ← c.env.os.open fd
  .ok { c with env := { c.env with os := os } }

/-- `make_socket` with a native handle. -/
def makeSocketNative (c : UringContext) (fd : Fd) : Exec (UringContext × SocketId) := do
  let (sockets, id) ← c.sockets.insert fd
  .ok ({ c with sockets := sockets }, id)

/-- `make_socket`, with the answer of `::socket`. -/
def makeSocket (c : UringContext) : SysAnswer → Exec (UringContext × SocketId × Option Errno)
  | .err e => .ok (c, SocketId.invalid, some e)
  | .ok fd _ => do
      let c ← c.opened fd
      let (c, id) ← c.makeSocketNative fd
      .ok (c, id, none)

/-- `release`, with the answer of `::close`; the descriptor is closed in either case. -/
def release (c : UringContext) (id : SocketId) (answer : Option Errno) :
    Exec (UringContext × Option Errno) := do
  let fd ← c.nativeHandle id
  let c := { c with sockets := c.sockets.erase id }
  .ok ({ c with env := { c.env with os := c.env.os.close fd } }, answer)

/-! ### The ring -/

/-- The system consumes the first `n` entries. -/
def consume (c : UringContext) (n : ℕ) : UringContext :=
  { c with
    sq := c.sq.drop n
    inflight := c.inflight ++ c.sq.take n
    env := (c.sq.take n).foldl Env.consumed c.env }

/-- `submit`: `io_uring_submit` returns `r`, never more than the number of entries. -/
def submitSq (c : UringContext) (r : ℤ) : Exec UringContext :=
  -- the exception leaves a `noexcept` function
  if r < 0 then .error .terminate
  else if c.sq.length < r then .error .blocked
  else if c.submitting < r then .error .assertion
  else .ok { c.consume r.toNat with submitting := c.submitting - r.toNat }

/-- `get_sqe`, whose loop flushes the queue while it is full; the caller fills the entry in. -/
def getSqe (c : UringContext) : List ℤ → Exec UringContext
  | [] =>
      if c.sq.length < QUEUE_DEPTH then
        .ok { c with submitting := c.submitting + 1, outstanding := c.outstanding + 1 }
      else .error .blocked
  | r :: rs =>
      if c.sq.length < QUEUE_DEPTH then
        .ok { c with submitting := c.submitting + 1, outstanding := c.outstanding + 1 }
      else do
        let c ← c.submitSq r
        c.getSqe rs

/-- The entry acquired by `get_sqe`, filled in. -/
def prep (c : UringContext) (data : Completion) (request : SqeRequest) : UringContext :=
  { c with sq := c.sq ++ [⟨data, request⟩] }

/-- A successful `accept` opens a descriptor. -/
def finish (c : UringContext) (request : SqeRequest) (res : ℤ) : Exec UringContext :=
  match request with
  | .socket .accept _ _ => if 0 ≤ res then c.opened res.toNat else .ok c
  | _ => .ok c

/-- The system finishes an entry. -/
def post (c : UringContext) (p : Post) : Exec UringContext :=
  match c.inflight[p.index]? with
  | none => .error .blocked
  | some sqe => do
      let c ← c.finish sqe.request p.res
      .ok { c with
        inflight := c.inflight.eraseIdx p.index
        cq := c.cq ++ [⟨p.res, sqe.data, p.peer⟩] }

/-- `wait`, with the result of `io_uring_wait_cqe`, which waits while there is no completion. -/
def wait (c : UringContext) (r : ℤ) : Exec (UringContext × Cqe) :=
  if r < 0 then .error .terminate
  else
    match c.cq with
    | [] => .error .blocked
    | cqe :: cq =>
        if c.outstanding = 0 then .error .assertion
        else .ok ({ c with
          outstanding := c.outstanding - 1, cq := cq, seen := cqe :: c.seen }, cqe)

/-! ### Work functions -/

/-- What the work functions of all operations on sockets have in common: a negative result. -/
def failedWork (c : UringContext) (io : IoBase) (res : ℤ) : Exec Result :=
  if res = -Errno.ECANCELED then .ok (c, [.cancel io.self], .ready)
  else .ok (c, [.error io.self (.system (-res))], .error)

/-- The work function of `accept`. -/
def acceptWork (c : UringContext) (io : IoBase) (addrlen : ℕ) (cqe : Cqe) : Exec Result :=
  if cqe.res < 0 then c.failedWork io cqe.res
  else do
    let (c, id) ← c.makeSocketNative cqe.res.toNat
    let peer := Endpoint.empty.write cqe.peer addrlen
    .ok (c, [.complete io.self (some (.accepted id peer))], .ready)

/-- The work function of `connect`. -/
def connectWork (c : UringContext) (io : IoBase) (cqe : Cqe) : Exec Result :=
  if cqe.res < 0 then c.failedWork io cqe.res
  else .ok (c, [.complete io.self none], .ready)

/-- The work functions of `receive` and `send`, which are the same. -/
def transferWork (c : UringContext) (io : IoBase) (cqe : Cqe) : Exec Result :=
  if cqe.res < 0 then c.failedWork io cqe.res
  else .ok (c, [.complete io.self (some (.size cqe.res.toNat))], .ready)

/-- The work function of `resume_at`: only an expired timer completes. -/
def timeoutWork (c : UringContext) (io : IoBase) (cqe : Cqe) : Exec Result :=
  if cqe.res = -Errno.ECANCELED then .ok (c, [.cancel io.self], .ready)
  else if cqe.res = -Errno.ETIME then .ok (c, [.complete io.self none], .ready)
  else .ok (c, [.error io.self (.system (-cqe.res))], .error)

/-- The work function of a cancel request calls `cancel`, `error` or `complete` of the
`cancel_callback`, which are the same. -/
def cancelWork (c : UringContext) (o : OpId) (cqe : Cqe) : Exec Result :=
  let r : SubmitResult :=
    if cqe.res = -Errno.ENOENT ∨ cqe.res = -Errno.EALREADY then .ready
    else if cqe.res < 0 then .error
    else .ready
  .ok (c, [.cancelOp o], r)

/-- `completion->work(*this, completion)`; there is no `poll` on this context. -/
def work (c : UringContext) (cqe : Cqe) : Exec Result :=
  match cqe.data with
  | .cancelOp o => c.cancelWork o cqe
  | .op io =>
      match io.op with
      | .accept _ addrlen => c.acceptWork io addrlen cqe
      | .connect _ _ => c.connectWork io cqe
      | .receive _ _ | .send _ _ => c.transferWork io cqe
      | .resumeAt _ => c.timeoutWork io cqe
      | .poll _ _ => .error .undefined

/-! ### Submission and cancellation -/

/-- The socket that the operation's id denotes now is recorded. -/
def record (c : UringContext) (io : IoBase) : UringContext :=
  { c with env := c.env.submitted io.self (c.sockets.get? io.op.id) }

/-- An operation on a socket becomes an entry with the descriptor its id has now. -/
def submitSocket (c : UringContext) (io : IoBase) (call : Syscall) (len : ℕ) (flush : List ℤ) :
    Exec Result := do
  let c ← (c.record io).getSqe flush
  let fd ← c.nativeHandle io.op.id
  .ok (c.prep (.op io) (.socket call fd len), [], .submit)

/-- `make_timespec`: seconds and nanoseconds, both rounded towards zero. -/
def makeTimespec (dur : ℤ) : ℤ × ℤ :=
  let sec := dur.tdiv (10 ^ 9)
  (sec, dur - sec * 10 ^ 9)

/-- `resume_at`, which submits at once: the system reads the time-out, which is on the stack, when
it consumes the entry. (If the entry stays in the queue the pointer dangles; what the system then
makes of it is covered by the results of `post`, which are arbitrary.) -/
def resumeAt (c : UringContext) (io : IoBase) (time : Time) (req : UringRequest) :
    Exec Result := do
  let c ← c.getSqe req.flush
  let ts := makeTimespec time
  let c ← (c.prep (.op io) (.timeout ts.1 ts.2)).submitSq req.submit
  .ok (c, [], .submit)

/-- The functions that take an operation. -/
def submit (c : UringContext) (io : IoBase) (req : UringRequest) : Exec Result :=
  match io.op with
  | .accept _ addrlen => c.submitSocket io .accept addrlen req.flush
  | .connect _ endpoint => c.submitSocket io .connect endpoint.size req.flush
  | .receive _ _ => c.submitSocket io .recvmsg 0 req.flush
  | .send _ _ => c.submitSocket io .sendmsg 0 req.flush
  | .resumeAt time => c.resumeAt io time req
  | .poll _ _ => .error .blocked

/-- `cancel`: the request is queued like an operation. -/
def cancel (c : UringContext) (io : IoBase) (flush : List ℤ) :
    Exec (UringContext × List (Frame Empty)) := do
  let c ← c.getSqe flush
  .ok (c.prep (.cancelOp io.self) (.cancel io.self), [])

/-! ### `run_one` -/

/-- `schedule`. -/
def schedule (c : UringContext) (t : TaskId) : UringContext := { c with tasks := c.tasks.push t }

/-- `process_task`, if there is a task. -/
def processTask (c : UringContext) : Option (UringContext × List (Frame Empty)) :=
  c.tasks.pop?.map fun (t, tasks) => ({ c with tasks := tasks }, [.task t])

/-- The system finishes entries while `run_one` waits. -/
def postAll (c : UringContext) : List Post → Exec UringContext
  | [] => .ok c
  | p :: ps => do
      let c ← c.post p
      c.postAll ps

/-- The first half of `run_one` after the tasks: what is queued is submitted. -/
def flush (c : UringContext) (submitted : ℤ) : Exec UringContext :=
  if c.submitting ≠ 0 then c.submitSq submitted else .ok c

/-- `run_one`: `submitted` and `waited` are the results of `io_uring_submit_and_wait` and
`io_uring_wait_cqe`, `posts` is what the system finishes meanwhile. -/
def runOne (c : UringContext) (submitted : ℤ) (posts : List Post) (waited : ℤ) :
    Exec (UringContext × List (Frame Empty) × ℕ) :=
  match c.processTask with
  | some (c, fs) => .ok (c, fs, 1)
  | none => do
      let c ← c.flush submitted
      let c ← c.postAll posts
      if c.outstanding = 0 then .ok (c, [], 0)
      else do
        -- completions are read in the order in which the system posted them
        let (c, cqe) ← c.wait waited
        let (c, fs, _) ← c.work cqe
        .ok (c, fs, 1)

end UringContext

/-- The other calls of a `uring_context`, and what the system does between calls. -/
inductive UringCall
  | runOne (submitted : ℤ) (posts : List Post) (waited : ℤ)
  | post (p : Post)
  | schedule (t : TaskId)
  | makeSocket (answer : SysAnswer)
  | makeSocketNative (fd : Fd)
  | release (id : SocketId) (answer : Option Errno)

/-- `uring_context` as a `context_base`. -/
def uringBase : ContextBase UringContext UringRequest (List ℤ) UringCall Empty where
  submit := UringContext.submit
  cancel := UringContext.cancel
  call c
    | .runOne submitted posts waited =>
        (c.runOne submitted posts waited).map fun r => (r.1, r.2.1)
    | .post p => (c.post p).map fun c => (c, [])
    | .schedule t => .ok (c.schedule t, [])
    | .makeSocket answer => (c.makeSocket answer).map fun r => (r.1, [])
    | .makeSocketNative fd => (c.makeSocketNative fd).map fun r => (r.1, [])
    | .release id answer => (c.release id answer).map fun r => (r.1, [])
  tail _ t := t.elim
  pending c o := c.pointers.any (Completion.isOp o)

end Net29
