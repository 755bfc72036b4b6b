import Mathlib.Algebra.Group.Int.Defs
import Mathlib.Algebra.Group.Nat.Defs
import Mathlib.Logic.Function.Basic

/-!
# Common vocabulary of the contexts

Identifiers, event masks, error numbers and the values an operation hands to its receiver.
Pointers to operation states and tasks are numbers (`OpId`, `TaskId`); members of the classes lose
their `d_` prefix.

A library call either returns (`.ok`) or does not (`Stuck`): it is still waiting for the system
(`blocked`), the process was terminated, an assertion failed, or the behaviour is undefined.
-/

namespace Net29

/-- The address of an operation state. -/
abbrev OpId := ℕ

/-- The address of a task. -/
abbrev TaskId := ℕ

/-- `socket_id`: an index into the socket table of a context. -/
abbrev SocketId := ℕ

/-- `socket_id::invalid`: the greatest value of the 32-bit type. -/
def SocketId.invalid : SocketId := 2 ^ 32 - 1

/-- A native handle that was returned by the system (a non-negative descriptor). -/
abbrev Fd := ℕ

/-- The identity of a socket: unlike descriptors and ids it is never used again. -/
abbrev Sock := ℕ

/-- `system_clock::time_point`: ticks (nanoseconds) since the epoch. -/
abbrev Time := ℤ

/-- An `errno` value. -/
abbrev Errno := ℕ

namespace Errno

def ENOENT : Errno := 2
def EINTR : Errno := 4
def EAGAIN : Errno := 11
def EWOULDBLOCK : Errno := 11
def EBUSY : Errno := 16
def EINVAL : Errno := 22
def EPIPE : Errno := 32
def ETIME : Errno := 62
def ECONNRESET : Errno := 104
def EALREADY : Errno := 114
def EINPROGRESS : Errno := 115
def ECANCELED : Errno := 125

end Errno

/-- An error given to `set_error`: an `error_code` of the system category, or whatever error object
an upstream sender completed with. -/
inductive Error
  | system (errno : ℤ)
  | upstream (e : ℕ)
  deriving DecidableEq, Repr

/-- `event_type`: the mask of events an operation waits for. -/
inductive EventType
  | none
  | in
  | out
  | inOut
  deriving DecidableEq, Repr

/-- `event_type::operator&` compared with `none`: whether a mask contains `in`. -/
def EventType.hasIn : EventType → Bool
  | .in | .inOut => true
  | _ => false

/-- Whether a mask contains `out`. -/
def EventType.hasOut : EventType → Bool
  | .out | .inOut => true
  | _ => false

/-- `submit_result`. -/
inductive SubmitResult
  | ready
  | submit
  | error
  deriving DecidableEq, Repr

/-- `detail::endpoint`: the bytes of a `sockaddr_storage` and the length stored with them. -/
structure Endpoint where
  data : List UInt8
  size : ℕ
  deriving DecidableEq, Repr

/-- `sizeof(sockaddr_storage)`. -/
def sizeofSockaddrStorage : ℕ := 128

/-- The default constructed endpoint. -/
def Endpoint.empty : Endpoint := ⟨List.replicate sizeofSockaddrStorage 0, sizeofSockaddrStorage⟩

/-- The system writes the address `peer` to `data()`, at most `len` bytes of it. -/
def Endpoint.write (e : Endpoint) (peer : List UInt8) (len : ℕ) : Endpoint :=
  { e with data := peer.take len ++ e.data.drop (min len peer.length) }

/-- What `set_value` hands to the receiver. -/
inductive Value
  | unit
  | event (e : EventType)
  | size (n : ℕ)
  | accepted (id : SocketId) (peer : Endpoint)
  deriving DecidableEq, Repr

/-- The three completion signals. -/
inductive Signal
  | setValue (v : Value)
  | setError (e : Error)
  | setStopped
  deriving DecidableEq, Repr

/-- The constructor of `detail::endpoint` from an address. -/
def Endpoint.ofBytes (data : List UInt8) : Endpoint :=
  { Endpoint.empty.write data sizeofSockaddrStorage with size := data.length }

/-- An operation as its descriptor fills it in before the context sees it: the socket it is for and
the data the context reads (of `receive` and `send` the lengths of the buffers). -/
inductive Operation
  | poll (id : SocketId) (mask : EventType)
  | accept (id : SocketId) (addrlen : ℕ)
  | connect (id : SocketId) (endpoint : Endpoint)
  | receive (id : SocketId) (buffers : List ℕ)
  | send (id : SocketId) (buffers : List ℕ)
  | resumeAt (time : Time)
  deriving DecidableEq, Repr

/-- `io_base::id`; a timer has the value-initialised id. -/
def Operation.id : Operation → SocketId
  | .poll id _ | .accept id _ | .connect id _ | .receive id _ | .send id _ => id
  | .resumeAt _ => 0

/-- `io_base::event`: the mask given by the `events()` of the descriptors. -/
def Operation.events : Operation → EventType
  | .poll _ mask => mask
  | .accept _ _ => .in
  | .connect _ _ => .inOut
  | .receive _ _ => .in
  | .send _ _ => .out
  | .resumeAt _ => .none

/-- Whether the operation is one on a socket. -/
def Operation.onSocket : Operation → Bool
  | .resumeAt _ => false
  | _ => true

/-- `io_base`: an operation state as a context sees it. -/
structure IoBase where
  self : OpId
  op : Operation
  deriving DecidableEq, Repr

/-- The intrusive list of scheduled tasks: its head and the `next` pointers of all tasks. -/
structure TaskList where
  head : Option TaskId := none
  next : TaskId → Option TaskId := fun _ => none

/-- `schedule`: the task becomes the head. -/
def TaskList.push (l : TaskList) (t : TaskId) : TaskList :=
  ⟨some t, Function.update l.next t l.head⟩

/-- The head, and the list after it was taken off. -/
def TaskList.pop? (l : TaskList) : Option (TaskId × TaskList) :=
  l.head.map fun t => (t, { l with head := l.next t })

/-- Why a library call does not return. -/
inductive Stuck
  | blocked
  | terminate
  | assertion
  | undefined
  deriving DecidableEq, Repr

/-- The outcome of a library call. -/
abbrev Exec := Except Stuck

/-- A sequence of two calls returns when both do. -/
theorem Exec.bind_eq_ok {α β : Type} {x : Exec α} {f : α → Exec β} {b : β} :
    (x >>= f) = .ok b ↔ ∃ a, x = .ok a ∧ f a = .ok b := by
  cases x with
  | error e => simp [bind, Except.bind]
  | ok a => simp [bind, Except.bind]

/-- A sequence of two calls does not return when the first does not, or else the second. -/
theorem Exec.bind_eq_error {α β : Type} {x : Exec α} {f : α → Exec β} {e : Stuck} :
    (x >>= f) = .error e ↔ x = .error e ∨ ∃ a, x = .ok a ∧ f a = .error e := by
  cases x with
  | error e => simp [bind, Except.bind]
  | ok a => simp [bind, Except.bind]

theorem Exec.map_eq_ok {α β : Type} {x : Exec α} {f : α → β} {b : β} :
    x.map f = .ok b ↔ ∃ a, x = .ok a ∧ f a = b := by
  cases x with
  | error e => simp [Except.map]
  | ok a => simp [Except.map]

theorem Exec.toOption_eq_some {α : Type} {x : Exec α} {a : α} :
    x.toOption = some a ↔ x = .ok a := by
  cases x with
  | error e => simp [Except.toOption]
  | ok b => simp [Except.toOption]

end Net29
