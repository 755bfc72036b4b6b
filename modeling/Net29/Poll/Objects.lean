import Net29.Poll.Context

/-!
# Acceptors and sockets over a `poll_context`

The objects that own the sockets of a context: each holds an id, or `socket_id::invalid`.

* `Object.open`, `close`, `move`, `destroy` and the constructors;
* `World.step`: what is done with the objects, and steps of the context; a receiver that is handed
  an accepted connection gets a socket object.

A constructor that throws makes no object, and is no step. `make_socket` and `release` are called by
the objects only; the caller may own other descriptors, and hand one over to a socket.
-/

namespace Net29

open Machine

/-- The address of an object. -/
abbrev ObjectId := ℕ

/-- An `error_code`: one of the system, or `socket_errc::already_open`. -/
inductive ErrorCode
  | system (errno : Errno)
  | alreadyOpen
  deriving DecidableEq, Repr

/-- `basic_socket_acceptor` or `basic_socket`. -/
inductive ObjectKind
  | acceptor
  | socket
  deriving DecidableEq, Repr

/-- An object with its `d_id`. -/
structure Object where
  kind : ObjectKind
  id : SocketId := SocketId.invalid
  deriving DecidableEq, Repr

/-- `is_open`. -/
def Object.isOpen (x : Object) : Bool := x.id ≠ SocketId.invalid

/-- `basic_socket_acceptor::open`, with the answer of `::socket`: the acceptor, the context and the
error reported. -/
def Object.open (x : Object) (c : PollContext) (answer : SysAnswer) :
    Exec (Object × PollContext × Option ErrorCode) := do
  let error := if x.isOpen then some .alreadyOpen else none
  -- also when the acceptor is open; `make_socket` only sets the error when it fails
  let (c, id, e) ← c.makeSocket answer
  .ok ({ x with id := id }, c, (e.map ErrorCode.system).or error)

/-- `basic_socket_acceptor::close`, with the answer of `::close`. -/
def Object.close (x : Object) (c : PollContext) (answer : Option Errno) :
    Exec (Object × PollContext) :=
  if x.isOpen then do
    let (c, _) ← c.release x.id answer
    .ok ({ x with id := SocketId.invalid }, c)
  else .ok (x, c)

/-- The move constructors: the new object, and what is left. -/
def Object.move (x : Object) : Object × Object := (x, { x with id := SocketId.invalid })

/-- The destructors. -/
def Object.destroy (x : Object) (c : PollContext) (answer : Option Errno) : Exec PollContext :=
  match x.kind with
  | .acceptor => do
      let (_, c) ← x.close c answer
      .ok c
  | .socket =>
      if x.id ≠ SocketId.invalid then do
        let (c, _) ← c.release x.id answer
        .ok c
      else .ok c

/-- The constructor of an acceptor from an endpoint, which opens it; `bind` and `listen`, which
follow, do not touch the id. `none` if it throws. -/
def Object.acceptor (c : PollContext) (answer : SysAnswer) :
    Exec (PollContext × Option Object) := do
  let (x, c, error) ← { kind := .acceptor : Object }.open c answer
  .ok (c, if error.isNone then some x else none)

/-- The constructor of a `basic_stream_socket` from an endpoint; `none` if it throws. -/
def Object.streamSocket (c : PollContext) (answer : SysAnswer) :
    Exec (PollContext × Option Object) := do
  let (c, id, error) ← c.makeSocket answer
  .ok (c, if error.isNone then some { kind := .socket, id := id } else none)

/-- The constructor of a socket from a context and an id, which `make_socket` has just made for a
native handle. -/
def Object.nativeSocket (c : PollContext) (fd : Fd) : Exec (PollContext × Option Object) := do
  let (c, id) ← c.makeSocketNative fd
  .ok (c, some { kind := .socket, id := id })

/-- A context, the living objects over it, and the descriptors that the caller owns. -/
structure World where
  machine : Machine PollContext Empty
  objects : ObjectId → Option Object := fun _ => none
  own : List Fd := []

/-- What can happen next. -/
inductive WorldLabel
  /-- an acceptor is constructed at `x` -/
  | acceptor (x : ObjectId) (answer : SysAnswer)
  /-- a socket is constructed at `x`, by default, from an endpoint or from a native handle -/
  | socket (x : ObjectId)
  | streamSocket (x : ObjectId) (answer : SysAnswer)
  | nativeSocket (x : ObjectId) (fd : Fd)
  /-- `open` and `close` of the acceptor at `x` -/
  | open (x : ObjectId) (answer : SysAnswer)
  | close (x : ObjectId) (answer : Option Errno)
  /-- an object is move-constructed at `y` from the one at `x` -/
  | move (x y : ObjectId)
  | destroy (x : ObjectId) (answer : Option Errno)
  /-- a step of the context; a socket that is handed to a receiver is constructed at `x` -/
  | context (l : Label Answers Unit PollCall) (x : ObjectId)

/-- The socket handed to a receiver: `accept` completed with it, and that is signalled. -/
def delivered (m : Machine PollContext Empty) : Label Answers Unit PollCall → Option SocketId
  | .call k =>
      match pollBase.call m.ctx k with
      | .ok (_, [.complete o (some (.accepted id peer))]) =>
          if (m.exec pollBase (.complete o (some (.accepted id peer)))).2 then some id else none
      | _ => none
  | _ => none

/-- The calls that the objects make. -/
def ofObjects : Label Answers Unit PollCall → Bool
  | .call (.makeSocket _) | .call (.makeSocketNative _) | .call (.release _ _) => true
  | _ => false

namespace World

/-- The context. -/
def ctx (w : World) : PollContext := w.machine.ctx

/-- After a call of the context. The process ends when that does not return. -/
def perform (w : World) (x : Exec (PollContext × (ObjectId → Option Object))) : Option World :=
  match x with
  | .ok (c, objects) => some { w with machine := { w.machine with ctx := c }, objects := objects }
  | .error .blocked => none
  | .error e => some { w with machine := { w.machine with status := some e } }

/-- A constructor makes an object at `x`. -/
def construct (w : World) (x : ObjectId) (r : Exec (PollContext × Option Object)) : Option World :=
  if w.objects x = none then
    match r with
    | .ok (_, none) => none
    | .ok (c, some object) => w.perform (.ok (c, Function.update w.objects x (some object)))
    | .error e => w.perform (.error e)
  else none

/-- A step of the context. -/
def context (w : World) (l : Label Answers Unit PollCall) (x : ObjectId) : Option World :=
  if ofObjects l then none
  else
    (w.machine.step pollBase l).bind fun m =>
      match delivered w.machine l with
      | none => some { w with machine := m }
      | some id =>
          if w.objects x = none then
            some { w with
              machine := m
              objects := Function.update w.objects x (some { kind := .socket, id := id }) }
          else none

/-- One step. -/
def step (w : World) (l : WorldLabel) : Option World :=
  if w.machine.status.isSome then none
  else match l with
  | .acceptor x answer => w.construct x (Object.acceptor w.ctx answer)
  | .socket x => w.construct x (.ok (w.ctx, some { kind := .socket }))
  | .streamSocket x answer => w.construct x (Object.streamSocket w.ctx answer)
  | .nativeSocket x fd =>
      -- the caller hands over a descriptor of its own
      if fd ∈ w.own ∧ fd < 2 ^ 31 then
        { w with own := w.own.filter (· ≠ fd) }.construct x (Object.nativeSocket w.ctx fd)
      else none
  | .open x answer =>
      match w.objects x with
      | some object =>
          if object.kind = .acceptor then
            w.perform ((object.open w.ctx answer).map fun r =>
              (r.2.1, Function.update w.objects x (some r.1)))
          else none
      | none => none
  | .close x answer =>
      match w.objects x with
      | some object =>
          if object.kind = .acceptor then
            w.perform ((object.close w.ctx answer).map fun r =>
              (r.2, Function.update w.objects x (some r.1)))
          else none
      | none => none
  | .move x y =>
      match w.objects x with
      | some object =>
          if w.objects y = none then
            w.perform (.ok (w.ctx, Function.update (Function.update w.objects y object.move.1) x
              object.move.2))
          else none
      | none => none
  | .destroy x answer =>
      match w.objects x with
      | some object =>
          w.perform ((object.destroy w.ctx answer).map fun c =>
            (c, Function.update w.objects x none))
      | none => none
  | .context l x => w.context l x

end World

end Net29
