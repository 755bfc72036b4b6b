import Net29.Poll.Intact
import Net29.Poll.Owners
import Net29.Internet
import Mathlib.Data.Set.Insert

/-!
# The constructor of an acceptor

`basic_socket_acceptor(context, endpoint, reuse)` opens a socket, sets an option of it, binds it and
listens. Each of these throws the error it reports; the destructor of an object whose constructor
throws does not run.

* `PollContext.setOption`, `bind`, `listen`;
* `Object.acceptorBound`: the constructor;
* `AllOrNothing`, `acceptor_all_or_nothing_iff`: when the constructor leaves nothing behind.
-/

namespace Net29

open Machine Transition

/-- What `::bind` is handed. -/
structure BindCall where
  fd : Fd
  address : List UInt8
  len : ℕ
  deriving DecidableEq, Repr

namespace PollContext

/-- `set_option`, with the answer of `::setsockopt`. -/
def setOption (c : PollContext) (id : SocketId) (answer : Option Errno) : Exec (Option Errno) := do
  let _ ← c.nativeHandle id
  .ok answer

/-- `bind`, with the answer of `::bind`. -/
def bind (c : PollContext) (id : SocketId) (endpoint : Endpoint) (answer : Option Errno) :
    Exec (BindCall × Option Errno) := do
  let fd ← c.nativeHandle id
  .ok (⟨fd, endpoint.data, endpoint.size⟩, answer)

/-- `listen`, with the answer of `::listen`. -/
def listen (c : PollContext) (id : SocketId) (answer : Option Errno) : Exec (Option Errno) := do
  let _ ← c.nativeHandle id
  .ok answer

end PollContext

/-- The constructor of `detail::endpoint` from anything with `data()` and `size()`: here those of a
`basic_endpoint`. -/
def Endpoint.ofBasic (host : ByteOrder) (e : BasicEndpoint) : Endpoint :=
  Endpoint.ofPointer e.base.storage (e.size host)

/-- `io_context::bind`, which converts the endpoint. -/
def ioContextBind (host : ByteOrder) (c : PollContext) (id : SocketId) (endpoint : BasicEndpoint)
    (answer : Option Errno) : Exec (BindCall × Option Errno) :=
  c.bind id (Endpoint.ofBasic host endpoint) answer

/-- `explicit operator bool`: the value is not 0. -/
def ErrorCode.isError : ErrorCode → Bool
  | .system errno => errno ≠ 0
  | .alreadyOpen => true

/-- The answers of `::socket`, `::setsockopt`, `::bind` and `::listen`. -/
structure AcceptorAnswers where
  socket : SysAnswer
  setsockopt : Option Errno := none
  bind : Option Errno := none
  listen : Option Errno := none
  deriving DecidableEq, Repr

/-- What a constructor leaves: the context, and the object or what is thrown. -/
structure Construction where
  ctx : PollContext
  result : Except ErrorCode Object

namespace Object

variable (host : ByteOrder)

/-- `dispatch`, and what follows it: an error that was reported is thrown. -/
def dispatch (c : PollContext) (error : Option ErrorCode) (rest : Exec Construction) :
    Exec Construction :=
  match error.filter ErrorCode.isError with
  | some e => .ok ⟨c, .error e⟩
  | none => rest

/-- `bind` and `listen`. -/
def bindAndListen (x : Object) (c : PollContext) (endpoint : BasicEndpoint)
    (a : AcceptorAnswers) : Exec Construction := do
  let (_, error) ← ioContextBind host c x.id endpoint a.bind
  dispatch c (error.map .system) do
    let error ← c.listen x.id a.listen
    dispatch c (error.map .system) (.ok ⟨c, .ok x⟩)

/-- What follows `open`. -/
def setUp (x : Object) (c : PollContext) (endpoint : BasicEndpoint) (reuse : Bool)
    (a : AcceptorAnswers) : Exec Construction :=
  if reuse then do
    let error ← c.setOption x.id a.setsockopt
    dispatch c (error.map .system) (x.bindAndListen host c endpoint a)
  else x.bindAndListen host c endpoint a

/-- The constructor of an acceptor from an endpoint. -/
def acceptorBound (c : PollContext) (endpoint : BasicEndpoint) (reuse : Bool)
    (a : AcceptorAnswers) : Exec Construction := do
  let (x, c, error) ← { kind := .acceptor : Object }.open c a.socket
  dispatch c error (x.setUp host c endpoint reuse a)

end Object

/-- An answer is an error. -/
def Reports (answer : Option Errno) : Prop := ∃ e, e ≠ 0 ∧ answer = some e

/-- A call after `open` reports an error. -/
def AcceptorAnswers.SetUpFails (a : AcceptorAnswers) (reuse : Bool) : Prop :=
  reuse = true ∧ Reports a.setsockopt ∨ Reports a.bind ∨ Reports a.listen

/-! ### What the constructor does -/

section Construct

variable {host : ByteOrder} {c c' : PollContext} {x : Object}
  {endpoint : BasicEndpoint} {reuse : Bool} {a : AcceptorAnswers} {r : Construction}
  {id : SocketId}

theorem reports_iff {answer : Option Errno} :
    Reports answer ↔ (answer.map ErrorCode.system).filter ErrorCode.isError ≠ none := by
  cases answer with
  | none => simp [Reports]
  | some e => simp [Reports, Option.filter, ErrorCode.isError]

/-- A call that reports an error ends the constructor. -/
theorem Object.dispatch_eq_ok {answer : Option Errno} {rest : Exec Construction}
    (h : Object.dispatch c (answer.map ErrorCode.system) rest = .ok r) :
    (Reports answer ∧ r.ctx = c ∧ ∃ e, r.result = .error e) ∨
      (¬ Reports answer ∧ rest = .ok r) := by
  rw [reports_iff]
  unfold Object.dispatch at h
  split at h
  · next e he => cases h; exact .inl ⟨by rw [he]; simp, rfl, e, rfl⟩
  · next he => exact .inr ⟨by rw [he]; simp, h⟩

/-- How the calls after `open` end, which leave the context alone. -/
structure SetUpAs (c : PollContext) (x : Object) (fails : Prop) (r : Construction) : Prop where
  ctx : r.ctx = c
  live : ∃ rec, c.sockets.get? x.id = some rec
  throws : fails → ∃ e, r.result = .error e
  returns : ¬ fails → r.result = .ok x

theorem Object.bindAndListen_spec (h : x.bindAndListen host c endpoint a = .ok r) :
    SetUpAs c x (Reports a.bind ∨ Reports a.listen) r := by
  obtain ⟨⟨call, error⟩, hbind, h⟩ := Exec.bind_eq_ok.1 h
  obtain ⟨fd, hfd, hbind⟩ := Exec.bind_eq_ok.1 hbind
  cases hbind
  obtain ⟨rec, hrec, -⟩ := PollContext.nativeHandle_eq_ok hfd
  rcases Object.dispatch_eq_ok h with ⟨hfails, hctx, hthrows⟩ | ⟨hbind, h⟩
  · exact ⟨hctx, ⟨rec, hrec⟩, fun _ => hthrows, fun hnot => absurd (.inl hfails) hnot⟩
  · obtain ⟨error', hlisten, h⟩ := Exec.bind_eq_ok.1 h
    obtain ⟨fd', -, hlisten⟩ := Exec.bind_eq_ok.1 hlisten
    cases hlisten
    rcases Object.dispatch_eq_ok h with ⟨hfails, hctx, hthrows⟩ | ⟨hlisten, h⟩
    · exact ⟨hctx, ⟨rec, hrec⟩, fun _ => hthrows, fun hnot => absurd (.inr hfails) hnot⟩
    · cases h
      exact ⟨rfl, ⟨rec, hrec⟩, fun hfails => absurd hfails (by simp [hbind, hlisten]), fun _ => rfl⟩

theorem Object.setUp_spec (h : x.setUp host c endpoint reuse a = .ok r) :
    SetUpAs c x (a.SetUpFails reuse) r := by
  unfold Object.setUp at h
  split at h
  · next hreuse =>
    obtain ⟨error, hset, h⟩ := Exec.bind_eq_ok.1 h
    obtain ⟨fd, hfd, hset⟩ := Exec.bind_eq_ok.1 hset
    cases hset
    obtain ⟨rec, hrec, -⟩ := PollContext.nativeHandle_eq_ok hfd
    rcases Object.dispatch_eq_ok h with ⟨hfails, hctx, hthrows⟩ | ⟨hset, h⟩
    · exact ⟨hctx, ⟨rec, hrec⟩, fun _ => hthrows,
        fun hnot => absurd (.inl ⟨hreuse, hfails⟩) hnot⟩
    · have hrest := Object.bindAndListen_spec h
      exact ⟨hrest.ctx, hrest.live, fun hf => hrest.throws (hf.resolve_left fun hs => hset hs.2),
        fun hnot => hrest.returns fun hf => hnot (.inr hf)⟩
  · next hreuse =>
    have hrest := Object.bindAndListen_spec h
    exact ⟨hrest.ctx, hrest.live, fun hf => hrest.throws (hf.resolve_left fun hs => hreuse hs.1),
      fun hnot => hrest.returns fun hf => hnot (.inr hf)⟩

/-- How the constructor ends: with an error of `::socket` and no socket, or with a new socket, which
the object has if no later call fails. -/
theorem Object.acceptorBound_cases (hinvalid : c.sockets.get? SocketId.invalid = none)
    (h : Object.acceptorBound host c endpoint reuse a = .ok r) :
    (∃ e, a.socket = .err e ∧ r.ctx = c ∧ ∃ e, r.result = .error e) ∨
      ∃ id fd peer, a.socket = .ok fd peer ∧ c.makeSocket a.socket = .ok (r.ctx, id, none) ∧
        (a.SetUpFails reuse → ∃ e, r.result = .error e) ∧
        (¬ a.SetUpFails reuse → r.result = .ok ⟨.acceptor, id⟩) := by
  obtain ⟨⟨x, c₁, error⟩, hopen, h⟩ := Exec.bind_eq_ok.1 h
  obtain ⟨id, e, hmake, rfl, rfl⟩ := Object.open_eq_ok hopen
  have herror : (e.map ErrorCode.system).or
      (if Object.isOpen { kind := .acceptor } then some .alreadyOpen else none) =
        e.map ErrorCode.system := Option.or_none
  rw [herror] at h
  cases hsocket : a.socket with
  | err errno =>
    rw [hsocket] at hmake
    cases hmake
    refine .inl ⟨errno, rfl, ?_⟩
    rcases Object.dispatch_eq_ok h with ⟨-, hctx, hthrows⟩ | ⟨-, h⟩
    · exact ⟨hctx, hthrows⟩
    · -- `::socket` fails with an error code that is none: the next call finds no socket
      obtain ⟨rec, hrec⟩ := (Object.setUp_spec h).live
      rw [hinvalid] at hrec
      cases hrec
  | ok fd peer =>
    refine .inr ⟨id, fd, peer, rfl, ?_⟩
    obtain rfl : e = none := by
      rcases PollContext.makeSocket_eq_ok hmake with ⟨-, -, he⟩ | ⟨-, he⟩
      · rw [hsocket] at hmake
        obtain ⟨_, -, hmake⟩ := Exec.bind_eq_ok.1 hmake
        obtain ⟨⟨_, _⟩, -, hmake⟩ := Exec.bind_eq_ok.1 hmake
        cases hmake
        rfl
      · exact he
    rcases Object.dispatch_eq_ok h with ⟨⟨_, -, hnone⟩, -⟩ | ⟨-, h⟩
    · cases hnone
    · have hset := Object.setUp_spec h
      rw [hset.ctx, ← hsocket]
      exact ⟨hmake, hset.throws, hset.returns⟩

end Construct

/-! ### All or nothing -/

namespace PollContext

variable {c c' : PollContext} {id : SocketId}

/-- The live sockets. -/
def live (c : PollContext) : Set SocketId := {id | (c.sockets.get? id).isSome}

/-- The open descriptors. -/
def descriptors (c : PollContext) : Set Fd := {fd | (c.env.os.denotes fd).isSome}

theorem mem_live {id : SocketId} : id ∈ c.live ↔ (c.sockets.get? id).isSome := Iff.rfl

theorem mem_descriptors {fd : Fd} : fd ∈ c.descriptors ↔ (c.env.os.denotes fd).isSome := Iff.rfl

/-- A socket was added, with a descriptor that was opened for it. -/
def Added (c c' : PollContext) (id : SocketId) : Prop :=
  id ∉ c.live ∧ c'.live = insert id c.live ∧
    ∃ rec, c'.sockets.get? id = some rec ∧ rec.handle ∉ c.descriptors ∧
      c'.descriptors = insert rec.handle c.descriptors

theorem Made.added (h : Made c c' id) (hT : Intact c) : Added c c' id := by
  obtain ⟨fd, os, hopen, hins, rfl⟩ := h
  obtain ⟨hnew, hself, hother⟩ := Container.insert_spec hins hT.size_lt
  refine ⟨?_, ?_, _, hself, ?_, ?_⟩
  · rw [mem_live, hnew]
    simp
  · ext id'
    rw [Set.mem_insert_iff, mem_live, mem_live]
    by_cases hid : id' = id
    · simp [hid, hself]
    · simp [hid, hother id' hid]
  · rw [mem_descriptors, (Os.open_eq_ok hopen).2.1]
    simp
  · ext fd'
    rw [Set.mem_insert_iff, mem_descriptors, mem_descriptors]
    by_cases hfd : fd' = fd
    · simp [hfd, Os.denotes_open_self hopen]
    · simp [hfd, Os.denotes_open_of_ne hopen hfd]

end PollContext

open PollContext

/-- A constructor that throws leaves the sockets as they were; one that returns adds one socket,
which the object has. -/
def AllOrNothing (c : PollContext) (r : Construction) : Prop :=
  (∀ e, r.result = .error e → r.ctx.live = c.live ∧ r.ctx.descriptors = c.descriptors) ∧
    ∀ x, r.result = .ok x → ∃ id, Added c r.ctx id ∧ x.held = some id

/-- **The constructor of an acceptor is all or nothing** exactly when `::socket` fails or no later
call does: what throws after `open` leaves a socket that no object has. -/
theorem acceptor_all_or_nothing_iff (host : ByteOrder) (os : Os) (m : Machine PollContext Empty)
    (hm : Runs pollBase NativeOpen (initial os) m) (endpoint : BasicEndpoint) (reuse : Bool)
    (a : AcceptorAnswers) (r : Construction)
    (h : Object.acceptorBound host m.ctx endpoint reuse a = .ok r) :
    AllOrNothing m.ctx r ↔ (∃ errno, a.socket = .err errno) ∨ ¬ a.SetUpFails reuse := by
  have hT := intact_of_runs hm
  rcases Object.acceptorBound_cases hT.invalid h with ⟨errno, hsocket, hctx, e, he⟩ |
    ⟨id, fd, peer, hsocket, hmake, hthrows, hreturns⟩
  · refine iff_of_true ⟨fun _ _ => by rw [hctx]; exact ⟨rfl, rfl⟩, fun x hx => ?_⟩
      (.inl ⟨errno, hsocket⟩)
    rw [he] at hx
    cases hx
  · have hmade : Made m.ctx r.ctx id := by
      rcases makeSocket_eq_ok hmake with ⟨-, -, hsome⟩ | ⟨hmade, -⟩
      · cases hsome
      · exact hmade
    have hadded := hmade.added hT
    by_cases hfails : a.SetUpFails reuse
    · obtain ⟨e, he⟩ := hthrows hfails
      refine iff_of_false (fun hall => ?_) ?_
      · -- the new id is live, which it was not
        have hlive : id ∈ r.ctx.live := hadded.2.1 ▸ Set.mem_insert _ _
        rw [(hall.1 e he).1] at hlive
        exact hadded.1 hlive
      · rintro (⟨errno, herr⟩ | hnot)
        · rw [hsocket] at herr
          cases herr
        · exact hnot hfails
    · refine iff_of_true ⟨fun e he => ?_, fun x hx => ?_⟩ (.inr hfails)
      · rw [hreturns hfails] at he
        cases he
      · rw [hreturns hfails] at hx
        cases hx
        refine ⟨id, hadded, Object.held_of_ne ?_⟩
        -- the new id is live, and `invalid` is not
        rintro rfl
        obtain ⟨rec, hrec, -⟩ := hadded.2.2
        rw [(hT.made hmade).invalid] at hrec
        cases hrec

/-- `127.0.0.1:80`. -/
def loopbackHttp : BasicEndpoint :=
  .ofAddress .little (.ofV4 .little (fun _ => 0) ⟨0x7f000001⟩) 80

/-- In a new context the descriptor 3 is opened, and `::bind` answers as given. -/
def constructed (bind : Option Errno) : Exec Construction :=
  Object.acceptorBound .little (PollContext.initial {}) loopbackHttp true
    { socket := .ok 3 [], bind := bind }

theorem acceptor_all_or_nothing_iff_success :
    ∃ r, constructed none = .ok r ∧ AllOrNothing (PollContext.initial {}) r :=
  ⟨_, rfl, (acceptor_all_or_nothing_iff .little {} _ (.refl _) loopbackHttp true
    { socket := .ok 3 [] } _ rfl).2 (.inr (by simp [AcceptorAnswers.SetUpFails, Reports]))⟩

/-- The address is in use: `bind` throws, and the socket 0 stays in the table with its descriptor.
-/
theorem acceptor_not_all_or_nothing :
    ∃ r, constructed (some 98) = .ok r ∧ r.result = .error (.system 98) ∧
      ¬ AllOrNothing (PollContext.initial {}) r := by
  refine ⟨_, rfl, rfl, fun hall => ?_⟩
  have hlive : (0 : SocketId) ∈ (PollContext.initial {}).live := by
    rw [← (hall.1 _ rfl).1]
    rfl
  cases hlive

end Net29
