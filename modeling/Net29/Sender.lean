import Net29.Basic
import Net29.Lib.Transition
import Mathlib.Tactic.Common

/-!
# `sender_state` over a context

Every asynchronous operation is a `sender_state`: its counter `outstanding` is changed by `start`,
`complete`, `error`, `cancel` and the stop callback `cancel_callback`, and whoever takes it to zero
signals the receiver. A context (`ContextBase`) only sees the `io_base` interface.

* `SenderState` with `complete`, `error`, `cancel`, `cancelCallbackComplete`, which all
  `countDown`;
* `Frame`: a call the library is about to make; `runFrames` makes the calls in order until one of
  them signals a receiver, whose code then runs (it may call anything) before the rest is done;
* `Machine`: the operation states, a context and the stack of interrupted library calls;
* `Label`, `Machine.step`: what user code, receivers and the system can do, in any order;
* `Machine.Runs`: the states that guarded steps reach.

`log` records, newest first, what happened to an operation state. Receivers and tasks run user code,
so a step of the machine ends whenever control is back in user code: at top level, or inside the
completion of another operation.
-/

namespace Net29

/-- The stop callback of an operation: absent, registered with the token, or already invoked. -/
inductive Callback
  | none
  | registered
  | invoked
  deriving DecidableEq, Repr

/-- A virtual call on an `io_base`. -/
inductive IoCall
  | complete (v : Value)
  | error (e : Error)
  | cancel
  deriving DecidableEq, Repr

/-- What happens to an operation state. -/
inductive OpEvent
  /-- `start` was called, with a token that is stopped already or not -/
  | started (stopped : Bool)
  /-- `submit` was called and returned `r`; the calls it made back are recorded after it -/
  | submitted (r : SubmitResult)
  /-- `complete`, `error` or `cancel` of the operation was called -/
  | called (c : IoCall)
  /-- the counter was changed by the stop callback or by its `complete` -/
  | counted
  /-- the stop callback asked the context to cancel, while the operation was pending or not -/
  | cancelAsked (pending : Bool)
  /-- the receiver was sent a signal -/
  | signal (s : Signal)
  deriving DecidableEq, Repr

/-- The signal an event records. -/
def OpEvent.signal? : OpEvent → Option Signal
  | .signal x => some x
  | _ => none

/-- The call of the operation an event records. -/
def OpEvent.call? : OpEvent → Option IoCall
  | .called c => some c
  | _ => none

/-- How an upstream sender completes. -/
inductive UpstreamSignal
  | value
  | error (e : ℕ)
  | stopped
  deriving DecidableEq, Repr

/-- The operation state of the upstream sender: how often it was started, what it sent. -/
structure Upstream where
  starts : ℕ := 0
  sent : Option UpstreamSignal := none
  deriving DecidableEq, Repr

/-- The result a descriptor's tuple holds before the system delivers one. -/
def Operation.initial : Operation → Value
  | .poll _ _ => .event .none
  | .receive _ _ | .send _ _ => .size 0
  | .accept _ _ | .connect _ _ | .resumeAt _ => .unit

/-- `sender_state`. -/
structure SenderState where
  op : Operation := .resumeAt 0
  outstanding : ℤ := 0
  callback : Callback := .none
  value : Value := .unit
  upstream : Upstream := {}
  log : List OpEvent := []
  deriving DecidableEq, Repr

namespace SenderState

/-- The signals the receiver was sent, newest first. -/
def signals (s : SenderState) : List Signal := s.log.filterMap OpEvent.signal?

/-- The calls of `complete`, `error` and `cancel`, newest first. -/
def calls (s : SenderState) : List IoCall := s.log.filterMap OpEvent.call?

theorem mem_signals {s : SenderState} {x : Signal} : x ∈ s.signals ↔ .signal x ∈ s.log := by
  simp only [signals, List.mem_filterMap]
  constructor
  · rintro ⟨e, he, hx⟩
    cases e with
    | signal y => cases hx; exact he
    | _ => cases hx
  · exact fun h => ⟨_, h, rfl⟩

/-- `if (0 == --d_outstanding)` with what follows: on behalf of the call recorded as `e` the counter
is decremented, and at zero the callback is reset (if `reset`) and the receiver is sent `x`. The
flag tells whether it was. -/
def countDown (s : SenderState) (e : OpEvent) (reset : Bool) (x : Signal) : SenderState × Bool :=
  let s := { s with outstanding := s.outstanding - 1, log := e :: s.log }
  if s.outstanding = 0 then
    ({ s with callback := if reset then .none else s.callback, log := .signal x :: s.log }, true)
  else (s, false)

/-- `complete`, after the result `v` (if any) was stored in the operation. -/
def complete (s : SenderState) (v : Option Value) : SenderState × Bool :=
  let s := { s with value := v.getD s.value }
  s.countDown (.called (.complete s.value)) true (.setValue s.value)

/-- `error`. -/
def error (s : SenderState) (e : Error) : SenderState × Bool :=
  s.countDown (.called (.error e)) true (.setError e)

/-- `cancel`: the callback is not reset. -/
def cancel (s : SenderState) : SenderState × Bool := s.countDown (.called .cancel) false .setStopped

/-- `cancel_callback::complete`, which its `error` and `cancel` call too. -/
def cancelCallbackComplete (s : SenderState) : SenderState × Bool :=
  s.countDown .counted false .setStopped

/-- The head of `start`: the operation is filled in, the counter incremented and the callback
registered with a token that is stopped already or not. -/
def begin (s : SenderState) (op : Operation) (stopped : Bool) : SenderState :=
  { s with
    op := op, value := op.initial, outstanding := s.outstanding + 1,
    callback := .registered, log := .started stopped :: s.log }

/-- The head of `cancel_callback::operator()`. -/
def invoke (s : SenderState) : SenderState :=
  { s with callback := .invoked, outstanding := s.outstanding + 1, log := .counted :: s.log }

@[simp] theorem signals_invoke (s : SenderState) : s.invoke.signals = s.signals := rfl
@[simp] theorem calls_invoke (s : SenderState) : s.invoke.calls = s.calls := rfl

/-- Only the last call to count down signals. -/
theorem countDown_signals (s : SenderState) (e : OpEvent) (reset : Bool) (x : Signal) :
    (s.countDown e reset x).2 = true ↔ s.outstanding = 1 := by
  dsimp only [countDown]
  split <;> simp <;> omega

theorem countDown_last {s : SenderState} (h : s.outstanding = 1) (e : OpEvent) (reset : Bool)
    (x : Signal) :
    s.countDown e reset x =
      ({ s with
        outstanding := 0, callback := if reset then .none else s.callback,
        log := .signal x :: e :: s.log }, true) := by
  simp [countDown, h]

theorem countDown_not_last {s : SenderState} (h : s.outstanding ≠ 1) (e : OpEvent) (reset : Bool)
    (x : Signal) :
    s.countDown e reset x =
      ({ s with outstanding := s.outstanding - 1, log := e :: s.log }, false) := by
  have h' : s.outstanding - 1 ≠ 0 := by omega
  simp [countDown, h']

theorem complete_last {s : SenderState} (h : s.outstanding = 1) (v : Option Value) :
    s.complete v =
      ({ s with
        value := v.getD s.value, outstanding := 0, callback := .none,
        log := .signal (.setValue (v.getD s.value)) :: .called (.complete (v.getD s.value)) ::
          s.log },
        true) :=
  countDown_last (s := { s with value := v.getD s.value }) h _ _ _

theorem complete_not_last {s : SenderState} (h : s.outstanding ≠ 1) (v : Option Value) :
    s.complete v =
      ({ s with
        value := v.getD s.value, outstanding := s.outstanding - 1,
        log := .called (.complete (v.getD s.value)) :: s.log }, false) :=
  countDown_not_last (s := { s with value := v.getD s.value }) h _ _ _

end SenderState

/-- A call the library is about to make; `T` are the continuations of the context itself. -/
inductive Frame (T : Type)
  /-- store the result and call `complete` of an operation -/
  | complete (o : OpId) (v : Option Value)
  /-- call `error` of an operation -/
  | error (o : OpId) (e : Error)
  /-- call `cancel` of an operation -/
  | cancel (o : OpId)
  /-- call `complete`, `error` or `cancel` of the operation's `cancel_callback` -/
  | cancelOp (o : OpId)
  /-- the end of `start` with a stopped token: destroy the callback and call `cancel` -/
  | stopAtStart (o : OpId)
  /-- call `complete` of a task -/
  | task (t : TaskId)
  /-- go on inside the context -/
  | tail (t : T)
  deriving DecidableEq, Repr

/-- The operation state a frame uses. -/
def Frame.target {T : Type} : Frame T → Option OpId
  | .complete o _ | .error o _ | .cancel o | .cancelOp o | .stopAtStart o => some o
  | .task _ | .tail _ => none

/-- `context_base`: a context with state `C`. `R` and `A` are the system's answers at a submission
and at a cancellation, `K` the other calls with their answers, `T` continuations after a callback.
Each call returns the calls it makes back; none of the contexts looks at its state after these,
except where it leaves a continuation. -/
structure ContextBase (C R A K T : Type) where
  /-- `poll`, `accept`, `connect`, `receive`, `send` and `resume_at` -/
  submit : C → IoBase → R → Exec (C × List (Frame T) × SubmitResult)
  /-- `cancel` -/
  cancel : C → IoBase → A → Exec (C × List (Frame T))
  /-- `run_one`, `schedule`, `make_socket`, `release` and what the system does meanwhile -/
  call : C → K → Exec (C × List (Frame T))
  /-- the rest of a call whose callbacks have returned -/
  tail : C → T → C
  /-- whether the context still has the operation -/
  pending : C → OpId → Bool

/-- A context with its operation states. `stack` holds, for every receiver or task whose code is
running, what the interrupted library call still has to do. -/
structure Machine (C T : Type) where
  ctx : C
  ops : OpId → SenderState := fun _ => {}
  stack : List (List (Frame T)) := []
  status : Option Stuck := none

/-- What can happen next: `R`, `A` and `K` are as for `ContextBase`. -/
inductive Label (R A K : Type)
  /-- user code starts an operation state -/
  | start (io : IoBase) (req : R) (stopped : Bool) (a : A)
  /-- stop is requested of the token of an operation -/
  | stop (o : OpId) (a : A)
  /-- user code calls the context, or the system acts -/
  | call (k : K)
  /-- the code of the receiver or task that was called last returns -/
  | ret
  /-- the upstream sender of an operation completes -/
  | upstream (io : IoBase) (u : UpstreamSignal) (req : R) (stopped : Bool) (a : A)

namespace Machine

variable {C R A K T : Type}

/-- Replace an operation state. -/
def set (m : Machine C T) (o : OpId) (s : SenderState) : Machine C T :=
  { m with ops := Function.update m.ops o s }

/-- Record an event of an operation. -/
def note (m : Machine C T) (o : OpId) (e : OpEvent) : Machine C T :=
  m.set o { m.ops o with log := e :: (m.ops o).log }

/-- Make one call; the flag tells whether user code runs now. The callback object of `cancelOp` must
still exist. -/
def exec (B : ContextBase C R A K T) (m : Machine C T) : Frame T → Machine C T × Bool
  | .complete o v => (m.set o ((m.ops o).complete v).1, ((m.ops o).complete v).2)
  | .error o e => (m.set o ((m.ops o).error e).1, ((m.ops o).error e).2)
  | .cancel o => (m.set o (m.ops o).cancel.1, (m.ops o).cancel.2)
  | .cancelOp o =>
      if (m.ops o).callback = .none then ({ m with status := some .undefined }, true)
      else (m.set o (m.ops o).cancelCallbackComplete.1, (m.ops o).cancelCallbackComplete.2)
  | .stopAtStart o =>
      let s := { m.ops o with callback := .none }.cancel
      (m.set o s.1, s.2)
  | .task _ => (m, true)
  | .tail t => ({ m with ctx := B.tail m.ctx t }, false)

/-- Make calls until one of them runs user code; the others wait on the stack. -/
def runFrames (B : ContextBase C R A K T) : Machine C T → List (Frame T) → Machine C T
  | m, [] => m
  | m, f :: fs =>
      if (m.exec B f).2 then { (m.exec B f).1 with stack := fs :: (m.exec B f).1.stack }
      else runFrames B (m.exec B f).1 fs

/-- Continue after a call of the context: the process ends when the call does not return. -/
def perform (B : ContextBase C R A K T) (m : Machine C T) :
    Exec (C × List (Frame T)) → Option (Machine C T)
  | .ok (c, fs) => some (runFrames B { m with ctx := c } fs)
  | .error .blocked => none
  | .error e => some { m with status := some e }

/-- `cancel_callback::operator()`: the machine when the context is asked, and what it answers. -/
def stopCallback (B : ContextBase C R A K T) (m : Machine C T) (o : OpId) (a : A) :
    Machine C T × Exec (C × List (Frame T)) :=
  let s := (m.ops o).invoke
  if 1 < s.outstanding then
    ((m.set o s).note o (.cancelAsked (B.pending m.ctx o)), B.cancel m.ctx ⟨o, s.op⟩ a)
  else (m.set o s, .ok (m.ctx, []))

/-- `sender_state::start`. The callback is registered with the token; on a stopped token it is
invoked by its constructor. -/
def start (B : ContextBase C R A K T) (m : Machine C T) (io : IoBase) (req : R) (stopped : Bool)
    (a : A) : Option (Machine C T) :=
  let m := m.set io.self ((m.ops io.self).begin io.op stopped)
  if stopped then
    -- the test of `stop_requested` comes after the callback was invoked
    let r := m.stopCallback B io.self a
    r.1.perform B (r.2.map fun x => (x.1, x.2 ++ [.stopAtStart io.self]))
  else
    match B.submit m.ctx io req with
    | .ok (c, fs, r) =>
        -- `complete` follows the calls the context made, even if one of them was `complete`
        let m := { m with ctx := c }.note io.self (.submitted r)
        some (m.runFrames B (fs ++ if r = .ready then [.complete io.self none] else []))
    | .error .blocked => none
    | .error e => some { m with status := some e }

/-- `sender_upstream_receiver`: `set_value` starts the operation, the other signals are passed on.
-/
def upstreamReceiver (B : ContextBase C R A K T) (m : Machine C T) (io : IoBase)
    (u : UpstreamSignal) (req : R) (stopped : Bool) (a : A) : Option (Machine C T) :=
  let s := m.ops io.self
  let s := { s with upstream := { s.upstream with sent := some u } }
  match u with
  | .value => (m.set io.self s).start B io req stopped a
  | .error e =>
      let s := { s with log := .signal (.setError (.upstream e)) :: s.log }
      some { m.set io.self s with stack := [] :: m.stack }
  | .stopped =>
      let s := { s with log := .signal .setStopped :: s.log }
      some { m.set io.self s with stack := [] :: m.stack }

/-- One step. An operation state is started once; a stop request reaches it through its registered
callback; the upstream sender completes once, after it was started. -/
def step (B : ContextBase C R A K T) (m : Machine C T) (l : Label R A K) :
    Option (Machine C T) :=
  if m.status.isSome then none
  else match l with
  | .start io req stopped a =>
      if (m.ops io.self).log = [] then m.start B io req stopped a else none
  | .stop o a =>
      if (m.ops o).callback = .registered then
        let r := m.stopCallback B o a
        r.1.perform B r.2
      else none
  | .call k => m.perform B (B.call m.ctx k)
  | .ret =>
      match m.stack with
      | [] => none
      | fs :: rest => some ({ m with stack := rest }.runFrames B fs)
  | .upstream io u req stopped a =>
      if 0 < (m.ops io.self).upstream.starts ∧ (m.ops io.self).upstream.sent = none then
        m.upstreamReceiver B io u req stopped a
      else none

/-- `m` is reached, by steps that meet the guard, from a context in the state `c` and operations
that were not started. -/
def Runs (B : ContextBase C R A K T) (ok : Machine C T → Label R A K → Prop) (c : C)
    (m : Machine C T) : Prop :=
  Transition.Reaches (step B) ok { ctx := c } m

/-! ### Field lemmas -/

section Fields

variable (m : Machine C T) (o : OpId) (s : SenderState) (e : OpEvent)

@[simp] theorem set_ctx : (m.set o s).ctx = m.ctx := rfl
@[simp] theorem set_stack : (m.set o s).stack = m.stack := rfl
@[simp] theorem set_status : (m.set o s).status = m.status := rfl
@[simp] theorem set_ops_self : (m.set o s).ops o = s := by simp [set]

theorem set_ops_of_ne {o o' : OpId} (h : o' ≠ o) : (m.set o s).ops o' = m.ops o' := by
  simp [set, Function.update_of_ne h]

variable {m o s} in
/-- What holds of the new state, if it is that of the operation, and of the old one otherwise. -/
theorem set_ops_cases {P : SenderState → Prop} {o' : OpId} (hself : o = o' → P s)
    (hother : o ≠ o' → P (m.ops o')) : P ((m.set o s).ops o') := by
  by_cases ho : o = o'
  · subst ho
    rw [set_ops_self]
    exact hself rfl
  · rw [set_ops_of_ne _ _ (Ne.symm ho)]
    exact hother ho

@[simp] theorem note_ctx : (m.note o e).ctx = m.ctx := rfl
@[simp] theorem note_stack : (m.note o e).stack = m.stack := rfl
@[simp] theorem note_status : (m.note o e).status = m.status := rfl

@[simp] theorem note_ops_self :
    (m.note o e).ops o = { m.ops o with log := e :: (m.ops o).log } := by simp [note]

theorem note_ops_of_ne {o o' : OpId} (h : o' ≠ o) : (m.note o e).ops o' = m.ops o' :=
  set_ops_of_ne _ _ h

end Fields

end Machine

end Net29
