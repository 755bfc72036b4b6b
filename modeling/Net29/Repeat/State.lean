import Net29.Lib.Program
import Net29.Lib.Transition

/-!
# `repeat_effect_until`

The operation state of `repeat_effect_until(upstream, body, predicate)`. The upstream sender, the
bodies and the predicate belong to the environment: they complete inside `start` or later, and
answer what they like.

* `Sender`, `Adaptor`: the body on its way into the operation state;
* `State` with `start`, `runNext`, `receive`: the functions of `state` and of its receiver;
* `Label`, `State.step`: what can happen next.
-/

namespace Net29
namespace RepeatEffectUntil

/-- How a sender completes. -/
inductive Completion (E : Type)
  | value
  | error (e : E)
  | stopped
  deriving DecidableEq, Repr

/-- What happens to the operation state. -/
inductive Event (Body E : Type)
  /-- the upstream operation was started -/
  | upstreamStarted
  | upstreamDone (x : Completion E)
  /-- the predicate was called, and returned -/
  | asked
  | answered (b : Bool)
  /-- the operation state of a body was constructed from the sender `b`, started and destroyed -/
  | connected (b : Body)
  | bodyStarted
  | bodyDone (x : Completion E)
  | destroyed
  /-- the receiver was sent a signal -/
  | signal (x : Completion E)
  deriving DecidableEq, Repr

/-- How far an operation of the environment is. -/
inductive Stage
  | connected
  | started
  | completed
  deriving DecidableEq, Repr

/-- The two senders. -/
inductive Side
  | upstream
  | body
  deriving DecidableEq, Repr

/-- `state`. The operations of the environment are represented by their stages. `active` are the
calls of `start` that have not returned, the innermost first, and `asking` says whether the
predicate is running; the log is for the statements, newest first. -/
structure State (Body E : Type) where
  body : Body
  upState : Stage := .connected
  bodyState : Option Stage := none
  asking : Bool := false
  active : List Side := []
  log : List (Event Body E) := []
  deriving DecidableEq, Repr

variable {Body E : Type}

namespace State

/-- `start`. -/
def start (s : State Body E) : State Body E :=
  { s with
    upState := .started, active := .upstream :: s.active, log := .upstreamStarted :: s.log }

/-- `_body_state.reset()`: also while the operation destroyed is completing. -/
def reset (s : State Body E) : State Body E :=
  match s.bodyState with
  | none => s
  | some _ => { s with bodyState := none, log := .destroyed :: s.log }

/-- `run_next` until it calls the predicate. -/
def runNext (s : State Body E) : State Body E :=
  { s.reset with asking := true, log := .asked :: s.reset.log }

/-- The rest of `run_next`. The stored body is given to `connect` as an rvalue, so that what is left
of it is `moved` of it. -/
def answer (moved : Body → Body) (s : State Body E) (b : Bool) : State Body E :=
  if b then { s with asking := false, log := .signal .value :: .answered true :: s.log }
  else
    { s with
      body := moved s.body, bodyState := some .started, asking := false,
      active := .body :: s.active,
      log := .bodyStarted :: .connected s.body :: .answered false :: s.log }

/-- The receiver connected to the upstream sender and to the bodies. -/
def receive (s : State Body E) : Completion E → State Body E
  | .value => s.runNext
  | .error e => { s with log := .signal (.error e) :: s.log }
  | .stopped => { s with log := .signal .stopped :: s.log }

end State

/-- What can happen next. -/
inductive Label (E : Type)
  /-- the operation state is started -/
  | start
  /-- the upstream operation completes -/
  | upstream (x : Completion E)
  /-- the body's operation completes -/
  | body (x : Completion E)
  /-- the predicate returns -/
  | predicate (b : Bool)
  /-- the innermost call of `start` returns -/
  | ret

/-- One step. Operations are started once, and complete once after that: inside their `start`, which
is then among the active calls, or later. -/
def State.step (moved : Body → Body) (s : State Body E) : Label E → Option (State Body E)
  | .start => if s.upState = .connected then some s.start else none
  | .upstream x =>
      if s.upState = .started then
        some ({ s with upState := .completed, log := .upstreamDone x :: s.log }.receive x)
      else none
  | .body x =>
      if s.bodyState = some .started then
        some ({ s with bodyState := some .completed, log := .bodyDone x :: s.log }.receive x)
      else none
  | .predicate b => if s.asking then some (s.answer moved b) else none
  | .ret =>
      match s.active with
      | [] => none
      | _ :: rest => if s.asking then none else some { s with active := rest }

/-! ### The way into the operation state -/

/-- An object is constructed from an rvalue: its value, and what is left. -/
def take (moved : Body → Body) (b : Body) : Body × Body := (b, moved b)

/-- `sender`, as far as it holds the body. -/
structure Sender (Body : Type) where
  body : Body

/-- `adaptor`, the same. -/
structure Adaptor (Body : Type) where
  body : Body

/-- `repeat_effect_until(upstream, body, predicate)`. -/
def sender (moved : Body → Body) (b : Body) : Sender Body := ⟨(take moved b).1⟩

/-- `repeat_effect_until(body, predicate)`. -/
def adaptor (moved : Body → Body) (b : Body) : Adaptor Body := ⟨(take moved b).1⟩

/-- The adaptor applied to an upstream sender: the sender, and the adaptor afterwards. -/
def Adaptor.apply (moved : Body → Body) (a : Adaptor Body) : Sender Body × Adaptor Body :=
  (sender moved a.body, ⟨(take moved a.body).2⟩)

/-- `connect`: the operation state, and the sender afterwards. -/
def Sender.connect (moved : Body → Body) (s : Sender Body) : State Body E × Sender Body :=
  ({ body := (take moved s.body).1 }, ⟨(take moved s.body).2⟩)

end RepeatEffectUntil
end Net29
