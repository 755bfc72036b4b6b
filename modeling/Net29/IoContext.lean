import Net29.Repeat.MovedBody

/-!
# `io_context`

* `RunLoop`: the loop of `run`, which calls `run_one` until it returns 0;
* `Execution`: the sender adaptors of the execution library, with `Documented` for what is known of
  them;
* `AsyncRun`: the operation state of `async_run`, with `AsyncRun.step`. It is that of a
  `repeat_effect_until` whose body schedules a call of `run_one` and whose predicate looks at the
  last result.
-/

namespace Net29

open RepeatEffectUntil Transition

/-! ### `run` -/

/-- `run`: the value it will return, the calls of `run_one` so far, and whether it returned. -/
structure RunLoop where
  count : ℕ := 0
  calls : ℕ := 0
  returned : Bool := false
  deriving DecidableEq, Repr

/-- The loop after `run_one` returned `c`. -/
def RunLoop.next (r : RunLoop) (c : ℕ) : RunLoop :=
  if c = 0 then { r with calls := r.calls + 1, returned := true }
  else { r with count := r.count + c, calls := r.calls + 1 }

/-- One call of `run_one`, the results of which are given. -/
def RunLoop.step (results : ℕ → ℕ) (r : RunLoop) (_ : Unit) : Option RunLoop :=
  if r.returned then none else some (r.next (results r.calls))

/-! ### The execution library -/

/-- What an operation state does that can start another one. -/
inductive Reaction (E : Type)
  | goOn
  | complete (x : Completion E)

/-- The parts of the execution library that `async_run` is composed of. `σ` are the schedulers. -/
structure Execution (σ E : Type) where
  /-- what is left of the scheduler in `starts_on(sched, …)` when that was connected as an rvalue -/
  moved : σ → σ
  /-- how `just()` completes inside `start` -/
  just : Completion E
  /-- `starts_on`: whether it starts the schedule operation -/
  startsOn : Reaction E
  /-- whether it starts the other sender when the schedule operation has completed -/
  scheduled : Completion E → Reaction E
  /-- how it completes when the other sender has -/
  finished : Completion E → Completion E
  /-- `then(f)`, sent the value `n`, where `f` changes a variable: it, and how it completes -/
  thenValue : (ℕ → ℕ → ℕ) → ℕ → ℕ → ℕ × Completion E
  /-- `read_env | let_value(f)` below `write_env`: whether it starts the operation of the sender
  that `f` returns -/
  letValue : Reaction E
  /-- how `upon_error` over all this completes when that operation has -/
  outer : Completion E → Completion E

/-- What the documentation says. -/
structure Execution.Documented {σ E : Type} (X : Execution σ E) : Prop where
  moved : ∀ sched, X.moved sched = sched
  just : X.just = .value
  startsOn : X.startsOn = .goOn
  scheduled : X.scheduled .value = .goOn
  finished : ∀ x, X.finished x = x
  thenValue : ∀ f n v, X.thenValue f n v = (f n v, .value)
  letValue : X.letValue = .goOn
  outer : X.outer .value = .value

/-! ### `async_run` -/

/-- What happens next in the operation of `async_run`. -/
inductive Point (E : Type)
  /-- it has not been started -/
  | idle
  /-- it was started -/
  | entering
  /-- `just()` was started -/
  | upstream
  /-- the predicate was called -/
  | asking
  /-- the operation of `starts_on` was started -/
  | bodyStart
  /-- the schedule operation was started -/
  | scheduling
  /-- it completed -/
  | scheduled (x : Completion E)
  /-- `run_one` was called -/
  | calling
  /-- it returned, and `run_one_state` sends the result to `then` -/
  | counted (n : ℕ)
  /-- `then` completed -/
  | finished (x : Completion E)
  /-- `starts_on` completed -/
  | bodyDone (x : Completion E)
  /-- `repeat_effect_until` completed -/
  | left (x : Completion E)
  /-- the receiver was signalled -/
  | completed

/-- The operation state of `async_run`: that of `repeat_effect_until`, the captured variable, how
often `run_one` was called and how often it returned, and what the receiver was sent. -/
structure AsyncRun (σ E : Type) where
  loop : RepeatEffectUntil.State σ E
  point : Point E := .idle
  lastCount : ℕ := 1
  calls : ℕ := 0
  returned : ℕ := 0
  signals : List (Completion E) := []

/-- What can happen next. -/
inductive AsyncRunLabel (E : Type)
  /-- the operation is started -/
  | start
  /-- the operations react to what happened last -/
  | tick
  /-- the schedule operation completes -/
  | scheduled (x : Completion E)
  /-- `run_one` returns -/
  | returned
  /-- a call of `start` returns -/
  | ret

namespace AsyncRun

variable {σ E : Type}

/-- What `repeat_effect_until` did last. -/
def follow (loop : RepeatEffectUntil.State σ E) : Point E :=
  match loop.log with
  | .signal x :: _ => .left x
  | _ => if loop.asking then .asking else .bodyStart

/-- A step of `repeat_effect_until`. -/
def advance (X : Execution σ E) (s : AsyncRun σ E) (l : RepeatEffectUntil.Label E) :
    Option (AsyncRun σ E) :=
  (s.loop.step X.moved l).map fun loop => { s with loop := loop, point := follow loop }

/-- The operations react. -/
def tick (X : Execution σ E) (s : AsyncRun σ E) : Option (AsyncRun σ E) :=
  match s.point with
  | .entering =>
      match X.letValue with
      | .goOn => (s.loop.step X.moved .start).map fun loop =>
          { s with loop := loop, point := .upstream }
      | .complete x => some { s with point := .left x }
  | .upstream => s.advance X (.upstream X.just)
  -- the predicate refers to the captured variable
  | .asking => s.advance X (.predicate (s.lastCount = 0))
  | .bodyStart =>
      match X.startsOn with
      | .goOn => some { s with point := .scheduling }
      | .complete x => some { s with point := .bodyDone x }
  | .scheduled x =>
      match X.scheduled x with
      | .goOn => some { s with point := .calling, calls := s.calls + 1 }
      | .complete y => some { s with point := .bodyDone y }
  | .counted n =>
      let r := X.thenValue (fun count _ => count) n s.lastCount
      some { s with lastCount := r.1, point := .finished r.2 }
  | .finished x => some { s with point := .bodyDone (X.finished x) }
  | .bodyDone x => s.advance X (.body x)
  | .left x => some { s with point := .completed, signals := X.outer x :: s.signals }
  | .idle | .scheduling | .calling | .completed => none

/-- One step. -/
def step (X : Execution σ E) (results : ℕ → ℕ) (s : AsyncRun σ E) :
    AsyncRunLabel E → Option (AsyncRun σ E)
  | .start =>
      match s.point with
      | .idle => some { s with point := .entering }
      | _ => none
  | .tick => s.tick X
  | .scheduled x =>
      match s.point with
      | .scheduling => some { s with point := .scheduled x }
      | _ => none
  | .returned =>
      match s.point with
      | .calling =>
          some { s with point := .counted (results s.returned), returned := s.returned + 1 }
      | _ => none
  | .ret => (s.loop.step X.moved .ret).map fun loop => { s with loop := loop }

/-- The schedule sender of `sched` completes with `set_value`. -/
def Schedules (sched : σ) (s : AsyncRun σ E) : AsyncRunLabel E → Prop
  | .scheduled x => s.loop.connects.head? = some sched → x = .value
  | _ => True

/-- The operation state before it is started. -/
def initial (X : Execution σ E) (sched : σ) : AsyncRun σ E :=
  { loop := ((sender X.moved sched).connect X.moved).1 }

end AsyncRun

end Net29
