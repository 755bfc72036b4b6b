import Net29.Lib.Transition
import Mathlib.Tactic.Common

/-!
# `task`

`task` runs a coroutine whose body awaits senders. What a sender completes with resumes the body;
when it was stopped, the task ends. A stop request for the task is passed on to the sender awaited,
and while it is, `set_stopped` is put off until `request_stop` has returned.

* `Coroutine`, `Coroutine.outcome`: the body, and how it ends on the completions of its senders;
* `State`, `step`: the coroutine and the operation state, with a receiver that may destroy them;
* `Stage`, `Stops`, `Kept`: what the receiver has been sent, what the stop state says, and who may
  have destroyed the operation state;
* `completes_as_body`: the receiver is sent how the body ends, whenever stop is requested.
-/

namespace Net29

open Transition

namespace DemoTask

/-- How a sender that is awaited completes. -/
inductive Completion (β ε : Type)
  | value (b : β)
  | error (e : ε)
  | stopped
  deriving DecidableEq, Repr

/-- What the body does next: it returns, lets an exception out, or awaits a sender. -/
inductive Act (α ε σ : Type)
  | ret (a : α)
  | throw (e : ε)
  | await (k : σ)
  deriving DecidableEq, Repr

/-- The body, from one suspension to the next. `await_resume` gives it the value of the sender, or
throws its error. -/
structure Coroutine (α β ε σ : Type) where
  first : Act α ε σ
  resume : σ → Except ε β → Act α ε σ

/-- How the body ends. -/
inductive Outcome (α ε : Type)
  | returned (a : α)
  | threw (e : ε)
  | stopped
  deriving DecidableEq, Repr

/-- What the receiver is sent. `set_value` takes the stored result; `none` is one that was not
stored. -/
inductive Signal (α ε : Type)
  | setValue (a : Option α)
  | setError (e : ε)
  | setStopped
  deriving DecidableEq, Repr

/-- `task::stop_state`. -/
inductive StopState
  | running
  | stopping
  | stopped
  deriving DecidableEq, Repr

/-- The stop callback. -/
inductive Callback
  /-- before `start` -/
  | unset
  | registered
  /-- in `request_stop`; the body is running below it, or is suspended -/
  | requesting (inBody : Bool)
  /-- `reset`, or destroyed with the operation state -/
  | gone
  deriving DecidableEq, Repr

/-- Where the coroutine is. -/
inductive Phase (α ε σ : Type)
  /-- in `initial_suspend` -/
  | idle
  | running (act : Act α ε σ)
  | awaiting (k : σ)
  /-- after `return_value` or `unhandled_exception`, before `final_suspend` -/
  | leaving
  /-- in `final_suspend` -/
  | finished
  /-- suspended for good by a sender that was stopped -/
  | abandoned
  deriving DecidableEq, Repr

variable {α β ε σ : Type}

/-- How the body ends when the senders it awaits complete with `xs`, if it does. -/
def Coroutine.outcome (c : Coroutine α β ε σ) : Act α ε σ → List (Completion β ε) →
    Option (Outcome α ε)
  | .ret a, _ => some (.returned a)
  | .throw e, _ => some (.threw e)
  | .await _, [] => none
  | .await k, .value b :: xs => c.outcome (c.resume k (.ok b)) xs
  | .await k, .error e :: xs => c.outcome (c.resume k (.error e)) xs
  | .await _, .stopped :: _ => some .stopped

/-- The operation state with the promise of the coroutine. `alive` says whether they still exist,
`used` whether they were used when they did not; `completions` are those of the senders awaited, and
`signals` those sent to the receiver, the first one first. -/
structure State (α β ε σ : Type) where
  taskResult : Option α
  stopState : StopState := .running
  callback : Callback := .unset
  phase : Phase α ε σ := .idle
  alive : Bool := true
  used : Bool := false
  completions : List (Completion β ε) := []
  signals : List (Signal α ε) := []
  deriving DecidableEq, Repr

/-- What can happen next. -/
inductive Label (β ε : Type)
  /-- the operation is started with a token that is stopped, or is not -/
  | start (stopped : Bool)
  /-- the coroutine goes on -/
  | advance
  /-- the sender that is awaited completes -/
  | complete (x : Completion β ε)
  /-- stop is requested: the callback is called, and calls `request_stop` -/
  | stop
  /-- `request_stop` returns to the callback -/
  | stopReturned
  deriving DecidableEq, Repr

namespace State

variable (c : Coroutine α β ε σ) (keeps : Bool) (s : State α β ε σ)

/-- The body, or what follows it, is on the stack. -/
def InBody : Prop :=
  match s.phase with
  | .running _ | .leaving => True
  | .idle | .awaiting _ | .finished | .abandoned => False

instance : Decidable s.InBody := by
  unfold InBody
  split <;> infer_instance

/-- The receiver is sent a signal. If it does not keep the operation state, its destructor also
deregisters the callback. -/
def signal (x : Signal α ε) : State α β ε σ :=
  { s with
    signals := s.signals ++ [x]
    alive := s.alive && keeps
    callback := if keeps then s.callback else
      match s.callback with
      | .registered => .gone
      | cb => cb }

/-- `start`: on a token that is stopped the callback is called while it is registered. No sender is
awaited then, and it leaves the stop state at `running`. -/
def start (stopped : Bool) : State α β ε σ :=
  { s with callback := if stopped then .gone else .registered, phase := .running c.first }

/-- The body goes on to what it does next; `final_suspend` completes with the stored result. -/
def advance : Option (State α β ε σ) :=
  match s.phase with
  | .running (.ret a) => some { s with taskResult := some a, phase := .leaving }
  | .running (.throw e) => some ({ s with phase := .leaving }.signal keeps (.setError e))
  | .running (.await k) => some { s with phase := .awaiting k }
  | .leaving =>
      if s.alive then some ({ s with phase := .finished }.signal keeps (.setValue s.taskResult))
      else some { s with used := true }
  | .idle | .awaiting _ | .finished | .abandoned => none

/-- `sender_awaiter::stop`. -/
def stop : State α β ε σ :=
  let s' := { s with stopState := .stopped, phase := .abandoned }
  if s.stopState = .running then s'.signal keeps .setStopped else s'

/-- The receiver of the sender that is awaited. -/
def receive (k : σ) : Completion β ε → State α β ε σ
  | .value b => { s with phase := .running (c.resume k (.ok b)) }
  | .error e => { s with phase := .running (c.resume k (.error e)) }
  | .stopped => s.stop keeps

/-- The rest of the callback. -/
def requested : State α β ε σ :=
  if s.alive then
    if s.stopState = .stopped then { s with callback := .gone }.signal keeps .setStopped
    else { s with callback := .gone, stopState := .running }
  else { s with used := true }

/-- One step, as long as nothing was used that does not exist. Calls return in the order of the
stack: a body does not go on while the callback it called is in `request_stop`, and that does not
return while a body that was resumed in it runs. -/
def step (l : Label β ε) : Option (State α β ε σ) :=
  if s.used then none else
  match l with
  | .start stopped =>
      match s.phase with
      | .idle => some (s.start c stopped)
      | _ => none
  | .advance => if s.callback = .requesting true then none else s.advance keeps
  | .complete x =>
      match s.phase with
      | .awaiting k => some ({ s with completions := s.completions ++ [x] }.receive c keeps k x)
      | _ => none
  | .stop =>
      if s.callback = .registered then
        some { s with callback := .requesting (decide s.InBody), stopState := .stopping }
      else none
  | .stopReturned =>
      match s.callback with
      | .requesting inBody => if inBody = true ∨ ¬ s.InBody then some (s.requested keeps) else none
      | _ => none

end State

/-! ### One step -/

section Steps

variable {c : Coroutine α β ε σ} {keeps : Bool} {s s' : State α β ε σ} {l : Label β ε}
  {x : Signal α ε} {inBody : Bool}

@[simp] theorem signal_signals : (s.signal keeps x).signals = s.signals ++ [x] := rfl

@[simp] theorem signal_phase : (s.signal keeps x).phase = s.phase := rfl

@[simp] theorem signal_callback :
    (s.signal keeps x).callback = .requesting inBody ↔ s.callback = .requesting inBody := by
  unfold State.signal
  dsimp only
  split_ifs
  · exact Iff.rfl
  · split
    · next h => simp [h]
    · exact Iff.rfl

/-- What a step does. -/
inductive Stepped (c : Coroutine α β ε σ) (keeps : Bool) (s : State α β ε σ) :
    Label β ε → State α β ε σ → Prop
  | start {stopped : Bool} (hp : s.phase = .idle) :
      Stepped c keeps s (.start stopped) (s.start c stopped)
  | ret {a : α} (hp : s.phase = .running (.ret a)) :
      Stepped c keeps s .advance { s with taskResult := some a, phase := .leaving }
  | throw {e : ε} (hp : s.phase = .running (.throw e)) (hfree : s.callback ≠ .requesting true) :
      Stepped c keeps s .advance ({ s with phase := .leaving }.signal keeps (.setError e))
  | await {k : σ} (hp : s.phase = .running (.await k)) :
      Stepped c keeps s .advance { s with phase := .awaiting k }
  | final (hp : s.phase = .leaving) (hfree : s.callback ≠ .requesting true)
      (halive : s.alive = true) :
      Stepped c keeps s .advance
        ({ s with phase := .finished }.signal keeps (.setValue s.taskResult))
  | lateFinal (hp : s.phase = .leaving) (hdead : s.alive = false) :
      Stepped c keeps s .advance { s with used := true }
  | resume {k : σ} {x : Completion β ε} {y : Except ε β} (hp : s.phase = .awaiting k)
      (hx : ∀ xs, c.outcome (.await k) (x :: xs) = c.outcome (c.resume k y) xs) :
      Stepped c keeps s (.complete x)
        { s with completions := s.completions ++ [x], phase := .running (c.resume k y) }
  | stopped {k : σ} (hp : s.phase = .awaiting k) (hstop : s.stopState = .running) :
      Stepped c keeps s (.complete .stopped)
        ({ s with
          completions := s.completions ++ [Completion.stopped]
          stopState := .stopped
          phase := .abandoned }.signal keeps .setStopped)
  | putOff {k : σ} (hp : s.phase = .awaiting k) (hstop : s.stopState ≠ .running) :
      Stepped c keeps s (.complete .stopped)
        { s with
          completions := s.completions ++ [Completion.stopped]
          stopState := .stopped
          phase := .abandoned }
  | stop (hcallback : s.callback = .registered) :
      Stepped c keeps s .stop
        { s with callback := .requesting (decide s.InBody), stopState := .stopping }
  | caughtUp {b : Bool} (hcallback : s.callback = .requesting b) (halive : s.alive = true)
      (hstop : s.stopState = .stopped) :
      Stepped c keeps s .stopReturned ({ s with callback := .gone }.signal keeps .setStopped)
  | wentOn {b : Bool} (hcallback : s.callback = .requesting b) (halive : s.alive = true)
      (hstop : s.stopState ≠ .stopped) :
      Stepped c keeps s .stopReturned { s with callback := .gone, stopState := .running }
  | lateReturn {b : Bool} (hcallback : s.callback = .requesting b) (hdead : s.alive = false) :
      Stepped c keeps s .stopReturned { s with used := true }

theorem stepped_of_advance (hfree : s.callback ≠ .requesting true)
    (h : s.advance keeps = some s') : Stepped c keeps s .advance s' := by
  unfold State.advance at h
  split at h
  · next hp => cases h; exact .ret hp
  · next hp => cases h; exact .throw hp hfree
  · next hp => cases h; exact .await hp
  · next hp =>
    split_ifs at h with halive
    · cases h; exact .final hp hfree halive
    · cases h; exact .lateFinal hp (by simpa using halive)
  all_goals cases h

theorem stepped_of_receive {k : σ} (hp : s.phase = .awaiting k) (x : Completion β ε) :
    Stepped c keeps s (.complete x)
      ({ s with completions := s.completions ++ [x] }.receive c keeps k x) := by
  cases x with
  | value b => exact .resume hp fun _ => rfl
  | error e => exact .resume hp fun _ => rfl
  | stopped =>
    unfold State.receive State.stop
    dsimp only
    split_ifs with hstop
    · exact .stopped hp hstop
    · exact .putOff hp hstop

theorem stepped_of_requested (hcallback : s.callback = .requesting inBody) :
    Stepped c keeps s .stopReturned (s.requested keeps) := by
  unfold State.requested
  split_ifs with halive hstop
  · exact .caughtUp hcallback halive hstop
  · exact .wentOn hcallback halive hstop
  · exact .lateReturn hcallback (by simpa using halive)

theorem stepped_of_step (h : s.step c keeps l = some s') :
    s.used = false ∧ Stepped c keeps s l s' := by
  unfold State.step at h
  by_cases hused : s.used = true
  · rw [if_pos hused] at h
    cases h
  rw [if_neg hused] at h
  refine ⟨by simpa using hused, ?_⟩
  cases l with
  | start stopped =>
    dsimp only at h
    split at h
    · next hp => cases h; exact .start hp
    · cases h
  | advance =>
    dsimp only at h
    split_ifs at h with hfree
    exact stepped_of_advance hfree h
  | complete x =>
    dsimp only at h
    split at h
    · next hp => cases h; exact stepped_of_receive hp x
    · cases h
  | stop =>
    dsimp only at h
    split_ifs at h with hcallback
    cases h
    exact .stop hcallback
  | stopReturned =>
    dsimp only at h
    split at h
    · next hcallback =>
      split_ifs at h
      cases h
      exact stepped_of_requested hcallback
    · cases h

end Steps

/-! ### How the body ends -/

section Outcomes

variable {c : Coroutine α β ε σ} {xs : List (Completion β ε)} {r : Option α}
  {o : Outcome α ε}

@[simp] theorem outcome_ret (a : α) : c.outcome (.ret a) xs = some (.returned a) := by
  cases xs <;> rfl

@[simp] theorem outcome_throw (e : ε) : c.outcome (.throw e) xs = some (.threw e) := by
  cases xs <;> rfl

/-- What a receiver is sent for the end of a body. An exception is followed by the `set_value` of
`final_suspend`, with the result there was before. -/
def Outcome.signals (r : Option α) : Outcome α ε → List (Signal α ε)
  | .returned a => [.setValue (some a)]
  | .threw e => [.setError e, .setValue r]
  | .stopped => [.setStopped]

/-- What it is sent when the senders that the body awaits complete with `xs`. -/
def Coroutine.signals (c : Coroutine α β ε σ) (r : Option α) (xs : List (Completion β ε)) :
    List (Signal α ε) :=
  match c.outcome c.first xs with
  | none => []
  | some o => o.signals r

theorem signals_of_outcome (h : c.outcome c.first xs = some o) : c.signals r xs = o.signals r := by
  unfold Coroutine.signals
  rw [h]

end Outcomes

/-! ### The invariants -/

section Invariants

variable {c : Coroutine α β ε σ} {keeps : Bool} {r : Option α} {s s' : State α β ε σ}
  {l : Label β ε} {act : Act α ε σ} {k : σ} {o : Outcome α ε} {x : Completion β ε}

/-- The callback is in `request_stop`. -/
def State.Requesting (s : State α β ε σ) : Prop := ∃ inBody, s.callback = .requesting inBody

/-- `set_stopped` is put off. -/
def State.Deferred (s : State α β ε σ) : Prop := s.Requesting ∧ s.stopState = .stopped

/-- After the completions of its senders the body does `act` next. -/
def Follows (c : Coroutine α β ε σ) (s : State α β ε σ) (act : Act α ε σ) : Prop :=
  ∀ xs, c.outcome c.first (s.completions ++ xs) = c.outcome act xs

/-- What the body does next, how it ended, and what the receiver has been sent. -/
def Stage (c : Coroutine α β ε σ) (r : Option α) (s : State α β ε σ) : Prop :=
  match s.phase with
  | .idle => s.callback = .unset ∧ s.completions = [] ∧ s.taskResult = r ∧ s.signals = []
  | .running act => Follows c s act ∧ s.taskResult = r ∧ s.signals = []
  | .awaiting k => Follows c s (.await k) ∧ s.taskResult = r ∧ s.signals = []
  | .leaving => ∃ o, c.outcome c.first s.completions = some o ∧
      s.signals ++ [.setValue s.taskResult] = o.signals r
  | .finished => ∃ o, c.outcome c.first s.completions = some o ∧ s.signals = o.signals r
  | .abandoned => c.outcome c.first s.completions = some .stopped ∧
      (s.Deferred ∧ s.signals = [] ∨ ¬ s.Deferred ∧ s.signals = [.setStopped])

/-- What the stop state says. -/
inductive Stops (s : State α β ε σ) : Prop
  | quiet (hquiet : ¬ s.Requesting) (hstop : s.stopState = .running ∨ s.phase = .abandoned)
  | stopping (hrequesting : s.Requesting) (hstop : s.stopState = .stopping)
  | stopped (hrequesting : s.Requesting) (hstop : s.stopState = .stopped)
      (hphase : s.phase = .abandoned)

theorem requesting_signal {x : Signal α ε} : (s.signal keeps x).Requesting ↔ s.Requesting :=
  exists_congr fun _ => signal_callback

theorem Stops.quiet_of_running (h : Stops s) (hstop : s.stopState = .running) : ¬ s.Requesting := by
  cases h with
  | quiet hquiet => exact hquiet
  | stopping _ h => rw [h] at hstop; cases hstop
  | stopped _ h => rw [h] at hstop; cases hstop

theorem Stops.abandoned (h : Stops s) (hrequesting : s.Requesting)
    (hstop : s.stopState = .stopped) : s.phase = .abandoned := by
  cases h with
  | quiet hquiet => exact absurd hrequesting hquiet
  | stopping _ h => rw [h] at hstop; cases hstop
  | stopped _ _ hphase => exact hphase

theorem Stops.stopping_of_ne (h : Stops s) (hp : s.phase ≠ .abandoned)
    (hstop : s.stopState ≠ .running) : s.Requesting := by
  cases h with
  | quiet _ h => exact absurd h (not_or.2 ⟨hstop, hp⟩)
  | stopping hrequesting => exact hrequesting
  | stopped hrequesting => exact hrequesting

/-- A body that goes on leaves the stop state as it is. -/
theorem Stops.move (h : Stops s) (hp : s.phase ≠ .abandoned)
    (hrequesting : s'.Requesting ↔ s.Requesting) (hstop : s'.stopState = s.stopState) :
    Stops s' := by
  cases h with
  | quiet hquiet hs =>
    exact .quiet (mt hrequesting.1 hquiet) (.inl (hstop.trans (hs.resolve_right hp)))
  | stopping hr hs => exact .stopping (hrequesting.2 hr) (hstop.trans hs)
  | stopped _ _ hphase => exact absurd hphase hp

theorem Stops.step (h : Stops s) (hstage : Stage c r s) (hstep : Stepped c keeps s l s') :
    Stops s' := by
  cases hstep with
  | @start stopped hp =>
    have hunset : s.callback = .unset := by
      unfold Stage at hstage
      rw [hp] at hstage
      exact hstage.1
    have hquiet : ¬ s.Requesting := by rintro ⟨b, hb⟩; rw [hunset] at hb; cases hb
    refine h.move (by rw [hp]; nofun) (iff_of_false ?_ hquiet) rfl
    rintro ⟨b, hb⟩
    cases stopped <;> cases hb
  | ret hp => exact h.move (by rw [hp]; nofun) Iff.rfl rfl
  | throw hp => exact h.move (by rw [hp]; nofun) requesting_signal rfl
  | await hp => exact h.move (by rw [hp]; nofun) Iff.rfl rfl
  | final hp => exact h.move (by rw [hp]; nofun) requesting_signal rfl
  | lateFinal hp => exact h.move (by rw [hp]; nofun) Iff.rfl rfl
  | resume hp => exact h.move (by rw [hp]; nofun) Iff.rfl rfl
  | stopped hp hstop => exact .quiet (mt requesting_signal.1 (h.quiet_of_running hstop)) (.inr rfl)
  | putOff hp hstop => exact .stopped (h.stopping_of_ne (by rw [hp]; nofun) hstop) rfl rfl
  | stop hcallback => exact .stopping ⟨_, rfl⟩ rfl
  | caughtUp hcallback halive hstop =>
    refine .quiet (fun hr => ?_) (.inr ?_)
    · obtain ⟨b, hb⟩ := requesting_signal.1 hr
      cases hb
    · exact h.abandoned ⟨_, hcallback⟩ hstop
  | wentOn hcallback => exact .quiet (by rintro ⟨b, hb⟩; cases hb) (.inl rfl)
  | lateReturn =>
    cases h with
    | quiet hquiet hs => exact .quiet hquiet hs
    | stopping hr hs => exact .stopping hr hs
    | stopped hr hs hphase => exact .stopped hr hs hphase

/-- What a step that leaves the coroutine alone keeps of its stage. -/
theorem Stage.congr (h : Stage c r s) (hidle : s.phase ≠ .idle) (hphase : s'.phase = s.phase)
    (hcompletions : s'.completions = s.completions) (hresult : s'.taskResult = s.taskResult)
    (hsignals : s'.signals = s.signals) (hdeferred : ¬ s.Deferred) (hdeferred' : ¬ s'.Deferred) :
    Stage c r s' := by
  unfold Stage Follows at h ⊢
  rw [hphase, hcompletions, hresult, hsignals]
  cases hp : s.phase with
  | idle => exact absurd hp hidle
  | running act => rw [hp] at h; exact h
  | awaiting k => rw [hp] at h; exact h
  | leaving => rw [hp] at h; exact h
  | finished => rw [hp] at h; exact h
  | abandoned =>
    rw [hp] at h
    exact ⟨h.1, .inr ⟨hdeferred', (h.2.resolve_left fun hd => hdeferred hd.1).2⟩⟩

theorem Stage.phase_ne_idle (h : Stage c r s) (hcallback : s.callback ≠ .unset) :
    s.phase ≠ .idle := by
  intro hp
  unfold Stage at h
  rw [hp] at h
  exact hcallback h.1

theorem Stage.of_running (h : Stage c r s) (hp : s.phase = .running act) :
    Follows c s act ∧ s.taskResult = r ∧ s.signals = [] := by
  unfold Stage at h
  rw [hp] at h
  exact h

theorem Stage.of_awaiting (h : Stage c r s) (hp : s.phase = .awaiting k) :
    Follows c s (.await k) ∧ s.taskResult = r ∧ s.signals = [] := by
  unfold Stage at h
  rw [hp] at h
  exact h

theorem Stage.of_leaving (h : Stage c r s) (hp : s.phase = .leaving) :
    ∃ o, c.outcome c.first s.completions = some o ∧
      s.signals ++ [.setValue s.taskResult] = o.signals r := by
  unfold Stage at h
  rw [hp] at h
  exact h

theorem Follows.outcome (h : Follows c s act) :
    c.outcome c.first s.completions = c.outcome act [] := by
  rw [← h, List.append_nil]

theorem Stage.step (h : Stage c r s) (hstops : Stops s) (hstep : Stepped c keeps s l s') :
    Stage c r s' := by
  cases hstep with
  | start hp =>
    unfold Stage at h
    rw [hp] at h
    obtain ⟨-, hcompletions, hresult, hsignals⟩ := h
    refine ⟨fun xs => ?_, hresult, hsignals⟩
    show c.outcome c.first (s.completions ++ xs) = _
    rw [hcompletions]
    rfl
  | @ret a hp =>
    obtain ⟨hfollows, -, hsignals⟩ := h.of_running hp
    refine ⟨.returned a, hfollows.outcome.trans (outcome_ret a), ?_⟩
    show s.signals ++ _ = _
    rw [hsignals]
    rfl
  | @throw e hp =>
    obtain ⟨hfollows, hresult, hsignals⟩ := h.of_running hp
    refine ⟨.threw e, hfollows.outcome.trans (outcome_throw e), ?_⟩
    show s.signals ++ [.setError e] ++ [.setValue s.taskResult] = _
    rw [hsignals, hresult]
    rfl
  | await hp => exact h.of_running hp
  | final hp => exact h.of_leaving hp
  | lateFinal => exact h
  | @resume k x y hp hx =>
    obtain ⟨hfollows, hresult, hsignals⟩ := h.of_awaiting hp
    refine ⟨fun xs => ?_, hresult, hsignals⟩
    show c.outcome c.first (s.completions ++ [x] ++ xs) = _
    rw [List.append_assoc, hfollows]
    exact hx xs
  | stopped hp hstop =>
    obtain ⟨hfollows, -, hsignals⟩ := h.of_awaiting hp
    refine ⟨hfollows [.stopped], .inr ⟨fun hd => ?_, ?_⟩⟩
    · obtain ⟨b, hb⟩ := requesting_signal.1 hd.1
      exact hstops.quiet_of_running hstop ⟨b, hb⟩
    · show s.signals ++ _ = _
      rw [hsignals]
      rfl
  | putOff hp hstop =>
    obtain ⟨hfollows, -, hsignals⟩ := h.of_awaiting hp
    have hrequesting := hstops.stopping_of_ne (by rw [hp]; nofun) hstop
    exact ⟨hfollows [.stopped], .inl ⟨⟨hrequesting, rfl⟩, hsignals⟩⟩
  | stop hcallback =>
    have hquiet : ¬ s.Requesting := by rintro ⟨b, hb⟩; rw [hcallback] at hb; cases hb
    exact h.congr (h.phase_ne_idle (by rw [hcallback]; nofun)) rfl rfl rfl rfl
      (fun hd => hquiet hd.1) (fun hd => by cases hd.2)
  | @caughtUp b hcallback halive hstop =>
    have hdeferred : s.Deferred := ⟨⟨b, hcallback⟩, hstop⟩
    have hphase := hstops.abandoned hdeferred.1 hstop
    have hphase' : ({ s with callback := .gone } : State α β ε σ).phase = .abandoned := hphase
    unfold Stage at h ⊢
    rw [hphase] at h
    rw [signal_phase, hphase']
    refine ⟨h.1, .inr ⟨fun hd => ?_, ?_⟩⟩
    · obtain ⟨b', hb'⟩ := requesting_signal.1 hd.1
      cases hb'
    · show s.signals ++ _ = _
      rw [(h.2.resolve_right fun hd => hd.1 hdeferred).2]
      rfl
  | @wentOn b hcallback halive hstop =>
    exact h.congr (h.phase_ne_idle (by rw [hcallback]; nofun)) rfl rfl rfl rfl
      (fun hd => hstop hd.2) (fun hd => by cases hd.2)
  | lateReturn => exact h

/-- The operation state is destroyed only by a receiver that does not keep it, and used too late
only when it was destroyed. -/
structure Kept (keeps : Bool) (s : State α β ε σ) : Prop where
  alive : s.alive = false → keeps = false
  used : s.used = true → s.alive = false

theorem Kept.signal {x : Signal α ε} (h : Kept keeps s) : Kept keeps (s.signal keeps x) where
  alive hdead := (Bool.and_eq_false_iff.1 hdead).elim h.alive id
  used hused := Bool.and_eq_false_iff.2 (.inl (h.used hused))

theorem Kept.step (h : Kept keeps s) (hstep : Stepped c keeps s l s') : Kept keeps s' := by
  cases hstep with
  | start => exact ⟨h.alive, h.used⟩
  | ret => exact ⟨h.alive, h.used⟩
  | throw => exact .signal ⟨h.alive, h.used⟩
  | await => exact ⟨h.alive, h.used⟩
  | final => exact .signal ⟨h.alive, h.used⟩
  | lateFinal _ hdead => exact ⟨h.alive, fun _ => hdead⟩
  | resume => exact ⟨h.alive, h.used⟩
  | stopped => exact .signal ⟨h.alive, h.used⟩
  | putOff => exact ⟨h.alive, h.used⟩
  | stop => exact ⟨h.alive, h.used⟩
  | caughtUp => exact .signal ⟨h.alive, h.used⟩
  | wentOn => exact ⟨h.alive, h.used⟩
  | lateReturn _ hdead => exact ⟨h.alive, fun _ => hdead⟩

theorem kept_of_reaches (h : Reaches (State.step c keeps) free { taskResult := r } s) :
    Kept keeps s :=
  h.invariant (I := Kept keeps) ⟨nofun, nofun⟩ fun _ _ _ hkept _ hstep =>
    hkept.step (stepped_of_step hstep).2

theorem stage_of_reaches (h : Reaches (State.step c keeps) free { taskResult := r } s) :
    Stage c r s ∧ Stops s := by
  refine h.invariant (I := fun s => Stage c r s ∧ Stops s) ⟨⟨rfl, rfl, rfl, rfl⟩, ?_⟩ ?_
  · exact .quiet (by rintro ⟨b, hb⟩; cases hb) (.inl rfl)
  · rintro t l u ⟨hstage, hstops⟩ - hstep
    have hstepped := (stepped_of_step hstep).2
    exact ⟨hstage.step hstops hstepped, hstops.step hstage hstepped⟩

end Invariants

/-! ### What the receiver is sent -/

section Signals

variable {c : Coroutine α β ε σ} {keeps : Bool} {r : Option α} {s s' : State α β ε σ}
  {l : Label β ε}

/-- The task was started, and nothing of it is on the stack. -/
structure State.Quiet (s : State α β ε σ) : Prop where
  started : s.phase ≠ .idle
  body : ¬ s.InBody
  callback : ¬ s.Requesting
  used : s.used = false

theorem Stage.signals_prefix (h : Stage c r s) : s.signals <+: c.signals r s.completions := by
  unfold Stage at h
  split at h
  · rw [h.2.2.2]; exact List.nil_prefix
  · rw [h.2.2]; exact List.nil_prefix
  · rw [h.2.2]; exact List.nil_prefix
  · obtain ⟨o, ho, hsignals⟩ := h
    rw [signals_of_outcome ho]
    exact ⟨_, hsignals⟩
  · obtain ⟨o, ho, hsignals⟩ := h
    exact ⟨[], by rw [signals_of_outcome ho, hsignals, List.append_nil]⟩
  · rcases h.2 with ⟨-, hsignals⟩ | ⟨-, hsignals⟩
    · rw [hsignals]; exact List.nil_prefix
    · exact ⟨[], by rw [signals_of_outcome h.1, hsignals, List.append_nil, Outcome.signals]⟩

theorem Stage.signals_of_quiet (h : Stage c r s) (hquiet : s.Quiet) :
    s.signals = c.signals r s.completions := by
  have hbody := hquiet.body
  unfold State.InBody at hbody
  unfold Stage at h
  split at h
  · next hp => exact absurd hp hquiet.started
  · next hp => rw [hp] at hbody; exact absurd trivial hbody
  · rw [h.2.2, Coroutine.signals, h.1.outcome]
    rfl
  · next hp => rw [hp] at hbody; exact absurd trivial hbody
  · obtain ⟨o, ho, hsignals⟩ := h
    rw [signals_of_outcome ho, hsignals]
  · rw [signals_of_outcome h.1, (h.2.resolve_left fun hd => hquiet.callback hd.1.1).2]
    rfl

/-- The steps of the body that are left until it is suspended. -/
def Phase.pending : Phase α ε σ → ℕ
  | .running _ => 2
  | .leaving => 1
  | .idle | .awaiting _ | .finished | .abandoned => 0

/-- Whether the callback has to return. -/
def Callback.pending : Callback → ℕ
  | .requesting _ => 1
  | .unset | .registered | .gone => 0

/-- The steps that are left until nothing of the task is on the stack. -/
def State.pending (s : State α β ε σ) : ℕ :=
  if s.used then 0 else s.phase.pending + s.callback.pending

/-- A step that returns from a call, or lets the body go on. -/
def Label.Returns (l : Label β ε) : Prop := l = .advance ∨ l = .stopReturned

/-- A step by which the stack gets smaller, and no sender completes. -/
structure Unwinds (s s' : State α β ε σ) : Prop where
  started : s'.phase ≠ .idle
  completions : s'.completions = s.completions
  pending : s'.pending < s.pending

theorem pending_signal {x : Signal α ε} : (s.signal keeps x).pending = s.pending := by
  unfold State.pending State.signal
  cases keeps with
  | true => rfl
  | false => cases s.callback <;> rfl

theorem unwinds_advance (keeps : Bool) (hused : s.used = false) (hbody : s.InBody) :
    ∃ s', s.advance keeps = some s' ∧ Unwinds s s' := by
  unfold State.InBody at hbody
  unfold State.advance
  cases hp : s.phase with
  | idle => rw [hp] at hbody; cases hbody
  | awaiting k => rw [hp] at hbody; cases hbody
  | finished => rw [hp] at hbody; cases hbody
  | abandoned => rw [hp] at hbody; cases hbody
  | running act =>
    cases act with
    | ret a => exact ⟨_, rfl, nofun, rfl, by simp [State.pending, Phase.pending, hused, hp]⟩
    | throw e =>
      refine ⟨_, rfl, nofun, rfl, ?_⟩
      rw [pending_signal]
      simp [State.pending, Phase.pending, hused, hp]
    | await k => exact ⟨_, rfl, nofun, rfl, by simp [State.pending, Phase.pending, hused, hp]⟩
  | leaving =>
    dsimp only
    split_ifs
    · refine ⟨_, rfl, nofun, rfl, ?_⟩
      rw [pending_signal]
      simp [State.pending, Phase.pending, hused, hp]
    · refine ⟨_, rfl, nofun, rfl, ?_⟩
      have hpos : 0 < s.phase.pending + s.callback.pending := by
        rw [hp]
        exact Nat.add_pos_left Nat.one_pos _
      rwa [State.pending, State.pending, if_pos rfl, if_neg (by simp [hused])]

theorem unwinds_requested (hused : s.used = false) (hstarted : s.phase ≠ .idle)
    (hrequesting : s.Requesting) : Unwinds s (s.requested keeps) := by
  obtain ⟨inBody, hcallback⟩ := hrequesting
  unfold State.requested
  split_ifs
  · refine ⟨hstarted, rfl, ?_⟩
    rw [pending_signal]
    simp [State.pending, Callback.pending, hused, hcallback]
  · exact ⟨hstarted, rfl, by simp [State.pending, Callback.pending, hused, hcallback]⟩
  · exact ⟨hstarted, rfl, by simp [State.pending, Callback.pending, hused, hcallback]⟩

/-- As long as something of the task is on the stack, its innermost call can return. -/
theorem quiet_or_unwinds (c : Coroutine α β ε σ) (keeps : Bool) (hused : s.used = false)
    (hstarted : s.phase ≠ .idle) :
    s.Quiet ∨ ∃ l s', l.Returns ∧ s.step c keeps l = some s' ∧ Unwinds s s' := by
  have hlive : ¬ s.used = true := by simp [hused]
  have hadvance : s.InBody → s.callback ≠ .requesting true →
      ∃ l s', l.Returns ∧ s.step c keeps l = some s' ∧ Unwinds s s' := by
    intro hbody hfree
    obtain ⟨s', hs', hunwinds⟩ := unwinds_advance keeps hused hbody
    refine ⟨.advance, s', .inl rfl, ?_, hunwinds⟩
    unfold State.step
    rw [if_neg hlive, ← hs']
    exact if_neg hfree
  by_cases hrequesting : s.Requesting
  · obtain ⟨inBody, hcallback⟩ := id hrequesting
    by_cases hreturns : inBody = true ∨ ¬ s.InBody
    · refine .inr ⟨.stopReturned, s.requested keeps, .inr rfl, ?_,
        unwinds_requested hused hstarted hrequesting⟩
      unfold State.step
      rw [if_neg hlive, hcallback]
      exact if_pos hreturns
    · -- the body was resumed inside `request_stop`
      obtain ⟨hin, hbody⟩ := not_or.1 hreturns
      refine .inr (hadvance (not_not.1 hbody) fun h => hin ?_)
      rw [hcallback] at h
      cases h
      rfl
  · by_cases hbody : s.InBody
    · exact .inr (hadvance hbody fun h => hrequesting ⟨_, h⟩)
    · exact .inl ⟨hstarted, hbody, hrequesting, hused⟩

/-- Induction on the steps that are left; they end early if the operation state is used too late. -/
theorem settles (hkept : Kept keeps s) (hstarted : s.phase ≠ .idle) :
    ∃ ls s', (∀ l ∈ ls, Label.Returns l) ∧ ls.length ≤ s.pending ∧
      run (State.step c keeps) s ls = some s' ∧ s'.completions = s.completions ∧
      (s'.Quiet ∨ keeps = false ∧ s'.alive = false ∧ s'.used = true) := by
  induction hn : s.pending using Nat.strongRecOn generalizing s with
  | _ n ih =>
    subst hn
    by_cases hused : s.used = true
    · have hdead := hkept.used hused
      exact ⟨[], s, nofun, Nat.zero_le _, rfl, rfl, .inr ⟨hkept.alive hdead, hdead, hused⟩⟩
    rcases quiet_or_unwinds c keeps (by simpa using hused) hstarted with
      hquiet | ⟨l, t, hl, hstep, hunwinds⟩
    · exact ⟨[], s, nofun, Nat.zero_le _, rfl, rfl, .inl hquiet⟩
    · obtain ⟨ls, s', hls, hlen, hrun, hsame, hend⟩ :=
        ih t.pending hunwinds.pending (hkept.step (stepped_of_step hstep).2) hunwinds.started rfl
      refine ⟨l :: ls, s', List.forall_mem_cons.2 ⟨hl, hls⟩, ?_, ?_,
        hsame.trans hunwinds.completions, hend⟩
      · exact Nat.lt_of_le_of_lt hlen hunwinds.pending
      · rw [run_cons, hstep]
        exact hrun

theorem Phase.pending_le (p : Phase α ε σ) : p.pending ≤ 2 := by
  cases p <;> simp [Phase.pending]

theorem Callback.pending_le (cb : Callback) : cb.pending ≤ 1 := by
  cases cb <;> simp [Callback.pending]

theorem pending_le (s : State α β ε σ) : s.pending ≤ 3 := by
  unfold State.pending
  split_ifs
  · exact Nat.zero_le _
  · exact Nat.add_le_add s.phase.pending_le s.callback.pending_le

/-- `set_stopped` is not sent while `request_stop` runs. -/
theorem setStopped_of_requesting (hstops : Stops s) (hstep : Stepped c keeps s l s')
    (hrequesting : s'.Requesting) (h : .setStopped ∈ s'.signals) : .setStopped ∈ s.signals := by
  cases hstep with
  | start => exact h
  | ret => exact h
  | throw => simpa using h
  | await => exact h
  | final => simpa using h
  | lateFinal => exact h
  | resume => exact h
  | stopped hp hstop =>
    obtain ⟨b, hb⟩ := requesting_signal.1 hrequesting
    exact absurd ⟨b, hb⟩ (hstops.quiet_of_running hstop)
  | putOff => exact h
  | stop => exact h
  | caughtUp =>
    obtain ⟨b, hb⟩ := requesting_signal.1 hrequesting
    cases hb
  | wentOn => exact h
  | lateReturn => exact h

/-- **The receiver is sent how the body ends**, whenever stop is requested, and no more than that:
what it has been sent is the beginning of it, and all of it when nothing of the task is on the
stack. It takes at most three steps to get there, unless the receiver has destroyed the operation
state and it is used then. `set_stopped` is not sent from `request_stop`. -/
theorem completes_as_body (h : Reaches (State.step c keeps) free { taskResult := r } s) :
    s.signals <+: c.signals r s.completions ∧
    (s.Quiet → s.signals = c.signals r s.completions) ∧
    (∀ l s', s.step c keeps l = some s' → s'.Requesting → .setStopped ∈ s'.signals →
      .setStopped ∈ s.signals) ∧
    (s.phase ≠ .idle → ∃ ls s', (∀ l ∈ ls, Label.Returns l) ∧ ls.length ≤ 3 ∧
      run (State.step c keeps) s ls = some s' ∧ s'.completions = s.completions ∧
      (s'.Quiet ∨ keeps = false ∧ s'.alive = false ∧ s'.used = true)) := by
  obtain ⟨hstage, hstops⟩ := stage_of_reaches h
  refine ⟨hstage.signals_prefix, hstage.signals_of_quiet, fun l s' hstep => ?_, fun hstarted => ?_⟩
  · exact setStopped_of_requesting hstops (stepped_of_step hstep).2
  · obtain ⟨ls, s', hls, hlen, hrest⟩ := settles (kept_of_reaches h) hstarted
    exact ⟨ls, s', hls, Nat.le_trans hlen (pending_le s), hrest⟩

/-- A body that returns what its only sender completes with. -/
def awaitOne : Coroutine ℕ ℕ ℕ Unit where
  first := .await ()
  resume _ x :=
    match x with
    | .ok n => .ret n
    | .error e => .throw e

/-- The sender is stopped by the request, while `request_stop` runs. -/
theorem completes_as_body_stopped :
    ∃ s : State ℕ ℕ ℕ Unit, run (State.step awaitOne true) { taskResult := none }
        [.start false, .advance, .stop, .complete .stopped, .stopReturned] = some s ∧
      s.signals = [.setStopped] := by
  obtain ⟨s, hrun, hquiet, hcompletions⟩ : ∃ s : State ℕ ℕ ℕ Unit,
      run (State.step awaitOne true) { taskResult := none }
        [.start false, .advance, .stop, .complete .stopped, .stopReturned] = some s ∧
      s.Quiet ∧ s.completions = [.stopped] :=
    ⟨_, rfl, ⟨nofun, id, nofun, rfl⟩, rfl⟩
  refine ⟨s, hrun, ?_⟩
  rw [(completes_as_body (reaches_free_of_run hrun)).2.1 hquiet, hcompletions]
  rfl

end Signals

end DemoTask
end Net29
