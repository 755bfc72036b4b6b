import Net29.Running
import Net29.Iocp.Idle

/-!
# `run` on an `iocp_context`

* `iocpRuns`: `run_one` of an `iocp_context`, with its list of tasks;
* `run_completes_tasks`: what holds when `run` returns.
-/

namespace Net29

open Machine Transition

namespace IocpContext

variable {c c' : IocpContext} {io : IoBase} {fs : List (Frame StorageId)} {r : SubmitResult}
  {n : ℕ} {req : Answers} {now : Time} {answer : Option PortAnswer} {s : StorageId} {k : IocpCall}
  {m : Machine IocpContext StorageId} {o : OpId}

/-! ### The tasks -/

theorem Prepare.tasks (h : Prepare c c') : c'.tasks = c.tasks := by
  cases h with
  | touch h => cases h <;> rfl
  | initialise => rfl

theorem Prepared.tasks (h : Prepared c c') : c'.tasks = c.tasks :=
  h.induct (P := fun c' => c'.tasks = c.tasks) rfl fun hc h => h.tasks.trans hc

theorem free_tasks (c : IocpContext) (s : StorageId) : (c.free s).tasks = c.tasks := by
  unfold free
  split
  · rfl
  · dsimp only
    split <;> rfl

theorem popDeferred_tasks (c : IocpContext) (s : StorageId) :
    (c.popDeferred s).tasks = c.tasks := by
  unfold popDeferred
  dsimp only
  split
  · rfl
  · exact free_tasks _ _

theorem submit_tasks (h : c.submit io req = .ok (c', fs, r)) : c'.tasks = c.tasks := by
  cases submit_cases h with
  | ready => rfl
  | timer => rfl
  | due => rfl
  | failed _ hprep => exact hprep.tasks
  | accepted _ hprep => exact hprep.tasks

theorem release_tasks {id : SocketId} {a e : Option Errno} (h : c.release id a = .ok (c', e)) :
    c'.tasks = c.tasks := by
  obtain ⟨rec, c₁, -, rfl, ⟨-, rfl⟩ | ⟨-, rfl⟩⟩ := release_cases h
  · rfl
  · exact free_tasks _ _

theorem runOne_tasks (hI : IocpInv c) (h : c.runOne now answer = .ok (c', fs, n)) :
    c'.tasks = c.tasks ∧ fs.filterMap Frame.calledTask? = [] ∨
      ∃ t, c.tasks.pop? = some (t, c'.tasks) ∧ fs.filterMap Frame.calledTask? = [t] := by
  cases runOne_cases h with
  | timer _ ht =>
    obtain ⟨io, timeouts, -, -, rfl, rfl⟩ := processTimeout_eq_some ht
    exact .inl ⟨rfl, rfl⟩
  | task ht =>
    obtain ⟨t, tasks, hpop, rfl, rfl⟩ := processTask_eq_some ht
    exact .inr ⟨t, hpop, rfl⟩
  | idle => exact .inl ⟨rfl, rfl⟩
  | early => exact .inl ⟨rfl, rfl⟩
  | failed => exact .inl ⟨rfl, rfl⟩
  | stale => exact .inl ⟨rfl, rfl⟩
  | completed _ hcomp =>
    obtain ⟨req, data, io, f, -, -, -, htouched, hf, rfl⟩ := complete_cases hcomp hI.heap
    refine .inl ⟨htouched.prepared.tasks.trans rfl, ?_⟩
    cases hf <;> rfl

/-- `run_one` makes as many calls as it returns, and none when it returns 0. -/
theorem runOne_calls (hI : IocpInv c) (h : c.runOne now answer = .ok (c', fs, n)) :
    (fs.filter Frame.isCall).length = n ∧ (n = 0 → fs = []) := by
  cases runOne_cases h with
  | timer _ ht =>
    obtain ⟨io, timeouts, -, -, -, rfl⟩ := processTimeout_eq_some ht
    exact ⟨rfl, fun h => by cases h⟩
  | task ht =>
    obtain ⟨t, tasks, -, -, rfl⟩ := processTask_eq_some ht
    exact ⟨rfl, fun h => by cases h⟩
  | idle => exact ⟨rfl, fun _ => rfl⟩
  | early => exact ⟨rfl, fun _ => rfl⟩
  | failed => exact ⟨rfl, fun _ => rfl⟩
  | stale => exact ⟨rfl, fun _ => rfl⟩
  | completed _ hcomp =>
    obtain ⟨req, data, io, f, -, -, -, -, hf, rfl⟩ := complete_cases hcomp hI.heap
    refine ⟨?_, fun h => by cases h⟩
    cases hf <;> rfl

/-- `run_one` does not return 0 while there is a task. -/
theorem tasks_of_runOne_zero (hI : IocpInv c) (h : c.runOne now answer = .ok (c', fs, 0)) :
    c'.tasks.head = none := by
  have hnone : c.processTask = none := by
    unfold runOne at h
    cases hdue : c.processTimeout now with
    | some x =>
      rw [hdue] at h
      cases h
    | none =>
      cases htask : c.processTask with
      | some x =>
        rw [hdue, htask] at h
        cases h
      | none => rfl
  rcases runOne_tasks hI h with ⟨hsame, -⟩ | ⟨t, hpop, -⟩
  · rw [hsame]
    exact processTask_eq_none.1 hnone
  · rw [processTask, Option.map_eq_none_iff, hpop] at hnone
    cases hnone

/-- The arguments of `run_one`: the first clock reading, and the answer of the port. -/
structure RunOneAnswers where
  now : Time := 0
  answer : Option PortAnswer := none

/-- The task that a call schedules. -/
def scheduledTask? : IocpCall → Option TaskId
  | .schedule t => some t
  | _ => none

/-- Whether a call is `run_one`. -/
def isRunOneCall : IocpCall → Bool
  | .runOne _ _ => true
  | _ => false

end IocpContext

open IocpContext

/-- `run_one` of an `iocp_context`. -/
def iocpRuns : RunsOne iocpBase IocpContext.RunOneAnswers (Frame StorageId) where
  runOne c j := c.runOne j.now j.answer
  runOneCall j := .runOne j.now j.answer
  isRunOne := isRunOneCall
  scheduled := scheduledTask?
  tasks := IocpContext.tasks
  Inv := IocpInv
  Dispatches t ds := ds = t.calls.filter Frame.isCall
  isRunOne_iff k := by
    constructor
    · intro h
      cases k with
      | runOne now answer => exact ⟨⟨now, answer⟩, rfl⟩
      | _ => cases h
    · rintro ⟨j, rfl⟩
      rfl
  call_runOne _ _ := rfl
  scheduled_runOne _ := rfl
  submit_tasks _ h := IocpContext.submit_tasks h
  cancel_tasks {c c' io a fs} h := by
    rcases IocpContext.cancel_cases (u := a) h with ⟨timeouts, -, rfl, -⟩ | ⟨-, rfl, -⟩ <;> rfl
  tail_tasks := popDeferred_tasks
  schedule_returns {c k t} h := by
    cases k with
    | schedule t' =>
      obtain rfl := Option.some.inj h
      exact ⟨_, rfl, rfl⟩
    | _ => cases h
  call_tasks {c c' k fs} hrun hs h := by
    cases call_eq_ok h with
    | runOne => cases hrun
    | schedule => cases hs
    | makeSocket hmake => exact (makeSocket_cases hmake).prepared.tasks
    | makeSocketNative hmake =>
      obtain ⟨sockets, -, rfl⟩ := makeSocketNative_eq_ok hmake
      rfl
    | release hrel => exact release_tasks hrel
  runOne_tasks := IocpContext.runOne_tasks
  runOne_dispatches hI h := ⟨_, rfl, (runOne_calls hI h).1⟩
  runOne_zero hI h := (runOne_calls hI h).2 rfl

namespace IocpContext

/-! ### The operations -/

/-- An operation that is not pending was signalled, if it was started. -/
theorem signalled_of_idle (h : iocpLedger.Sound True False m) (hstatus : m.status = none)
    (hidle : m.ctx.Idle) : (m.ops o).log ≠ [] → .started true ∉ (m.ops o).log →
      (m.ops o).signals.length = 1 := by
  refine h.signalled hstatus ?_ rfl
  show m.ctx.held o = 0
  rw [held, hidle.requests, hidle.timeouts]
  rfl

/-- Why `run_one` returns 0. -/
theorem zero_cases (hI : IocpInv c) (h : c.runOne now answer = .ok (c', fs, 0)) :
    c'.Idle ∨ answer = some .failed ∨ c.WokenEarly now answer := by
  generalize hn : (0 : ℕ) = n at h
  cases runOne_cases h with
  | timer => cases hn
  | task => cases hn
  | completed => cases hn
  | idle htasks ho ht =>
    refine .inl ⟨processTask_eq_none.1 htasks, ht, ?_⟩
    exact List.length_eq_zero_iff.1 (hI.count.symm.trans ho)
  | failed => exact .inr (.inl rfl)
  | early hwaits hlater => exact .inr (.inr ⟨hwaits, .inr ⟨_, rfl, hlater⟩⟩)
  | stale hwaits => exact .inr (.inr ⟨hwaits, .inl rfl⟩)

end IocpContext

/-- **`run` on an `iocp_context`**, whatever the user code that it runs starts, stops, schedules and
releases. When it returns, each task was completed as often as it was in the list when `run` was
called (`ts`) or scheduled since, also where the packets of `schedule` arrive after their tasks have
run; the count is the number of the calls that `run_one` made; and unless the last `run_one` was
woken early or the port failed, nothing is pending and the receiver of every operation that was ever
started with a token not stopped was sent exactly one signal. -/
theorem run_completes_tasks (os : Os) (m₀ : Machine IocpContext StorageId)
    (h : Runs iocpBase iocpRuns.Unqueued (IocpContext.initial os) m₀) :
    ∃ ts, m₀.ctx.tasks.Queue ts ∧
      ∀ r : RunsOne.Running IocpContext StorageId IocpContext.RunOneAnswers,
      Reaches (iocpRuns.step m₀.stack.length) iocpRuns.RunUnqueued { machine := m₀ } r →
      r.loop.returned = true →
        (∀ t, r.completed.count t = ts.count t + r.scheduled.count t) ∧
        r.loop.count = (r.called.filter Frame.isCall).length ∧
        ((r.machine.ctx.Idle ∧ ∀ o, (r.machine.ops o).log ≠ [] →
            .started true ∉ (r.machine.ops o).log → (r.machine.ops o).signals.length = 1) ∨
          ∃ c j, r.last = some (c, j) ∧
            (j.answer = some .failed ∨ c.WokenEarly j.now j.answer)) := by
  obtain ⟨ts, hq, hall⟩ :=
    RunsOne.exists_runningInv (W := iocpRuns) (fun _ hm => (soundExact_of_runs hm).inv) rfl h
  refine ⟨ts, hq, fun r hr hret => ?_⟩
  have hI := hall r hr
  have hreturned := hI.of_returned hret
  obtain ⟨c, j, hlast, hc, hzero⟩ := hreturned.ended
  have hcount : r.loop.count = (r.called.filter Frame.isCall).length := by
    rw [hreturned.counted.eq_length (f := fun t => t.calls.filter Frame.isCall) fun _ _ hds => hds,
      RunsOne.Running.called, List.filter_flatMap]
  refine ⟨hreturned.tasks (tasks_of_runOne_zero hc hzero), hcount, ?_⟩
  rcases zero_cases hc hzero with hidle | hearly
  · have hsound := soundExact_of_runs hI.reached
    exact .inl ⟨hidle, fun o => signalled_of_idle hsound hreturned.status hidle⟩
  · exact .inr ⟨c, j, hlast, hearly⟩

/-- A task and a `receive`. -/
def IocpContext.taskAndReceive : List (Label Answers Unit IocpCall) :=
  [.call (.makeSocket (.ok 3 []) none), .call (.schedule 7),
    .start ⟨1, .receive 0 [8]⟩ { sys := [.ok 0 []] } false ()]

/-- The task schedules itself once, and then the packet of the `receive` arrives. -/
def IocpContext.runTaskAndReceive :
    List (RunsOne.RunningLabel Answers Unit IocpCall RunOneAnswers) :=
  [.runOne {}, .user (.call (.schedule 7)), .user .ret, .returns, .runOne {}, .user .ret, .returns,
    .runOne { answer := some (.completion 0 (.ok 5 []) none) }, .user .ret, .returns, .runOne {},
    .returns]

theorem run_completes_tasks_taskAndReceive :
    ∃ (m₀ : Machine IocpContext StorageId)
      (r : RunsOne.Running IocpContext StorageId IocpContext.RunOneAnswers),
      Runs iocpBase iocpRuns.Unqueued (IocpContext.initial {}) m₀ ∧
      Reaches (iocpRuns.step m₀.stack.length) iocpRuns.RunUnqueued { machine := m₀ } r ∧
      r.loop.count = 3 ∧ (r.called.filter Frame.isCall).length = 3 := by
  obtain ⟨m₀, hrun, hm⟩ := runs_of_labels iocpBase (IocpContext.initial {}) iocpRuns.oneTask
    RunsOne.oneTask_unqueued taskAndReceive (fun m => (m.stack.length,
      (run (checked (iocpRuns.step 0) iocpRuns.runOneTask) { machine := m } runTaskAndReceive).map
        fun r => r.loop))
    (0, some { count := 3, calls := 4, returned := true }) (by decide)
  obtain ⟨hdepth, hmap⟩ : _ ∧ _ := by simpa only [Prod.mk.injEq] using hm
  obtain ⟨r, hr, hloop⟩ := Option.map_eq_some_iff.1 hmap
  have hreach : Reaches (iocpRuns.step m₀.stack.length) iocpRuns.RunUnqueued
      { machine := m₀ } r := by
    rw [hdepth]
    exact reaches_of_run RunsOne.runOneTask_unqueued hr
  obtain ⟨ts, -, hall⟩ := run_completes_tasks {} m₀ hrun
  obtain ⟨-, hcount, -⟩ := hall r hreach (by rw [hloop])
  have hthree : r.loop.count = 3 := by rw [hloop]
  exact ⟨m₀, r, hrun, hreach, hthree, hcount.symm.trans hthree⟩

end Net29
