import Net29.Running
import Net29.Poll.Pending
import Net29.Poll.Standing

/-!
# `run` on a `poll_context`

`run` calls `run_one` until that returns 0. The receivers and tasks that `run_one` calls run user
code, which may schedule, submit and cancel.

* `pollRuns`: `run_one` of a `poll_context`, with its list of tasks and what it dispatches;
* `Drained`: no work is left, or `poll` failed;
* `run_drains`: what holds when `run` returns.
-/

namespace Net29

open Machine Transition

namespace PollContext

variable {c c' : PollContext} {io : IoBase} {fs : List (Frame Empty)} {now : Time}
  {answers : List PollAnswer} {n : ℕ} {req : Answers} {r : SubmitResult} {ds : List Dispatch}

/-! ### The tasks -/

theorem submit_tasks (hI : PollInv c) (h : c.submit io req = .ok (c', fs, r)) :
    c'.tasks = c.tasks := by
  cases submit_cases hI.blocking h with
  | timer => rfl
  | due => rfl
  | connected _ _ hacts => exact hacts.worked.tasks
  | failed _ _ hacts => exact hacts.worked.tasks
  | queued _ hacts => exact hacts.worked.tasks

/-- A work function calls no task. -/
theorem runOne_tasks (h : c.runOne now answers = .ok (c', fs, n)) :
    c'.tasks = c.tasks ∧ fs.filterMap Frame.calledTask? = [] ∨
      ∃ t, c.tasks.pop? = some (t, c'.tasks) ∧ fs.filterMap Frame.calledTask? = [t] := by
  cases runOne_cases h with
  | timer hw ht =>
    obtain ⟨io, timeouts, -, -, rfl, rfl⟩ := processTimeout_eq_some ht
    exact .inl ⟨hw.tasks, rfl⟩
  | task ht =>
    obtain ⟨t, tasks, hpop, rfl, rfl⟩ := processTask_eq_some ht
    exact .inr ⟨t, hpop, rfl⟩
  | idle hw => exact .inl ⟨hw.tasks, rfl⟩
  | dispatched _ _ hwait _ hwork =>
    refine .inl ⟨?_, ?_⟩
    · rw [(work_spec hwork).1.worked.tasks, tasks_removeOutstanding, (wait_spec hwait).1.tasks]
    · rcases (work_cases hwork).frames with rfl | ⟨f, hf, rfl⟩
      · rfl
      · cases hf <;> rfl

/-- The arguments of `run_one`: the first clock reading, and the answers of `poll`. -/
structure RunOneAnswers where
  now : Time := 0
  answers : List PollAnswer := []

/-- The task that a call schedules. -/
def scheduledTask? : PollCall → Option TaskId
  | .schedule t => some t
  | _ => none

/-- Whether a call is `run_one`. -/
def isRunOneCall : PollCall → Bool
  | .runOne _ _ => true
  | _ => false

end PollContext

open PollContext

theorem TakenOut.frames_of_nil {c c' : PollContext} {now : Time} {answers : List PollAnswer}
    {fs : List (Frame Empty)} (h : TakenOut c now answers c' fs []) : fs = [] := by
  cases h
  rfl

/-- `run_one` of a `poll_context`. -/
def pollRuns : RunsOne pollBase PollContext.RunOneAnswers Dispatch where
  runOne c j := c.runOne j.now j.answers
  runOneCall j := .runOne j.now j.answers
  isRunOne := isRunOneCall
  scheduled := scheduledTask?
  tasks := PollContext.tasks
  Inv := PollInv
  Dispatches t ds := TakenOut t.before t.args.now t.args.answers t.after t.calls ds
  isRunOne_iff k := by
    constructor
    · intro h
      cases k with
      | runOne now answers => exact ⟨⟨now, answers⟩, rfl⟩
      | _ => cases h
    · rintro ⟨j, rfl⟩
      rfl
  call_runOne _ _ := rfl
  scheduled_runOne _ := rfl
  submit_tasks := PollContext.submit_tasks
  cancel_tasks {c c' io a fs} h := by
    cases (cancel_cases (u := a) h).1 with
    | outstanding => exact tasks_removeOutstanding
    | timer => rfl
  tail_tasks _ t := t.elim
  schedule_returns {c k t} h := by
    cases k with
    | schedule t' =>
      obtain rfl := Option.some.inj h
      exact ⟨_, rfl, rfl⟩
    | _ => cases h
  call_tasks {c c' k fs} hrun hs h := by
    cases call_cases h with
    | runOne => cases hrun
    | schedule => cases hs
    | socket hw => exact hw.tasks
  runOne_tasks _ h := PollContext.runOne_tasks h
  runOne_dispatches := takenOut
  runOne_zero hI h := by
    obtain ⟨ds, htaken, hlen⟩ := takenOut hI h
    rw [List.length_eq_zero_iff.1 hlen] at htaken
    exact htaken.frames_of_nil

namespace PollContext

variable {os : Os} {m m₀ : Machine PollContext Empty}

/-! ### Draining -/

/-- No work is left, or `poll` failed in the last call of `run_one`. -/
def Drained (r : RunsOne.Running PollContext Empty RunOneAnswers) : Prop :=
  (r.machine.ctx.tasks.head = none ∧ r.machine.ctx.timeouts = [] ∧ r.machine.ctx.poll = []) ∨
    ∃ c j, r.last = some (c, j) ∧ PollFailed c j.now j.answers

/-- Why `run_one` returns 0. -/
theorem zero_cases (h : c.runOne now answers = .ok (c', fs, 0)) :
    c'.tasks.head = none ∧
      (c'.timeouts = [] ∧ c'.poll = [] ∨ PollFailed c now answers) := by
  have hhead : c.processTask = none → c.tasks.head = none := by
    intro hc
    rwa [processTask, Option.map_eq_none_iff, TaskList.pop?, Option.map_eq_none_iff] at hc
  have hexits := runOne_exits h
  generalize hn : (0 : ℕ) = n at hexits
  cases hexits with
  | timer => cases hn
  | task => cases hn
  | entry => cases hn
  | empty htask hpoll htimeouts => exact ⟨hhead htask, .inl ⟨htimeouts, hpoll⟩⟩
  | @failed before after e c₁ htask hanswers hr he =>
    refine ⟨?_, .inr ⟨before, e, after, c₁, hanswers, hr, fun hint => he (.inl hint),
      fun hagain => he (.inr hagain)⟩⟩
    rw [(waited_handed c₁ now).tasks, hr.waited.tasks]
    exact hhead htask

theorem Returned.drained {ts : List TaskId} {r : RunsOne.Running PollContext Empty RunOneAnswers}
    (h : pollRuns.Returned ts r) : Drained r ∧ r.machine.ctx.tasks.head = none := by
  obtain ⟨c, j, hlast, -, hzero⟩ := h.ended
  obtain ⟨hhead, ⟨htimeouts, hpoll⟩ | hfailed⟩ := zero_cases hzero
  · exact ⟨.inl ⟨hhead, htimeouts, hpoll⟩, hhead⟩
  · exact ⟨.inr ⟨c, j, hlast, hfailed⟩, hhead⟩

/-- **`run` drains the work.** Let `ts` be the tasks in the list when `run` is called. At any time,
a task was completed or is in the list, in all as often as it was in the list or scheduled. When
`run` returns, no task, timer or entry is left, or `poll` failed with an error other than `EINTR`
and `EAGAIN`; each task was completed as often as it was in the list or scheduled; and the count is
the number of tasks, timers and work functions that the calls of `run_one` dispatched. -/
theorem run_drains (os : Os) (m₀ : Machine PollContext Empty)
    (h : Runs pollBase pollRuns.Unqueued (initial os) m₀) :
    ∃ ts, m₀.ctx.tasks.Queue ts ∧ ∀ r : RunsOne.Running PollContext Empty RunOneAnswers,
      Reaches (pollRuns.step m₀.stack.length) pollRuns.RunUnqueued { machine := m₀ } r →
        pollRuns.Accounted ts r ∧
        (r.loop.returned = true → Drained r ∧
          (∀ t, r.completed.count t = ts.count t + r.scheduled.count t) ∧
          ∃ ds, List.Forall₂ (fun t ds => TakenOut t.before t.args.now t.args.answers t.after
              t.calls ds) r.turns ds ∧
            r.loop.count = ds.flatten.length) := by
  obtain ⟨ts, hq, hall⟩ :=
    RunsOne.exists_runningInv (W := pollRuns) (fun _ hm => pollInv_of_runs hm) rfl h
  refine ⟨ts, hq, fun r hr => ?_⟩
  have hI := hall r hr
  refine ⟨hI.tasks, fun hret => ?_⟩
  have hreturned := hI.of_returned hret
  obtain ⟨hdrained, hhead⟩ := Returned.drained hreturned
  exact ⟨hdrained, hreturned.tasks hhead, hreturned.counted⟩

/-- A task, a timer and a `receive`. -/
def taskTimerReceive : List (Label Answers Unit PollCall) :=
  [.call (.makeSocket (.ok 3 [])), .call (.schedule 7),
    .start ⟨1, .resumeAt 5⟩ { now := 0 } false (), .start ⟨2, .receive 0 [8]⟩ {} false ()]

/-- The task schedules itself once, then `poll` reports the `receive`, and then the timer is due. -/
def runTaskTimerReceive : List (RunsOne.RunningLabel Answers Unit PollCall RunOneAnswers) :=
  [.runOne {}, .user (.call (.schedule 7)), .user .ret, .returns, .runOne {}, .user .ret, .returns,
    .runOne { answers := [.ok [POLLIN] 1 [.ok 5 []]] }, .user .ret, .returns,
    .runOne { now := 6 }, .user .ret, .returns, .runOne { now := 6 }, .returns]

theorem run_drains_taskTimerReceive :
    ∃ (m₀ : Machine PollContext Empty) (r : RunsOne.Running PollContext Empty RunOneAnswers),
      Runs pollBase pollRuns.Unqueued (initial {}) m₀ ∧
      Reaches (pollRuns.step m₀.stack.length) pollRuns.RunUnqueued { machine := m₀ } r ∧
      r.loop.count = 4 ∧ Drained r ∧
      ∃ ds, List.Forall₂
          (fun t ds => TakenOut t.before t.args.now t.args.answers t.after t.calls ds) r.turns ds ∧
        ds.flatten.length = 4 := by
  obtain ⟨m₀, hrun, hm⟩ := runs_of_labels pollBase (initial {}) pollRuns.oneTask
    RunsOne.oneTask_unqueued taskTimerReceive (fun m => (m.stack.length,
      (run (checked (pollRuns.step 0) pollRuns.runOneTask) { machine := m } runTaskTimerReceive).map
        fun r => r.loop))
    (0, some { count := 4, calls := 5, returned := true }) rfl
  obtain ⟨hdepth, hmap⟩ : _ ∧ _ := by simpa only [Prod.mk.injEq] using hm
  obtain ⟨r, hr, hloop⟩ := Option.map_eq_some_iff.1 hmap
  have hreach : Reaches (pollRuns.step m₀.stack.length) pollRuns.RunUnqueued
      { machine := m₀ } r := by
    rw [hdepth]
    exact reaches_of_run RunsOne.runOneTask_unqueued hr
  obtain ⟨ts, -, hall⟩ := run_drains {} m₀ hrun
  obtain ⟨hdrained, -, ds, hds, hcount⟩ := (hall r hreach).2 (by rw [hloop])
  have hfour : r.loop.count = 4 := by rw [hloop]
  exact ⟨m₀, r, hrun, hreach, hfour, hdrained, ds, hds, hcount.symm.trans hfour⟩

end PollContext

end Net29
