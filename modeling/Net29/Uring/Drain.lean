import Net29.Running
import Net29.Uring.Counters

/-!
# `run` on a `uring_context`

* `uringRuns`: `run_one` of a `uring_context`, with its list of tasks;
* `Drained`: no task is left, and the ring has no entry;
* `run_finishes_all`: what holds when `run` returns.
-/

namespace Net29

open Machine Transition

namespace UringContext

variable {c c' : UringContext} {io : IoBase} {fs : List (Frame Empty)} {r : SubmitResult} {n : ℕ}
  {req : UringRequest} {m : Machine UringContext Empty}

/-! ### The tasks -/

theorem postAll_tasks {posts : List Post} (h : c.postAll posts = .ok c') : c'.tasks = c.tasks :=
  postAll_induct (P := fun c' => c'.tasks = c.tasks)
    (fun {c₁ c₂ p} hP hp => by
      obtain ⟨sqe, os, -, -, rfl⟩ := post_eq_ok hp
      exact hP) rfl h

theorem submit_tasks (h : c.submit io req = .ok (c', fs, r)) : c'.tasks = c.tasks := by
  cases (submit_cases h).1 with
  | socket => rfl
  | timer => rfl

/-- What a completion leads to is not a task. -/
theorem WorkFrames.length_one {cqe : Cqe} (h : WorkFrames cqe fs) :
    fs.length = 1 ∧ fs.filterMap Frame.calledTask? = [] := by
  cases h with
  | notified io f _ hf => cases hf <;> exact ⟨rfl, rfl⟩
  | answered => exact ⟨rfl, rfl⟩

theorem work_tasks {cqe : Cqe} (h : c.work cqe = .ok (c', fs, r)) : c'.tasks = c.tasks := by
  rcases (work_spec h).2 with rfl | ⟨_, _, _, _, _, -, -, -, -, rfl, -⟩ <;> rfl

theorem runOne_tasks {submitted waited : ℤ} {posts : List Post}
    (h : c.runOne submitted posts waited = .ok (c', fs, n)) :
    c'.tasks = c.tasks ∧ fs.filterMap Frame.calledTask? = [] ∨
      ∃ t, c.tasks.pop? = some (t, c'.tasks) ∧ fs.filterMap Frame.calledTask? = [t] := by
  cases runOne_cases h with
  | task ht =>
    obtain ⟨t, tasks, hpop, rfl, rfl⟩ := processTask_eq_some ht
    exact .inr ⟨t, hpop, rfl⟩
  | idle _ _ hpost => exact .inl ⟨(postAll_tasks hpost).trans rfl, rfl⟩
  | completed _ _ hpost _ hwait hwork =>
    refine .inl ⟨?_, (work_spec hwork).1.length_one.2⟩
    obtain ⟨-, cq, -, rfl⟩ := wait_eq_ok hwait
    exact (work_tasks hwork).trans ((postAll_tasks hpost).trans rfl)

/-- `run_one` makes as many calls as it returns. -/
theorem runOne_length {submitted waited : ℤ} {posts : List Post}
    (h : c.runOne submitted posts waited = .ok (c', fs, n)) : fs.length = n := by
  cases runOne_cases h with
  | task ht =>
    obtain ⟨t, tasks, -, -, rfl⟩ := processTask_eq_some ht
    rfl
  | idle => rfl
  | completed _ _ _ _ _ hwork => exact (work_spec hwork).1.length_one.1

/-- The answers of the system in a call of `run_one`. -/
structure RunOneAnswers where
  submitted : ℤ := 0
  posts : List Post := []
  waited : ℤ := 0

/-- The task that a call schedules. -/
def scheduledTask? : UringCall → Option TaskId
  | .schedule t => some t
  | _ => none

/-- Whether a call is `run_one`. -/
def isRunOneCall : UringCall → Bool
  | .runOne _ _ _ => true
  | _ => false

end UringContext

open UringContext

/-- `run_one` of a `uring_context`. -/
def uringRuns : RunsOne uringBase UringContext.RunOneAnswers (Frame Empty) where
  runOne c j := c.runOne j.submitted j.posts j.waited
  runOneCall j := .runOne j.submitted j.posts j.waited
  isRunOne := isRunOneCall
  scheduled := scheduledTask?
  tasks := UringContext.tasks
  Inv := UringInv
  Dispatches t ds := ds = t.calls
  isRunOne_iff k := by
    constructor
    · intro h
      cases k with
      | runOne submitted posts waited => exact ⟨⟨submitted, posts, waited⟩, rfl⟩
      | _ => cases h
    · rintro ⟨j, rfl⟩
      rfl
  call_runOne _ _ := rfl
  scheduled_runOne _ := rfl
  submit_tasks _ h := UringContext.submit_tasks h
  cancel_tasks h := by
    obtain ⟨-, n, -, -, rfl⟩ := cancel_eq_ok h
    rfl
  tail_tasks _ t := t.elim
  schedule_returns {c k t} h := by
    cases k with
    | schedule t' =>
      obtain rfl := Option.some.inj h
      exact ⟨_, rfl, rfl⟩
    | _ => cases h
  call_tasks {c c' k fs} hrun hs h := by
    cases call_eq_ok h with
    | runOne => cases hrun
    | schedule => cases hs
    | post hpost =>
      obtain ⟨sqe, os, -, -, rfl⟩ := post_eq_ok hpost
      rfl
    | makeSocket hmake =>
      rcases makeSocket_eq_ok hmake with rfl | ⟨fd, os, sockets, -, -, rfl⟩ <;> rfl
    | makeSocketNative hmake =>
      obtain ⟨sockets, -, rfl⟩ := makeSocketNative_eq_ok hmake
      rfl
    | release hrel =>
      obtain ⟨fd, -, rfl⟩ := release_eq_ok hrel
      rfl
  runOne_tasks _ h := UringContext.runOne_tasks h
  runOne_dispatches _ h := ⟨_, rfl, UringContext.runOne_length h⟩
  runOne_zero _ h := List.length_eq_zero_iff.1 (UringContext.runOne_length h)

namespace UringContext

variable {c : UringContext} {m m₀ : Machine UringContext Empty} {os : Os} {o : OpId}

/-! ### Draining -/

/-- No task is left; no entry waits in the queue, is in flight, or was finished and not read. -/
structure Drained (c : UringContext) : Prop where
  tasks : c.tasks.head = none
  submitting : c.submitting = 0
  outstanding : c.outstanding = 0
  sq : c.sq = []
  inflight : c.inflight = []
  cq : c.cq = []

theorem sound_of_runs
    {ok : Machine UringContext Empty → Label UringRequest (List ℤ) UringCall → Prop}
    (h : Runs uringBase ok (initial os) m) : uringLedger.Sound True False m :=
  (uringLedger_fresh os).sound (h.mono fun m l _ =>
    Ledger.guard_of_not_drops (L := uringLedger) (fun _ _ hd => hd.elim) m l trivial)

/-- An operation of which the ring has no entry was signalled, if it was started. -/
theorem signalled_of_drained (h : uringLedger.Sound True False m) (hstatus : m.status = none)
    (hpointers : m.ctx.pointers = []) : (m.ops o).log ≠ [] → .started true ∉ (m.ops o).log →
      (m.ops o).signals.length = 1 := by
  refine h.signalled hstatus ?_ ?_
  · show m.ctx.held o = 0
    rw [held, hpointers]
    rfl
  · show m.ctx.asked o = 0
    rw [asked, hpointers]
    rfl

theorem UringInv.drained (hI : UringInv c) (htasks : c.tasks.head = none)
    (hout : c.outstanding = 0) : Drained c := by
  have hpointers : c.pointers = [] :=
    List.length_eq_zero_iff.1 (hI.outstanding.symm.trans hout)
  obtain ⟨hrest, hcq⟩ := List.append_eq_nil_iff.1 hpointers
  obtain ⟨hsq, hinflight⟩ := List.append_eq_nil_iff.1 hrest
  have hnil := List.map_eq_nil_iff.1 hsq
  refine ⟨htasks, ?_, hout, hnil, List.map_eq_nil_iff.1 hinflight, List.map_eq_nil_iff.1 hcq⟩
  rw [hI.submitting, hnil]
  rfl

end UringContext

/-- **`run` on a `uring_context` finishes everything**, whatever the user code that it runs starts,
stops and schedules, and in whatever order the system finishes the entries. When it returns, the
list of tasks and the ring are empty; each task was completed as often as it was in the list when
`run` was called (`ts`) or scheduled since; the receiver of every operation that was ever started
with a token not stopped was sent exactly one signal; and the count is the number of the calls that
`run_one` made, of tasks, operations and cancel callbacks. -/
theorem run_finishes_all (os : Os) (m₀ : Machine UringContext Empty)
    (h : Runs uringBase uringRuns.Unqueued (UringContext.initial os) m₀) :
    ∃ ts, m₀.ctx.tasks.Queue ts ∧ ∀ r : RunsOne.Running UringContext Empty RunOneAnswers,
      Reaches (uringRuns.step m₀.stack.length) uringRuns.RunUnqueued { machine := m₀ } r →
      r.loop.returned = true →
        r.machine.ctx.Drained ∧
        (∀ t, r.completed.count t = ts.count t + r.scheduled.count t) ∧
        (∀ o, (r.machine.ops o).log ≠ [] → .started true ∉ (r.machine.ops o).log →
          (r.machine.ops o).signals.length = 1) ∧
        r.loop.count = r.called.length := by
  obtain ⟨ts, hq, hall⟩ :=
    RunsOne.exists_runningInv (W := uringRuns) (fun _ hm => (sound_of_runs hm).inv) rfl h
  refine ⟨ts, hq, fun r hr hret => ?_⟩
  have hI := hall r hr
  have hreturned := hI.of_returned hret
  have hsound := sound_of_runs hI.reached
  obtain ⟨c, j, -, hc, hzero⟩ := hreturned.ended
  obtain ⟨hhead, hout, hpointers⟩ := runOne_zero hc hzero
  have htasks : r.machine.ctx.tasks.head = none := by
    rcases UringContext.runOne_tasks hzero with ⟨hsame, -⟩ | ⟨t, -, hnil⟩
    · rw [hsame]
      exact hhead
    · cases hnil
  refine ⟨hsound.inv.drained htasks hout, hreturned.tasks htasks, fun o => ?_, ?_⟩
  · exact signalled_of_drained hsound hreturned.status hpointers
  · exact hreturned.counted.eq_length (f := Turn.calls) fun _ _ hds => hds

/-- A task and a `receive`. -/
def UringContext.taskAndReceive : List (Label UringRequest (List ℤ) UringCall) :=
  [.call (.makeSocket (.ok 3 [])), .call (.schedule 7), .start ⟨1, .receive 0 [8]⟩ {} false []]

/-- The task schedules itself once, and the receiver of the `receive` starts a timer. -/
def UringContext.runTaskAndReceive :
    List (RunsOne.RunningLabel UringRequest (List ℤ) UringCall RunOneAnswers) :=
  [.runOne {}, .user (.call (.schedule 7)), .user .ret, .returns, .runOne {}, .user .ret, .returns,
    .runOne { submitted := 1, posts := [⟨0, 5, []⟩] },
    .user (.start ⟨2, .resumeAt 3⟩ { submit := 1 } false []), .user .ret, .returns,
    .runOne { posts := [⟨0, -Errno.ETIME, []⟩] }, .user .ret, .returns, .runOne {}, .returns]

theorem run_finishes_all_taskAndReceive :
    ∃ (m₀ : Machine UringContext Empty) (r : RunsOne.Running UringContext Empty RunOneAnswers),
      Runs uringBase uringRuns.Unqueued (UringContext.initial {}) m₀ ∧
      Reaches (uringRuns.step m₀.stack.length) uringRuns.RunUnqueued { machine := m₀ } r ∧
      r.loop.count = 4 ∧ r.machine.ctx.Drained ∧ (r.machine.ops 2).signals.length = 1 := by
  obtain ⟨m₀, hrun, hm⟩ := runs_of_labels uringBase (UringContext.initial {}) uringRuns.oneTask
    RunsOne.oneTask_unqueued taskAndReceive (fun m => (m.stack.length,
      (run (checked (uringRuns.step 0) uringRuns.runOneTask) { machine := m } runTaskAndReceive).map
        fun r => (r.loop, (r.machine.ops 2).log)))
    (0, some ({ count := 4, calls := 5, returned := true },
      [.signal (.setValue .unit), .called (.complete .unit), .submitted .submit, .started false]))
    (by decide)
  obtain ⟨hdepth, hmap⟩ : _ ∧ _ := by simpa only [Prod.mk.injEq] using hm
  obtain ⟨r, hr, hobs⟩ := Option.map_eq_some_iff.1 hmap
  obtain ⟨hloop, hlog⟩ : _ ∧ _ := by simpa only [Prod.mk.injEq] using hobs
  have hreach : Reaches (uringRuns.step m₀.stack.length) uringRuns.RunUnqueued
      { machine := m₀ } r := by
    rw [hdepth]
    exact reaches_of_run RunsOne.runOneTask_unqueued hr
  obtain ⟨ts, -, hall⟩ := run_finishes_all {} m₀ hrun
  obtain ⟨hdrained, -, hsignals, -⟩ := hall r hreach (by rw [hloop])
  exact ⟨m₀, r, hrun, hreach, by rw [hloop], hdrained,
    hsignals 2 (by rw [hlog]; simp) (by rw [hlog]; simp)⟩

end Net29
