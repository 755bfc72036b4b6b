import Net29.Ledger
import Net29.IoContext
import Net29.Lib.Chain

/-!
# `run` on any context

`io_context::run` calls `run_one` until that returns 0. What `run_one` calls runs user code, which
may schedule, submit and cancel.

* `TaskList.Queue`: the tasks in the list, which is threaded through the tasks;
* `RunsOne`: `run_one` of a context, what it dispatches, and how the calls of the context treat its
  list of tasks;
* `RunsOne.Running`, `RunsOne.step`: the loop of `run` over the machine, with a record of the calls
  of `run_one` (`Turn`);
* `RunsOne.RunningInv`: the account of the tasks and of the count;
* `RunsOne.exists_runningInv`: the invariant holds at any time while `run` runs;
* `RunsOne.Returned`: what follows when `run` has returned.
-/

namespace Net29

open Machine Transition Links

/-! ### The list of tasks -/

namespace TaskList

variable {l l' : TaskList} {t : TaskId} {ts : List TaskId}

/-- The tasks in the list are exactly `ts`, from the head on, and each is in it once. -/
structure Queue (l : TaskList) (ts : List TaskId) : Prop where
  chain : Chain (Option.map l.next) l.head (ts.map some) none
  nodup : ts.Nodup

theorem Queue.empty : Queue {} [] := ⟨.nil none, List.nodup_nil⟩

/-- A task that is not in the list becomes its head. -/
theorem Queue.push (h : Queue l ts) (ht : t ∉ ts) : Queue (l.push t) (t :: ts) := by
  have hnext : Option.map (l.push t).next (some t) = some l.head := by simp [TaskList.push]
  refine ⟨.cons hnext ?_, List.nodup_cons.2 ⟨ht, h.nodup⟩⟩
  refine h.chain.congr fun x hx => ?_
  obtain ⟨t', ht', rfl⟩ := List.mem_map.1 hx
  have hne : t' ≠ t := fun he => ht (he ▸ ht')
  simp [TaskList.push, Function.update_of_ne hne]

/-- The head is taken off: the rest of the list is as it was. -/
theorem Queue.pop (h : Queue l ts) (hp : l.pop? = some (t, l')) :
    ∃ ts', ts = t :: ts' ∧ Queue l' ts' := by
  obtain ⟨a, hhead, heq⟩ := Option.map_eq_some_iff.1 hp
  cases heq
  have hchain := h.chain
  rw [hhead] at hchain
  obtain ⟨b, rest, hts, hb, hrest⟩ := hchain.uncons (by simp)
  obtain ⟨x, ts', rfl, hx, rfl⟩ := List.map_eq_cons_iff.1 hts
  cases hx
  cases hb
  exact ⟨ts', rfl, hrest, (List.nodup_cons.1 h.nodup).2⟩

theorem Queue.eq_nil (h : Queue l ts) (hp : l.head = none) : ts = [] := by
  have hchain := h.chain
  rw [hp] at hchain
  generalize hl : ts.map some = k at hchain
  cases hchain with
  | nil => exact List.map_eq_nil_iff.1 hl
  | cons hn => cases hn

end TaskList

/-! ### `run_one` -/

variable {C R A K T J D : Type}

/-- An operation that is owed nothing was signalled, if it was started with a token not stopped. -/
theorem Ledger.Sound.signalled {B : ContextBase C R A K T} {L : Ledger B} {clean : Prop}
    {m : Machine C T} {o : OpId} (h : L.Sound True clean m) (hstatus : m.status = none)
    (hheld : L.held m.ctx o = 0) (hasked : L.asked m.ctx o = 0) (hlog : (m.ops o).log ≠ [])
    (hstopped : .started true ∉ (m.ops o).log) : (m.ops o).signals.length = 1 := by
  cases h.phase hstatus o with
  | idle hs => exact absurd (by rw [hs]) hlog
  | refused hr => exact absurd hr.started hstopped
  | done hd => exact hd.signals
  | live hl =>
    -- the counter of an operation that waits covers what it is owed
    obtain ⟨hbalance, -⟩ := hl.balance trivial
    have hpos := hl.pos
    rw [hheld, hasked] at hbalance
    exact absurd hpos (by omega)

/-- The task a call is about. -/
def Frame.calledTask? : Frame T → Option TaskId
  | .task t => some t
  | _ => none

/-- Whether a call leaves the context. -/
def Frame.isCall : Frame T → Bool
  | .tail _ => false
  | _ => true

/-- A call of `run_one` that returned: the context it was called on, its arguments, the context when
it made its calls, and these. -/
structure Turn (C T J : Type) where
  before : C
  args : J
  after : C
  calls : List (Frame T)

/-- A context with `run_one`, whose arguments `J` stand for the answers of the system, and which
dispatches things of type `D`. A task is added to the list by `schedule` and taken off by `run_one`.
-/
structure RunsOne (B : ContextBase C R A K T) (J D : Type) where
  runOne : C → J → Exec (C × List (Frame T) × ℕ)
  /-- `run_one` among the calls of the context -/
  runOneCall : J → K
  isRunOne : K → Bool
  /-- the task that a call schedules -/
  scheduled : K → Option TaskId
  tasks : C → TaskList
  /-- what `run_one` relies on -/
  Inv : C → Prop
  /-- what a call of `run_one` dispatches -/
  Dispatches : Turn C T J → List D → Prop
  isRunOne_iff : ∀ k, isRunOne k = true ↔ ∃ j, k = runOneCall j
  call_runOne : ∀ c j, B.call c (runOneCall j) = (runOne c j).map fun r => (r.1, r.2.1)
  scheduled_runOne : ∀ j, scheduled (runOneCall j) = none
  submit_tasks : ∀ {c c' io req fs r}, Inv c → B.submit c io req = .ok (c', fs, r) →
    tasks c' = tasks c
  cancel_tasks : ∀ {c c' io a fs}, B.cancel c io a = .ok (c', fs) → tasks c' = tasks c
  tail_tasks : ∀ c t, tasks (B.tail c t) = tasks c
  schedule_returns : ∀ {c k t}, scheduled k = some t →
    ∃ c', B.call c k = .ok (c', []) ∧ tasks c' = (tasks c).push t
  call_tasks : ∀ {c c' k fs}, isRunOne k = false → scheduled k = none →
    B.call c k = .ok (c', fs) → tasks c' = tasks c
  runOne_tasks : ∀ {c c' j fs n}, Inv c → runOne c j = .ok (c', fs, n) →
    tasks c' = tasks c ∧ fs.filterMap Frame.calledTask? = [] ∨
      ∃ t, (tasks c).pop? = some (t, tasks c') ∧ fs.filterMap Frame.calledTask? = [t]
  runOne_dispatches : ∀ {c c' j fs n}, Inv c → runOne c j = .ok (c', fs, n) →
    ∃ ds, Dispatches ⟨c, j, c', fs⟩ ds ∧ ds.length = n
  runOne_zero : ∀ {c c' j fs}, Inv c → runOne c j = .ok (c', fs, 0) → fs = []

namespace RunsOne

variable {B : ContextBase C R A K T} (W : RunsOne B J D) {m m' m₀ : Machine C T} {l : Label R A K}
  {c c' c₀ : C} {j : J} {fs : List (Frame T)} {n : ℕ} {t : TaskId} {ts : List TaskId}

/-! ### The tasks -/

/-- Whether a step is a call of `run_one`. -/
def runsOne : Label R A K → Bool
  | .call k => W.isRunOne k
  | _ => false

/-- The tasks that a step schedules. -/
def scheduledBy : Label R A K → List TaskId
  | .call k => (W.scheduled k).toList
  | _ => []

/-- A task is scheduled only when it is not in the list. -/
def Unqueued (m : Machine C T) (l : Label R A K) : Prop :=
  ∀ t ∈ W.scheduledBy l, ∀ ts, (W.tasks m.ctx).Queue ts → t ∉ ts

theorem tasks_runFrames (fs : List (Frame T)) :
    W.tasks (m.runFrames B fs).ctx = W.tasks m.ctx :=
  runFrames_ctx_induct (P := fun c => W.tasks c = W.tasks m.ctx)
    (fun t hc => (W.tail_tasks _ t).trans hc) rfl

/-- What a step does to the tasks in the list, unless it is a call of `run_one`. -/
theorem queue_of_step (hI : W.Inv m.ctx) (hz : ∀ o, (m.ops o).upstream = {})
    (hq : (W.tasks m.ctx).Queue ts) (hguard : W.Unqueued m l) (h : m.step B l = some m')
    (hrun : W.runsOne l = false) :
    (W.tasks m'.ctx).Queue (W.scheduledBy l ++ ts) := by
  have hsame : W.scheduledBy l = [] → W.tasks m'.ctx = W.tasks m.ctx →
      (W.tasks m'.ctx).Queue (W.scheduledBy l ++ ts) := by
    intro hnil heq
    rw [hnil, heq]
    exact hq
  have hentry : W.scheduledBy l = [] → (∀ {c : C} {fs : List (Frame T)} {k : K}, l = .call k →
      B.call m.ctx k = .ok (c, fs) → W.tasks c = W.tasks m.ctx) →
      (W.tasks m'.ctx).Queue (W.scheduledBy l ++ ts) := by
    intro hnil hcall
    refine hsame hnil ?_
    rcases entry_of_step hz h with ⟨hctx, -⟩ | ⟨m₁, fs, hentry, rfl⟩
    · rw [hctx]
    · rw [W.tasks_runFrames]
      generalize m₁.ctx = c, m₁.stack = stack at hentry
      cases hentry with
      | submit _ hsub => exact W.submit_tasks hI hsub
      | cancel _ hcancel => exact W.cancel_tasks hcancel
      | unasked => rfl
      | call hk => exact hcall rfl hk
      | ret => rfl
  cases l with
  | call k =>
    cases hk : W.scheduled k with
    | none =>
      exact hentry (by rw [scheduledBy, hk]; rfl) fun hl hcall => by
        cases hl
        exact W.call_tasks hrun hk hcall
    | some t =>
      obtain ⟨c, hcall, htasks⟩ := W.schedule_returns (c := m.ctx) hk
      have hperform := step_call h
      rw [hcall] at hperform
      cases hperform
      have hmem : t ∈ W.scheduledBy (.call k : Label R A K) := by simp [scheduledBy, hk]
      show (W.tasks c).Queue (W.scheduledBy (.call k : Label R A K) ++ ts)
      rw [htasks, scheduledBy, hk]
      exact hq.push (hguard t hmem ts hq)
  | _ => exact hentry rfl fun hl => by cases hl

theorem queue_of_runOne (hI : W.Inv c) (hq : (W.tasks c).Queue ts)
    (h : W.runOne c j = .ok (c', fs, n)) :
    ∃ ts', (W.tasks c').Queue ts' ∧ ts = fs.filterMap Frame.calledTask? ++ ts' := by
  rcases W.runOne_tasks hI h with ⟨htasks, hnil⟩ | ⟨t, hpop, hone⟩
  · exact ⟨ts, htasks ▸ hq, by rw [hnil]; rfl⟩
  · obtain ⟨ts', rfl, hq'⟩ := hq.pop hpop
    exact ⟨ts', hq', by rw [hone]; rfl⟩

/-- How a call of `run_one` that returns changes the machine. -/
theorem step_runOne (hrun : W.runOne m.ctx j = .ok (c', fs, n))
    (h : m.step B (.call (W.runOneCall j)) = some m') :
    m' = ({ m with ctx := c' } : Machine C T).runFrames B fs := by
  have hperform := step_call h
  rw [W.call_runOne, hrun] at hperform
  exact (Option.some.inj hperform).symm

/-- A call of `run_one` that does not return ends the process. -/
theorem step_runOne_error {e : Stuck} (hrun : W.runOne m.ctx j = .error e)
    (h : m.step B (.call (W.runOneCall j)) = some m') :
    m'.ctx = m.ctx ∧ m'.status.isSome := by
  have hperform := step_call h
  rw [W.call_runOne, hrun] at hperform
  rcases perform_eq_some hperform with ⟨c, fs, hx, -⟩ | ⟨e', -, rfl⟩
  · cases hx
  · exact ⟨rfl, rfl⟩

/-- **The list of tasks is intact** in every run that schedules no task twice. -/
theorem queue_of_runs (hInv : ∀ m, Runs B W.Unqueued c₀ m → W.Inv m.ctx)
    (hempty : W.tasks c₀ = {}) (h : Runs B W.Unqueued c₀ m) : ∃ ts, (W.tasks m.ctx).Queue ts := by
  refine Reaches.invariant₂ (I := fun m : Machine C T => ∃ ts, (W.tasks m.ctx).Queue ts)
    (J := fun m => W.Inv m.ctx ∧ ∀ o, (m.ops o).upstream = {}) h
    (fun m hm => ⟨hInv m hm, Runs.never_started hm⟩) ⟨[], hempty ▸ .empty⟩
    fun m l m' hJ hI hguard hstep => ?_
  obtain ⟨ts, hq⟩ := hI
  cases hrun : W.runsOne l with
  | false => exact ⟨_, W.queue_of_step hJ.1 hJ.2 hq hguard hstep hrun⟩
  | true =>
    cases l with
    | call k =>
      obtain ⟨j, rfl⟩ := (W.isRunOne_iff k).1 hrun
      cases hone : W.runOne m.ctx j with
      | ok x =>
        obtain ⟨c, fs, n⟩ := x
        obtain ⟨ts', hq', -⟩ := W.queue_of_runOne hJ.1 hq hone
        rw [W.step_runOne hone hstep]
        exact ⟨ts', by rw [W.tasks_runFrames]; exact hq'⟩
      | error e =>
        rw [(W.step_runOne_error hone hstep).1]
        exact ⟨ts, hq⟩
    | _ => cases hrun

/-! ### `run` -/

/-- `run`: its loop, what the call of `run_one` that is running user code will return, the calls of
`run_one` since `run` was called, and the tasks scheduled since, newest first. -/
structure Running (C T J : Type) where
  machine : Machine C T
  loop : RunLoop := {}
  running : Option ℕ := none
  turns : List (Turn C T J) := []
  scheduled : List TaskId := []

namespace Running

/-- The last call of `run_one`. -/
def last (r : Running C T J) : Option (C × J) := r.turns.head?.map fun t => (t.before, t.args)

/-- What `run_one` called. -/
def called (r : Running C T J) : List (Frame T) := r.turns.flatMap Turn.calls

/-- The tasks that `run_one` completed. -/
def completed (r : Running C T J) : List TaskId := r.called.filterMap Frame.calledTask?

end Running

/-- What can happen next. -/
inductive RunningLabel (R A K J : Type)
  /-- `run` calls `run_one` -/
  | runOne (j : J)
  /-- a receiver or task called by `run_one` does something, or the system -/
  | user (l : Label R A K)
  /-- `run_one` returns -/
  | returns

/-- `run_one` is called. -/
def callRunOne (r : Running C T J) (j : J) : Option (Running C T J) :=
  (r.machine.step B (.call (W.runOneCall j))).map fun m =>
    match W.runOne r.machine.ctx j with
    | .ok (c, fs, n) =>
        { r with
          machine := m, running := some n, turns := ⟨r.machine.ctx, j, c, fs⟩ :: r.turns }
    -- the process ended
    | .error _ => { r with machine := m }

/-- One step of `run`, which was called at a stack of this depth. -/
def step (depth : ℕ) (r : Running C T J) : RunningLabel R A K J → Option (Running C T J)
  | .runOne j => if r.loop.returned ∨ r.running.isSome then none else W.callRunOne r j
  | .user l =>
      if r.running.isSome ∧ depth < r.machine.stack.length ∧ W.runsOne l = false then
        (r.machine.step B l).map fun m =>
          { r with machine := m, scheduled := W.scheduledBy l ++ r.scheduled }
      else none
  | .returns =>
      match r.running with
      | some n =>
          if r.machine.status = none ∧ r.machine.stack.length = depth then
            some { r with loop := r.loop.next n, running := none }
          else none
      | none => none

/-- User code schedules a task only when it is not in the list. -/
def RunUnqueued (r : Running C T J) : RunningLabel R A K J → Prop
  | .user l => W.Unqueued r.machine l
  | _ => True

/-! ### The invariant of `run` -/

/-- The last call of `run_one` returned 0. -/
def Ended (r : Running C T J) : Prop :=
  ∃ c j, r.last = some (c, j) ∧ W.Inv c ∧ W.runOne c j = .ok (r.machine.ctx, [], 0)

/-- The account of the tasks: those in the list and those that were scheduled since are completed or
in the list, each as often as it was there. -/
def Accounted (ts : List TaskId) (r : Running C T J) : Prop :=
  ∃ q, (W.tasks r.machine.ctx).Queue q ∧
    ∀ t, r.completed.count t + q.count t = ts.count t + r.scheduled.count t

/-- The count is how much was dispatched. -/
def Counted (count : ℕ) (turns : List (Turn C T J)) : Prop :=
  ∃ ds, List.Forall₂ W.Dispatches turns ds ∧ count = ds.flatten.length

/-- The invariant of `run`. -/
structure RunningInv (c₀ : C) (depth : ℕ) (ts : List TaskId) (r : Running C T J) : Prop where
  reached : Runs B W.Unqueued c₀ r.machine
  tasks : W.Accounted ts r
  counted : W.Counted (r.loop.count + r.running.getD 0) r.turns
  /-- between two calls of `run_one` no user code runs -/
  between : r.machine.status = none → r.running = none → r.machine.stack.length = depth
  zero : r.running = some 0 → r.machine.stack.length = depth ∧ W.Ended r
  returned : r.loop.returned = true → r.machine.status = none ∧ r.running = none ∧ W.Ended r

variable {W} {depth : ℕ} {r r' : Running C T J} {lab : RunningLabel R A K J}

theorem Counted.eq_length {f : Turn C T J → List D} {turns : List (Turn C T J)}
    (h : W.Counted n turns) (hf : ∀ t ds, W.Dispatches t ds → ds = f t) :
    n = (turns.flatMap f).length := by
  obtain ⟨ds, hds, rfl⟩ := h
  congr 1
  induction hds with
  | nil => rfl
  | cons hd _ ih => rw [List.flatten_cons, List.flatMap_cons, hf _ _ hd, ih]

theorem runningInv_initial (h : Runs B W.Unqueued c₀ m₀) (hq : (W.tasks m₀.ctx).Queue ts) :
    W.RunningInv c₀ m₀.stack.length ts { machine := m₀ } where
  reached := h
  tasks := ⟨ts, hq, fun t => by simp [Running.completed, Running.called]⟩
  counted := ⟨[], .nil, rfl⟩
  between _ _ := rfl
  zero h := by cases h
  returned h := by cases h

theorem RunningInv.runOne (hI : W.Inv r.machine.ctx) (h : W.RunningInv c₀ depth ts r)
    (hnot : ¬ (r.loop.returned ∨ r.running.isSome)) (hs : W.callRunOne r j = some r') :
    W.RunningInv c₀ depth ts r' := by
  obtain ⟨hloop, hrunning⟩ : r.loop.returned = false ∧ r.running = none := by
    simpa [not_or] using hnot
  obtain ⟨m, hstep, hr'⟩ := Option.map_eq_some_iff.1 hs
  have hdepth := h.between (status_of_step hstep) hrunning
  have hunqueued : W.Unqueued r.machine (.call (W.runOneCall j)) := by
    intro t ht
    simp [scheduledBy, W.scheduled_runOne] at ht
  have hreached : Runs B W.Unqueued c₀ m := h.reached.tail hunqueued hstep
  obtain ⟨q, hq, haccount⟩ := h.tasks
  have hcounted := h.counted
  rw [hrunning] at hcounted
  cases hrun : W.runOne r.machine.ctx j with
  | ok x =>
    obtain ⟨c, fs, n⟩ := x
    rw [hrun] at hr'
    subst hr'
    have hm := W.step_runOne hrun hstep
    obtain ⟨q', hq', rfl⟩ := W.queue_of_runOne hI hq hrun
    refine ⟨hreached, ⟨q', ?_, fun t => ?_⟩, ?_, fun _ hnone => ?_, fun hzero => ?_, fun hret => ?_⟩
    · rw [hm, W.tasks_runFrames]
      exact hq'
    · have hsum := haccount t
      simp only [Running.completed, Running.called, List.flatMap_cons, List.filterMap_append,
        List.count_append] at hsum ⊢
      omega
    · obtain ⟨d, hd, rfl⟩ := W.runOne_dispatches hI hrun
      obtain ⟨ds, hds, hsum⟩ := hcounted
      refine ⟨d :: ds, .cons hd hds, ?_⟩
      rw [List.flatten_cons, List.length_append, ← hsum]
      exact Nat.add_comm _ _
    · cases hnone
    · obtain rfl : n = 0 := Option.some.inj hzero
      obtain rfl := W.runOne_zero hI hrun
      rw [runFrames_nil] at hm
      refine ⟨by rw [hm]; exact hdepth, _, _, rfl, hI, ?_⟩
      rw [hm]
      exact hrun
    · rw [hloop] at hret
      cases hret
  | error e =>
    rw [hrun] at hr'
    subst hr'
    obtain ⟨hctx, hsome⟩ := W.step_runOne_error hrun hstep
    refine ⟨hreached, ⟨q, by rw [hctx]; exact hq, haccount⟩, h.counted, fun hnone => ?_,
      fun hzero => ?_, fun hret => ?_⟩
    · rw [hnone] at hsome
      cases hsome
    · rw [hrunning] at hzero
      cases hzero
    · rw [hloop] at hret
      cases hret

theorem RunningInv.user (hI : W.Inv r.machine.ctx) (h : W.RunningInv c₀ depth ts r)
    (hrunning : r.running.isSome) (hdeep : depth < r.machine.stack.length)
    (hl : W.runsOne l = false) (hguard : W.Unqueued r.machine l)
    (hs : r.machine.step B l = some m) :
    W.RunningInv c₀ depth ts
      { r with machine := m, scheduled := W.scheduledBy l ++ r.scheduled } := by
  obtain ⟨n, hn⟩ := Option.isSome_iff_exists.1 hrunning
  obtain ⟨q, hq, haccount⟩ := h.tasks
  have hq' := W.queue_of_step hI (Runs.never_started h.reached) hq hguard hs hl
  refine ⟨h.reached.tail hguard hs, ⟨_, hq', fun t => ?_⟩, h.counted, fun _ hnone => ?_,
    fun hzero => ?_, fun hret => ?_⟩
  · have hsum := haccount t
    simp only [Running.completed, Running.called, List.count_append] at hsum ⊢
    omega
  · rw [hn] at hnone
    cases hnone
  · exact absurd (h.zero hzero).1 (Nat.ne_of_gt hdeep)
  · rw [(h.returned hret).2.1] at hn
    cases hn

theorem RunningInv.returns (h : W.RunningInv c₀ depth ts r) (hn : r.running = some n)
    (hstatus : r.machine.status = none) (hdepth : r.machine.stack.length = depth) :
    W.RunningInv c₀ depth ts { r with loop := r.loop.next n, running := none } := by
  have hcounted := h.counted
  rw [hn] at hcounted
  refine ⟨h.reached, h.tasks, ?_, fun _ _ => hdepth, (fun hzero => by cases hzero),
    fun hret => ⟨hstatus, rfl, ?_⟩⟩
  · unfold RunLoop.next
    split_ifs with hz
    · subst hz
      exact hcounted
    · exact hcounted
  · unfold RunLoop.next at hret
    split_ifs at hret with hz
    · subst hz
      exact (h.zero hn).2
    · exact (h.returned hret).2.2

theorem RunningInv.step (hI : W.Inv r.machine.ctx) (h : W.RunningInv c₀ depth ts r)
    (hguard : W.RunUnqueued r lab)
    (hs : W.step depth r lab = some r') : W.RunningInv c₀ depth ts r' := by
  cases lab with
  | runOne j =>
    simp only [RunsOne.step] at hs
    split_ifs at hs with hnot
    exact h.runOne hI hnot hs
  | user l =>
    simp only [RunsOne.step] at hs
    split_ifs at hs with hok
    obtain ⟨m, hstep, rfl⟩ := Option.map_eq_some_iff.1 hs
    exact h.user hI hok.1 hok.2.1 hok.2.2 hguard hstep
  | returns =>
    simp only [RunsOne.step] at hs
    split at hs
    · next n hn =>
      split_ifs at hs with hok
      cases hs
      exact h.returns hn hok.1 hok.2
    · cases hs

/-- What `run` leaves when it has returned. -/
structure Returned (W : RunsOne B J D) (ts : List TaskId) (r : Running C T J) : Prop where
  status : r.machine.status = none
  ended : W.Ended r
  tasks : (W.tasks r.machine.ctx).head = none →
    ∀ t, r.completed.count t = ts.count t + r.scheduled.count t
  counted : W.Counted r.loop.count r.turns

theorem RunningInv.of_returned (h : W.RunningInv c₀ depth ts r) (hret : r.loop.returned = true) :
    W.Returned ts r := by
  obtain ⟨hstatus, hrunning, hended⟩ := h.returned hret
  refine ⟨hstatus, hended, fun hhead t => ?_, ?_⟩
  · obtain ⟨q, hq, haccount⟩ := h.tasks
    have hsum := haccount t
    rw [hq.eq_nil hhead] at hsum
    exact hsum
  · have hcounted := h.counted
    rw [hrunning] at hcounted
    exact hcounted

/-- **Runs of `run`**, from any state `m₀`: with the tasks `ts` that are in the list then, the
invariant holds at any time. -/
theorem exists_runningInv (hInv : ∀ m, Runs B W.Unqueued c₀ m → W.Inv m.ctx)
    (hempty : W.tasks c₀ = {}) (h : Runs B W.Unqueued c₀ m₀) :
    ∃ ts, (W.tasks m₀.ctx).Queue ts ∧ ∀ r : Running C T J,
      Reaches (W.step m₀.stack.length) W.RunUnqueued { machine := m₀ } r →
        W.RunningInv c₀ m₀.stack.length ts r := by
  obtain ⟨ts, hq⟩ := W.queue_of_runs hInv hempty h
  exact ⟨ts, hq, fun r hr => hr.invariant (runningInv_initial h hq)
    fun _ _ _ hI hguard hs => hI.step (hInv _ hI.reached) hguard hs⟩

/-! ### Tests of the guards -/

/-- Tasks are scheduled only when the list is empty. -/
def oneTask (W : RunsOne B J D) (m : Machine C T) (l : Label R A K) : Bool :=
  (W.scheduledBy l).isEmpty || (W.tasks m.ctx).head.isNone

theorem oneTask_unqueued (m : Machine C T) (l : Label R A K) (h : W.oneTask m l = true) :
    W.Unqueued m l := by
  intro t ht ts hq
  rcases Bool.or_eq_true_iff.1 h with hnil | hnone
  · rw [List.isEmpty_iff.1 hnil] at ht
    cases ht
  · rw [hq.eq_nil (Option.isNone_iff_eq_none.1 hnone)]
    exact List.not_mem_nil

def runOneTask (W : RunsOne B J D) (r : Running C T J) : RunningLabel R A K J → Bool
  | .user l => W.oneTask r.machine l
  | _ => true

theorem runOneTask_unqueued (r : Running C T J) (lab : RunningLabel R A K J)
    (h : W.runOneTask r lab = true) : W.RunUnqueued r lab := by
  cases lab with
  | user l => exact oneTask_unqueued r.machine l h
  | _ => trivial

end RunsOne

end Net29
