import Net29.Iocp.Ledger

/-!
# When `run_one` of `iocp_context` returns 0

`io_context::run` stops at the first `run_one` that returns 0.

* `WokenEarly`: `run_one` waits, and is woken by a packet whose task was run before, or by a
  time-out that was rounded down below the first deadline;
* `run_one_idle`: exactly then it returns 0 with work pending, the failure of the port apart.
-/

namespace Net29

open Machine Transition IocpContext

variable {c c' : IocpContext} {fs : List (Frame StorageId)} {n : ℕ} {now : Time}
  {answer : Option PortAnswer}

/-- No task, no timer and no overlapped request is pending. -/
structure IocpContext.Idle (c : IocpContext) : Prop where
  tasks : c.tasks.head = none
  timeouts : c.timeouts = []
  requests : c.requests = []

/-- `run_one` waits, and what it gets is a packet of `schedule`, or a time-out before the first
timer is due. -/
def IocpContext.WokenEarly (c : IocpContext) (now : Time) (answer : Option PortAnswer) : Prop :=
  Waits c now ∧
    (answer = some .wakeup ∨
      ∃ later, answer = some (.timeout later) ∧ c.processTimeout later = none)

/-- Woken early, `run_one` returns 0 and leaves what it waited for. -/
theorem IocpContext.runOne_of_wokenEarly (hw : WokenEarly c now answer)
    (h : c.runOne now answer = .ok (c', fs, n)) :
    n = 0 ∧ c'.outstanding = c.outstanding ∧ c'.timeouts = c.timeouts ∧
      c'.requests = c.requests := by
  obtain ⟨⟨htimer, htask, hbusy⟩, hanswer⟩ := hw
  unfold runOne at h
  rw [htimer, htask] at h
  dsimp only at h
  rw [if_neg hbusy] at h
  rcases hanswer with rfl | ⟨later, rfl, hlater⟩
  · have htask' : processTask { c with wakeups := c.wakeups - 1 } = none := by
      rw [processTask, Option.map_eq_none_iff] at htask ⊢
      exact htask
    dsimp only at h
    rw [htask'] at h
    split_ifs at h
    cases h
    exact ⟨rfl, rfl, rfl, rfl⟩
  · dsimp only at h
    rw [hlater] at h
    split_ifs at h
    cases h
    exact ⟨rfl, rfl, rfl, rfl⟩

/-- There is no task to process: the list is empty. -/
theorem IocpContext.processTask_eq_none : c.processTask = none ↔ c.tasks.head = none := by
  rw [processTask, Option.map_eq_none_iff, TaskList.pop?, Option.map_eq_none_iff]

/-- **`run_one` returns 0 only when it is idle**, or when the port failed, if and only if it is not
woken early. -/
theorem run_one_idle (os : Os) (m : Machine IocpContext StorageId)
    (h : Runs iocpBase free (IocpContext.initial os) m) (now : Time) (answer : Option PortAnswer)
    (c' : IocpContext) (fs : List (Frame StorageId)) (n : ℕ)
    (hrun : m.ctx.runOne now answer = .ok (c', fs, n)) :
    (n = 0 → answer = some .failed ∨ c'.Idle) ↔ ¬ m.ctx.WokenEarly now answer := by
  have hI : IocpInv m.ctx := (sound_of_runs h).inv
  constructor
  · intro hidle hw
    obtain ⟨hn, hout, htimeouts, hrequests⟩ := runOne_of_wokenEarly hw hrun
    rcases hidle hn with rfl | hidle
    · rcases hw.2 with hans | ⟨_, hans, -⟩ <;> cases hans
    · -- the counter is the number of requests
      refine hw.1.busy ⟨?_, htimeouts ▸ hidle.timeouts⟩
      rw [hI.count, ← hrequests, hidle.requests]
      rfl
  · intro hw hn
    cases runOne_cases hrun with
    | idle htasks ho ht =>
      refine .inr ⟨processTask_eq_none.1 htasks, ht, ?_⟩
      exact List.length_eq_zero_iff.1 (hI.count.symm.trans ho)
    | early hwaits hlater => exact absurd ⟨hwaits, .inr ⟨_, rfl, hlater⟩⟩ hw
    | failed => exact .inl rfl
    | stale hwaits => exact absurd ⟨hwaits, .inl rfl⟩ hw
    | timer => cases hn
    | task => cases hn
    | completed => cases hn

/-- A task is scheduled, which posts a packet; the task runs without it. A timer is pending. -/
def staleWakeup : List (Label Answers Unit IocpCall) :=
  [.call (.schedule 7), .start ⟨1, .resumeAt 5000000⟩ { now := 2 } false (),
    .call (.runOne 3 none), .ret]

theorem returns_with_timer :
    ¬ ∀ (os : Os) (m : Machine IocpContext StorageId),
      Runs iocpBase free (IocpContext.initial os) m → ∀ now answer c' fs n,
        m.ctx.runOne now answer = .ok (c', fs, n) → n = 0 → answer = some .failed ∨ c'.Idle := by
  intro h
  obtain ⟨m, hrun, hm⟩ := runs_of_labels iocpBase (IocpContext.initial {}) any any_free staleWakeup
    (fun m => (m.ctx.tasks.head, m.ctx.timeouts, m.ctx.wakeups))
    (none, [⟨1, .resumeAt 5000000⟩], 1) (by decide)
  obtain ⟨htasks, htimeouts, hwakeups⟩ : _ ∧ _ ∧ _ := by simpa only [Prod.mk.injEq] using hm
  have hwakeup : m.ctx.runOne 4 (some .wakeup) = .ok ({ m.ctx with wakeups := 0 }, [], 0) := by
    simp [runOne, processTimeout, processTask, TaskList.pop?, Timers.popDue?, IoBase.deadline,
      htasks, htimeouts, hwakeups]
  rcases h {} m hrun _ _ _ _ _ hwakeup rfl with hfailed | hidle
  · cases hfailed
  · have hnil := hidle.timeouts
    rw [show IocpContext.timeouts { m.ctx with wakeups := 0 } = m.ctx.timeouts from rfl,
      htimeouts] at hnil
    cases hnil

/-- The timer fires; then the context is idle, with a packet left in the port. -/
theorem run_one_idle_staleWakeup :
    ∃ m : Machine IocpContext StorageId, Runs iocpBase free (IocpContext.initial {}) m ∧
      m.ctx.wakeups = 1 ∧ m.ctx.runOne 6000000 none = .ok (m.ctx, [], 0) ∧ m.ctx.Idle := by
  obtain ⟨m, hrun, hm⟩ := runs_of_labels iocpBase (IocpContext.initial {}) any any_free
    (staleWakeup ++ [.call (.runOne 5000000 none), .ret])
    (fun m => (m.ctx.tasks.head, m.ctx.timeouts, m.ctx.outstanding, m.ctx.wakeups))
    (none, [], 0, 1) (by decide)
  obtain ⟨htasks, htimeouts, hout, hwakeups⟩ : _ ∧ _ ∧ _ ∧ _ := by
    simpa only [Prod.mk.injEq] using hm
  have hzero : m.ctx.runOne 6000000 none = .ok (m.ctx, [], 0) := by
    simp [runOne, processTimeout, processTask, TaskList.pop?, Timers.popDue?, htasks, htimeouts,
      hout]
  have hidle := (run_one_idle {} m hrun _ _ _ _ _ hzero).2
    (fun hw => hw.1.busy ⟨hout, htimeouts⟩) rfl
  exact ⟨m, hrun, hwakeups, hzero, hidle.resolve_left (by simp)⟩

end Net29
