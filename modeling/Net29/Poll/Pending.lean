import Net29.Poll.Waiting

/-!
# The pending operations of `poll_context`

* `Dispatch`, `TakenOut`: what `run_one` dispatches, and what it takes out of the queues for it;
* `CancelledOut`: what `cancel` takes out;
* `poll_vectors_aligned`: in every state reached the two vectors belong together and no operation is
  pending twice, so that `run_one` and `cancel` take out exactly one operation and its entry;
* `accepted_stays_pending`: an operation that was accepted stays pending until it is called, as long
  as no work function is answered `EWOULDBLOCK`.
-/

namespace Net29

open Machine Transition PollContext

variable {c c' : PollContext} {io : IoBase} {fs : List (Frame Empty)} {n : ℕ} {now : Time}
  {answers : List PollAnswer} {ds : List Dispatch}

/-! ### Alignment -/

/-- What `run_one` dispatches: the `complete` of a task or timer, or a work function. -/
inductive Dispatch
  | task (t : TaskId)
  | timer (o : OpId)
  | work (o : OpId)
  deriving DecidableEq, Repr

/-- What `run_one` dispatches, and what it takes out of the queues for it. -/
inductive TakenOut (c : PollContext) (now : Time) (answers : List PollAnswer) (c' : PollContext) :
    List (Frame Empty) → List Dispatch → Prop
  /-- The work function of one operation, whose own entry was reported with a requested event or an
  error; its pair is removed. -/
  | work {before after : List PollAnswer} {revents : List (BitVec 16)} {later : Time}
      {sys : List SysAnswer} {i : ℕ} {io : IoBase} {fd : Fd} {v : BitVec 16}
      {c₁ c₂ : PollContext} {r : SubmitResult} {fs : List (Frame Empty)}
      (htimer : c.processTimeout now = none) (htask : c.processTask = none)
      (hanswers : answers = before ++ .ok revents later sys :: after)
      (hrounds : Rounds now c before c₁) (hio : c.outstanding[i]? = some io)
      (hrevents : revents[i]? = some v)
      (hreported : v &&& (eventMask io.op.events ||| POLLERR) ≠ 0)
      (hpairs : c.pairs.Perm (((fd, eventMask io.op.events), io) :: c'.pairs))
      (htimeouts : c'.timeouts = c.timeouts) (htasks : c'.tasks = c.tasks)
      (hsame : c₂.pairs = c'.pairs) (hsockets : c₂.sockets = c.sockets) (henv : c₂.env = c.env)
      (hwork : c₂.work io sys = .ok (c', fs, r)) : TakenOut c now answers c' fs [.work io.self]
  /-- The first timer, whose deadline is not after a clock reading. -/
  | timer {io : IoBase} {reading : Time}
      (hreading : reading = now ∨ ∃ revents sys, .ok revents reading sys ∈ answers)
      (hdue : io.deadline ≤ reading) (hpairs : c'.pairs = c.pairs)
      (htimeouts : c.timeouts = io :: c'.timeouts) (htasks : c'.tasks = c.tasks) :
      TakenOut c now answers c' [.complete io.self none] [.timer io.self]
  /-- The first task. -/
  | task {t : TaskId} (hpairs : c'.pairs = c.pairs) (htimeouts : c'.timeouts = c.timeouts)
      (htasks : c.tasks.pop? = some (t, c'.tasks)) :
      TakenOut c now answers c' [.task t] [.task t]
  /-- Nothing: there is nothing, or `poll` failed. -/
  | nothing (hpairs : c'.pairs = c.pairs) (htimeouts : c'.timeouts = c.timeouts)
      (htasks : c'.tasks = c.tasks) (htask : c.processTask = none)
      (hwhy : c.poll = [] ∧ c.timeouts = [] ∨ PollFailed c now answers) :
      TakenOut c now answers c' [] []

/-- The first timer is taken out when it is due. -/
theorem PollContext.FoundDue.takenOut {reading : Time}
    (h : FoundDue c now answers reading c' fs) : ∃ ds, TakenOut c now answers c' fs ds ∧
      ds.length = 1 := by
  cases h with
  | atOnce hdue =>
    obtain ⟨io, timeouts, hl, hle, rfl, rfl⟩ := processTimeout_eq_some hdue
    exact ⟨_, .timer (.inl rfl) hle rfl hl rfl, rfl⟩
  | @later before after revents _ sys c₁ _ _ hanswers hr hlen _ hdue =>
    have hw := (hr.waited.trans (waited_handed c₁ now)).trans
      (waited_report (c := c₁.handed now) hlen)
    obtain ⟨io, timeouts, hl, hle, rfl, rfl⟩ := processTimeout_eq_some hdue
    exact ⟨_, .timer (.inr ⟨revents, sys, hanswers ▸ by simp⟩) hle hw.pairs
      (hw.timeouts.symm.trans hl) hw.tasks, rfl⟩

/-- **`run_one` returns how much it dispatches**: one task, timer or work function, or nothing. -/
theorem PollContext.takenOut (hI : PollInv c) (h : c.runOne now answers = .ok (c', fs, n)) :
    ∃ ds, TakenOut c now answers c' fs ds ∧ ds.length = n := by
  cases runOne_exits h with
  | timer hdue => exact hdue.takenOut
  | task ht =>
    obtain ⟨t, tasks, hpop, rfl, rfl⟩ := processTask_eq_some ht
    exact ⟨_, .task rfl rfl hpop, rfl⟩
  | empty htask hpoll htimeouts =>
    exact ⟨_, .nothing rfl rfl rfl htask (.inl ⟨hpoll, htimeouts⟩), rfl⟩
  | @failed before after e c₁ htask hanswers hr he =>
    have hw := hr.waited.trans (waited_handed c₁ now)
    exact ⟨_, .nothing hw.pairs hw.timeouts hw.tasks htask (.inr ⟨before, e, after, c₁, hanswers,
      hr, fun hint => he (.inl hint), fun hagain => he (.inr hagain)⟩), rfl⟩
  | @entry before after revents later sys c₁ _ i io r _ htimer htask hanswers hr hlen hscan hio
      hwork =>
    have hw := (hr.waited.trans (waited_handed c₁ now)).trans
      (waited_report (c := c₁.handed now) hlen)
    have hI₁ := hI.waited hw
    have hworked := (work_spec hwork).1.worked
    obtain ⟨p, hp, hreported⟩ := scan_eq_some hscan
    obtain ⟨q, v, -, hv, rfl⟩ := report_get.1 hp
    have hio' : ((c₁.handed now).report revents).outstanding[i]? = some io := hio
    have hevents := hI₁.aligned.get hp hio'
    have hpairs := pairs_removeOutstanding hI₁.aligned.length hp hio'
    rw [hevents, hw.pairs, ← hworked.pairs] at hpairs
    refine ⟨_, .work htimer htask hanswers hr (hr.waited.outstanding ▸ hio) hv ?_ hpairs ?_ ?_
      hworked.pairs.symm ?_ ?_ hwork, rfl⟩
    · rw [← hevents]
      simpa [Pollfd.reported] using hreported
    · rw [hworked.timeouts, timeouts_removeOutstanding, hw.timeouts]
    · rw [hworked.tasks, tasks_removeOutstanding, hw.tasks]
    · rw [sockets_removeOutstanding, hw.sockets]
    · rw [env_removeOutstanding, hw.env]

/-- What `cancel` takes out of the queues: the operation with its entry, or the timer. -/
inductive CancelledOut (c : PollContext) (o : OpId) (c' : PollContext) : Prop
  | pair {entry : Fd × BitVec 16} {io : IoBase} (hself : io.self = o)
      (hpairs : c.pairs.Perm ((entry, io) :: c'.pairs)) (htimeouts : c'.timeouts = c.timeouts)
      (htasks : c'.tasks = c.tasks) : CancelledOut c o c'
  | timer {io : IoBase} (hself : io.self = o) (hpairs : c'.pairs = c.pairs)
      (htimeouts : c.timeouts.Perm (io :: c'.timeouts)) (htasks : c'.tasks = c.tasks) :
      CancelledOut c o c'

theorem PollContext.cancelledOut (hI : PollInv c) (h : c.cancel io () = .ok (c', fs)) :
    CancelledOut c io.self c' := by
  cases (cancel_cases h).1 with
  | @outstanding i io' hio hself =>
    have hlt : i < c.poll.length := by
      rw [hI.aligned.length]
      exact (List.getElem?_eq_some_iff.1 hio).1
    exact .pair hself
      (pairs_removeOutstanding hI.aligned.length (List.getElem?_eq_getElem hlt) hio)
      timeouts_removeOutstanding tasks_removeOutstanding
  | timer herase =>
    obtain ⟨io', hself, hperm⟩ := erase?_eq_some herase
    exact .timer hself rfl hperm rfl

/-- **The two vectors stay aligned** in every run: they have the same length, the events waited for
are those of the operation in the same place, and no operation is pending twice. So `run_one` takes
out what it dispatches and nothing else, and returns how much that is, and `cancel` takes out the
operation it is asked for. -/
theorem poll_vectors_aligned (os : Os) (m : Machine PollContext Empty)
    (h : Runs pollBase free (PollContext.initial os) m) :
    m.ctx.poll.length = m.ctx.outstanding.length ∧
    (∀ (i : ℕ) (p : Pollfd) (io : IoBase), m.ctx.poll[i]? = some p →
      m.ctx.outstanding[i]? = some io → p.events = eventMask io.op.events) ∧
    ((m.ctx.outstanding ++ m.ctx.timeouts).map IoBase.self).Nodup ∧
    (∀ now answers c' fs n, m.ctx.runOne now answers = .ok (c', fs, n) →
      ∃ ds, TakenOut m.ctx now answers c' fs ds ∧ ds.length = n) ∧
    ∀ io c' fs, m.ctx.cancel io () = .ok (c', fs) → CancelledOut m.ctx io.self c' := by
  have hsound := (pollLedger_fresh os).sound (h.mono Ledger.guard_free)
  have hI : PollInv m.ctx := hsound.inv
  refine ⟨hI.aligned.length, fun i p io hp hio => hI.aligned.get hp hio,
    nodup_of_occurrences fun o => ?_, fun _ _ _ _ _ hrun => takenOut hI hrun,
    fun _ _ _ hcancel => cancelledOut hI hcancel⟩
  rw [occurrences_append]
  exact hsound.once o

/-- Two operations wait, on sockets with the descriptors 3 and 4. -/
def twoPending : List (Label Answers Unit PollCall) :=
  [.call (.makeSocket (.ok 3 [])), .call (.makeSocket (.ok 4 [])),
    .start ⟨1, .receive 0 [8]⟩ {} false (), .start ⟨2, .send 1 [8]⟩ {} false ()]

/-- The first of them may receive. -/
def firstReported : List PollAnswer := [.ok [POLLIN, 0] 0 [.ok 5 []]]

theorem poll_vectors_aligned_twoPending :
    ∃ (m : Machine PollContext Empty) (c₁ c₂ : PollContext) (fs : List (Frame Empty)),
      Runs pollBase free (PollContext.initial {}) m ∧ m.ctx.poll = [⟨3, 1, 0⟩, ⟨4, 4, 0⟩] ∧
      m.ctx.poll.length = m.ctx.outstanding.length ∧
      m.ctx.runOne 0 firstReported = .ok (c₁, [.complete 1 (some (.size 5))], 1) ∧
      (∃ ds, TakenOut m.ctx 0 firstReported c₁ [.complete 1 (some (.size 5))] ds ∧
        ds.length = 1) ∧
      m.ctx.cancel ⟨2, .send 1 [8]⟩ () = .ok (c₂, fs) ∧ CancelledOut m.ctx 2 c₂ := by
  obtain ⟨m, hrun, hpoll, c₁, hone, c₂, fs, hcancel⟩ : ∃ m,
      run (step pollBase) { ctx := PollContext.initial {} } twoPending = some m ∧
      m.ctx.poll = [⟨3, 1, 0⟩, ⟨4, 4, 0⟩] ∧
      ∃ c₁, m.ctx.runOne 0 firstReported = .ok (c₁, [.complete 1 (some (.size 5))], 1) ∧
      ∃ c₂ fs, m.ctx.cancel ⟨2, .send 1 [8]⟩ () = .ok (c₂, fs) :=
    ⟨_, rfl, rfl, _, rfl, _, _, rfl⟩
  have hm : Runs pollBase free (PollContext.initial {}) m := reaches_free_of_run hrun
  obtain ⟨hlen, -, -, hruns, hcancels⟩ := poll_vectors_aligned {} m hm
  exact ⟨m, c₁, c₂, fs, hm, hpoll, hlen, hone, hruns _ _ _ _ _ hone, hcancel,
    hcancels _ _ _ hcancel⟩

/-! ### Nothing is lost -/

/-- The steps in which no work function that `run_one` calls is answered `EWOULDBLOCK`. -/
def NotBlocked (m : Machine PollContext Empty) : Label Answers Unit PollCall → Prop
  | .call k => ¬ Drops m.ctx k
  | _ => True

theorem NotBlocked.guard {m : Machine PollContext Empty} {l : Label Answers Unit PollCall}
    (h : NotBlocked m l) : pollLedger.Guard True False m l := by
  cases l with
  | start io req stopped a => exact fun hc => hc.elim
  | stop o a => exact fun hc => hc.elim
  | call k => exact fun _ => h
  | ret => trivial
  | upstream => trivial

/-- A call in which no system call answers `EWOULDBLOCK` drops nothing. -/
theorem not_drops_of_answers {k : PollCall}
    (h : ∀ now answers, k = .runOne now answers →
      ∀ revents later sys, .ok revents later sys ∈ answers → .err Errno.EWOULDBLOCK ∉ sys) :
    ¬ Drops c k := by
  cases k with
  | runOne now answers =>
    rintro ⟨-, -, c₁, i, sys, io, hwait, -, hblock⟩
    cases (wait_spec hwait).2 with
    | entry hanswer => exact h now answers rfl _ _ _ hanswer (mem_of_wouldBlock hblock)
  | _ => exact fun h => h

/-- **An accepted operation stays pending**, exactly once, until one of its functions is called, in
every run in which no work function is answered `EWOULDBLOCK`. -/
theorem accepted_stays_pending (os : Os) (m : Machine PollContext Empty)
    (h : Runs pollBase NotBlocked (PollContext.initial os) m) (hstatus : m.status = none) (o : OpId)
    (hsubmitted : .submitted .submit ∈ (m.ops o).log) (hcalls : (m.ops o).calls = []) :
    occurrences m.ctx.outstanding o + occurrences m.ctx.timeouts o = 1 := by
  have hsound := (pollLedger_fresh os).sound (h.mono fun _ _ => NotBlocked.guard)
  cases hsound.phase hstatus o with
  | idle hs => rw [hs] at hsubmitted; cases hsubmitted
  | refused hr => exact absurd hsubmitted (hr.submitted _)
  | done hd => exact absurd hcalls (hd.called trivial)
  | live hl =>
    have hbal := (hl.balance trivial).2
    rw [hcalls] at hbal
    exact hbal

/-- A `receive` that `poll` reports, and that finds nothing to read. -/
def spuriousReceive : List (Label Answers Unit PollCall) :=
  [.call (.makeSocket (.ok 3 [])), .start ⟨1, .receive 0 [8]⟩ {} false (),
    .call (.runOne 0 [.ok [POLLIN] 0 [.err Errno.EWOULDBLOCK]])]

theorem accepted_is_lost :
    ¬ ∀ (os : Os) (m : Machine PollContext Empty), Runs pollBase free (PollContext.initial os) m →
      m.status = none → ∀ o, .submitted .submit ∈ (m.ops o).log → (m.ops o).calls = [] →
        occurrences m.ctx.outstanding o + occurrences m.ctx.timeouts o = 1 := by
  intro h
  obtain ⟨m, hrun, hm⟩ := runs_of_labels pollBase (PollContext.initial {}) any any_free
    spuriousReceive (fun m => (m.status, (m.ops 1).log, m.ctx.outstanding, m.ctx.timeouts))
    (none, [.submitted .submit, .started false], [], []) (by decide)
  obtain ⟨hstatus, hlog, hout, htimeouts⟩ : _ ∧ _ ∧ _ ∧ _ := by simpa only [Prod.mk.injEq] using hm
  have hone := h {} m hrun hstatus 1 (by rw [hlog]; decide)
    (by rw [SenderState.calls, hlog]; rfl)
  rw [hout, htimeouts] at hone
  cases hone

/-- The call of `run_one` in which every descriptor reported has data. -/
def hasData : PollCall → Bool
  | .runOne _ answers => answers.all fun
      | .ok _ _ [.ok _ _] => true
      | _ => false
  | _ => true

theorem hasData_not_drops {k : PollCall} (h : hasData k = true) : ¬ Drops c k := by
  refine not_drops_of_answers fun now answers hk revents later sys hmem hblock => ?_
  subst hk
  have hsys := List.all_eq_true.1 h _ hmem
  split at hsys
  · next heq => cases heq; simp at hblock
  · cases hsys

/-- The steps in which every descriptor that is reported has data. -/
def answered (_ : Machine PollContext Empty) : Label Answers Unit PollCall → Bool
  | .call k => hasData k
  | _ => true

theorem answered_notBlocked (m : Machine PollContext Empty) (l : Label Answers Unit PollCall)
    (h : answered m l = true) : NotBlocked m l := by
  cases l with
  | call k => exact hasData_not_drops h
  | _ => trivial

theorem accepted_stays_pending_receive :
    ∃ m : Machine PollContext Empty, Runs pollBase NotBlocked (PollContext.initial {}) m ∧
      occurrences m.ctx.outstanding 2 + occurrences m.ctx.timeouts 2 = 1 := by
  obtain ⟨m, hrun, hm⟩ := runs_of_labels pollBase (PollContext.initial {}) answered
    answered_notBlocked (twoPending ++ [.call (.runOne 0 [.ok [POLLIN, 0] 0 [.ok 5 []]])])
    (fun m => (m.status, (m.ops 2).log)) (none, [.submitted .submit, .started false]) (by decide)
  obtain ⟨hstatus, hlog⟩ : _ ∧ _ := by simpa only [Prod.mk.injEq] using hm
  exact ⟨m, hrun, accepted_stays_pending {} m hrun hstatus 2 (by rw [hlog]; decide)
    (by rw [SenderState.calls, hlog]; rfl)⟩

end Net29
