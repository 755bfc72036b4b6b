import Mathlib.Order.MinMax
import Net29.Iocp.Drain

/-!
# Timers of `iocp_context`

* `WaitRight`: the time handed to `GetQueuedCompletionStatus` ends with the first deadline;
* `Retimed`: what a step does to the pending timers, and `retimed_of_step`;
* `timers_fire_when_due`: a timer leaves the list when it is due and first, or cancelled.
-/

namespace Net29

open Machine Transition

namespace IocpContext

variable {c c' : IocpContext} {io : IoBase} {fs : List (Frame StorageId)} {r : SubmitResult}
  {n : ℕ} {req : Answers} {now : Time} {answer : Option PortAnswer} {s : StorageId} {k : IocpCall}
  {m m' : Machine IocpContext StorageId} {o : OpId} {l : Label Answers Unit IocpCall}

/-! ### The time to wait -/

/-- The time to wait is right: it is infinite only without timers, and it ends at the first deadline
at the latest. -/
structure WaitRight (c : IocpContext) (now : Time) : Prop where
  finite : c.timeoutMs now = INFINITE → c.timeouts = []
  within : ∀ io ∈ c.timeouts, (c.timeoutMs now : ℤ) * 10 ^ 6 ≤ max 0 (io.deadline - now)

/-- Whole milliseconds, also when they are bounded, are not more than the distance. -/
theorem milliseconds_le (deadline now : ℤ) (bound : ℕ) :
    ((if deadline ≤ now then 0 else min ((deadline - now).tdiv (10 ^ 6)).toNat bound : ℕ) : ℤ) *
      10 ^ 6 ≤ max 0 (deadline - now) := by
  split_ifs with hdue
  · simp
  · have hd : 0 ≤ deadline - now := by omega
    have hbound : (deadline - now) / 10 ^ 6 * 10 ^ 6 ≤ deadline - now :=
      Int.ediv_mul_le _ (by decide)
    have hnonneg : 0 ≤ (deadline - now) / 10 ^ 6 := Int.ediv_nonneg hd (by decide)
    rw [Int.tdiv_eq_ediv_of_nonneg hd]
    omega

/-- What is computed, with `min`. -/
theorem timeoutMs_cons {first : IoBase} {rest : List IoBase} (h : c.timeouts = first :: rest) :
    c.timeoutMs now = if first.deadline ≤ now then 0 else
      min ((first.deadline - now).tdiv (10 ^ 6)).toNat (INFINITE - 1) := by
  unfold timeoutMs
  rw [h]
  dsimp only
  generalize ((first.deadline - now).tdiv (10 ^ 6)).toNat = ms
  split_ifs <;> omega

theorem waitRight_of_sorted (hs : Timers.Sorted c.timeouts) (now : Time) : WaitRight c now := by
  cases htimeouts : c.timeouts with
  | nil =>
    refine ⟨fun _ => htimeouts, fun io hio => ?_⟩
    rw [htimeouts] at hio
    cases hio
  | cons first rest =>
    rw [htimeouts] at hs
    have hms := @timeoutMs_cons _ now _ _ htimeouts
    constructor
    · intro hinf
      have hbound : c.timeoutMs now ≤ INFINITE - 1 := by
        rw [hms]
        split_ifs
        · exact Nat.zero_le _
        · exact Nat.min_le_right _ _
      rw [hinf] at hbound
      exact absurd hbound (by decide)
    · intro io hio
      have hle := hs.first_le (htimeouts ▸ hio)
      rw [hms]
      exact (milliseconds_le _ _ _).trans (max_le_max_left 0 (Int.sub_le_sub_right hle now))

/-! ### What a step does to the timers -/

theorem Prepared.timeouts (h : Prepared c c') : c'.timeouts = c.timeouts := by
  refine h.induct (P := fun c' => c'.timeouts = c.timeouts) rfl fun hc h => ?_
  refine Eq.trans ?_ hc
  cases h with
  | touch h => cases h <;> rfl
  | initialise => rfl

theorem free_timeouts (c : IocpContext) (s : StorageId) : (c.free s).timeouts = c.timeouts := by
  unfold free
  split
  · rfl
  · dsimp only
    split <;> rfl

theorem popDeferred_timeouts (c : IocpContext) (s : StorageId) :
    (c.popDeferred s).timeouts = c.timeouts := by
  unfold popDeferred
  dsimp only
  split
  · rfl
  · exact free_timeouts _ _

/-- What a step does to the timers. -/
inductive Retimed (m : Machine IocpContext StorageId) (l : Label Answers Unit IocpCall)
    (m' : Machine IocpContext StorageId) : Prop
  | same (h : m'.ctx.timeouts = m.ctx.timeouts)
  /-- `resume_at` before the deadline -/
  | started {io : IoBase} {req : Answers} {a : Unit} {t : Time} (hl : l = .start io req false a)
      (hop : io.op = .resumeAt t) (hnow : req.now < t)
      (h : m'.ctx.timeouts = Timers.insert m.ctx.timeouts io)
  /-- `cancel`, which calls `cancel` of the operation -/
  | cancelled {o : OpId} (herase : Timers.erase? m.ctx.timeouts o = some m'.ctx.timeouts)
      (hcalls : .cancel ∈ (m'.ops o).calls)
  /-- `run_one`, which completes the first timer after a clock reading -/
  | fired {io : IoBase} {now reading : Time} {answer : Option PortAnswer}
      (hl : l = .call (.runOne now answer))
      (hreading : reading = now ∨ answer = some (.timeout reading))
      (hfirst : m.ctx.timeouts = io :: m'.ctx.timeouts) (hdue : io.deadline ≤ reading)
      (hcalls : ∃ v, .complete v ∈ (m'.ops io.self).calls)

/-- The first call of an interrupted function is made at once. -/
theorem called_of_runFrames {call : IoCall} {f : Frame StorageId}
    (h : call ∈ ((m.exec iocpBase f).1.ops o).calls) :
    call ∈ ((m.runFrames iocpBase (f :: fs)).ops o).calls := by
  cases hb : (m.exec iocpBase f).2 with
  | true =>
    rw [runFrames_cons_of_user hb]
    exact h
  | false =>
    rw [runFrames_cons_of_silent hb]
    exact ((runFrames_kept o).log.filterMap _).subset h

theorem countDown_calls {st : SenderState} {call : IoCall} {reset : Bool} {x : Signal} :
    call ∈ (st.countDown (.called call) reset x).1.calls := by
  unfold SenderState.countDown SenderState.calls
  dsimp only
  split_ifs
  all_goals exact List.mem_filterMap.2 ⟨.called call, by simp, rfl⟩

theorem call_timeouts (hI : IocpInv m.ctx) (h : iocpBase.call m.ctx k = .ok (c', fs)) :
    c'.timeouts = m.ctx.timeouts ∨ ∃ io now reading answer, k = .runOne now answer ∧
      (reading = now ∨ answer = some (.timeout reading)) ∧ m.ctx.timeouts = io :: c'.timeouts ∧
      io.deadline ≤ reading ∧ fs = [.complete io.self none] := by
  cases call_eq_ok h with
  | schedule t => exact .inl rfl
  | makeSocket hmake => exact .inl (makeSocket_cases hmake).prepared.timeouts
  | makeSocketNative hmake =>
    obtain ⟨sockets, -, rfl⟩ := makeSocketNative_eq_ok hmake
    exact .inl rfl
  | release hrel => exact .inl (release_spec hI hrel).2.timeouts
  | runOne hrun =>
    cases runOne_cases hrun with
    | timer hlater ht =>
      obtain ⟨io, timeouts, hl, hdue, rfl, rfl⟩ := processTimeout_eq_some ht
      exact .inr ⟨io, _, _, _, rfl, hlater, hl, hdue, rfl⟩
    | task ht =>
      obtain ⟨t, tasks, -, rfl, -⟩ := processTask_eq_some ht
      exact .inl rfl
    | idle => exact .inl rfl
    | early => exact .inl rfl
    | failed => exact .inl rfl
    | stale => exact .inl rfl
    | completed _ hcomp =>
      obtain ⟨req, data, io, f, -, -, -, htouched, -, -⟩ := complete_cases hcomp hI.heap
      exact .inl htouched.prepared.timeouts

theorem submit_timeouts (h : c.submit io req = .ok (c', fs, r)) :
    c'.timeouts = c.timeouts ∨ ∃ t, io.op = .resumeAt t ∧ req.now < t ∧
      c'.timeouts = Timers.insert c.timeouts io := by
  cases submit_cases h with
  | ready => exact .inl rfl
  | timer hop hnow => exact .inr ⟨_, hop, hnow, rfl⟩
  | due => exact .inl rfl
  | failed _ hprep => exact .inl hprep.timeouts
  | accepted _ hprep => exact .inl hprep.timeouts

theorem retimed_of_step (hI : IocpInv m.ctx) (hz : ∀ o, (m.ops o).upstream = {})
    (hstep : m.step iocpBase l = some m') : Retimed m l m' := by
  rcases entry_of_step hz hstep with ⟨hctx, -⟩ | ⟨m₀, fs, hentry, rfl⟩
  · exact .same (by rw [hctx])
  have htail : (m₀.runFrames iocpBase fs).ctx.timeouts = m₀.ctx.timeouts :=
    runFrames_ctx_induct (P := fun c : IocpContext => c.timeouts = m₀.ctx.timeouts)
      (fun s hc => (popDeferred_timeouts _ s).trans hc) rfl
  generalize hc : m₀.ctx = c, m₀.stack = stack at hentry htail
  cases hentry with
  | submit _ hsub =>
    rcases submit_timeouts hsub with hsame | ⟨t, hop, hnow, hinsert⟩
    · exact .same (htail.trans hsame)
    · exact .started rfl hop hnow (htail.trans hinsert)
  | @cancel _ io a _ _ _ hcancel =>
    rcases cancel_cases (u := a) hcancel with ⟨timeouts, herase, rfl, rfl⟩ | ⟨-, rfl, -⟩
    · exact .cancelled (herase.trans (congrArg some htail.symm))
        (called_of_runFrames (by rw [exec, set_ops_self]; exact countDown_calls))
    · exact .same htail
  | unasked => exact .same htail
  | call hcall =>
    rcases call_timeouts hI hcall with
      hsame | ⟨io, now, reading, answer, rfl, hr, hfirst, hdue, rfl⟩
    · exact .same (htail.trans hsame)
    · exact .fired rfl hr (htail ▸ hfirst) hdue
        ⟨_, called_of_runFrames (by rw [exec, set_ops_self]; exact countDown_calls)⟩
  | ret => exact .same htail

theorem sorted_of_runs {os : Os} (h : Runs iocpBase Transition.free (initial os) m) :
    Timers.Sorted m.ctx.timeouts := by
  refine Reaches.invariant₂ (I := fun m : Machine IocpContext StorageId =>
    Timers.Sorted m.ctx.timeouts) h
    (fun m hm => And.intro (sound_of_runs hm).inv (Runs.never_started hm)) List.Pairwise.nil ?_
  rintro m l m' ⟨hI, hz⟩ hs - hstep
  cases retimed_of_step hI hz hstep with
  | same h => rwa [h]
  | started _ _ _ h => rw [h]; exact hs.insert _
  | cancelled herase => exact hs.erase? herase
  | fired _ _ hfirst =>
    rw [hfirst] at hs
    exact (List.pairwise_cons.1 hs).2

/-- The step in which the timer is completed, after a clock reading that is not before its deadline,
while no other is earlier. -/
structure FiresDue (m : Machine IocpContext StorageId) (l : Label Answers Unit IocpCall)
    (m' : Machine IocpContext StorageId) (io : IoBase) (reading : Time) : Prop where
  runOne : ∃ now answer, l = .call (.runOne now answer) ∧
    (reading = now ∨ answer = some (.timeout reading))
  due : io.deadline ≤ reading
  first : ∀ io' ∈ m.ctx.timeouts, io.deadline ≤ io'.deadline
  completed : ∃ v, .complete v ∈ (m'.ops io.self).calls

theorem mem_of_erase? {timeouts timeouts' : List IoBase}
    (h : Timers.erase? timeouts o = some timeouts') (hio : io ∈ timeouts) (hself : io.self ≠ o) :
    io ∈ timeouts' := by
  unfold Timers.erase? at h
  split_ifs at h
  cases h
  exact (List.mem_eraseP_of_neg (by simpa using hself)).2 hio

/-- What becomes of a pending timer in a step. -/
theorem Retimed.of_mem (h : Retimed m l m') (hs : Timers.Sorted m.ctx.timeouts)
    (hio : io ∈ m.ctx.timeouts) : io ∈ m'.ctx.timeouts ∨ .cancel ∈ (m'.ops io.self).calls ∨
      ∃ reading, FiresDue m l m' io reading := by
  cases h with
  | same h => exact .inl (h ▸ hio)
  | started _ _ _ h =>
    rw [h]
    exact .inl ((List.mem_orderedInsert _).2 (.inr hio))
  | @cancelled o herase hcalls =>
    by_cases hself : io.self = o
    · exact .inr (.inl (hself ▸ hcalls))
    · exact .inl (mem_of_erase? herase hio hself)
  | fired hl hreading hfirst hdue hcalls =>
    rw [hfirst] at hio hs
    rcases List.mem_cons.1 hio with rfl | hmem
    · exact .inr (.inr ⟨_, ⟨_, _, hl, hreading⟩, hdue,
        fun io' hio' => hs.first_le (hfirst ▸ hio'), hcalls⟩)
    · exact .inl hmem

/-- A timer that is new was started before its deadline. -/
theorem Retimed.of_not_mem (h : Retimed m l m') (hio : io ∈ m'.ctx.timeouts)
    (hnot : io ∉ m.ctx.timeouts) :
    ∃ req a, l = .start io req false a ∧ ∃ t, io.op = .resumeAt t ∧ req.now < t := by
  cases h with
  | same h => exact absurd (h ▸ hio) hnot
  | started hl hop hnow h =>
    rw [h] at hio
    rcases (List.mem_orderedInsert _).1 hio with rfl | hmem
    · exact ⟨_, _, hl, _, hop, hnow⟩
    · exact absurd hmem hnot
  | cancelled herase =>
    obtain ⟨io', -, hperm⟩ := erase?_eq_some herase
    exact absurd (hperm.mem_iff.2 (List.mem_cons_of_mem _ hio)) hnot
  | fired _ _ hfirst =>
    rw [hfirst] at hnot
    exact absurd (List.mem_cons_of_mem _ hio) hnot

/-- A pending timer was not called. -/
theorem calls_of_pending (hS : iocpLedger.Sound False False m) (hstatus : m.status = none)
    (hio : io ∈ m.ctx.timeouts) : (m.ops io.self).calls = [] := by
  have hheld : 0 < m.ctx.held io.self :=
    Nat.add_pos_right _ (occurrences_pos.2 ⟨io, hio, rfl⟩)
  cases hS.phase hstatus io.self with
  | idle _ hz => exact absurd hz (Nat.ne_of_gt hheld)
  | refused _ hz => exact absurd hz (Nat.ne_of_gt hheld)
  | done hd => exact absurd hd.held (Nat.ne_of_gt hheld)
  | live hl =>
    have honce : m.ctx.held io.self + (m.ops io.self).calls.length ≤ 1 := hl.once
    exact List.eq_nil_of_length_eq_zero (by omega)

/-- **Timers fire when they are due, in order, and are not slept past**, in every run: a pending
timer was not called, and stays pending until it is cancelled or `run_one` completes it after a
clock reading that is not before its deadline, the earliest of all; only `resume_at` adds one, and
before its deadline; and `run_one` does not wait longer than to the first deadline. -/
theorem timers_fire_when_due (os : Os) (m : Machine IocpContext StorageId)
    (h : Runs iocpBase Transition.free (initial os) m) :
    (∀ now, WaitRight m.ctx now) ∧
    (m.status = none → ∀ io ∈ m.ctx.timeouts, (m.ops io.self).calls = []) ∧
    ∀ l m', m.step iocpBase l = some m' →
      (∀ io ∈ m.ctx.timeouts, io ∈ m'.ctx.timeouts ∨ .cancel ∈ (m'.ops io.self).calls ∨
        ∃ reading, FiresDue m l m' io reading) ∧
      ∀ io ∈ m'.ctx.timeouts, io ∉ m.ctx.timeouts → ∃ req a, l = .start io req false a ∧
        ∃ t, io.op = .resumeAt t ∧ req.now < t := by
  have hs := sorted_of_runs h
  refine ⟨waitRight_of_sorted hs, fun hstatus io hio => ?_, fun l m' hstep => ?_⟩
  · exact calls_of_pending (sound_of_runs h) hstatus hio
  · have hretimed := retimed_of_step (sound_of_runs h).inv (Runs.never_started h) hstep
    exact ⟨fun io => hretimed.of_mem hs, fun io => hretimed.of_not_mem⟩

/-- Two timers, the later one started first. -/
def twoTimers : List (Label Answers Unit IocpCall) :=
  [.start ⟨1, .resumeAt 5000000⟩ { now := 0 } false (),
    .start ⟨2, .resumeAt 3000000⟩ { now := 0 } false ()]

/-- `run_one` waits for the earlier one, and completes it when the time is over. -/
theorem timers_fire_when_due_twoTimers : ∃ m m',
    run (Machine.step iocpBase) { ctx := initial {} } twoTimers = some m ∧
      m.ctx.timeoutMs 0 = 3 ∧ WaitRight m.ctx 0 ∧ (m.ops 2).calls = [] ∧
      m.step iocpBase (.call (.runOne 0 (some (.timeout 3000000)))) = some m' ∧
      ∃ reading, FiresDue m (.call (.runOne 0 (some (.timeout 3000000)))) m'
        ⟨2, .resumeAt 3000000⟩ reading := by
  obtain ⟨m, hrun, hms, hstatus, htimeouts, m', hstep, htimeouts', hcalls'⟩ : ∃ m,
      run (Machine.step iocpBase) { ctx := initial {} } twoTimers = some m ∧
      m.ctx.timeoutMs 0 = 3 ∧ m.status = none ∧
      m.ctx.timeouts = [⟨2, .resumeAt 3000000⟩, ⟨1, .resumeAt 5000000⟩] ∧ ∃ m',
      m.step iocpBase (.call (.runOne 0 (some (.timeout 3000000)))) = some m' ∧
      m'.ctx.timeouts = [⟨1, .resumeAt 5000000⟩] ∧ (m'.ops 2).calls = [.complete .unit] :=
    ⟨_, rfl, rfl, rfl, rfl, _, rfl, rfl, rfl⟩
  have hmem : (⟨2, .resumeAt 3000000⟩ : IoBase) ∈ m.ctx.timeouts := by
    rw [htimeouts]
    exact List.mem_cons_self
  obtain ⟨hwait, hcalls, hkept⟩ := timers_fire_when_due {} m (reaches_free_of_run hrun)
  rcases (hkept _ m' hstep).1 _ hmem with hstays | hcancelled | hfires
  · rw [htimeouts'] at hstays
    cases List.mem_singleton.1 hstays
  · rw [hcalls'] at hcancelled
    cases List.mem_singleton.1 hcancelled
  · exact ⟨m, m', hrun, hms, hwait 0, hcalls hstatus _ hmem, hstep, hfires⟩

end IocpContext

end Net29
