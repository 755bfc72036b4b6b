import Net29.Uring.Ledger

/-!
# Interrupted calls of `uring_context`

`io_uring_submit`, `io_uring_submit_and_wait` and `io_uring_wait_cqe` can be interrupted or refused
for now. A caller that makes the call again gets its result in the end; `submit` and `wait` throw at
the first failure.

* `Attempts`: what the system answers to a call that is made until it succeeds, with the answer
  that the context gets (`first`) and the one that repetition would get (`last`);
* `RingLabel`, `RingLabel.answers`: what can happen next, with the attempts of every ring call;
* `attempted`: the ring calls that a step makes;
* `Interruption`, `InterruptionStep`: a call or a step under the first answers, against the same
  under the last ones;
* `Uninterrupted`: no ring call that a run makes fails at first;
* `interrupted_iff`: exactly such runs go on as they would with repetition; in any other the process
  is terminated.
-/

namespace Net29

open Transition Machine

/-- A failure after which the call can be made again. -/
inductive Transient
  | EINTR
  | EAGAIN
  | EBUSY
  deriving DecidableEq, Repr

/-- The negative result that reports it. -/
def Transient.code : Transient → ℤ
  | .EINTR => -Errno.EINTR
  | .EAGAIN => -Errno.EAGAIN
  | .EBUSY => -Errno.EBUSY

/-- The answers to a call of the ring that is made until it succeeds. -/
structure Attempts where
  failed : List Transient := []
  result : ℕ := 0
  deriving DecidableEq, Repr

/-- The answer to the first attempt. -/
def Attempts.first (a : Attempts) : ℤ :=
  match a.failed with
  | [] => a.result
  | e :: _ => e.code

/-- The answer to the last attempt. -/
def Attempts.last (a : Attempts) : ℤ := a.result

theorem Attempts.first_of_clean {a : Attempts} (h : a.failed = []) : a.first = a.last := by
  unfold first last
  rw [h]

theorem Attempts.first_neg {a : Attempts} (h : a.failed ≠ []) : a.first < 0 := by
  unfold first
  split
  · next hnil => exact absurd hnil h
  · next e _ _ => cases e <;> decide

/-- `UringRequest` with attempts. -/
structure RingRequest where
  flush : List Attempts := []
  submit : Attempts := {}

def RingRequest.answers (f : Attempts → ℤ) (req : RingRequest) : UringRequest :=
  ⟨req.flush.map f, f req.submit⟩

/-- `UringCall` with attempts. -/
inductive RingCall
  | runOne (submitted : Attempts) (posts : List Post) (waited : Attempts)
  | post (p : Post)
  | schedule (t : TaskId)
  | makeSocket (answer : SysAnswer)
  | makeSocketNative (fd : Fd)
  | release (id : SocketId) (answer : Option Errno)

def RingCall.answers (f : Attempts → ℤ) : RingCall → UringCall
  | .runOne submitted posts waited => .runOne (f submitted) posts (f waited)
  | .post p => .post p
  | .schedule t => .schedule t
  | .makeSocket answer => .makeSocket answer
  | .makeSocketNative fd => .makeSocketNative fd
  | .release id answer => .release id answer

/-- What can happen next, with the attempts of every ring call that may be made. -/
abbrev RingLabel := Label RingRequest (List Attempts) RingCall

/-- The label with one answer to each call. -/
def RingLabel.answers (f : Attempts → ℤ) : RingLabel → Label UringRequest (List ℤ) UringCall
  | .start io req stopped a => .start io (req.answers f) stopped (a.map f)
  | .stop o a => .stop o (a.map f)
  | .call k => .call (k.answers f)
  | .ret => .ret
  | .upstream io u req stopped a => .upstream io u (req.answers f) stopped (a.map f)

/-! ### The ring calls that are made -/

/-- No call failed at first. -/
def Clean (made : List Attempts) : Prop := ∀ a ∈ made, a.failed = []

instance (made : List Attempts) : Decidable (Clean made) :=
  inferInstanceAs (Decidable (∀ a ∈ made, a.failed = []))

@[simp] theorem clean_nil : Clean [] := fun _ h => by cases h

theorem clean_append {made made' : List Attempts} :
    Clean (made ++ made') ↔ Clean made ∧ Clean made' := by
  simp only [Clean, List.mem_append, or_imp, forall_and]

namespace UringContext

/-- The submissions of `get_sqe`, for a queue of `length` entries. -/
def flushAttempts (length : ℕ) : List Attempts → List Attempts
  | [] => []
  | a :: as => if length < QUEUE_DEPTH then [] else a :: flushAttempts (length - a.result) as

/-- The ring calls of a submission: a timer is submitted at once. -/
def submitAttempts (c : UringContext) (io : IoBase) (req : RingRequest) : List Attempts :=
  match io.op with
  | .resumeAt _ => flushAttempts c.sq.length req.flush ++ [req.submit]
  | .accept _ _ | .connect _ _ | .receive _ _ | .send _ _ => flushAttempts c.sq.length req.flush
  | .poll _ _ => []

/-- The ring calls of the stop callback of an operation. -/
def stopAttempts (c : UringContext) (s : SenderState) (a : List Attempts) : List Attempts :=
  if 1 < s.invoke.outstanding then flushAttempts c.sq.length a else []

/-- The ring calls of `start`. -/
def startAttempts (c : UringContext) (s : SenderState) (io : IoBase) (req : RingRequest)
    (stopped : Bool) (a : List Attempts) : List Attempts :=
  if stopped then c.stopAttempts (s.begin io.op true) a else c.submitAttempts io req

/-- The ring calls of `run_one`, unless there is a task: `submit_and_wait` for what is queued, and
`wait_cqe` while something is outstanding. -/
def callAttempts (c : UringContext) : RingCall → List Attempts
  | .runOne submitted _ waited =>
    if c.processTask.isSome then []
    else (if c.submitting ≠ 0 then [submitted] else []) ++
      if c.outstanding ≠ 0 then [waited] else []
  | _ => []

end UringContext

/-- The ring calls of a step. -/
def attempted (m : Machine UringContext Empty) : RingLabel → List Attempts
  | .start io req stopped a => m.ctx.startAttempts (m.ops io.self) io req stopped a
  | .stop o a => m.ctx.stopAttempts (m.ops o) a
  | .call k => m.ctx.callAttempts k
  | .ret => []
  | .upstream io .value req stopped a => m.ctx.startAttempts (m.ops io.self) io req stopped a
  | .upstream _ _ _ _ _ => []

/-! ### Calls -/

/-- `seen` is a call under the first answers, `retried` the same under the last ones. They agree
when no ring call failed at first; otherwise an exception leaves a `noexcept` function. -/
structure Interruption {β : Type} (made : List Attempts) (seen retried : Exec β) : Prop where
  clean : Clean made → seen = retried
  failed : ∀ b, retried = .ok b → ¬ Clean made → seen = .error .terminate

namespace Interruption

variable {β γ : Type} {made made' : List Attempts} {x x' : Exec β}

theorem same (x : Exec β) : Interruption [] x x where
  clean _ := rfl
  failed _ _ h := absurd clean_nil h

/-- A sequence of two calls. -/
theorem bind {f f' : β → Exec γ} (h : Interruption made x x')
    (hf : ∀ b, x' = .ok b → Interruption made' (f b) (f' b)) :
    Interruption (made ++ made') (x >>= f) (x' >>= f') where
  clean hclean := by
    obtain ⟨hmade, hmade'⟩ := clean_append.1 hclean
    rw [h.clean hmade]
    cases hx : x' with
    | error e => rfl
    | ok b => exact (hf b hx).clean hmade'
  failed y hy hnot := by
    obtain ⟨b, hx, hb⟩ := Exec.bind_eq_ok.1 hy
    by_cases hmade : Clean made
    · rw [h.clean hmade, hx]
      refine (hf b hx).failed y hb fun hmade' => ?_
      exact hnot (clean_append.2 ⟨hmade, hmade'⟩)
    · rw [h.failed b hx hmade]
      rfl

/-- Nothing more is asked of the ring. -/
theorem bind_same (h : Interruption made x x') (f : β → Exec γ) :
    Interruption made (x >>= f) (x' >>= f) := by
  have hbind : Interruption (made ++ []) (x >>= f) (x' >>= f) := h.bind fun b _ => same (f b)
  rwa [List.append_nil] at hbind

theorem same_bind {f f' : β → Exec γ} (hf : ∀ b, x = .ok b → Interruption made (f b) (f' b)) :
    Interruption made (x >>= f) (x >>= f') :=
  (same x).bind hf

theorem map (h : Interruption made x x') (f : β → γ) : Interruption made (x.map f) (x'.map f) where
  clean hclean := by rw [h.clean hclean]
  failed y hy hnot := by
    obtain ⟨b, hx, -⟩ := Exec.map_eq_ok.1 hy
    rw [h.failed b hx hnot]
    rfl

end Interruption

namespace UringContext

variable {c c' : UringContext}

/-- A call of the ring whose failure is thrown. -/
theorem ring_interruption {β : Type} {f : ℤ → Exec β} (hf : ∀ r < 0, f r = .error .terminate)
    (a : Attempts) : Interruption [a] (f a.first) (f a.last) where
  clean h := by rw [Attempts.first_of_clean (h a List.mem_cons_self)]
  failed _ _ h := hf _ (Attempts.first_neg fun hnil => h (by simpa [Clean] using hnil))

theorem submitSq_interruption (c : UringContext) (a : Attempts) :
    Interruption [a] (c.submitSq a.first) (c.submitSq a.last) :=
  ring_interruption (fun r hr => by rw [submitSq, if_pos hr]) a

theorem wait_interruption (c : UringContext) (a : Attempts) :
    Interruption [a] (c.wait a.first) (c.wait a.last) :=
  ring_interruption (fun r hr => by rw [wait, if_pos hr]) a

theorem submitSq_length {a : Attempts} (h : c.submitSq a.last = .ok c') :
    c'.sq.length = c.sq.length - a.result := by
  unfold submitSq at h
  split_ifs at h
  cases h
  simp [consume, Attempts.last]

/-- `get_sqe`, by induction on the rounds of its loop. -/
theorem getSqe_interruption (c : UringContext) (flush : List Attempts) :
    Interruption (flushAttempts c.sq.length flush) (c.getSqe (flush.map Attempts.first))
      (c.getSqe (flush.map Attempts.last)) := by
  induction flush generalizing c with
  | nil => exact .same _
  | cons a as ih =>
    simp only [flushAttempts, List.map_cons, getSqe]
    by_cases hroom : c.sq.length < QUEUE_DEPTH
    · simp only [if_pos hroom]
      exact .same _
    · simp only [if_neg hroom]
      have hrest : ∀ c₁, c.submitSq a.last = .ok c₁ →
          Interruption (flushAttempts (c.sq.length - a.result) as)
            (c₁.getSqe (as.map Attempts.first)) (c₁.getSqe (as.map Attempts.last)) := by
        intro c₁ hc₁
        rw [← submitSq_length hc₁]
        exact ih c₁
      exact (submitSq_interruption c a).bind hrest

theorem submitSocket_interruption (c : UringContext) (io : IoBase) (call : Syscall) (len : ℕ)
    (flush : List Attempts) :
    Interruption (flushAttempts c.sq.length flush)
      (c.submitSocket io call len (flush.map Attempts.first))
      (c.submitSocket io call len (flush.map Attempts.last)) :=
  (getSqe_interruption (c.record io) flush).bind_same _

theorem resumeAt_interruption (c : UringContext) (io : IoBase) (time : Time) (req : RingRequest) :
    Interruption (flushAttempts c.sq.length req.flush ++ [req.submit])
      (c.resumeAt io time (req.answers Attempts.first))
      (c.resumeAt io time (req.answers Attempts.last)) :=
  (getSqe_interruption c req.flush).bind fun _ _ => (submitSq_interruption _ _).bind_same _

theorem submit_interruption (c : UringContext) (io : IoBase) (req : RingRequest) :
    Interruption (c.submitAttempts io req) (c.submit io (req.answers Attempts.first))
      (c.submit io (req.answers Attempts.last)) := by
  unfold submitAttempts submit
  cases io.op with
  | resumeAt time => exact resumeAt_interruption c io time req
  | poll => exact .same _
  | _ => exact submitSocket_interruption c io _ _ req.flush

theorem cancel_interruption (c : UringContext) (io : IoBase) (flush : List Attempts) :
    Interruption (flushAttempts c.sq.length flush) (c.cancel io (flush.map Attempts.first))
      (c.cancel io (flush.map Attempts.last)) :=
  (getSqe_interruption c flush).bind_same _

theorem flush_interruption (c : UringContext) (submitted : Attempts) :
    Interruption (if c.submitting ≠ 0 then [submitted] else []) (c.flush submitted.first)
      (c.flush submitted.last) := by
  unfold flush
  by_cases hsub : c.submitting ≠ 0
  · simp only [if_pos hsub]
    exact submitSq_interruption c submitted
  · simp only [if_neg hsub]
    exact .same _

theorem flush_outstanding {k : ℤ} (h : c.flush k = .ok c') : c'.outstanding = c.outstanding := by
  unfold flush at h
  split_ifs at h
  · obtain ⟨n, -, -, rfl⟩ := submitSq_eq_ok h
    rfl
  · cases h
    rfl

theorem postAll_outstanding {posts : List Post} (h : c.postAll posts = .ok c') :
    c'.outstanding = c.outstanding := by
  refine postAll_induct (P := fun c' => c'.outstanding = c.outstanding) ?_ rfl h
  intro c₁ c₂ p hc₁ hpost
  obtain ⟨sqe, os, -, -, rfl⟩ := post_eq_ok hpost
  exact hc₁

/-- `run_one`, which submits and waits. -/
theorem runOne_interruption (c : UringContext) (submitted : Attempts) (posts : List Post)
    (waited : Attempts) :
    Interruption (c.callAttempts (.runOne submitted posts waited))
      (c.runOne submitted.first posts waited.first)
      (c.runOne submitted.last posts waited.last) := by
  unfold callAttempts runOne
  cases htask : c.processTask with
  | some r => exact .same _
  | none =>
    refine (flush_interruption c submitted).bind fun c₁ hc₁ => ?_
    refine Interruption.same_bind fun c₂ hc₂ => ?_
    have hout : c.outstanding = c₂.outstanding := by
      rw [postAll_outstanding hc₂, flush_outstanding hc₁]
    by_cases hidle : c₂.outstanding = 0
    · rw [if_pos hidle, if_pos hidle, if_neg (by rw [hout, hidle]; simp)]
      exact .same _
    · rw [if_neg hidle, if_neg hidle, if_pos (by rwa [hout])]
      exact (wait_interruption c₂ waited).bind_same _

theorem call_interruption (c : UringContext) (k : RingCall) :
    Interruption (c.callAttempts k) (uringBase.call c (k.answers Attempts.first))
      (uringBase.call c (k.answers Attempts.last)) := by
  cases k with
  | runOne submitted posts waited => exact (runOne_interruption c submitted posts waited).map _
  | _ => exact .same _

end UringContext

/-! ### Steps -/

variable {m m' : Machine UringContext Empty} {made : List Attempts}

/-- `seen` is a step under the first answers, `retried` the same under the last ones, after which
the process still runs. -/
structure InterruptionStep (made : List Attempts)
    (seen retried : Option (Machine UringContext Empty)) : Prop where
  clean : Clean made → seen = retried
  failed : ∀ m', retried = some m' → m'.status = none → ¬ Clean made →
    ∃ m'', seen = some m'' ∧ m''.status = some .terminate

theorem InterruptionStep.none (made : List Attempts) :
    InterruptionStep made (none : Option (Machine UringContext Empty)) .none where
  clean _ := rfl
  failed _ h := by cases h

theorem InterruptionStep.same (x : Option (Machine UringContext Empty)) :
    InterruptionStep [] x x where
  clean _ := rfl
  failed _ _ _ h := absurd clean_nil h

theorem perform_interruption {x x' : Exec (UringContext × List (Frame Empty))}
    (m : Machine UringContext Empty) (h : Interruption made x x') :
    InterruptionStep made (m.perform uringBase x) (m.perform uringBase x') where
  clean hclean := by rw [h.clean hclean]
  failed m' hm' hstatus hnot := by
    rcases perform_eq_some hm' with ⟨c, fs, hx, -⟩ | ⟨e, -, rfl⟩
    · rw [h.failed _ hx hnot]
      exact ⟨_, rfl, rfl⟩
    · cases hstatus

/-- The stop callback asks the context to cancel, under either answers in the same state. -/
theorem stopCallback_interruption (m : Machine UringContext Empty) (o : OpId)
    (a : List Attempts) :
    (m.stopCallback uringBase o (a.map Attempts.first)).1 =
        (m.stopCallback uringBase o (a.map Attempts.last)).1 ∧
      Interruption (m.ctx.stopAttempts (m.ops o) a)
        (m.stopCallback uringBase o (a.map Attempts.first)).2
        (m.stopCallback uringBase o (a.map Attempts.last)).2 := by
  unfold stopCallback UringContext.stopAttempts
  dsimp only
  by_cases hask : 1 < (m.ops o).invoke.outstanding
  · simp only [if_pos hask]
    exact ⟨trivial, UringContext.cancel_interruption _ _ _⟩
  · simp only [if_neg hask]
    exact ⟨trivial, .same _⟩

theorem start_interruption (m : Machine UringContext Empty) (io : IoBase) (req : RingRequest)
    (stopped : Bool) (a : List Attempts) :
    InterruptionStep (m.ctx.startAttempts (m.ops io.self) io req stopped a)
      (m.start uringBase io (req.answers Attempts.first) stopped (a.map Attempts.first))
      (m.start uringBase io (req.answers Attempts.last) stopped (a.map Attempts.last)) := by
  unfold UringContext.startAttempts start
  cases stopped with
  | true =>
    obtain ⟨hsame, hcancel⟩ := stopCallback_interruption
      (m.set io.self ((m.ops io.self).begin io.op true)) io.self a
    rw [set_ops_self] at hcancel
    simp only [if_true, hsame]
    exact perform_interruption _ (hcancel.map _)
  | false =>
    have hsub : Interruption (m.ctx.submitAttempts io req)
        (uringBase.submit m.ctx io (req.answers Attempts.first))
        (uringBase.submit m.ctx io (req.answers Attempts.last)) :=
      UringContext.submit_interruption m.ctx io req
    simp only [Bool.false_eq_true, if_false, set_ctx]
    refine ⟨fun hclean => by rw [hsub.clean hclean], fun m' hm' hstatus hnot => ?_⟩
    cases hx : uringBase.submit m.ctx io (req.answers Attempts.last) with
    | ok r =>
      rw [hsub.failed r hx hnot]
      exact ⟨_, rfl, rfl⟩
    | error e =>
      -- a call that does not return ends the process, or the step is not over
      rw [hx] at hm'
      cases e <;> cases hm' <;> cases hstatus

theorem step_interruption (m : Machine UringContext Empty) (l : RingLabel) :
    InterruptionStep (attempted m l) (m.step uringBase (l.answers Attempts.first))
      (m.step uringBase (l.answers Attempts.last)) := by
  unfold step
  by_cases hrun : m.status.isSome
  · simp only [if_pos hrun]
    exact .none _
  simp only [if_neg hrun]
  cases l with
  | start io req stopped a =>
    simp only [RingLabel.answers]
    by_cases hlog : (m.ops io.self).log = []
    · simp only [if_pos hlog]
      exact start_interruption m io req stopped a
    · simp only [if_neg hlog]
      exact .none _
  | stop o a =>
    simp only [RingLabel.answers]
    by_cases hcallback : (m.ops o).callback = .registered
    · obtain ⟨hsame, hcancel⟩ := stopCallback_interruption m o a
      simp only [if_pos hcallback, hsame]
      exact perform_interruption _ hcancel
    · simp only [if_neg hcallback]
      exact .none _
  | call k => exact perform_interruption m (UringContext.call_interruption m.ctx k)
  | ret => exact .same _
  | upstream io u req stopped a =>
    simp only [RingLabel.answers]
    by_cases hup : 0 < (m.ops io.self).upstream.starts ∧ (m.ops io.self).upstream.sent = none
    · simp only [if_pos hup]
      cases u with
      | value =>
        have hstart := start_interruption (m.set io.self { m.ops io.self with
          upstream := { (m.ops io.self).upstream with sent := some .value } }) io req stopped a
        rw [set_ops_self] at hstart
        exact hstart
      | error e => exact .same _
      | stopped => exact .same _
    · simp only [if_neg hup]
      exact .none _

/-! ### Runs -/

/-- No ring call that the run makes fails at first. -/
def Uninterrupted (m : Machine UringContext Empty) : List RingLabel → Prop
  | [] => True
  | l :: ls => Clean (attempted m l) ∧
      ∀ m', m.step uringBase (l.answers Attempts.last) = some m' → Uninterrupted m' ls

/-- Uninterrupted runs are as with repetition. -/
theorem Uninterrupted.run_eq {ls : List RingLabel} (h : Uninterrupted m ls) :
    run (step uringBase) m (ls.map (RingLabel.answers Attempts.first)) =
      run (step uringBase) m (ls.map (RingLabel.answers Attempts.last)) := by
  induction ls generalizing m with
  | nil => rfl
  | cons l ls ih =>
    simp only [List.map_cons, run_cons]
    rw [(step_interruption m l).clean h.1]
    cases hstep : m.step uringBase (l.answers Attempts.last) with
    | none => rfl
    | some m₁ => exact ih (h.2 m₁ hstep)

/-- A run can only be over in a process that runs if it ran all the time. -/
theorem status_of_run {ls : List (Label UringRequest (List ℤ) UringCall)}
    (h : run (step uringBase) m ls = some m') (hs : m'.status = none) : m.status = none := by
  cases ls with
  | nil => cases h; exact hs
  | cons l ls =>
    obtain ⟨m₁, hstep, -⟩ := Option.bind_eq_some_iff.1 h
    exact status_of_step hstep

/-- Otherwise the process is terminated at the first ring call that fails. -/
theorem terminated_of_not_uninterrupted {ls : List RingLabel}
    (h : run (step uringBase) m (ls.map (RingLabel.answers Attempts.last)) = some m')
    (hs : m'.status = none) (hnot : ¬ Uninterrupted m ls) :
    ∃ ls₁ ls₂ m'', ls = ls₁ ++ ls₂ ∧
      run (step uringBase) m (ls₁.map (RingLabel.answers Attempts.first)) = some m'' ∧
      m''.status = some .terminate := by
  induction ls generalizing m with
  | nil => exact absurd trivial hnot
  | cons l ls ih =>
    obtain ⟨m₁, hstep, hrun⟩ := Option.bind_eq_some_iff.1 h
    by_cases hclean : Clean (attempted m l)
    · have hrest : ¬ Uninterrupted m₁ ls := by
        intro hun
        refine hnot ⟨hclean, fun m₂ hm₂ => ?_⟩
        rw [hstep] at hm₂
        cases hm₂
        exact hun
      obtain ⟨ls₁, ls₂, m'', rfl, hrun₁, hterm⟩ := ih hrun hrest
      refine ⟨l :: ls₁, ls₂, m'', rfl, ?_, hterm⟩
      rw [List.map_cons, run_cons, (step_interruption m l).clean hclean, hstep]
      exact hrun₁
    · obtain ⟨m'', hseen, hterm⟩ :=
        (step_interruption m l).failed m₁ hstep (status_of_run hrun hs) hclean
      refine ⟨[l], ls, m'', rfl, ?_, hterm⟩
      rw [List.map_singleton, run_cons, hseen]
      rfl

/-- A terminated process makes no step. -/
theorem eq_of_run_of_status {ls : List (Label UringRequest (List ℤ) UringCall)}
    (h : run (step uringBase) m ls = some m') (hs : m.status.isSome) : m' = m := by
  cases ls with
  | nil => cases h; rfl
  | cons l ls =>
    obtain ⟨m₁, hstep, -⟩ := Option.bind_eq_some_iff.1 h
    rw [status_of_step hstep] at hs
    cases hs

/-- **Interrupted calls.** Runs without interruptions and refusals of the calls that they make are
as with repetition of the calls. Where repetition would go on, any other run does not: an exception
leaves a `noexcept` function at the first such call. -/
theorem interrupted_iff (os : Os) (ls : List RingLabel) :
    (Uninterrupted { ctx := UringContext.initial os } ls →
      run (step uringBase) { ctx := UringContext.initial os }
          (ls.map (RingLabel.answers Attempts.first)) =
        run (step uringBase) { ctx := UringContext.initial os }
          (ls.map (RingLabel.answers Attempts.last))) ∧
    ∀ m', run (step uringBase) { ctx := UringContext.initial os }
        (ls.map (RingLabel.answers Attempts.last)) = some m' → m'.status = none →
      (run (step uringBase) { ctx := UringContext.initial os }
          (ls.map (RingLabel.answers Attempts.first)) = some m' ↔
        Uninterrupted { ctx := UringContext.initial os } ls) ∧
      (¬ Uninterrupted { ctx := UringContext.initial os } ls → ∃ ls₁ ls₂ m'', ls = ls₁ ++ ls₂ ∧
        run (step uringBase) { ctx := UringContext.initial os }
          (ls₁.map (RingLabel.answers Attempts.first)) = some m'' ∧
        m''.status = some .terminate) := by
  refine ⟨Uninterrupted.run_eq, fun m' hrun hs => ⟨⟨fun hseen => ?_, fun hun => ?_⟩, ?_⟩⟩
  · by_contra hnot
    obtain ⟨ls₁, ls₂, m'', rfl, hfirst, hterm⟩ := terminated_of_not_uninterrupted hrun hs hnot
    rw [List.map_append, run_append, hfirst] at hseen
    obtain rfl := eq_of_run_of_status hseen (by rw [hterm]; rfl)
    rw [hs] at hterm
    cases hterm
  · rw [hun.run_eq, hrun]
  · exact terminated_of_not_uninterrupted hrun hs

/-- A receive operation, with the attempts at `io_uring_submit_and_wait`. -/
def receiveOnce (submitted : Attempts) : List RingLabel :=
  [.call (.makeSocket (.ok 3 [])), .start ⟨1, .receive 0 [8]⟩ {} false [],
    .call (.runOne submitted [⟨0, 5, []⟩] {})]

/-- Both ring calls succeed at once; or a signal arrives in the first of them. -/
theorem interrupted_iff_receive :
    (∃ m', run (step uringBase) { ctx := UringContext.initial {} }
        ((receiveOnce ⟨[], 1⟩).map (RingLabel.answers Attempts.first)) = some m' ∧
      m'.status = none ∧ (m'.ops 1).calls = [.complete (.size 5)]) ∧
    ∃ ls₁ ls₂ m'', receiveOnce ⟨[.EINTR], 1⟩ = ls₁ ++ ls₂ ∧
      run (step uringBase) { ctx := UringContext.initial {} }
        (ls₁.map (RingLabel.answers Attempts.first)) = some m'' ∧
      m''.status = some .terminate := by
  -- the answers are the same with repetition
  obtain ⟨m', hlast, hs, hcalls⟩ : ∃ m', run (step uringBase) { ctx := UringContext.initial {} }
        [.call (.makeSocket (.ok 3 [])), .start ⟨1, .receive 0 [8]⟩ {} false [],
          .call (.runOne 1 [⟨0, 5, []⟩] 0)] = some m' ∧
      m'.status = none ∧ (m'.ops 1).calls = [.complete (.size 5)] := ⟨_, rfl, rfl, rfl⟩
  constructor
  · have hun : Uninterrupted { ctx := UringContext.initial {} } (receiveOnce ⟨[], 1⟩) := by
      refine ⟨by decide, fun m₁ hm₁ => ?_⟩
      cases hm₁
      refine ⟨by decide, fun m₂ hm₂ => ?_⟩
      cases hm₂
      exact ⟨by decide, fun _ _ => trivial⟩
    exact ⟨m', ((interrupted_iff {} (receiveOnce ⟨[], 1⟩)).2 m' hlast hs).1.2 hun, hs, hcalls⟩
  · refine ((interrupted_iff {} (receiveOnce ⟨[.EINTR], 1⟩)).2 m' hlast hs).2 fun hun => ?_
    have hclean := ((hun.2 _ rfl).2 _ rfl).1
    exact absurd hclean (by decide)

theorem not_repeated :
    ¬ ∀ (os : Os) (ls : List RingLabel) (m' : Machine UringContext Empty),
      run (step uringBase) { ctx := UringContext.initial os }
        (ls.map (RingLabel.answers Attempts.last)) = some m' → m'.status = none →
      run (step uringBase) { ctx := UringContext.initial os }
        (ls.map (RingLabel.answers Attempts.first)) = some m' := by
  intro h
  have hlast : (run (step uringBase) { ctx := UringContext.initial {} }
      ((receiveOnce ⟨[.EINTR], 1⟩).map (RingLabel.answers Attempts.last))).map Machine.status =
        some none := by decide
  have hfirst : (run (step uringBase) { ctx := UringContext.initial {} }
      ((receiveOnce ⟨[.EINTR], 1⟩).map (RingLabel.answers Attempts.first))).map Machine.status =
        some (some .terminate) := by decide
  obtain ⟨m', hrun, hs⟩ := Option.map_eq_some_iff.1 hlast
  rw [h {} (receiveOnce ⟨[.EINTR], 1⟩) m' hrun hs, Option.map_some, hs] at hfirst
  cases hfirst

end Net29
