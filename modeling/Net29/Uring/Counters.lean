import Net29.Uring.Ledger

/-!
# The counters of `uring_context`

* `CountersExact`: `submitting` is the number of entries acquired and not consumed, `outstanding`
  that of the completions to come;
* `Awaits`: `run_one` calls `io_uring_wait_cqe`, and `awaits_of_blocked`;
* `counters_exact`: in every state reached the counters are exact, so that no assertion about them
  fails, `run_one` only waits for what is to come, and returns 0 only when nothing is.
-/

namespace Net29

open Machine Transition

namespace UringContext

variable {c c' c₁ : UringContext} {io : IoBase} {cqe : Cqe} {req : UringRequest}
  {flush : List ℤ} {submitted waited : ℤ} {posts : List Post} {fs : List (Frame Empty)}

/-- The completion pointers of the entries consumed whose completion was not read. -/
def consumed (c : UringContext) : List Completion := c.inflight.map Sqe.data ++ c.cq.map Cqe.data

/-- Both counters are what the comments beside them say. -/
structure CountersExact (c : UringContext) : Prop where
  submitting : c.submitting = c.sq.length
  outstanding : c.outstanding = c.submitting + c.consumed.length

theorem UringInv.exact (hI : UringInv c) : CountersExact c where
  submitting := hI.submitting
  outstanding := by
    rw [hI.outstanding, hI.submitting, pointers, consumed]
    simp only [List.length_append, List.length_map]
    omega

/-! ### Assertions -/

/-- No more entries are consumed than were counted. -/
theorem submitSq_ne_assertion (hI : UringInv c) (r : ℤ) : c.submitSq r ≠ .error .assertion := by
  have hsub := hI.submitting
  unfold submitSq
  split_ifs with hneg hlen hcount
  · simp
  · simp
  · omega
  · simp

/-- The loop of `get_sqe`, by induction on the results of `submit`. -/
theorem getSqe_ne_assertion (hI : UringInv c) (flush : List ℤ) :
    c.getSqe flush ≠ .error .assertion := by
  induction flush generalizing c with
  | nil =>
    rw [getSqe]
    split_ifs <;> simp
  | cons r rs ih =>
    rw [getSqe]
    split_ifs with hroom
    · simp
    · intro h
      rcases Exec.bind_eq_error.1 h with h | ⟨c₁, hsub, h⟩
      · exact submitSq_ne_assertion hI r h
      · obtain ⟨n, -, -, rfl⟩ := submitSq_eq_ok hsub
        exact ih (hI.consume n) h

theorem cancel_ne_assertion (hI : UringInv c) : c.cancel io flush ≠ .error .assertion := by
  intro h
  rcases Exec.bind_eq_error.1 h with h | ⟨c₁, -, h⟩
  · exact getSqe_ne_assertion hI flush h
  · cases h

theorem resumeAt_ne_assertion (hI : UringInv c) {time : Time} :
    c.resumeAt io time req ≠ .error .assertion := by
  intro h
  rcases Exec.bind_eq_error.1 h with h | ⟨c₁, hget, h⟩
  · exact getSqe_ne_assertion hI req.flush h
  · obtain ⟨n, -, -, rfl⟩ := getSqe_eq_ok hget
    rcases Exec.bind_eq_error.1 h with h | ⟨c₂, -, h⟩
    · exact submitSq_ne_assertion (hI.queued n) req.submit h
    · cases h

/-- Only the socket table complains about an operation: its id is not live. -/
theorem submitSocket_assertion (hI : UringInv c) {call : Syscall} {len : ℕ}
    (h : c.submitSocket io call len flush = .error .assertion) :
    c.sockets.get? io.op.id = none := by
  rcases Exec.bind_eq_error.1 h with h | ⟨c₁, hget, h⟩
  · exact absurd h (getSqe_ne_assertion (c := c.record io) ⟨hI.submitting, hI.outstanding⟩ flush)
  · obtain ⟨n, -, -, rfl⟩ := getSqe_eq_ok hget
    rcases Exec.bind_eq_error.1 h with h | ⟨fd, -, h⟩
    · unfold nativeHandle at h
      split at h
      · cases h
      · next hnone => exact hnone
    · cases h

theorem submit_assertion (hI : UringInv c) (h : c.submit io req = .error .assertion) :
    c.sockets.get? io.op.id = none := by
  unfold submit at h
  split at h
  · exact submitSocket_assertion hI h
  · exact submitSocket_assertion hI h
  · exact submitSocket_assertion hI h
  · exact submitSocket_assertion hI h
  · exact absurd h (resumeAt_ne_assertion hI)
  · cases h

theorem insert_ne_assertion {α : Type} {s : Container α} {r : α} :
    s.insert r ≠ .error .assertion := by
  unfold Container.insert
  split_ifs
  · simp
  · split <;> simp

theorem opened_ne_assertion {fd : Fd} : c.opened fd ≠ .error .assertion := by
  intro h
  rcases Exec.bind_eq_error.1 h with h | ⟨os, -, h⟩
  · unfold Os.open at h
    split_ifs at h
    cases h
  · cases h

theorem post_ne_assertion {p : Post} : c.post p ≠ .error .assertion := by
  intro h
  unfold post at h
  split at h
  · cases h
  · rcases Exec.bind_eq_error.1 h with h | ⟨c₁, -, h⟩
    · unfold finish at h
      split at h
      · split_ifs at h
        exact opened_ne_assertion h
      · cases h
    · cases h

theorem postAll_ne_assertion : c.postAll posts ≠ .error .assertion := by
  induction posts generalizing c with
  | nil => simp [postAll]
  | cons p ps ih =>
    intro h
    rcases Exec.bind_eq_error.1 h with h | ⟨c₁, -, h⟩
    · exact post_ne_assertion h
    · exact ih h

theorem work_ne_assertion : c.work cqe ≠ .error .assertion := by
  intro h
  have hfailed : ∀ {io : IoBase} {res : ℤ}, c.failedWork io res ≠ .error .assertion := by
    intro io res
    unfold failedWork
    split_ifs <;> simp
  unfold work at h
  split at h
  · cases h
  · split at h
    · unfold acceptWork at h
      split_ifs at h
      · exact hfailed h
      · rcases Exec.bind_eq_error.1 h with h | ⟨c₁, -, h⟩
        · rcases Exec.bind_eq_error.1 h with h | ⟨s, -, h⟩
          · exact insert_ne_assertion h
          · cases h
        · cases h
    · unfold connectWork at h
      split_ifs at h
      exact hfailed h
    · unfold transferWork at h
      split_ifs at h
      exact hfailed h
    · unfold transferWork at h
      split_ifs at h
      exact hfailed h
    · unfold timeoutWork at h
      split_ifs at h
    · cases h

/-- `run_one` calls `wait` only while `outstanding` is not zero. -/
theorem wait_ne_assertion (hne : c.outstanding ≠ 0) : c.wait waited ≠ .error .assertion := by
  unfold wait
  split_ifs
  · simp
  · cases c.cq <;> simp

theorem flush_ne_assertion (hI : UringInv c) : c.flush submitted ≠ .error .assertion := by
  unfold UringContext.flush
  split_ifs
  · exact submitSq_ne_assertion hI submitted
  · simp

theorem runOne_ne_assertion (hI : UringInv c) :
    c.runOne submitted posts waited ≠ .error .assertion := by
  intro h
  unfold runOne at h
  split at h
  · cases h
  · rcases Exec.bind_eq_error.1 h with h | ⟨c₀, -, h⟩
    · exact flush_ne_assertion hI h
    rcases Exec.bind_eq_error.1 h with h | ⟨c₁, -, h⟩
    · exact postAll_ne_assertion h
    split_ifs at h with hzero
    rcases Exec.bind_eq_error.1 h with h | ⟨⟨c₂, cqe⟩, -, h⟩
    · exact wait_ne_assertion hzero h
    · rcases Exec.bind_eq_error.1 h with h | ⟨x, -, h⟩
      · exact work_ne_assertion h
      · cases h

/-! ### Waiting -/

/-- `run_one` calls `io_uring_wait_cqe`, in the state `c₁`. -/
structure Awaits (c : UringContext) (submitted : ℤ) (posts : List Post) (c₁ : UringContext) :
    Prop where
  task : c.processTask = none
  flushed : (c.flush submitted >>= fun c => c.postAll posts) = .ok c₁
  outstanding : c₁.outstanding ≠ 0

/-- What `run_one` does after the submission, when there is no task. -/
theorem runOne_flushed (htask : c.processTask = none)
    (h : (c.flush submitted >>= fun c => c.postAll posts) = .ok c₁) (waited : ℤ) :
    c.runOne submitted posts waited =
      if c₁.outstanding = 0 then .ok (c₁, [], 0)
      else c₁.wait waited >>= fun x => (x.1.work x.2).map fun y => (y.1, y.2.1, 1) := by
  obtain ⟨c₀, hflush, hpost⟩ := Exec.bind_eq_ok.1 h
  unfold UringContext.runOne
  rw [htask, hflush]
  show (c₀.postAll posts >>= _) = _
  rw [hpost]
  rfl

/-- `run_one` is still waiting only where it calls `io_uring_wait_cqe`. -/
theorem awaits_of_blocked (h : (c.flush submitted >>= fun c => c.postAll posts) = .ok c₁)
    (hblocked : c.runOne submitted posts waited = .error .blocked) :
    Awaits c submitted posts c₁ := by
  have htask : c.processTask = none := by
    cases htask : c.processTask with
    | none => rfl
    | some x =>
      unfold UringContext.runOne at hblocked
      rw [htask] at hblocked
      cases hblocked
  refine ⟨htask, h, fun hzero => ?_⟩
  rw [runOne_flushed htask h, if_pos hzero] at hblocked
  cases hblocked

/-- With nothing outstanding there is nothing to submit, and `run_one` returns at once. -/
theorem runOne_at_once (hI : UringInv c) (htask : c.tasks.head = none) (hout : c.outstanding = 0)
    (submitted waited : ℤ) : c.runOne submitted [] waited = .ok (c, [], 0) := by
  have hnone : c.processTask = none := by rw [processTask, TaskList.pop?, htask]; rfl
  have hsub : c.submitting = 0 := by
    have hsum := hI.exact.outstanding
    omega
  have hflush : (c.flush submitted >>= fun c => c.postAll []) = .ok c := by
    rw [UringContext.flush, if_neg (not_not.2 hsub)]
    rfl
  rw [runOne_flushed hnone hflush, if_pos hout]

/-- What the system finishes stays consumed. -/
theorem consumed_postAll (h : c.postAll posts = .ok c') :
    c'.consumed.length = c.consumed.length ∧ c'.sq = c.sq :=
  postAll_induct (P := fun c' => c'.consumed.length = c.consumed.length ∧ c'.sq = c.sq)
    (fun {c₁ c₂ p} hP hp => by
      obtain ⟨sqe, os, hsqe, -, rfl⟩ := post_eq_ok hp
      obtain ⟨hlt, -⟩ := List.getElem?_eq_some_iff.1 hsqe
      refine ⟨?_, hP.2⟩
      rw [← hP.1]
      simp only [consumed, List.length_append, List.length_map, List.length_eraseIdx_of_lt hlt,
        List.length_singleton]
      omega) ⟨rfl, rfl⟩ h

theorem Awaits.inv (hI : UringInv c) (h : Awaits c submitted posts c₁) : UringInv c₁ := by
  obtain ⟨c₀, hflush, hpost⟩ := Exec.bind_eq_ok.1 h.flushed
  refine (postAll_spec ?_ hpost).1
  unfold UringContext.flush at hflush
  split_ifs at hflush
  · obtain ⟨n, -, -, rfl⟩ := submitSq_eq_ok hflush
    exact hI.consume n
  · cases hflush
    exact hI

/-- When everything queued was consumed, or something was, an entry consumed has not been answered.
-/
theorem Awaits.consumed_ne_nil (hI : UringInv c) (h : Awaits c submitted posts c₁)
    (hsub : 0 < submitted ∨ c.sq = []) : c₁.consumed ≠ [] := by
  obtain ⟨c₀, hflush, hpost⟩ := Exec.bind_eq_ok.1 h.flushed
  obtain ⟨hlen, hsq⟩ := consumed_postAll hpost
  have hI₁ := h.inv hI
  have hc₀ : c₀.sq = [] ∨ c₀.consumed ≠ [] := by
    unfold UringContext.flush at hflush
    split_ifs at hflush with hzero
    · have hne : c.sq ≠ [] := fun hnil => hzero (by rw [hI.submitting, hnil]; rfl)
      have hpos : 0 < submitted := hsub.resolve_right hne
      unfold submitSq at hflush
      split_ifs at hflush with hneg hbound hcount
      cases hflush
      refine .inr fun hnil => ?_
      -- the first entry of the queue is in flight
      have htake : c.sq.take submitted.toNat = [] := by
        have := (List.append_eq_nil_iff.1 hnil).1
        exact (List.append_eq_nil_iff.1 (List.map_eq_nil_iff.1 this)).2
      rcases List.take_eq_nil_iff.1 htake with htake | htake
      · omega
      · exact hne htake
    · cases hflush
      rw [hI.submitting] at hzero
      exact .inl (List.length_eq_zero_iff.1 (not_not.1 hzero))
  intro hnil
  rw [hnil, List.length_nil] at hlen
  rcases hc₀ with hempty | hne
  · -- then nothing is outstanding at all
    refine h.outstanding ?_
    rw [hI₁.exact.outstanding, hnil, hI₁.submitting, hsq, hempty]
    rfl
  · exact hne (List.length_eq_zero_iff.1 hlen.symm)

/-- `run_one` returns 0 when there is no task and nothing is outstanding. -/
theorem runOne_zero (hI : UringInv c) (h : c.runOne submitted posts waited = .ok (c', fs, 0)) :
    c.tasks.head = none ∧ c'.outstanding = 0 ∧ c'.pointers = [] := by
  have htask : c.processTask = none := by
    cases htask : c.processTask with
    | none => rfl
    | some x =>
      unfold runOne at h
      rw [htask] at h
      cases h
  refine ⟨?_, ?_⟩
  · rwa [processTask, Option.map_eq_none_iff, TaskList.pop?, Option.map_eq_none_iff] at htask
  · have hI' := (runOne_spec hI h).1
    generalize hn : (0 : ℕ) = n at h
    cases runOne_cases h with
    | task => cases hn
    | idle _ _ _ hidle =>
      exact ⟨hidle, List.length_eq_zero_iff.1 (hI'.outstanding.symm.trans hidle)⟩
    | completed => cases hn

end UringContext

open UringContext

/-- **The counters are exact** in every state reached. So no assertion in `submit`, `wait` or
`run_one` fails, whatever the system answers (a submission only fails on the socket table, for an id
that is not live). With no task and nothing outstanding `run_one` returns at once, whatever a call
of the ring would answer; and where it is still waiting, something is outstanding: completions are
to come, of entries consumed as soon as the system consumes any. It returns 0 only when there is no
task and nothing outstanding. -/
theorem counters_exact (os : Os) (m : Machine UringContext Empty)
    (h : Runs uringBase free (UringContext.initial os) m) :
    m.ctx.CountersExact ∧
    (∀ r, m.ctx.submitSq r ≠ .error .assertion) ∧
    (∀ io req, m.ctx.submit io req = .error .assertion → m.ctx.sockets.get? io.op.id = none) ∧
    (∀ io flush, m.ctx.cancel io flush ≠ .error .assertion) ∧
    (∀ submitted posts waited, m.ctx.runOne submitted posts waited ≠ .error .assertion) ∧
    (m.ctx.tasks.head = none → m.ctx.outstanding = 0 → ∀ submitted waited,
      m.ctx.runOne submitted [] waited = .ok (m.ctx, [], 0)) ∧
    (∀ submitted posts waited c₁,
      (m.ctx.flush submitted >>= fun c => c.postAll posts) = .ok c₁ →
      m.ctx.runOne submitted posts waited = .error .blocked →
        c₁.outstanding ≠ 0 ∧ c₁.CountersExact ∧ c₁.pointers ≠ [] ∧
          (0 < submitted ∨ m.ctx.sq = [] → c₁.consumed ≠ [])) ∧
    (∀ submitted posts waited c' fs, m.ctx.runOne submitted posts waited = .ok (c', fs, 0) →
      m.ctx.tasks.head = none ∧ c'.outstanding = 0 ∧ c'.pointers = []) := by
  have hI : UringInv m.ctx := ((uringLedger_fresh os).sound (h.mono Ledger.guard_free)).inv
  refine ⟨hI.exact, submitSq_ne_assertion hI, fun _ _ => submit_assertion hI,
    fun _ _ => cancel_ne_assertion hI, fun _ _ _ => runOne_ne_assertion hI, runOne_at_once hI, ?_,
    fun _ _ _ _ _ => runOne_zero hI⟩
  intro submitted posts waited c₁ hflushed hblocked
  have hw := awaits_of_blocked hflushed hblocked
  have hI₁ := hw.inv hI
  refine ⟨hw.outstanding, hI₁.exact, fun hnil => hw.outstanding ?_, hw.consumed_ne_nil hI⟩
  rw [hI₁.outstanding, hnil]
  rfl

/-- A `receive` and its cancel request are queued; the system consumes one of the two entries. -/
def partlyConsumed : List (Label UringRequest (List ℤ) UringCall) :=
  [.call (.makeSocket (.ok 3 [])), .start ⟨1, .receive 0 [8]⟩ {} false [], .stop 1 [],
    .call (.runOne 1 [⟨0, 5, []⟩] 0)]

theorem counters_exact_partlyConsumed :
    ∃ (m : Machine UringContext Empty) (c₁ : UringContext),
      Runs uringBase free (UringContext.initial {}) m ∧ m.ctx.submitting = 1 ∧
      m.ctx.outstanding = 1 ∧ m.ctx.CountersExact ∧
      (m.ctx.flush 1 >>= fun c => c.postAll []) = .ok c₁ ∧
      m.ctx.runOne 1 [] 0 = .error .blocked ∧ c₁.outstanding ≠ 0 ∧ c₁.consumed ≠ [] := by
  obtain ⟨m, hrun, hsub, hout, c₁, hflush, hblocked⟩ : ∃ m,
      run (step uringBase) { ctx := UringContext.initial {} } partlyConsumed = some m ∧
      m.ctx.submitting = 1 ∧ m.ctx.outstanding = 1 ∧ ∃ c₁,
      (m.ctx.flush 1 >>= fun c => c.postAll []) = .ok c₁ ∧
      m.ctx.runOne 1 [] 0 = .error .blocked := ⟨_, rfl, rfl, rfl, _, rfl, rfl⟩
  have hm : Runs uringBase free (UringContext.initial {}) m := reaches_free_of_run hrun
  obtain ⟨hexact, -, -, -, -, -, hwaits, -⟩ := counters_exact {} m hm
  obtain ⟨hne, -, -, hconsumed⟩ := hwaits 1 [] 0 c₁ hflush hblocked
  exact ⟨m, c₁, hm, hsub, hout, hexact, hflush, hblocked, hne, hconsumed (.inl (by decide))⟩

end Net29
