import Net29.Uring.Finished
import Net29.Poll.ResumeAfter

/-!
# The time-outs of `uring_context`

`make_timespec` splits a time into seconds and nanoseconds. `duration_cast` rounds towards zero, so
before the epoch the nanoseconds are negative, unless there are none.

* `Normalised t ts`: `ts` is the time `t`, with nanoseconds from 0 to 999999999;
* `makeTimespec_exact`, `makeTimespec_range`, `makeTimespec_lt`, `makeTimespec_fits64`: what the
  split does;
* `AnswersTimeouts`: a kernel that refuses time-outs with a negative part;
* `GoodTimeout`: a time-out that is exact and normalised, and answered at once when it is due;
* `TimesOf c`: the time-outs handed to the ring are those of `make_timespec`;
* `timespec_of_runs`: in every run they are good exactly for the times from the epoch on, and the
  receivers of others are sent an error.
-/

namespace Net29

open Transition Machine

namespace UringContext

/-- A `__kernel_timespec` that is exact and normalised. -/
def Normalised (t : Time) (ts : ℤ × ℤ) : Prop :=
  0 ≤ ts.2 ∧ ts.2 < 10 ^ 9 ∧ ts.1 * 10 ^ 9 + ts.2 = t

instance (t : Time) (ts : ℤ × ℤ) : Decidable (Normalised t ts) :=
  inferInstanceAs (Decidable (_ ∧ _))

theorem makeTimespec_exact (t : ℤ) : (makeTimespec t).1 * 10 ^ 9 + (makeTimespec t).2 = t := by
  simp only [makeTimespec]
  omega

/-- The nanoseconds are the remainder, which is below a second and has the sign of the time. -/
theorem makeTimespec_snd (t : ℤ) : (makeTimespec t).2 = t.tmod (10 ^ 9) := by
  have h := Int.mul_tdiv_add_tmod t (10 ^ 9)
  simp only [makeTimespec]
  omega

theorem makeTimespec_range (t : ℤ) :
    -10 ^ 9 < (makeTimespec t).2 ∧ (makeTimespec t).2 < 10 ^ 9 ∧
      (0 ≤ t → 0 ≤ (makeTimespec t).2) ∧ (t ≤ 0 → (makeTimespec t).2 ≤ 0) := by
  rw [makeTimespec_snd]
  refine ⟨Int.lt_tmod_of_pos t (by decide), Int.tmod_lt_of_pos t (by decide),
    Int.tmod_nonneg _, fun ht => ?_⟩
  have hneg := Int.tmod_nonneg (a := -t) (10 ^ 9) (by omega)
  rw [Int.neg_tmod] at hneg
  omega

/-- The order of the times is that of their seconds, and of the nanoseconds in the same second. -/
theorem makeTimespec_lt (t t' : ℤ) : t < t' ↔ (makeTimespec t).1 < (makeTimespec t').1 ∨
    (makeTimespec t).1 = (makeTimespec t').1 ∧ (makeTimespec t).2 < (makeTimespec t').2 := by
  have hexact := makeTimespec_exact t
  have hexact' := makeTimespec_exact t'
  obtain ⟨hlow, hhigh, hpos, hneg⟩ := makeTimespec_range t
  obtain ⟨hlow', hhigh', hpos', hneg'⟩ := makeTimespec_range t'
  omega

/-- Nothing overflows: for a time of 64 bits so are the seconds, what they are subtracted as, and
the nanoseconds. -/
theorem makeTimespec_fits64 {t : ℤ} (h : Fits64 t) :
    Fits64 (makeTimespec t).1 ∧ Fits64 ((makeTimespec t).1 * 10 ^ 9) ∧
      Fits64 (makeTimespec t).2 := by
  unfold Fits64 at *
  have hexact := makeTimespec_exact t
  obtain ⟨hlow, hhigh, hpos, hneg⟩ := makeTimespec_range t
  refine ⟨⟨?_, ?_⟩, ⟨?_, ?_⟩, ?_, ?_⟩ <;> omega

/-! ### The kernel -/

/-- The kernel's test of a time-out. -/
def ValidTimespec (ts : ℤ × ℤ) : Prop := 0 ≤ ts.1 ∧ 0 ≤ ts.2

/-- A kernel: `answer` is the result with which it completes a request for an absolute time-out
when its clock shows the time, if it completes it. -/
structure AnswersTimeouts (answer : ℤ × ℤ → Time → Option ℤ) : Prop where
  /-- negative seconds or nanoseconds are refused -/
  refused : ∀ ts now, ¬ ValidTimespec ts → answer ts now = some (-(Errno.EINVAL : ℤ))
  /-- a time-out whose time has come expires at once -/
  expired : ∀ ts now, ValidTimespec ts → ts.1 * 10 ^ 9 + ts.2 ≤ now →
    answer ts now = some (-(Errno.ETIME : ℤ))

/-- What a time-out should be: exact and normalised, and one that expires at once when its time has
come. -/
structure GoodTimeout (answer : ℤ × ℤ → Time → Option ℤ) (t : Time) (ts : ℤ × ℤ) : Prop where
  normalised : Normalised t ts
  expires : ∀ now, t ≤ now → answer ts now = some (-(Errno.ETIME : ℤ))

/-- Before the epoch one of the parts is negative. -/
theorem valid_makeTimespec (t : ℤ) : ValidTimespec (makeTimespec t) ↔ 0 ≤ t := by
  have hexact := makeTimespec_exact t
  obtain ⟨hlow, hhigh, hpos, hneg⟩ := makeTimespec_range t
  constructor
  · rintro ⟨hsec, hnsec⟩
    omega
  · intro ht
    exact ⟨by have hnsec := hpos ht; omega, hpos ht⟩

variable {answer : ℤ × ℤ → Time → Option ℤ}

/-- What the kernel answers when the time has come. -/
theorem AnswersTimeouts.answer_makeTimespec (hk : AnswersTimeouts answer) {t now : Time}
    (hnow : t ≤ now) : answer (makeTimespec t) now =
      some (if 0 ≤ t then -(Errno.ETIME : ℤ) else -(Errno.EINVAL : ℤ)) := by
  split_ifs with ht
  · refine hk.expired _ now ((valid_makeTimespec t).2 ht) ?_
    rw [makeTimespec_exact]
    exact hnow
  · exact hk.refused _ now fun hvalid => ht ((valid_makeTimespec t).1 hvalid)

theorem goodTimeout_makeTimespec (hk : AnswersTimeouts answer) (t : Time) :
    GoodTimeout answer t (makeTimespec t) ↔ 0 ≤ t := by
  obtain ⟨-, hlt, hpos, -⟩ := makeTimespec_range t
  constructor
  · intro h
    by_contra ht
    have hexpires := h.expires t le_rfl
    rw [hk.answer_makeTimespec le_rfl, if_neg ht] at hexpires
    cases hexpires
  · intro ht
    refine ⟨⟨hpos ht, hlt, makeTimespec_exact t⟩, fun now hnow => ?_⟩
    rw [hk.answer_makeTimespec hnow, if_pos ht]

/-! ### Runs -/

/-- The entries the system has not answered. -/
def entries (c : UringContext) : List Sqe := c.sq ++ c.inflight

/-- A time-out belongs to a timer, and is what `make_timespec` made of its time. -/
def TimeoutOf (sqe : Sqe) : Prop :=
  ∀ sec nsec, sqe.request = .timeout sec nsec →
    ∃ io t, sqe.data = .op io ∧ io.op = .resumeAt t ∧ (sec, nsec) = makeTimespec t

def TimesOf (c : UringContext) : Prop := ∀ sqe ∈ c.entries, TimeoutOf sqe

variable {c c' : UringContext} {io : IoBase} {fs : List (Frame Empty)} {r : SubmitResult} {n : ℕ}

/-- Entries may be answered. -/
theorem TimesOf.sub (h : TimesOf c) (hsub : ∀ sqe ∈ c'.entries, sqe ∈ c.entries) : TimesOf c' :=
  fun sqe hmem => h sqe (hsub sqe hmem)

theorem TimesOf.consume (h : TimesOf c) (n : ℕ) : TimesOf (c.consume n) := by
  refine h.sub fun sqe hmem => ?_
  simp only [entries, UringContext.consume, List.mem_append] at hmem ⊢
  rcases hmem with hmem | hmem | hmem
  · exact .inl (List.mem_of_mem_drop hmem)
  · exact .inr hmem
  · exact .inl (List.mem_of_mem_take hmem)

theorem TimesOf.prep (h : TimesOf c) {data : Completion} {request : SqeRequest}
    (hnew : TimeoutOf ⟨data, request⟩) : TimesOf (c.prep data request) := by
  intro sqe hmem
  simp only [entries, UringContext.prep, List.mem_append, List.mem_singleton] at hmem
  rcases hmem with (hmem | rfl) | hmem
  · exact h sqe (List.mem_append_left _ hmem)
  · exact hnew
  · exact h sqe (List.mem_append_right _ hmem)

theorem TimesOf.getSqe {flush : List ℤ} (h : TimesOf c) (hget : c.getSqe flush = .ok c') :
    TimesOf c' := by
  obtain ⟨n, -, -, rfl⟩ := getSqe_eq_ok hget
  exact h.consume n

theorem TimesOf.submitSocket {call : Syscall} {len : ℕ} {flush : List ℤ} (h : TimesOf c)
    (hsub : c.submitSocket io call len flush = .ok (c', fs, r)) : TimesOf c' := by
  obtain ⟨c₁, hget, hsub⟩ := Exec.bind_eq_ok.1 hsub
  have hrecord : TimesOf (c.record io) := h
  have h₁ := hrecord.getSqe hget
  obtain ⟨fd, -, hsub⟩ := Exec.bind_eq_ok.1 hsub
  cases hsub
  refine h₁.prep ?_
  rintro sec nsec ⟨⟩

/-- `resume_at` hands over the split of its time. -/
theorem TimesOf.resumeAt {t : Time} {req : UringRequest} (h : TimesOf c)
    (hop : io.op = .resumeAt t) (hsub : c.resumeAt io t req = .ok (c', fs, r)) : TimesOf c' := by
  obtain ⟨c₁, hget, hsub⟩ := Exec.bind_eq_ok.1 hsub
  obtain ⟨c₂, hsubmit, hsub⟩ := Exec.bind_eq_ok.1 hsub
  obtain ⟨n, -, -, rfl⟩ := submitSq_eq_ok hsubmit
  cases hsub
  refine TimesOf.consume (TimesOf.prep (h.getSqe hget) ?_) n
  rintro sec nsec ⟨⟩
  exact ⟨io, t, rfl, hop, rfl⟩

theorem TimesOf.submit {req : UringRequest} (h : TimesOf c)
    (hsub : c.submit io req = .ok (c', fs, r)) : TimesOf c' := by
  unfold UringContext.submit at hsub
  split at hsub
  · exact h.submitSocket hsub
  · exact h.submitSocket hsub
  · exact h.submitSocket hsub
  · exact h.submitSocket hsub
  · next t hop => exact h.resumeAt hop hsub
  · cases hsub

theorem TimesOf.cancel {flush : List ℤ} (h : TimesOf c)
    (hcancel : c.cancel io flush = .ok (c', fs)) : TimesOf c' := by
  obtain ⟨-, n, -, -, rfl⟩ := cancel_eq_ok hcancel
  have h₁ : TimesOf { c.consume n with
      submitting := c.submitting - n + 1, outstanding := c.outstanding + 1 } := h.consume n
  refine h₁.prep ?_
  rintro sec nsec ⟨⟩

theorem TimesOf.post {p : Post} (h : TimesOf c) (hpost : c.post p = .ok c') : TimesOf c' := by
  obtain ⟨sqe, os, -, -, rfl⟩ := post_eq_ok hpost
  refine h.sub fun sqe' hmem => ?_
  rcases List.mem_append.1 hmem with hmem | hmem
  · exact List.mem_append_left _ hmem
  · exact List.mem_append_right _ (List.mem_of_mem_eraseIdx hmem)

theorem TimesOf.runOne {submitted waited : ℤ} {posts : List Post} (h : TimesOf c)
    (hrun : c.runOne submitted posts waited = .ok (c', fs, n)) : TimesOf c' := by
  cases runOne_cases hrun with
  | task ht =>
    obtain ⟨t, tasks, -, rfl, -⟩ := processTask_eq_some ht
    exact h
  | @idle k _ _ _ hpost _ =>
    have h₀ : TimesOf { c.consume k with submitting := c.submitting - k } := h.consume k
    exact postAll_induct TimesOf.post h₀ hpost
  | @completed k c₁ c₂ _ waited cqe _ r _ _ hpost _ hwait hwork =>
    have h₀ : TimesOf { c.consume k with submitting := c.submitting - k } := h.consume k
    have h₁ : TimesOf c₁ := postAll_induct TimesOf.post h₀ hpost
    obtain ⟨-, cq, -, rfl⟩ := wait_eq_ok hwait
    rcases (work_spec hwork).2 with rfl | ⟨io, id, addrlen, sockets, id', -, -, -, -, rfl, -⟩
    · exact h₁
    · exact h₁

theorem TimesOf.call {k : UringCall} (h : TimesOf c) (hcall : uringBase.call c k = .ok (c', fs)) :
    TimesOf c' := by
  cases call_eq_ok hcall with
  | runOne hrun => exact h.runOne hrun
  | post hpost => exact h.post hpost
  | schedule t => exact h
  | makeSocket hmake =>
    rcases makeSocket_eq_ok hmake with rfl | ⟨fd, os, sockets, -, -, rfl⟩
    · exact h
    · exact h
  | makeSocketNative hmake =>
    obtain ⟨sockets, -, rfl⟩ := makeSocketNative_eq_ok hmake
    exact h
  | release hrel =>
    obtain ⟨fd, -, rfl⟩ := release_eq_ok hrel
    exact h

theorem timesOf_of_runs {os : Os} {m : Machine UringContext Empty}
    (h : Runs uringBase free (initial os) m) : TimesOf m.ctx := by
  refine Reaches.invariant₂ (I := fun m => TimesOf m.ctx)
    (J := fun m => ∀ o, (m.ops o).upstream = {}) h (fun m hm => Runs.never_started hm)
    (fun sqe hmem => by cases hmem) fun m l m' hJ hI _ hstep => ?_
  have hctx := ctx_of_step hJ hstep
  generalize m'.ctx = c' at hctx ⊢
  cases hctx with
  | same => exact hI
  | submit _ hsub => exact hI.submit hsub
  | cancel l hcancel => exact hI.cancel hcancel
  | call hcall => exact hI.call hcall

/-- What the receiver of a `resume_at` whose time has come is sent. -/
theorem signals_of_timeout {os : Os} {m m' : Machine UringContext Empty} {cqe : Cqe} {t now : Time}
    (h : Runs uringBase free (initial os) m) (hk : AnswersTimeouts answer)
    (hop : io.op = .resumeAt t) (hnow : t ≤ now)
    (hres : answer (makeTimespec t) now = some cqe.res) (hreads : UringReads m io cqe m')
    (hstop : (m.ops io.self).callback = .registered) :
    (m'.ops io.self).signals =
      [if 0 ≤ t then .setValue .unit else .setError (.system Errno.EINVAL)] := by
  obtain ⟨c, c', fs, r, -, hwork, rfl, hone, hnil, hcalls⟩ := work_of_reads h hreads hstop
  have hvalue : (m.ops io.self).value = .unit := by
    rw [h.prepared io.self hcalls, hreads.2.1, hop]
    rfl
  have htimeout : c.timeoutWork io cqe = .ok (c', fs, r) := by
    rw [work, hreads.1] at hwork
    dsimp only at hwork
    rwa [hop] at hwork
  rw [hk.answer_makeTimespec hnow, Option.some_inj] at hres
  unfold timeoutWork at htimeout
  rw [← hres] at htimeout
  by_cases ht : 0 ≤ t
  · rw [if_pos ht, if_neg (by decide), if_pos rfl] at htimeout
    cases htimeout
    rw [if_pos ht, ← hvalue]
    exact signals_of_complete (m := { m with ctx := c }) hone hnil none
  · rw [if_neg ht, if_neg (by decide), if_neg (by decide)] at htimeout
    cases htimeout
    rw [if_neg ht]
    exact signals_of_error (m := { m with ctx := c }) hone hnil _

/-- **The time-outs handed to the system** are exact and keep the order of the times, but good
exactly for times from the epoch on. When the time of an operation has come, its receiver is sent
the value if that is so, and an error if it is not (if no stop was requested). -/
theorem timespec_of_runs {os : Os} {m : Machine UringContext Empty}
    (h : Runs uringBase free (initial os) m) (hk : AnswersTimeouts answer) (t t' : ℤ) :
    (GoodTimeout answer t (makeTimespec t) ↔ 0 ≤ t) ∧
    (makeTimespec t).1 * 10 ^ 9 + (makeTimespec t).2 = t ∧
    (t < t' ↔ (makeTimespec t).1 < (makeTimespec t').1 ∨
      (makeTimespec t).1 = (makeTimespec t').1 ∧ (makeTimespec t).2 < (makeTimespec t').2) ∧
    (Fits64 t → Fits64 (makeTimespec t).1 ∧ Fits64 ((makeTimespec t).1 * 10 ^ 9) ∧
      Fits64 (makeTimespec t).2) ∧
    (∀ sqe ∈ m.ctx.entries, ∀ sec nsec, sqe.request = .timeout sec nsec →
      ∃ io time, sqe.data = .op io ∧ io.op = .resumeAt time ∧ (sec, nsec) = makeTimespec time ∧
        (GoodTimeout answer time (sec, nsec) ↔ 0 ≤ time)) ∧
    ∀ io now cqe m', io.op = .resumeAt t → t ≤ now →
      answer (makeTimespec t) now = some cqe.res → UringReads m io cqe m' →
      (m.ops io.self).callback = .registered →
        (m'.ops io.self).signals =
          [if 0 ≤ t then .setValue .unit else .setError (.system Errno.EINVAL)] := by
  refine ⟨goodTimeout_makeTimespec hk t, makeTimespec_exact t, makeTimespec_lt t t',
    makeTimespec_fits64, fun sqe hmem sec nsec hreq => ?_,
    fun io now cqe m' => signals_of_timeout h hk⟩
  obtain ⟨io, time, hdata, hop, hts⟩ := timesOf_of_runs h sqe hmem sec nsec hreq
  refine ⟨io, time, hdata, hop, hts, ?_⟩
  rw [hts]
  exact goodTimeout_makeTimespec hk time

/-- A kernel. -/
def expiry (ts : ℤ × ℤ) (now : Time) : Option ℤ :=
  if ts.1 < 0 ∨ ts.2 < 0 then some (-(Errno.EINVAL : ℤ))
  else if ts.1 * 10 ^ 9 + ts.2 ≤ now then some (-(Errno.ETIME : ℤ))
  else none

theorem answersTimeouts_expiry : AnswersTimeouts expiry where
  refused ts now hnot := if_pos (by rw [ValidTimespec] at hnot; omega)
  expired ts now hvalid hnow := by
    obtain ⟨hsec, hnsec⟩ := hvalid
    rw [expiry, if_neg (by omega), if_pos hnow]

/-- A timer for 1.5 seconds after the epoch, and one for a second before it. -/
def twoTimeouts : List (Label UringRequest (List ℤ) UringCall) :=
  [.start ⟨1, .resumeAt 1500000000⟩ { submit := 1 } false [],
    .start ⟨2, .resumeAt (-1000000000)⟩ { submit := 1 } false []]

theorem timespec_of_runs_twoTimeouts :
    ∃ m m₁ m₂ : Machine UringContext Empty, Runs uringBase free (initial {}) m ∧
      m.ctx.entries = [⟨.op ⟨1, .resumeAt 1500000000⟩, .timeout 1 500000000⟩,
        ⟨.op ⟨2, .resumeAt (-1000000000)⟩, .timeout (-1) 0⟩] ∧
      GoodTimeout expiry 1500000000 (1, 500000000) ∧ ¬ GoodTimeout expiry (-1000000000) (-1, 0) ∧
      m.step uringBase (.call (.runOne 0 [⟨0, -Errno.ETIME, []⟩] 0)) = some m₁ ∧
      (m₁.ops 1).signals = [.setValue .unit] ∧
      m.step uringBase (.call (.runOne 0 [⟨1, -Errno.EINVAL, []⟩] 0)) = some m₂ ∧
      (m₂.ops 2).signals = [.setError (.system Errno.EINVAL)] := by
  obtain ⟨m, hrun, hentries, h₁, h₂, m₁, hstep₁, hseen₁, m₂, hstep₂, hseen₂⟩ : ∃ m,
      run (step uringBase) { ctx := initial {} } twoTimeouts = some m ∧
      m.ctx.entries = [⟨.op ⟨1, .resumeAt 1500000000⟩, .timeout 1 500000000⟩,
        ⟨.op ⟨2, .resumeAt (-1000000000)⟩, .timeout (-1) 0⟩] ∧
      ((m.ops 1).op = .resumeAt 1500000000 ∧ (m.ops 1).callback = .registered) ∧
      ((m.ops 2).op = .resumeAt (-1000000000) ∧ (m.ops 2).callback = .registered) ∧ ∃ m₁,
      m.step uringBase (.call (.runOne 0 [⟨0, -Errno.ETIME, []⟩] 0)) = some m₁ ∧
      m₁.ctx.seen = ⟨-Errno.ETIME, .op ⟨1, .resumeAt 1500000000⟩, []⟩ :: m.ctx.seen ∧ ∃ m₂,
      m.step uringBase (.call (.runOne 0 [⟨1, -Errno.EINVAL, []⟩] 0)) = some m₂ ∧
      m₂.ctx.seen = ⟨-Errno.EINVAL, .op ⟨2, .resumeAt (-1000000000)⟩, []⟩ :: m.ctx.seen :=
    ⟨_, rfl, rfl, ⟨rfl, rfl⟩, ⟨rfl, rfl⟩, _, rfl, rfl, _, rfl, rfl⟩
  have hm : Runs uringBase free (initial {}) m := reaches_free_of_run hrun
  have hk := answersTimeouts_expiry
  obtain ⟨hgood₁, -, -, -, -, hsent₁⟩ := timespec_of_runs hm hk 1500000000 0
  obtain ⟨hgood₂, -, -, -, -, hsent₂⟩ := timespec_of_runs hm hk (-1000000000) 0
  refine ⟨m, m₁, m₂, hm, hentries, hgood₁.2 (by decide), fun h => absurd (hgood₂.1 h) (by decide),
    hstep₁, ?_, hstep₂, ?_⟩
  · exact hsent₁ ⟨1, .resumeAt 1500000000⟩ 1500000000 _ m₁ rfl le_rfl rfl
      ⟨rfl, h₁.1, hseen₁, _, _, _, hstep₁⟩ h₁.2
  · exact hsent₂ ⟨2, .resumeAt (-1000000000)⟩ 0 _ m₂ rfl (by decide) rfl
      ⟨rfl, h₂.1, hseen₂, _, _, _, hstep₂⟩ h₂.2

/-- A timer for the nanosecond before the epoch: the system is handed -1 nanoseconds. -/
theorem timespec_not_normalised :
    ¬ ∀ (m : Machine UringContext Empty), Runs uringBase free (initial {}) m →
      ∀ io t sec nsec, ⟨.op io, .timeout sec nsec⟩ ∈ m.ctx.entries → io.op = .resumeAt t →
        Fits64 t → Normalised t (sec, nsec) := by
  intro h
  obtain ⟨m, hrun, hm⟩ := runs_of_labels uringBase (initial {}) any any_free
    [.start ⟨1, .resumeAt (-1)⟩ { submit := 1 } false []] (fun m => m.ctx.entries)
    [⟨.op ⟨1, .resumeAt (-1)⟩, .timeout 0 (-1)⟩] (by decide)
  have hnorm := h m hrun ⟨1, .resumeAt (-1)⟩ (-1) 0 (-1) (by rw [hm]; exact List.mem_cons_self) rfl
    (by decide)
  exact absurd hnorm (by decide)

end UringContext

end Net29
