import Net29.Poll.Waiting

/-!
# Deadlines while `run_one` waits

* `timeouts_sorted`: in every state reached the timers are ordered by their deadlines;
* `timeout_right_iff`: when the time-out handed to `poll` ends before the first deadline;
* `punctual_iff`: when every call of `poll` within one `run_one` does.
-/

namespace Net29

open Machine Transition

namespace PollContext

variable {c c' c₁ : PollContext} {io : IoBase} {n : ℕ} {fs : List (Frame Empty)}
  {r : SubmitResult} {sys : List SysAnswer} {now later : Time} {answers : List PollAnswer}
  {rest : List IoBase}

/-! ### The order of the timers -/

theorem submit_sorted {req : Answers} (hb : AllBlocking c) (hs : Timers.Sorted c.timeouts)
    (h : c.submit io req = .ok (c', fs, r)) : Timers.Sorted c'.timeouts := by
  cases submit_cases hb h with
  | timer => exact hs.insert io
  | due => exact hs
  | connected _ _ hacts => rwa [hacts.worked.timeouts]
  | failed _ _ hacts => rwa [hacts.worked.timeouts]
  | queued _ hacts =>
    dsimp only
    rwa [hacts.worked.timeouts]

theorem runOne_sorted (hs : Timers.Sorted c.timeouts)
    (h : c.runOne now answers = .ok (c', fs, n)) : Timers.Sorted c'.timeouts := by
  cases runOne_cases h with
  | timer hw ht =>
    obtain ⟨io, timeouts, hl, -, rfl, -⟩ := processTimeout_eq_some ht
    rw [← hw.timeouts, hl] at hs
    exact (List.pairwise_cons.1 hs).2
  | task ht =>
    obtain ⟨t, tasks, -, rfl, -⟩ := processTask_eq_some ht
    exact hs
  | idle hw => rwa [hw.timeouts]
  | dispatched _ _ hwait _ hwork =>
    rwa [(work_spec hwork).1.worked.timeouts, timeouts_removeOutstanding,
      (wait_spec hwait).1.timeouts]

theorem call_sorted {k : PollCall} (hs : Timers.Sorted c.timeouts)
    (h : pollBase.call c k = .ok (c', fs)) : Timers.Sorted c'.timeouts := by
  cases call_cases h with
  | runOne hrun => exact runOne_sorted hs hrun
  | schedule t => exact hs
  | socket hw => rwa [hw.timeouts]

/-- **The timers stay sorted** in every run. -/
theorem timeouts_sorted {os : Os} {m : Machine PollContext Empty}
    (h : Runs pollBase free (initial os) m) : Timers.Sorted m.ctx.timeouts := by
  refine Reaches.invariant₂ (I := fun m : Machine PollContext Empty => Timers.Sorted m.ctx.timeouts)
    (J := fun m => PollInv m.ctx ∧ ∀ o, (m.ops o).upstream = {}) h
    (fun m hm => ⟨pollInv_of_runs hm, Runs.never_started hm⟩) List.Pairwise.nil
    fun m l m' hJ hs _ hstep => ?_
  obtain ⟨hI, hz⟩ := hJ
  have hctx := ctx_of_step hz hstep
  generalize m'.ctx = c' at hctx ⊢
  cases hctx with
  | same => exact hs
  | submit _ hsub => exact submit_sorted hI.blocking hs hsub
  | @cancel _ _ a _ _ hcancel =>
    cases (cancel_cases (u := a) hcancel).1 with
    | outstanding => rwa [timeouts_removeOutstanding]
    | timer herase => exact hs.erase? herase
  | call hcall => exact call_sorted hs hcall

/-! ### The time-out of one call -/

/-- The time-out handed to `poll` is right: it is infinite only without timers, and it ends at the
first deadline at the latest. -/
structure TimeoutRight (c : PollContext) (now : Time) : Prop where
  finite : c.timeout now < 0 → c.timeouts = []
  within : ∀ io ∈ c.timeouts, c.timeout now * 10 ^ 6 ≤ io.deadline - now

/-- The distance is given in whole milliseconds, of which the lower 32 bits are kept. -/
theorem toMilliseconds_of_nonneg {d : ℤ} (h : 0 ≤ d) :
    toMilliseconds d = (d / 10 ^ 6).bmod (2 ^ 32) := by
  rw [toMilliseconds, Int.tdiv_eq_ediv_of_nonneg h]

/-- The narrowing keeps a count that fits. -/
theorem bmod_nonneg_iff {x : ℤ} : 0 ≤ x.bmod (2 ^ 32) ↔ x % 2 ^ 32 < 2 ^ 31 := by
  rw [Int.bmod_def]
  split_ifs <;> omega

theorem bmod_le {x : ℤ} (h : 0 ≤ x) : x.bmod (2 ^ 32) ≤ x := by
  rw [Int.bmod_def]
  split_ifs <;> omega

theorem timeout_cons (hl : c.timeouts = io :: rest) (hnow : now < io.deadline) :
    c.timeout now = ((io.deadline - now) / 10 ^ 6).bmod (2 ^ 32) := by
  rw [← toMilliseconds_of_nonneg (Int.sub_nonneg_of_le (Int.le_of_lt hnow))]
  simp only [timeout, hl, Timers.valueOr, Int.ne_of_lt hnow, if_false]

/-- **The time-out is right** if and only if the whole milliseconds to the first deadline are less
than `2 ^ 31` modulo `2 ^ 32`. -/
theorem timeout_right_iff (c : PollContext) (now : Time) (io : IoBase) (rest : List IoBase)
    (hl : c.timeouts = io :: rest) (hs : Timers.Sorted c.timeouts) (hnow : now < io.deadline) :
    TimeoutRight c now ↔ (io.deadline - now) / 10 ^ 6 % 2 ^ 32 < 2 ^ 31 := by
  have htimeout := timeout_cons hl hnow
  rw [← bmod_nonneg_iff, ← htimeout]
  constructor
  · intro h
    by_contra hneg
    have hnil := h.finite (Int.not_le.1 hneg)
    rw [hl] at hnil
    cases hnil
  · intro hnonneg
    refine ⟨fun hneg => absurd hneg (Int.not_lt.2 hnonneg), fun io' hio' => ?_⟩
    have hfirst : io.deadline ≤ io'.deadline := by
      rw [hl] at hs hio'
      exact hs.first_le hio'
    have hpos : (0 : ℤ) < io.deadline - now := Int.sub_pos_of_lt hnow
    calc c.timeout now * 10 ^ 6
        ≤ (io.deadline - now) / 10 ^ 6 * 10 ^ 6 := by
          rw [htimeout]
          exact Int.mul_le_mul_of_nonneg_right (bmod_le (by omega)) (by decide)
      _ ≤ io.deadline - now := Int.ediv_mul_le _ (by decide)
      _ ≤ io'.deadline - now := Int.sub_le_sub_right hfirst now

/-- A timer half a second away. -/
def soon : PollContext := { timeouts := [⟨1, .resumeAt 500000000⟩] }

theorem timeout_right_iff_soon : TimeoutRight soon 0 :=
  (timeout_right_iff soon 0 ⟨1, .resumeAt 500000000⟩ [] rfl (List.pairwise_singleton _ _)
    (by decide)).2 (by decide)

/-- A timer `2 ^ 31` milliseconds away, about 25 days: the time-out is negative, and `poll` waits
without a limit. -/
def farAway : PollContext := { timeouts := [⟨1, .resumeAt (2 ^ 31 * 10 ^ 6)⟩] }

theorem timeout_is_negative :
    ¬ ∀ (c : PollContext) (now : Time) (io : IoBase) (rest : List IoBase),
      c.timeouts = io :: rest → Timers.Sorted c.timeouts → now < io.deadline →
      TimeoutRight c now := by
  intro h
  have hright := h farAway 0 ⟨1, .resumeAt (2 ^ 31 * 10 ^ 6)⟩ [] rfl (List.pairwise_singleton _ _)
    (by decide)
  have htimeout : farAway.timeout 0 = -2 ^ 31 := by decide
  have hnil := hright.finite (by rw [htimeout]; decide)
  cases hnil

/-! ### All calls of `poll` in one `run_one` -/

/-- Time passes inside `poll` only: every answer comes with the time when `poll` returns, which is
what a clock reading gives then. -/
inductive Advances : Time → List (PollAnswer × Time) → Prop
  | nil (now : Time) : Advances now []
  | err {now later : Time} {e : Errno} {answers : List (PollAnswer × Time)} (h : now ≤ later)
      (hs : Advances later answers) : Advances now ((.err e, later) :: answers)
  | ok {now later : Time} {revents : List (BitVec 16)} {sys : List SysAnswer}
      {answers : List (PollAnswer × Time)} (h : now ≤ later) (hs : Advances later answers) :
      Advances now ((.ok revents later sys, later) :: answers)

/-- When `poll` is called after some answers. -/
def calledAt (now : Time) (before : List (PollAnswer × Time)) : Time :=
  (before.getLast?.map Prod.snd).getD now

@[simp] theorem calledAt_nil : calledAt now [] = now := rfl

/-- `run_one` does not sleep past a deadline: every time-out handed to `poll` ends before all
deadlines, and `poll` is not called again when a timer is due. -/
structure Punctual (c : PollContext) (now : Time) (answers : List (PollAnswer × Time)) : Prop where
  timeout : ∀ before after c₁, answers = before ++ after →
    Rounds now c (before.map Prod.fst) c₁ → ∀ io ∈ c.timeouts,
      0 ≤ c₁.timeout now ∧ c₁.timeout now * 10 ^ 6 ≤ io.deadline - calledAt now before
  due : ∀ before after c₁, answers = before ++ after → before ≠ [] →
    Rounds now c (before.map Prod.fst) c₁ → ∀ io ∈ c.timeouts, calledAt now before < io.deadline

/-- Answers that leave nothing to dispatch come before the first deadline, and no later after `now`
than the part of the distance to it that is less than a millisecond. -/
def WithinRemainder (c : PollContext) (now : Time) (answers : List (PollAnswer × Time)) : Prop :=
  ∀ before after, answers = before ++ after → before ≠ [] → (∀ a ∈ before, Idle c a.1) →
    ∀ io ∈ c.timeouts.head?, calledAt now before < io.deadline ∧
      calledAt now before - now ≤ (io.deadline - now) % 10 ^ 6

theorem Waited.timeout (h : Waited c c') (now : Time) : c'.timeout now = c.timeout now := by
  rw [PollContext.timeout, h.timeouts, PollContext.timeout]

theorem bmod_eq_self {q : ℤ} (h : 0 ≤ q) (hfit : q < 2 ^ 31) : q.bmod (2 ^ 32) = q := by
  rw [Int.bmod_def]
  split_ifs <;> omega

/-- A time-out that fits leaves the rest of the division by a million. -/
theorem timeout_mul (hl : c.timeouts = io :: rest) (hnow : now < io.deadline)
    (hfit : (io.deadline - now) / 10 ^ 6 < 2 ^ 31) :
    0 ≤ c.timeout now ∧
      c.timeout now * 10 ^ 6 = io.deadline - now - (io.deadline - now) % 10 ^ 6 := by
  have hnonneg : 0 ≤ (io.deadline - now) / 10 ^ 6 :=
    Int.ediv_nonneg (Int.sub_nonneg_of_le (Int.le_of_lt hnow)) (by decide)
  rw [timeout_cons hl hnow, bmod_eq_self hnonneg hfit]
  exact ⟨hnonneg, eq_sub_of_add_eq (Int.ediv_mul_add_emod _ _)⟩

/-- The distance without a part `r` of it fits from `t` on if at most `r` has passed. -/
theorem sub_sub_le_iff {d now t r : ℤ} : d - now - r ≤ d - t ↔ t - now ≤ r := by omega

theorem Waits.lt_deadline (hw : Waits c now) (hl : c.timeouts = io :: rest) :
    now < io.deadline := by
  have h := hw.timer
  rw [processTimeout, Option.map_eq_none_iff, hl] at h
  by_contra hnot
  rw [Timers.popDue?, if_pos (Int.not_lt.1 hnot)] at h
  cases h

theorem punctual_of_withinRemainder {answers : List (PollAnswer × Time)} (ha : Aligned c)
    (hs : Timers.Sorted c.timeouts) (hw : Waits c now) (hl : c.timeouts = io :: rest)
    (hfit : (io.deadline - now) / 10 ^ 6 < 2 ^ 31) (h : WithinRemainder c now answers) :
    Punctual c now answers := by
  have hfirst : ∀ io' ∈ c.timeouts, io.deadline ≤ io'.deadline := by
    intro io' hio'
    rw [hl] at hs hio'
    exact hs.first_le hio'
  obtain ⟨hnonneg, hmul⟩ := timeout_mul hl (hw.lt_deadline hl) hfit
  have hbound : ∀ before after c₁, answers = before ++ after →
      Rounds now c (before.map Prod.fst) c₁ → calledAt now before < io.deadline ∧
        calledAt now before - now ≤ (io.deadline - now) % 10 ^ 6 := by
    intro before after c₁ heq hr
    by_cases hne : before = []
    · subst hne
      rw [calledAt_nil, Int.sub_self]
      exact ⟨hw.lt_deadline hl, Int.emod_nonneg _ (by decide)⟩
    · refine h before after heq hne ?_ io (by rw [hl]; rfl)
      have hidle := (rounds_iff_idle _ ha).1 ⟨c₁, hr⟩
      exact fun a hmem => hidle a.1 (List.mem_map_of_mem hmem)
  refine ⟨fun before after c₁ heq hr io' hio' => ?_, fun before after c₁ heq hne hr io' hio' => ?_⟩
  · rw [hr.waited.timeout, hmul]
    refine ⟨hnonneg, (sub_sub_le_iff.2 (hbound before after c₁ heq hr).2).trans ?_⟩
    exact Int.sub_le_sub_right (hfirst io' hio') _
  · exact Int.lt_of_lt_of_le (hbound before after c₁ heq hr).1 (hfirst io' hio')

theorem withinRemainder_of_punctual {answers : List (PollAnswer × Time)} (ha : Aligned c)
    (hw : Waits c now) (hl : c.timeouts = io :: rest)
    (hfit : (io.deadline - now) / 10 ^ 6 < 2 ^ 31) (h : Punctual c now answers) :
    WithinRemainder c now answers := by
  intro before after heq hne hidle io' hio'
  obtain rfl : io = io' := by
    rw [hl] at hio'
    exact Option.some.inj hio'
  have hmem : io ∈ c.timeouts := by rw [hl]; exact List.mem_cons_self
  have hidle' : ∀ a ∈ before.map Prod.fst, Idle c a := by
    intro a hmem
    obtain ⟨b, hb, rfl⟩ := List.mem_map.1 hmem
    exact hidle b hb
  obtain ⟨c₁, hr⟩ := (rounds_iff_idle now ha).2 hidle'
  have htimeout := (h.timeout before after c₁ heq hr io hmem).2
  rw [hr.waited.timeout, (timeout_mul hl (hw.lt_deadline hl) hfit).2] at htimeout
  exact ⟨h.due before after c₁ heq hne hr io hmem, sub_sub_le_iff.1 htimeout⟩

/-- **`run_one` does not sleep past a deadline** if and only if every answer of `poll` that leaves
nothing to dispatch comes within the part of the first distance that is less than a millisecond: the
time-out is computed again, but from the old clock reading. -/
theorem punctual_iff (os : Os) (m : Machine PollContext Empty)
    (h : Runs pollBase free (initial os) m) (now : Time) (hw : Waits m.ctx now)
    (hfit : ∀ io ∈ m.ctx.timeouts, (io.deadline - now) / 10 ^ 6 < 2 ^ 31)
    (answers : List (PollAnswer × Time)) :
    Punctual m.ctx now answers ↔ WithinRemainder m.ctx now answers := by
  have ha := (pollInv_of_runs h).aligned
  cases hl : m.ctx.timeouts with
  | nil =>
    constructor
    · intro _ _ _ _ _ _ io hio
      rw [hl] at hio
      cases hio
    · intro _
      refine ⟨fun _ _ _ _ _ io hio => ?_, fun _ _ _ _ _ _ io hio => ?_⟩ <;> rw [hl] at hio <;>
        cases hio
  | cons io rest =>
    have hfit' := hfit io (by rw [hl]; exact List.mem_cons_self)
    exact ⟨withinRemainder_of_punctual ha hw hl hfit',
      punctual_of_withinRemainder ha (timeouts_sorted h) hw hl hfit'⟩

/-- A timer five and a half milliseconds away. -/
def halfMillisecond : List (Label Answers Unit PollCall) :=
  [.start ⟨1, .resumeAt 5500000⟩ { now := 0 } false ()]

theorem halfMillisecond_runs :
    ∃ m : Machine PollContext Empty, Runs pollBase free (initial {}) m ∧ Waits m.ctx 0 ∧
      m.ctx.poll = [] ∧ m.ctx.timeouts = [⟨1, .resumeAt 5500000⟩] := by
  obtain ⟨m, hrun, hm⟩ := runs_of_labels pollBase (initial {}) any any_free halfMillisecond
    (fun m => (m.ctx.poll, m.ctx.timeouts, m.ctx.tasks.head))
    ([], [⟨1, .resumeAt 5500000⟩], none) (by decide)
  obtain ⟨hpoll, htimeouts, htasks⟩ : _ ∧ _ ∧ _ := by simpa only [Prod.mk.injEq] using hm
  refine ⟨m, hrun, ⟨?_, ?_, by simp [htimeouts]⟩, hpoll, htimeouts⟩
  · rw [processTimeout, htimeouts]; rfl
  · rw [processTask, TaskList.pop?, htasks]; rfl

theorem punctual_iff_halfMillisecond :
    ∃ m : Machine PollContext Empty, Runs pollBase free (initial {}) m ∧
      m.ctx.timeouts = [⟨1, .resumeAt 5500000⟩] ∧
      Punctual m.ctx 0 [(.ok [] 5500000 [], 5500000)] := by
  obtain ⟨m, hrun, hw, -, htimeouts⟩ := halfMillisecond_runs
  refine ⟨m, hrun, htimeouts, (punctual_iff {} m hrun 0 hw ?_ _).2 ?_⟩
  · intro io hio
    rw [htimeouts] at hio
    obtain rfl := List.mem_singleton.1 hio
    decide
  · -- the only answer comes when the timer is due
    intro before after heq hne hidle io hio
    obtain ⟨a, before, rfl⟩ := List.exists_cons_of_ne_nil hne
    obtain ⟨rfl, -⟩ := List.cons.inj heq
    have hdue := (hidle _ List.mem_cons_self).2.2
    rw [processTimeout, htimeouts] at hdue
    cases hdue

/-- `poll` waits for five milliseconds and is called for five more when half a one is left. -/
theorem sleeps_past_deadline :
    ¬ ∀ (os : Os) (m : Machine PollContext Empty), Runs pollBase free (initial os) m →
      ∀ now, Waits m.ctx now →
      (∀ io ∈ m.ctx.timeouts, (io.deadline - now) / 10 ^ 6 < 2 ^ 31) →
      ∀ answers, Advances now answers → Punctual m.ctx now answers := by
  intro h
  obtain ⟨m, hrun, hw, hpoll, htimeouts⟩ := halfMillisecond_runs
  have hpunctual := h {} m hrun 0 hw (fun io hio => by
      rw [htimeouts] at hio
      obtain rfl := List.mem_singleton.1 hio
      decide)
    [(.ok [] 5000000 [], 5000000)] (.ok (by decide) (.nil _))
  have hidle : ∀ a ∈ [PollAnswer.ok [] 5000000 []], Idle m.ctx a := by
    intro a hmem
    obtain rfl := List.mem_singleton.1 hmem
    refine ⟨by rw [hpoll]; rfl, ?_, by rw [processTimeout, htimeouts]; rfl⟩
    rintro ⟨i, r, io, hr, -⟩
    cases hr
  obtain ⟨c₁, hr⟩ := (rounds_iff_idle 0 (pollInv_of_runs hrun).aligned).2 hidle
  have hmem : ⟨1, .resumeAt 5500000⟩ ∈ m.ctx.timeouts := by rw [htimeouts]; exact List.mem_cons_self
  have hle := (hpunctual.timeout _ [] c₁ (List.append_nil _).symm hr _ hmem).2
  rw [hr.waited.timeout, show m.ctx.timeout 0 = 5 by rw [timeout, htimeouts]; decide] at hle
  exact absurd hle (by decide)

end PollContext

end Net29
