import Net29.Poll.Timers

/-!
# `resume_after`

The descriptor of `resume_after` reads the clock, adds the duration and hands the sum to `resume_at`
as a deadline. Ticks of the clock are nanoseconds in 64 bits, durations are given in microseconds.

* `toTicks`, `afterDeadline`, `ResumeAfterDesc.submit`;
* `NeverEarly`: the receiver is not sent `set_value` before the duration has passed, in any run;
* `resume_after_not_early_iff`: the durations for which that holds.
-/

namespace Net29

open Machine Transition

/-- Microseconds as a `duration` of `system_clock`. -/
def toTicks (duration : ℤ) : ℤ := (duration * 1000).bmod (2 ^ 64)

/-- `system_clock::now() + d_duration`. -/
def afterDeadline (start : Time) (duration : ℤ) : Time := (start + toTicks duration).bmod (2 ^ 64)

/-- `resume_after_desc::data::submit`, with the clock reading. -/
def ResumeAfterDesc.submit (start : Time) (duration : ℤ) : Operation :=
  .resumeAt (afterDeadline start duration)

/-- A number of 64 bits, with a sign. -/
def Fits64 (x : ℤ) : Prop := -2 ^ 63 ≤ x ∧ x < 2 ^ 63

instance (x : ℤ) : Decidable (Fits64 x) := inferInstanceAs (Decidable (_ ∧ _))

namespace PollContext

variable {start : Time} {duration : ℤ}

/-- The sum is computed modulo `2 ^ 64`. -/
theorem afterDeadline_eq (start : Time) (duration : ℤ) :
    afterDeadline start duration = (start + 1000 * duration).bmod (2 ^ 64) := by
  rw [afterDeadline, toTicks, Int.add_bmod_bmod, Int.mul_comm]

theorem afterDeadline_lt (start : Time) (duration : ℤ) : afterDeadline start duration < 2 ^ 63 := by
  rw [afterDeadline_eq]
  exact Int.bmod_lt (by decide)

theorem bmod_of_fits64 {x : ℤ} (h : Fits64 x) : x.bmod (2 ^ 64) = x := by
  obtain ⟨hlow, hhigh⟩ := h
  exact Int.bmod_eq_of_le (by omega) (by omega)

/-- Nothing is lost when the sum fits. -/
theorem afterDeadline_of_lt (hstart : Fits64 start) (hduration : 0 ≤ duration)
    (h : start + 1000 * duration < 2 ^ 63) :
    afterDeadline start duration = start + 1000 * duration := by
  have hnonneg : 0 ≤ 1000 * duration := Int.mul_nonneg (by decide) hduration
  rw [afterDeadline_eq]
  exact bmod_of_fits64 ⟨Int.le_trans hstart.1 (Int.le_add_of_nonneg_right hnonneg), h⟩

/-- In no run is the receiver of a `resume_after` that read the clock at `start` sent `set_value`,
unless the clock was read again, and was not before the end of the duration. -/
def NeverEarly (start : Time) (duration : ℤ) : Prop :=
  ∀ (os : Os) (m m' : Machine PollContext Empty) (l : Label Answers Unit PollCall) (o : OpId),
    Runs pollBase free (initial os) m → m.step pollBase l = some m' →
      (m'.ops o).op = ResumeAfterDesc.submit start duration →
      (∀ v, .setValue v ∉ (m.ops o).signals) → (∃ v, .setValue v ∈ (m'.ops o).signals) →
      ∃ reading, Fires m o (afterDeadline start duration) l reading ∧
        start + 1000 * duration ≤ reading

/-- A deadline that is not too small is waited for. -/
theorem neverEarly_of_le (h : start + 1000 * duration ≤ afterDeadline start duration) :
    NeverEarly start duration := by
  intro os m m' l o hm hstep hop hnone hsome
  have hnot : ¬ (m.ops o).Completed := fun hc => by
    obtain ⟨v, hv⟩ := (agrees_of_runs hm o).completed_iff.1 hc
    exact hnone v hv
  have hcompleted := (agrees_of_runs (hm.tail (l := l) trivial hstep) o).completed_iff.2 hsome
  obtain ⟨reading, hfires, hle⟩ := (pollStep_of_runs hm hstep).fires
    (stepInv_of_runs hm (status_of_step hstep)) (timeouts_sorted hm) hop hnot hcompleted
  exact ⟨reading, hfires, Int.le_trans h hle⟩

/-- A timer whose deadline has passed is completed by its submission. -/
theorem step_of_due {t : Time} {req : Answers} (hdue : t ≤ req.now) :
    ∃ m', ({ ctx := initial {} } : Machine PollContext Empty).step pollBase
        (.start ⟨1, .resumeAt t⟩ req false ()) = some m' ∧
      (m'.ops 1).op = .resumeAt t ∧ .setValue .unit ∈ (m'.ops 1).signals := by
  have hsubmit : pollBase.submit (initial {}) ⟨1, .resumeAt t⟩ req =
      .ok (initial {}, [.complete 1 none], .ready) := if_neg (Int.not_lt.2 hdue)
  simp only [Machine.step, Machine.start, set_ctx, hsubmit, Option.isSome_none]
  exact ⟨_, rfl, rfl, List.mem_singleton.2 rfl⟩

/-- **When the sum does not fit**, the timer fires at a reading before the end of the duration: the
deadline is one. -/
theorem not_neverEarly (hstart : Fits64 start) (h : 2 ^ 63 ≤ start + 1000 * duration) :
    ¬ NeverEarly start duration := by
  intro hnever
  -- the clock does not run backwards either
  let req : Answers := { now := max start (afterDeadline start duration) }
  have hreq : req.now < 2 ^ 63 := max_lt hstart.2 (afterDeadline_lt start duration)
  have hdue : afterDeadline start duration ≤ req.now := le_max_right ..
  obtain ⟨m', hstep, hop, hsignal⟩ := step_of_due hdue
  obtain ⟨reading, hfires, hle⟩ := hnever {} _ m' _ 1 (.refl _) hstep hop
    (fun v hv => by cases hv) ⟨_, hsignal⟩
  cases hfires with
  | submission => exact absurd (Int.le_trans h hle) (Int.not_le.2 hreq)

/-- **`resume_after` is never early** if and only if the start time plus the duration is a time of
the clock, in 64 bits. -/
theorem resume_after_not_early_iff (start : Time) (duration : ℤ) (hstart : Fits64 start)
    (hduration : 0 ≤ duration) :
    NeverEarly start duration ↔ start + 1000 * duration < 2 ^ 63 := by
  constructor
  · intro hnever
    by_contra hnot
    exact not_neverEarly hstart (Int.not_lt.1 hnot) hnever
  · intro hlt
    exact neverEarly_of_le (Int.le_of_eq (afterDeadline_of_lt hstart hduration hlt).symm)

/-- One second, from the epoch. -/
theorem resume_after_not_early_iff_second : NeverEarly 0 1000000 :=
  (resume_after_not_early_iff 0 1000000 (by decide) (by decide)).2 (by decide)

/-- The greatest duration of all, at a time in 2023: the deadline is a microsecond before the start.
-/
theorem resume_after_is_early :
    ¬ ∀ start duration, Fits64 start → Fits64 duration → 0 ≤ duration →
      NeverEarly start duration := by
  intro h
  have hstart : Fits64 (1700000000 * 10 ^ 9) := by decide
  have hover : (2 : ℤ) ^ 63 ≤ 1700000000 * 10 ^ 9 + 1000 * (2 ^ 63 - 1) := by decide
  exact not_neverEarly hstart hover (h _ _ hstart (by decide) (by decide))

end PollContext

end Net29
