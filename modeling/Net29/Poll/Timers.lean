import Net29.Poll.Steps

/-!
# Timers of `poll_context`

A timer is completed by `resume_at`, when its deadline has passed already, or by `run_one`, which
looks at the first timer after every clock reading.

* `Fires`: the steps in which the clock is read and the timer completed;
* `timers_fire_in_order`: a timer fires in no other step, and is pending until it does or is
  cancelled.
-/

namespace Net29

open Machine Transition

/-- `complete` of the operation was called. -/
def SenderState.Completed (s : SenderState) : Prop := ∃ v, .complete v ∈ s.calls

/-- `cancel` of the operation was called. -/
def SenderState.WasCancelled (s : SenderState) : Prop := .cancel ∈ s.calls

namespace PollContext

variable {c c' : PollContext} {io : IoBase} {o : OpId} {fs : List (Frame Empty)} {now t : Time}
  {reading : Time} {answers : List PollAnswer} {s : SenderState} {x : Signal}
  {m m' : Machine PollContext Empty} {l : Label Answers Unit PollCall}

/-! ### The calls of an operation -/

/-- All calls of the operation ask for what its receiver was sent. -/
def Agrees (s : SenderState) : Prop :=
  s.signals = [] ∧ s.calls = [] ∨
    ∃ x, s.signals = [x] ∧ s.calls ≠ [] ∧ ∀ call ∈ s.calls, call.signal = x

theorem Stands.agrees {k : ℕ} (h : Stands s k) : Agrees s := by
  cases h with
  | idle hs => subst hs; exact .inl ⟨rfl, rfl⟩
  | waiting h => exact .inl ⟨h.signals, h.calls⟩
  | lost h => exact .inl ⟨h.signals, h.calls⟩
  | ended h => exact .inr ⟨_, h.signals, h.called, h.calls⟩

theorem Agrees.not_both (h : Agrees s) (hcancel : s.WasCancelled) : ¬ s.Completed := by
  rintro ⟨v, hv⟩
  rcases h with ⟨-, hnil⟩ | ⟨x, -, -, hall⟩
  · rw [hnil] at hv
    cases hv
  · have hsame := (hall _ hv).trans (hall _ hcancel).symm
    cases hsame

theorem Agrees.completed_iff (h : Agrees s) : s.Completed ↔ ∃ v, .setValue v ∈ s.signals := by
  rcases h with ⟨hsig, hnil⟩ | ⟨x, hsig, hne, hall⟩
  · simp [SenderState.Completed, hsig, hnil]
  · rw [hsig]
    constructor
    · rintro ⟨v, hv⟩
      exact ⟨v, by rw [← hall _ hv]; exact List.mem_singleton.2 rfl⟩
    · rintro ⟨v, hv⟩
      obtain ⟨call, hcall⟩ := List.exists_mem_of_ne_nil _ hne
      have hx := (hall call hcall).trans (List.mem_singleton.1 hv).symm
      cases call with
      | complete w => exact ⟨w, hcall⟩
      | error e => cases hx
      | cancel => cases hx

/-- A step ends the process without a call of an operation, or the process goes on. -/
theorem PollStep.goes_on (h : PollStep m l m') (hstatus : m.status = none) :
    m'.status = none ∨
      ∀ o, (m'.ops o).calls = (m.ops o).calls ∧ (m'.ops o).signals = (m.ops o).signals := by
  cases h with
  | ended _ _ _ hops => exact .inr hops
  | _ => exact .inl hstatus

/-- In every state reached, also when the process has ended. -/
theorem agrees_of_runs {os : Os} (h : Runs pollBase free (initial os) m) (o : OpId) :
    Agrees (m.ops o) := by
  refine Reaches.invariant₂ (I := fun m : Machine PollContext Empty => ∀ o, Agrees (m.ops o))
    (J := fun m => Runs pollBase free (initial os) m) h (fun _ hm => hm)
    (fun _ => .inl ⟨rfl, rfl⟩) (fun m l m' hm hI _ hstep o => ?_) o
  rcases (pollStep_of_runs hm hstep).goes_on (status_of_step hstep) with hnone | hops
  · exact ((stepInv_of_runs (hm.tail (l := l) trivial hstep) hnone).stands o).agrees
  · unfold Agrees
    rw [(hops o).1, (hops o).2]
    exact hI o

/-- **A timer that was neither completed nor cancelled is pending**, with its own deadline. -/
theorem StepInv.pending (hI : StepInv m) (hop : (m.ops o).op = .resumeAt t)
    (hlog : (m.ops o).log ≠ []) (hcompleted : ¬ (m.ops o).Completed)
    (hcancelled : ¬ (m.ops o).WasCancelled) : ⟨o, .resumeAt t⟩ ∈ m.ctx.timeouts := by
  have hnot : (m.ops o).op.onSocket ≠ true := by rw [hop]; simp [Operation.onSocket]
  generalize hk : m.ctx.held o = k
  have hst := hI.stands o
  rw [hk] at hst
  cases hst with
  | idle hs => rw [hs] at hlog; exact absurd rfl hlog
  | lost _ hon => exact absurd hon hnot
  | waiting h =>
    have hpos : 0 < occurrences (m.ctx.outstanding ++ m.ctx.timeouts) o := by
      rw [occurrences_append]
      exact Nat.lt_of_lt_of_eq Nat.one_pos hk.symm
    obtain ⟨⟨self, op⟩, hio, rfl⟩ := occurrences_pos.1 hpos
    rcases List.mem_append.1 hio with hio | hio
    · obtain ⟨heq, hon⟩ := hI.queued _ hio
      exact absurd (heq.symm ▸ hon) hnot
    · obtain rfl : op = .resumeAt t := (hI.timers _ hio).1.symm.trans hop
      exact hio
  | ended h =>
    obtain ⟨call, hcall⟩ := List.exists_mem_of_ne_nil _ h.called
    cases call with
    | complete v => exact absurd ⟨v, hcall⟩ hcompleted
    | cancel => exact absurd hcall hcancelled
    | error e => exact absurd (h.fails e (h.calls _ hcall).symm) hnot

/-! ### Firing -/

/-- A timer that a clock reading finds due is the first, and the deadline is not after it. -/
theorem FoundDue.first (h : FoundDue c now answers reading c' fs) (hs : Timers.Sorted c.timeouts) :
    ∃ io ∈ c.timeouts, fs = [.complete io.self none] ∧ io.deadline ≤ reading ∧
      ∀ io' ∈ c.timeouts, io.deadline ≤ io'.deadline := by
  have hfirst : ∀ {c₁ : PollContext}, c₁.timeouts = c.timeouts →
      c₁.processTimeout reading = some (c', fs) →
      ∃ io ∈ c.timeouts, fs = [.complete io.self none] ∧ io.deadline ≤ reading ∧
        ∀ io' ∈ c.timeouts, io.deadline ≤ io'.deadline := by
    intro c₁ hsame hdue
    obtain ⟨io, rest, hl, hle, -, rfl⟩ := processTimeout_eq_some hdue
    rw [← hsame, hl] at hs ⊢
    exact ⟨io, List.mem_cons_self, rfl, hle, fun io' hio' => hs.first_le hio'⟩
  cases h with
  | atOnce hdue => exact hfirst rfl hdue
  | later hanswers hr hlen _ hdue =>
    refine hfirst ?_ hdue
    exact ((waited_handed _ now).trans (waited_report hlen)).timeouts.trans hr.waited.timeouts

/-- The steps that complete the timer `o` with deadline `t` right after a clock reading: `resume_at`
or, if no pending timer has an earlier deadline, `run_one`. -/
inductive Fires (m : Machine PollContext Empty) (o : OpId) (t : Time) :
    Label Answers Unit PollCall → Time → Prop
  | submission (req : Answers) (a : Unit) :
      Fires m o t (.start ⟨o, .resumeAt t⟩ req false a) req.now
  | due {now reading : Time} {answers : List PollAnswer} {c : PollContext}
      (h : FoundDue m.ctx now answers reading c [.complete o none])
      (hpending : ⟨o, .resumeAt t⟩ ∈ m.ctx.timeouts)
      (hfirst : ∀ io ∈ m.ctx.timeouts, t ≤ io.deadline) :
      Fires m o t (.call (.runOne now answers)) reading

/-- A timer whose submission completes it. -/
theorem le_of_inline {req : Answers} {r : SubmitResult} (hb : AllBlocking c)
    (hop : io.op = .resumeAt t)
    (h : c.submit io req = .ok (c', [.complete io.self none], r)) : t ≤ req.now := by
  have hinline : Inline io req := by
    cases submit_cases hb h with
    | due hinline => exact hinline
    | connected hinline => exact hinline
  rw [Inline, hop] at hinline
  exact hinline

/-- A timer that a call of the context completes. -/
theorem fires_of_call (hI : StepInv m) (hs : Timers.Sorted m.ctx.timeouts) {k : PollCall}
    {v : Option Value} (hop : (m.ops o).op = .resumeAt t)
    (h : pollBase.call m.ctx k = .ok (c, [.complete o v])) :
    ∃ reading, Fires m o t (.call k) reading ∧ t ≤ reading := by
  have hrunOne : ∃ now answers n, k = .runOne now answers ∧
      m.ctx.runOne now answers = .ok (c, [.complete o v], n) := by
    cases call_cases h with
    | runOne hrun => exact ⟨_, _, _, rfl, hrun⟩
  obtain ⟨now, answers, n, rfl, hrun⟩ := hrunOne
  have hexits := runOne_exits hrun
  generalize hfs : [Frame.complete o v] = fs at hexits
  cases hexits with
  | @timer reading _ _ hdue =>
    obtain ⟨⟨self, op⟩, hio, heq, hle, hfirst⟩ := hdue.first hs
    subst hfs
    cases heq
    obtain rfl : op = .resumeAt t := (hI.timers _ hio).1.symm.trans hop
    exact ⟨reading, .due hdue hio hfirst, hle⟩
  | task htask =>
    obtain ⟨_, _, -, -, rfl⟩ := processTask_eq_some htask
    cases hfs
  | empty => cases hfs
  | failed => cases hfs
  | @entry _ _ _ _ _ _ _ _ io _ _ _ _ _ hr _ _ hio hwork =>
    -- an entry that was reported is no timer
    obtain ⟨heq, hon⟩ := hI.queued io (hr.waited.outstanding ▸ List.mem_of_getElem? hio)
    rcases (work_cases hwork).frames with rfl | ⟨f, hf, rfl⟩
    · cases hfs
    · cases hfs
      cases hf
      rw [← heq, hop] at hon
      cases hon

/-- Only these steps complete a timer that was not completed. -/
theorem PollStep.fires (hI : StepInv m) (hs : Timers.Sorted m.ctx.timeouts) (h : PollStep m l m')
    (hop : (m'.ops o).op = .resumeAt t) (hnot : ¬ (m.ops o).Completed)
    (hcompleted : (m'.ops o).Completed) : ∃ reading, Fires m o t l reading ∧ t ≤ reading := by
  -- the operation whose state the step replaces
  have hself : ∀ {o' : OpId} {s' : SenderState}, m'.ops = (m.set o' s').ops →
      o' = o ∧ s'.op = .resumeAt t ∧ s'.Completed := by
    intro o' s' hops
    rw [hops] at hop hcompleted
    by_cases ho : o' = o
    · subst ho
      rw [set_ops_self] at hop hcompleted
      exact ⟨rfl, hop, hcompleted⟩
    · rw [set_ops_of_ne _ _ (Ne.symm ho)] at hcompleted
      exact absurd hcompleted hnot
  have hover : ∀ {s' : SenderState} {x : Signal}, Over s' x → s'.Completed → ∃ v, x = .setValue v :=
    fun hx ⟨v, hv⟩ => ⟨v, (hx.calls _ hv).symm⟩
  cases h with
  | ended _ _ _ hops =>
    obtain ⟨v, hv⟩ := hcompleted
    exact absurd ⟨v, (hops o).1 ▸ hv⟩ hnot
  | queued =>
    obtain ⟨-, -, v, hv⟩ := hself rfl
    cases hv
  | @inline io req a c _ hsub =>
    obtain ⟨rfl, hop', -⟩ := hself rfl
    rw [SenderState.complete_last (waiting_begun _ _).outstanding] at hop'
    obtain ⟨self, op⟩ := io
    obtain rfl : op = .resumeAt t := hop'
    exact ⟨req.now, .submission req a, le_of_inline hI.inv.blocking rfl hsub⟩
  | failed _ hsub =>
    obtain ⟨-, -, hc⟩ := hself rfl
    obtain ⟨v, hv⟩ := hover ((waiting_begun _ _).error (submit_failed hsub) _) hc
    cases hv
  | cancelled hw =>
    obtain ⟨-, -, hc⟩ := hself rfl
    obtain ⟨v, hv⟩ := hover hw.over_stopped hc
    cases hv
  | silent => exact absurd hcompleted hnot
  | task => exact absurd hcompleted hnot
  | completed hw hcall =>
    obtain ⟨rfl, hop', -⟩ := hself rfl
    rw [SenderState.complete_last hw.outstanding] at hop'
    exact fires_of_call hI hs hop' hcall
  | @errored _ _ o' e hw =>
    obtain ⟨-, -, v, hv⟩ := hself rfl
    rw [SenderState.error, SenderState.countDown_last hw.outstanding] at hv
    rcases List.mem_cons.1 (show _ ∈ IoCall.error e :: (m.ops o').calls from hv) with hv | hv
    · cases hv
    · rw [hw.calls] at hv
      cases hv
  | returned => exact absurd hcompleted hnot
  | repeated _ hx =>
    obtain ⟨rfl, -, -⟩ := hself rfl
    obtain ⟨call, hcall⟩ := List.exists_mem_of_ne_nil _ hx.called
    have hsame := hx.calls call hcall
    cases call with
    | complete w => exact absurd ⟨w, hcall⟩ hnot
    | error e => cases hsame
    | cancel => cases hsame

/-- **Timers fire neither early nor out of order**, in every run and whatever the clock reads: a
timer is first completed right after a reading that is not before its deadline, by `run_one` only if
no pending timer has an earlier one; its receiver is sent `set_value` then and only then; one that
was cancelled is never completed; and one that was started and neither completed nor cancelled is
pending. -/
theorem timers_fire_in_order (os : Os) (m : Machine PollContext Empty)
    (h : Runs pollBase free (initial os) m) :
    (∀ l m', m.step pollBase l = some m' → ∀ o t, (m'.ops o).op = .resumeAt t →
      ¬ (m.ops o).Completed → (m'.ops o).Completed →
      ∃ reading, Fires m o t l reading ∧ t ≤ reading) ∧
    (∀ o, (m.ops o).Completed ↔ ∃ v, .setValue v ∈ (m.ops o).signals) ∧
    (∀ o, (m.ops o).WasCancelled →
      ∀ m', Reaches (step pollBase) free m m' → ¬ (m'.ops o).Completed) ∧
    (m.status = none → ∀ o t, (m.ops o).op = .resumeAt t → (m.ops o).log ≠ [] →
      ¬ (m.ops o).Completed → ¬ (m.ops o).WasCancelled → ⟨o, .resumeAt t⟩ ∈ m.ctx.timeouts) := by
  refine ⟨fun l m' hstep o t hop hnot hc => ?_, fun o => (agrees_of_runs h o).completed_iff,
    fun o hcancel m' hm' => ?_, fun hstatus o t => (stepInv_of_runs h hstatus).pending⟩
  · exact (pollStep_of_runs h hstep).fires (stepInv_of_runs h (status_of_step hstep))
      (timeouts_sorted h) hop hnot hc
  · -- what was called stays recorded
    have hkept : (m'.ops o).WasCancelled := by
      refine Reaches.invariant₂ (I := fun m : Machine PollContext Empty => (m.ops o).WasCancelled)
        (J := fun m => ∀ o, (m.ops o).upstream = {}) hm'
        (fun _ hr => Runs.never_started (Relation.ReflTransGen.trans h hr)) hcancel
        fun _ _ _ hz hI _ hstep => ?_
      exact ((log_step hstep hz o).filterMap _).subset hI
    exact (agrees_of_runs (Relation.ReflTransGen.trans h hm') o).not_both hkept

/-- Two timers, the later one started first. -/
def twoTimers : List (Label Answers Unit PollCall) :=
  [.start ⟨1, .resumeAt 5⟩ { now := 0 } false (), .start ⟨2, .resumeAt 3⟩ { now := 0 } false ()]

theorem timers_fire_in_order_twoTimers :
    ∃ m : Machine PollContext Empty, Runs pollBase free (initial {}) m ∧
      (∃ reading, Fires m 2 3 (.call (.runOne 4 [])) reading ∧ 3 ≤ reading) ∧
      ⟨1, .resumeAt 5⟩ ∈ m.ctx.timeouts := by
  obtain ⟨m, hrun, hm⟩ := runs_of_labels pollBase (initial {}) any any_free twoTimers
    (fun m => (m.status, (m.ops 1).op, (m.ops 1).log, (m.ops 2).calls,
      (m.step pollBase (.call (.runOne 4 []))).map fun m' => ((m'.ops 2).op, (m'.ops 2).calls)))
    (none, .resumeAt 5, [.submitted .submit, .started false], [],
      some (.resumeAt 3, [.complete .unit])) rfl
  obtain ⟨hstatus, hop, hlog, hcalls, hstep⟩ : _ ∧ _ ∧ _ ∧ _ ∧ _ := by
    simpa only [Prod.mk.injEq] using hm
  obtain ⟨m', hstep, hm'⟩ := Option.map_eq_some_iff.1 hstep
  obtain ⟨hop', hcalls'⟩ : _ ∧ _ := by simpa only [Prod.mk.injEq] using hm'
  obtain ⟨hfires, -, -, hpending⟩ := timers_fire_in_order {} m hrun
  refine ⟨m, hrun, hfires _ m' hstep 2 3 hop' ?_ ⟨.unit, by rw [hcalls']; exact List.mem_cons_self⟩,
    hpending hstatus 1 5 hop (by rw [hlog]; simp) ?_ ?_⟩
  · rintro ⟨v, hv⟩
    rw [hcalls] at hv
    cases hv
  · rintro ⟨v, hv⟩
    rw [SenderState.calls, hlog] at hv
    cases hv
  · intro hc
    rw [SenderState.WasCancelled, SenderState.calls, hlog] at hc
    cases hc

end PollContext

end Net29
