import Net29.Poll.Ledger
import Net29.Uring.Ledger
import Net29.Iocp.Ledger

/-!
# What a receiver can rely on

Whatever the contexts and the system do, in any order:

* `at_most_one_signal`: an operation that was not started with a stopped token sends its receiver at
  most one signal, and exactly one on `uring_context` when nothing is outstanding any more;
* `unused_after_signal`: it is not used after the signal, as long as no submission is completed
  before it returns and no stop is requested of an operation that was aborted;
* `upstream_not_first`: the upstream sender of an operation is never started.
-/

namespace Net29

open Machine Transition

variable {C R A K T : Type} {B : ContextBase C R A K T} {L : Ledger B} {exact clean : Prop}
  {m : Machine C T} {o : OpId}

/-! ### The number of signals -/

/-- At most one signal. -/
theorem Ledger.Sound.signals_le_one (h : L.Sound exact clean m)
    (hstart : .started true ∉ (m.ops o).log) : (m.ops o).signals.length ≤ 1 :=
  ((h.safe o).resolve_left fun hr => hstart hr.1).2.1

/-- Where operations are not dropped, one that is owed nothing has been signalled. -/
theorem Ledger.Sound.signals_eq_one (h : L.Sound True clean m) (hstatus : m.status = none)
    (hstart : .started false ∈ (m.ops o).log) (hrefused : .started true ∉ (m.ops o).log)
    (hheld : L.held m.ctx o = 0) (hasked : L.asked m.ctx o = 0) :
    (m.ops o).signals.length = 1 := by
  cases h.phase hstatus o with
  | idle hs => rw [hs] at hstart; cases hstart
  | refused hr => exact absurd hr.started hrefused
  | done hd => exact hd.signals
  | live hl =>
    -- the counter is exactly what is owed, and it is positive
    have hpos := hl.pos
    have hbal := (hl.balance trivial).1
    omega

/-- Nothing is outstanding: nothing is owed. -/
theorem UringContext.UringInv.owes_nothing {c : UringContext} (hI : UringContext.UringInv c)
    (h : c.outstanding = 0) (o : OpId) : c.held o = 0 ∧ c.asked o = 0 := by
  have hnil : c.pointers = [] := List.length_eq_zero_iff.1 (hI.outstanding.symm.trans h)
  rw [UringContext.held, UringContext.asked, hnil]
  exact ⟨rfl, rfl⟩

/-- **At most one signal** is sent to the receiver of an operation that was not started with a
stopped token, on each of the three contexts; and exactly one on `uring_context` when nothing is
outstanding. -/
theorem at_most_one_signal (os : Os) (o : OpId) :
    (∀ m : Machine PollContext Empty, Runs pollBase free (PollContext.initial os) m →
      .started true ∉ (m.ops o).log → (m.ops o).signals.length ≤ 1) ∧
    (∀ m : Machine UringContext Empty, Runs uringBase free (UringContext.initial os) m →
      .started true ∉ (m.ops o).log → (m.ops o).signals.length ≤ 1) ∧
    (∀ m : Machine IocpContext StorageId, Runs iocpBase free (IocpContext.initial os) m →
      .started true ∉ (m.ops o).log → (m.ops o).signals.length ≤ 1) ∧
    (∀ m : Machine UringContext Empty, Runs uringBase free (UringContext.initial os) m →
      m.status = none → m.ctx.outstanding = 0 → .started false ∈ (m.ops o).log →
      .started true ∉ (m.ops o).log → (m.ops o).signals.length = 1) := by
  refine ⟨fun m h ho => ?_, fun m h ho => ?_, fun m h ho => ?_,
    fun m h hstatus hout hstart ho => ?_⟩
  · exact ((pollLedger_fresh os).sound (h.mono Ledger.guard_free)).signals_le_one ho
  · exact ((uringLedger_fresh os).sound (h.mono Ledger.guard_free)).signals_le_one ho
  · exact ((iocpLedger_fresh os).sound (h.mono Ledger.guard_free)).signals_le_one ho
  · have hsound :=
      (uringLedger_fresh os).sound (h.mono (Ledger.guard_of_not_drops fun _ _ hd => hd))
    obtain ⟨hheld, hasked⟩ := (show UringContext.UringInv m.ctx from hsound.inv).owes_nothing hout o
    exact hsound.signals_eq_one hstatus hstart ho hheld hasked

/-- A `receive` that is stopped after the bytes have arrived; both completions are read. -/
def stoppedReceive : List (Label UringRequest (List ℤ) UringCall) :=
  [.call (.makeSocket (.ok 3 [])), .start ⟨1, .receive 0 [8]⟩ {} false [], .stop 1 [],
    .call (.runOne 2 [⟨0, 5, []⟩, ⟨0, -2, []⟩] 0), .call (.runOne 0 [] 0)]

theorem at_most_one_signal_stoppedReceive :
    ∃ m : Machine UringContext Empty, Runs uringBase free (UringContext.initial {}) m ∧
      (m.ops 1).signals.length ≤ 1 ∧ (m.ops 1).signals.length = 1 := by
  obtain ⟨m, hrun, hm⟩ :=
    runs_of_labels uringBase (UringContext.initial {}) any any_free stoppedReceive
    (fun m => (m.status, m.ctx.outstanding, (m.ops 1).log))
    (none, 0, [.signal .setStopped, .counted, .called (.complete (.size 5)), .cancelAsked true,
      .counted, .submitted .submit, .started false]) (by decide)
  obtain ⟨hstatus, hout, hlog⟩ : _ ∧ _ ∧ _ := by simpa only [Prod.mk.injEq] using hm
  have hrefused : OpEvent.started true ∉ (m.ops 1).log := by rw [hlog]; decide
  obtain ⟨-, hle, -, heq⟩ := at_most_one_signal {} 1
  exact ⟨m, hrun, hle m hrun hrefused, heq m hrun hstatus hout (by rw [hlog]; decide) hrefused⟩

/-! ### Use after the signal -/

/-- The steps that neither submit an operation which the context completes before the submission
returns, nor request a stop of an operation whose receiver was signalled. -/
def Orderly (inline : IoBase → R → Prop) (m : Machine C T) : Label R A K → Prop
  | .start io req stopped _ => stopped = false → ¬ inline io req
  | .stop o _ => (m.ops o).signals = []
  | _ => True

theorem Orderly.guard {inline : IoBase → R → Prop} {l : Label R A K}
    (hinline : ∀ c io req, L.Inline c io req → inline io req) (h : Orderly inline m l) :
    L.Guard False True m l := by
  cases l with
  | start io req stopped a => exact fun _ hs hi => h hs (hinline _ _ _ hi)
  | stop o a => exact fun _ => h
  | call k => exact fun hx => hx.elim
  | ret => trivial
  | upstream => trivial

theorem Ledger.Sound.unused (h : L.Sound exact True m) (hstart : .started true ∉ (m.ops o).log) :
    UnusedAfterSignal (m.ops o) :=
  ((h.safe o).resolve_left fun hr => hstart hr.1).2.2.1 trivial

/-- **No use after the signal**, when no `connect` succeeds at once, no timer is submitted after its
deadline, and no stop is requested of an operation that was signalled (its callback stays registered
when it was aborted by the system). -/
theorem unused_after_signal (os : Os) (o : OpId) :
    (∀ m : Machine PollContext Empty,
      Runs pollBase (Orderly PollContext.Inline) (PollContext.initial os) m →
      .started true ∉ (m.ops o).log → UnusedAfterSignal (m.ops o)) ∧
    (∀ m : Machine UringContext Empty,
      Runs uringBase (Orderly fun _ _ => False) (UringContext.initial os) m →
      .started true ∉ (m.ops o).log → UnusedAfterSignal (m.ops o)) ∧
    (∀ m : Machine IocpContext StorageId,
      Runs iocpBase (Orderly IocpContext.Inline) (IocpContext.initial os) m →
      .started true ∉ (m.ops o).log → UnusedAfterSignal (m.ops o)) := by
  refine ⟨fun m h ho => ?_, fun m h ho => ?_, fun m h ho => ?_⟩
  · exact ((pollLedger_fresh os).sound
      (h.mono fun _ _ => Orderly.guard fun _ _ _ hi => hi)).unused ho
  · exact ((uringLedger_fresh os).sound
      (h.mono fun _ _ => Orderly.guard fun _ _ _ hi => hi)).unused ho
  · exact ((iocpLedger_fresh os).sound
      (h.mono fun _ _ => Orderly.guard fun _ _ _ hi => hi)).unused ho

/-- Only timers for 5 are started, at 2, and none is stopped. -/
def early (_ : Machine PollContext Empty) : Label Answers Unit PollCall → Bool
  | .start io req _ _ => io.op = .resumeAt 5 ∧ req.now = 2
  | .stop _ _ => false
  | _ => true

theorem early_orderly (m : Machine PollContext Empty) (l : Label Answers Unit PollCall)
    (h : early m l = true) : Orderly PollContext.Inline m l := by
  cases l with
  | start io req stopped a =>
    obtain ⟨hop, hnow⟩ := of_decide_eq_true h
    simp [Orderly, PollContext.Inline, hop, hnow]
  | stop o a => cases h
  | _ => trivial

theorem unused_after_signal_timer :
    ∃ m : Machine PollContext Empty,
      Runs pollBase (Orderly PollContext.Inline) (PollContext.initial {}) m ∧
      (m.ops 1).signals = [.setValue .unit] ∧ UnusedAfterSignal (m.ops 1) := by
  obtain ⟨m, hrun, hm⟩ := runs_of_labels pollBase (PollContext.initial {}) early early_orderly
    [.start ⟨1, .resumeAt 5⟩ { now := 2 } false (), .call (.runOne 5 []), .ret]
    (fun m => (m.ops 1).log)
    [.signal (.setValue .unit), .called (.complete .unit), .submitted .submit, .started false]
    (by decide)
  refine ⟨m, hrun, ?_, (unused_after_signal {} 1).1 m hrun (by rw [hm]; decide)⟩
  rw [SenderState.signals, hm]
  rfl

/-- A timer whose deadline has passed when it is submitted: the context completes it, its receiver
returns, and `start` completes it again. -/
def passedDeadline : List (Label Answers Unit PollCall) :=
  [.start ⟨1, .resumeAt 5⟩ { now := 7 } false (), .ret]

theorem used_after_signal :
    ¬ ((∀ (os : Os) (m : Machine PollContext Empty), Runs pollBase free (PollContext.initial os) m →
        ∀ o, .started true ∉ (m.ops o).log → UnusedAfterSignal (m.ops o)) ∧
      (∀ (os : Os) (m : Machine UringContext Empty),
        Runs uringBase free (UringContext.initial os) m →
        ∀ o, .started true ∉ (m.ops o).log → UnusedAfterSignal (m.ops o)) ∧
      (∀ (os : Os) (m : Machine IocpContext StorageId),
        Runs iocpBase free (IocpContext.initial os) m →
        ∀ o, .started true ∉ (m.ops o).log → UnusedAfterSignal (m.ops o))) := by
  rintro ⟨h, -, -⟩
  obtain ⟨m, hrun, hm⟩ :=
    runs_of_labels pollBase (PollContext.initial {}) any any_free passedDeadline
    (fun m => (m.ops 1).log)
    [.called (.complete .unit), .signal (.setValue .unit), .called (.complete .unit),
      .submitted .ready, .started false] (by decide)
  have hunused := h {} m hrun 1 (by rw [hm]; decide) (.setValue .unit)
  rw [hm] at hunused
  exact hunused (by decide)

/-! ### The upstream sender -/

/-- The operation runs after its upstream sender: that was started once, the operation was submitted
only after it sent a value, and any other signal of it is the one the receiver got. -/
structure UpstreamFirst (s : SenderState) : Prop where
  started : s.upstream.starts = 1
  value : ∀ r, .submitted r ∈ s.log → s.upstream.sent = some .value
  error : ∀ e, s.upstream.sent = some (.error e) →
    s.signals = [.setError (.upstream e)] ∧ ∀ r, .submitted r ∉ s.log
  stopped : s.upstream.sent = some .stopped → s.signals = [.setStopped] ∧ ∀ r, .submitted r ∉ s.log

/-- **The upstream sender does not come first**, on any context: in no run is it started, and every
operation that was submitted was submitted without a value from it. -/
theorem upstream_not_first (B : ContextBase C R A K T) (c : C) (m : Machine C T)
    (h : Runs B free c m) (o : OpId) (_ : (m.ops o).log ≠ []) :
    ¬ UpstreamFirst (m.ops o) ∧
      ∀ r, .submitted r ∈ (m.ops o).log → (m.ops o).upstream.sent ≠ some .value := by
  have hz := h.never_started o
  refine ⟨fun hf => ?_, fun r _ => ?_⟩
  · have hs := hf.started
    rw [hz] at hs
    cases hs
  · rw [hz]; simp

theorem upstream_not_first_timer :
    ∃ m : Machine PollContext Empty, Runs pollBase free (PollContext.initial {}) m ∧
      .submitted .submit ∈ (m.ops 1).log ∧ ¬ UpstreamFirst (m.ops 1) := by
  obtain ⟨m, hrun, hm⟩ := runs_of_labels pollBase (PollContext.initial {}) any any_free
    [.start ⟨1, .resumeAt 5⟩ { now := 2 } false ()] (fun m => (m.ops 1).log)
    [.submitted .submit, .started false] (by decide)
  exact ⟨m, hrun, by rw [hm]; decide,
    (upstream_not_first pollBase (PollContext.initial {}) m hrun 1 (by rw [hm]; simp)).1⟩

/-- An operation with an upstream sender, started: it is submitted at once. -/
theorem submitted_without_upstream :
    ¬ ∀ (os : Os) (m : Machine PollContext Empty), Runs pollBase free (PollContext.initial os) m →
      ∀ o, (m.ops o).log ≠ [] → UpstreamFirst (m.ops o) := by
  intro h
  obtain ⟨m, hrun, hm⟩ := runs_of_labels pollBase (PollContext.initial {}) any any_free
    [.start ⟨1, .resumeAt 5⟩ { now := 2 } false ()]
    (fun m => ((m.ops 1).log, (m.ops 1).upstream.starts))
    ([.submitted .submit, .started false], 0) (by decide)
  obtain ⟨hlog, hstarts⟩ : _ ∧ _ := by simpa only [Prod.mk.injEq] using hm
  have hs := (h {} m hrun 1 (by rw [hlog]; simp)).started
  rw [hstarts] at hs
  cases hs

end Net29
