import Net29.Poll.Pending
import Net29.Uring.Ledger
import Net29.Iocp.Ledger

/-!
# Cancel requests

The stop callback of an operation asks the context to cancel it. What `poll_context::cancel` does
with an operation it does not have is `std::terminate`.

* `asked_while_pending`: the context is only asked for operations it has, except for those that are
  started with a token that is stopped already; `poll_context` moreover must not have dropped one;
* `asked_at_start`: such a token asks for an operation that was never submitted.
-/

namespace Net29

open Machine Transition

variable {C R A K T : Type} {B : ContextBase C R A K T} {L : Ledger B} {exact clean : Prop}
  {m : Machine C T} {o : OpId}

/-- The context is asked to cancel an operation only while it has it. One that is started with a
stopped token gets exactly one `set_stopped` and is not submitted. -/
structure ProperlyCancelled (s : SenderState) : Prop where
  pending : AskedWhilePending s
  stopped : .started true ∈ s.log → s.signals = [.setStopped] ∧ ∀ r, .submitted r ∉ s.log

/-- Where operations are not dropped, only a token that is stopped at the start matters. -/
theorem Ledger.Sound.properlyCancelled_iff (h : L.Sound True clean m) (o : OpId) :
    ProperlyCancelled (m.ops o) ↔ .started true ∉ (m.ops o).log := by
  constructor
  · intro hp hstart
    rcases h.safe o with ⟨-, hasked⟩ | ⟨hnot, -⟩
    · cases hp.pending false hasked
    · exact hnot hstart
  · intro hstart
    exact ⟨((h.safe o).resolve_left fun hr => hstart hr.1).2.2.2 trivial,
      fun hs => absurd hs hstart⟩

/-- `poll_context::cancel` terminates only for operations that the context does not have. -/
theorem PollContext.cancel_ne_terminate {c : PollContext} {io : IoBase} (h : 0 < c.held io.self) :
    c.cancel io () ≠ .error .terminate := fun hcancel => by
  have hnone := cancel_terminates hcancel
  rw [held, hnone] at h
  exact Nat.lt_irrefl 0 h

/-- **Cancel requests are for pending operations**, unless an operation is started with a stopped
token; on `poll_context` in the runs in which no work function is answered `EWOULDBLOCK`, and there
no stop request terminates the process. -/
theorem asked_while_pending (os : Os) (o : OpId) :
    (∀ m : Machine PollContext Empty, Runs pollBase NotBlocked (PollContext.initial os) m →
      (ProperlyCancelled (m.ops o) ↔ .started true ∉ (m.ops o).log) ∧
      (m.status = none → (m.ops o).callback = .registered →
        (m.stopCallback pollBase o ()).2 ≠ .error .terminate)) ∧
    (∀ m : Machine UringContext Empty, Runs uringBase free (UringContext.initial os) m →
      (ProperlyCancelled (m.ops o) ↔ .started true ∉ (m.ops o).log)) ∧
    (∀ m : Machine IocpContext StorageId, Runs iocpBase free (IocpContext.initial os) m →
      (ProperlyCancelled (m.ops o) ↔ .started true ∉ (m.ops o).log)) := by
  refine ⟨fun m h => ?_, fun m h => ?_, fun m h => ?_⟩
  · have hsound := (pollLedger_fresh os).sound (h.mono fun _ _ => NotBlocked.guard)
    refine ⟨hsound.properlyCancelled_iff o, fun hstatus hcb => ?_⟩
    rcases hsound.asks_pending (a := ()) hstatus hcb with hnone | ⟨hheld, hcancel⟩
    · rw [hnone]
      exact fun h => by cases h
    · rw [hcancel]
      exact PollContext.cancel_ne_terminate hheld
  · exact ((uringLedger_fresh os).sound
      (h.mono (Ledger.guard_of_not_drops fun _ _ hd => hd))).properlyCancelled_iff o
  · exact ((iocpLedger_fresh os).sound
      (h.mono (Ledger.guard_of_not_drops fun _ _ hd => hd))).properlyCancelled_iff o

/-- A timer is stopped while it is pending, from inside the completion of another one. -/
def stopInside : List (Label Answers Unit PollCall) :=
  [.start ⟨1, .resumeAt 5⟩ { now := 2 } false (), .start ⟨2, .resumeAt 9⟩ { now := 2 } false (),
    .call (.runOne 5 []), .stop 2 (), .ret, .ret]

theorem asked_while_pending_stopInside :
    ∃ m : Machine PollContext Empty, Runs pollBase NotBlocked (PollContext.initial {}) m ∧
      .cancelAsked true ∈ (m.ops 2).log ∧ (m.ops 2).signals = [.setStopped] ∧
      ProperlyCancelled (m.ops 2) := by
  obtain ⟨m, hrun, hm⟩ := runs_of_labels pollBase (PollContext.initial {}) answered
    answered_notBlocked stopInside (fun m => (m.ops 2).log)
    [.signal .setStopped, .counted, .called .cancel, .cancelAsked true, .counted,
      .submitted .submit, .started false] (by decide)
  have hstart : OpEvent.started true ∉ (m.ops 2).log := by rw [hm]; decide
  refine ⟨m, hrun, by rw [hm]; decide, ?_, ((asked_while_pending {} 2).1 m hrun).1.2 hstart⟩
  rw [SenderState.signals, hm]
  rfl

/-- A timer is started with a token that is stopped already. -/
def stoppedStart : List (Label Answers Unit PollCall) :=
  [.start ⟨1, .resumeAt 5⟩ { now := 2 } true ()]

theorem asked_at_start :
    ¬ ∀ (os : Os) (m : Machine PollContext Empty), Runs pollBase free (PollContext.initial os) m →
      (∀ o, ProperlyCancelled (m.ops o)) ∧ m.status ≠ some .terminate := by
  intro h
  obtain ⟨m, hrun, hm⟩ := runs_of_labels pollBase (PollContext.initial {}) any any_free
    stoppedStart (fun m => m.status) (some .terminate) (by decide)
  exact (h {} m hrun).2 hm

end Net29
