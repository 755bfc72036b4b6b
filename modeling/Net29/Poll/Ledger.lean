import Net29.Poll.Queues

/-!
# What `poll_context` owes

An operation that is in `outstanding` or in `timeouts` is owed one call. A cancel request is
answered at once. The context drops an operation when its work function is answered `EWOULDBLOCK`,
and it completes one before `submit` returns when `connect` succeeds at once or a deadline has
passed.

* `PollInv`: the two vectors fit, and every record is blocking;
* `pollLedger`: the debts and how every call moves them.
-/

namespace Net29

open SwapRemove

namespace PollContext

variable {c c' : PollContext} {io : IoBase} {o : OpId} {fs : List (Frame Empty)}
  {r : SubmitResult} {req : Answers}

/-- The `events` of every entry are the mask of the operation in the same place. -/
def Aligned : PollContext → Prop := Matches fun _ events io => events = eventMask io.op.events

/-- The invariant of the context. -/
structure PollInv (c : PollContext) : Prop where
  aligned : Aligned c
  blocking : AllBlocking c

/-- How often the operation is pending. -/
def held (c : PollContext) (o : OpId) : ℕ := occurrences c.outstanding o + occurrences c.timeouts o

/-- `run_one` calls a work function and that is answered `EWOULDBLOCK`. -/
def Drops (c : PollContext) : PollCall → Prop
  | .runOne now answers =>
      c.processTimeout now = none ∧ c.processTask = none ∧
        ∃ c₁ i sys io, c.wait now answers = .ok (c₁, .entry i sys) ∧
          c₁.outstanding[i]? = some io ∧ wouldBlock io sys = true
  | _ => False

theorem PollInv.waited (hI : PollInv c) (h : Waited c c') : PollInv c' :=
  ⟨h.matches hI.aligned, fun hr => hI.blocking (h.sockets ▸ hr)⟩

theorem PollInv.worked (hI : PollInv c) (h : Worked c c') : PollInv c' :=
  ⟨h.matches hI.aligned, fun hr => (h.records hr).elim hI.blocking fun hb => hb⟩

theorem PollInv.removeOutstanding (hI : PollInv c) (i : ℕ) : PollInv (c.removeOutstanding i) :=
  ⟨hI.aligned.removeOutstanding i, fun hr => hI.blocking (sockets_removeOutstanding (c := c) ▸ hr)⟩

theorem held_waited (h : Waited c c') : c'.held o = c.held o := by
  rw [held, h.outstanding, h.timeouts, held]

theorem held_worked (h : Worked c c') : c'.held o = c.held o := by
  rw [held, h.outstanding, h.timeouts, held]

theorem held_removeOutstanding (hI : PollInv c) {i : ℕ} (hio : c.outstanding[i]? = some io) :
    c.held o = (c.removeOutstanding i).held o + if io.self = o then 1 else 0 := by
  have hocc := occurrences_removeOutstanding (o := o) hI.aligned.length hio
  rw [held, held, timeouts_removeOutstanding]
  omega

/-! ### Submission -/

/-- What a submission that returns means for the operation and the others. -/
structure SubmitSpec (c : PollContext) (io : IoBase) (req : Answers) (c' : PollContext)
    (fs : List (Frame Empty)) (r : SubmitResult) : Prop where
  inv : PollInv c'
  submitted : Submitted (Inline io req) (c'.held io.self) io.self fs r
  others : ∀ o, o ≠ io.self → c'.held o = c.held o ∧ Silent o fs

theorem submitSpec_of_worked (hI : PollInv c) (hz : c.held io.self = 0) (hw : Worked c c')
    {f : Frame Empty} (ht : f.target = some io.self)
    (h : Submitted (Inline io req) 0 io.self [f] r) : SubmitSpec c io req c' [f] r where
  inv := hI.worked hw
  submitted := by rw [held_worked hw, hz]; exact h
  others o ho := ⟨held_worked hw, by simpa [Silent, ht] using Ne.symm ho⟩

theorem submit_spec (hI : PollInv c) (hz : c.held io.self = 0)
    (h : c.submit io req = .ok (c', fs, r)) : SubmitSpec c io req c' fs r := by
  cases submit_cases hI.blocking h with
  | timer hop hnow =>
    have hheld : ∀ o, PollContext.held { c with timeouts := Timers.insert c.timeouts io } o =
        c.held o + if io.self = o then 1 else 0 := by
      intro o
      rw [held, held, occurrences_insert, Nat.add_assoc]
    refine ⟨⟨hI.aligned, hI.blocking⟩, .queued ?_, fun o ho => ⟨?_, by simp [Silent]⟩⟩
    · rw [hheld, if_pos rfl, hz]
    · rw [hheld, if_neg (Ne.symm ho), Nat.add_zero]
  | due hinline => exact submitSpec_of_worked hI hz (.refl c) rfl (.complete none hinline rfl)
  | connected hinline hrec hacts =>
    exact submitSpec_of_worked hI hz (worked_record.trans hacts.worked) rfl
      (.complete none hinline rfl)
  | failed e hrec hacts =>
    exact submitSpec_of_worked hI hz (worked_record.trans hacts.worked) rfl (.error e rfl)
  | @queued c₀ rec₀ rec hrec₀ hacts hrec =>
    have hw : Worked c c₀ := worked_record.trans hacts.worked
    have hI₀ := hI.worked hw
    have hheld : ∀ o, PollContext.held { c₀ with
        poll := c₀.poll ++ [{ fd := rec.handle, events := eventMask io.op.events }]
        outstanding := c₀.outstanding ++ [io] } o = c.held o + if io.self = o then 1 else 0 := by
      intro o
      have h₀ : c₀.held o = c.held o := held_worked hw
      rw [← h₀]
      simp only [held, occurrences_concat]
      omega
    refine ⟨⟨hI₀.aligned.emplaceBack rfl, hI₀.blocking⟩, .queued ?_, fun o ho => ⟨?_, ?_⟩⟩
    · rw [hheld, if_pos rfl, hz]
    · rw [hheld, if_neg (Ne.symm ho), Nat.add_zero]
    · simp [Silent]

/-! ### Cancellation and the other calls -/

theorem cancel_spec (hI : PollInv c) {u : Unit} (h : c.cancel io u = .ok (c', fs)) :
    PollInv c' ∧ fs = [.cancel io.self, .cancelOp io.self] ∧
      ∀ o, c.held o = c'.held o + if io.self = o then 1 else 0 := by
  obtain ⟨hfrom, rfl⟩ := cancel_cases h
  cases hfrom with
  | outstanding hio hself =>
    exact ⟨hI.removeOutstanding _, rfl, fun o => hself ▸ held_removeOutstanding hI hio⟩
  | timer herase =>
    refine ⟨⟨hI.aligned, hI.blocking⟩, rfl, fun o => ?_⟩
    have := occurrences_erase? (o := o) herase
    simp only [held]
    omega

theorem runOne_spec {now : Time} {answers : List PollAnswer} {n : ℕ} (hI : PollInv c)
    (h : c.runOne now answers = .ok (c', fs, n)) :
    PollInv c' ∧ ∀ o, Moved (Drops c (.runOne now answers)) (c.held o) (c'.held o) 0 0 o fs := by
  cases runOne_cases h with
  | @timer c₁ _ _ _ hw ht =>
    obtain ⟨io, timeouts, hl, -, rfl, rfl⟩ := processTimeout_eq_some ht
    have hI₁ := hI.waited hw
    refine ⟨⟨hI₁.aligned, hI₁.blocking⟩, fun o => ?_⟩
    have hheld : c.held o =
        PollContext.held { c₁ with timeouts := timeouts } o + if io.self = o then 1 else 0 := by
      rw [← held_waited hw]
      simp only [held, hl, occurrences_cons]
      omega
    by_cases ho : io.self = o
    · subst ho
      exact .notified _ [] (.complete _) (by simp [Silent]) rfl (by rw [hheld, if_pos rfl])
    · rw [if_neg ho] at hheld
      exact .silent _ (by simpa [Silent, Frame.target] using ho) rfl (.inl hheld.symm)
  | task ht =>
    obtain ⟨t, tasks, -, rfl, rfl⟩ := processTask_eq_some ht
    exact ⟨⟨hI.aligned, hI.blocking⟩, fun o =>
      .silent _ (by simp [Silent, Frame.target]) rfl (.inl rfl)⟩
  | idle hw =>
    exact ⟨hI.waited hw, fun o => .silent _ (by simp [Silent]) rfl (.inl (held_waited hw))⟩
  | @dispatched c₁ _ _ i sys io _ htimer htask hwait hio hwork =>
    have hw := (wait_spec hwait).1
    have hI₁ := hI.waited hw
    obtain ⟨hacts, hframes⟩ := work_spec hwork
    have hworked := hacts.worked
    refine ⟨(hI₁.removeOutstanding i).worked hworked, fun o => ?_⟩
    have hheld : c.held o = c'.held o + if io.self = o then 1 else 0 := by
      rw [← held_waited hw, held_removeOutstanding hI₁ hio, held_worked hworked]
    cases hframes with
    | blocked hblock =>
      refine .silent _ (by simp [Silent]) rfl (.inr ⟨?_, by omega⟩)
      exact ⟨htimer, htask, c₁, i, sys, io, hwait, hio, hblock⟩
    | notified f hf =>
      by_cases ho : io.self = o
      · subst ho
        exact .notified _ [] hf (by simp [Silent]) rfl (by rw [hheld, if_pos rfl])
      · rw [if_neg ho] at hheld
        refine .silent _ ?_ rfl (.inl hheld.symm)
        cases hf <;> simpa [Silent, Frame.target] using ho

theorem makeSocket_spec {a : SysAnswer} {id : SocketId} {e : Option Errno}
    (h : c.makeSocket a = .ok (c', id, e)) : c' = c ∨ Opens c c' := by
  cases a with
  | err e => cases h; exact .inl rfl
  | ok fd peer =>
    obtain ⟨c₁, hopen, h⟩ := Exec.bind_eq_ok.1 h
    obtain ⟨⟨c₂, id'⟩, hmake, h⟩ := Exec.bind_eq_ok.1 h
    cases h
    exact .inr (opens_of_makeSocketNative hopen hmake)

theorem release_spec {id : SocketId} {a e : Option Errno}
    (h : c.release id a = .ok (c', e)) : Worked c c' := by
  obtain ⟨fd, -, h⟩ := Exec.bind_eq_ok.1 h
  cases h
  exact ⟨rfl, rfl, rfl, rfl, fun hr => .inl (Container.get?_erase hr)⟩

/-- How a call of the context returns: `run_one`, `schedule`, or a call about a socket. -/
inductive Returned (c : PollContext) : PollCall → PollContext → List (Frame Empty) → Prop
  | runOne {now : Time} {answers : List PollAnswer} {c' : PollContext} {fs : List (Frame Empty)}
      {n : ℕ} (h : c.runOne now answers = .ok (c', fs, n)) : Returned c (.runOne now answers) c' fs
  | schedule (t : TaskId) : Returned c (.schedule t) (c.schedule t) []
  | socket {k : PollCall} {c' : PollContext} (h : Worked c c') : Returned c k c' []

theorem call_cases {k : PollCall} (h : pollBase.call c k = .ok (c', fs)) : Returned c k c' fs := by
  cases call_eq_ok h with
  | runOne hrun => exact .runOne hrun
  | schedule t => exact .schedule t
  | makeSocket hmake =>
    rcases makeSocket_spec hmake with rfl | hopens
    · exact .socket (.refl _)
    · exact .socket hopens.worked
  | makeSocketNative hmake =>
    obtain ⟨sockets, hins, rfl⟩ := makeSocketNative_eq_ok hmake
    exact .socket (worked_insert hins)
  | release hrel => exact .socket (release_spec hrel)

theorem call_spec {k : PollCall} (hI : PollInv c) (h : pollBase.call c k = .ok (c', fs)) :
    PollInv c' ∧ ∀ o, Moved (Drops c k) (c.held o) (c'.held o) 0 0 o fs := by
  cases call_cases h with
  | runOne hrun => exact runOne_spec hI hrun
  | schedule t =>
    exact ⟨⟨hI.aligned, hI.blocking⟩, fun o => .silent _ (by simp [Silent]) rfl (.inl rfl)⟩
  | socket hw =>
    exact ⟨hI.worked hw, fun o => .silent _ (by simp [Silent]) rfl (.inl (held_worked hw))⟩

/-- A `poll_context` as it is constructed, in a process with open descriptors. -/
def initial (os : Os) : PollContext := { env := { os := os } }

theorem pollInv_initial (os : Os) : PollInv (initial os) where
  aligned := by unfold Aligned Matches; exact .nil
  blocking hr := by simp [initial, Container.get?] at hr

end PollContext

open PollContext

/-- The debts of a `poll_context`. -/
def pollLedger : Ledger pollBase where
  Inv := PollInv
  held := PollContext.held
  asked _ _ := 0
  Drops := PollContext.Drops
  Inline _ := PollContext.Inline
  pending_iff c o := by
    show ((c.outstanding ++ c.timeouts).any fun io => io.self = o) = true ↔ _
    rw [PollContext.held, ← occurrences_append, occurrences_pos]
    simp [or_and_right, exists_or]
  submit_spec hI hz h := by
    have hs := PollContext.submit_spec hI hz h
    exact ⟨hs.inv, rfl, hs.submitted, fun o ho => ⟨(hs.others o ho).1, rfl, (hs.others o ho).2⟩⟩
  cancel_spec {c c' io a fs} hI _ h := by
    obtain ⟨hI', rfl, hheld⟩ := PollContext.cancel_spec (u := a) hI h
    refine ⟨hI', .now (by simpa using hheld io.self) rfl, fun o ho => ⟨?_, rfl, ?_⟩⟩
    · simpa [Ne.symm ho] using (hheld o).symm
    · simpa [Silent, Frame.target] using Ne.symm ho
  call_spec := PollContext.call_spec
  tail_spec t := t.elim

theorem pollLedger_fresh (os : Os) : pollLedger.Fresh (PollContext.initial os) where
  inv := pollInv_initial os
  held _ := rfl
  asked _ := rfl

/-- The invariant of the context holds in every state reached. -/
theorem PollContext.pollInv_of_runs
    {ok : Machine PollContext Empty → Label Answers Unit PollCall → Prop} {os : Os}
    {m : Machine PollContext Empty} (h : Machine.Runs pollBase ok (initial os) m) :
    PollInv m.ctx :=
  ((pollLedger_fresh os).sound (h.mono fun m l _ => Ledger.guard_free m l trivial)).inv

end Net29
