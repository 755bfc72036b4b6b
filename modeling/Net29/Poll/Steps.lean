import Net29.Poll.Standing

/-!
# What a step does to `poll_context` and its operations

* `StepInv`: every operation stands somewhere, and the queues hold those that wait;
* `PollStep`, `pollStep_of_step`: all that a step can do while the process runs;
* `stepInv_of_runs`: the invariant holds in every run.
-/

namespace Net29

open SwapRemove Machine Transition

namespace PollContext

variable {c : PollContext} {io : IoBase} {o : OpId} {fs : List (Frame Empty)} {r : SubmitResult}
  {s : SenderState} {x : Signal}

/-- The invariant of the machine while the process runs. -/
structure StepInv (m : Machine PollContext Empty) : Prop where
  inv : PollInv m.ctx
  stands : ∀ o, Stands (m.ops o) (m.ctx.held o)
  queued : ∀ io ∈ m.ctx.outstanding, (m.ops io.self).op = io.op ∧ io.op.onSocket = true
  timers : ∀ io ∈ m.ctx.timeouts, (m.ops io.self).op = io.op ∧ io.op.onSocket = false
  stack : ∀ fs ∈ m.stack, fs = [] ∨
    ∃ o v, fs = [.complete o none] ∧ Over (m.ops o) (.setValue v)

theorem stepInv_initial (os : Os) : StepInv { ctx := initial os } where
  inv := pollInv_initial os
  stands o := .idle rfl
  queued io hio := by cases hio
  timers io hio := by cases hio
  stack fs hfs := by cases hfs

/-! ### Steps -/

variable {m m' : Machine PollContext Empty} {l : Label Answers Unit PollCall}

/-- All that a step can do. -/
inductive PollStep (m : Machine PollContext Empty) :
    Label Answers Unit PollCall → Machine PollContext Empty → Prop
  /-- the process ended in a call of the context -/
  | ended (l : Label Answers Unit PollCall) {m' : Machine PollContext Empty}
      (hstatus : m'.status.isSome) (hctx : m'.ctx = m.ctx)
      (hops : ∀ o, (m'.ops o).calls = (m.ops o).calls ∧ (m'.ops o).signals = (m.ops o).signals) :
      PollStep m l m'
  /-- an operation was queued -/
  | queued {io : IoBase} {req : Answers} {a : Unit} {c : PollContext}
      (hidle : m.ops io.self = {}) (h : m.ctx.submit io req = .ok (c, [], .submit)) :
      PollStep m (.start io req false a) { m.set io.self (begun io.op .submit) with ctx := c }
  /-- an operation was completed before its submission returned -/
  | inline {io : IoBase} {req : Answers} {a : Unit} {c : PollContext}
      (hidle : m.ops io.self = {})
      (h : m.ctx.submit io req = .ok (c, [.complete io.self none], .ready)) :
      PollStep m (.start io req false a)
        { m.set io.self ((begun io.op .ready).complete none).1 with
          ctx := c, stack := [.complete io.self none] :: m.stack }
  /-- a submission failed -/
  | failed {io : IoBase} {req : Answers} {a : Unit} {c : PollContext} {e : Error}
      (hidle : m.ops io.self = {})
      (h : m.ctx.submit io req = .ok (c, [.error io.self e], .error)) :
      PollStep m (.start io req false a)
        { m.set io.self ((begun io.op .error).error e).1 with ctx := c, stack := [] :: m.stack }
  /-- an operation was cancelled -/
  | cancelled {o : OpId} {a : Unit} {c : PollContext} (hw : Waiting (m.ops o))
      (h : m.ctx.cancel ⟨o, (m.ops o).op⟩ a = .ok (c, [.cancel o, .cancelOp o])) :
      PollStep m (.stop o a)
        { m.set o (stopped (m.ops o)) with ctx := c, stack := [] :: m.stack }
  /-- a call of the context ran no user code -/
  | silent {k : PollCall} {c : PollContext} (h : pollBase.call m.ctx k = .ok (c, [])) :
      PollStep m (.call k) { m with ctx := c }
  /-- a task runs -/
  | task {k : PollCall} {c : PollContext} {t : TaskId}
      (h : pollBase.call m.ctx k = .ok (c, [.task t])) :
      PollStep m (.call k) { m with ctx := c, stack := [] :: m.stack }
  /-- an operation was completed -/
  | completed {k : PollCall} {c : PollContext} {o : OpId} {v : Option Value}
      (hw : Waiting (m.ops o)) (h : pollBase.call m.ctx k = .ok (c, [.complete o v])) :
      PollStep m (.call k)
        { m.set o ((m.ops o).complete v).1 with ctx := c, stack := [] :: m.stack }
  /-- an operation ended with an error -/
  | errored {k : PollCall} {c : PollContext} {o : OpId} {e : Error}
      (hw : Waiting (m.ops o)) (h : pollBase.call m.ctx k = .ok (c, [.error o e])) :
      PollStep m (.call k)
        { m.set o ((m.ops o).error e).1 with ctx := c, stack := [] :: m.stack }
  /-- the code of a receiver or task returned -/
  | returned {rest : List (List (Frame Empty))} (hstack : m.stack = [] :: rest) :
      PollStep m .ret { m with stack := rest }
  /-- the same, inside `start`, which calls `complete` again -/
  | repeated {o : OpId} {v : Value} {rest : List (List (Frame Empty))}
      (hstack : m.stack = [.complete o none] :: rest) (hover : Over (m.ops o) (.setValue v)) :
      PollStep m .ret { m.set o ((m.ops o).complete none).1 with stack := rest }

/-- An operation in the queues waits. -/
theorem StepInv.waiting (hI : StepInv m) (hio : io ∈ m.ctx.outstanding ∨ io ∈ m.ctx.timeouts) :
    Waiting (m.ops io.self) := by
  refine ((hI.stands io.self).waiting_of_pos ?_).1
  rcases hio with hio | hio
  · exact Nat.add_pos_left (occurrences_pos.2 ⟨io, hio, rfl⟩) _
  · exact Nat.add_pos_right _ (occurrences_pos.2 ⟨io, hio, rfl⟩)

/-- One call, which runs user code. -/
theorem runFrames_user {f : Frame Empty} (h : (m.exec pollBase f).2 = true) :
    m.runFrames pollBase [f] =
      { (m.exec pollBase f).1 with stack := [] :: (m.exec pollBase f).1.stack } :=
  runFrames_cons_of_user h

theorem set_set (o : OpId) (s s' : SenderState) : (m.set o s).set o s' = m.set o s' := by
  simp [Machine.set]

/-- The state of an operation whose stop callback has asked the context. -/
def asking (s : SenderState) (pending : Bool) : SenderState :=
  { s.invoke with log := .cancelAsked pending :: s.invoke.log }

theorem stopCallback_waiting {a : Unit} (h : (m.ops o).outstanding = 1) :
    m.stopCallback pollBase o a =
      (m.set o (asking (m.ops o) (pollBase.pending m.ctx o)),
        m.ctx.cancel ⟨o, (m.ops o).op⟩ a) := by
  rw [Ledger.stopCallback_asks (by omega)]
  simp only [Machine.note, set_set, set_ops_self]
  rfl

/-- The calls of a cancellation: the second signals the receiver. -/
theorem runFrames_cancel (h : m.ops o = asking s true) (hout : s.outstanding = 1) :
    m.runFrames pollBase [.cancel o, .cancelOp o] =
      { m.set o (stopped s) with stack := [] :: m.stack } := by
  have htwo : (m.ops o).outstanding = 2 := by
    rw [h]
    show s.outstanding + 1 = 2
    omega
  have hfirst : m.exec pollBase (.cancel o) = (m.set o { m.ops o with
      outstanding := 1, log := .called .cancel :: (m.ops o).log }, false) := by
    rw [exec, SenderState.cancel, SenderState.countDown_not_last (by omega), htwo]
    rfl
  rw [runFrames_cons_of_silent (by rw [hfirst]), hfirst]
  refine (runFrames_user ?_).trans ?_
  · rw [exec, if_neg (by simp [h, asking, SenderState.invoke])]
    exact (SenderState.countDown_signals _ _ _ _).2 (by simp)
  · rw [exec, if_neg (by simp [h, asking, SenderState.invoke]), set_set]
    rw [SenderState.cancelCallbackComplete, SenderState.countDown_last (by simp)]
    simp [h, asking, stopped, SenderState.invoke]

/-- An operation is replaced by one with the same calls and signals. -/
theorem set_calls_signals {o' : OpId} {s' : SenderState}
    (h : s'.calls = (m.ops o').calls ∧ s'.signals = (m.ops o').signals) (o : OpId) :
    ((m.set o' s').ops o).calls = (m.ops o).calls ∧
      ((m.set o' s').ops o).signals = (m.ops o).signals :=
  set_ops_cases (P := fun s => s.calls = (m.ops o).calls ∧ s.signals = (m.ops o).signals)
    (fun ho => ho ▸ h) fun _ => ⟨rfl, rfl⟩

theorem pollStep_of_start (hI : StepInv m) {req : Answers} {refused : Bool} {a : Unit}
    (hlog : (m.ops io.self).log = []) (h : m.start pollBase io req refused a = some m') :
    PollStep m (.start io req refused a) m' := by
  obtain ⟨hidle, hheld⟩ := (hI.stands io.self).idle_of_log hlog
  rcases start_eq_some h with ⟨rfl, hstop⟩ | ⟨rfl, c, fs, r, hsub, rfl⟩ | ⟨rfl, e, rfl⟩
  · -- the context does not have the operation, and cannot cancel it
    rw [stopCallback_waiting (by rw [set_ops_self, hidle]; rfl)] at hstop
    rcases perform_eq_some hstop with ⟨c, fs, hx, -⟩ | ⟨e, -, rfl⟩
    · obtain ⟨⟨c', fs'⟩, hcancel, -⟩ := Exec.map_eq_ok.1 hx
      have howed := (cancel_spec (u := a) hI.inv hcancel).2.2 io.self
      rw [if_pos rfl, hheld] at howed
      omega
    · refine .ended _ rfl rfl ?_
      dsimp only
      rw [set_set, set_ops_self]
      exact set_calls_signals (by rw [hidle]; exact ⟨rfl, rfl⟩)
  · have hbegun : (({ m.set io.self ((m.ops io.self).begin io.op false) with ctx := c } :
        Machine PollContext Empty).note io.self (.submitted r)) =
          { m.set io.self (begun io.op r) with ctx := c } := by
      rw [hidle, Machine.note]
      simp only [set_ops_self]
      show Machine.mk _ (Function.update (Function.update _ _ _) _ _) _ _ = _
      rw [Function.update_idem]
      rfl
    have hw := waiting_begun io.op r
    rw [hbegun]
    have hcomplete : ∀ fs, r = .ready → Machine.runFrames pollBase
        { m.set io.self (begun io.op r) with ctx := c } (.complete io.self none :: fs) =
          { m.set io.self ((begun io.op .ready).complete none).1 with
            ctx := c, stack := fs :: m.stack } := by
      rintro fs rfl
      rw [runFrames_cons_of_user (by simpa [exec] using (hw.complete none).2)]
      simp [exec, Machine.set]
    cases submit_cases hI.inv.blocking hsub with
    | timer => exact .queued hidle hsub
    | queued => exact .queued hidle hsub
    | due =>
      rw [if_pos rfl, List.singleton_append, hcomplete _ rfl]
      exact .inline hidle hsub
    | connected =>
      rw [if_pos rfl, List.singleton_append, hcomplete _ rfl]
      exact .inline hidle hsub
    | failed e =>
      rw [if_neg (by simp), List.append_nil,
        runFrames_user (by simpa [exec] using hw.error_signals e)]
      simp only [exec, Machine.set, Function.update_self, Function.update_idem]
      exact .failed hidle hsub
  · exact .ended _ rfl rfl (set_calls_signals (by rw [hidle]; exact ⟨rfl, rfl⟩))

theorem pollStep_of_stop (hI : StepInv m) {a : Unit} (hcb : (m.ops o).callback = .registered)
    (h : (m.stopCallback pollBase o a).1.perform pollBase (m.stopCallback pollBase o a).2 =
      some m') : PollStep m (.stop o a) m' := by
  have hw := (hI.stands o).waiting_of_registered hcb
  rw [stopCallback_waiting hw.outstanding] at h
  rcases perform_eq_some h with ⟨c, fs, hcancel, rfl⟩ | ⟨e, -, rfl⟩
  · obtain ⟨-, rfl, howed⟩ := cancel_spec (u := a) hI.inv hcancel
    have hpending : pollBase.pending m.ctx o = true := by
      rw [pollLedger.pending_iff]
      have hone := howed o
      rw [if_pos rfl] at hone
      exact Nat.lt_of_lt_of_eq (Nat.succ_pos _) hone.symm
    rw [hpending, runFrames_cancel (s := m.ops o) (by simp) hw.outstanding]
    simp only [Machine.set, Function.update_idem]
    exact .cancelled hw hcancel
  · exact .ended _ rfl rfl (set_calls_signals ⟨rfl, rfl⟩)

theorem pollStep_of_call (hI : StepInv m) {k : PollCall}
    (h : m.perform pollBase (pollBase.call m.ctx k) = some m') : PollStep m (.call k) m' := by
  rcases perform_eq_some h with ⟨c, fs, hcall, rfl⟩ | ⟨e, -, rfl⟩
  · rcases (call_calledAs hI.inv.aligned hcall).held with ⟨-, rfl | ⟨t, rfl⟩⟩ | ⟨io, hleaves⟩
    · exact .silent hcall
    · exact .task hcall
    · have hw := hI.waiting hleaves.mem
      rcases hleaves.called with rfl | ⟨f, hf, rfl⟩
      · exact .silent hcall
      · cases hf with
        | complete v =>
          rw [runFrames_user (by exact (hw.complete v).2)]
          exact .completed hw hcall
        | error e =>
          rw [runFrames_user (by exact hw.error_signals e)]
          exact .errored hw hcall
  · exact .ended _ rfl rfl fun o => ⟨rfl, rfl⟩

/-- **What a step can do** while the invariant holds. -/
theorem pollStep_of_step (hI : StepInv m) (hz : ∀ o, (m.ops o).upstream = {})
    (h : m.step pollBase l = some m') : PollStep m l m' := by
  cases l with
  | start io req refused a => exact pollStep_of_start hI (step_start h).1 (step_start h).2
  | stop o a => exact pollStep_of_stop hI (step_stop h).1 (step_stop h).2
  | call k => exact pollStep_of_call hI (step_call h)
  | ret =>
    obtain ⟨fs, rest, hstack, rfl⟩ := step_ret h
    rcases hI.stack fs (hstack ▸ List.mem_cons_self) with rfl | ⟨o, v, rfl, hover⟩
    · exact .returned hstack
    · rw [runFrames_cons_of_silent (by exact hover.complete.2)]
      exact .repeated hstack hover
  | upstream io u req refused a =>
    have hpos := (step_upstream h).1
    rw [hz] at hpos
    cases hpos

/-! ### The invariant -/

/-- An operation leaves the queues. -/
theorem left_stands (hI : StepInv m) {o' : OpId}
    (h : ∀ o, m.ctx.held o = c.held o + if o' = o then 1 else 0) {s' : SenderState}
    (hs : Stands s' 0) (o : OpId) : Stands ((m.set o' s').ops o) (c.held o) := by
  have hheld := h o
  have hst := hI.stands o
  refine set_ops_cases (P := fun s => Stands s (c.held o)) (fun ho => ?_) fun ho => ?_
  · rw [if_pos ho] at hheld
    have hone := (hst.waiting_of_pos (hheld ▸ Nat.succ_pos _)).2
    rwa [show c.held o = 0 by omega]
  · rw [if_neg ho, Nat.add_zero] at hheld
    rwa [← hheld]

/-- A submission. -/
theorem submit_stands {req : Answers} (hI : StepInv m) (hidle : m.ops io.self = {})
    (h : m.ctx.submit io req = .ok (c, fs, r)) {s' : SenderState}
    (hs : ∀ {k}, Submitted (Inline io req) k io.self fs r → Stands s' k) (o : OpId) :
    Stands ((m.set io.self s').ops o) (c.held o) := by
  have hz := ((hI.stands io.self).idle_of_log (by rw [hidle])).2
  have hspec := submit_spec hI.inv hz h
  refine set_ops_cases (P := fun s => Stands s (c.held o)) (fun ho => ?_) fun ho => ?_
  · subst ho
    exact hs hspec.submitted
  · rw [(hspec.others o (Ne.symm ho)).1]
    exact hI.stands o

theorem PollStep.stands (hI : StepInv m) (h : PollStep m l m') (hstatus : m'.status = none)
    (o : OpId) : Stands (m'.ops o) (m'.ctx.held o) := by
  have hst := hI.stands o
  cases h with
  | ended _ hsome => rw [hstatus] at hsome; cases hsome
  | queued hidle hsub =>
    refine submit_stands hI hidle hsub (fun hk => ?_) o
    cases hk with
    | queued hone => exact hone ▸ .waiting (waiting_begun _ _)
  | inline hidle hsub =>
    refine submit_stands hI hidle hsub (fun hk => ?_) o
    cases hk with
    | complete _ _ hzero => exact hzero ▸ .ended ((waiting_begun _ _).complete none).1
  | failed hidle hsub =>
    refine submit_stands hI hidle hsub (fun hk => ?_) o
    cases hk with
    | error _ hzero =>
      exact hzero ▸ .ended ((waiting_begun _ _).error (submit_failed hsub) _)
  | @cancelled o' a c hw hcancel =>
    exact left_stands hI (cancel_spec (u := a) hI.inv hcancel).2.2 (.ended hw.over_stopped) o
  | @silent k c hcall =>
    rcases (call_calledAs hI.inv.aligned hcall).held with ⟨hheld, -⟩ | ⟨io, hleaves⟩
    · rw [hheld]
      exact hst
    · have hq := hI.queued io (hleaves.queued (by simp))
      have hlost := Stands.lost (hI.waiting hleaves.mem) (hq.1.symm ▸ hq.2)
      simpa [Machine.set] using left_stands hI hleaves.held hlost o
  | @task k c t hcall =>
    rcases (call_calledAs hI.inv.aligned hcall).held with ⟨hheld, -⟩ | ⟨io, hleaves⟩
    · rw [hheld]
      exact hst
    · rcases hleaves.called with hf | ⟨f, hn, hf⟩
      · cases hf
      · cases hf; cases hn
  | @completed k c o' v hw hcall =>
    obtain ⟨io, rfl, hleaves⟩ := (call_calledAs hI.inv.aligned hcall).leaves (.complete v)
    exact left_stands hI hleaves.held (.ended (hw.complete v).1) o
  | @errored k c o' e hw hcall =>
    obtain ⟨io, rfl, hleaves⟩ := (call_calledAs hI.inv.aligned hcall).leaves (.error e)
    have hq := hI.queued io (hleaves.queued (by simp))
    exact left_stands hI hleaves.held (.ended (hw.error (hq.1.symm ▸ hq.2) e)) o
  | returned => exact hst
  | @repeated o' v rest hstack hover =>
    refine set_ops_cases (P := fun s => Stands s (m.ctx.held o)) (fun ho => ?_) fun ho => hst
    subst ho
    have hzero : m.ctx.held o' = 0 := by
      by_contra hne
      have := (hst.waiting_of_pos (Nat.pos_of_ne_zero hne)).1.outstanding
      have := hover.outstanding
      omega
    show Stands _ (m.ctx.held o')
    rw [hzero]
    exact .ended hover.complete.1

/-- The data of an operation are filled in by its start, and never again. -/
theorem PollStep.op_cases (h : PollStep m l m') (hstatus : m'.status = none) (o : OpId) :
    (m'.ops o).op = (m.ops o).op ∨
      (m.ops o).log = [] ∧ ∃ req a, l = .start ⟨o, (m'.ops o).op⟩ req false a := by
  have hset : ∀ {o' : OpId} {s' : SenderState}, s'.op = (m.ops o').op →
      ((m.set o' s').ops o).op = (m.ops o).op := fun hs =>
    set_ops_cases (P := fun s => s.op = (m.ops o).op) (fun ho => ho ▸ hs) fun _ => rfl
  have hstart : ∀ {io : IoBase} {req : Answers} {a : Unit} {s' : SenderState}, m.ops io.self = {} →
      s'.op = io.op → ((m.set io.self s').ops o).op = (m.ops o).op ∨ (m.ops o).log = [] ∧
        ∃ req' a', (Label.start io req false a : Label Answers Unit PollCall) =
          .start ⟨o, ((m.set io.self s').ops o).op⟩ req' false a' := by
    intro io req a s' hidle hop
    by_cases ho : o = io.self
    · subst ho
      rw [set_ops_self, hop, hidle]
      exact .inr ⟨rfl, req, a, rfl⟩
    · rw [set_ops_of_ne _ _ ho]
      exact .inl rfl
  cases h with
  | ended _ hsome => rw [hstatus] at hsome; cases hsome
  | queued hi => exact hstart hi rfl
  | inline hi =>
    refine hstart hi ?_
    rw [SenderState.complete_last (waiting_begun _ _).outstanding]
    rfl
  | failed hi =>
    refine hstart hi ?_
    rw [SenderState.error, SenderState.countDown_last (waiting_begun _ _).outstanding]
    rfl
  | cancelled => exact .inl (hset rfl)
  | silent => exact .inl rfl
  | task => exact .inl rfl
  | completed hw => exact .inl (hset (by rw [SenderState.complete_last hw.outstanding]))
  | errored hw =>
    exact .inl (hset (by rw [SenderState.error, SenderState.countDown_last hw.outstanding]))
  | returned => exact .inl rfl
  | repeated _ hover =>
    have := hover.outstanding
    exact .inl (hset (by rw [SenderState.complete_not_last (by omega)]))

/-- An operation that was started keeps its data. -/
theorem PollStep.op (h : PollStep m l m') (hstatus : m'.status = none) (hlog : (m.ops o).log ≠ []) :
    (m'.ops o).op = (m.ops o).op :=
  (h.op_cases hstatus o).resolve_right fun hstart => hlog hstart.1

/-- An operation that is started has the data it was started with. -/
theorem PollStep.started {req : Answers} {stopped : Bool} {a : Unit}
    (h : PollStep m (.start io req stopped a) m') (hstatus : m'.status = none) :
    (m'.ops io.self).op = io.op ∧ (m'.ops io.self).log ≠ [] := by
  cases h with
  | ended _ hsome => rw [hstatus] at hsome; cases hsome
  | queued =>
    rw [set_ops_self]
    exact ⟨rfl, (waiting_begun io.op _).started⟩
  | inline =>
    rw [set_ops_self, SenderState.complete_last (waiting_begun _ _).outstanding]
    exact ⟨rfl, by simp⟩
  | failed =>
    rw [set_ops_self, SenderState.error, SenderState.countDown_last (waiting_begun _ _).outstanding]
    exact ⟨rfl, by simp⟩

/-- What is over stays so. -/
theorem PollStep.over (h : PollStep m l m') (hstatus : m'.status = none)
    (ho : Over (m.ops o) x) : Over (m'.ops o) x := by
  have hset : ∀ {o' : OpId} {s' : SenderState}, (o' = o → Over s' x) →
      Over ((m.set o' s').ops o) x := fun hs =>
    set_ops_cases (P := fun s => Over s x) hs fun _ => ho
  have hidle : ∀ {o' : OpId} {s' : SenderState}, m.ops o' = {} → Over ((m.set o' s').ops o) x :=
    fun hi => hset fun he => absurd (by rw [← he, hi]) ho.started
  have hwait : ∀ {o' : OpId} {s' : SenderState}, Waiting (m.ops o') →
      Over ((m.set o' s').ops o) x := fun hw => hset fun he => by
    have hone := hw.outstanding
    rw [he] at hone
    exact absurd ho.outstanding (by omega)
  cases h with
  | ended _ hsome => rw [hstatus] at hsome; cases hsome
  | queued hi => exact hidle hi
  | inline hi => exact hidle hi
  | failed hi => exact hidle hi
  | cancelled hw => exact hwait hw
  | silent => exact ho
  | task => exact ho
  | completed hw => exact hwait hw
  | errored hw => exact hwait hw
  | returned => exact ho
  | repeated _ hover =>
    refine hset fun he => ?_
    have hsame := hover.signals
    rw [he, ho.signals] at hsame
    rw [List.singleton_inj.1 hsame]
    exact hover.complete.1

/-- What a step puts in the queues is the operation it starts. -/
theorem PollStep.mem (hI : StepInv m) (h : PollStep m l m') (hstatus : m'.status = none) :
    (∀ io ∈ m'.ctx.outstanding,
      io ∈ m.ctx.outstanding ∨ (m'.ops io.self).op = io.op ∧ io.op.onSocket = true) ∧
    ∀ io ∈ m'.ctx.timeouts,
      io ∈ m.ctx.timeouts ∨ (m'.ops io.self).op = io.op ∧ io.op.onSocket = false := by
  have hsubmit : ∀ {io : IoBase} {req : Answers} {c : PollContext} {fs : List (Frame Empty)}
      {r : SubmitResult} {s' : SenderState}, m.ctx.submit io req = .ok (c, fs, r) →
      s'.op = io.op →
      (∀ io' ∈ c.outstanding, io' ∈ m.ctx.outstanding ∨
        ((m.set io.self s').ops io'.self).op = io'.op ∧ io'.op.onSocket = true) ∧
      ∀ io' ∈ c.timeouts, io' ∈ m.ctx.timeouts ∨
        ((m.set io.self s').ops io'.self).op = io'.op ∧ io'.op.onSocket = false := by
    intro io req c fs r s' hsub hop
    have hself : ((m.set io.self s').ops io.self).op = io.op := by rw [set_ops_self, hop]
    refine ⟨fun io' hio' => ?_, fun io' hio' => ?_⟩
    · refine ((submit_mem hI.inv.blocking hsub).1 hio').imp_right ?_
      rintro ⟨rfl, hon⟩
      exact ⟨hself, hon⟩
    · refine ((submit_mem hI.inv.blocking hsub).2 hio').imp_right ?_
      rintro ⟨rfl, hon⟩
      exact ⟨hself, hon⟩
  have hcall : ∀ {k : PollCall} {c : PollContext} {fs : List (Frame Empty)}
      {ops : OpId → SenderState}, pollBase.call m.ctx k = .ok (c, fs) →
      (∀ io ∈ c.outstanding, io ∈ m.ctx.outstanding ∨
        (ops io.self).op = io.op ∧ io.op.onSocket = true) ∧
      ∀ io ∈ c.timeouts, io ∈ m.ctx.timeouts ∨
        (ops io.self).op = io.op ∧ io.op.onSocket = false := fun hc =>
    ⟨fun io hio => .inl ((call_calledAs hI.inv.aligned hc).outstanding hio),
      fun io hio => .inl ((call_calledAs hI.inv.aligned hc).timeouts hio)⟩
  cases h with
  | ended _ hsome => rw [hstatus] at hsome; cases hsome
  | queued _ hsub => exact hsubmit hsub rfl
  | inline _ hsub =>
    refine hsubmit hsub ?_
    rw [SenderState.complete_last (waiting_begun _ _).outstanding]
    rfl
  | failed _ hsub =>
    refine hsubmit hsub ?_
    rw [SenderState.error, SenderState.countDown_last (waiting_begun _ _).outstanding]
    rfl
  | @cancelled _ a _ _ hcancel =>
    cases (cancel_cases (u := a) hcancel).1 with
    | outstanding =>
      refine ⟨fun io hio => .inl ?_, fun io hio => .inl ?_⟩
      · dsimp only at hio
        rw [outstanding_removeOutstanding hI.inv.aligned.length] at hio
        exact mem_of_mem_swapRemove hio
      · exact timeouts_removeOutstanding (c := m.ctx) ▸ hio
    | timer herase =>
      obtain ⟨io', -, hperm⟩ := erase?_eq_some herase
      exact ⟨fun io hio => .inl hio,
        fun io hio => .inl (hperm.mem_iff.2 (List.mem_cons_of_mem _ hio))⟩
  | silent h => exact hcall h
  | task h => exact hcall h
  | completed _ h => exact hcall h
  | errored _ h => exact hcall h
  | returned => exact ⟨fun io => .inl, fun io => .inl⟩
  | repeated => exact ⟨fun io => .inl, fun io => .inl⟩

theorem PollStep.inv (hI : StepInv m) (h : PollStep m l m') (hstatus : m'.status = none) :
    PollInv m'.ctx := by
  have hsubmit : ∀ {io : IoBase} {req : Answers} {c : PollContext} {fs : List (Frame Empty)}
      {r : SubmitResult}, m.ops io.self = {} → m.ctx.submit io req = .ok (c, fs, r) → PollInv c :=
    fun {io} _ _ _ _ hidle hsub =>
      (submit_spec hI.inv ((hI.stands io.self).idle_of_log (by rw [hidle])).2 hsub).inv
  cases h with
  | ended _ hsome => rw [hstatus] at hsome; cases hsome
  | queued hidle hsub => exact hsubmit hidle hsub
  | inline hidle hsub => exact hsubmit hidle hsub
  | failed hidle hsub => exact hsubmit hidle hsub
  | @cancelled _ a _ _ hcancel => exact (cancel_spec (u := a) hI.inv hcancel).1
  | silent hcall => exact (call_spec hI.inv hcall).1
  | task hcall => exact (call_spec hI.inv hcall).1
  | completed _ hcall => exact (call_spec hI.inv hcall).1
  | errored _ hcall => exact (call_spec hI.inv hcall).1
  | returned => exact hI.inv
  | repeated => exact hI.inv

/-- The calls on the stack. -/
theorem PollStep.stack (hI : StepInv m) (h : PollStep m l m') (hstatus : m'.status = none)
    {fs : List (Frame Empty)} (hfs : fs ∈ m'.stack) :
    fs = [] ∨ ∃ o v, fs = [.complete o none] ∧ Over (m'.ops o) (.setValue v) := by
  have hold : fs ∈ m.stack →
      fs = [] ∨ ∃ o v, fs = [.complete o none] ∧ Over (m'.ops o) (.setValue v) := fun hmem =>
    (hI.stack fs hmem).imp_right fun ⟨o, v, heq, ho⟩ => ⟨o, v, heq, h.over hstatus ho⟩
  have hcons : fs ∈ [] :: m.stack →
      fs = [] ∨ ∃ o v, fs = [.complete o none] ∧ Over (m'.ops o) (.setValue v) := fun hmem =>
    (List.mem_cons.1 hmem).elim .inl hold
  cases h with
  | ended _ hsome => rw [hstatus] at hsome; cases hsome
  | queued => exact hold hfs
  | @inline io _ _ _ _ hsub =>
    rcases List.mem_cons.1 hfs with rfl | hfs
    · have hover := ((waiting_begun io.op .ready).complete none).1
      rw [← set_ops_self m io.self ((begun io.op .ready).complete none).1] at hover
      exact .inr ⟨io.self, _, rfl, hover⟩
    · exact hold hfs
  | failed => exact hcons hfs
  | cancelled => exact hcons hfs
  | silent => exact hold hfs
  | task => exact hcons hfs
  | completed => exact hcons hfs
  | errored => exact hcons hfs
  | returned hstack => exact hold (hstack ▸ List.mem_cons_of_mem _ hfs)
  | repeated hstack => exact hold (hstack ▸ List.mem_cons_of_mem _ hfs)

/-- **Every step keeps the invariant** while the process runs. -/
theorem PollStep.stepInv (hI : StepInv m) (h : PollStep m l m') (hstatus : m'.status = none) :
    StepInv m' := by
  refine ⟨h.inv hI hstatus, h.stands hI hstatus, fun io hio => ?_, fun io hio => ?_,
    fun fs => h.stack hI hstatus⟩
  · refine ((h.mem hI hstatus).1 io hio).elim (fun hio => ?_) id
    rw [h.op hstatus (hI.waiting (.inl hio)).started]
    exact hI.queued io hio
  · refine ((h.mem hI hstatus).2 io hio).elim (fun hio => ?_) id
    rw [h.op hstatus (hI.waiting (.inr hio)).started]
    exact hI.timers io hio

/-- **The invariant holds in every run** while the process runs. -/
theorem stepInv_of_runs {ok : Machine PollContext Empty → Label Answers Unit PollCall → Prop}
    {os : Os} (h : Runs pollBase ok (initial os) m) (hstatus : m.status = none) : StepInv m := by
  refine Reaches.invariant₂ (I := fun m : Machine PollContext Empty => m.status = none → StepInv m)
    (J := fun m => ∀ o, (m.ops o).upstream = {}) h (fun _ hm => Runs.never_started hm)
    (fun _ => stepInv_initial os) (fun m l m' hz hI _ hstep hnone => ?_) hstatus
  have hI := hI (status_of_step hstep)
  exact (pollStep_of_step hI hz hstep).stepInv hI hnone

/-- A step of a machine that was reached. -/
theorem pollStep_of_runs {ok : Machine PollContext Empty → Label Answers Unit PollCall → Prop}
    {os : Os} (h : Runs pollBase ok (initial os) m) (hstep : m.step pollBase l = some m') :
    PollStep m l m' :=
  pollStep_of_step (stepInv_of_runs h (status_of_step hstep)) (Runs.never_started h) hstep

end PollContext

end Net29
