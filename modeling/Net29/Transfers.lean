import Net29.Poll.Steps
import Net29.Uring.Finished

/-!
# Finished transfers

What the receiver of an `async_receive` or `async_send` is sent when the system has finished the
operation, on `poll_context` and on `uring_context`.

* `Outcome`: how the system can finish an operation;
* `PollFinishes`, `UringFinishes`: the steps in which it does, with what is delivered then;
* `transfers_agree_iff`: the outcomes that mean the same on both contexts.
-/

namespace Net29

open Machine Transition

/-- A final outcome: a byte count, or an error that is neither an interruption, nor that the
operation would block, nor its cancellation. -/
def Outcome : SysAnswer → Prop
  | .ok _ _ => True
  | .err e => e ≠ 0 ∧ e ≠ Errno.EINTR ∧ e ≠ Errno.EWOULDBLOCK ∧ e ≠ Errno.ECANCELED

/-- What the outcome is as the result of a completion. -/
def SysAnswer.result : SysAnswer → ℤ
  | .ok n _ => n
  | .err e => -e

/-- The outcome as a signal. -/
def SysAnswer.signal : SysAnswer → Signal
  | .ok n _ => .setValue (.size n)
  | .err e => .setError (.system e)

/-- The connection was lost. -/
def SysAnswer.Lost (a : SysAnswer) : Prop := a = .err Errno.ECONNRESET ∨ a = .err Errno.EPIPE

instance (a : SysAnswer) : Decidable a.Lost := inferInstanceAs (Decidable (_ ∨ _))

/-- Two operations are both a `receive`, or both a `send`. -/
inductive SameTransfer : Operation → Operation → Prop
  | receive (id id' : SocketId) (buffers buffers' : List ℕ) :
      SameTransfer (.receive id buffers) (.receive id' buffers')
  | send (id id' : SocketId) (buffers buffers' : List ℕ) :
      SameTransfer (.send id buffers) (.send id' buffers')

/-- An operation that is a `receive` or a `send`. -/
def Operation.isTransfer : Operation → Bool
  | .receive _ _ | .send _ _ => true
  | _ => false

theorem SameTransfer.left {op op' : Operation} (h : SameTransfer op op') :
    op.isTransfer = true := by
  cases h <;> rfl

theorem SameTransfer.right {op op' : Operation} (h : SameTransfer op op') :
    op'.isTransfer = true := by
  cases h <;> rfl

/-! ### On `poll_context` -/

namespace PollContext

variable {c c₁ : PollContext} {io : IoBase} {i n : ℕ} {sys : List SysAnswer} {now : Time}
  {answers : List PollAnswer} {a : SysAnswer} {rec : PollRecord} {os : Os}
  {ok : Machine PollContext Empty → Label Answers Unit PollCall → Prop}
  {m m' : Machine PollContext Empty}

/-- `run_one` reaches the entry `i`, which is that of `io`. -/
structure Reports (c : PollContext) (now : Time) (answers : List PollAnswer) (c₁ : PollContext)
    (i : ℕ) (sys : List SysAnswer) (io : IoBase) : Prop where
  timer : c.processTimeout now = none
  task : c.processTask = none
  wait : c.wait now answers = .ok (c₁, .entry i sys)
  entry : c₁.outstanding[i]? = some io

/-- Then it returns when the work function has. -/
theorem Reports.runOne {c' : PollContext} {fs : List (Frame Empty)} {r : SubmitResult}
    (h : Reports c now answers c₁ i sys io)
    (hwork : (c₁.removeOutstanding i).work io sys = .ok (c', fs, r)) :
    c.runOne now answers = .ok (c', fs, 1) := by
  have hpoll : c.poll ≠ [] := by
    intro hnil
    obtain ⟨hw, hleft⟩ := wait_spec h.wait
    cases hleft with
    | entry _ hp =>
      have hentries : c₁.poll.map _ = c.poll.map _ := hw.entries
      rw [hnil, List.map_nil, List.map_eq_nil_iff] at hentries
      rw [hentries] at hp
      cases hp
  unfold PollContext.runOne
  rw [h.timer, h.task]
  dsimp only
  rw [if_neg fun hempty => hpoll hempty.1, h.wait]
  simp only [Bind.bind, Except.bind, dispatch, h.entry, hwork]

/-- The only entry is reported by the first call of `poll`. -/
theorem reports_single {fd : Fd} {events revents : BitVec 16} {later : Time}
    (hpoll : c.poll = [⟨fd, events, 0⟩]) (hio : c.outstanding = [io]) (htimeouts : c.timeouts = [])
    (htasks : c.tasks.head = none) (hrev : (Pollfd.mk fd events revents).reported = true) :
    ∃ c₁, Reports c now [.ok [revents] later sys] c₁ 0 sys io ∧ c₁.sockets = c.sockets := by
  let c₀ : PollContext := { c with polls := c.timeout now :: c.polls }
  have hp : (c₀.report [revents]).poll = [⟨fd, events, revents⟩] := by simp [c₀, report, hpoll]
  have hscan : (c₀.report [revents]).scan (c₀.report [revents]).poll.length = some 0 := by
    rw [hp, List.length_singleton]
    simp [scan, hp, hrev]
  refine ⟨c₀.report [revents], ⟨?_, ?_, ?_, ?_⟩, rfl⟩
  · rw [processTimeout, htimeouts]
    rfl
  · rw [processTask, TaskList.pop?, htasks]
    rfl
  · have hlen : ¬ [revents].length ≠ c₀.poll.length := by simp [c₀, hpoll]
    show (if [revents].length ≠ c₀.poll.length then _ else _) = _
    rw [if_neg hlen, hscan]
  · show c.outstanding[0]? = _
    rw [hio]
    rfl

/-- `a` is the outcome of the calls that the work function of `io` makes in this step. -/
def PollFinishes (m : Machine PollContext Empty) (io : IoBase) (a : SysAnswer)
    (m' : Machine PollContext Empty) : Prop :=
  ∃ now answers c₁ i sys n, Reports m.ctx now answers c₁ i sys io ∧
    (c₁.sockets.get? io.op.id).isSome ∧ retry sys = some (n, a) ∧
    m.step pollBase (.call (.runOne now answers)) = some m'

/-- What a transfer calls. -/
def transferFrame (o : OpId) (a : SysAnswer) : Frame Empty :=
  if a.Lost then .complete o (some (.size 0))
  else match a with
    | .ok n _ => .complete o (some (.size n))
    | .err e => .error o (.system e)

theorem transferWork_outcome {call : Syscall} (hlive : c.sockets.get? io.op.id = some rec)
    (hsys : retry sys = some (n, a)) (ha : Outcome a) :
    ∃ c' r, transferWork call c io sys = .ok (c', [transferFrame io.self a], r) := by
  unfold transferWork nativeHandle
  rw [hlive, hsys]
  cases a with
  | ok n peer => exact ⟨_, _, rfl⟩
  | err e =>
    simp only [Bind.bind, Except.bind, transferFrame, SysAnswer.Lost, SysAnswer.err.injEq]
    rw [if_neg ha.2.2.1]
    split_ifs <;> exact ⟨_, _, rfl⟩

theorem work_outcome (hop : io.op.isTransfer = true) (hlive : c.sockets.get? io.op.id = some rec)
    (hsys : retry sys = some (n, a)) (ha : Outcome a) :
    ∃ c' r, c.work io sys = .ok (c', [transferFrame io.self a], r) := by
  unfold work
  split
  · next hp => rw [hp] at hop; cases hop
  · next hp => rw [hp] at hop; cases hop
  · next hp => rw [hp] at hop; cases hop
  · exact transferWork_outcome hlive hsys ha
  · exact transferWork_outcome hlive hsys ha
  · next hp => rw [hp] at hop; cases hop

/-- What the receiver is sent: a lost connection looks like the end of the stream. -/
theorem PollFinishes.signals (hm : Runs pollBase ok (initial os) m) (h : PollFinishes m io a m')
    (hop : io.op.isTransfer = true) (ha : Outcome a) :
    (m'.ops io.self).signals = [if a.Lost then .setValue (.size 0) else a.signal] := by
  obtain ⟨now, answers, c₁, i, sys, n, hrep, hlive, hsys, hstep⟩ := h
  obtain ⟨rec, hrec⟩ := Option.isSome_iff_exists.1 hlive
  have hI := stepInv_of_runs hm (status_of_step hstep)
  have hmem : io ∈ m.ctx.outstanding :=
    (wait_spec hrep.wait).1.outstanding ▸ List.mem_of_getElem? hrep.entry
  have hw := hI.waiting (.inl hmem)
  obtain ⟨c', r, hwork⟩ := work_outcome (c := c₁.removeOutstanding i) hop
    (by rw [sockets_removeOutstanding]; exact hrec) hsys ha
  have hcall : pollBase.call m.ctx (.runOne now answers) =
      .ok (c', [transferFrame io.self a]) := by
    show (m.ctx.runOne now answers).map _ = _
    rw [hrep.runOne hwork]
    rfl
  have hrun := step_call hstep
  rw [hcall] at hrun
  obtain rfl := Option.some.inj hrun
  have hcomplete : ∀ v, ((({ m with ctx := c' } : Machine PollContext Empty).runFrames pollBase
      [.complete io.self (some v)]).ops io.self).signals = [.setValue v] := by
    intro v
    rw [runFrames_user (by exact (hw.complete (some v)).2)]
    show ((m.set io.self _).ops io.self).signals = _
    rw [set_ops_self]
    exact (hw.complete (some v)).1.signals
  have hsocket : (m.ops io.self).op.onSocket = true := by
    rw [(hI.queued io hmem).1]
    exact (hI.queued io hmem).2
  unfold transferFrame
  split_ifs with hlost
  · exact hcomplete _
  · cases a with
    | ok k peer => exact hcomplete _
    | err e =>
      rw [runFrames_user (by exact hw.error_signals _)]
      show ((m.set io.self _).ops io.self).signals = _
      rw [set_ops_self]
      exact (hw.error hsocket (.system e)).signals

end PollContext

/-! ### On `uring_context` -/

namespace UringContext

variable {c c' : UringContext} {io : IoBase} {cqe : Cqe} {a : SysAnswer} {os : Os}
  {fs : List (Frame Empty)} {r : SubmitResult}
  {ok : Machine UringContext Empty → Label UringRequest (List ℤ) UringCall → Prop}
  {m m' : Machine UringContext Empty}

/-- A completion of `io` with the outcome `a` is read in this step. -/
def UringFinishes (m : Machine UringContext Empty) (io : IoBase) (a : SysAnswer)
    (m' : Machine UringContext Empty) : Prop :=
  ∃ submitted posts waited cqe, cqe.data = .op io ∧ cqe.res = a.result ∧
    m'.ctx.seen = cqe :: m.ctx.seen ∧
    m.step uringBase (.call (.runOne submitted posts waited)) = some m'

theorem work_outcome (hdata : cqe.data = .op io) (hop : io.op.isTransfer = true)
    (hres : cqe.res = a.result) (ha : Outcome a) (h : c.work cqe = .ok (c', fs, r)) :
    fs = [match a with
      | .ok n _ => .complete io.self (some (.size n))
      | .err e => .error io.self (.system e)] := by
  have htransfer : c.transferWork io cqe = .ok (c', fs, r) := by
    unfold work at h
    rw [hdata] at h
    dsimp only at h
    split at h
    · next hp => rw [hp] at hop; cases hop
    · next hp => rw [hp] at hop; cases hop
    · exact h
    · exact h
    · next hp => rw [hp] at hop; cases hop
    · next hp => rw [hp] at hop; cases hop
  unfold transferWork failedWork at htransfer
  rw [hres] at htransfer
  cases a with
  | ok n peer =>
    rw [if_neg (by simp [SysAnswer.result])] at htransfer
    cases htransfer
    rfl
  | err e =>
    have hpos : 0 < e := Nat.pos_of_ne_zero ha.1
    have hcancelled : ¬ SysAnswer.result (.err e) = -(Errno.ECANCELED : ℤ) := fun heq =>
      ha.2.2.2 (by simpa [SysAnswer.result] using heq)
    rw [if_pos (by simp [SysAnswer.result]; omega), if_neg hcancelled] at htransfer
    cases htransfer
    simp [SysAnswer.result]

/-- What the receiver is sent, if no stop was requested. -/
theorem UringFinishes.signals (hm : Runs uringBase ok (initial os) m) (h : UringFinishes m io a m')
    (hop : io.op.isTransfer = true) (ha : Outcome a)
    (hstop : (m.ops io.self).callback = .registered) :
    (m'.ops io.self).signals = [a.signal] := by
  obtain ⟨submitted, posts, waited, cqe, hdata, hres, hseen, hstep⟩ := h
  have hsound : uringLedger.Sound True False m := (uringLedger_fresh os).sound
    (hm.mono fun m l _ => Ledger.guard_of_not_drops (fun _ _ hd => hd) m l trivial)
  rcases perform_eq_some (step_call hstep) with ⟨c, fs, hcall, rfl⟩ | ⟨e, -, rfl⟩
  · obtain ⟨⟨c₁, fs₁, n⟩, hrun, heq⟩ := Exec.map_eq_ok.1 hcall
    cases heq
    rw [runFrames_ctx] at hseen
    cases runOne_read hrun with
    | nothing hsame => exact absurd (hsame.symm.trans hseen) seen_ne_cons
    | @completion c₂ cqe' r hread _ _ hpointers hwork =>
      obtain rfl := (List.cons.inj (hread.symm.trans hseen)).1
      rw [work_outcome hdata hop hres ha hwork]
      -- the operation is pending, and only its own call is owed
      have hheld : 0 < m.ctx.held io.self := by
        rw [held, hpointers.countP_eq, hdata, List.countP_cons]
        simp [Completion.isOp]
      cases hsound.phase (status_of_step hstep) io.self with
      | idle _ hz => exact absurd hz (Nat.ne_of_gt hheld)
      | refused _ hz => exact absurd hz (Nat.ne_of_gt hheld)
      | done hd => exact absurd hd.held (Nat.ne_of_gt hheld)
      | live hl =>
        have hone := (hl.registered hstop).1
        have hnil : (m.ops io.self).signals = [] := hl.signals
        cases a with
        | ok k peer =>
          rw [runFrames_cons_of_user (by exact (SenderState.countDown_signals _ _ _ _).2 hone)]
          show ((m.set io.self _).ops io.self).signals = _
          rw [set_ops_self, SenderState.complete_last hone]
          simp only [SenderState.signals, List.filterMap_cons, OpEvent.signal?] at hnil ⊢
          rw [hnil]
          rfl
        | err e =>
          rw [runFrames_cons_of_user (by exact (SenderState.countDown_signals _ _ _ _).2 hone)]
          show ((m.set io.self _).ops io.self).signals = _
          rw [set_ops_self, SenderState.error, SenderState.countDown_last hone]
          simp only [SenderState.signals, List.filterMap_cons, OpEvent.signal?] at hnil ⊢
          rw [hnil]
          rfl
  · exact absurd hseen seen_ne_cons

end UringContext

/-! ### Both -/

open PollContext UringContext

/-- **A finished transfer means the same on both contexts** exactly when the connection was not
lost: `poll_context` reports that as the end of the stream, `uring_context` as an error. -/
theorem transfers_agree_iff (os os' : Os)
    (okp : Machine PollContext Empty → Label Answers Unit PollCall → Prop)
    (oku : Machine UringContext Empty → Label UringRequest (List ℤ) UringCall → Prop)
    (mp mp' : Machine PollContext Empty) (mu mu' : Machine UringContext Empty)
    (hp : Runs pollBase okp (PollContext.initial os) mp)
    (hu : Runs uringBase oku (UringContext.initial os') mu) (io io' : IoBase)
    (hop : SameTransfer io.op io'.op) (hstop : (mu.ops io'.self).callback = .registered)
    (a : SysAnswer) (ha : Outcome a) (hfp : PollFinishes mp io a mp')
    (hfu : UringFinishes mu io' a mu') :
    (∃ x, (mp'.ops io.self).signals = [x] ∧ (mu'.ops io'.self).signals = [x]) ↔
      a ≠ .err Errno.ECONNRESET ∧ a ≠ .err Errno.EPIPE := by
  rw [hfp.signals hp hop.left ha, hfu.signals hu hop.right ha hstop, ← not_or]
  show _ ↔ ¬ a.Lost
  constructor
  · rintro ⟨x, hx, hx'⟩ hlost
    rw [if_pos hlost] at hx
    have hsignal : Signal.setValue (.size 0) = a.signal :=
      (List.singleton_inj.1 hx).trans (List.singleton_inj.1 hx').symm
    rcases hlost with rfl | rfl <;> cases hsignal
  · intro hlost
    rw [if_neg hlost]
    exact ⟨_, rfl, rfl⟩

/-- A `receive` on a socket with the descriptor 3, which is queued. -/
def queuedReceive {R A K : Type} (makeSocket : K) (req : R) (a : A) : List (Label R A K) :=
  [.call makeSocket, .start ⟨1, .receive 0 [8]⟩ req false a]

/-- On `poll_context` it can end in every way. -/
theorem receive_pollFinishes (a : SysAnswer) (hsys : retry [a] = some (1, a)) (ha : Outcome a) :
    ∃ m m' : Machine PollContext Empty, Runs pollBase free (PollContext.initial {}) m ∧
      PollFinishes m ⟨1, .receive 0 [8]⟩ a m' := by
  obtain ⟨m, hrun, hm⟩ := runs_of_labels pollBase (PollContext.initial {}) any any_free
    (queuedReceive (.makeSocket (.ok 3 [])) {} ()) (fun m => (m.status, m.ctx.poll,
      m.ctx.outstanding, m.ctx.timeouts, m.ctx.tasks.head, m.ctx.sockets.get? 0))
    (none, [⟨3, POLLIN, 0⟩], [⟨1, .receive 0 [8]⟩], [], none, some ⟨3, true⟩) rfl
  obtain ⟨hstatus, hpoll, hout, htimeouts, htasks, hlive⟩ : _ ∧ _ ∧ _ ∧ _ ∧ _ ∧ _ := by
    simpa only [Prod.mk.injEq] using hm
  obtain ⟨c₁, hrep, hsockets⟩ : ∃ c₁, PollContext.Reports m.ctx 0 [.ok [POLLIN] 0 [a]] c₁ 0 [a]
      ⟨1, .receive 0 [8]⟩ ∧ c₁.sockets = m.ctx.sockets :=
    reports_single hpoll hout htimeouts htasks (by decide)
  have hlive₁ : c₁.sockets.get? 0 = some ⟨3, true⟩ := hsockets ▸ hlive
  have hlive₂ : (c₁.removeOutstanding 0).sockets.get? (⟨1, .receive 0 [8]⟩ : IoBase).op.id =
      some ⟨3, true⟩ := by
    rw [sockets_removeOutstanding]
    exact hlive₁
  obtain ⟨c', r, hwork⟩ := work_outcome rfl hlive₂ hsys ha
  have hcall : pollBase.call m.ctx (.runOne 0 [.ok [POLLIN] 0 [a]]) =
      .ok (c', [transferFrame 1 a]) := by
    show (m.ctx.runOne 0 _).map _ = _
    rw [hrep.runOne hwork]
    rfl
  have hstep : m.step pollBase (.call (.runOne 0 [.ok [POLLIN] 0 [a]])) =
      some (({ m with ctx := c' } : Machine PollContext Empty).runFrames pollBase
        [transferFrame 1 a]) := by
    rw [Machine.step, if_neg (by rw [hstatus]; decide)]
    show m.perform pollBase (pollBase.call m.ctx _) = _
    rw [hcall]
    rfl
  exact ⟨m, _, hrun, 0, _, c₁, 0, [a], 1, hrep, Option.isSome_iff_exists.2 ⟨_, hlive₁⟩, hsys, hstep⟩

/-- On `uring_context` it ends as computed. -/
theorem receive_uringFinishes (a : SysAnswer)
    (h : (run (checked (step uringBase) any) { ctx := UringContext.initial {} }
      (queuedReceive (.makeSocket (.ok 3 [])) {} [])).map (fun m => ((m.ops 1).callback, m.ctx.seen,
        (m.step uringBase (.call (.runOne 1 [⟨0, a.result, []⟩] 0))).map fun m' => m'.ctx.seen)) =
      some (.registered, [], some [⟨a.result, .op ⟨1, .receive 0 [8]⟩, []⟩])) :
    ∃ m m' : Machine UringContext Empty, Runs uringBase free (UringContext.initial {}) m ∧
      (m.ops 1).callback = .registered ∧ UringFinishes m ⟨1, .receive 0 [8]⟩ a m' := by
  obtain ⟨m, hrun, hm⟩ := runs_of_labels uringBase (UringContext.initial {}) any any_free _ _ _ h
  obtain ⟨hstop, hseen, hstep⟩ : _ ∧ _ ∧ _ := by simpa only [Prod.mk.injEq] using hm
  obtain ⟨m', hstep, hseen'⟩ := Option.map_eq_some_iff.1 hstep
  exact ⟨m, m', hrun, hstop, 1, _, 0, _, rfl, rfl, by rw [hseen', hseen], hstep⟩

theorem transfers_agree_iff_fiveBytes :
    ∃ (mp' : Machine PollContext Empty) (mu' : Machine UringContext Empty) (x : Signal),
      (mp'.ops 1).signals = [x] ∧ (mu'.ops 1).signals = [x] := by
  obtain ⟨mp, mp', hp, hfp⟩ := receive_pollFinishes (.ok 5 []) rfl trivial
  obtain ⟨mu, mu', hu, hstop, hfu⟩ := receive_uringFinishes (.ok 5 []) (by decide)
  exact ⟨mp', mu', (transfers_agree_iff {} {} free free mp mp' mu mu' hp hu ⟨1, .receive 0 [8]⟩
    ⟨1, .receive 0 [8]⟩ (.receive 0 0 [8] [8]) hstop (.ok 5 []) trivial hfp hfu).2 (by decide)⟩

/-- A reset by the peer ends the stream on one context and fails on the other. -/
theorem reset_told_apart :
    ¬ ∀ (mp mp' : Machine PollContext Empty) (mu mu' : Machine UringContext Empty),
      Runs pollBase free (PollContext.initial {}) mp →
      Runs uringBase free (UringContext.initial {}) mu →
      ∀ io : IoBase, (mu.ops io.self).callback = .registered → io.op.isTransfer = true →
        ∀ a, Outcome a → PollFinishes mp io a mp' → UringFinishes mu io a mu' →
          (mp'.ops io.self).signals = (mu'.ops io.self).signals := by
  intro h
  have hreset : Outcome (.err Errno.ECONNRESET) := by
    refine ⟨?_, ?_, ?_, ?_⟩ <;> decide
  obtain ⟨mp, mp', hp, hfp⟩ := receive_pollFinishes (.err Errno.ECONNRESET) rfl hreset
  obtain ⟨mu, mu', hu, hstop, hfu⟩ := receive_uringFinishes (.err Errno.ECONNRESET) (by decide)
  have hsame := h mp mp' mu mu' hp hu ⟨1, .receive 0 [8]⟩ hstop rfl _ hreset hfp hfu
  rw [hfp.signals hp rfl hreset, hfu.signals hu rfl hreset hstop, if_pos (.inl rfl)] at hsame
  cases hsame

end Net29
