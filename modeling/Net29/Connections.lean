import Net29.Transfers

/-!
# Finished connections

What the receiver of an `async_connect` or `async_accept` is sent when the system has finished the
operation, on `poll_context` and on `uring_context`.

* `connectSignal`, `Accepts`: what the receiver is sent for an outcome;
* `PollConnects`: the steps in which the outcome is delivered on `poll_context`;
* `connects_agree`, `accepts_agree`: it means the same on both contexts.
-/

namespace Net29

open Machine Transition

/-! ### Outcomes -/

/-- What `::connect` answers with the outcome `e`, 0 for success. -/
def connectAnswer (e : Errno) : SysAnswer := if e = 0 then .ok 0 [] else .err e

/-- The signal for the outcome. -/
def connectSignal (e : Errno) : Signal := if e = 0 then .setValue .unit else .setError (.system e)

/-- What the work function of `accept` calls with the outcome `a`, where `insert` enters the new
socket. -/
inductive AcceptCalls (insert : Fd → SocketId → Prop) (addrlen : ℕ) (o : OpId) :
    SysAnswer → List (Frame Empty) → Prop
  | opened {fd : Fd} {id : SocketId} {peer : List UInt8} (h : insert fd id) :
      AcceptCalls insert addrlen o (.ok fd peer)
        [.complete o (some (.accepted id (Endpoint.empty.write peer addrlen)))]
  | failed (e : Errno) : AcceptCalls insert addrlen o (.err e) [.error o (.system e)]

/-- What the receiver is sent then. -/
inductive Accepts (insert : Fd → SocketId → Prop) (addrlen : ℕ) : SysAnswer → List Signal → Prop
  | opened {fd : Fd} {id : SocketId} {peer : List UInt8} (h : insert fd id) :
      Accepts insert addrlen (.ok fd peer)
        [.setValue (.accepted id (Endpoint.empty.write peer addrlen))]
  | failed (e : Errno) : Accepts insert addrlen (.err e) [.setError (.system e)]

theorem AcceptCalls.accepts {C R A K : Type} {B : ContextBase C R A K Empty} {m : Machine C Empty}
    {insert : Fd → SocketId → Prop} {addrlen : ℕ} {o : OpId} {a : SysAnswer}
    {fs : List (Frame Empty)} (h : AcceptCalls insert addrlen o a fs)
    (hone : (m.ops o).outstanding = 1) (hnil : (m.ops o).signals = []) :
    Accepts insert addrlen a ((m.runFrames B fs).ops o).signals := by
  cases h with
  | opened hinsert =>
    rw [signals_of_complete hone hnil]
    exact .opened hinsert
  | failed e =>
    rw [signals_of_error hone hnil]
    exact .failed e

/-! ### On `poll_context` -/

namespace PollContext

variable {c c₁ : PollContext} {io : IoBase} {i n : ℕ} {sys : List SysAnswer} {now : Time}
  {answers : List PollAnswer} {a : SysAnswer} {os : Os} {e : Errno}
  {ok : Machine PollContext Empty → Label Answers Unit PollCall → Prop}
  {m m' : Machine PollContext Empty}

/-- The connection is made, or fails with `e`: at once, or the work function finds it out. -/
inductive PollConnects (m : Machine PollContext Empty) (io : IoBase) (e : Errno)
    (m' : Machine PollContext Empty) : Prop
  | atOnce {req : Answers} {flags : ℕ} {peer : List UInt8} {sys : List SysAnswer}
      (hlive : (m.ctx.sockets.get? io.op.id).isSome)
      (hsys : req.sys = .ok flags peer :: connectAnswer e :: sys)
      (hstep : m.step pollBase (.start io req false ()) = some m')
  | later {now : Time} {answers : List PollAnswer} {c₁ : PollContext} {i : ℕ} {peer : List UInt8}
      {sys : List SysAnswer} (hreports : Reports m.ctx now answers c₁ i (.ok e peer :: sys) io)
      (hlive : (c₁.sockets.get? io.op.id).isSome)
      (hstep : m.step pollBase (.call (.runOne now answers)) = some m')

/-- What the work function has called when an operation was dispatched. -/
theorem step_of_reports {c' : PollContext} {fs : List (Frame Empty)} {r : SubmitResult}
    (hreports : Reports m.ctx now answers c₁ i sys io)
    (hwork : (c₁.removeOutstanding i).work io sys = .ok (c', fs, r))
    (hstep : m.step pollBase (.call (.runOne now answers)) = some m') :
    m' = ({ m with ctx := c' } : Machine PollContext Empty).runFrames pollBase fs := by
  have hcall : pollBase.call m.ctx (.runOne now answers) = .ok (c', fs) := by
    show (m.ctx.runOne now answers).map _ = _
    rw [hreports.runOne hwork]
    rfl
  have hrun := step_call hstep
  rw [hcall] at hrun
  exact (Option.some.inj hrun).symm

theorem waiting_of_reports (hI : StepInv m) (h : Reports m.ctx now answers c₁ i sys io) :
    Waiting (m.ops io.self) ∧ (m.ops io.self).op = io.op := by
  have hmem : io ∈ m.ctx.outstanding :=
    (wait_spec h.wait).1.outstanding ▸ List.mem_of_getElem? h.entry
  exact ⟨hI.waiting (.inl hmem), (hI.queued io hmem).1⟩

/-- What a finished `connect` calls. -/
def connectFrame (o : OpId) (e : Errno) : Frame Empty :=
  if e = 0 then .complete o none else .error o (.system e)

theorem signals_of_connectFrame {o : OpId} {fs : List (Frame Empty)}
    (hone : (m.ops o).outstanding = 1) (hnil : (m.ops o).signals = [])
    (hvalue : (m.ops o).value = .unit) :
    ((m.runFrames pollBase (connectFrame o e :: fs)).ops o).signals = [connectSignal e] := by
  unfold connectFrame connectSignal
  split_ifs
  · rw [signals_of_complete hone hnil, hvalue]
    rfl
  · exact signals_of_error hone hnil _

theorem connectWork_outcome {rec : PollRecord} (hrec : c.sockets.get? io.op.id = some rec)
    (e : Errno) (peer : List UInt8) (sys : List SysAnswer) :
    ∃ c' r, c.connectWork io (.ok e peer :: sys) = .ok (c', [connectFrame io.self e], r) := by
  unfold connectWork nativeHandle connectFrame
  rw [hrec]
  by_cases he : e = 0
  · rw [if_pos he]
    exact ⟨_, _, if_pos he⟩
  · rw [if_neg he]
    exact ⟨_, _, if_neg he⟩

theorem connect_outcome {rec : PollRecord} (hrec : c.sockets.get? io.op.id = some rec)
    (he : e ≠ Errno.EINTR ∧ e ≠ Errno.EINPROGRESS) (endpoint : Endpoint) (flags : ℕ)
    (peer : List UInt8) (sys : List SysAnswer) :
    ∃ c' r, c.connect io endpoint (.ok flags peer :: connectAnswer e :: sys) =
      .ok (c', [connectFrame io.self e], r) := by
  unfold connect nativeHandle connectFrame connectAnswer
  rw [hrec]
  by_cases hz : e = 0
  · rw [if_pos hz, if_pos hz]
    exact ⟨_, _, rfl⟩
  · rw [if_neg hz, if_neg hz]
    exact ⟨_, _, if_neg (not_or.2 ⟨he.2, he.1⟩)⟩

/-- What the receiver is sent. -/
theorem PollConnects.signals {id : SocketId} {endpoint : Endpoint}
    (hm : Runs pollBase ok (initial os) m) (h : PollConnects m io e m')
    (hop : io.op = .connect id endpoint) (he : e ≠ Errno.EINTR ∧ e ≠ Errno.EINPROGRESS) :
    (m'.ops io.self).signals = [connectSignal e] := by
  cases h with
  | @later now answers c₁ i peer sys hreports hlive hstep =>
    obtain ⟨rec, hrec⟩ := Option.isSome_iff_exists.1 hlive
    have hI := stepInv_of_runs hm (status_of_step hstep)
    obtain ⟨hw, hsame⟩ := waiting_of_reports hI hreports
    have hvalue : (m.ops io.self).value = .unit := by
      rw [hm.prepared io.self hw.calls, hsame, hop]
      rfl
    have hrec' : (c₁.removeOutstanding i).sockets.get? io.op.id = some rec := by
      rw [sockets_removeOutstanding]
      exact hrec
    obtain ⟨c', r, hwork⟩ := connectWork_outcome hrec' e peer sys
    have hwork' : (c₁.removeOutstanding i).work io (.ok e peer :: sys) =
        .ok (c', [connectFrame io.self e], r) := by
      rw [work, hop]
      exact hwork
    rw [step_of_reports hreports hwork' hstep]
    exact signals_of_connectFrame hw.outstanding hw.signals hvalue
  | @atOnce req flags peer sys hlive hsys hstep =>
    obtain ⟨rec, hrec⟩ := Option.isSome_iff_exists.1 hlive
    have hI := stepInv_of_runs hm (status_of_step hstep)
    obtain ⟨hlog, hstart⟩ := step_start hstep
    have hidle := ((hI.stands io.self).idle_of_log hlog).1
    obtain ⟨c', r, hconnect⟩ := connect_outcome (c := m.ctx.record io) hrec he endpoint flags
      peer sys
    have hsubmit : pollBase.submit m.ctx io req = .ok (c', [connectFrame io.self e], r) := by
      show m.ctx.submit io req = _
      rw [submit, hop, hsys]
      exact hconnect
    rw [Machine.start, if_neg Bool.false_ne_true, set_ctx, hsubmit] at hstart
    obtain rfl := Option.some.inj hstart
    have hstate : (({ m.set io.self ((m.ops io.self).begin io.op false) with ctx := c' } :
        Machine PollContext Empty).note io.self (.submitted r)).ops io.self =
          begun io.op r := by
      rw [note_ops_self]
      simp only [set_ops_self, hidle]
      rfl
    refine signals_of_connectFrame ?_ ?_ ?_
    · rw [hstate]
      rfl
    · rw [hstate]
      rfl
    · rw [hstate, hop]
      rfl

/-- `run_one` returns what the work function of the operation it dispatches does. -/
theorem Reports.work_of_runOne {c' : PollContext} {fs : List (Frame Empty)} (ha : Aligned c)
    (h : Reports c now answers c₁ i sys io) (hrun : c.runOne now answers = .ok (c', fs, n)) :
    ∃ r, (c₁.removeOutstanding i).work io sys = .ok (c', fs, r) := by
  have hout : c.outstanding ≠ [] := by
    have hmem := List.mem_of_getElem? h.entry
    rw [(wait_spec h.wait).1.outstanding] at hmem
    exact List.ne_nil_of_mem hmem
  have hpoll : c.poll ≠ [] := by
    intro hnil
    have hlen := ha.length
    rw [hnil, List.length_nil, eq_comm, List.length_eq_zero_iff] at hlen
    exact hout hlen
  unfold PollContext.runOne at hrun
  rw [h.timer, h.task] at hrun
  dsimp only at hrun
  rw [if_neg fun hempty => hpoll hempty.1] at hrun
  obtain ⟨⟨c₂, exit⟩, hwait, hrun⟩ := Exec.bind_eq_ok.1 hrun
  cases h.wait.symm.trans hwait
  obtain ⟨⟨c₂, fs₂⟩, hdispatch, heq⟩ := Exec.bind_eq_ok.1 hrun
  cases heq
  rw [dispatch, h.entry] at hdispatch
  obtain ⟨⟨c₃, fs₃, r⟩, hwork, heq⟩ := Exec.bind_eq_ok.1 hdispatch
  cases heq
  exact ⟨r, hwork⟩

theorem acceptWork_outcome {addrlen : ℕ} {c' : PollContext} {fs : List (Frame Empty)}
    {r : SubmitResult} (hsys : retry sys = some (n, a)) (ha : Outcome a)
    (h : c.acceptWork io addrlen sys = .ok (c', fs, r)) :
    AcceptCalls (fun fd id => c.sockets.insert { handle := fd } = .ok (c'.sockets, id)) addrlen
      io.self a fs := by
  obtain ⟨fd, -, h⟩ := Exec.bind_eq_ok.1 h
  rw [hsys] at h
  cases a with
  | ok rc peer =>
    obtain ⟨c₁, hopened, h⟩ := Exec.bind_eq_ok.1 h
    obtain ⟨os, -, heq⟩ := Exec.bind_eq_ok.1 hopened
    cases heq
    obtain ⟨⟨c₂, id⟩, hmake, h⟩ := Exec.bind_eq_ok.1 h
    cases h
    obtain ⟨sockets, hinsert, rfl⟩ := makeSocketNative_eq_ok hmake
    exact .opened hinsert
  | err e =>
    dsimp only at h
    rw [if_neg ha.2.2.1] at h
    cases h
    exact .failed e

/-- What the receiver is sent, if the process goes on. -/
theorem accepts_of_finishes {id : SocketId} {addrlen : ℕ} (hm : Runs pollBase ok (initial os) m)
    (h : PollFinishes m io a m') (hop : io.op = .accept id addrlen) (ha : Outcome a)
    (hstatus : m'.status = none) :
    Accepts (fun fd id => m.ctx.sockets.insert { handle := fd } = .ok (m'.ctx.sockets, id))
      addrlen a
      (m'.ops io.self).signals := by
  obtain ⟨now, answers, c₁, i, sys, n, hreports, hlive, hsys, hstep⟩ := h
  have hI := stepInv_of_runs hm (status_of_step hstep)
  obtain ⟨hw, -⟩ := waiting_of_reports hI hreports
  rcases perform_eq_some (step_call hstep) with ⟨c, fs, hcall, rfl⟩ | ⟨e, -, rfl⟩
  · obtain ⟨⟨c', fs', n'⟩, hrun, heq⟩ := Exec.map_eq_ok.1 hcall
    cases heq
    obtain ⟨r, hwork⟩ := hreports.work_of_runOne hI.inv.aligned hrun
    rw [work, hop] at hwork
    have hcalls := acceptWork_outcome hsys ha hwork
    rw [sockets_removeOutstanding, (wait_spec hreports.wait).1.sockets] at hcalls
    rw [runFrames_ctx]
    exact hcalls.accepts hw.outstanding hw.signals
  · cases hstatus

end PollContext

/-! ### On `uring_context` -/

namespace UringContext

variable {c c' : UringContext} {io : IoBase} {cqe : Cqe} {a : SysAnswer} {os : Os} {e : Errno}
  {fs : List (Frame Empty)} {r : SubmitResult}
  {ok : Machine UringContext Empty → Label UringRequest (List ℤ) UringCall → Prop}
  {m m' : Machine UringContext Empty}

theorem failedWork_outcome (he : e ≠ Errno.ECANCELED)
    (h : c.failedWork io (-e) = .ok (c', fs, r)) : fs = [.error io.self (.system e)] := by
  unfold failedWork at h
  rw [if_neg fun heq => he (Int.natCast_inj.1 (neg_inj.1 heq))] at h
  cases h
  rw [neg_neg]

/-- What the receiver of a `connect` is sent. -/
theorem connects_of_reads {id : SocketId} {endpoint : Endpoint}
    (hm : Runs uringBase ok (initial os) m) (h : UringReads m io cqe m')
    (hop : io.op = .connect id endpoint) (hres : cqe.res = -e) (he : e ≠ Errno.ECANCELED)
    (hstop : (m.ops io.self).callback = .registered) :
    (m'.ops io.self).signals = [connectSignal e] := by
  obtain ⟨c, c', fs, r, -, hwork, rfl, hone, hnil, hcalls⟩ := work_of_reads hm h hstop
  have hvalue : (m.ops io.self).value = .unit := by
    rw [hm.prepared io.self hcalls, h.2.1, hop]
    rfl
  have hconnect : c.connectWork io cqe = .ok (c', fs, r) := by
    rw [work, h.1] at hwork
    dsimp only at hwork
    rwa [hop] at hwork
  unfold connectWork at hconnect
  rw [hres] at hconnect
  by_cases hz : e = 0
  · rw [if_neg (by simp [hz])] at hconnect
    cases hconnect
    rw [connectSignal, if_pos hz, ← hvalue]
    exact signals_of_complete (m := { m with ctx := c }) hone hnil none
  · have hpos : 0 < e := Nat.pos_of_ne_zero hz
    rw [if_pos (by simpa using hpos)] at hconnect
    rw [connectSignal, if_neg hz, failedWork_outcome he hconnect]
    exact signals_of_error (m := { m with ctx := c' }) hone hnil _

/-- What the receiver of an `accept` is sent. -/
theorem accepts_of_reads {id : SocketId} {addrlen : ℕ} (hm : Runs uringBase ok (initial os) m)
    (h : UringReads m io cqe m') (hop : io.op = .accept id addrlen)
    (hres : cqe.res = a.result) (hpeer : ∀ n peer, a = .ok n peer → cqe.peer = peer)
    (ha : Outcome a) (hstop : (m.ops io.self).callback = .registered) :
    Accepts (fun fd id => m.ctx.sockets.insert fd = .ok (m'.ctx.sockets, id)) addrlen a
      (m'.ops io.self).signals := by
  obtain ⟨c, c', fs, r, hsockets, hwork, rfl, hone, hnil, -⟩ := work_of_reads hm h hstop
  have haccept : c.acceptWork io addrlen cqe = .ok (c', fs, r) := by
    rw [work, h.1] at hwork
    dsimp only at hwork
    rwa [hop] at hwork
  rw [runFrames_ctx]
  refine AcceptCalls.accepts (o := io.self) ?_ hone hnil
  unfold acceptWork at haccept
  cases a with
  | err e =>
    have hpos : 0 < e := Nat.pos_of_ne_zero ha.1
    rw [show cqe.res = -(e : ℤ) from hres, if_pos (by simpa using hpos)] at haccept
    rw [failedWork_outcome ha.2.2.2 haccept]
    exact .failed e
  | ok n peer =>
    rw [show cqe.res = (n : ℤ) from hres, if_neg (by omega)] at haccept
    obtain ⟨⟨c₂, id'⟩, hmake, heq⟩ := Exec.bind_eq_ok.1 haccept
    cases heq
    obtain ⟨sockets, hinsert, rfl⟩ := makeSocketNative_eq_ok hmake
    rw [hsockets, Int.toNat_natCast] at hinsert
    rw [hpeer n peer rfl]
    exact .opened hinsert

end UringContext

/-! ### Both -/

open PollContext UringContext

/-- **A finished connection attempt means the same on both contexts**, also where `poll_context`
learns the outcome from `::connect` itself, if no stop was requested on `uring_context`. -/
theorem connects_agree {os os' : Os}
    {okp : Machine PollContext Empty → Label Answers Unit PollCall → Prop}
    {oku : Machine UringContext Empty → Label UringRequest (List ℤ) UringCall → Prop}
    {mp mp' : Machine PollContext Empty} {mu mu' : Machine UringContext Empty}
    (hp : Runs pollBase okp (PollContext.initial os) mp)
    (hu : Runs uringBase oku (UringContext.initial os') mu) {io io' : IoBase}
    {id id' : SocketId} {endpoint endpoint' : Endpoint} (hop : io.op = .connect id endpoint)
    (hop' : io'.op = .connect id' endpoint') (hstop : (mu.ops io'.self).callback = .registered)
    {e : Errno} (he : e ≠ Errno.EINTR ∧ e ≠ Errno.EINPROGRESS ∧ e ≠ Errno.ECANCELED) {cqe : Cqe}
    (hres : cqe.res = -e) (hfp : PollConnects mp io e mp') (hfu : UringReads mu io' cqe mu') :
    (mp'.ops io.self).signals = [connectSignal e] ∧
      (mu'.ops io'.self).signals = [connectSignal e] :=
  ⟨hfp.signals hp hop ⟨he.1, he.2.1⟩, connects_of_reads hu hfu hop' hres he.2.2 hstop⟩

/-- A `connect` on a socket with the descriptor 3 that is refused. -/
theorem connects_agree_refused :
    ∃ (mp' : Machine PollContext Empty) (mu' : Machine UringContext Empty) (x : Signal),
      (mp'.ops 1).signals = [x] ∧ (mu'.ops 1).signals = [x] := by
  let io : IoBase := ⟨1, .connect 0 .empty⟩
  obtain ⟨mp, hp, mp', hlive, hstep⟩ : ∃ mp,
      run (step pollBase) { ctx := PollContext.initial {} } [.call (.makeSocket (.ok 3 []))] =
        some mp ∧ ∃ mp', (mp.ctx.sockets.get? 0).isSome ∧
      mp.step pollBase (.start io { sys := [.ok 0 [], connectAnswer 111] } false ()) = some mp' :=
    ⟨_, rfl, _, rfl, rfl⟩
  obtain ⟨mu, hu, mu', hop, hstop, hseen, hstep'⟩ : ∃ mu,
      run (step uringBase) { ctx := UringContext.initial {} }
        [.call (.makeSocket (.ok 3 [])), .start io {} false []] = some mu ∧ ∃ mu',
      (mu.ops 1).op = io.op ∧ (mu.ops 1).callback = .registered ∧
      mu'.ctx.seen = ⟨-111, .op io, []⟩ :: mu.ctx.seen ∧
      mu.step uringBase (.call (.runOne 1 [⟨0, -111, []⟩] 0)) = some mu' :=
    ⟨_, rfl, _, rfl, rfl, rfl, rfl⟩
  have hfp : PollConnects mp io 111 mp' := .atOnce hlive rfl hstep
  have hfu : UringReads mu io ⟨-111, .op io, []⟩ mu' := ⟨rfl, hop, hseen, _, _, _, hstep'⟩
  exact ⟨mp', mu', _, connects_agree (reaches_free_of_run hp) (reaches_free_of_run hu) rfl rfl hstop
    (by decide) rfl hfp hfu⟩

/-- **A finished accept means the same on both contexts**, but for the ids under which they enter
the new socket, if `poll_context` gets to enter it and no stop was requested on `uring_context`. -/
theorem accepts_agree {os os' : Os}
    {okp : Machine PollContext Empty → Label Answers Unit PollCall → Prop}
    {oku : Machine UringContext Empty → Label UringRequest (List ℤ) UringCall → Prop}
    {mp mp' : Machine PollContext Empty} {mu mu' : Machine UringContext Empty}
    (hp : Runs pollBase okp (PollContext.initial os) mp)
    (hu : Runs uringBase oku (UringContext.initial os') mu) {io io' : IoBase}
    {id id' : SocketId} {addrlen : ℕ} (hop : io.op = .accept id addrlen)
    (hop' : io'.op = .accept id' addrlen) (hstop : (mu.ops io'.self).callback = .registered)
    {a : SysAnswer} (ha : Outcome a) {cqe : Cqe} (hres : cqe.res = a.result)
    (hpeer : ∀ n peer, a = .ok n peer → cqe.peer = peer) (hfp : PollFinishes mp io a mp')
    (hstatus : mp'.status = none) (hfu : UringReads mu io' cqe mu') :
    Accepts (fun fd id => mp.ctx.sockets.insert { handle := fd } = .ok (mp'.ctx.sockets, id))
      addrlen a (mp'.ops io.self).signals ∧
    Accepts (fun fd id => mu.ctx.sockets.insert fd = .ok (mu'.ctx.sockets, id)) addrlen a
      (mu'.ops io'.self).signals :=
  ⟨accepts_of_finishes hp hfp hop ha hstatus,
    accepts_of_reads hu hfu hop' hres hpeer ha hstop⟩

/-- An `accept` on a socket with the descriptor 3. -/
def oneAccept : IoBase := ⟨1, .accept 0 16⟩

/-- It gives the descriptor 5. -/
def acceptReported : List PollAnswer := [.ok [POLLIN] 0 [.ok 5 []]]

theorem accepts_agree_opened :
    ∃ (mp' : Machine PollContext Empty) (mu' : Machine UringContext Empty) (id id' : SocketId)
      (peer : Endpoint), (mp'.ops 1).signals = [.setValue (.accepted id peer)] ∧
      (mu'.ops 1).signals = [.setValue (.accepted id' peer)] := by
  obtain ⟨mp, hp, hpoll, hout, htimeouts, htasks, hlive⟩ : ∃ mp,
      run (step pollBase) { ctx := PollContext.initial {} }
        [.call (.makeSocket (.ok 3 [])), .start oneAccept {} false ()] = some mp ∧
      mp.ctx.poll = [⟨3, POLLIN, 0⟩] ∧ mp.ctx.outstanding = [oneAccept] ∧ mp.ctx.timeouts = [] ∧
      mp.ctx.tasks.head = none ∧ (mp.ctx.sockets.get? 0).isSome := ⟨_, rfl, rfl, rfl, rfl, rfl, rfl⟩
  have hgoes : (run (step pollBase) { ctx := PollContext.initial {} }
      ([.call (.makeSocket (.ok 3 [])), .start oneAccept {} false ()] ++
        [.call (.runOne 0 acceptReported)])).map (fun m => m.status.isNone) = some true := by decide
  rw [run_append, hp, Option.bind_some, run_cons] at hgoes
  obtain ⟨mp', hrun, hgoes⟩ := Option.map_eq_some_iff.1 hgoes
  obtain ⟨_, hstep, heq⟩ := Option.bind_eq_some_iff.1 hrun
  cases heq
  have hstatus : mp'.status = none := Option.isNone_iff_eq_none.1 hgoes
  obtain ⟨c₁, hreports, hsockets⟩ : ∃ c₁,
      PollContext.Reports mp.ctx 0 acceptReported c₁ 0 [.ok 5 []] oneAccept ∧
        c₁.sockets = mp.ctx.sockets :=
    reports_single hpoll hout htimeouts htasks (by decide)
  have hfp : PollFinishes mp oneAccept (.ok 5 []) mp' :=
    ⟨0, acceptReported, c₁, 0, _, 1, hreports, hsockets ▸ hlive, rfl, hstep⟩
  obtain ⟨mu, hu, mu', hstop, hfu⟩ : ∃ mu,
      run (step uringBase) { ctx := UringContext.initial {} }
        [.call (.makeSocket (.ok 3 [])), .start oneAccept {} false []] = some mu ∧ ∃ mu',
      (mu.ops 1).callback = .registered ∧ UringReads mu oneAccept ⟨5, .op oneAccept, []⟩ mu' :=
    ⟨_, rfl, _, rfl, rfl, rfl, rfl, 1, [⟨0, 5, []⟩], 0, rfl⟩
  have hpeer : ∀ n peer, SysAnswer.ok 5 [] = .ok n peer →
      (Cqe.mk 5 (.op oneAccept) []).peer = peer := by
    rintro n peer ⟨⟩
    rfl
  obtain ⟨hpoll, huring⟩ := accepts_agree (reaches_free_of_run hp) (reaches_free_of_run hu) rfl rfl
    hstop (a := .ok 5 []) trivial rfl hpeer hfp hstatus hfu
  generalize hx : (mp'.ops oneAccept.self).signals = x at hpoll
  generalize hx' : (mu'.ops oneAccept.self).signals = x' at huring
  cases hpoll
  cases huring
  exact ⟨mp', mu', _, _, _, hx, hx'⟩

end Net29
