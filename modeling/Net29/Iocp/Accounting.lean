import Net29.Iocp.Ledger

/-!
# The requests of `iocp_context` and its counter

`outstanding` is raised where a request was handed to the system and was not refused, and lowered
when a packet of a request is dequeued.

* `accepts`: what the system's answers at a submission mean;
* `Counted`: a run with the number of requests the system accepted and of packets dequeued;
* `requests_accounted`: `outstanding` is the difference of the two.
-/

namespace Net29

open Machine Transition

/-- The system accepts a request that succeeds at once or is pending. -/
def SysAnswer.accepts : SysAnswer → Bool
  | .ok _ _ => true
  | .err e => e = ERROR_IO_PENDING

/-- The operations that are overlapped requests. -/
def Operation.overlapped : Operation → Bool
  | .accept _ _ | .connect _ _ | .receive _ _ | .send _ _ => true
  | .poll _ _ | .resumeAt _ => false

namespace IocpContext

variable {c c' c₁ : IocpContext} {io : IoBase} {fs : List (Frame StorageId)} {r : SubmitResult}
  {req : Answers} {s : StorageId} {d : Direction} {answers : List SysAnswer} {a : SysAnswer}

/-- The answer to `AcceptEx`, `ConnectEx`, `WSARecv` or `WSASend`, if it is called: before, the
socket to accept with is created, and the one to connect is bound. -/
def overlappedAnswer : Operation → List SysAnswer → Option SysAnswer
  | .accept _ _, .ok _ _ :: answer :: _ => some answer
  | .connect _ _, .ok _ _ :: answer :: _ => some answer
  | .connect _ _, .err e :: answer :: _ => if e = WSAEINVAL then some answer else none
  | .receive _ _, answer :: _ => some answer
  | .send _ _, answer :: _ => some answer
  | _, _ => none

/-- The system accepts the request of an operation. -/
def accepts (op : Operation) (answers : List SysAnswer) : Bool :=
  (overlappedAnswer op answers).any SysAnswer.accepts

/-! ### Submission -/

/-- How a submission ends: the request was accepted, or refused with one call of `error`. -/
inductive Accounts (c : IocpContext) (o : OpId) :
    Bool → IocpContext → List (Frame StorageId) → SubmitResult → Prop
  | accepted {c' : IocpContext} {request : Request} (hop : request.op = o)
      (hrequests : c'.requests = c.requests ++ [request])
      (hout : c'.outstanding = c.outstanding + 1) : Accounts c o true c' [] .submit
  | refused {c' : IocpContext} (e : Error) (hrequests : c'.requests = c.requests)
      (hout : c'.outstanding = c.outstanding) : Accounts c o false c' [.error o e] .error

theorem Accounts.of_kept {b : Bool} (h : Accounts c₁ io.self b c' fs r) (hk : Kept c c₁) :
    Accounts c io.self b c' fs r := by
  cases h with
  | accepted hop hrequests hout =>
    exact .accepted hop (hk.requests ▸ hrequests) (hk.outstanding ▸ hout)
  | refused e hrequests hout =>
    exact .refused e (hrequests.trans hk.requests) (hout.trans hk.outstanding)

theorem initialise_kept {ol : Overlapped} (h : c.initialise s d ol = .ok c') : Kept c c' := by
  unfold initialise at h
  split_ifs at h
  obtain ⟨data, -, rfl⟩ := write_eq_ok h
  exact ⟨rfl, rfl, rfl⟩

theorem dropAccepted_kept {ol : Overlapped} (h : c.dropAccepted s d ol = .ok c') : Kept c c' := by
  obtain ⟨c₁, hwrite, h⟩ := Exec.bind_eq_ok.1 h
  obtain ⟨data, -, rfl⟩ := write_eq_ok hwrite
  cases h
  cases ol.acceptSocket <;> exact ⟨rfl, rfl, rfl⟩

/-- The counter is raised exactly if the request is accepted. -/
theorem request_accounts {failed : IocpContext → Exec IocpContext}
    (h : c.request io s d failed a = .ok (c', fs, r))
    (hfailed : ∀ {c' : IocpContext}, failed c = .ok c' → Kept c c') :
    Accounts c io.self a.accepts c' fs r := by
  unfold request at h
  dsimp only at h
  split at h
  · cases h; exact .accepted rfl rfl rfl
  · next e =>
    split_ifs at h with he
    · cases h
      rw [SysAnswer.accepts, decide_eq_true he]
      exact .accepted rfl rfl rfl
    · obtain ⟨c₁, hf, h⟩ := Exec.bind_eq_ok.1 h
      cases h
      rw [SysAnswer.accepts, decide_eq_false he]
      exact .refused _ (hfailed hf).requests (hfailed hf).outstanding

theorem accept_accounts {id : SocketId} {addrlen : ℕ} (hop : io.op = .accept id addrlen)
    (h : c.accept io answers = .ok (c', fs, r)) :
    Accounts c io.self (accepts io.op answers) c' fs r := by
  obtain ⟨rec, -, h⟩ := Exec.bind_eq_ok.1 h
  obtain ⟨c₁, hinit, h⟩ := Exec.bind_eq_ok.1 h
  have hk := initialise_kept hinit
  rw [hop]
  split at h
  · cases h
  · cases h
    exact .refused _ hk.requests hk.outstanding
  · obtain ⟨c₂, hopen, h⟩ := Exec.bind_eq_ok.1 h
    obtain ⟨os, -, hc₂⟩ := Exec.bind_eq_ok.1 hopen
    cases hc₂
    obtain ⟨c₃, hwrite, h⟩ := Exec.bind_eq_ok.1 h
    obtain ⟨data, -, rfl⟩ := write_eq_ok hwrite
    split at h
    · cases h
    · have hacc := request_accounts h dropAccepted_kept
      exact hacc.of_kept ⟨hk.requests, hk.outstanding, hk.timeouts⟩

theorem connectEx_accounts (h : c.connectEx io s answers = .ok (c', fs, r)) :
    ∃ a rest, answers = a :: rest ∧ Accounts c io.self a.accepts c' fs r := by
  obtain ⟨c₁, hinit, h⟩ := Exec.bind_eq_ok.1 h
  have hk := initialise_kept hinit
  split at h
  · cases h
  · have hacc := request_accounts h fun hf => by cases hf; exact ⟨rfl, rfl, rfl⟩
    exact ⟨_, _, rfl, hacc.of_kept ⟨hk.requests, hk.outstanding, hk.timeouts⟩⟩

theorem connect_accounts {id : SocketId} {endpoint : Endpoint} (hop : io.op = .connect id endpoint)
    (h : c.connect io answers = .ok (c', fs, r)) :
    Accounts c io.self (accepts io.op answers) c' fs r := by
  obtain ⟨rec, -, h⟩ := Exec.bind_eq_ok.1 h
  rw [hop]
  split at h
  · cases h
  · next e answers _ =>
    split_ifs at h with he
    · obtain ⟨a, rest, rfl, hacc⟩ := connectEx_accounts h
      rw [accepts, overlappedAnswer, if_pos he]
      exact hacc
    · cases h
      have hnone : accepts (.connect id endpoint) (.err e :: answers) = false := by
        cases answers with
        | nil => rfl
        | cons a rest =>
          rw [accepts, overlappedAnswer, if_neg he]
          rfl
      rw [hnone]
      exact .refused _ rfl rfl
  · obtain ⟨a, rest, rfl, hacc⟩ := connectEx_accounts h
    exact hacc

theorem transfer_accounts {buffers : List ℕ}
    (h : c.transfer io d buffers answers = .ok (c', fs, r)) :
    ∃ a rest, answers = a :: rest ∧ Accounts c io.self a.accepts c' fs r := by
  obtain ⟨rec, -, h⟩ := Exec.bind_eq_ok.1 h
  obtain ⟨c₁, hinit, h⟩ := Exec.bind_eq_ok.1 h
  have hk := initialise_kept hinit
  split at h
  · cases h
  · have hacc := request_accounts h fun hf => by cases hf; exact ⟨rfl, rfl, rfl⟩
    exact ⟨_, _, rfl, hacc.of_kept ⟨hk.requests, hk.outstanding, hk.timeouts⟩⟩

/-- **The submission of a request** raises the counter if the system accepts it, and calls `error`
once and leaves the counter alone otherwise. -/
theorem submit_accounts (hop : io.op.overlapped = true)
    (h : c.submit io req = .ok (c', fs, r)) :
    Accounts c io.self (accepts io.op req.sys) c' fs r := by
  unfold submit at h
  split at h
  · next hio => rw [hio] at hop; cases hop
  · next hio => exact accept_accounts hio h
  · next hio => exact connect_accounts hio h
  · next hio =>
    obtain ⟨a, rest, ha, hacc⟩ := transfer_accounts h
    rw [hio, ha]
    exact hacc
  · next hio =>
    obtain ⟨a, rest, ha, hacc⟩ := transfer_accounts h
    rw [hio, ha]
    exact hacc
  · next hio => rw [hio] at hop; cases hop

theorem submit_of_not_overlapped (hop : io.op.overlapped = false)
    (h : c.submit io req = .ok (c', fs, r)) :
    c'.outstanding = c.outstanding ∧ accepts io.op req.sys = false := by
  unfold submit at h
  split at h
  · next hio => cases h; rw [hio]; exact ⟨rfl, rfl⟩
  · next hio => rw [hio] at hop; cases hop
  · next hio => rw [hio] at hop; cases hop
  · next hio => rw [hio] at hop; cases hop
  · next hio => rw [hio] at hop; cases hop
  · next hio =>
    rw [hio]
    unfold resumeAt at h
    split_ifs at h <;> cases h <;> exact ⟨rfl, rfl⟩

/-! ### The other calls -/

@[simp] theorem free_outstanding (c : IocpContext) (s : StorageId) :
    (c.free s).outstanding = c.outstanding := by
  unfold free
  split
  · rfl
  · dsimp only
    split <;> rfl

@[simp] theorem popDeferred_outstanding (c : IocpContext) (s : StorageId) :
    (c.popDeferred s).outstanding = c.outstanding := by
  unfold popDeferred
  dsimp only
  split
  · rfl
  · rw [free_outstanding]

theorem cancel_outstanding {u : Unit} (h : c.cancel io u = .ok (c', fs)) :
    c'.outstanding = c.outstanding := by
  rcases cancel_cases h with ⟨timeouts, -, rfl, -⟩ | ⟨-, rfl, -⟩ <;> rfl

variable {now : Time} {answer : Option PortAnswer} {k : IocpCall} {n : ℕ}

/-- `run_one` dequeues the packet of a request. -/
def Dequeues (c : IocpContext) : IocpCall → Prop
  | .runOne now (some (.completion index _ _)) => Waits c now ∧ index < c.requests.length
  | _ => False

/-- Only a packet of a request changes the counter, which was not zero. -/
theorem runOne_outstanding (hI : IocpInv c) (h : c.runOne now answer = .ok (c', fs, n)) :
    Dequeues c (.runOne now answer) ∧ c'.outstanding + 1 = c.outstanding ∨
      ¬ Dequeues c (.runOne now answer) ∧ c'.outstanding = c.outstanding := by
  have hnot : ¬ Waits c now → ¬ Dequeues c (.runOne now answer) := by
    intro hw hdeq
    rcases answer with _ | _ | _ | _ | _
    all_goals first | exact hdeq | exact hw hdeq.1
  cases runOne_cases h with
  | @timer _ later _ _ hlater ht =>
    obtain ⟨io, timeouts, -, -, rfl, -⟩ := processTimeout_eq_some ht
    rcases hlater with rfl | rfl
    · exact .inr ⟨hnot fun hw => (by rw [hw.timer] at ht; cases ht), rfl⟩
    · exact .inr ⟨id, rfl⟩
  | task ht =>
    obtain ⟨t, tasks, -, rfl, -⟩ := processTask_eq_some ht
    exact .inr ⟨hnot fun hw => (by rw [hw.task] at ht; cases ht), rfl⟩
  | idle _ ho ht => exact .inr ⟨hnot fun hw => hw.busy ⟨ho, ht⟩, rfl⟩
  | early => exact .inr ⟨id, rfl⟩
  | failed => exact .inr ⟨id, rfl⟩
  | stale => exact .inr ⟨id, rfl⟩
  | completed hwaits hcomp =>
    obtain ⟨r, data, io, f, hr, -, -, htouched, -⟩ := complete_cases hcomp hI.heap
    have hk := (prepared_spec (hI.dequeued hr) htouched.prepared).2
    have hlt := (List.getElem?_eq_some_iff.1 hr).1
    refine .inl ⟨⟨hwaits, hlt⟩, ?_⟩
    rw [hk.outstanding]
    show c.outstanding - 1 + 1 = c.outstanding
    have hcount := hI.count
    omega

theorem call_outstanding (hI : IocpInv c) (h : iocpBase.call c k = .ok (c', fs)) :
    Dequeues c k ∧ c'.outstanding + 1 = c.outstanding ∨
      ¬ Dequeues c k ∧ c'.outstanding = c.outstanding := by
  cases call_eq_ok h with
  | runOne hrun => exact runOne_outstanding hI hrun
  | schedule t => exact .inr ⟨id, rfl⟩
  | makeSocket hmake =>
    exact .inr ⟨id, (prepared_spec hI (makeSocket_cases hmake).prepared).2.outstanding⟩
  | makeSocketNative hmake =>
    obtain ⟨sockets, -, rfl⟩ := makeSocketNative_eq_ok hmake
    exact .inr ⟨id, rfl⟩
  | release hrel => exact .inr ⟨id, (release_spec hI hrel).2.outstanding⟩

/-! ### Runs -/

variable {m m' : Machine IocpContext StorageId} {l : Label Answers Unit IocpCall}

/-- The system accepts the request of an operation that is started. -/
def Takes : Label Answers Unit IocpCall → Prop
  | .start io req false _ => accepts io.op req.sys = true
  | _ => False

/-- A packet of a request is dequeued. -/
def Gives (m : Machine IocpContext StorageId) : Label Answers Unit IocpCall → Prop
  | .call k => Dequeues m.ctx k
  | _ => False

/-- A run from a new context, with the number of requests that the system accepted and the number
of packets that were dequeued. -/
inductive Counted (os : Os) : ℕ → ℕ → Machine IocpContext StorageId → Prop
  | initial : Counted os 0 0 { ctx := IocpContext.initial os }
  | takes {taken given : ℕ} {m m' : Machine IocpContext StorageId}
      {l : Label Answers Unit IocpCall} (h : Counted os taken given m)
      (hstep : m.step iocpBase l = some m') (hl : Takes l) : Counted os (taken + 1) given m'
  | gives {taken given : ℕ} {m m' : Machine IocpContext StorageId}
      {l : Label Answers Unit IocpCall} (h : Counted os taken given m)
      (hstep : m.step iocpBase l = some m') (hl : Gives m l) : Counted os taken (given + 1) m'
  | other {taken given : ℕ} {m m' : Machine IocpContext StorageId}
      {l : Label Answers Unit IocpCall} (h : Counted os taken given m)
      (hstep : m.step iocpBase l = some m') (ht : ¬ Takes l) (hg : ¬ Gives m l) :
      Counted os taken given m'

theorem Counted.runs {os : Os} {taken given : ℕ} (h : Counted os taken given m) :
    Runs iocpBase Transition.free (IocpContext.initial os) m := by
  induction h with
  | initial => exact .refl _
  | takes _ hstep _ ih => exact ih.tail trivial hstep
  | gives _ hstep _ ih => exact ih.tail trivial hstep
  | other _ hstep _ _ ih => exact ih.tail trivial hstep

/-- Every run can be counted. -/
theorem exists_counted {os : Os} (h : Runs iocpBase Transition.free (IocpContext.initial os) m) :
    ∃ taken given, Counted os taken given m := by
  refine Reaches.invariant (I := fun m => ∃ taken given, Counted os taken given m) h
    ⟨0, 0, .initial⟩ fun m l m' hm _ hstep => ?_
  obtain ⟨taken, given, hm⟩ := hm
  by_cases ht : Takes l
  · exact ⟨_, _, hm.takes hstep ht⟩
  · by_cases hg : Gives m l
    · exact ⟨_, _, hm.gives hstep hg⟩
    · exact ⟨_, _, hm.other hstep ht hg⟩

theorem runFrames_outstanding (fs : List (Frame StorageId)) :
    (m.runFrames iocpBase fs).ctx.outstanding = m.ctx.outstanding :=
  runFrames_ctx_induct (P := fun c => c.outstanding = m.ctx.outstanding)
    (fun {c} s h => (popDeferred_outstanding c s).trans h) rfl

/-- A stop callback leaves the counter alone. -/
theorem stopCallback_outstanding {o : OpId} {a : Unit} {c : IocpContext}
    {fs : List (Frame StorageId)} (h : (m.stopCallback iocpBase o a).2 = .ok (c, fs)) :
    c.outstanding = m.ctx.outstanding := by
  obtain ⟨-, -, hnone | ⟨op, hcancel⟩⟩ := stopCallback_cases (B := iocpBase) (m := m) o a
  · rw [hnone] at h
    cases h
    rfl
  · rw [hcancel] at h
    exact cancel_outstanding (u := a) h

/-- **What a step does to the counter** while the process runs: it is raised when the system accepts
a request, and lowered when a packet is dequeued. -/
theorem outstanding_of_step (hI : IocpInv m.ctx) (hz : ∀ o, (m.ops o).upstream = {})
    (hstep : m.step iocpBase l = some m') (hstatus : m'.status = none) :
    (Takes l → m'.ctx.outstanding = m.ctx.outstanding + 1) ∧
      (Gives m l → m'.ctx.outstanding + 1 = m.ctx.outstanding) ∧
      (¬ Takes l → ¬ Gives m l → m'.ctx.outstanding = m.ctx.outstanding) := by
  cases l with
  | start io req stopped a =>
    rcases start_eq_some (step_start hstep).2 with ⟨rfl, h⟩ | ⟨rfl, c, fs, r, hsub, rfl⟩ |
      ⟨-, e, rfl⟩
    · refine ⟨fun ht => ht.elim, fun hg => hg.elim, fun _ _ => ?_⟩
      rcases perform_eq_some h with ⟨c, fs, hx, rfl⟩ | ⟨e, -, rfl⟩
      · obtain ⟨⟨c', fs'⟩, hcall, heq⟩ := Exec.map_eq_ok.1 hx
        cases heq
        rw [runFrames_outstanding]
        have hout := stopCallback_outstanding hcall
        exact hout
      · cases hstatus
    · rw [runFrames_outstanding]
      show (_ → c.outstanding = _) ∧ (_ → c.outstanding + 1 = _) ∧ (_ → _ → c.outstanding = _)
      refine ⟨fun ht => ?_, fun hg => hg.elim, fun ht _ => ?_⟩
      · cases hop : io.op.overlapped with
        | true =>
          have hacc := submit_accounts hop hsub
          rw [show accepts io.op req.sys = true from ht] at hacc
          cases hacc with
          | accepted _ _ hout => exact hout
        | false =>
          have hnot := (submit_of_not_overlapped hop hsub).2
          rw [show accepts io.op req.sys = true from ht] at hnot
          cases hnot
      · cases hop : io.op.overlapped with
        | true =>
          have hacc := submit_accounts hop hsub
          rw [show accepts io.op req.sys = false from Bool.eq_false_iff.2 ht] at hacc
          cases hacc with
          | refused _ _ hout => exact hout
        | false => exact (submit_of_not_overlapped hop hsub).1
    · cases hstatus
  | stop o a =>
    refine ⟨fun ht => ht.elim, fun hg => hg.elim, fun _ _ => ?_⟩
    rcases perform_eq_some (step_stop hstep).2 with ⟨c, fs, hx, rfl⟩ | ⟨e, -, rfl⟩
    · rw [runFrames_outstanding]
      exact stopCallback_outstanding hx
    · cases hstatus
  | call k =>
    rcases perform_eq_some (step_call hstep) with ⟨c, fs, hcall, rfl⟩ | ⟨e, -, rfl⟩
    · rw [runFrames_outstanding]
      refine ⟨fun ht => ht.elim, fun hg => ?_, fun _ hg => ?_⟩
      · exact ((call_outstanding hI hcall).resolve_right fun hnot => hnot.1 hg).2
      · exact ((call_outstanding hI hcall).resolve_left fun hd => hg hd.1).2
    · cases hstatus
  | ret =>
    obtain ⟨fs, rest, -, rfl⟩ := step_ret hstep
    rw [runFrames_outstanding]
    exact ⟨fun ht => ht.elim, fun hg => hg.elim, fun _ _ => rfl⟩
  | upstream io u req stopped a =>
    have hpos := (step_upstream hstep).1
    rw [hz] at hpos
    cases hpos

/-- The counter in a run: what was accepted and has not been dequeued. -/
theorem Counted.outstanding {os : Os} {taken given : ℕ} (h : Counted os taken given m)
    (hstatus : m.status = none) : m.ctx.outstanding + given = taken := by
  have hstepped : ∀ {taken given : ℕ} {m m' : Machine IocpContext StorageId}
      {l : Label Answers Unit IocpCall}, Counted os taken given m →
      m.step iocpBase l = some m' → m'.status = none →
      (Takes l → m'.ctx.outstanding = m.ctx.outstanding + 1) ∧
        (Gives m l → m'.ctx.outstanding + 1 = m.ctx.outstanding) ∧
        (¬ Takes l → ¬ Gives m l → m'.ctx.outstanding = m.ctx.outstanding) :=
    fun h hstep hnone => outstanding_of_step (sound_of_runs h.runs).inv (Runs.never_started h.runs)
      hstep hnone
  induction h with
  | initial => rfl
  | takes h hstep hl ih =>
    have hout := (hstepped h hstep hstatus).1 hl
    have := ih (status_of_step hstep)
    omega
  | gives h hstep hl ih =>
    have hout := (hstepped h hstep hstatus).2.1 hl
    have := ih (status_of_step hstep)
    omega
  | other h hstep ht hg ih =>
    have hout := (hstepped h hstep hstatus).2.2 ht hg
    have := ih (status_of_step hstep)
    omega

end IocpContext

open IocpContext

/-- **`outstanding` counts the requests** that the system accepted and whose packet was not
dequeued, in every run; when a packet is dequeued it is not zero, and a submission that the system
refuses calls `error` once and leaves it alone. -/
theorem requests_accounted (os : Os) (taken given : ℕ) (m : Machine IocpContext StorageId)
    (h : Counted os taken given m) (hstatus : m.status = none) :
    m.ctx.outstanding + given = taken ∧ m.ctx.outstanding = m.ctx.requests.length ∧
      (∀ k, Dequeues m.ctx k → 0 < m.ctx.outstanding) ∧
      ∀ io req c' fs r, io.op.overlapped = true → m.ctx.submit io req = .ok (c', fs, r) →
        accepts io.op req.sys = false →
        (∃ e, fs = [.error io.self e]) ∧ r = .error ∧ c'.outstanding = m.ctx.outstanding ∧
          c'.requests = m.ctx.requests := by
  have hI := (sound_of_runs h.runs).inv
  refine ⟨h.outstanding hstatus, hI.count, fun k hk => ?_, ?_⟩
  · rcases k with ⟨now, _ | _ | _ | _ | ⟨index, result, associate⟩⟩ | _ | _ | _ | _
    all_goals first | exact hk.elim | exact hI.count ▸ Nat.zero_lt_of_lt hk.2
  · intro io req c' fs r hop hsub hrefused
    have hacc := submit_accounts hop hsub
    rw [hrefused] at hacc
    cases hacc with
    | refused e hrequests hout => exact ⟨⟨e, rfl⟩, rfl, hout, hrequests⟩

/-- A `receive` that the system completes at once, a `send` that it refuses, and a `connect` that is
pending; the packet of the first is dequeued. -/
def acceptedAndRefused : List (Label Answers Unit IocpCall) :=
  [.call (.makeSocket (.ok 3 []) none), .call (.makeSocket (.ok 4 []) none),
    .start ⟨1, .receive 0 [8]⟩ { sys := [.ok 5 []] } false (),
    .start ⟨2, .send 0 [8]⟩ { sys := [.err WSAECONNRESET] } false (), .ret,
    .start ⟨3, .connect 1 Endpoint.empty⟩ { sys := [.ok 0 [], .err ERROR_IO_PENDING] } false (),
    .call (.runOne 0 (some (.completion 0 (.ok 5 []) none)))]

theorem requests_accounted_acceptedAndRefused :
    ∃ (taken given : ℕ) (m : Machine IocpContext StorageId), Counted {} taken given m ∧
      m.ctx.outstanding = 1 ∧ taken = given + 1 := by
  obtain ⟨m, hrun, hm⟩ := runs_of_labels iocpBase (IocpContext.initial {}) any any_free
    acceptedAndRefused (fun m => (m.status, m.ctx.outstanding)) (none, 1) (by decide)
  obtain ⟨hstatus, hout⟩ : _ ∧ _ := by simpa only [Prod.mk.injEq] using hm
  obtain ⟨taken, given, hcounted⟩ := exists_counted hrun
  have hsum := (requests_accounted {} taken given m hcounted hstatus).1
  exact ⟨taken, given, m, hcounted, hout, by omega⟩

end Net29
