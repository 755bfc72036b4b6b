import Net29.Uring.Context
import Net29.Ledger
import Mathlib.Data.List.Perm.Basic

/-!
# What the calls of `uring_context` do to the ring

One lemma for each function; the invariants only use these.

* `consume_consume`, `submitSq_eq_ok`, `getSqe_eq_ok`, `post_eq_ok`, `postAll_induct`,
  `wait_eq_ok`: the ring functions, with the state they leave;
* `work_spec`: a work function makes exactly one call, of its operation or `cancel_callback`;
* `submit_cases`, `cancel_eq_ok`, `runOne_cases`, `call_eq_ok`.
-/

namespace Net29

/-- Whether an entry asks for `accept`. -/
def SqeRequest.isAccept : SqeRequest → Bool
  | .socket .accept _ _ => true
  | _ => false

/-- Whether a completion pointer is an `accept` operation. -/
def Completion.isAccept : Completion → Bool
  | .op io => match io.op with
    | .accept _ _ => true
    | _ => false
  | .cancelOp _ => false

namespace UringContext

variable {c c' : UringContext} {io : IoBase} {o : OpId} {m n : ℕ} {fs : List (Frame Empty)}
  {r : SubmitResult} {cqe : Cqe} {req : UringRequest}

/-! ### The ring -/

theorem consume_consume (c : UringContext) (n m : ℕ) :
    (c.consume n).consume m = c.consume (n + m) := by
  simp only [consume, List.drop_drop, List.append_assoc, ← List.take_add, ← List.foldl_append]

theorem consume_zero (c : UringContext) : c.consume 0 = c := by simp [consume]

theorem submitSq_eq_ok {k : ℤ} (h : c.submitSq k = .ok c') :
    ∃ n, n ≤ c.sq.length ∧ n ≤ c.submitting ∧
      c' = { c.consume n with submitting := c.submitting - n } := by
  unfold submitSq at h
  split_ifs at h with hneg hlen hsub
  cases h
  exact ⟨k.toNat, by omega, by omega, rfl⟩

/-- The loop of `get_sqe` consumes entries until there is room, by induction on the results. -/
theorem getSqe_eq_ok {flush : List ℤ} (h : c.getSqe flush = .ok c') :
    ∃ n, n ≤ c.sq.length ∧ n ≤ c.submitting ∧
      c' = { c.consume n with
        submitting := c.submitting - n + 1, outstanding := c.outstanding + 1 } := by
  induction flush generalizing c with
  | nil =>
    rw [getSqe] at h
    split_ifs at h
    cases h
    exact ⟨0, Nat.zero_le _, Nat.zero_le _, by rw [consume_zero, Nat.sub_zero]⟩
  | cons k ks ih =>
    rw [getSqe] at h
    split_ifs at h
    · cases h
      exact ⟨0, Nat.zero_le _, Nat.zero_le _, by rw [consume_zero, Nat.sub_zero]⟩
    · obtain ⟨c₁, hsub, h⟩ := Exec.bind_eq_ok.1 h
      obtain ⟨n, hn, hn', rfl⟩ := submitSq_eq_ok hsub
      obtain ⟨m, hm, hm', rfl⟩ := ih h
      have hm : m ≤ (c.sq.drop n).length := hm
      rw [List.length_drop] at hm
      have hm' : m ≤ c.submitting - n := hm'
      refine ⟨n + m, by omega, by omega, ?_⟩
      rw [← consume_consume, ← Nat.sub_sub]
      rfl

theorem nativeHandle_eq_ok {id : SocketId} {fd : Fd} (h : c.nativeHandle id = .ok fd) :
    c.sockets.get? id = some fd := by
  unfold nativeHandle at h
  split at h
  · next fd' hfd' => cases h; exact hfd'
  · cases h

theorem opened_eq_ok {fd : Fd} (h : c.opened fd = .ok c') :
    ∃ os, c.env.os.open fd = .ok os ∧ c' = { c with env := { c.env with os := os } } := by
  obtain ⟨os, hos, hc⟩ := Exec.bind_eq_ok.1 h
  cases hc
  exact ⟨os, hos, rfl⟩

theorem makeSocketNative_eq_ok {fd : Fd} {id : SocketId}
    (h : c.makeSocketNative fd = .ok (c', id)) :
    ∃ sockets, c.sockets.insert fd = .ok (sockets, id) ∧ c' = { c with sockets := sockets } := by
  obtain ⟨⟨sockets, id'⟩, hins, hc⟩ := Exec.bind_eq_ok.1 h
  cases hc
  exact ⟨sockets, hins, rfl⟩

/-- `make_socket` opens a socket, which gets a record, unless that fails. -/
theorem makeSocket_eq_ok {a : SysAnswer} {id : SocketId} {e : Option Errno}
    (h : c.makeSocket a = .ok (c', id, e)) :
    c' = c ∨ ∃ fd os sockets, c.env.os.open fd = .ok os ∧
      c.sockets.insert fd = .ok (sockets, id) ∧
      c' = { c with sockets := sockets, env := { c.env with os := os } } := by
  cases a with
  | err e => cases h; exact .inl rfl
  | ok fd peer =>
    obtain ⟨c₁, hopen, h⟩ := Exec.bind_eq_ok.1 h
    obtain ⟨os, hos, rfl⟩ := opened_eq_ok hopen
    obtain ⟨⟨c₂, id'⟩, hmake, h⟩ := Exec.bind_eq_ok.1 h
    obtain ⟨sockets, hins, rfl⟩ := makeSocketNative_eq_ok hmake
    cases h
    exact .inr ⟨fd, os, sockets, hos, hins, rfl⟩

theorem release_eq_ok {id : SocketId} {a e : Option Errno} (h : c.release id a = .ok (c', e)) :
    ∃ fd, c.sockets.get? id = some fd ∧ c' = { c with
      sockets := c.sockets.erase id
      env := { c.env with os := c.env.os.close fd } } := by
  obtain ⟨fd, hfd, h⟩ := Exec.bind_eq_ok.1 h
  cases h
  exact ⟨fd, nativeHandle_eq_ok hfd, rfl⟩

/-- The system moves one entry from those consumed to those finished; a successful `accept` opens a
descriptor. -/
theorem post_eq_ok {p : Post} (h : c.post p = .ok c') :
    ∃ sqe os, c.inflight[p.index]? = some sqe ∧
      (os = c.env.os ∧ ¬ (sqe.request.isAccept = true ∧ 0 ≤ p.res) ∨
        sqe.request.isAccept = true ∧ 0 ≤ p.res ∧ c.env.os.open p.res.toNat = .ok os) ∧
      c' = { c with
        env := { c.env with os := os }
        inflight := c.inflight.eraseIdx p.index
        cq := c.cq ++ [⟨p.res, sqe.data, p.peer⟩] } := by
  unfold post at h
  split at h
  · cases h
  · next sqe hsqe =>
    obtain ⟨c₁, hopen, h⟩ := Exec.bind_eq_ok.1 h
    cases h
    have hos : ∃ os, (os = c.env.os ∧ ¬ (sqe.request.isAccept = true ∧ 0 ≤ p.res) ∨
        sqe.request.isAccept = true ∧ 0 ≤ p.res ∧ c.env.os.open p.res.toNat = .ok os) ∧
        c₁ = { c with env := { c.env with os := os } } := by
      unfold finish at hopen
      split at hopen
      · next hreq =>
        split_ifs at hopen with hres
        · obtain ⟨os, hos, rfl⟩ := opened_eq_ok hopen
          exact ⟨os, .inr ⟨by rw [hreq]; rfl, hres, hos⟩, rfl⟩
        · cases hopen; exact ⟨_, .inl ⟨rfl, fun h => hres h.2⟩, rfl⟩
      · next hreq =>
        cases hopen
        refine ⟨_, .inl ⟨rfl, fun h => ?_⟩, rfl⟩
        obtain ⟨haccept, -⟩ := h
        unfold SqeRequest.isAccept at haccept
        split at haccept
        · next hsocket => exact hreq _ _ hsocket
        · cases haccept
    obtain ⟨os, hos, rfl⟩ := hos
    exact ⟨sqe, os, hsqe, hos, rfl⟩

/-- What every single completion preserves, several preserve. -/
theorem postAll_induct {P : UringContext → Prop}
    (hpost : ∀ {c c' : UringContext} {p : Post}, P c → c.post p = .ok c' → P c') (hP : P c)
    {ps : List Post} (h : c.postAll ps = .ok c') : P c' := by
  induction ps generalizing c with
  | nil => cases h; exact hP
  | cons p ps ih =>
    obtain ⟨c₁, hp, h⟩ := Exec.bind_eq_ok.1 h
    exact ih (hpost hP hp) h

theorem wait_eq_ok {k : ℤ} (h : c.wait k = .ok (c', cqe)) :
    0 < c.outstanding ∧ ∃ cq, c.cq = cqe :: cq ∧
      c' = { c with outstanding := c.outstanding - 1, cq := cq, seen := cqe :: c.seen } := by
  unfold wait at h
  split at h
  · cases h
  split at h
  · cases h
  · next cqe' cq hcq =>
    split at h
    · cases h
    next hpos =>
    cases h
    exact ⟨Nat.pos_of_ne_zero hpos, cq, hcq, rfl⟩

/-! ### Work functions -/

/-- The call a completion leads to. -/
inductive WorkFrames (cqe : Cqe) : List (Frame Empty) → Prop
  | notified (io : IoBase) (f : Frame Empty) (hdata : cqe.data = .op io) (hf : Notifies io.self f) :
      WorkFrames cqe [f]
  | answered (o : OpId) (hdata : cqe.data = .cancelOp o) : WorkFrames cqe [.cancelOp o]

/-- What a work function does: one call, and `accept` adds a record. -/
theorem work_spec (h : c.work cqe = .ok (c', fs, r)) :
    WorkFrames cqe fs ∧ (c' = c ∨ ∃ io id addrlen sockets id',
      cqe.data = .op io ∧ io.op = .accept id addrlen ∧ 0 ≤ cqe.res ∧
      c.sockets.insert cqe.res.toNat = .ok (sockets, id') ∧ c' = { c with sockets := sockets } ∧
      fs = [.complete io.self (some (.accepted id' (Endpoint.empty.write cqe.peer addrlen)))]) := by
  have hfailed : ∀ {io : IoBase}, cqe.data = .op io →
      c.failedWork io cqe.res = .ok (c', fs, r) → WorkFrames cqe fs ∧ c' = c := by
    intro io hdata h
    unfold failedWork at h
    split_ifs at h <;> cases h
    · exact ⟨.notified io _ hdata .cancel, rfl⟩
    · exact ⟨.notified io _ hdata (.error _), rfl⟩
  unfold work at h
  split at h
  · next o hdata => cases h; exact ⟨.answered o hdata, .inl rfl⟩
  · next io hdata =>
    split at h
    · next id addrlen hop =>
      unfold acceptWork at h
      split_ifs at h with hneg
      · exact (hfailed hdata h).imp_right .inl
      · obtain ⟨⟨c₁, id'⟩, hmake, h⟩ := Exec.bind_eq_ok.1 h
        obtain ⟨sockets, hins, rfl⟩ := makeSocketNative_eq_ok hmake
        cases h
        exact ⟨.notified io _ hdata (.complete _), .inr ⟨io, id, addrlen, sockets, id', hdata, hop,
          Int.not_lt.1 hneg, hins, rfl, rfl⟩⟩
    · unfold connectWork at h
      split_ifs at h
      · exact (hfailed hdata h).imp_right .inl
      · cases h; exact ⟨.notified io _ hdata (.complete _), .inl rfl⟩
    · unfold transferWork at h
      split_ifs at h
      · exact (hfailed hdata h).imp_right .inl
      · cases h; exact ⟨.notified io _ hdata (.complete _), .inl rfl⟩
    · unfold transferWork at h
      split_ifs at h
      · exact (hfailed hdata h).imp_right .inl
      · cases h; exact ⟨.notified io _ hdata (.complete _), .inl rfl⟩
    · unfold timeoutWork at h
      split_ifs at h <;> cases h
      · exact ⟨.notified io _ hdata .cancel, .inl rfl⟩
      · exact ⟨.notified io _ hdata (.complete _), .inl rfl⟩
      · exact ⟨.notified io _ hdata (.error _), .inl rfl⟩
    · cases h

/-! ### Submission, cancellation and `run_one` -/

/-- How an operation is submitted: as an entry behind those left, with the descriptor its id has, or
as a timer that is given to the system at once. -/
inductive SubmittedAs (c : UringContext) (io : IoBase) : UringContext → Prop
  | socket {n : ℕ} {call : Syscall} {fd len : ℕ} (hn : n ≤ c.sq.length) (hn' : n ≤ c.submitting)
      (hfd : c.sockets.get? io.op.id = some fd)
      (hcall : (SqeRequest.socket call fd len).isAccept = (Completion.op io).isAccept) :
      SubmittedAs c io (prep { (c.record io).consume n with
        submitting := c.submitting - n + 1, outstanding := c.outstanding + 1 }
          (.op io) (.socket call fd len))
  | timer {n : ℕ} {time : Time} (ts : ℤ × ℤ) (hn : n ≤ c.sq.length + 1) (hn' : n ≤ c.submitting + 1)
      (hop : io.op = .resumeAt time) :
      SubmittedAs c io { (c.prep (.op io) (.timeout ts.1 ts.2)).consume n with
        submitting := c.submitting + 1 - n, outstanding := c.outstanding + 1 }

theorem submitSocket_cases {call : Syscall} {len : ℕ} {flush : List ℤ}
    (hcall : ∀ fd, (SqeRequest.socket call fd len).isAccept = (Completion.op io).isAccept)
    (h : c.submitSocket io call len flush = .ok (c', fs, r)) :
    SubmittedAs c io c' ∧ fs = [] ∧ r = .submit := by
  obtain ⟨c₁, hget, h⟩ := Exec.bind_eq_ok.1 h
  obtain ⟨n, hn, hn', rfl⟩ := getSqe_eq_ok hget
  obtain ⟨fd, hfd, h⟩ := Exec.bind_eq_ok.1 h
  cases h
  exact ⟨.socket hn hn' (nativeHandle_eq_ok hfd) (hcall fd), rfl, rfl⟩

theorem resumeAt_cases {time : Time} (hop : io.op = .resumeAt time)
    (h : c.resumeAt io time req = .ok (c', fs, r)) :
    SubmittedAs c io c' ∧ fs = [] ∧ r = .submit := by
  obtain ⟨c₁, hget, h⟩ := Exec.bind_eq_ok.1 h
  obtain ⟨n, hn, hn', rfl⟩ := getSqe_eq_ok hget
  obtain ⟨c₂, hsub, h⟩ := Exec.bind_eq_ok.1 h
  obtain ⟨m, hm, hm', rfl⟩ := submitSq_eq_ok hsub
  cases h
  have hm : m ≤ (c.sq.drop n ++ [_]).length := hm
  have hm' : m ≤ c.submitting - n + 1 := hm'
  rw [List.length_append, List.length_drop, List.length_singleton] at hm
  have hcons : ∀ ts : ℤ × ℤ, ((c.consume n).prep (.op io) (.timeout ts.1 ts.2)).consume m =
      (c.prep (.op io) (.timeout ts.1 ts.2)).consume (n + m) := by
    intro ts
    rw [← consume_consume]
    simp only [consume, prep, List.drop_append_of_le_length hn, List.take_append_of_le_length hn]
  have hc := hcons (makeTimespec time)
  have hcounts : c.submitting - n + 1 - m = c.submitting + 1 - (n + m) := by omega
  refine ⟨?_, rfl, rfl⟩
  convert SubmittedAs.timer (c := c) (n := n + m) (makeTimespec time) (by omega) (by omega)
    hop using 1
  have hsq := congrArg sq hc
  have hinflight := congrArg inflight hc
  have henv := congrArg env hc
  exact UringContext.ext rfl rfl hcounts rfl hsq hinflight rfl henv rfl

theorem submit_cases (h : c.submit io req = .ok (c', fs, r)) :
    SubmittedAs c io c' ∧ fs = [] ∧ r = .submit := by
  unfold submit at h
  split at h
  · next hop => exact submitSocket_cases (fun _ => by simp [Completion.isAccept, hop]; rfl) h
  · next hop => exact submitSocket_cases (fun _ => by simp [Completion.isAccept, hop]; rfl) h
  · next hop => exact submitSocket_cases (fun _ => by simp [Completion.isAccept, hop]; rfl) h
  · next hop => exact submitSocket_cases (fun _ => by simp [Completion.isAccept, hop]; rfl) h
  · next hop => exact resumeAt_cases hop h
  · cases h

theorem cancel_eq_ok {flush : List ℤ} (h : c.cancel io flush = .ok (c', fs)) :
    fs = [] ∧ ∃ n, n ≤ c.sq.length ∧ n ≤ c.submitting ∧
      c' = prep { c.consume n with
        submitting := c.submitting - n + 1, outstanding := c.outstanding + 1 }
          (.cancelOp io.self) (.cancel io.self) := by
  obtain ⟨c₁, hget, h⟩ := Exec.bind_eq_ok.1 h
  obtain ⟨n, hn, hn', rfl⟩ := getSqe_eq_ok hget
  cases h
  exact ⟨rfl, n, hn, hn', rfl⟩

/-- `run_one` reads this completion: there is no task, and it is the first one after the queue was
submitted. -/
def Reads (c : UringContext) (submitted : ℤ) (posts : List Post) (cqe : Cqe) : Prop :=
  c.processTask = none ∧
    ∃ c₁ cq, (c.flush submitted >>= fun c => c.postAll posts) = .ok c₁ ∧ c₁.cq = cqe :: cq

/-- What `run_one` can do. -/
inductive Ran (c : UringContext) (submitted : ℤ) (posts : List Post) :
    UringContext → List (Frame Empty) → ℕ → Prop
  /-- there was a task -/
  | task {c' : UringContext} {fs : List (Frame Empty)} (h : c.processTask = some (c', fs)) :
      Ran c submitted posts c' fs 1
  /-- nothing is outstanding -/
  | idle {n : ℕ} {c₁ : UringContext} (hn : n ≤ c.sq.length) (hn' : n ≤ c.submitting)
      (hpost : postAll { c.consume n with submitting := c.submitting - n } posts = .ok c₁)
      (hidle : c₁.outstanding = 0) : Ran c submitted posts c₁ [] 0
  /-- a completion was read and its work function called -/
  | completed {n : ℕ} {c₁ c₂ c' : UringContext} {waited : ℤ} {cqe : Cqe}
      {fs : List (Frame Empty)} {r : SubmitResult} (hn : n ≤ c.sq.length) (hn' : n ≤ c.submitting)
      (hpost : postAll { c.consume n with submitting := c.submitting - n } posts = .ok c₁)
      (hreads : c.Reads submitted posts cqe) (hwait : c₁.wait waited = .ok (c₂, cqe))
      (hwork : c₂.work cqe = .ok (c', fs, r)) : Ran c submitted posts c' fs 1

theorem processTask_eq_some (h : c.processTask = some (c', fs)) :
    ∃ t tasks, c.tasks.pop? = some (t, tasks) ∧ c' = { c with tasks := tasks } ∧
      fs = [.task t] := by
  obtain ⟨⟨t, tasks⟩, hpop, heq⟩ := Option.map_eq_some_iff.1 h
  cases heq
  exact ⟨t, tasks, hpop, rfl, rfl⟩

theorem runOne_cases {submitted waited : ℤ} {posts : List Post}
    (h : c.runOne submitted posts waited = .ok (c', fs, n)) : Ran c submitted posts c' fs n := by
  unfold runOne at h
  split at h
  · next ht => cases h; exact .task ht
  · next htask =>
    obtain ⟨c₀, hsub, h⟩ := Exec.bind_eq_ok.1 h
    have hc₀ : ∃ k, k ≤ c.sq.length ∧ k ≤ c.submitting ∧
        c₀ = { c.consume k with submitting := c.submitting - k } := by
      unfold flush at hsub
      split_ifs at hsub
      · exact submitSq_eq_ok hsub
      · cases hsub
        exact ⟨0, Nat.zero_le _, Nat.zero_le _, by rw [consume_zero, Nat.sub_zero]⟩
    obtain ⟨c₁, hpost, h⟩ := Exec.bind_eq_ok.1 h
    have hflush : (c.flush submitted >>= fun c => c.postAll posts) = .ok c₁ :=
      Exec.bind_eq_ok.2 ⟨c₀, hsub, hpost⟩
    obtain ⟨k, hk, hk', hc₀⟩ := hc₀
    rw [hc₀] at hpost
    split_ifs at h with hidle
    · cases h; exact .idle hk hk' hpost hidle
    · -- the completion read is the first one of the queue after the posts
      obtain ⟨⟨c₂, cqe⟩, hwait, h⟩ := Exec.bind_eq_ok.1 h
      obtain ⟨⟨c₃, fs₃, r⟩, hwork, h⟩ := Exec.bind_eq_ok.1 h
      cases h
      obtain ⟨-, cq, hcq, -⟩ := wait_eq_ok hwait
      exact .completed hk hk' hpost ⟨htask, c₁, cq, hflush, hcq⟩ hwait hwork

/-- How a call of the context returns. -/
inductive Called (c : UringContext) : UringCall → UringContext → List (Frame Empty) → Prop
  | runOne {submitted waited : ℤ} {posts : List Post} {c' : UringContext}
      {fs : List (Frame Empty)} {n : ℕ} (h : c.runOne submitted posts waited = .ok (c', fs, n)) :
      Called c (.runOne submitted posts waited) c' fs
  | post {p : Post} {c' : UringContext} (h : c.post p = .ok c') : Called c (.post p) c' []
  | schedule (t : TaskId) : Called c (.schedule t) (c.schedule t) []
  | makeSocket {answer : SysAnswer} {c' : UringContext} {id : SocketId} {e : Option Errno}
      (h : c.makeSocket answer = .ok (c', id, e)) : Called c (.makeSocket answer) c' []
  | makeSocketNative {fd : Fd} {c' : UringContext} {id : SocketId}
      (h : c.makeSocketNative fd = .ok (c', id)) : Called c (.makeSocketNative fd) c' []
  | release {id : SocketId} {answer e : Option Errno} {c' : UringContext}
      (h : c.release id answer = .ok (c', e)) : Called c (.release id answer) c' []

theorem call_eq_ok {k : UringCall} (h : uringBase.call c k = .ok (c', fs)) : Called c k c' fs := by
  cases k with
  | schedule t => cases h; exact .schedule t
  | runOne submitted posts waited =>
    obtain ⟨x, hrun, heq⟩ := Exec.map_eq_ok.1 h
    cases heq
    exact .runOne hrun
  | post p =>
    obtain ⟨x, hpost, heq⟩ := Exec.map_eq_ok.1 h
    cases heq
    exact .post hpost
  | makeSocket answer =>
    obtain ⟨x, hmake, heq⟩ := Exec.map_eq_ok.1 h
    cases heq
    exact .makeSocket hmake
  | makeSocketNative fd =>
    obtain ⟨x, hmake, heq⟩ := Exec.map_eq_ok.1 h
    cases heq
    exact .makeSocketNative hmake
  | release id answer =>
    obtain ⟨x, hrel, heq⟩ := Exec.map_eq_ok.1 h
    cases heq
    exact .release hrel

end UringContext

end Net29
