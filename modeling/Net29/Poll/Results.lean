import Net29.Poll.Intact

/-!
# What the work functions of `poll_context` return

A work function returns `ready` after it has called `complete`, `error` after `error`, and `submit`
when the operation has to be queued. `add_outstanding` and `run_one` rely on that.

* `Follows`: a result says what was called;
* `work_returns`: with the answers of the system a work function returns;
* `work_protocol_iff`: which operations follow the protocol.
-/

namespace Net29

open Machine Transition

namespace PollContext

variable {c c' : PollContext} {io : IoBase} {fs : List (Frame Empty)} {r : SubmitResult}
  {sys rest : List SysAnswer} {a : SysAnswer} {rec : PollRecord} {n : ℕ}

/-- The result says what was called: `complete` once and nothing else, `error` once and nothing
else, or neither. -/
structure Follows (o : OpId) (fs : List (Frame Empty)) (r : SubmitResult) : Prop where
  ready : r = .ready ↔ ∃ v, fs = [.complete o v]
  error : r = .error ↔ ∃ e, fs = [.error o e]
  submit : r = .submit ↔ (∀ v, .complete o v ∉ fs) ∧ ∀ e, .error o e ∉ fs

namespace Follows

variable {o : OpId}

theorem completed (v : Option Value) : Follows o [.complete o v] .ready :=
  ⟨by simp, by simp, by simp⟩

theorem failed (e : Error) : Follows o [.error o e] .error := ⟨by simp, by simp, by simp⟩

theorem queued : Follows o [] .submit := ⟨by simp, by simp, by simp⟩

/-- After `submit` neither function was called. -/
theorem silent (h : Follows o fs .submit) : (∀ v, .complete o v ∉ fs) ∧ ∀ e, .error o e ∉ fs :=
  h.submit.1 rfl

end Follows

/-! ### The work functions -/

theorem acceptWork_follows {addrlen : ℕ} (h : c.acceptWork io addrlen sys = .ok (c', fs, r)) :
    Follows io.self fs r := by
  obtain ⟨fd, -, h⟩ := Exec.bind_eq_ok.1 h
  split at h
  · cases h
  · obtain ⟨c₁, -, h⟩ := Exec.bind_eq_ok.1 h
    obtain ⟨⟨c₂, id⟩, -, h⟩ := Exec.bind_eq_ok.1 h
    cases h
    exact .completed _
  · split_ifs at h <;> cases h
    · exact .queued
    · exact .failed _

theorem connectWork_follows (h : c.connectWork io sys = .ok (c', fs, r)) :
    Follows io.self fs r := by
  obtain ⟨fd, -, h⟩ := Exec.bind_eq_ok.1 h
  split at h
  · cases h
  · cases h; exact .failed _
  · split_ifs at h <;> cases h
    · exact .completed _
    · exact .failed _

theorem transferWork_follows {call : Syscall} (h : transferWork call c io sys = .ok (c', fs, r)) :
    Follows io.self fs r := by
  obtain ⟨fd, -, h⟩ := Exec.bind_eq_ok.1 h
  split at h
  · cases h
  · dsimp only at h
    split at h
    · cases h; exact .completed _
    · split_ifs at h <;> cases h
      · exact .completed _
      · exact .queued
      · exact .failed _

/-- The work function of `poll` completes the operation and asks to queue it. -/
theorem pollWork_not_follows (h : c.pollWork io = .ok (c', fs, r)) : ¬ Follows io.self fs r := by
  cases h
  intro hf
  exact hf.silent.1 _ List.mem_cons_self

/-- All work functions but that of `poll` keep the protocol. -/
theorem work_follows_iff (h : c.work io sys = .ok (c', fs, r)) :
    Follows io.self fs r ↔ ∀ id mask, io.op ≠ .poll id mask := by
  unfold work at h
  split at h
  · next id mask hop =>
    exact iff_of_false (pollWork_not_follows h) fun hnot => hnot id mask hop
  · next hop => exact iff_of_true (acceptWork_follows h) (by simp [hop])
  · next hop => exact iff_of_true (connectWork_follows h) (by simp [hop])
  · next hop => exact iff_of_true (transferWork_follows h) (by simp [hop])
  · next hop => exact iff_of_true (transferWork_follows h) (by simp [hop])
  · cases h

/-! ### The answers -/

/-- The last answer to a call that is repeated while it is interrupted; `::accept` returns a
descriptor that was not open. -/
def Final (c : PollContext) (io : IoBase) : SysAnswer → Prop
  | .ok rc _ => ∀ id addrlen, io.op = .accept id addrlen → rc < 2 ^ 31 ∧ c.env.os.denotes rc = none
  | .err e => e ≠ Errno.EINTR

/-- `n` interrupted attempts, and the last one. -/
def attempts (n : ℕ) (a : SysAnswer) (rest : List SysAnswer) : List SysAnswer :=
  List.replicate n (.err Errno.EINTR) ++ a :: rest

theorem retry_attempts (h : Final c io a) : retry (attempts n a rest) = some (n + 1, a) := by
  induction n with
  | zero =>
    cases a with
    | ok rc peer => rfl
    | err e => exact if_neg h
  | succ n ih =>
    show Option.map _ (retry (attempts n a rest)) = _
    rw [ih]
    rfl

theorem nativeHandle_of_live (h : c.sockets.get? io.op.id = some rec) :
    c.nativeHandle io.op.id = .ok rec.handle := by
  rw [nativeHandle, h]

theorem acceptWork_returns {l : List ℕ} (hl : c.sockets.FreeList l)
    (hlive : c.sockets.get? io.op.id = some rec) {id : SocketId} {addrlen : ℕ}
    (hop : io.op = .accept id addrlen) (ha : Final c io a) :
    ∃ x, c.acceptWork io addrlen (attempts n a rest) = .ok x := by
  unfold acceptWork
  rw [nativeHandle_of_live hlive, retry_attempts ha]
  cases a with
  | ok rc peer =>
    obtain ⟨x, hx⟩ := makeSocketNative_returns (c := { c with
      env := { c.env.logCalls (n + 1) io.self .accept rec.handle addrlen with
        os := ⟨(rc, c.env.os.next) :: c.env.os.fds, c.env.os.next + 1⟩ } }) hl rc
    have hopen : (c.logCalls (n + 1) io .accept rec.handle addrlen).opened rc = .ok { c with
        env := { c.env.logCalls (n + 1) io.self .accept rec.handle addrlen with
          os := ⟨(rc, c.env.os.next) :: c.env.os.fds, c.env.os.next + 1⟩ } } := by
      have hos : c.env.os.open rc = .ok ⟨(rc, c.env.os.next) :: c.env.os.fds, c.env.os.next + 1⟩ :=
        if_pos (ha id addrlen hop)
      simp only [opened, logCalls, Env.logCalls_os, hos]
      rfl
    simp only [Bind.bind, Except.bind, hopen, hx]
    exact ⟨_, rfl⟩
  | err e =>
    simp only [Bind.bind, Except.bind]
    split_ifs <;> exact ⟨_, rfl⟩

theorem transferWork_returns {call : Syscall} (hlive : c.sockets.get? io.op.id = some rec)
    (ha : Final c io a) : ∃ x, transferWork call c io (attempts n a rest) = .ok x := by
  unfold transferWork
  rw [nativeHandle_of_live hlive, retry_attempts ha]
  cases a with
  | ok rc peer => exact ⟨_, rfl⟩
  | err e =>
    simp only [Bind.bind, Except.bind]
    split_ifs <;> exact ⟨_, rfl⟩

theorem connectWork_returns (hlive : c.sockets.get? io.op.id = some rec) :
    ∃ x, c.connectWork io (attempts n a rest) = .ok x := by
  have hcons : ∃ b bs, attempts n a rest = b :: bs := by
    cases n with
    | zero => exact ⟨_, _, rfl⟩
    | succ n => exact ⟨_, _, rfl⟩
  obtain ⟨b, bs, hb⟩ := hcons
  unfold connectWork
  rw [nativeHandle_of_live hlive, hb]
  cases b with
  | ok error peer =>
    simp only [Bind.bind, Except.bind]
    split_ifs <;> exact ⟨_, rfl⟩
  | err e => exact ⟨_, rfl⟩

/-- **A work function returns**, however often its call is interrupted. -/
theorem work_returns {l : List ℕ} (hl : c.sockets.FreeList l)
    (hlive : c.sockets.get? io.op.id = some rec) (hon : io.op.onSocket = true)
    (ha : Final c io a) : ∃ x, c.work io (attempts n a rest) = .ok x := by
  unfold work
  split
  · exact ⟨_, rfl⟩
  · next hop => exact acceptWork_returns hl hlive hop ha
  · exact connectWork_returns hlive
  · exact transferWork_returns hlive ha
  · exact transferWork_returns hlive ha
  · next hop =>
    rw [hop] at hon
    cases hon

/-! ### The protocol -/

/-- The work function returns and keeps the protocol, and what `add_outstanding` queues is not
finished. -/
structure Protocol (c : PollContext) (io : IoBase) (sys : List SysAnswer) : Prop where
  work : ∃ c' fs r, c.work io sys = .ok (c', fs, r) ∧ Follows io.self fs r
  queued : ∀ c' fs, c.addOutstanding io sys = .ok (c', fs, .submit) →
    (∀ v, .complete io.self v ∉ fs) ∧ ∀ e, .error io.self e ∉ fs

theorem addOutstanding_queued (h : c.addOutstanding io sys = .ok (c', fs, .submit))
    (hwork : ∀ c' fs r, c.work io sys = .ok (c', fs, r) → Follows io.self fs r) :
    (∀ v, .complete io.self v ∉ fs) ∧ ∀ e, .error io.self e ∉ fs := by
  unfold addOutstanding at h
  split at h
  · cases h
  · split_ifs at h with hb
    · obtain ⟨c₁, -, h⟩ := Exec.bind_eq_ok.1 h
      cases h
      exact Follows.queued.silent
    · obtain ⟨⟨c₁, fs₁, r₁⟩, hw, h⟩ := Exec.bind_eq_ok.1 h
      dsimp only at h
      split_ifs at h with hr
      · obtain ⟨c₂, -, h⟩ := Exec.bind_eq_ok.1 h
        cases h
        subst hr
        exact (hwork _ _ _ hw).silent
      · cases h

/-- **The work functions keep the protocol**, that of `poll` excepted: in every run, for every
context with the sockets of that run, after any number of interrupted attempts and whatever the last
one is answered. -/
theorem work_protocol_iff (os : Os)
    (ok : Machine PollContext Empty → Label Answers Unit PollCall → Prop)
    (m : Machine PollContext Empty) (hm : Runs pollBase ok (initial os) m) (c : PollContext)
    (hc : SameSockets m.ctx c) (io : IoBase) (hon : io.op.onSocket = true)
    (hlive : (c.sockets.get? io.op.id).isSome) (n : ℕ) (a : SysAnswer) (ha : Final c io a)
    (rest : List SysAnswer) :
    Protocol c io (attempts n a rest) ↔ ∀ id mask, io.op ≠ .poll id mask := by
  obtain ⟨rec, hrec⟩ := Option.isSome_iff_exists.1 hlive
  obtain ⟨l, hl⟩ := freeList_of_runs hm
  obtain ⟨⟨c', fs, r⟩, hwork⟩ : ∃ x, c.work io (attempts n a rest) = .ok x :=
    work_returns (hc.1 ▸ hl) hrec hon ha
  constructor
  · rintro ⟨⟨c₁, fs₁, r₁, hwork₁, hf⟩, -⟩
    exact (work_follows_iff hwork₁).1 hf
  · intro hnot
    refine ⟨⟨c', fs, r, hwork, (work_follows_iff hwork).2 hnot⟩, fun c₁ fs₁ hadd => ?_⟩
    exact addOutstanding_queued hadd fun c₂ fs₂ r₂ hw => (work_follows_iff hw).2 hnot

/-- A socket with the descriptor 3, and an operation on it that is queued. -/
def oneQueued (io : IoBase) : List (Label Answers Unit PollCall) :=
  [.call (.makeSocket (.ok 3 [])), .start io {} false ()]

theorem work_protocol_iff_interruptedAccept :
    ∃ m : Machine PollContext Empty, Runs pollBase free (initial {}) m ∧
      Protocol m.ctx ⟨1, .accept 0 16⟩ (attempts 2 (.ok 4 []) []) := by
  obtain ⟨m, hrun, hm⟩ := runs_of_labels pollBase (initial {}) any any_free
    (oneQueued ⟨1, .accept 0 16⟩) (fun m => ((m.ctx.sockets.get? 0).isSome, m.ctx.env.os.denotes 4))
    (true, none) (by decide)
  obtain ⟨hlive, hclosed⟩ : _ ∧ _ := by simpa only [Prod.mk.injEq] using hm
  exact ⟨m, hrun, (work_protocol_iff {} free m hrun m.ctx (.refl _) ⟨1, .accept 0 16⟩ rfl hlive 2
    (.ok 4 []) (fun _ _ _ => ⟨by decide, hclosed⟩) []).2 (by simp)⟩

/-- A poll operation that was completed is to be queued. -/
theorem poll_breaks_protocol :
    ¬ ∀ (os : Os) (m : Machine PollContext Empty), Runs pollBase free (initial os) m →
      ∀ io ∈ m.ctx.outstanding, ∀ n a rest, Final m.ctx io a →
        Protocol m.ctx io (attempts n a rest) := by
  intro h
  obtain ⟨m, hrun, hm⟩ := runs_of_labels pollBase (initial {}) any any_free
    (oneQueued ⟨1, .poll 0 .in⟩) (fun m => m.ctx.outstanding) [⟨1, .poll 0 .in⟩] (by decide)
  obtain ⟨c', fs, r, hwork, hf⟩ := (h {} m hrun ⟨1, .poll 0 .in⟩ (by rw [hm]; simp) 0 (.ok 0 []) []
    (fun _ _ hop => by cases hop)).work
  exact pollWork_not_follows hwork hf

end PollContext

end Net29
