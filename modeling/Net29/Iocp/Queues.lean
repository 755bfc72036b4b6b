import Net29.Iocp.Context
import Net29.Ledger
import Mathlib.Logic.Relation

/-!
# What the calls of `iocp_context` do to its state

* `Touch`, `Touched`: the single changes a work function or `make_socket` makes to the storage and
  the sockets; `Prepared` also admits the initialisation of an `OVERLAPPED`;
* `work_spec`, `submit_cases`, `cancel_cases`, `complete_cases`, `runOne_cases`, `call_eq_ok`: one
  lemma for each function, which the invariants use.
-/

namespace Net29

namespace IocpContext

variable {c c' c'' : IocpContext} {io : IoBase} {o : OpId} {n : ℕ} {fs : List (Frame StorageId)}
  {r : SubmitResult} {req : Answers} {s : StorageId} {d : Direction} {ol : Overlapped} {now : Time}
  {answer : Option PortAnswer}

/-! ### Single changes -/

/-- A change of the storage or the sockets that no pending request notices. -/
inductive Touch (c : IocpContext) : IocpContext → Prop
  | os (os : Os) (history : List SocketEvent) : Touch c { c with os := os, history := history }
  | extra (extra : OpId → Option (StorageId × Direction)) : Touch c { c with extra := extra }
  | write {s : StorageId} {d : Direction} {ol : Overlapped} {data : IocpSocketData}
      (hdata : c.storage s = some data) (hcomp : ol.completion = (data d).completion) :
      Touch c { c with
        storage := Function.update c.storage s (some (Function.update data d ol)) }
  | makeSocket {handle : Fd} {sockets : Container IocpRecord} {id : SocketId}
      (hins : c.sockets.insert ⟨handle, c.allocated⟩ = .ok (sockets, id)) :
      Touch c { c with
        sockets := sockets
        storage := Function.update c.storage c.allocated (some fun _ => {})
        allocated := c.allocated + 1
        history := .inserted (c.os.denotes handle) :: c.history }

/-- A change while an operation is submitted: an `OVERLAPPED` no request uses is initialised. -/
inductive Prepare (c : IocpContext) : IocpContext → Prop
  | touch {c' : IocpContext} (h : Touch c c') : Prepare c c'
  | initialise {s : StorageId} {d : Direction} {data : IocpSocketData} (ol : Overlapped)
      (hdata : c.storage s = some data)
      (hfree : ∀ r ∈ c.requests, ¬ (r.storage = s ∧ r.direction = d)) :
      Prepare c { c with
        storage := Function.update c.storage s (some (Function.update data d ol)) }

/-- Any number of changes. -/
def Touched : IocpContext → IocpContext → Prop := Relation.ReflTransGen Touch

/-- Any number of changes during a submission. -/
def Prepared : IocpContext → IocpContext → Prop := Relation.ReflTransGen Prepare

theorem Touched.single (h : Touch c c') : Touched c c' := Relation.ReflTransGen.single h

theorem Touched.trans (h : Touched c c') (h' : Touched c' c'') : Touched c c'' :=
  Relation.ReflTransGen.trans h h'

theorem Prepared.single (h : Prepare c c') : Prepared c c' := Relation.ReflTransGen.single h

theorem Prepared.touch (h : Touch c c') : Prepared c c' := .single (.touch h)

theorem Prepared.trans (h : Prepared c c') (h' : Prepared c' c'') : Prepared c c'' :=
  Relation.ReflTransGen.trans h h'

theorem Touched.prepared (h : Touched c c') : Prepared c c' :=
  Relation.ReflTransGen.mono (fun _ _ => .touch) _ _ h

/-- What every single change preserves, any number of them preserves. -/
theorem Prepared.induct {P : IocpContext → Prop} (h : Prepared c c') (hP : P c)
    (hstep : ∀ {c c' : IocpContext}, P c → Prepare c c' → P c') : P c' := by
  induction h with
  | refl => exact hP
  | tail _ h ih => exact hstep ih h

theorem record_eq_ok {id : SocketId} {rec : IocpRecord} (h : c.record id = .ok rec) :
    c.sockets.get? id = some rec := by
  unfold record at h
  split at h
  · next rec' hrec => cases h; exact hrec
  · cases h

theorem overlapped_eq_ok (h : c.overlapped s d = .ok ol) :
    ∃ data, c.storage s = some data ∧ ol = data d := by
  unfold overlapped at h
  split at h
  · next data hdata => cases h; exact ⟨data, hdata, rfl⟩
  · cases h

theorem write_eq_ok (h : c.write s d ol = .ok c') :
    ∃ data, c.storage s = some data ∧ c' = { c with
      storage := Function.update c.storage s (some (Function.update data d ol)) } := by
  unfold write at h
  split at h
  · next data hdata => cases h; exact ⟨data, hdata, rfl⟩
  · cases h

theorem touch_write (h : c.write s d ol = .ok c') {data : IocpSocketData}
    (hdata : c.storage s = some data) (hcomp : ol.completion = (data d).completion) :
    Touch c c' := by
  obtain ⟨data', hdata', rfl⟩ := write_eq_ok h
  obtain rfl : data' = data := Option.some.inj (hdata'.symm.trans hdata)
  exact .write hdata hcomp

theorem opened_eq_ok {fd : Fd} (h : c.opened fd = .ok c') :
    ∃ os, c.os.open fd = .ok os ∧ c' = { c with os := os } := by
  obtain ⟨os, hos, hc⟩ := Exec.bind_eq_ok.1 h
  cases hc
  exact ⟨os, hos, rfl⟩

theorem touch_opened {fd : Fd} (h : c.opened fd = .ok c') : Touch c c' := by
  obtain ⟨os, -, rfl⟩ := opened_eq_ok h
  exact .os os c.history

theorem makeSocketNative_eq_ok {handle : Fd} {id : SocketId}
    (h : c.makeSocketNative handle = .ok (c', id)) :
    ∃ sockets, c.sockets.insert ⟨handle, c.allocated⟩ = .ok (sockets, id) ∧ c' = { c with
      sockets := sockets
      storage := Function.update c.storage c.allocated (some fun _ => {})
      allocated := c.allocated + 1
      history := .inserted (c.os.denotes handle) :: c.history } := by
  obtain ⟨⟨sockets, id'⟩, hins, hc⟩ := Exec.bind_eq_ok.1 h
  cases hc
  exact ⟨sockets, hins, rfl⟩

/-- `make_socket` opens a socket, unless that fails, which gets a record, unless it cannot be
associated with the port. -/
theorem makeSocket_eq_ok {associate e : Option Errno} {id : SocketId}
    (h : c.makeSocket a associate = .ok (c', id, e)) :
    c' = c ∨ ∃ fd c₁, c.opened fd = .ok c₁ ∧
      (c' = c₁ ∨ c₁.makeSocketNative fd = .ok (c', id)) := by
  cases a with
  | err e => cases h; exact .inl rfl
  | ok fd peer =>
    obtain ⟨c₁, hopen, h⟩ := Exec.bind_eq_ok.1 h
    refine .inr ⟨fd, c₁, hopen, ?_⟩
    split at h
    · cases h
      exact .inl rfl
    · obtain ⟨⟨c₂, id'⟩, hmake, h⟩ := Exec.bind_eq_ok.1 h
      cases h
      exact .inr hmake

theorem dropAccepted_touched (h : c.dropAccepted s d ol = .ok c') {data : IocpSocketData}
    (hdata : c.storage s = some data) (hcomp : ol.completion = (data d).completion) :
    Touched c c' := by
  obtain ⟨c₁, hwrite, h⟩ := Exec.bind_eq_ok.1 h
  cases h
  refine (Touched.single (touch_write hwrite hdata hcomp)).trans ?_
  cases ol.acceptSocket with
  | none => exact .refl
  | some fd => exact .single (.os _ _)

/-! ### Work functions -/

theorem failedWork_spec {err : ℤ} (h : c.failedWork io err = .ok (c', fs, r)) :
    c' = c ∧ ∃ f, Notifies io.self f ∧ fs = [f] := by
  unfold failedWork at h
  split_ifs at h <;> cases h
  · exact ⟨rfl, _, .cancel, rfl⟩
  · exact ⟨rfl, _, .error _, rfl⟩

theorem acceptWork_spec {peer : List UInt8} {associate : Option Errno}
    (h : c.acceptWork io s d ol peer associate = .ok (c', fs, r)) {data : IocpSocketData}
    (hdata : c.storage s = some data) (hol : ol = data d) (hs : s ≠ c.allocated) :
    Touched c c' ∧ ∃ f, Notifies io.self f ∧ fs = [f] := by
  have hcomp : ol.completion = (data d).completion := by rw [hol]
  unfold acceptWork at h
  split_ifs at h
  · obtain ⟨c₁, hdrop, h⟩ := Exec.bind_eq_ok.1 h
    obtain ⟨rfl, hf⟩ := failedWork_spec h
    exact ⟨dropAccepted_touched hdrop hdata hcomp, hf⟩
  · obtain ⟨_, -, h⟩ := Exec.bind_eq_ok.1 h
    split at h
    · obtain ⟨c₁, hdrop, h⟩ := Exec.bind_eq_ok.1 h
      cases h
      exact ⟨dropAccepted_touched hdrop hdata hcomp, _, .error _, rfl⟩
    · split at h
      · cases h
      · obtain ⟨⟨c₁, id⟩, hmake, h⟩ := Exec.bind_eq_ok.1 h
        obtain ⟨sockets, hins, rfl⟩ := makeSocketNative_eq_ok hmake
        obtain ⟨c₂, hwrite, h⟩ := Exec.bind_eq_ok.1 h
        cases h
        refine ⟨(Touched.single (.makeSocket hins)).trans
          (.single (touch_write hwrite ?_ hcomp)), _, .complete _, rfl⟩
        show Function.update c.storage c.allocated _ s = some data
        rw [Function.update_of_ne hs, hdata]

/-- What a work function does: it calls its operation once. -/
theorem work_spec {peer : List UInt8} {associate : Option Errno}
    (h : c.work io peer associate = .ok (c', fs, r))
    (hheap : ∀ {s : StorageId} {data : IocpSocketData}, c.storage s = some data → s < c.allocated) :
    Touched c c' ∧ ∃ f, Notifies io.self f ∧ fs = [f] := by
  unfold work at h
  split at h
  · cases h
  · next s d hextra =>
    obtain ⟨ol, hol, h⟩ := Exec.bind_eq_ok.1 h
    obtain ⟨data, hdata, hol⟩ := overlapped_eq_ok hol
    have htransfer : c.transferWork io ol = .ok (c', fs, r) →
        Touched c c' ∧ ∃ f, Notifies io.self f ∧ fs = [f] := by
      intro h
      unfold transferWork at h
      split_ifs at h
      · cases h; exact ⟨.refl, _, .complete _, rfl⟩
      · obtain ⟨rfl, hf⟩ := failedWork_spec h
        exact ⟨.refl, hf⟩
      · cases h; exact ⟨.refl, _, .complete _, rfl⟩
    split at h
    · exact acceptWork_spec h hdata hol (Nat.ne_of_lt (hheap hdata))
    · unfold connectWork at h
      split_ifs at h
      · obtain ⟨rfl, hf⟩ := failedWork_spec h
        exact ⟨.refl, hf⟩
      · obtain ⟨_, -, h⟩ := Exec.bind_eq_ok.1 h
        cases h
        exact ⟨.refl, _, .complete _, rfl⟩
    · exact htransfer h
    · exact htransfer h
    all_goals cases h

/-! ### Submission and cancellation -/

/-- How a submission returns. -/
inductive SubmittedAs (c : IocpContext) (io : IoBase) (req : Answers) :
    IocpContext → List (Frame StorageId) → SubmitResult → Prop
  /-- `poll` -/
  | ready : SubmittedAs c io req c [] .ready
  /-- a timer -/
  | timer {time : Time} (hop : io.op = .resumeAt time) (hnow : req.now < time) :
      SubmittedAs c io req { c with timeouts := Timers.insert c.timeouts io } [] .submit
  /-- a timer whose deadline has passed -/
  | due {time : Time} (hop : io.op = .resumeAt time) (hnow : time ≤ req.now) :
      SubmittedAs c io req c [.complete io.self none] .ready
  /-- the system refused -/
  | failed {c' : IocpContext} (e : Error) (h : Prepared c c') :
      SubmittedAs c io req c' [.error io.self e] .error
  /-- the system accepted the request, in the storage of the socket -/
  | accepted {c₁ : IocpContext} {rec : IocpRecord} {d : Direction} {data : IocpSocketData}
      (hrec : c.sockets.get? io.op.id = some rec) (h : Prepared c c₁)
      (hdata : c₁.storage rec.io = some data) (hcomp : (data d).completion = some io) :
      SubmittedAs c io req { c₁ with
        requests := c₁.requests ++ [⟨rec.io, d, io.self⟩]
        outstanding := c₁.outstanding + 1 } [] .submit

theorem initialise_spec (h : c.initialise s d ol = .ok c') :
    Prepare c c' ∧ ∃ data, c'.storage s = some data ∧ data d = ol := by
  unfold initialise at h
  split_ifs at h with hany
  obtain ⟨data, hdata, rfl⟩ := write_eq_ok h
  refine ⟨.initialise ol hdata ?_, _, Function.update_self .., Function.update_self ..⟩
  simpa using hany

/-- The request is accepted or refused; the `OVERLAPPED` was prepared for it. -/
theorem request_cases {failed : IocpContext → Exec IocpContext} {a : SysAnswer} {rec : IocpRecord}
    {c₀ : IocpContext} (h : c.request io rec.io d failed a = .ok (c', fs, r))
    (hrec : c₀.sockets.get? io.op.id = some rec) (hprep : Prepared c₀ c)
    {data : IocpSocketData} (hdata : c.storage rec.io = some data)
    (hcomp : (data d).completion = some io)
    (hfailed : ∀ {c' : IocpContext}, failed c = .ok c' → Prepared c c') :
    SubmittedAs c₀ io req c' fs r := by
  unfold request at h
  dsimp only at h
  split at h
  · cases h
    exact .accepted hrec hprep hdata hcomp
  · split_ifs at h
    · cases h
      exact .accepted hrec hprep hdata hcomp
    · obtain ⟨c₁, hf, h⟩ := Exec.bind_eq_ok.1 h
      cases h
      exact .failed _ (hprep.trans (hfailed hf))

theorem accept_cases {answers : List SysAnswer} (h : c.accept io answers = .ok (c', fs, r)) :
    SubmittedAs c io req c' fs r := by
  obtain ⟨rec, hrec, h⟩ := Exec.bind_eq_ok.1 h
  obtain ⟨c₁, hinit, h⟩ := Exec.bind_eq_ok.1 h
  obtain ⟨hprep, data₁, hdata₁, hol₁⟩ := initialise_spec hinit
  split at h
  · cases h
  · cases h
    exact .failed _ (.single hprep)
  · next fd peer answers =>
    obtain ⟨c₂, hopen, h⟩ := Exec.bind_eq_ok.1 h
    obtain ⟨os, -, hc₂⟩ := Exec.bind_eq_ok.1 hopen
    cases hc₂
    obtain ⟨c₃, hwrite, h⟩ := Exec.bind_eq_ok.1 h
    have htouch := touch_write hwrite hdata₁ (by rw [hol₁])
    obtain ⟨data₂, -, rfl⟩ := write_eq_ok hwrite
    split at h
    · cases h
    · have hdata : ∀ x, (Function.update c₁.storage rec.io (some x)) rec.io = some x := fun x =>
        Function.update_self ..
      refine request_cases h (record_eq_ok hrec) ?_ (hdata _) ?_ ?_
      · exact (Prepared.single hprep).trans ((Prepared.touch (.os os _)).trans
          ((Prepared.touch htouch).trans (.touch (.extra _))))
      · simp
      · intro c' hdrop
        exact (dropAccepted_touched hdrop (hdata _) (by simp)).prepared

/-- An `OVERLAPPED` is initialised, `extra` set and the request handed over. -/
theorem initialise_request_cases {a : SysAnswer} {rec : IocpRecord} {len : ℕ} {c₁ : IocpContext}
    (hrec : c.sockets.get? io.op.id = some rec)
    (hinit : c.initialise rec.io d { completion := some io, len := len } = .ok c₁)
    (h : (c₁.setExtra io rec.io d).request io rec.io d .ok a = .ok (c', fs, r)) :
    SubmittedAs c io req c' fs r := by
  obtain ⟨hprep, data, hdata, hol⟩ := initialise_spec hinit
  refine request_cases h hrec ((Prepared.single hprep).trans (.touch (.extra _)))
    (show IocpContext.storage (c₁.setExtra io rec.io d) rec.io = some data from hdata)
    (by rw [hol]) fun hf => ?_
  cases hf
  exact .refl

theorem connectEx_cases {answers : List SysAnswer} {rec : IocpRecord}
    (hrec : c.sockets.get? io.op.id = some rec)
    (h : c.connectEx io rec.io answers = .ok (c', fs, r)) : SubmittedAs c io req c' fs r := by
  obtain ⟨c₁, hinit, h⟩ := Exec.bind_eq_ok.1 h
  split at h
  · cases h
  · exact initialise_request_cases hrec hinit h

theorem submit_cases (h : c.submit io req = .ok (c', fs, r)) : SubmittedAs c io req c' fs r := by
  have htransfer : ∀ {d : Direction} {buffers : List ℕ},
      c.transfer io d buffers req.sys = .ok (c', fs, r) → SubmittedAs c io req c' fs r := by
    intro d buffers h
    obtain ⟨rec, hrec, h⟩ := Exec.bind_eq_ok.1 h
    obtain ⟨c₁, hinit, h⟩ := Exec.bind_eq_ok.1 h
    split at h
    · cases h
    · exact initialise_request_cases (record_eq_ok hrec) hinit h
  unfold submit at h
  split at h
  · cases h; exact .ready
  · exact accept_cases h
  · obtain ⟨rec, hrec, h⟩ := Exec.bind_eq_ok.1 h
    split at h
    · cases h
    · split_ifs at h
      · exact connectEx_cases (record_eq_ok hrec) h
      · cases h; exact .failed _ .refl
    · exact connectEx_cases (record_eq_ok hrec) h
  · exact htransfer h
  · exact htransfer h
  · next time hop =>
    unfold resumeAt at h
    split_ifs at h with hnow <;> cases h
    · exact .timer hop hnow
    · exact .due hop (Int.not_lt.1 hnow)

/-- How `cancel` returns: the timer is removed, or nothing happens until the packet comes. -/
theorem cancel_cases {u : Unit} (h : c.cancel io u = .ok (c', fs)) :
    (∃ timeouts, Timers.erase? c.timeouts io.self = some timeouts ∧
      c' = { c with timeouts := timeouts } ∧ fs = [.cancel io.self, .cancelOp io.self]) ∨
    (Timers.erase? c.timeouts io.self = none ∧ c' = c ∧ fs = [.cancelOp io.self]) := by
  unfold cancel at h
  split at h
  · next timeouts herase => cases h; exact .inl ⟨timeouts, herase, rfl, rfl⟩
  · next herase =>
    split_ifs at h
    · obtain ⟨_, -, h⟩ := Exec.bind_eq_ok.1 h
      cases h
      exact .inr ⟨herase, rfl, rfl⟩
    · cases h; exact .inr ⟨herase, rfl, rfl⟩

/-! ### `run_one` -/

theorem processTimeout_eq_some (h : c.processTimeout now = some (c', fs)) :
    ∃ io timeouts, c.timeouts = io :: timeouts ∧ io.deadline ≤ now ∧
      c' = { c with timeouts := timeouts } ∧ fs = [.complete io.self none] := by
  obtain ⟨⟨io, timeouts⟩, hpop, heq⟩ := Option.map_eq_some_iff.1 h
  cases heq
  obtain ⟨hl, hdue⟩ := Timers.popDue?_eq_some.1 hpop
  exact ⟨io, timeouts, hl, hdue, rfl, rfl⟩

theorem processTask_eq_some (h : c.processTask = some (c', fs)) :
    ∃ t tasks, c.tasks.pop? = some (t, tasks) ∧ c' = { c with tasks := tasks } ∧
      fs = [.task t] := by
  obtain ⟨⟨t, tasks⟩, hpop, heq⟩ := Option.map_eq_some_iff.1 h
  cases heq
  exact ⟨t, tasks, hpop, rfl, rfl⟩

/-- The state in which a work function runs: the request is off the list. -/
def dequeued (c : IocpContext) (index : ℕ) (r : Request) : IocpContext :=
  { c with
    requests := c.requests.eraseIdx index
    outstanding := c.outstanding - 1
    working := r.storage :: c.working }

/-- A packet leads to one call of the operation the `OVERLAPPED` names. -/
theorem complete_cases {index : ℕ} {result : SysAnswer} {associate : Option Errno}
    (h : c.complete index result associate = .ok (c', fs))
    (hheap : ∀ {s : StorageId} {data : IocpSocketData}, c.storage s = some data → s < c.allocated) :
    ∃ r data io f, c.requests[index]? = some r ∧ c.storage r.storage = some data ∧
      (data r.direction).completion = some io ∧ Touched (c.dequeued index r) c' ∧
      Notifies io.self f ∧ fs = [f, .tail r.storage] := by
  unfold complete at h
  split at h
  · cases h
  · next r hr =>
    obtain ⟨ol, hol, h⟩ := Exec.bind_eq_ok.1 h
    obtain ⟨data, hdata, hol⟩ := overlapped_eq_ok hol
    obtain ⟨c₁, hwrite, h⟩ := Exec.bind_eq_ok.1 h
    have htouch := touch_write hwrite hdata (by rw [hol])
    have hheap' : ∀ {s : StorageId} {data : IocpSocketData},
        c₁.storage s = some data → s < c₁.allocated := by
      obtain ⟨data', hdata', rfl⟩ := write_eq_ok hwrite
      intro s data₁ hs
      by_cases hss : s = r.storage
      · subst hss; exact hheap hdata
      · exact hheap ((Function.update_of_ne hss _ _).symm.trans hs)
    split at h
    · cases h
    · next io hio =>
      obtain ⟨⟨c₂, fs₂, r₂⟩, hwork, h⟩ := Exec.bind_eq_ok.1 h
      obtain ⟨htouched, f, hf, rfl⟩ := work_spec hwork hheap'
      cases h
      exact ⟨r, data, io, f, hr, hdata, hol ▸ hio, (Touched.single htouch).trans htouched, hf, rfl⟩

/-- `run_one` gets as far as waiting for a packet. -/
structure Waits (c : IocpContext) (now : Time) : Prop where
  timer : c.processTimeout now = none
  task : c.processTask = none
  busy : ¬ (c.outstanding = 0 ∧ c.timeouts = [])

/-- What `run_one` can do. -/
inductive Ran (c : IocpContext) (now : Time) :
    Option PortAnswer → IocpContext → List (Frame StorageId) → ℕ → Prop
  /-- a timer was due, at once or after waiting -/
  | timer {answer : Option PortAnswer} {later : Time} {c' : IocpContext}
      {fs : List (Frame StorageId)} (hlater : later = now ∨ answer = some (.timeout later))
      (h : c.processTimeout later = some (c', fs)) : Ran c now answer c' fs 1
  /-- there was a task -/
  | task {answer : Option PortAnswer} {c' : IocpContext} {fs : List (Frame StorageId)}
      (h : c.processTask = some (c', fs)) : Ran c now answer c' fs 1
  /-- nothing to wait for -/
  | idle {answer : Option PortAnswer} (htasks : c.processTask = none) (ho : c.outstanding = 0)
      (ht : c.timeouts = []) : Ran c now answer c [] 0
  /-- the wait timed out before a timer was due -/
  | early {later : Time} (hwaits : Waits c now) (h : c.processTimeout later = none) :
      Ran c now (some (.timeout later)) c [] 0
  /-- the port failed -/
  | failed : Ran c now (some .failed) c [] 0
  /-- a packet of `schedule` arrived after its task was run -/
  | stale (hwaits : Waits c now) :
      Ran c now (some .wakeup) { c with wakeups := c.wakeups - 1 } [] 0
  /-- the packet of a request arrived -/
  | completed {index : ℕ} {result : SysAnswer} {associate : Option Errno} {c' : IocpContext}
      {fs : List (Frame StorageId)} (hwaits : Waits c now)
      (h : c.complete index result associate = .ok (c', fs)) :
      Ran c now (some (.completion index result associate)) c' fs 1

theorem runOne_cases (h : c.runOne now answer = .ok (c', fs, n)) : Ran c now answer c' fs n := by
  unfold runOne at h
  split at h
  · next ht => cases h; exact .timer (.inl rfl) ht
  next htimer =>
  split at h
  · next ht => cases h; exact .task ht
  next htasks =>
  split at h
  · next hidle => cases h; exact .idle htasks hidle.1 hidle.2
  next hbusy =>
  have hwaits : Waits c now := ⟨htimer, htasks, hbusy⟩
  split at h
  · cases h
  · split at h
    · cases h
    split at h
    · next ht => cases h; exact .timer (.inr rfl) ht
    · next ht => cases h; exact .early hwaits ht
  · cases h; exact .failed
  · split at h
    · cases h
    have htasks' : processTask { c with wakeups := c.wakeups - 1 } = none := by
      rw [processTask, Option.map_eq_none_iff] at htasks ⊢
      exact htasks
    dsimp only at h
    rw [htasks'] at h
    cases h
    exact .stale hwaits
  · obtain ⟨⟨c₁, fs₁⟩, hcomp, h⟩ := Exec.bind_eq_ok.1 h
    cases h
    exact .completed hwaits hcomp

/-- How a call of the context returns. -/
inductive Called (c : IocpContext) : IocpCall → IocpContext → List (Frame StorageId) → Prop
  | runOne {now : Time} {answer : Option PortAnswer} {c' : IocpContext}
      {fs : List (Frame StorageId)} {n : ℕ} (h : c.runOne now answer = .ok (c', fs, n)) :
      Called c (.runOne now answer) c' fs
  | schedule (t : TaskId) : Called c (.schedule t) (c.schedule t) []
  | makeSocket {answer : SysAnswer} {associate : Option Errno} {c' : IocpContext} {id : SocketId}
      {e : Option Errno} (h : c.makeSocket answer associate = .ok (c', id, e)) :
      Called c (.makeSocket answer associate) c' []
  | makeSocketNative {handle : Fd} {c' : IocpContext} {id : SocketId}
      (h : c.makeSocketNative handle = .ok (c', id)) : Called c (.makeSocketNative handle) c' []
  | release {id : SocketId} {answer e : Option Errno} {c' : IocpContext}
      (h : c.release id answer = .ok (c', e)) : Called c (.release id answer) c' []

theorem call_eq_ok {k : IocpCall} (h : iocpBase.call c k = .ok (c', fs)) : Called c k c' fs := by
  cases k with
  | schedule t => cases h; exact .schedule t
  | runOne now answer =>
    obtain ⟨x, hrun, heq⟩ := Exec.map_eq_ok.1 h
    cases heq
    exact .runOne hrun
  | makeSocket answer associate =>
    obtain ⟨x, hmake, heq⟩ := Exec.map_eq_ok.1 h
    cases heq
    exact .makeSocket hmake
  | makeSocketNative handle =>
    obtain ⟨x, hmake, heq⟩ := Exec.map_eq_ok.1 h
    cases heq
    exact .makeSocketNative hmake
  | release id answer =>
    obtain ⟨x, hrel, heq⟩ := Exec.map_eq_ok.1 h
    cases heq
    exact .release hrel

end IocpContext

end Net29
