import Net29.Poll.Context
import Net29.Ledger
import Mathlib.Logic.Relation

/-!
# What the calls of `poll_context` do to its queues

One lemma for each function; the invariants only use these.

* `PollContext.entries`, `pairs`: the two vectors without what was last reported;
* `Matches R`: every entry and the operation in the same place satisfy `R`;
* `Waited`, `Worked`: what waiting and a work function leave alone;
* `Act`, `Acts`: the single changes that work functions and submissions consist of;
* `wait_spec`, `work_spec`, `submit_cases`, `cancel_cases`, `runOne_cases`, `call_eq_ok`.
-/

namespace Net29

open SwapRemove

namespace PollContext

variable {c c' c₁ : PollContext} {io : IoBase} {o : OpId} {i n : ℕ} {fs : List (Frame Empty)}
  {r : SubmitResult} {sys : List SysAnswer} {now : Time} {answers : List PollAnswer} {exit : Exit}

/-- The descriptors waited for, with the events requested. -/
def entries (c : PollContext) : List (Fd × BitVec 16) := c.poll.map fun p => (p.fd, p.events)

/-- The descriptors waited for with the operations that wait. -/
def pairs (c : PollContext) : List ((Fd × BitVec 16) × IoBase) := c.entries.zip c.outstanding

/-- The two vectors have the same length, and `R` holds at every place. -/
def Matches (R : Fd → BitVec 16 → IoBase → Prop) (c : PollContext) : Prop :=
  List.Forall₂ (fun p io => R p.1 p.2 io) c.entries c.outstanding

variable {R : Fd → BitVec 16 → IoBase → Prop}

theorem Matches.length (h : Matches R c) : c.poll.length = c.outstanding.length := by
  have := h.length_eq
  rwa [entries, List.length_map] at this

/-- The entry in the place of an operation. -/
theorem Matches.get (h : Matches R c) {p : Pollfd} (hp : c.poll[i]? = some p)
    (hio : c.outstanding[i]? = some io) : R p.fd p.events io := by
  have hentry : c.entries[i]? = some (p.fd, p.events) := by
    rw [entries, List.getElem?_map, hp]
    rfl
  exact (List.forall₂_iff_zip.1 h).2
    (List.mem_of_getElem? (List.getElem?_zip_eq_some.2 ⟨hentry, hio⟩))

theorem Matches.emplaceBack (h : Matches R c) {fd : Fd} {events : BitVec 16}
    (hR : R fd events io) :
    Matches R { c with
      poll := c.poll ++ [{ fd := fd, events := events }]
      outstanding := c.outstanding ++ [io] } := by
  unfold Matches entries
  rw [List.map_append]
  exact List.rel_append h (.cons hR .nil)

/-! ### Removal -/

@[simp] theorem entries_removeOutstanding :
    (c.removeOutstanding i).entries = swapRemove c.entries i := by
  unfold removeOutstanding entries
  rw [← map_swapRemove]
  dsimp only
  split_ifs with h
  · rfl
  · rw [swapRemove, overwrite_last _ (not_not.1 h)]

theorem outstanding_removeOutstanding (h : c.poll.length = c.outstanding.length) :
    (c.removeOutstanding i).outstanding = swapRemove c.outstanding i := by
  unfold removeOutstanding
  dsimp only
  split_ifs with hi
  · rfl
  · rw [swapRemove, overwrite_last _ ((not_not.1 hi).trans h)]

@[simp] theorem timeouts_removeOutstanding : (c.removeOutstanding i).timeouts = c.timeouts := by
  unfold removeOutstanding; dsimp only; split <;> rfl

@[simp] theorem tasks_removeOutstanding : (c.removeOutstanding i).tasks = c.tasks := by
  unfold removeOutstanding; dsimp only; split <;> rfl

@[simp] theorem sockets_removeOutstanding : (c.removeOutstanding i).sockets = c.sockets := by
  unfold removeOutstanding; dsimp only; split <;> rfl

@[simp] theorem env_removeOutstanding : (c.removeOutstanding i).env = c.env := by
  unfold removeOutstanding; dsimp only; split <;> rfl

theorem Matches.removeOutstanding (h : Matches R c) (i : ℕ) :
    Matches R (c.removeOutstanding i) := by
  unfold Matches
  rw [entries_removeOutstanding, outstanding_removeOutstanding h.length]
  exact forall₂_swapRemove h i

/-- Exactly one operation goes, with the entry in its place. -/
theorem pairs_removeOutstanding (h : c.poll.length = c.outstanding.length) {p : Pollfd}
    (hp : c.poll[i]? = some p) (hio : c.outstanding[i]? = some io) :
    c.pairs.Perm (((p.fd, p.events), io) :: (c.removeOutstanding i).pairs) := by
  have hlen : c.entries.length = c.outstanding.length := by rwa [entries, List.length_map]
  have hget : c.pairs[i]? = some ((p.fd, p.events), io) := by
    refine List.getElem?_zip_eq_some.2 ⟨?_, hio⟩
    rw [entries, List.getElem?_map, hp]
    rfl
  obtain ⟨hi, hget⟩ := List.getElem?_eq_some_iff.1 hget
  rw [show (c.removeOutstanding i).pairs = swapRemove c.pairs i by
    rw [pairs, entries_removeOutstanding, outstanding_removeOutstanding h, zip_swapRemove _ _ hlen]
    rfl, ← hget]
  exact perm_cons_swapRemove c.pairs hi

theorem occurrences_removeOutstanding (h : c.poll.length = c.outstanding.length)
    (hio : c.outstanding[i]? = some io) :
    occurrences c.outstanding o =
      occurrences (c.removeOutstanding i).outstanding o + if io.self = o then 1 else 0 := by
  obtain ⟨hi, hget⟩ := List.getElem?_eq_some_iff.1 hio
  rw [outstanding_removeOutstanding h, ← occurrences_cons, ← hget]
  exact occurrences_perm (perm_cons_swapRemove c.outstanding hi)

/-! ### Waiting -/

/-- What the loop around `poll` leaves alone. -/
structure Waited (c c' : PollContext) : Prop where
  entries : c'.entries = c.entries
  outstanding : c'.outstanding = c.outstanding
  timeouts : c'.timeouts = c.timeouts
  tasks : c'.tasks = c.tasks
  sockets : c'.sockets = c.sockets
  env : c'.env = c.env

theorem Waited.refl (c : PollContext) : Waited c c := ⟨rfl, rfl, rfl, rfl, rfl, rfl⟩

theorem Waited.trans {c'' : PollContext} (h : Waited c c') (h' : Waited c' c'') : Waited c c'' :=
  ⟨h'.entries.trans h.entries, h'.outstanding.trans h.outstanding, h'.timeouts.trans h.timeouts,
    h'.tasks.trans h.tasks, h'.sockets.trans h.sockets, h'.env.trans h.env⟩

theorem Waited.matches (h : Waited c c') (hm : Matches R c) : Matches R c' := by
  unfold Matches
  rw [h.entries, h.outstanding]
  exact hm

theorem Waited.pairs (h : Waited c c') : c'.pairs = c.pairs := by
  rw [PollContext.pairs, h.entries, h.outstanding, PollContext.pairs]

theorem waited_report {revents : List (BitVec 16)} (h : revents.length = c.poll.length) :
    Waited c (c.report revents) := by
  refine ⟨?_, rfl, rfl, rfl, rfl, rfl⟩
  unfold entries report
  dsimp only
  generalize c.poll = l at h ⊢
  induction l generalizing revents with
  | nil => rfl
  | cons p l ih =>
    cases revents with
    | nil => simp at h
    | cons v revents => simpa using ih (by simpa using h)

/-- The entry found was reported. -/
theorem scan_eq_some (h : c.scan n = some i) : ∃ p, c.poll[i]? = some p ∧ p.reported = true := by
  induction n with
  | zero => cases h
  | succ n ih =>
    rw [scan] at h
    split at h
    · next p hp =>
      split_ifs at h with hr
      · cases h; exact ⟨p, hp, hr⟩
      · exact ih h
    · exact ih h

/-- Why the loop around `poll` was left. -/
inductive Left (answers : List PollAnswer) (c : PollContext) : Exit → Prop
  | failed (e : Errno) (h : .err e ∈ answers) (hint : e ≠ Errno.EINTR) (hagain : e ≠ Errno.EAGAIN) :
      Left answers c .failed
  | entry {i : ℕ} {p : Pollfd} {revents : List (BitVec 16)} {later : Time} {sys : List SysAnswer}
      (h : .ok revents later sys ∈ answers) (hp : c.poll[i]? = some p)
      (hrev : revents[i]? = some p.revents) (hr : p.reported = true) : Left answers c (.entry i sys)
  | timer {revents : List (BitVec 16)} {later : Time} {sys : List SysAnswer} {c' : PollContext}
      {fs : List (Frame Empty)} (h : .ok revents later sys ∈ answers)
      (ht : c.processTimeout later = some (c', fs)) : Left answers c (.timer c' fs)

theorem Left.cons {a : PollAnswer} (h : Left answers c exit) : Left (a :: answers) c exit := by
  cases h with
  | failed e h hint hagain => exact .failed e (List.mem_cons_of_mem _ h) hint hagain
  | entry h hp hrev hr => exact .entry (List.mem_cons_of_mem _ h) hp hrev hr
  | timer h ht => exact .timer (List.mem_cons_of_mem _ h) ht

/-- What the loop around `poll` does, by induction on the answers it gets. -/
theorem wait_spec (h : c.wait now answers = .ok (c', exit)) :
    Waited c c' ∧ Left answers c' exit := by
  induction answers generalizing c with
  | nil => cases h
  | cons a answers ih =>
    have hpolls : ∀ t, Waited c { c with polls := t :: c.polls } := fun _ =>
      ⟨rfl, rfl, rfl, rfl, rfl, rfl⟩
    cases a with
    | err e =>
      simp only [wait] at h
      split_ifs at h with he
      · obtain ⟨hw, hl⟩ := ih h
        exact ⟨(hpolls _).trans hw, hl.cons⟩
      · cases h
        exact ⟨hpolls _,
          .failed e List.mem_cons_self (fun hi => he (.inl hi)) fun ha => he (.inr ha)⟩
    | ok revents later sys =>
      simp only [wait, ne_eq, ite_not] at h
      split_ifs at h with hlen
      have hreport := (hpolls (c.timeout now)).trans (waited_report hlen)
      generalize hc₁ : PollContext.report _ revents = c₁ at h hreport
      split at h
      · next i hscan =>
        cases h
        obtain ⟨p, hp, hr⟩ := scan_eq_some hscan
        refine ⟨hreport, .entry List.mem_cons_self hp ?_ hr⟩
        subst hc₁
        obtain ⟨q, v, -, hv, rfl⟩ := List.getElem?_zipWith_eq_some.1 hp
        exact hv
      · split at h
        · next c'' fs ht =>
          cases h
          exact ⟨hreport, .timer List.mem_cons_self ht⟩
        · obtain ⟨hw, hl⟩ := ih h
          exact ⟨hreport.trans hw, hl.cons⟩

/-! ### Work functions -/

/-- What a work function leaves alone; `accept` may have added a record. -/
structure Worked (c c' : PollContext) : Prop where
  poll : c'.poll = c.poll
  outstanding : c'.outstanding = c.outstanding
  timeouts : c'.timeouts = c.timeouts
  tasks : c'.tasks = c.tasks
  records : ∀ {id : SocketId} {rec : PollRecord}, c'.sockets.get? id = some rec →
    c.sockets.get? id = some rec ∨ rec.blocking = true

theorem Worked.refl (c : PollContext) : Worked c c := ⟨rfl, rfl, rfl, rfl, .inl⟩

theorem Worked.trans {c'' : PollContext} (h : Worked c c') (h' : Worked c' c'') : Worked c c'' :=
  ⟨h'.poll.trans h.poll, h'.outstanding.trans h.outstanding, h'.timeouts.trans h.timeouts,
    h'.tasks.trans h.tasks, fun hr => (h'.records hr).elim h.records .inr⟩

theorem Worked.matches (h : Worked c c') (hm : Matches R c) : Matches R c' := by
  unfold Matches entries
  rw [h.poll, h.outstanding]
  exact hm

theorem Worked.pairs (h : Worked c c') : c'.pairs = c.pairs := by
  unfold PollContext.pairs entries
  rw [h.poll, h.outstanding]

theorem worked_record : Worked c (c.record io) := ⟨rfl, rfl, rfl, rfl, .inl⟩

theorem makeSocketNative_eq_ok {fd : Fd} {id : SocketId}
    (h : c.makeSocketNative fd = .ok (c', id)) :
    ∃ sockets, c.sockets.insert { handle := fd } = .ok (sockets, id) ∧
      c' = { c with sockets := sockets } := by
  obtain ⟨⟨sockets, id'⟩, hins, hc⟩ := Exec.bind_eq_ok.1 h
  cases hc
  exact ⟨sockets, hins, rfl⟩

theorem worked_insert {fd : Fd} {sockets : Container PollRecord} {id : SocketId} {env : Env}
    (h : c.sockets.insert { handle := fd } = .ok (sockets, id)) :
    Worked c { c with sockets := sockets, env := env } :=
  ⟨rfl, rfl, rfl, rfl, fun hr => (Container.get?_insert h hr).imp_right fun he => by rw [he.2]⟩

/-- A socket is opened and gets a record. -/
inductive Opens (c : PollContext) : PollContext → Prop
  | mk {fd : Fd} {os : Os} {sockets : Container PollRecord} {id : SocketId}
      (hopen : c.env.os.open fd = .ok os)
      (hins : c.sockets.insert { handle := fd } = .ok (sockets, id)) :
      Opens c { c with sockets := sockets, env := { c.env with os := os } }

theorem opens_of_makeSocketNative {fd : Fd} {id : SocketId} (hopen : c.opened fd = .ok c₁)
    (h : c₁.makeSocketNative fd = .ok (c', id)) : Opens c c' := by
  obtain ⟨os, hos, hc⟩ := Exec.bind_eq_ok.1 hopen
  cases hc
  obtain ⟨sockets, hins, rfl⟩ := makeSocketNative_eq_ok h
  exact .mk hos hins

/-- A single change on behalf of an operation: system calls on the descriptor of its id, or a socket
that `accept` returned. -/
inductive Act (io : IoBase) (c : PollContext) : PollContext → Prop
  | log {n : ℕ} {call : Syscall} {fd len : ℕ} (hfd : c.nativeHandle io.op.id = .ok fd) :
      Act io c (c.logCalls n io call fd len)
  | opens {c' : PollContext} (h : Opens c c') : Act io c c'

/-- Any number of changes on behalf of an operation. -/
def Acts (io : IoBase) : PollContext → PollContext → Prop := Relation.ReflTransGen (Act io)

theorem Acts.refl (io : IoBase) (c : PollContext) : Acts io c c := Relation.ReflTransGen.refl

theorem Acts.tail (h : Acts io c c₁) (h' : Act io c₁ c') : Acts io c c' :=
  Relation.ReflTransGen.tail h h'

theorem Acts.single (h : Act io c c') : Acts io c c' := Relation.ReflTransGen.single h

/-- What every single change preserves, any number of them preserves. -/
theorem Acts.induct {P : PollContext → Prop} (h : Acts io c c') (hP : P c)
    (hstep : ∀ {c c' : PollContext}, P c → Act io c c' → P c') : P c' := by
  induction h with
  | refl => exact hP
  | tail _ h ih => exact hstep ih h

theorem Opens.worked (h : Opens c c') : Worked c c' := by
  cases h with
  | mk hopen hins => exact worked_insert hins

theorem Acts.worked (h : Acts io c c') : Worked c c' :=
  h.induct (.refl c) fun hw ha => hw.trans (by
    cases ha with
    | log => exact ⟨rfl, rfl, rfl, rfl, .inl⟩
    | opens h => exact h.worked)

/-- The work function was answered `EWOULDBLOCK`: it neither completes nor queues the operation. -/
def wouldBlock (io : IoBase) (sys : List SysAnswer) : Bool :=
  match io.op with
  | .accept _ _ | .receive _ _ | .send _ _ =>
    (retry sys).map Prod.snd = some (.err Errno.EWOULDBLOCK)
  | _ => false

theorem mem_of_retry {a : SysAnswer} (h : retry sys = some (n, a)) : a ∈ sys := by
  induction sys generalizing n with
  | nil => cases h
  | cons b sys ih =>
    cases b with
    | ok rc peer => cases h; exact List.mem_cons_self
    | err e =>
      rw [retry] at h
      split_ifs at h
      · obtain ⟨⟨k, b⟩, hk, heq⟩ := Option.map_eq_some_iff.1 h
        cases heq
        exact List.mem_cons_of_mem _ (ih hk)
      · cases h; exact List.mem_cons_self

theorem mem_of_wouldBlock (h : wouldBlock io sys = true) : .err Errno.EWOULDBLOCK ∈ sys := by
  have hretry : (retry sys).map Prod.snd = some (.err Errno.EWOULDBLOCK) := by
    unfold wouldBlock at h
    split at h
    · exact of_decide_eq_true h
    · exact of_decide_eq_true h
    · exact of_decide_eq_true h
    · cases h
  obtain ⟨⟨k, a⟩, hk, ha⟩ := Option.map_eq_some_iff.1 hretry
  exact ha ▸ mem_of_retry hk

/-- A work function answered `EWOULDBLOCK` calls nothing; any other makes one call of its operation.
-/
inductive WorkFrames (io : IoBase) (sys : List SysAnswer) : List (Frame Empty) → Prop
  | blocked (h : wouldBlock io sys = true) : WorkFrames io sys []
  | notified (f : Frame Empty) (hf : Notifies io.self f) (h : wouldBlock io sys = false) :
      WorkFrames io sys [f]

theorem acceptWork_spec {id : SocketId} {addrlen : ℕ} (hop : io.op = .accept id addrlen)
    (h : c.acceptWork io addrlen sys = .ok (c', fs, r)) : Acts io c c' ∧ WorkFrames io sys fs := by
  obtain ⟨fd, hfd, h⟩ := Exec.bind_eq_ok.1 h
  split at h
  · cases h
  · next n rc peer hsys =>
    obtain ⟨c₁, hopen, h⟩ := Exec.bind_eq_ok.1 h
    obtain ⟨⟨c₂, id'⟩, hmake, h⟩ := Exec.bind_eq_ok.1 h
    cases h
    exact ⟨(Acts.single (.log hfd)).tail (.opens (opens_of_makeSocketNative hopen hmake)),
      .notified _ (.complete _) (by simp [wouldBlock, hop, hsys])⟩
  · next n e hsys =>
    split_ifs at h with he <;> cases h
    · exact ⟨.single (.log hfd), .blocked (by simp [wouldBlock, hop, hsys, he])⟩
    · exact ⟨.single (.log hfd), .notified _ (.error _) (by simp [wouldBlock, hop, hsys, he])⟩

theorem connectWork_spec {id : SocketId} {endpoint : Endpoint} (hop : io.op = .connect id endpoint)
    (h : c.connectWork io sys = .ok (c', fs, r)) : Acts io c c' ∧ WorkFrames io sys fs := by
  have hnot : wouldBlock io sys = false := by simp [wouldBlock, hop]
  obtain ⟨fd, hfd, h⟩ := Exec.bind_eq_ok.1 h
  split at h
  · cases h
  · cases h; exact ⟨.single (.log hfd), .notified _ (.error _) hnot⟩
  · split_ifs at h <;> cases h
    · exact ⟨.single (.log hfd), .notified _ (.complete _) hnot⟩
    · exact ⟨.single (.log hfd), .notified _ (.error _) hnot⟩

theorem transferWork_spec {call : Syscall} {id : SocketId} {bufs : List ℕ}
    (hop : io.op = .receive id bufs ∨ io.op = .send id bufs)
    (h : transferWork call c io sys = .ok (c', fs, r)) : Acts io c c' ∧ WorkFrames io sys fs := by
  have hblock : wouldBlock io sys =
      decide ((retry sys).map Prod.snd = some (.err Errno.EWOULDBLOCK)) := by
    rcases hop with hop | hop <;> simp [wouldBlock, hop]
  obtain ⟨fd, hfd, h⟩ := Exec.bind_eq_ok.1 h
  split at h
  · cases h
  · next n a hsys =>
    dsimp only at h
    split at h
    · cases h
      exact ⟨.single (.log hfd), .notified _ (.complete _) (by simp [hblock, hsys])⟩
    · next e =>
      split_ifs at h with hreset he <;> cases h
      · refine ⟨.single (.log hfd), .notified _ (.complete _) ?_⟩
        rw [hblock, hsys]
        rcases hreset with rfl | rfl <;> rfl
      · exact ⟨.single (.log hfd), .blocked (by simp [hblock, hsys, he])⟩
      · exact ⟨.single (.log hfd), .notified _ (.error _) (by simp [hblock, hsys, he])⟩

/-- What a work function does. -/
theorem work_spec (h : c.work io sys = .ok (c', fs, r)) : Acts io c c' ∧ WorkFrames io sys fs := by
  unfold work at h
  split at h
  · next hop =>
    cases h
    exact ⟨.refl io c, .notified _ (.complete _) (by simp [wouldBlock, hop])⟩
  · next hop => exact acceptWork_spec hop h
  · next hop => exact connectWork_spec hop h
  · next hop => exact transferWork_spec (.inl hop) h
  · next hop => exact transferWork_spec (.inr hop) h
  · cases h

/-! ### `run_one` -/

theorem processTimeout_eq_some (h : c.processTimeout now = some (c', fs)) :
    ∃ io timeouts, c.timeouts = io :: timeouts ∧ io.deadline ≤ now ∧
      c' = { c with timeouts := timeouts } ∧ fs = [.complete io.self none] := by
  obtain ⟨⟨io, timeouts⟩, hpop, heq⟩ := Option.map_eq_some_iff.1 h
  cases heq
  obtain ⟨hl, hdue⟩ := Timers.popDue?_eq_some.1 hpop
  exact ⟨io, timeouts, hl, hdue, rfl, rfl⟩

theorem processTask_eq_some (h : c.processTask = some (c', fs)) :
    ∃ t tasks, c.tasks.pop? = some (t, tasks) ∧ c' = { c with tasks := tasks } ∧
      fs = [.task t] := by
  obtain ⟨⟨t, tasks⟩, hpop, heq⟩ := Option.map_eq_some_iff.1 h
  cases heq
  exact ⟨t, tasks, hpop, rfl, rfl⟩

/-- What `run_one` can do. -/
inductive Ran (c : PollContext) (now : Time) (answers : List PollAnswer) :
    PollContext → List (Frame Empty) → ℕ → Prop
  /-- a timer was due, at once or after waiting -/
  | timer {c₁ c' : PollContext} {fs : List (Frame Empty)} {later : Time} (hw : Waited c c₁)
      (h : c₁.processTimeout later = some (c', fs)) : Ran c now answers c' fs 1
  /-- there was a task -/
  | task {c' : PollContext} {fs : List (Frame Empty)} (h : c.processTask = some (c', fs)) :
      Ran c now answers c' fs 1
  /-- nothing to wait for, or `poll` failed -/
  | idle {c' : PollContext} (hw : Waited c c') : Ran c now answers c' [] 0
  /-- an entry was reported and its operation's work function called -/
  | dispatched {c₁ c' : PollContext} {fs : List (Frame Empty)} {i : ℕ} {sys : List SysAnswer}
      {io : IoBase} {r : SubmitResult} (htimer : c.processTimeout now = none)
      (htask : c.processTask = none) (hwait : c.wait now answers = .ok (c₁, .entry i sys))
      (hio : c₁.outstanding[i]? = some io)
      (hwork : (c₁.removeOutstanding i).work io sys = .ok (c', fs, r)) : Ran c now answers c' fs 1

theorem runOne_cases (h : c.runOne now answers = .ok (c', fs, n)) : Ran c now answers c' fs n := by
  unfold runOne at h
  split at h
  · next ht => cases h; exact .timer (.refl c) ht
  · next htimer =>
    split at h
    · next ht => cases h; exact .task ht
    next htask =>
    split_ifs at h with hidle
    · cases h; exact .idle (.refl c)
    · obtain ⟨⟨c₁, exit⟩, hwait, h⟩ := Exec.bind_eq_ok.1 h
      obtain ⟨hw, hleft⟩ := wait_spec hwait
      dsimp only at h
      split at h
      · cases h; exact .idle hw
      · next i sys =>
        obtain ⟨⟨c₂, fs'⟩, hdisp, h⟩ := Exec.bind_eq_ok.1 h
        cases h
        unfold dispatch at hdisp
        split at hdisp
        · cases hdisp
        · next io hio =>
          obtain ⟨⟨c₃, fs₃, r⟩, hwork, h⟩ := Exec.bind_eq_ok.1 hdisp
          cases h
          exact .dispatched htimer htask hwait hio hwork
      · cases h
        cases hleft with
        | timer hmem ht => exact .timer hw ht

/-- How a call of the context returns. -/
inductive Called (c : PollContext) : PollCall → PollContext → List (Frame Empty) → Prop
  | runOne {now : Time} {answers : List PollAnswer} {c' : PollContext} {fs : List (Frame Empty)}
      {n : ℕ} (h : c.runOne now answers = .ok (c', fs, n)) : Called c (.runOne now answers) c' fs
  | schedule (t : TaskId) : Called c (.schedule t) (c.schedule t) []
  | makeSocket {answer : SysAnswer} {c' : PollContext} {id : SocketId} {e : Option Errno}
      (h : c.makeSocket answer = .ok (c', id, e)) : Called c (.makeSocket answer) c' []
  | makeSocketNative {fd : Fd} {c' : PollContext} {id : SocketId}
      (h : c.makeSocketNative fd = .ok (c', id)) : Called c (.makeSocketNative fd) c' []
  | release {id : SocketId} {answer e : Option Errno} {c' : PollContext}
      (h : c.release id answer = .ok (c', e)) : Called c (.release id answer) c' []

theorem call_eq_ok {k : PollCall} (h : pollBase.call c k = .ok (c', fs)) : Called c k c' fs := by
  cases k with
  | schedule t => cases h; exact .schedule t
  | runOne now answers =>
    obtain ⟨x, hrun, heq⟩ := Exec.map_eq_ok.1 h
    cases heq
    exact .runOne hrun
  | makeSocket answer =>
    obtain ⟨x, hmake, heq⟩ := Exec.map_eq_ok.1 h
    cases heq
    exact .makeSocket hmake
  | makeSocketNative fd =>
    obtain ⟨x, hmake, heq⟩ := Exec.map_eq_ok.1 h
    cases heq
    exact .makeSocketNative hmake
  | release id answer =>
    obtain ⟨x, hrel, heq⟩ := Exec.map_eq_ok.1 h
    cases heq
    exact .release hrel

/-! ### Submission and cancellation -/

/-- Every record is blocking: nothing ever clears the flag. -/
def AllBlocking (c : PollContext) : Prop :=
  ∀ {id : SocketId} {rec : PollRecord}, c.sockets.get? id = some rec → rec.blocking = true

/-- An operation that is queued: its entry has the descriptor of its id. -/
theorem addOutstanding_eq_ok (hb : AllBlocking c)
    (h : c.addOutstanding io sys = .ok (c', fs, r)) :
    ∃ rec, c.sockets.get? io.op.id = some rec ∧
      c' = { c with
        poll := c.poll ++ [{ fd := rec.handle, events := eventMask io.op.events }]
        outstanding := c.outstanding ++ [io] } ∧ fs = [] ∧ r = .submit := by
  unfold addOutstanding at h
  split at h
  · cases h
  · next rec hrec =>
    rw [if_pos (hb hrec)] at h
    obtain ⟨c₁, hc₁, h⟩ := Exec.bind_eq_ok.1 h
    obtain ⟨fd, hfd, hc₁⟩ := Exec.bind_eq_ok.1 hc₁
    cases hc₁
    cases h
    rw [nativeHandle, hrec] at hfd
    cases hfd
    exact ⟨rec, hrec, rfl, rfl, rfl⟩

/-- `connect` succeeds at once, or the deadline has passed. -/
def Inline (io : IoBase) (req : Answers) : Prop :=
  match io.op with
  | .connect _ _ => ∃ a₁ p₁ a₂ p₂ sys, req.sys = .ok a₁ p₁ :: .ok a₂ p₂ :: sys
  | .resumeAt time => time ≤ req.now
  | _ => False

/-- How a submission returns. An operation on a socket has a live id. -/
inductive SubmittedAs (c : PollContext) (io : IoBase) (req : Answers) :
    PollContext → List (Frame Empty) → SubmitResult → Prop
  /-- a timer -/
  | timer {time : Time} (hop : io.op = .resumeAt time) (hnow : req.now < time) :
      SubmittedAs c io req { c with timeouts := Timers.insert c.timeouts io } [] .submit
  /-- a timer whose deadline has passed -/
  | due (hinline : Inline io req) : SubmittedAs c io req c [.complete io.self none] .ready
  /-- `connect` succeeded at once -/
  | connected {c' : PollContext} {rec : PollRecord} (hinline : Inline io req)
      (hrec : c.sockets.get? io.op.id = some rec) (h : Acts io (c.record io) c') :
      SubmittedAs c io req c' [.complete io.self none] .ready
  /-- `connect` failed -/
  | failed {c' : PollContext} {rec : PollRecord} (e : Error)
      (hrec : c.sockets.get? io.op.id = some rec) (h : Acts io (c.record io) c') :
      SubmittedAs c io req c' [.error io.self e] .error
  /-- the operation waits for the descriptor of its id -/
  | queued {c₁ : PollContext} {rec rec' : PollRecord} (hrec : c.sockets.get? io.op.id = some rec)
      (h : Acts io (c.record io) c₁) (hrec' : c₁.sockets.get? io.op.id = some rec') :
      SubmittedAs c io req { c₁ with
        poll := c₁.poll ++ [{ fd := rec'.handle, events := eventMask io.op.events }]
        outstanding := c₁.outstanding ++ [io] } [] .submit

theorem nativeHandle_eq_ok {id : SocketId} {fd : Fd} (h : c.nativeHandle id = .ok fd) :
    ∃ rec, c.sockets.get? id = some rec ∧ rec.handle = fd := by
  unfold nativeHandle at h
  split at h
  · next rec hrec => cases h; exact ⟨rec, hrec, rfl⟩
  · cases h

theorem AllBlocking.acts (hb : AllBlocking c) (h : Acts io (c.record io) c₁) : AllBlocking c₁ :=
  fun hr => ((worked_record.trans h.worked).records hr).elim hb fun hb => hb

theorem connect_cases {id : SocketId} {endpoint : Endpoint} (hop : io.op = .connect id endpoint)
    (hb : AllBlocking c) {req : Answers}
    (h : (c.record io).connect io endpoint req.sys = .ok (c', fs, r)) :
    SubmittedAs c io req c' fs r := by
  obtain ⟨fd, hfd, h⟩ := Exec.bind_eq_ok.1 h
  obtain ⟨rec, hrec, -⟩ := nativeHandle_eq_ok hfd
  have hlog : Acts io (c.record io) ((c.record io).logCalls 1 io .fcntl fd 0) := .single (.log hfd)
  split at h
  · cases h
  · cases h
    exact .failed _ hrec hlog
  · next a₁ p₁ sys hsys =>
    have hlog₂ : Acts io (c.record io)
        (((c.record io).logCalls 1 io .fcntl fd 0).logCalls 1 io .connect fd endpoint.size) :=
      hlog.tail (.log hfd)
    dsimp only at h
    split at h
    · cases h
    · next a₂ p₂ sys' =>
      cases h
      refine .connected ?_ hrec hlog₂
      rw [Inline, hop]
      exact ⟨a₁, p₁, a₂, p₂, sys', hsys⟩
    · split_ifs at h
      · obtain ⟨rec', hrec', rfl, rfl, rfl⟩ := addOutstanding_eq_ok (hb.acts hlog₂) h
        exact .queued hrec hlog₂ hrec'
      · cases h
        exact .failed _ hrec hlog₂

theorem submit_cases (hb : AllBlocking c) {req : Answers}
    (h : c.submit io req = .ok (c', fs, r)) : SubmittedAs c io req c' fs r := by
  have hqueued : (c.record io).addOutstanding io req.sys = .ok (c', fs, r) →
      SubmittedAs c io req c' fs r := by
    intro h
    obtain ⟨rec, hrec, rfl, rfl, rfl⟩ := addOutstanding_eq_ok (hb.acts (.refl io _)) h
    exact .queued hrec (.refl io _) hrec
  unfold submit at h
  split at h
  · next hop => exact connect_cases hop hb h
  · next time hop =>
    unfold resumeAt at h
    split_ifs at h with hnow <;> cases h
    · exact .timer hop hnow
    · refine .due ?_
      rw [Inline, hop]
      exact Int.not_lt.1 hnow
  all_goals exact hqueued h

/-- How `cancel` returns: the operation's pair, or its timer, is removed. -/
inductive CancelledFrom (c : PollContext) (io : IoBase) : PollContext → Prop
  | outstanding {i : ℕ} {io' : IoBase} (hio : c.outstanding[i]? = some io')
      (hself : io'.self = io.self) : CancelledFrom c io (c.removeOutstanding i)
  | timer {timeouts : List IoBase} (h : Timers.erase? c.timeouts io.self = some timeouts) :
      CancelledFrom c io { c with timeouts := timeouts }

theorem cancel_cases {u : Unit} (h : c.cancel io u = .ok (c', fs)) :
    CancelledFrom c io c' ∧ fs = [.cancel io.self, .cancelOp io.self] := by
  unfold cancel at h
  split at h
  · next i hi =>
    cases h
    obtain ⟨hlt, hself, -⟩ := List.findIdx?_eq_some_iff_getElem.1 hi
    exact ⟨.outstanding (List.getElem?_eq_getElem hlt) (by simpa using hself), rfl⟩
  · split at h
    · next timeouts herase => cases h; exact ⟨.timer herase, rfl⟩
    · cases h

/-- `cancel` returns exactly when the operation is pending. -/
theorem cancel_terminates {u : Unit} {e : Stuck} (h : c.cancel io u = .error e) :
    occurrences c.outstanding io.self + occurrences c.timeouts io.self = 0 := by
  unfold cancel at h
  split at h
  · cases h
  · next hout =>
    split at h
    · cases h
    · next ht =>
      have h₁ : occurrences c.outstanding io.self = 0 := by
        rw [occurrences, List.countP_eq_zero]
        simpa using List.findIdx?_eq_none_iff.1 hout
      have h₂ : occurrences c.timeouts io.self = 0 := by
        by_contra hne
        have := erase?_isSome.2 (Nat.pos_of_ne_zero hne)
        rw [ht] at this
        cases this
      rw [h₁, h₂]

end PollContext

end Net29
