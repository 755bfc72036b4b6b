import Net29.Poll.Deadlines

/-!
# Where the operations of `poll_context` stand

Unlike a phase of the ledger, where an operation stands tells which calls were made of it.

* `WorkedAs`, `CalledAs`: how a work function and a call of the context return, with the operation
  that leaves the queues;
* `Waiting`, `Over`, `Stands`: how far an operation has come.
-/

namespace Net29

open SwapRemove Machine Transition

/-- The signal that a call of an operation asks for. -/
def IoCall.signal : IoCall → Signal
  | .complete v => .setValue v
  | .error e => .setError e
  | .cancel => .setStopped

namespace PollContext

variable {c c' c₁ : PollContext} {io : IoBase} {o : OpId} {n : ℕ} {fs : List (Frame Empty)}
  {r : SubmitResult} {sys : List SysAnswer} {now : Time} {answers : List PollAnswer}
  {s : SenderState} {x : Signal}

/-! ### Calls of the context -/

/-- No socket was opened. -/
def SameSockets (c c' : PollContext) : Prop := c'.sockets = c.sockets ∧ c'.env.os = c.env.os

/-- How a work function returns. Only `accept` opens a socket, and hands it over. -/
inductive WorkedAs (c : PollContext) (io : IoBase) : PollContext → List (Frame Empty) → Prop
  | blocked {c' : PollContext} (h : SameSockets c c') : WorkedAs c io c' []
  | completed {c' : PollContext} (v : Option Value) (h : SameSockets c c')
      (hv : ∀ id peer, v ≠ some (.accepted id peer)) : WorkedAs c io c' [.complete io.self v]
  | failed {c' : PollContext} (e : Error) (h : SameSockets c c') :
      WorkedAs c io c' [.error io.self e]
  | accepted {c' : PollContext} {fd : Fd} {os : Os} {id : SocketId} (peer : Endpoint)
      (hopen : c.env.os.open fd = .ok os)
      (hins : c.sockets.insert { handle := fd } = .ok (c'.sockets, id)) (hos : c'.env.os = os) :
      WorkedAs c io c' [.complete io.self (some (.accepted id peer))]

theorem acceptWork_cases {addrlen : ℕ} (h : c.acceptWork io addrlen sys = .ok (c', fs, r)) :
    WorkedAs c io c' fs := by
  obtain ⟨fd, -, h⟩ := Exec.bind_eq_ok.1 h
  split at h
  · cases h
  · next k rc peer hsys =>
    obtain ⟨c₁, hopen, h⟩ := Exec.bind_eq_ok.1 h
    obtain ⟨⟨c₂, id⟩, hmake, h⟩ := Exec.bind_eq_ok.1 h
    cases h
    obtain ⟨os, hos, hc⟩ := Exec.bind_eq_ok.1 hopen
    cases hc
    obtain ⟨sockets, hins, rfl⟩ := makeSocketNative_eq_ok hmake
    exact .accepted _ hos hins rfl
  · split_ifs at h <;> cases h
    · exact .blocked ⟨rfl, rfl⟩
    · exact .failed _ ⟨rfl, rfl⟩

theorem connectWork_cases (h : c.connectWork io sys = .ok (c', fs, r)) : WorkedAs c io c' fs := by
  obtain ⟨fd, -, h⟩ := Exec.bind_eq_ok.1 h
  split at h
  · cases h
  · cases h; exact .failed _ ⟨rfl, rfl⟩
  · split_ifs at h <;> cases h
    · exact .completed _ ⟨rfl, rfl⟩ (by simp)
    · exact .failed _ ⟨rfl, rfl⟩

theorem transferWork_cases {call : Syscall} (h : transferWork call c io sys = .ok (c', fs, r)) :
    WorkedAs c io c' fs := by
  obtain ⟨fd, -, h⟩ := Exec.bind_eq_ok.1 h
  split at h
  · cases h
  · dsimp only at h
    split at h
    · cases h; exact .completed _ ⟨rfl, rfl⟩ (by simp)
    · split_ifs at h <;> cases h
      · exact .completed _ ⟨rfl, rfl⟩ (by simp)
      · exact .blocked ⟨rfl, rfl⟩
      · exact .failed _ ⟨rfl, rfl⟩

theorem work_cases (h : c.work io sys = .ok (c', fs, r)) : WorkedAs c io c' fs := by
  unfold work at h
  split at h
  · cases h; exact .completed _ ⟨rfl, rfl⟩ (by simp)
  · exact acceptWork_cases h
  · exact connectWork_cases h
  · exact transferWork_cases h
  · exact transferWork_cases h
  · cases h

/-- A call that a work function makes. -/
inductive Notice (o : OpId) : Frame Empty → Prop
  | complete (v : Option Value) : Notice o (.complete o v)
  | error (e : Error) : Notice o (.error o e)

theorem WorkedAs.frames (h : WorkedAs c io c' fs) : fs = [] ∨ ∃ f, Notice io.self f ∧ fs = [f] := by
  cases h with
  | blocked => exact .inl rfl
  | completed v => exact .inr ⟨_, .complete v, rfl⟩
  | failed e => exact .inr ⟨_, .error e, rfl⟩
  | accepted => exact .inr ⟨_, .complete _, rfl⟩

/-- How a call of the context returns: at most one operation leaves the queues. -/
inductive CalledAs (c : PollContext) : PollContext → List (Frame Empty) → Prop
  | kept {c' : PollContext} (hout : c'.outstanding = c.outstanding)
      (htimeouts : c'.timeouts = c.timeouts) : CalledAs c c' []
  | task {c' : PollContext} (t : TaskId) (hout : c'.outstanding = c.outstanding)
      (htimeouts : c'.timeouts = c.timeouts) : CalledAs c c' [.task t]
  | timer {c' : PollContext} {io : IoBase} (hout : c'.outstanding = c.outstanding)
      (htimeouts : c.timeouts = io :: c'.timeouts) : CalledAs c c' [.complete io.self none]
  /-- a work function was called -/
  | entry {c' : PollContext} {io : IoBase} {fs : List (Frame Empty)}
      (hout : c.outstanding.Perm (io :: c'.outstanding)) (htimeouts : c'.timeouts = c.timeouts)
      (hfs : fs = [] ∨ ∃ f, Notice io.self f ∧ fs = [f]) : CalledAs c c' fs

theorem runOne_calledAs (ha : Aligned c) (h : c.runOne now answers = .ok (c', fs, n)) :
    CalledAs c c' fs := by
  cases runOne_cases h with
  | timer hw ht =>
    obtain ⟨io, timeouts, hl, -, rfl, rfl⟩ := processTimeout_eq_some ht
    exact .timer hw.outstanding (hw.timeouts ▸ hl)
  | task ht =>
    obtain ⟨t, tasks, -, rfl, rfl⟩ := processTask_eq_some ht
    exact .task t rfl rfl
  | idle hw => exact .kept hw.outstanding hw.timeouts
  | @dispatched c₁ _ _ i sys io _ _ _ hwait hio hwork =>
    have hw := (wait_spec hwait).1
    have hworked := (work_spec hwork).1.worked
    obtain ⟨hlt, hget⟩ := List.getElem?_eq_some_iff.1 hio
    have hout : c.outstanding.Perm (io :: c'.outstanding) := by
      rw [hworked.outstanding, outstanding_removeOutstanding (hw.matches ha).length,
        ← hw.outstanding, ← hget]
      exact perm_cons_swapRemove c₁.outstanding hlt
    refine .entry hout ?_ (work_cases hwork).frames
    rw [hworked.timeouts, timeouts_removeOutstanding, hw.timeouts]

theorem call_calledAs {k : PollCall} (ha : Aligned c) (h : pollBase.call c k = .ok (c', fs)) :
    CalledAs c c' fs := by
  cases call_cases h with
  | runOne hrun => exact runOne_calledAs ha hrun
  | schedule t => exact .kept rfl rfl
  | socket hw => exact .kept hw.outstanding hw.timeouts

theorem CalledAs.outstanding (h : CalledAs c c' fs) : c'.outstanding ⊆ c.outstanding := by
  cases h with
  | kept hout => rw [hout]; exact List.Subset.refl _
  | task t hout => rw [hout]; exact List.Subset.refl _
  | timer hout => rw [hout]; exact List.Subset.refl _
  | entry hout => exact fun io hio => hout.mem_iff.2 (List.mem_cons_of_mem _ hio)

theorem CalledAs.timeouts (h : CalledAs c c' fs) : c'.timeouts ⊆ c.timeouts := by
  cases h with
  | kept _ ht => rw [ht]; exact List.Subset.refl _
  | task t _ ht => rw [ht]; exact List.Subset.refl _
  | timer _ ht => rw [ht]; exact List.subset_cons_self _ _
  | entry _ ht => rw [ht]; exact List.Subset.refl _

/-- An operation left the queues, and no other is called. Of a timer only `complete` is. -/
structure LeavesQueues (c c' : PollContext) (io : IoBase) (fs : List (Frame Empty)) : Prop where
  mem : io ∈ c.outstanding ∨ io ∈ c.timeouts
  held : ∀ o, c.held o = c'.held o + if io.self = o then 1 else 0
  called : fs = [] ∨ ∃ f, Notice io.self f ∧ fs = [f]
  queued : (∀ v, fs ≠ [.complete io.self v]) → io ∈ c.outstanding

theorem CalledAs.held (h : CalledAs c c' fs) :
    ((∀ o, c'.held o = c.held o) ∧ (fs = [] ∨ ∃ t, fs = [.task t])) ∨
      ∃ io, LeavesQueues c c' io fs := by
  cases h with
  | kept hout ht => exact .inl ⟨fun o => by rw [PollContext.held, hout, ht]; rfl, .inl rfl⟩
  | task t hout ht =>
    exact .inl ⟨fun o => by rw [PollContext.held, hout, ht]; rfl, .inr ⟨t, rfl⟩⟩
  | @timer io hout ht =>
    refine .inr ⟨io, .inr (ht ▸ List.mem_cons_self), fun o => ?_, .inr ⟨_, .complete none, rfl⟩,
      fun hne => absurd rfl (hne none)⟩
    rw [PollContext.held, PollContext.held, hout, ht, occurrences_cons, Nat.add_assoc]
  | @entry io _ hout ht hfs =>
    have hmem : io ∈ c.outstanding := hout.mem_iff.2 List.mem_cons_self
    refine .inr ⟨io, .inl hmem, fun o => ?_, hfs, fun _ => hmem⟩
    rw [PollContext.held, PollContext.held, ht, occurrences_perm hout, occurrences_cons]
    omega

/-- The operation that is called has left the queues. -/
theorem CalledAs.leaves {f : Frame Empty} (h : CalledAs c c' [f]) (hf : Notice o f) :
    ∃ io, io.self = o ∧ LeavesQueues c c' io [f] := by
  rcases h.held with ⟨-, hfs | ⟨t, hfs⟩⟩ | ⟨io, hleaves⟩
  · cases hfs
  · cases hfs; cases hf
  · refine ⟨io, ?_, hleaves⟩
    rcases hleaves.called with hfs | ⟨f', hf', hfs⟩
    · cases hfs
    · cases hfs
      cases hf <;> cases hf' <;> rfl

/-- A timer is not put in the vectors, and does not fail. -/
theorem submit_timer {time : Time} (hop : io.op = .resumeAt time) {req : Answers}
    (h : c.submit io req = .ok (c', fs, r)) : c'.outstanding = c.outstanding ∧ r ≠ .error := by
  unfold submit at h
  rw [hop] at h
  dsimp only at h
  unfold resumeAt at h
  split_ifs at h <;> cases h
  · exact ⟨rfl, by simp⟩
  · exact ⟨rfl, by simp⟩

theorem submit_failed {req : Answers} (h : c.submit io req = .ok (c', fs, .error)) :
    io.op.onSocket = true := by
  cases hop : io.op with
  | resumeAt time => exact absurd rfl (submit_timer hop h).2
  | _ => rfl

/-- Which queue an operation that waits is put in. -/
theorem submit_mem (hb : AllBlocking c) {req : Answers} (h : c.submit io req = .ok (c', fs, r))
    {io' : IoBase} :
    (io' ∈ c'.outstanding → io' ∈ c.outstanding ∨ io' = io ∧ io.op.onSocket = true) ∧
      (io' ∈ c'.timeouts → io' ∈ c.timeouts ∨ io' = io ∧ io.op.onSocket = false) := by
  have hworked : ∀ {c₁ : PollContext}, Acts io (c.record io) c₁ →
      c₁.outstanding = c.outstanding ∧ c₁.timeouts = c.timeouts := fun hacts =>
    ⟨hacts.worked.outstanding, hacts.worked.timeouts⟩
  cases submit_cases hb h with
  | timer hop =>
    refine ⟨.inl, fun hmem => ?_⟩
    rcases (List.mem_orderedInsert (r := fun a b : IoBase => a.deadline ≤ b.deadline)).1 hmem with
      rfl | hmem
    · exact .inr ⟨rfl, by rw [hop]; rfl⟩
    · exact .inl hmem
  | due => exact ⟨.inl, .inl⟩
  | connected _ _ hacts =>
    rw [(hworked hacts).1, (hworked hacts).2]
    exact ⟨.inl, .inl⟩
  | failed _ _ hacts =>
    rw [(hworked hacts).1, (hworked hacts).2]
    exact ⟨.inl, .inl⟩
  | queued hrec hacts hrec' =>
    dsimp only
    rw [(hworked hacts).1, (hworked hacts).2]
    refine ⟨fun hmem => (List.mem_append.1 hmem).imp_right fun he => ?_, .inl⟩
    refine ⟨List.mem_singleton.1 he, ?_⟩
    cases hop : io.op with
    | resumeAt time =>
      have hlen := congrArg List.length (submit_timer hop h).1
      simp [(hworked hacts).1] at hlen
    | _ => rfl

/-! ### Where an operation stands -/

/-- Started, and nothing was called. -/
structure Waiting (s : SenderState) : Prop where
  started : s.log ≠ []
  signals : s.signals = []
  calls : s.calls = []
  outstanding : s.outstanding = 1
  callback : s.callback = .registered

/-- Signalled `x`: every call asked for that. A timer does not fail. -/
structure Over (s : SenderState) (x : Signal) : Prop where
  started : s.log ≠ []
  signals : s.signals = [x]
  called : s.calls ≠ []
  calls : ∀ call ∈ s.calls, call.signal = x
  value : ∀ v, x = .setValue v → s.value = v
  outstanding : s.outstanding ≤ 0
  callback : s.callback ≠ .registered
  fails : ∀ e, x = .setError e → s.op.onSocket = true

/-- The operation after its submission. -/
def begun (op : Operation) (r : SubmitResult) : SenderState :=
  { SenderState.begin {} op false with log := [.submitted r, .started false] }

theorem waiting_begun (op : Operation) (r : SubmitResult) : Waiting (begun op r) :=
  ⟨by simp [begun], rfl, rfl, rfl, rfl⟩

/-- The operation after its cancellation. -/
def stopped (s : SenderState) : SenderState :=
  { s with
    callback := .invoked, outstanding := 0,
    log := .signal .setStopped :: .counted :: .called .cancel :: .cancelAsked true :: .counted ::
      s.log }

theorem Waiting.over_stopped (h : Waiting s) : Over (stopped s) .setStopped := by
  have hsignals : (stopped s).signals = [.setStopped] :=
    congrArg (List.cons Signal.setStopped) h.signals
  have hcalls : (stopped s).calls = [.cancel] := congrArg (List.cons IoCall.cancel) h.calls
  refine ⟨by simp [stopped], hsignals, by simp [hcalls], fun call hcall => ?_, fun v hv => ?_,
    Int.le_refl 0, by simp [stopped], fun e he => by cases he⟩
  · rw [hcalls] at hcall
    rw [List.mem_singleton.1 hcall]
    rfl
  · cases hv

/-- The operation after the call that signals its receiver. -/
def finished (s : SenderState) (call : IoCall) (value : Value) : SenderState :=
  { s with
    value := value, outstanding := 0, callback := .none,
    log := .signal call.signal :: .called call :: s.log }

/-- The first call of an operation that waits signals its receiver. -/
theorem Waiting.over_finished (h : Waiting s) (call : IoCall) (value : Value)
    (hvalue : ∀ v, call.signal = .setValue v → value = v)
    (hfails : ∀ e, call.signal = .setError e → s.op.onSocket = true) :
    Over (finished s call value) call.signal := by
  have hsignals : (finished s call value).signals = [call.signal] :=
    congrArg (List.cons call.signal) h.signals
  have hcalls : (finished s call value).calls = [call] := congrArg (List.cons call) h.calls
  refine ⟨by simp [finished], hsignals, by simp [hcalls], fun call' hcall' => ?_, hvalue,
    Int.le_refl 0, by simp [finished], hfails⟩
  rw [hcalls] at hcall'
  rw [List.mem_singleton.1 hcall']

theorem Waiting.complete (h : Waiting s) (v : Option Value) :
    Over (s.complete v).1 (.setValue (v.getD s.value)) ∧ (s.complete v).2 = true := by
  rw [SenderState.complete_last h.outstanding]
  exact ⟨h.over_finished (.complete (v.getD s.value)) _ (fun w hw => Signal.setValue.inj hw)
    (fun e he => by cases he), rfl⟩

theorem Waiting.error_signals (h : Waiting s) (e : Error) : (s.error e).2 = true :=
  (SenderState.countDown_signals _ _ _ _).2 h.outstanding

theorem Waiting.error (h : Waiting s) (hop : s.op.onSocket = true) (e : Error) :
    Over (s.error e).1 (.setError e) := by
  rw [SenderState.error, SenderState.countDown_last h.outstanding]
  exact h.over_finished (.error e) s.value (fun w hw => by cases hw) fun _ _ => hop

/-- `complete` is called once more: nothing is signalled. -/
theorem Over.complete {v : Value} (h : Over s (.setValue v)) :
    Over (s.complete none).1 (.setValue v) ∧ (s.complete none).2 = false := by
  have hout := h.outstanding
  have hvalue := h.value v rfl
  rw [SenderState.complete_not_last (by omega)]
  refine ⟨⟨by simp, h.signals, ?_, fun call hcall => ?_, h.value, ?_, h.callback,
    h.fails⟩, rfl⟩
  · simp [SenderState.calls, OpEvent.call?]
  · simp only [SenderState.calls, OpEvent.call?, List.filterMap_cons, List.mem_cons] at hcall
    rcases hcall with rfl | hcall
    · simp [IoCall.signal, hvalue]
    · exact h.calls call hcall
  · show s.outstanding - 1 ≤ 0
    omega

/-- How far an operation has come, and how often it is in the queues. -/
inductive Stands (s : SenderState) : ℕ → Prop
  | idle (hs : s = {}) : Stands s 0
  | waiting (h : Waiting s) : Stands s 1
  /-- its work function was answered `EWOULDBLOCK` -/
  | lost (h : Waiting s) (hop : s.op.onSocket = true) : Stands s 0
  | ended {x : Signal} (h : Over s x) : Stands s 0

theorem Stands.idle_of_log {k : ℕ} (h : Stands s k) (hlog : s.log = []) : s = {} ∧ k = 0 := by
  cases h with
  | idle hs => exact ⟨hs, rfl⟩
  | waiting h => exact absurd hlog h.started
  | lost h => exact absurd hlog h.started
  | ended h => exact absurd hlog h.started

/-- An operation in the queues waits, and is there once. -/
theorem Stands.waiting_of_pos {k : ℕ} (h : Stands s k) (hk : 0 < k) : Waiting s ∧ k = 1 := by
  cases h with
  | waiting h => exact ⟨h, rfl⟩
  | idle => exact absurd hk (Nat.lt_irrefl 0)
  | lost => exact absurd hk (Nat.lt_irrefl 0)
  | ended => exact absurd hk (Nat.lt_irrefl 0)

theorem Stands.waiting_of_registered {k : ℕ} (h : Stands s k) (hcb : s.callback = .registered) :
    Waiting s := by
  cases h with
  | waiting h => exact h
  | lost h => exact h
  | idle hs => rw [hs] at hcb; cases hcb
  | ended h => exact absurd hcb h.callback

end PollContext

end Net29
