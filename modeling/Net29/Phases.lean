import Net29.Steps

/-!
# Phases of an operation

The account of one operation: what it is owed, and how far its `sender_state` has come. A context
owes an operation it has accepted one call of `complete`, `error` or `cancel` (`held`), and a cancel
request it has accepted one call of the `cancel_callback` (`asked`).

* `Submitted`, `Cancelled`, `Moved`: how a call of a context moves these debts;
* `Phase`: an operation is idle, live, done, or was refused at its start, and in each phase its
  counter is tied to what it is owed;
* `Safe`: what follows for the receiver, the memory of the operation and the cancel requests.

A context may drop an operation, and it may complete one before `submit` returns. The parameters
`exact` and `clean` of `Phase` say that no step does the former and no start the latter.
-/

namespace Net29

open Machine

variable {C R A K T : Type}

/-- No frame is about the operation. -/
def Silent (o : OpId) (fs : List (Frame T)) : Prop := ∀ f ∈ fs, f.target ≠ some o

/-- A call of `complete`, `error` or `cancel` of the operation. -/
inductive Notifies (o : OpId) : Frame T → Prop
  | complete (v : Option Value) : Notifies o (.complete o v)
  | error (e : Error) : Notifies o (.error o e)
  | cancel : Notifies o (.cancel o)

theorem exec_of_notifies {B : ContextBase C R A K T} {m : Machine C T} {o : OpId} {f : Frame T}
    (h : Notifies o f) : (m.exec B f).2 = true ↔ (m.ops o).outstanding = 1 := by
  cases h <;> exact SenderState.countDown_signals _ _ _ _

/-- How a submission returns: the operation is owed a call, or has had it, or needs none. -/
inductive Submitted (inline : Prop) (held' : ℕ) (o : OpId) : List (Frame T) → SubmitResult → Prop
  | queued (h : held' = 1) : Submitted inline held' o [] .submit
  | ready (h : held' = 0) : Submitted inline held' o [] .ready
  | complete (v : Option Value) (hi : inline) (h : held' = 0) :
      Submitted inline held' o [.complete o v] .ready
  | error (e : Error) (h : held' = 0) : Submitted inline held' o [.error o e] .error

/-- How a cancel request is taken: at once, with the operation still owed its call, or as a request
that will be answered. -/
inductive Cancelled (held held' asked' : ℕ) (o : OpId) : List (Frame T) → Prop
  | now (h : held = held' + 1) (ha : asked' = 0) :
      Cancelled held held' asked' o [.cancel o, .cancelOp o]
  | later (h : held' = held) (ha : asked' = 0) : Cancelled held held' asked' o [.cancelOp o]
  | request (h : held' = held) (ha : asked' = 1) : Cancelled held held' asked' o []

/-- What any other call can mean for one operation. -/
inductive Moved (drops : Prop) (held held' asked asked' : ℕ) (o : OpId) : List (Frame T) → Prop
  | silent (fs : List (Frame T)) (hs : Silent o fs) (ha : asked' = asked)
      (h : held' = held ∨ drops ∧ held' ≤ held) : Moved drops held held' asked asked' o fs
  | notified (f : Frame T) (fs : List (Frame T)) (hf : Notifies o f) (hs : Silent o fs)
      (ha : asked' = asked) (h : held = held' + 1) : Moved drops held held' asked asked' o (f :: fs)
  | answered (fs : List (Frame T)) (hs : Silent o fs) (ha : asked = asked' + 1)
      (h : held' = held) : Moved drops held held' asked asked' o (.cancelOp o :: fs)

/-! ### Phases of an operation -/

/-- Started, with a token that was not stopped. -/
def Begun (log : List OpEvent) : Prop := .started false ∈ log ∧ .started true ∉ log

theorem Begun.cons {log : List OpEvent} {e : OpEvent} (h : Begun log) (he : ∀ b, e ≠ .started b) :
    Begun (e :: log) :=
  ⟨List.mem_cons_of_mem _ h.1, fun hm => by
    rcases List.mem_cons.1 hm with hm | hm
    · exact he true hm.symm
    · exact h.2 hm⟩

/-- Every cancel request found the operation pending. -/
def AskedWhilePending (s : SenderState) : Prop := ∀ b, .cancelAsked b ∈ s.log → b = true

/-- Nothing happened to the operation state after its receiver was signalled. -/
def UnusedAfterSignal (s : SenderState) : Prop := ∀ x, .signal x ∉ s.log.tail

/-- Started, not signalled: the counter covers all that the operation is owed. -/
structure Live (exact : Prop) (s : SenderState) (held asked : ℕ) : Prop where
  begun : Begun s.log
  signals : s.signals = []
  pos : 1 ≤ s.outstanding
  owed : (held + asked : ℤ) ≤ s.outstanding
  once : held + s.calls.length ≤ 1
  balance : exact → (held + asked : ℤ) = s.outstanding ∧ held + s.calls.length = 1
  callback : s.callback = .registered ∧ s.outstanding = 1 ∧ asked = 0 ∧ s.calls = [] ∨
    s.callback = .invoked
  asks : exact → AskedWhilePending s

/-- Signalled: nothing is owed any more. `quiet` says that no interrupted call will use the
operation; where one will, the counter can only go below zero. -/
structure Done (exact clean : Prop) (s : SenderState) (held asked : ℕ) (quiet : Prop) : Prop where
  begun : Begun s.log
  signals : s.signals.length = 1
  held : held = 0
  asked : asked = 0
  called : exact → s.calls ≠ []
  rest : s.callback = .registered ∧ s.outstanding = 0 ∧ quiet ∨
    s.callback ≠ .registered ∧ (s.outstanding ≤ 0 ∨ quiet)
  unused : clean → quiet ∧ UnusedAfterSignal s
  asks : exact → AskedWhilePending s

/-- Started with a stopped token: the context was asked to cancel it, and it is never submitted. -/
structure Refused (s : SenderState) : Prop where
  started : .started true ∈ s.log
  asked : .cancelAsked false ∈ s.log
  submitted : ∀ r, .submitted r ∉ s.log
  callback : s.callback ≠ .registered

/-- The phases of an operation. -/
inductive Phase (exact clean : Prop) (s : SenderState) (held asked : ℕ) (quiet : Prop) : Prop
  | idle (hs : s = {}) (hheld : held = 0) (hasked : asked = 0) (hq : quiet) :
      Phase exact clean s held asked quiet
  | live (h : Live exact s held asked) (hq : quiet) : Phase exact clean s held asked quiet
  | done (h : Done exact clean s held asked quiet) : Phase exact clean s held asked quiet
  | refused (h : Refused s) (hheld : held = 0) : Phase exact clean s held asked quiet

section Calls

variable {exact clean quiet quiet' : Prop} {s s' : SenderState} {held held' asked asked' : ℕ}

/-- `Live` does not look at the operation's data. -/
theorem Live.congr (h : Live exact s held asked) (hlog : s'.log = s.log)
    (hout : s'.outstanding = s.outstanding) (hcb : s'.callback = s.callback) :
    Live exact s' held asked := by
  have hsig : s'.signals = s.signals := by simp only [SenderState.signals, hlog]
  have hcalls : s'.calls = s.calls := by simp only [SenderState.calls, hlog]
  constructor
  · rw [hlog]; exact h.begun
  · rw [hsig]; exact h.signals
  · rw [hout]; exact h.pos
  · rw [hout]; exact h.owed
  · rw [hcalls]; exact h.once
  · rw [hout, hcalls]; exact h.balance
  · rw [hout, hcalls, hcb]; exact h.callback
  · intro he b hb; exact h.asks he b (hlog ▸ hb)

/-- A call that was owed, recorded as `e`: the operation's own (`held`) or the answer to its cancel
request (`asked`). -/
inductive Paid (e : OpEvent) (held held' asked asked' : ℕ) : Prop
  | called (c : IoCall) (he : e = .called c) (h : held = held' + 1) (ha : asked = asked')
  | answered (he : e = .counted) (h : held = held') (ha : asked = asked' + 1)

theorem Paid.ne_started {e : OpEvent} (h : Paid e held held' asked asked') (b : Bool) :
    e ≠ .started b := by
  cases h with
  | called c he => simp [he]
  | answered he => simp [he]

/-- Being paid is no signal. -/
theorem Paid.signals_cons {e : OpEvent} (h : Paid e held held' asked asked') (s : SenderState) :
    SenderState.signals { s with log := e :: s.log } = s.signals := by
  cases h with
  | called c he => subst he; rfl
  | answered he => subst he; rfl

/-- Being paid is no cancel request. -/
theorem Paid.asked_of_cons {e : OpEvent} (h : Paid e held held' asked asked') {s : SenderState}
    {b : Bool} (hb : .cancelAsked b ∈ e :: s.log) : .cancelAsked b ∈ s.log := by
  cases h with
  | called c he => subst he; simpa using hb
  | answered he => subst he; simpa using hb

/-- A call that was owed and is not the last leaves the operation alive. -/
theorem Live.not_last (h : Live exact s held asked) {e : OpEvent}
    (hpaid : Paid e held held' asked asked') (hlast : s.outstanding ≠ 1) (reset : Bool)
    (x : Signal) : Live exact (s.countDown e reset x).1 held' asked' := by
  rw [SenderState.countDown_not_last hlast]
  have hpos := h.pos
  have howed := h.owed
  have honce := h.once
  have hcb : s.callback = .invoked := h.callback.resolve_left fun hr => hlast hr.2.1
  have hmove : held + asked = held' + asked' + 1 ∧
      held' + (SenderState.calls { s with log := e :: s.log }).length = held + s.calls.length := by
    cases hpaid with
    | called c he =>
      subst he
      simp only [SenderState.calls, List.filterMap_cons, OpEvent.call?, List.length_cons]
      omega
    | answered he =>
      subst he
      simp only [SenderState.calls, List.filterMap_cons, OpEvent.call?]
      omega
  exact {
    begun := h.begun.cons hpaid.ne_started
    signals := (hpaid.signals_cons s).trans h.signals
    pos := by show (1 : ℤ) ≤ s.outstanding - 1; omega
    owed := by show (held' + asked' : ℤ) ≤ s.outstanding - 1; omega
    once := by rw [← hmove.2] at honce; exact honce
    balance := fun he =>
      ⟨by have := (h.balance he).1; show (held' + asked' : ℤ) = s.outstanding - 1; omega,
        hmove.2.trans (h.balance he).2⟩
    callback := .inr hcb
    asks := fun he b hb => h.asks he b (hpaid.asked_of_cons hb) }

/-- A call that was owed and is the last signals the receiver, and nothing is owed any more. If an
interrupted call will use the operation again, the callback has to be reset. -/
theorem Live.last (h : Live exact s held asked) {e : OpEvent}
    (hpaid : Paid e held held' asked asked') (hlast : s.outstanding = 1) {reset : Bool}
    (hq : quiet ∨ ¬ clean ∧ reset = true) (x : Signal) :
    Done exact clean (s.countDown e reset x).1 held' asked' quiet := by
  rw [SenderState.countDown_last hlast]
  have howed := h.owed
  have hmove : held + asked = held' + asked' + 1 := by cases hpaid <;> omega
  have hsig := hpaid.signals_cons s
  refine ⟨(h.begun.cons hpaid.ne_started).cons (by simp), ?_, by omega, by omega, fun he => ?_, ?_,
    fun hc => ⟨hq.resolve_right fun hr => hr.1 hc, ?_⟩, fun he b hb => ?_⟩
  · have hnil : List.filterMap OpEvent.signal? (e :: s.log) = [] := hsig.trans h.signals
    simp [SenderState.signals, OpEvent.signal?, hnil]
  · cases hpaid with
    | called c hc => subst hc; simp [SenderState.calls, OpEvent.call?]
    | answered hc =>
      subst hc
      have hbal := h.balance he
      intro hnil
      have hnil' : s.calls = [] := hnil
      rw [hnil', List.length_nil] at hbal
      omega
  · rcases h.callback with ⟨hcb, -⟩ | hcb
    · cases reset
      · exact .inl ⟨hcb, rfl, hq.resolve_right (by simp)⟩
      · exact .inr ⟨by simp, .inl (Int.le_refl 0)⟩
    · exact .inr ⟨by cases reset <;> simp [hcb], .inl (Int.le_refl 0)⟩
  · intro y hy
    have hy' : y ∈ SenderState.signals { s with log := e :: s.log } := SenderState.mem_signals.2 hy
    rw [hsig, h.signals] at hy'
    cases hy'
  · exact h.asks he b (hpaid.asked_of_cons (by simpa using hb))

/-- A call that was owed leaves the operation alive or signals its receiver. -/
theorem Live.paid (h : Live exact s held asked) {e : OpEvent}
    (hpaid : Paid e held held' asked asked') (hq : quiet) (reset : Bool) (x : Signal) :
    Phase exact clean (s.countDown e reset x).1 held' asked' quiet := by
  by_cases hlast : s.outstanding = 1
  · exact .done (h.last hpaid hlast (.inl hq) x)
  · exact .live (h.not_last hpaid hlast reset x) hq

/-- A call that was not owed, on an operation that is done: the counter goes below zero. -/
theorem Done.spent (h : Done exact clean s 0 0 quiet') (hclean : ¬ clean)
    (hout : s.outstanding ≤ 0) (hcb : s.callback ≠ .registered) {e : OpEvent}
    (he : (∃ c, e = .called c) ∨ e = .counted) (reset : Bool) (x : Signal) :
    (s.countDown e reset x).2 = false ∧ (s.countDown e reset x).1.outstanding ≤ 0 ∧
      (s.countDown e reset x).1.callback ≠ .registered ∧
      Done exact clean (s.countDown e reset x).1 0 0 quiet := by
  rw [SenderState.countDown_not_last (by omega)]
  have hout' : s.outstanding - 1 ≤ 0 := by omega
  have hne : ∀ b, e ≠ .started b := by
    rcases he with ⟨c, rfl⟩ | rfl <;> simp
  refine ⟨rfl, hout', hcb, h.begun.cons hne, ?_, rfl, rfl, fun hx => ?_,
    .inr ⟨hcb, .inl hout'⟩, fun hc => absurd hc hclean, fun hx b hb => ?_⟩
  · have hsig := h.signals
    rcases he with ⟨c, rfl⟩ | rfl <;>
      simpa [SenderState.signals, List.filterMap_cons, OpEvent.signal?] using hsig
  · have hcalls := h.called hx
    rcases he with ⟨c, rfl⟩ | rfl
    · simp [SenderState.calls, OpEvent.call?]
    · simpa [SenderState.calls, OpEvent.call?] using hcalls
  · refine h.asks hx b ?_
    rcases he with ⟨c, rfl⟩ | rfl <;> simpa using hb

/-- While its callback is registered, a live operation is owed its call and nothing else. -/
theorem Live.registered (h : Live exact s held asked) (hcb : s.callback = .registered) :
    s.outstanding = 1 ∧ asked = 0 ∧ s.calls = [] ∧ (exact → held = 1) := by
  obtain ⟨-, hone, hasked, hcalls⟩ := h.callback.resolve_right (by simp [hcb])
  refine ⟨hone, hasked, hcalls, fun he => ?_⟩
  have hbal := (h.balance he).2
  rw [hcalls, List.length_nil] at hbal
  exact hbal

/-- The stop callback asks the context to cancel: from then on an answer is owed. -/
theorem Live.asking (h : Live exact s held asked) (hcb : s.callback = .registered) {pending : Bool}
    (hp : exact → pending = true) :
    s.outstanding = 1 ∧ asked = 0 ∧
      Live exact { s.invoke with log := .cancelAsked pending :: s.invoke.log } held 1 := by
  obtain ⟨hone, hasked, -, hheld⟩ := h.registered hcb
  have honce := h.once
  refine ⟨hone, hasked, ?_⟩
  exact {
    begun := (h.begun.cons (by simp)).cons (by simp)
    signals := h.signals
    pos := by simp [SenderState.invoke, hone]
    owed := by
      show (held + (1 : ℕ) : ℤ) ≤ s.outstanding + 1
      omega
    once := honce
    balance := fun he => by
      refine ⟨?_, (h.balance he).2⟩
      show (held + (1 : ℕ) : ℤ) = s.outstanding + 1
      rw [hone, hheld he]
      rfl
    callback := .inr rfl
    asks := fun he b hb => by
      rcases List.mem_cons.1 hb with hb | hb
      · cases hb; exact hp he
      · exact h.asks he b (by simpa [SenderState.invoke] using hb) }

end Calls

/-- What the receiver of an operation, its memory and the context can rely on, whatever happens:
at most one signal; no use of the operation after it, if `clean`; cancel requests for pending
operations only, if `exact`. For an operation started with a stopped token the last is false. -/
def Safe (exact clean : Prop) (s : SenderState) : Prop :=
  .started true ∈ s.log ∧ .cancelAsked false ∈ s.log ∨
    .started true ∉ s.log ∧ s.signals.length ≤ 1 ∧ (clean → UnusedAfterSignal s) ∧
      (exact → AskedWhilePending s)

theorem Phase.safe {exact clean quiet : Prop} {s : SenderState} {held asked : ℕ}
    (h : Phase exact clean s held asked quiet) : Safe exact clean s := by
  cases h with
  | idle hs =>
    subst hs
    exact .inr ⟨by simp, Nat.zero_le 1, (fun _ _ hx => by cases hx), fun _ _ hb => by cases hb⟩
  | live h =>
    refine .inr ⟨h.begun.2, by simp [h.signals], fun _ x hx => ?_, h.asks⟩
    have hmem := SenderState.mem_signals.2 (List.mem_of_mem_tail hx)
    rw [h.signals] at hmem
    cases hmem
  | done h => exact .inr ⟨h.begun.2, Nat.le_of_eq h.signals, fun hc => (h.unused hc).2, h.asks⟩
  | refused h _ => exact .inl ⟨h.started, h.asked⟩

/-- An operation is never owed two calls. -/
theorem Phase.held_le_one {exact clean quiet : Prop} {s : SenderState} {held asked : ℕ}
    (h : Phase exact clean s held asked quiet) : held ≤ 1 := by
  cases h with
  | idle _ hheld => omega
  | live h => exact Nat.le_trans (Nat.le_add_right _ _) h.once
  | done h => have := h.held; omega
  | refused _ hheld => omega

end Net29
