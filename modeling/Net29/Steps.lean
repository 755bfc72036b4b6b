import Net29.Sender

/-!
# What a step of the machine can do

The inversion lemmas for calls and steps that every invariant is derived from, whatever the context.

* `exec_of_target`: what a call does to the operation it is about; others it leaves alone;
* `signals_of_countDown`: the signal that the last call an operation is owed sends;
* `perform_eq_some`, `start_eq_some`, `step_start`, `step_stop`, …: what a step of each label is;
* `Kept`: what calls leave alone in an operation state;
* `Entry`, `CtxStep`: which calls a step makes, and how it changes the context;
* `SenderState.Prepared`: until it is completed an operation has the result it was filled in with.
-/

namespace Net29
namespace Machine

variable {C R A K T : Type}

/-! ### Making calls -/

variable {B : ContextBase C R A K T} {m : Machine C T} {f : Frame T} {fs : List (Frame T)}

@[simp] theorem runFrames_nil : m.runFrames B [] = m := rfl

theorem runFrames_cons_of_user (h : (m.exec B f).2 = true) :
    m.runFrames B (f :: fs) = { (m.exec B f).1 with stack := fs :: (m.exec B f).1.stack } := by
  rw [runFrames, if_pos h]

theorem runFrames_cons_of_silent (h : (m.exec B f).2 = false) :
    m.runFrames B (f :: fs) = (m.exec B f).1.runFrames B fs := by
  rw [runFrames, if_neg (by simp [h])]

/-- A call that is not about `o` leaves its state alone. -/
theorem exec_ops_of_ne {o : OpId} (h : f.target ≠ some o) : (m.exec B f).1.ops o = m.ops o := by
  have hne : ∀ {o' : OpId}, f.target = some o' → o ≠ o' := by
    rintro o' h' rfl
    exact h h'
  cases f with
  | complete o' v => exact set_ops_of_ne _ _ (hne rfl)
  | error o' e => exact set_ops_of_ne _ _ (hne rfl)
  | cancel o' => exact set_ops_of_ne _ _ (hne rfl)
  | cancelOp o' =>
    rw [exec]
    split_ifs
    · rfl
    · exact set_ops_of_ne _ _ (hne rfl)
  | stopAtStart o' => exact set_ops_of_ne _ _ (hne rfl)
  | task t => rfl
  | tail t => rfl

@[simp] theorem exec_stack : (m.exec B f).1.stack = m.stack := by
  cases f with
  | cancelOp o =>
    rw [exec]
    split_ifs <;> rfl
  | _ => rfl

/-- The operation state a call about `o` counts down, and what is recorded: at most the result or
the callback object is changed before. -/
theorem exec_of_target {o : OpId} (h : f.target = some o) :
    (∃ (s : SenderState) (e : OpEvent) (reset : Bool) (x : Signal),
      s.log = (m.ops o).log ∧ s.outstanding = (m.ops o).outstanding ∧
      (s.callback = (m.ops o).callback ∨ s.callback = .none) ∧
      s.upstream = (m.ops o).upstream ∧ ((∃ c, e = .called c) ∨ e = .counted) ∧
      m.exec B f = (m.set o (s.countDown e reset x).1, (s.countDown e reset x).2)) ∨
    m.exec B f = ({ m with status := some .undefined }, true) := by
  cases f with
  | complete o' v =>
    cases h
    exact .inl ⟨{ m.ops o with value := v.getD (m.ops o).value }, _, _, _, rfl, rfl, .inl rfl, rfl,
      .inl ⟨_, rfl⟩, rfl⟩
  | error o' e => cases h; exact .inl ⟨_, _, _, _, rfl, rfl, .inl rfl, rfl, .inl ⟨_, rfl⟩, rfl⟩
  | cancel o' => cases h; exact .inl ⟨_, _, _, _, rfl, rfl, .inl rfl, rfl, .inl ⟨_, rfl⟩, rfl⟩
  | cancelOp o' =>
    cases h
    rw [exec]
    split_ifs
    · exact .inr rfl
    · exact .inl ⟨_, _, _, _, rfl, rfl, .inl rfl, rfl, .inr rfl, rfl⟩
  | stopAtStart o' =>
    cases h
    exact .inl ⟨{ m.ops o with callback := .none }, _, _, _, rfl, rfl, .inr rfl, rfl,
      .inl ⟨_, rfl⟩, rfl⟩
  | task t => cases h
  | tail t => cases h

/-! ### Signals -/

/-- The call that counts an operation down to zero signals its receiver. -/
theorem signals_of_countDown {o : OpId} {s : SenderState} {e : OpEvent} {reset : Bool} {x : Signal}
    (hexec : m.exec B f = (m.set o (s.countDown e reset x).1, (s.countDown e reset x).2))
    (hone : s.outstanding = 1) (hnil : s.signals = []) (he : e.signal? = none) :
    ((m.runFrames B (f :: fs)).ops o).signals = [x] := by
  have huser : (m.exec B f).2 = true := by
    rw [hexec]
    exact (SenderState.countDown_signals s e reset x).2 hone
  rw [runFrames_cons_of_user huser]
  show ((m.exec B f).1.ops o).signals = [x]
  rw [hexec, SenderState.countDown_last hone]
  rw [set_ops_self]
  have hx : (OpEvent.signal x).signal? = some x := rfl
  show (OpEvent.signal x :: e :: s.log).filterMap OpEvent.signal? = [x]
  rw [List.filterMap_cons_some hx, List.filterMap_cons_none he]
  exact congrArg (x :: ·) hnil

theorem signals_of_complete {o : OpId} (hone : (m.ops o).outstanding = 1)
    (hnil : (m.ops o).signals = []) (v : Option Value) :
    ((m.runFrames B (.complete o v :: fs)).ops o).signals =
      [.setValue (v.getD (m.ops o).value)] :=
  signals_of_countDown (s := { m.ops o with value := v.getD (m.ops o).value }) rfl hone hnil rfl

theorem signals_of_error {o : OpId} (hone : (m.ops o).outstanding = 1)
    (hnil : (m.ops o).signals = []) (e : Error) :
    ((m.runFrames B (.error o e :: fs)).ops o).signals = [.setError e] :=
  signals_of_countDown rfl hone hnil rfl

theorem signals_of_cancel {o : OpId} (hone : (m.ops o).outstanding = 1)
    (hnil : (m.ops o).signals = []) :
    ((m.runFrames B (.cancel o :: fs)).ops o).signals = [.setStopped] :=
  signals_of_countDown rfl hone hnil rfl

/-! ### What a step can do -/

variable {m' : Machine C T} {io : IoBase} {req : R} {stopped : Bool} {a : A} {o : OpId} {k : K}
  {u : UpstreamSignal} {l : Label R A K}

/-- A call of the context returned, or the process ended in it. -/
theorem perform_eq_some {x : Exec (C × List (Frame T))} (h : m.perform B x = some m') :
    (∃ c fs, x = .ok (c, fs) ∧ m' = { m with ctx := c }.runFrames B fs) ∨
    (∃ e, (∀ y, x ≠ .ok y) ∧ m' = { m with status := some e }) := by
  unfold perform at h
  split at h
  · next c fs => cases h; exact .inl ⟨c, fs, rfl, rfl⟩
  · cases h
  · next e _ => cases h; exact .inr ⟨e, (by rintro y ⟨⟩), rfl⟩

/-- `start` invoked the callback, submitted the operation, or the process ended in it. -/
theorem start_eq_some (h : m.start B io req stopped a = some m') :
    (stopped = true ∧
      ((m.set io.self ((m.ops io.self).begin io.op true)).stopCallback B io.self a).1.perform B
        (((m.set io.self ((m.ops io.self).begin io.op true)).stopCallback B io.self a).2.map
          fun x => (x.1, x.2 ++ [.stopAtStart io.self])) = some m') ∨
    (stopped = false ∧ ∃ (c : C) (fs : List (Frame T)) (r : SubmitResult),
      B.submit m.ctx io req = .ok (c, fs, r) ∧
      m' = (({ m.set io.self ((m.ops io.self).begin io.op false) with ctx := c } :
        Machine C T).note io.self (.submitted r)).runFrames B
          (fs ++ if r = .ready then [.complete io.self none] else [])) ∨
    (stopped = false ∧ ∃ e,
      m' = { m.set io.self ((m.ops io.self).begin io.op false) with status := some e }) := by
  cases stopped with
  | true => exact .inl ⟨rfl, by simpa [start] using h⟩
  | false =>
    simp only [start, Bool.false_eq_true, if_false] at h
    split at h
    · next c fs r hsub => cases h; exact .inr (.inl ⟨rfl, c, fs, r, hsub, rfl⟩)
    · cases h
    · next e _ _ => cases h; exact .inr (.inr ⟨rfl, e, rfl⟩)

/-- A step of a machine is possible only while the process runs. -/
theorem status_of_step (h : m.step B l = some m') : m.status = none := by
  unfold step at h
  split at h
  · cases h
  · next hs => simpa using hs

theorem step_start (h : m.step B (.start io req stopped a) = some m') :
    (m.ops io.self).log = [] ∧ m.start B io req stopped a = some m' := by
  simpa [step, status_of_step h] using h

theorem step_stop (h : m.step B (.stop o a) = some m') :
    (m.ops o).callback = .registered ∧
      (m.stopCallback B o a).1.perform B (m.stopCallback B o a).2 = some m' := by
  simpa [step, status_of_step h] using h

theorem step_call (h : m.step B (.call k) = some m') : m.perform B (B.call m.ctx k) = some m' := by
  simpa [step, status_of_step h] using h

theorem step_ret (h : m.step B .ret = some m') :
    ∃ fs rest, m.stack = fs :: rest ∧ m' = { m with stack := rest }.runFrames B fs := by
  have hrun : ¬ m.status.isSome := by simp [status_of_step h]
  simp only [step, if_neg hrun] at h
  split at h
  · cases h
  · next fs rest hs => cases h; exact ⟨fs, rest, hs, rfl⟩

theorem step_upstream (h : m.step B (.upstream io u req stopped a) = some m') :
    0 < (m.ops io.self).upstream.starts ∧ (m.ops io.self).upstream.sent = none ∧
      m.upstreamReceiver B io u req stopped a = some m' := by
  simpa [step, status_of_step h, and_assoc] using h

/-! ### Runs -/

/-- The state after a list of labels that pass a test is reached; what it looks like can be
computed. -/
theorem runs_of_labels {α : Type} {ok : Machine C T → Label R A K → Prop}
    (B : ContextBase C R A K T) (c : C) (test : Machine C T → Label R A K → Bool)
    (htest : ∀ m l, test m l = true → ok m l) (ls : List (Label R A K)) (f : Machine C T → α)
    (x : α)
    (hx : (Transition.run (Transition.checked (step B) test) { ctx := c } ls).map f = some x) :
    ∃ m, Runs B ok c m ∧ f m = x := by
  obtain ⟨m, hm, hf⟩ := Option.map_eq_some_iff.1 hx
  exact ⟨m, Transition.reaches_of_run htest hm, hf⟩

/-- The test that lets every step through. -/
def any (_ : Machine C T) (_ : Label R A K) : Bool := true

theorem any_free (m : Machine C T) (l : Label R A K) (_ : any m l = true) : Transition.free m l :=
  trivial

/-! ### What calls leave alone

Only `start` records that an operation was started, nothing starts the upstream operation state, and
no record is ever lost. -/

/-- The upstream sender is as it was, and the operation was not started in between. -/
structure Kept (s s' : SenderState) : Prop where
  upstream : s'.upstream = s.upstream
  started : ∀ b, .started b ∈ s'.log → .started b ∈ s.log
  log : s.log <:+ s'.log

theorem Kept.refl (s : SenderState) : Kept s s := ⟨rfl, fun _ h => h, List.suffix_refl _⟩

theorem Kept.trans {s s' s'' : SenderState} (h : Kept s s') (h' : Kept s' s'') : Kept s s'' :=
  ⟨h'.upstream.trans h.upstream, fun b hb => h.started b (h'.started b hb), h.log.trans h'.log⟩

theorem kept_set (s : SenderState) (h : Kept (m.ops o) s) (o' : OpId) :
    Kept (m.ops o') ((m.set o s).ops o') :=
  set_ops_cases (P := Kept (m.ops o')) (fun ho => ho ▸ h) fun _ => .refl _

theorem kept_countDown (s : SenderState) {e : OpEvent} (he : ∀ b, e ≠ .started b) (reset : Bool)
    (x : Signal) : Kept s (s.countDown e reset x).1 := by
  have hcons : s.log <:+ e :: s.log := List.suffix_cons _ _
  dsimp only [SenderState.countDown]
  split
  · exact ⟨rfl, fun b hb => by simpa [Ne.symm (he b)] using hb, hcons.trans (List.suffix_cons _ _)⟩
  · exact ⟨rfl, fun b hb => by simpa [Ne.symm (he b)] using hb, hcons⟩

theorem exec_kept (o : OpId) : Kept (m.ops o) ((m.exec B f).1.ops o) := by
  by_cases ht : f.target = some o
  · rcases exec_of_target (B := B) (m := m) ht with
      ⟨s, e, reset, x, hlog, -, -, hup, he, hexec⟩ | hexec
    · have hs : Kept (m.ops o) s := ⟨hup, fun b hb => hlog ▸ hb, hlog ▸ List.suffix_refl _⟩
      have hne : ∀ b, e ≠ .started b := by
        rcases he with ⟨c, rfl⟩ | rfl <;> simp
      rw [hexec]
      exact kept_set _ (hs.trans (kept_countDown s hne reset x)) o
    · rw [hexec]; exact .refl _
  · rw [exec_ops_of_ne ht]; exact .refl _

theorem runFrames_kept (o : OpId) : Kept (m.ops o) ((m.runFrames B fs).ops o) := by
  induction fs generalizing m with
  | nil => exact .refl _
  | cons f fs ih =>
    cases hb : (m.exec B f).2 with
    | true => rw [runFrames_cons_of_user hb]; exact exec_kept o
    | false => rw [runFrames_cons_of_silent hb]; exact (exec_kept o).trans ih

theorem perform_kept {x : Exec (C × List (Frame T))} (h : m.perform B x = some m') (o : OpId) :
    Kept (m.ops o) (m'.ops o) := by
  rcases perform_eq_some h with ⟨c, fs, -, rfl⟩ | ⟨e, -, rfl⟩
  · exact runFrames_kept (m := { m with ctx := c }) o
  · exact .refl _

theorem note_kept {e : OpEvent} (he : ∀ b, e ≠ .started b) (o o' : OpId) :
    Kept (m.ops o') ((m.note o e).ops o') :=
  kept_set { m.ops o with log := e :: (m.ops o).log }
    ⟨rfl, fun b hb => by simpa [Ne.symm (he b)] using hb, List.suffix_cons _ _⟩ o'

theorem stopCallback_kept (o o' : OpId) :
    Kept (m.ops o') ((m.stopCallback B o a).1.ops o') := by
  have hset : Kept (m.ops o') ((m.set o (m.ops o).invoke).ops o') :=
    kept_set (m.ops o).invoke
      ⟨rfl, fun b hb => by simpa [SenderState.invoke] using hb, List.suffix_cons _ _⟩ o'
  unfold stopCallback
  dsimp only
  split_ifs
  · exact hset.trans (note_kept (by simp) o o')
  · exact hset

theorem start_kept (h : m.start B io req stopped a = some m') (o : OpId) :
    (m'.ops o).upstream = (m.ops o).upstream ∧
      (∀ b, .started b ∈ (m'.ops o).log →
        .started b ∈ (m.ops o).log ∨ o = io.self ∧ b = stopped) ∧
      (m.ops o).log <:+ (m'.ops o).log := by
  have hset : ∀ stopped, ((m.set io.self ((m.ops io.self).begin io.op stopped)).ops o).upstream =
      (m.ops o).upstream ∧
      (∀ b, .started b ∈ ((m.set io.self ((m.ops io.self).begin io.op stopped)).ops o).log →
        .started b ∈ (m.ops o).log ∨ o = io.self ∧ b = stopped) ∧
      (m.ops o).log <:+ ((m.set io.self ((m.ops io.self).begin io.op stopped)).ops o).log := by
    intro stopped
    by_cases ho : o = io.self
    · subst ho
      rw [set_ops_self]
      exact ⟨rfl, fun b hb => by simpa [SenderState.begin, or_comm] using hb, List.suffix_cons _ _⟩
    · rw [set_ops_of_ne _ _ ho]
      exact ⟨rfl, fun b => .inl, List.suffix_refl _⟩
  have hafter : ∀ {m₀ : Machine C T} {stopped : Bool}, Kept
      ((m.set io.self ((m.ops io.self).begin io.op stopped)).ops o) (m₀.ops o) →
      (m₀.ops o).upstream = (m.ops o).upstream ∧
        (∀ b, .started b ∈ (m₀.ops o).log →
          .started b ∈ (m.ops o).log ∨ o = io.self ∧ b = stopped) ∧
        (m.ops o).log <:+ (m₀.ops o).log :=
    fun hk => ⟨hk.upstream.trans (hset _).1, fun b hb => (hset _).2.1 b (hk.started b hb),
      (hset _).2.2.trans hk.log⟩
  rcases start_eq_some h with ⟨rfl, h⟩ | ⟨rfl, c, fs, r, -, rfl⟩ | ⟨rfl, e, rfl⟩
  · exact hafter ((stopCallback_kept io.self o).trans (perform_kept h o))
  · refine hafter (Kept.trans ?_ (runFrames_kept o))
    exact note_kept (m := { m.set io.self ((m.ops io.self).begin io.op false) with ctx := c })
      (by simp) io.self o
  · exact hafter (.refl _)

/-- Every step but a start and the completion of an upstream sender. -/
theorem step_kept (h : m.step B l = some m')
    (hstart : ∀ io req stopped a, l ≠ .start io req stopped a)
    (hup : ∀ io u req stopped a, l ≠ .upstream io u req stopped a) (o : OpId) :
    Kept (m.ops o) (m'.ops o) := by
  cases l with
  | start io req stopped a => exact absurd rfl (hstart io req stopped a)
  | stop o' a => exact (stopCallback_kept o' o).trans (perform_kept (step_stop h).2 o)
  | call k => exact perform_kept (step_call h) o
  | ret =>
    obtain ⟨fs, rest, -, rfl⟩ := step_ret h
    exact runFrames_kept (m := { m with stack := rest }) o
  | upstream io u req stopped a => exact absurd rfl (hup io u req stopped a)

/-- No step starts an upstream operation state, and one that was not started does not complete. -/
theorem upstream_step (h : m.step B l = some m') (hz : ∀ o, (m.ops o).upstream = {}) (o : OpId) :
    (m'.ops o).upstream = {} := by
  cases l with
  | start io req stopped a => rw [(start_kept (step_start h).2 o).1, hz]
  | upstream io u req stopped a =>
    have hpos := (step_upstream h).1
    rw [hz] at hpos
    cases hpos
  | _ => rw [(step_kept h (by simp) (by simp) o).upstream, hz]

/-- What happened to an operation stays recorded. -/
theorem log_step (h : m.step B l = some m') (hz : ∀ o, (m.ops o).upstream = {}) (o : OpId) :
    (m.ops o).log <:+ (m'.ops o).log := by
  cases l with
  | start io req stopped a => exact (start_kept (step_start h).2 o).2.2
  | upstream io u req stopped a =>
    have hpos := (step_upstream h).1
    rw [hz] at hpos
    cases hpos
  | _ => exact (step_kept h (by simp) (by simp) o).log

/-- An operation to which something happened is not started again. -/
theorem started_step (h : m.step B l = some m') (hz : ∀ o, (m.ops o).upstream = {})
    (hlog : (m.ops o).log ≠ []) {b : Bool} (hb : .started b ∈ (m'.ops o).log) :
    .started b ∈ (m.ops o).log := by
  cases l with
  | start io req stopped a =>
    rcases (start_kept (step_start h).2 o).2.1 b hb with hb | ⟨rfl, -⟩
    · exact hb
    · exact absurd (step_start h).1 hlog
  | upstream io u req stopped a =>
    have hpos := (step_upstream h).1
    rw [hz] at hpos
    cases hpos
  | _ => exact (step_kept h (by simp) (by simp) o).started b hb

/-- In no run is an upstream operation state started. -/
theorem Runs.never_started {ok : Machine C T → Label R A K → Prop} {c : C} (h : Runs B ok c m)
    (o : OpId) : (m.ops o).upstream = {} :=
  Transition.Reaches.invariant (I := fun m => ∀ o, (m.ops o).upstream = {}) h (fun _ => rfl)
    (fun _ _ _ hz _ hs => upstream_step hs hz) o

/-! ### The context alone -/

/-- No continuation of the context is among the calls. -/
def Plain (fs : List (Frame T)) : Prop := ∀ t, Frame.tail t ∉ fs

theorem Plain.nil : Plain ([] : List (Frame T)) := fun _ h => by cases h

theorem Plain.append {fs' : List (Frame T)} (h : Plain fs) (h' : Plain fs') : Plain (fs ++ fs') :=
  fun t ht => (List.mem_append.1 ht).elim (h t) (h' t)

theorem Plain.single (h : ∀ t, f ≠ .tail t) : Plain [f] := fun t ht =>
  h t (List.mem_singleton.1 ht).symm

theorem Plain.of_suffix {fs' : List (Frame T)} (h : Plain fs) (hs : fs' <:+ fs) : Plain fs' :=
  fun t ht => h t (hs.subset ht)

theorem exec_ctx_of_ne (h : ∀ t, f ≠ .tail t) : (m.exec B f).1.ctx = m.ctx := by
  cases f with
  | tail t => exact absurd rfl (h t)
  | cancelOp o =>
    rw [exec]
    split_ifs <;> rfl
  | _ => rfl

/-- What continuations preserve, any calls preserve. -/
theorem runFrames_ctx_induct {P : C → Prop} (htail : ∀ {c : C} (t : T), P c → P (B.tail c t))
    (h : P m.ctx) : P (m.runFrames B fs).ctx := by
  induction fs generalizing m with
  | nil => exact h
  | cons f fs ih =>
    have hf : P (m.exec B f).1.ctx := by
      cases f with
      | tail t => exact htail t h
      | _ =>
        rw [exec_ctx_of_ne (by simp)]
        exact h
    cases hb : (m.exec B f).2 with
    | true => rw [runFrames_cons_of_user hb]; exact hf
    | false => rw [runFrames_cons_of_silent hb]; exact ih hf

/-- Only continuations change the context. -/
theorem runFrames_ctx_of_plain (h : Plain fs) : (m.runFrames B fs).ctx = m.ctx := by
  induction fs generalizing m with
  | nil => rfl
  | cons f fs ih =>
    have hf : (m.exec B f).1.ctx = m.ctx :=
      exec_ctx_of_ne fun t ht => h t (ht ▸ List.mem_cons_self)
    cases hb : (m.exec B f).2 with
    | true => rw [runFrames_cons_of_user hb]; exact hf
    | false =>
      rw [runFrames_cons_of_silent hb, ih (h.of_suffix (List.suffix_cons _ _)), hf]

/-- What waits on the stack after some calls: the rest of them, if one ran user code. -/
theorem runFrames_stack : (m.runFrames B fs).stack = m.stack ∨
    ∃ f fs', f :: fs' <:+ fs ∧ (m.runFrames B fs).stack = fs' :: m.stack := by
  induction fs generalizing m with
  | nil => exact .inl rfl
  | cons f fs ih =>
    cases hb : (m.exec B f).2 with
    | true =>
      rw [runFrames_cons_of_user hb]
      exact .inr ⟨f, fs, List.suffix_refl _, by simp⟩
    | false =>
      rw [runFrames_cons_of_silent hb]
      rcases ih (m := (m.exec B f).1) with hs | ⟨f', fs', hsuf, hs⟩
      · exact .inl (hs.trans exec_stack)
      · exact .inr ⟨f', fs', hsuf.trans (List.suffix_cons _ _), by rw [hs, exec_stack]⟩

/-- What a step calls: the context afterwards, the stack, and the calls to be made then. -/
inductive Entry (B : ContextBase C R A K T) (m : Machine C T) :
    Label R A K → C → List (List (Frame T)) → List (Frame T) → Prop
  | submit {io : IoBase} {req : R} {a : A} {c : C} {fs : List (Frame T)} {r : SubmitResult}
      (hlog : (m.ops io.self).log = []) (h : B.submit m.ctx io req = .ok (c, fs, r)) :
      Entry B m (.start io req false a) c m.stack
        (fs ++ if r = .ready then [.complete io.self none] else [])
  | cancel (l : Label R A K) {io : IoBase} {a : A} {c : C} {fs ends : List (Frame T)}
      (h : B.cancel m.ctx io a = .ok (c, fs)) (hends : Plain ends) :
      Entry B m l c m.stack (fs ++ ends)
  /-- the stop callback does not ask the context -/
  | unasked (l : Label R A K) {ends : List (Frame T)} (hends : Plain ends) :
      Entry B m l m.ctx m.stack ends
  | call {k : K} {c : C} {fs : List (Frame T)} (h : B.call m.ctx k = .ok (c, fs)) :
      Entry B m (.call k) c m.stack fs
  | ret {fs : List (Frame T)} {rest : List (List (Frame T))} (h : m.stack = fs :: rest) :
      Entry B m .ret m.ctx rest fs

/-- The stop callback asks the context, or nothing. -/
theorem stopCallback_cases (o : OpId) (a : A) :
    (m.stopCallback B o a).1.ctx = m.ctx ∧ (m.stopCallback B o a).1.stack = m.stack ∧
      ((m.stopCallback B o a).2 = .ok (m.ctx, []) ∨
        ∃ op, (m.stopCallback B o a).2 = B.cancel m.ctx ⟨o, op⟩ a) := by
  unfold stopCallback
  dsimp only
  split_ifs
  · exact ⟨rfl, rfl, .inr ⟨_, rfl⟩⟩
  · exact ⟨rfl, rfl, .inl rfl⟩

/-- **What a step does**: it calls the context and makes the calls it is given, or the process ends
in the context. -/
theorem entry_of_step (hz : ∀ o, (m.ops o).upstream = {}) (h : m.step B l = some m') :
    (m'.ctx = m.ctx ∧ m'.stack = m.stack ∧ m'.status.isSome) ∨
      ∃ (m₀ : Machine C T) (fs : List (Frame T)), Entry B m l m₀.ctx m₀.stack fs ∧
        m' = m₀.runFrames B fs := by
  -- a stop callback of a machine that differs from `m` in its operations
  have hasked : ∀ (m₀ : Machine C T) (ends : List (Frame T)) {o : OpId} {a : A} {c : C}
      {fs : List (Frame T)}, m₀.ctx = m.ctx → m₀.stack = m.stack → Plain ends →
      (m₀.stopCallback B o a).2 = .ok (c, fs) →
      Entry B m l c (m₀.stopCallback B o a).1.stack (fs ++ ends) := by
    intro m₀ ends o a c fs hctx hstack hends hx
    obtain ⟨-, hst, hnone | ⟨op, hcancel⟩⟩ := stopCallback_cases (B := B) (m := m₀) o a
    · rw [hnone, hctx] at hx
      cases hx
      rw [hst, hstack]
      exact .unasked _ hends
    · rw [hcancel, hctx] at hx
      rw [hst, hstack]
      exact .cancel _ hx hends
  have hended : ∀ (m₀ : Machine C T) (o : OpId) (a : A), m₀.ctx = m.ctx → m₀.stack = m.stack →
      (m₀.stopCallback B o a).1.ctx = m.ctx ∧ (m₀.stopCallback B o a).1.stack = m.stack := by
    intro m₀ o a hctx hstack
    obtain ⟨hc, hst, -⟩ := stopCallback_cases (B := B) (m := m₀) o a
    exact ⟨hc.trans hctx, hst.trans hstack⟩
  cases l with
  | start io req stopped a =>
    obtain ⟨hlog, hstart⟩ := step_start h
    rcases start_eq_some hstart with ⟨rfl, hstop⟩ | ⟨rfl, c, fs, r, hsub, rfl⟩ | ⟨-, e, rfl⟩
    · generalize hm₁ : m.set io.self ((m.ops io.self).begin io.op true) = m₁ at hstop
      have hctx : m₁.ctx = m.ctx := by rw [← hm₁, set_ctx]
      have hstack : m₁.stack = m.stack := by rw [← hm₁, set_stack]
      rcases perform_eq_some hstop with ⟨c, fs, hx, rfl⟩ | ⟨e, -, rfl⟩
      · obtain ⟨⟨c', fs'⟩, hcall, heq⟩ := Exec.map_eq_ok.1 hx
        cases heq
        exact .inr ⟨{ (m₁.stopCallback B io.self a).1 with ctx := c' }, _,
          hasked m₁ [.stopAtStart io.self] hctx hstack (.single (by simp)) hcall, rfl⟩
      · obtain ⟨hc, hst⟩ := hended m₁ io.self a hctx hstack
        exact .inl ⟨hc, hst, rfl⟩
    · refine .inr ⟨(({ m.set io.self ((m.ops io.self).begin io.op false) with ctx := c } :
        Machine C T).note io.self (.submitted r)), _, .submit hlog hsub, rfl⟩
    · exact .inl ⟨rfl, rfl, rfl⟩
  | stop o a =>
    rcases perform_eq_some (step_stop h).2 with ⟨c, fs, hx, rfl⟩ | ⟨e, -, rfl⟩
    · have hentry := hasked m [] rfl rfl .nil hx
      rw [List.append_nil] at hentry
      exact .inr ⟨{ (m.stopCallback B o a).1 with ctx := c }, fs, hentry, rfl⟩
    · obtain ⟨hc, hst⟩ := hended m o a rfl rfl
      exact .inl ⟨hc, hst, rfl⟩
  | call k =>
    rcases perform_eq_some (step_call h) with ⟨c, fs, hx, rfl⟩ | ⟨e, -, rfl⟩
    · exact .inr ⟨{ m with ctx := c }, fs, .call hx, rfl⟩
    · exact .inl ⟨rfl, rfl, rfl⟩
  | ret =>
    obtain ⟨fs, rest, hstack, rfl⟩ := step_ret h
    exact .inr ⟨{ m with stack := rest }, fs, .ret hstack, rfl⟩
  | upstream io u req stopped a =>
    have hpos := (step_upstream h).1
    rw [hz] at hpos
    cases hpos

/-- How a step changes a context that leaves no continuations. -/
inductive CtxStep (B : ContextBase C R A K T) (m : Machine C T) : Label R A K → C → Prop
  | same (l : Label R A K) : CtxStep B m l m.ctx
  | submit {io : IoBase} {req : R} {a : A} {c : C} {fs : List (Frame T)} {r : SubmitResult}
      (hlog : (m.ops io.self).log = []) (h : B.submit m.ctx io req = .ok (c, fs, r)) :
      CtxStep B m (.start io req false a) c
  | cancel (l : Label R A K) {io : IoBase} {a : A} {c : C} {fs : List (Frame T)}
      (h : B.cancel m.ctx io a = .ok (c, fs)) : CtxStep B m l c
  | call {k : K} {c : C} {fs : List (Frame T)} (h : B.call m.ctx k = .ok (c, fs)) :
      CtxStep B m (.call k) c

section NoTail

variable {B : ContextBase C R A K Empty} {m m' : Machine C Empty} {l : Label R A K}

@[simp] theorem runFrames_ctx (fs : List (Frame Empty)) : (m.runFrames B fs).ctx = m.ctx :=
  runFrames_ctx_of_plain fun t => t.elim

/-- What a step does to such a context. -/
theorem ctx_of_step (hz : ∀ o, (m.ops o).upstream = {}) (h : m.step B l = some m') :
    CtxStep B m l m'.ctx := by
  rcases entry_of_step hz h with ⟨hctx, -⟩ | ⟨m₀, fs, hentry, rfl⟩
  · rw [hctx]
    exact .same l
  · rw [runFrames_ctx]
    generalize m₀.ctx = c, m₀.stack = stack at hentry
    cases hentry with
    | submit hlog hsub => exact .submit hlog hsub
    | cancel l hcancel => exact .cancel l hcancel
    | unasked l => exact .same l
    | call hcall => exact .call hcall
    | ret => exact .same .ret

end NoTail

end Machine

/-! ### Results -/

/-- Before the first call of `complete`, `error` or `cancel` the result is the initial one. -/
def SenderState.Prepared (s : SenderState) : Prop := s.calls = [] → s.value = s.op.initial

namespace SenderState

variable {s : SenderState}

theorem prepared_of_called (c : IoCall) (h : .called c ∈ s.log) : s.Prepared := by
  intro hcalls
  have hmem : c ∈ s.calls := List.mem_filterMap.2 ⟨_, h, rfl⟩
  rw [hcalls] at hmem
  cases hmem

theorem called_mem_countDown (s : SenderState) (c : IoCall) (reset : Bool) (x : Signal) :
    .called c ∈ (s.countDown (.called c) reset x).1.log := by
  dsimp only [countDown]
  split <;> simp

theorem Prepared.counted (h : s.Prepared) : s.cancelCallbackComplete.1.Prepared := by
  intro hcalls
  dsimp only [cancelCallbackComplete, countDown] at hcalls ⊢
  split at hcalls <;> split <;> exact h hcalls

end SenderState

namespace Machine

variable {C R A K T : Type} {B : ContextBase C R A K T} {m m' : Machine C T} {f : Frame T}
  {fs : List (Frame T)} {l : Label R A K} {o : OpId}

theorem set_prepared {s : SenderState} (h : ∀ o, (m.ops o).Prepared) (hs : s.Prepared) (o' : OpId) :
    ((m.set o s).ops o').Prepared :=
  set_ops_cases (P := SenderState.Prepared) (fun _ => hs) fun _ => h o'

theorem exec_prepared (h : ∀ o, (m.ops o).Prepared) (o : OpId) :
    ((m.exec B f).1.ops o).Prepared := by
  have hcalled : ∀ (s : SenderState) c reset x,
      (s.countDown (.called c) reset x).1.Prepared := fun s c reset x =>
    SenderState.prepared_of_called c (s.called_mem_countDown c reset x)
  cases f with
  | complete o' v => exact set_prepared h (hcalled _ _ _ _) o
  | error o' e => exact set_prepared h (hcalled _ _ _ _) o
  | cancel o' => exact set_prepared h (hcalled _ _ _ _) o
  | cancelOp o' =>
    rw [exec]
    split_ifs
    · exact h o
    · exact set_prepared h (h o').counted o
  | stopAtStart o' => exact set_prepared h (hcalled _ _ _ _) o
  | task t => exact h o
  | tail t => exact h o

theorem runFrames_prepared (h : ∀ o, (m.ops o).Prepared) (o : OpId) :
    ((m.runFrames B fs).ops o).Prepared := by
  induction fs generalizing m with
  | nil => exact h o
  | cons f fs ih =>
    cases hb : (m.exec B f).2 with
    | true =>
      rw [runFrames_cons_of_user hb]
      exact exec_prepared h o
    | false =>
      rw [runFrames_cons_of_silent hb]
      exact ih (exec_prepared h)

theorem perform_prepared {x : Exec (C × List (Frame T))} (h : ∀ o, (m.ops o).Prepared)
    (hx : m.perform B x = some m') (o : OpId) : (m'.ops o).Prepared := by
  rcases perform_eq_some hx with ⟨c, fs, -, rfl⟩ | ⟨e, -, rfl⟩
  · exact runFrames_prepared (m := { m with ctx := c }) h o
  · exact h o

theorem stopCallback_prepared {a : A} (h : ∀ o, (m.ops o).Prepared) (o o' : OpId) :
    ((m.stopCallback B o a).1.ops o').Prepared := by
  have hset := set_prepared (o := o) (s := (m.ops o).invoke) h (h o)
  unfold stopCallback
  dsimp only
  split_ifs
  · refine set_prepared hset ?_ o'
    exact hset o
  · exact hset o'

theorem start_prepared {io : IoBase} {req : R} {stopped : Bool} {a : A}
    (h : ∀ o, (m.ops o).Prepared) (hm' : m.start B io req stopped a = some m') (o : OpId) :
    (m'.ops o).Prepared := by
  have hset : ∀ stopped o,
      ((m.set io.self ((m.ops io.self).begin io.op stopped)).ops o).Prepared := fun _ =>
    set_prepared h fun _ => rfl
  rcases start_eq_some hm' with ⟨rfl, hm'⟩ | ⟨rfl, c, fs, r, -, rfl⟩ | ⟨rfl, e, rfl⟩
  · exact perform_prepared (stopCallback_prepared (hset true) io.self) hm' o
  · refine runFrames_prepared (fun o => ?_) o
    refine set_prepared (m := { m.set io.self ((m.ops io.self).begin io.op false) with ctx := c })
      (hset false) ?_ o
    exact hset false io.self
  · exact hset false o

/-- In every run. -/
theorem Runs.prepared {ok : Machine C T → Label R A K → Prop} {c : C} (h : Runs B ok c m)
    (o : OpId) : (m.ops o).Prepared := by
  refine Transition.Reaches.invariant₂ (I := fun m => ∀ o, (m.ops o).Prepared)
    (J := fun m => ∀ o, (m.ops o).upstream = {}) h (fun t ht => Runs.never_started ht)
    (fun _ _ => rfl) (fun t l u hz ht _ hstep => ?_) o
  cases l with
  | start io req stopped a => exact start_prepared ht (step_start hstep).2
  | stop o' a => exact perform_prepared (stopCallback_prepared ht o') (step_stop hstep).2
  | call k => exact perform_prepared ht (step_call hstep)
  | ret =>
    obtain ⟨fs, rest, -, rfl⟩ := step_ret hstep
    exact runFrames_prepared (m := { t with stack := rest }) ht
  | upstream io u' req stopped a =>
    have hpos := (step_upstream hstep).1
    rw [hz] at hpos
    cases hpos

end Machine

end Net29
