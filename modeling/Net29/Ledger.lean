import Net29.Phases

/-!
# What a context owes to its operations

The abstract view of a context. It owes calls to the operations it has accepted, and every call of
the context moves these debts in one of a few ways. A `Ledger` states this for a concrete context.
It says nothing about sockets, queues or the system.

* `Ledger`: the debts and how `submit`, `cancel` and the other calls move them;
* `Ledger.PhaseAt`: the phase of an operation while calls are still to be made;
* `Ledger.sound_step`: every step of the machine keeps every operation in a phase;
* `Ledger.sound`: so does every run.

The steps in which the context drops an operation (`Drops`), or completes one before `submit`
returns (`Inline`), are excluded by the guard of the parameters `exact` and `clean`; the invariant
is one and the same with and without them.
-/

namespace Net29

open Machine Transition

variable {C R A K T : Type}

/-- The debts of a context. `Inv` is the context's own invariant. -/
structure Ledger (B : ContextBase C R A K T) where
  Inv : C → Prop
  held : C → OpId → ℕ
  asked : C → OpId → ℕ
  Drops : C → K → Prop
  Inline : C → IoBase → R → Prop
  pending_iff : ∀ c o, B.pending c o = true ↔ 0 < held c o
  submit_spec : ∀ {c c' : C} {io : IoBase} {req : R} {fs : List (Frame T)} {r : SubmitResult},
    Inv c → held c io.self = 0 → B.submit c io req = .ok (c', fs, r) →
    Inv c' ∧ asked c' io.self = asked c io.self ∧
      Submitted (Inline c io req) (held c' io.self) io.self fs r ∧
      ∀ o, o ≠ io.self → held c' o = held c o ∧ asked c' o = asked c o ∧ Silent o fs
  cancel_spec : ∀ {c c' : C} {io : IoBase} {a : A} {fs : List (Frame T)},
    Inv c → asked c io.self = 0 → B.cancel c io a = .ok (c', fs) →
    Inv c' ∧ Cancelled (held c io.self) (held c' io.self) (asked c' io.self) io.self fs ∧
      ∀ o, o ≠ io.self → held c' o = held c o ∧ asked c' o = asked c o ∧ Silent o fs
  call_spec : ∀ {c c' : C} {k : K} {fs : List (Frame T)}, Inv c → B.call c k = .ok (c', fs) →
    Inv c' ∧ ∀ o, Moved (Drops c k) (held c o) (held c' o) (asked c o) (asked c' o) o fs
  tail_spec : ∀ {c : C} (t : T), Inv c →
    Inv (B.tail c t) ∧ ∀ o, held (B.tail c t) o = held c o ∧ asked (B.tail c t) o = asked c o

/-! ### The machine -/

namespace Ledger

variable {B : ContextBase C R A K T} (L : Ledger B) {exact clean : Prop} {m m' : Machine C T}
  {f : Frame T} {fs : List (Frame T)} {o : OpId}

/-- The phase of an operation while the calls `fs` are still to be made. -/
def PhaseAt (exact clean : Prop) (m : Machine C T) (fs : List (Frame T)) (o : OpId) : Prop :=
  Phase exact clean (m.ops o) (L.held m.ctx o) (L.asked m.ctx o)
    (Silent o (fs ++ m.stack.flatten))

/-- Calls back do not change what is owed. -/
theorem exec_ledger (hI : L.Inv m.ctx) :
    L.Inv (m.exec B f).1.ctx ∧ ∀ o, L.held (m.exec B f).1.ctx o = L.held m.ctx o ∧
      L.asked (m.exec B f).1.ctx o = L.asked m.ctx o := by
  cases f with
  | tail t => exact L.tail_spec t hI
  | cancelOp o =>
    rw [exec]
    split_ifs <;> exact ⟨hI, fun _ => ⟨rfl, rfl⟩⟩
  | _ => exact ⟨hI, fun _ => ⟨rfl, rfl⟩⟩

theorem inv_runFrames (hI : L.Inv m.ctx) : L.Inv (m.runFrames B fs).ctx :=
  runFrames_ctx_induct (fun t hI => (L.tail_spec t hI).1) hI

/-- Before a call counts down, the callback is at most reset. -/
theorem callback_ne_registered {s t : SenderState}
    (h : s.callback = t.callback ∨ s.callback = .none) (ht : t.callback ≠ .registered) :
    s.callback ≠ .registered := by
  rcases h with h | h <;> rw [h]
  · exact ht
  · simp

/-- An operation refused at its start stays refused, whatever is called. -/
theorem refused_exec (h : Refused (m.ops o)) : Refused ((m.exec B f).1.ops o) := by
  by_cases ht : f.target = some o
  · rcases exec_of_target (B := B) (m := m) ht with
      ⟨s, e, reset, x, hlog, -, hcb, -, he, hexec⟩ | hexec
    · rw [hexec]
      simp only [set_ops_self]
      have hcb' : s.callback ≠ .registered := callback_ne_registered hcb h.callback
      have hsub := h.submitted
      have hst := h.started
      have hask := h.asked
      rw [← hlog] at hsub hst hask
      unfold SenderState.countDown
      rcases he with ⟨c, rfl⟩ | rfl <;> dsimp only <;> split_ifs <;>
        exact ⟨by simp [hst], by simp [hask], by simpa using hsub, by simp [hcb']⟩
    · rw [hexec]; exact h
  · rw [exec_ops_of_ne ht]; exact h

/-- Operations that are not the target of a call stay in their phase. -/
theorem phaseAt_exec_of_ne (hI : L.Inv m.ctx) (ht : f.target ≠ some o)
    (h : L.PhaseAt exact clean m (f :: fs) o) : L.PhaseAt exact clean (m.exec B f).1 fs o := by
  have hq : Silent o (f :: fs ++ m.stack.flatten) ↔ Silent o (fs ++ m.stack.flatten) := by
    simp [Silent, ht]
  unfold PhaseAt at h ⊢
  rw [exec_ops_of_ne ht, ((L.exec_ledger hI).2 o).1, ((L.exec_ledger hI).2 o).2, exec_stack,
    ← propext hq]
  exact h

/-- A call of an operation that an interrupted call still has to make: the operation is done and
stays so, or it was refused. -/
theorem phaseAt_exec_of_target (hI : L.Inv m.ctx) (ht : f.target = some o)
    (h : L.PhaseAt exact clean m (f :: fs) o) : L.PhaseAt exact clean (m.exec B f).1 fs o := by
  have hq : ¬ Silent o (f :: fs ++ m.stack.flatten) := fun hs => hs f (by simp) ht
  unfold PhaseAt at h ⊢
  rw [((L.exec_ledger hI).2 o).1, ((L.exec_ledger hI).2 o).2, exec_stack]
  cases h with
  | idle _ _ _ hquiet => exact absurd hquiet hq
  | live _ hquiet => exact absurd hquiet hq
  | refused h hheld => exact .refused (refused_exec h) hheld
  | done h =>
    -- a call is still to be made, so `clean` fails, and the counter is at zero or below
    have hclean : ¬ clean := fun hc => hq (h.unused hc).1
    obtain ⟨hcb, hout⟩ := h.rest.resolve_left fun hr => hq hr.2.2
    have hout := hout.resolve_right hq
    have hheld := h.held
    have hasked := h.asked
    rw [hheld, hasked] at h ⊢
    rcases exec_of_target (B := B) (m := m) ht with
      ⟨s, e, reset, x, hlog, hout', hcb', -, he, hexec⟩ | hexec
    · have hcbs : s.callback ≠ .registered := callback_ne_registered hcb' hcb
      have hs : Done exact clean s 0 0 (Silent o (f :: fs ++ m.stack.flatten)) := by
        exact ⟨hlog ▸ h.begun, by simpa only [SenderState.signals, hlog] using h.signals, rfl,
          rfl, by simpa only [SenderState.calls, hlog] using h.called,
          .inr ⟨hcbs, .inl (hout' ▸ hout)⟩, fun hc => absurd hc hclean,
          fun hx b hb => h.asks hx b (hlog ▸ hb)⟩
      rw [hexec]
      simp only [set_ops_self]
      exact .done (hs.spent hclean (hout' ▸ hout) hcbs he reset x).2.2.2
    · rw [hexec]
      exact .done { h with
        rest := .inr ⟨hcb, .inl hout⟩
        unused := fun hc => absurd hc hclean }

theorem phaseAt_exec (hI : L.Inv m.ctx) (h : L.PhaseAt exact clean m (f :: fs) o) :
    L.PhaseAt exact clean (m.exec B f).1 fs o := by
  by_cases ht : f.target = some o
  · exact L.phaseAt_exec_of_target hI ht h
  · exact L.phaseAt_exec_of_ne hI ht h

/-- Making the calls that are still to be made keeps every operation in a phase. -/
theorem phaseAt_runFrames (hI : L.Inv m.ctx) (h : L.PhaseAt exact clean m fs o) :
    L.PhaseAt exact clean (m.runFrames B fs) [] o := by
  induction fs generalizing m with
  | nil => exact h
  | cons f fs ih =>
    have hexec := L.phaseAt_exec hI h
    cases hb : (m.exec B f).2 with
    | true =>
      rw [runFrames_cons_of_user hb]
      exact hexec
    | false =>
      rw [runFrames_cons_of_silent hb]
      exact ih (L.exec_ledger hI).1 hexec

/-- The same, when the first call is accounted for separately. -/
theorem phaseAt_runFrames_cons (hI : L.Inv m.ctx)
    (h : L.PhaseAt exact clean (m.exec B f).1 fs o) :
    L.PhaseAt exact clean (m.runFrames B (f :: fs)) [] o := by
  cases hb : (m.exec B f).2 with
  | true =>
    rw [runFrames_cons_of_user hb]
    exact h
  | false =>
    rw [runFrames_cons_of_silent hb]
    exact L.phaseAt_runFrames (L.exec_ledger hI).1 h

/-- A call that pays one of the debts of an operation. -/
inductive Pays (o : OpId) (f : Frame T) (held held' asked asked' : ℕ) : Prop
  | notifies (hf : Notifies o f) (h : held = held' + 1) (ha : asked = asked')
  | answers (hf : f = .cancelOp o) (h : held = held') (ha : asked = asked' + 1)

theorem exec_of_pays {held held' asked asked' : ℕ} (hp : Pays o f held held' asked asked')
    (hcb : (m.ops o).callback ≠ .none) :
    ∃ (s : SenderState) (e : OpEvent) (reset : Bool) (x : Signal), s.log = (m.ops o).log ∧
      s.outstanding = (m.ops o).outstanding ∧ s.callback = (m.ops o).callback ∧
      Paid e held held' asked asked' ∧
      m.exec B f = (m.set o (s.countDown e reset x).1, (s.countDown e reset x).2) := by
  cases hp with
  | notifies hf h ha =>
    cases hf with
    | complete v =>
      exact ⟨{ m.ops o with value := v.getD (m.ops o).value }, _, _, _, rfl, rfl, rfl,
        .called _ rfl h ha, rfl⟩
    | error e => exact ⟨_, _, _, _, rfl, rfl, rfl, .called _ rfl h ha, rfl⟩
    | cancel => exact ⟨_, _, _, _, rfl, rfl, rfl, .called _ rfl h ha, rfl⟩
  | answers hf h ha =>
    subst hf
    have hexec : m.exec B (.cancelOp o) =
        (m.set o (m.ops o).cancelCallbackComplete.1, (m.ops o).cancelCallbackComplete.2) := by
      rw [exec, if_neg hcb]
    exact ⟨_, _, _, _, rfl, rfl, rfl, .answered rfl h ha, hexec⟩

/-- A live operation that is paid a debt. -/
theorem phaseAt_exec_of_pays {held held' asked asked' : ℕ} (hI : L.Inv m.ctx)
    (hp : Pays o f held held' asked asked') (h : Live exact (m.ops o) held asked)
    (hheld : L.held m.ctx o = held') (hasked : L.asked m.ctx o = asked')
    (hq : Silent o (fs ++ m.stack.flatten)) : L.PhaseAt exact clean (m.exec B f).1 fs o := by
  have hcb : (m.ops o).callback ≠ .none := by
    rcases h.callback with ⟨hcb, -⟩ | hcb <;> simp [hcb]
  obtain ⟨s, e, reset, x, hlog, hout, hcb', hpaid, hexec⟩ := exec_of_pays (B := B) hp hcb
  unfold PhaseAt
  rw [((L.exec_ledger hI).2 o).1, ((L.exec_ledger hI).2 o).2, exec_stack, hheld, hasked, hexec]
  simp only [set_ops_self]
  exact (h.congr hlog hout hcb').paid hpaid hq reset x

/-! ### Steps -/

/-- The steps under which an operation is neither dropped (`exact`) nor completed before its
submission returns (`clean`), and no stop is requested of one whose receiver was signalled
(`clean`). -/
def Guard (exact clean : Prop) (m : Machine C T) : Label R A K → Prop
  | .start io req stopped _ => clean → stopped = false → ¬ L.Inline m.ctx io req
  | .stop o _ => clean → (m.ops o).signals = []
  | .call k => exact → ¬ L.Drops m.ctx k
  | .ret => True
  | .upstream _ _ _ _ _ => True

/-- The invariant of the machine. -/
structure Sound (exact clean : Prop) (m : Machine C T) : Prop where
  safe : ∀ o, Safe exact clean (m.ops o)
  inv : L.Inv m.ctx
  once : ∀ o, L.held m.ctx o ≤ 1
  phase : m.status = none → ∀ o, L.PhaseAt exact clean m [] o

variable {L}

theorem Sound.of_phases (hI : L.Inv m.ctx) (h : ∀ o, L.PhaseAt exact clean m [] o) :
    L.Sound exact clean m :=
  ⟨fun o => (h o).safe, hI, fun o => (h o).held_le_one, fun _ => h⟩

/-- The process ended in a call of the context: only operation states changed. -/
theorem Sound.ended {e : Stuck} (h : L.Sound exact clean m) (hctx : m'.ctx = m.ctx)
    (hsafe : ∀ o, Safe exact clean (m'.ops o)) :
    L.Sound exact clean { m' with status := some e } :=
  ⟨hsafe, by rw [hctx]; exact h.inv, by rw [hctx]; exact h.once, by simp⟩

theorem Sound.init {c : C} (hI : L.Inv c) (hheld : ∀ o, L.held c o = 0)
    (hasked : ∀ o, L.asked c o = 0) : L.Sound exact clean ({ ctx := c } : Machine C T) :=
  .of_phases hI fun o => .idle rfl (hheld o) (hasked o) (by simp [Silent])

/-- An operation to which nothing happens, while the context moves no debt of it. -/
theorem PhaseAt.frame {c : C} (h : L.PhaseAt exact clean m [] o)
    (hheld : L.held c o = L.held m.ctx o) (hasked : L.asked c o = L.asked m.ctx o)
    (hs : Silent o fs) {m' : Machine C T}
    (hops : m'.ops o = m.ops o) (hctx : m'.ctx = c) (hstack : m'.stack = m.stack) :
    L.PhaseAt exact clean m' fs o := by
  have hq : Silent o ([] ++ m.stack.flatten) ↔ Silent o (fs ++ m.stack.flatten) := by
    constructor
    · intro hq f hf
      rcases List.mem_append.1 hf with hf | hf
      · exact hs f hf
      · exact hq f hf
    · exact fun hq f hf => hq f (List.mem_append_right _ hf)
  unfold PhaseAt at h ⊢
  rw [hops, hctx, hstack, hheld, hasked, ← propext hq]
  exact h

/-- A call that pays a debt, then calls that are not about the operation. -/
theorem phaseAt_pays {c : C} (hI : L.Inv c)
    (h : L.PhaseAt exact clean m [] o)
    (hp : Pays o f (L.held m.ctx o) (L.held c o) (L.asked m.ctx o) (L.asked c o))
    (hs : Silent o fs) :
    L.PhaseAt exact clean ({ m with ctx := c }.runFrames B (f :: fs)) [] o := by
  have howed : 0 < L.held m.ctx o + L.asked m.ctx o := by cases hp <;> omega
  cases h with
  | idle _ hheld hasked => omega
  | done h =>
    have := h.held
    have := h.asked
    omega
  | refused h hz =>
    have hexec := ((L.exec_ledger (m := { m with ctx := c }) (f := f) hI).2 o).1
    refine L.phaseAt_runFrames_cons hI (.refused (refused_exec h) (hexec.trans ?_))
    show L.held c o = 0
    cases hp <;> omega
  | live h hq =>
    refine L.phaseAt_runFrames_cons hI (L.phaseAt_exec_of_pays hI hp h rfl rfl ?_)
    intro f' hf'
    rcases List.mem_append.1 hf' with hf' | hf'
    · exact hs f' hf'
    · exact hq f' hf'

/-- Any call of the context other than a submission or a cancel request. -/
theorem phaseAt_call {c : C} {drops : Prop} (hd : exact → ¬ drops) (hI : L.Inv c)
    (h : L.PhaseAt exact clean m [] o)
    (hm : Moved drops (L.held m.ctx o) (L.held c o) (L.asked m.ctx o) (L.asked c o) o fs) :
    L.PhaseAt exact clean ({ m with ctx := c }.runFrames B fs) [] o := by
  generalize hh' : L.held c o = held' at hm
  generalize ha' : L.asked c o = asked' at hm
  cases hm with
  | silent _ hs ha hheld =>
    rcases hheld with hheld | ⟨hdrop, hle⟩
    · refine L.phaseAt_runFrames hI (h.frame (by rw [hh', hheld]) (by rw [ha', ha]) hs rfl rfl rfl)
    · -- the operation may have been dropped: only the bounds survive
      have hexact : ¬ exact := fun hx => hd hx hdrop
      have hweak : L.PhaseAt exact clean { m with ctx := c } [] o := by
        unfold PhaseAt at h ⊢
        rw [hh', ha', ha]
        cases h with
        | idle hs hz hasked hq => exact .idle hs (by omega) hasked hq
        | live h hq =>
          exact .live { h with
            owed := by
              have := h.owed
              show (held' + L.asked m.ctx o : ℤ) ≤ (m.ops o).outstanding
              omega
            once := Nat.le_trans (Nat.add_le_add_right hle _) h.once
            balance := fun hx => absurd hx hexact } hq
        | done h => exact .done { h with held := by have := h.held; omega }
        | refused h hz => exact .refused h (by omega)
      exact L.phaseAt_runFrames hI (hweak.frame rfl rfl hs rfl rfl rfl)
  | notified f fs hf hs ha hheld =>
    exact phaseAt_pays hI h (.notifies hf (by rw [hheld, hh']) (by rw [ha', ha])) hs
  | answered fs hs ha hheld =>
    exact phaseAt_pays hI h (.answers rfl (by rw [hh', hheld]) (by rw [ha, ha'])) hs

/-- The stop callback of an operation that is not the last to count down asks the context. -/
theorem stopCallback_asks {a : A} (h : 0 < (m.ops o).outstanding) :
    m.stopCallback B o a =
      ((m.set o (m.ops o).invoke).note o (.cancelAsked (B.pending m.ctx o)),
        B.cancel m.ctx ⟨o, (m.ops o).op⟩ a) := by
  have hlt : 1 < (m.ops o).invoke.outstanding := by
    show 1 < (m.ops o).outstanding + 1
    omega
  rw [stopCallback, if_pos hlt]
  rfl

/-- The stop callback of an operation whose counter is at zero or below asks nothing. -/
theorem stopCallback_spent {a : A} (h : (m.ops o).outstanding ≤ 0) :
    m.stopCallback B o a = (m.set o (m.ops o).invoke, .ok (m.ctx, [])) := by
  have hlt : ¬ 1 < (m.ops o).invoke.outstanding := by
    show ¬ 1 < (m.ops o).outstanding + 1
    omega
  rw [stopCallback, if_neg hlt]

/-- What is owed to an operation whose cancellation was accepted. -/
theorem phaseAt_cancelled {c : C} {s : SenderState} (hI : L.Inv c)
    (h : Live exact s (L.held m.ctx o) 1) (hops : m.ops o = s) (hq : Silent o m.stack.flatten)
    (hc : Cancelled (L.held m.ctx o) (L.held c o) (L.asked c o) o fs) :
    L.PhaseAt exact clean ({ m with ctx := c }.runFrames B fs) [] o := by
  have hanswer : ∀ {m' : Machine C T} {fs : List (Frame T)}, L.Inv m'.ctx → m'.stack = m.stack →
      Live exact (m'.ops o) (L.held m'.ctx o) 1 → L.asked m'.ctx o = 0 → Silent o fs →
      L.PhaseAt exact clean (m'.runFrames B (.cancelOp o :: fs)) [] o := by
    intro m' fs hI' hstack hlive hasked hs
    refine L.phaseAt_runFrames_cons hI'
      (L.phaseAt_exec_of_pays hI' (.answers rfl rfl (by rw [hasked])) hlive rfl rfl ?_)
    intro f hf
    rcases List.mem_append.1 hf with hf | hf
    · exact hs f hf
    · exact hq f (hstack ▸ hf)
  generalize hh : L.held c o = held' at hc
  generalize ha : L.asked c o = asked' at hc
  cases hc with
  | now hheld hasked =>
    -- the operation's own call comes first: it cannot be the last to count down
    have hpays : Pays o (.cancel o : Frame T) (held' + 1) held' 1 1 := .notifies .cancel rfl rfl
    obtain ⟨s', e, reset, x, hlog, hout, hcb, hpaid, hexec⟩ :=
      exec_of_pays (B := B) (m := { m with ctx := c }) hpays (by
          rcases (hops ▸ h).callback with ⟨-, -, hz, -⟩ | hi
          · cases hz
          · show (m.ops o).callback ≠ .none
            rw [hi]; simp)
    have hlive' : Live exact s' (held' + 1) 1 := (hheld ▸ hops ▸ h).congr hlog hout hcb
    have hnot : s'.outstanding ≠ 1 := by
      have := hlive'.owed
      push_cast at this
      omega
    have hflag : (({ m with ctx := c } : Machine C T).exec B (.cancel o)).2 = false := by
      rw [hexec, SenderState.countDown_not_last hnot]
    rw [runFrames_cons_of_silent hflag]
    refine hanswer ?_ ?_ ?_ ?_ (by simp [Silent])
    · exact (L.exec_ledger (m := { m with ctx := c }) hI).1
    · exact exec_stack
    · rw [((L.exec_ledger (m := { m with ctx := c }) hI).2 o).1, hexec]
      simp only [set_ops_self]
      show Live exact _ (L.held c o) 1
      rw [hh]
      exact hlive'.not_last hpaid hnot reset x
    · rw [((L.exec_ledger (m := { m with ctx := c }) hI).2 o).2]
      exact ha.trans hasked
  | later hheld hasked =>
    refine hanswer hI rfl ?_ (ha.trans hasked) (by simp [Silent])
    show Live exact (m.ops o) (L.held c o) 1
    rw [hh, hheld, hops]
    exact h
  | request hheld hasked =>
    refine .live ?_ hq
    show Live exact (m.ops o) (L.held c o) (L.asked c o)
    rw [hh, hheld, ha, hasked, hops]
    exact h

/-- A stop request. -/
theorem sound_stop {a : A} (h : L.Sound exact clean m) (hguard : clean → (m.ops o).signals = [])
    (hstatus : m.status = none) (hcb : (m.ops o).callback = .registered)
    (hstep : (m.stopCallback B o a).1.perform B (m.stopCallback B o a).2 = some m') :
    L.Sound exact clean m' := by
  have hI := h.inv
  have hph := h.phase hstatus
  cases hph o with
  | idle hs => rw [hs] at hcb; cases hcb
  | refused hr _ => exact absurd hcb hr.callback
  | done hd =>
    -- the receiver was signalled already: the counter is incremented and nothing is asked
    obtain ⟨-, hout, hq⟩ := hd.rest.resolve_right fun hr => hr.1 hcb
    have hclean : ¬ clean := fun hc => by
      have := hd.signals
      rw [hguard hc] at this
      cases this
    rw [stopCallback_spent (Int.le_of_eq hout)] at hstep
    obtain rfl : m' = m.set o (m.ops o).invoke := (Option.some.inj hstep).symm
    refine .of_phases hI fun o' => ?_
    by_cases ho : o' = o
    · subst ho
      refine .done ?_
      simp only [set_ops_self]
      exact {
        begun := hd.begun.cons (by simp)
        signals := by rw [SenderState.signals_invoke]; exact hd.signals
        held := hd.held
        asked := hd.asked
        called := by rw [SenderState.calls_invoke]; exact hd.called
        rest := .inr ⟨by simp [SenderState.invoke], .inr hq⟩
        unused := fun hc => absurd hc hclean
        asks := fun hx b hb => hd.asks hx b (by simpa [SenderState.invoke] using hb) }
    · exact (hph o').frame rfl rfl (by simp [Silent]) (set_ops_of_ne _ _ ho) rfl rfl
  | live hl hq =>
    have hpending : exact → B.pending m.ctx o = true := fun hx => by
      rw [L.pending_iff, (hl.registered hcb).2.2.2 hx]
      exact Nat.zero_lt_one
    obtain ⟨hone, hasked, hlive⟩ := hl.asking hcb hpending
    rw [stopCallback_asks (by omega)] at hstep
    rcases perform_eq_some hstep with ⟨c, fs, hcancel, rfl⟩ | ⟨e, -, rfl⟩
    · obtain ⟨hI', hc, hother⟩ := L.cancel_spec hI hasked hcancel
      refine .of_phases (L.inv_runFrames hI') fun o' => ?_
      by_cases ho : o' = o
      · subst ho
        refine phaseAt_cancelled hI' hlive ?_ (by simpa using hq) hc
        simp
      · obtain ⟨hheld, hasked', hs⟩ := hother o' ho
        refine L.phaseAt_runFrames hI' ((hph o').frame hheld hasked' hs ?_ rfl rfl)
        exact (note_ops_of_ne _ _ ho).trans (set_ops_of_ne _ _ ho)
    · refine h.ended rfl fun o' => ?_
      by_cases ho : o' = o
      · subst ho
        have hphase : Phase exact clean (((m.set o' (m.ops o').invoke).note o'
            (.cancelAsked (B.pending m.ctx o'))).ops o') (L.held m.ctx o') 1 True :=
          .live (by simpa using hlive) trivial
        exact hphase.safe
      · show Safe exact clean (((m.set o (m.ops o).invoke).note o _).ops o')
        rw [note_ops_of_ne _ _ ho, set_ops_of_ne _ _ ho]
        exact h.safe o'

/-- An operation that has not been started is idle. -/
theorem PhaseAt.idle_of_log (h : L.PhaseAt exact clean m [] o) (hlog : (m.ops o).log = []) :
    m.ops o = {} ∧ L.held m.ctx o = 0 ∧ L.asked m.ctx o = 0 ∧ Silent o m.stack.flatten := by
  cases h with
  | idle hs hheld hasked hq => exact ⟨hs, hheld, hasked, hq⟩
  | live h => have := h.begun.1; rw [hlog] at this; cases this
  | done h => have := h.begun.1; rw [hlog] at this; cases this
  | refused h _ => have := h.started; rw [hlog] at this; cases this

/-- The operation after its submission: alive, and owed one call. -/
theorem live_begin (op : Operation) (r : SubmitResult) :
    Live exact { SenderState.begin {} op false with
      log := .submitted r :: (SenderState.begin {} op false).log } 1 0 where
  begun := by simp [Begun, SenderState.begin]
  signals := rfl
  pos := by simp [SenderState.begin]
  owed := by simp [SenderState.begin]
  once := Nat.le_refl 1
  balance := fun _ => by simp [SenderState.begin, SenderState.calls, OpEvent.call?]
  callback := .inl ⟨rfl, rfl, rfl, rfl⟩
  asks := fun _ b hb => by simp [SenderState.begin] at hb

/-- Starting with a stopped token. -/
theorem sound_start_stopped {io : IoBase} {a : A} (h : L.Sound exact clean m)
    (hstatus : m.status = none) (hlog : (m.ops io.self).log = [])
    (hstep : ((m.set io.self ((m.ops io.self).begin io.op true)).stopCallback B io.self a).1.perform
      B (((m.set io.self ((m.ops io.self).begin io.op true)).stopCallback B io.self a).2.map
        fun x => (x.1, x.2 ++ [.stopAtStart io.self])) = some m') :
    L.Sound exact clean m' := by
  have hI := h.inv
  have hph := h.phase hstatus
  obtain ⟨hs, hheld, hasked, hq⟩ := (hph io.self).idle_of_log hlog
  have hpos : 0 < ((m.set io.self ((m.ops io.self).begin io.op true)).ops io.self).outstanding := by
    rw [set_ops_self, hs]
    simp [SenderState.begin]
  -- the context does not have it
  have hpending : B.pending m.ctx io.self = false := by
    rw [Bool.eq_false_iff, ne_eq, L.pending_iff, hheld]
    exact Nat.lt_irrefl 0
  rw [stopCallback_asks hpos] at hstep
  simp only [set_ops_self, set_ctx, hs, hpending] at hstep
  generalize hm₂ : ((m.set io.self (SenderState.begin {} io.op true)).set io.self
    (SenderState.begin {} io.op true).invoke).note io.self _ = m₂ at hstep
  have href : Refused (m₂.ops io.self) := by
    subst hm₂
    constructor <;> simp [SenderState.begin, SenderState.invoke]
  have hother : ∀ o, o ≠ io.self → m₂.ops o = m.ops o := by
    intro o ho
    subst hm₂
    rw [note_ops_of_ne _ _ ho, set_ops_of_ne _ _ ho, set_ops_of_ne _ _ ho]
  have hctx : m₂.ctx = m.ctx := by subst hm₂; rfl
  have hstack : m₂.stack = m.stack := by subst hm₂; rfl
  rcases perform_eq_some hstep with ⟨c, fs', hcancel, rfl⟩ | ⟨e, -, rfl⟩
  · obtain ⟨⟨c', fs⟩, hcan, hfs⟩ : ∃ x, B.cancel m.ctx ⟨io.self, io.op⟩ a = .ok x ∧
        (x.1, x.2 ++ [.stopAtStart io.self]) = (c, fs') := by
      cases hc : B.cancel m.ctx ⟨io.self, io.op⟩ a with
      | error e =>
        rw [show (SenderState.begin {} io.op true).op = io.op from rfl, hc] at hcancel
        cases hcancel
      | ok x =>
        rw [show (SenderState.begin {} io.op true).op = io.op from rfl, hc] at hcancel
        exact ⟨x, rfl, by simpa [Except.map] using hcancel⟩
    cases hfs
    obtain ⟨hI', hcases, hrest⟩ := L.cancel_spec hI hasked hcan
    refine .of_phases (L.inv_runFrames hI') fun o => ?_
    by_cases ho : o = io.self
    · subst ho
      refine L.phaseAt_runFrames hI' (.refused href ?_)
      show L.held c' io.self = 0
      generalize L.held c' io.self = held' at hcases ⊢
      rw [hheld] at hcases
      cases hcases <;> omega
    · obtain ⟨hheld', hasked', hsil⟩ := hrest o ho
      refine L.phaseAt_runFrames hI' ((hph o).frame hheld' hasked' ?_ (hother o ho) rfl hstack)
      intro f hf
      rcases List.mem_append.1 hf with hf | hf
      · exact hsil f hf
      · obtain rfl := List.mem_singleton.1 hf
        simpa [Frame.target] using Ne.symm ho
  · refine h.ended hctx fun o => ?_
    by_cases ho : o = io.self
    · subst ho; exact .inl ⟨href.started, href.asked⟩
    · rw [hother o ho]
      exact h.safe o

/-- Starting with a token that is not stopped. -/
theorem sound_start_submit {io : IoBase} {req : R} {c : C} {fs : List (Frame T)} {r : SubmitResult}
    (h : L.Sound exact clean m) (hstatus : m.status = none) (hlog : (m.ops io.self).log = [])
    (hguard : clean → ¬ L.Inline m.ctx io req) (hsub : B.submit m.ctx io req = .ok (c, fs, r)) :
    L.Sound exact clean ((({ m.set io.self ((m.ops io.self).begin io.op false) with ctx := c } :
      Machine C T).note io.self (.submitted r)).runFrames B
        (fs ++ if r = .ready then [.complete io.self none] else [])) := by
  have hI := h.inv
  have hph := h.phase hstatus
  obtain ⟨hs, hheld, hasked, hq⟩ := (hph io.self).idle_of_log hlog
  obtain ⟨hI', hasked', hcases, hrest⟩ := L.submit_spec hI hheld hsub
  rw [hs]
  generalize hm₂ : (({ m.set io.self (SenderState.begin {} io.op false) with ctx := c } :
    Machine C T).note io.self (.submitted r)) = m₂
  have hctx : m₂.ctx = c := by subst hm₂; rfl
  have hstack : m₂.stack = m.stack := by subst hm₂; rfl
  have hlive : Live exact (m₂.ops io.self) 1 0 := by
    subst hm₂
    simpa using (live_begin io.op r : Live exact _ 1 0)
  have hI₂ : L.Inv m₂.ctx := hctx ▸ hI'
  have hasked₂ : L.asked m₂.ctx io.self = 0 := by rw [hctx, hasked', hasked]
  refine .of_phases (L.inv_runFrames hI₂) fun o => ?_
  by_cases ho : o = io.self
  · subst ho
    have hpaid : ∀ f : Frame T, Notifies io.self f → L.held c io.self = 0 →
        L.PhaseAt exact clean (m₂.runFrames B [f]) [] io.self := fun f hf hz =>
      L.phaseAt_runFrames_cons hI₂ (L.phaseAt_exec_of_pays hI₂ (.notifies hf rfl rfl) hlive
        (by rw [hctx, hz]) hasked₂ (by rw [hstack]; exact hq))
    cases hcases with
    | queued hone =>
      refine .live ?_ (by rw [show (m₂.runFrames B _) = m₂ from rfl, hstack]; exact hq)
      show Live exact (m₂.ops io.self) (L.held m₂.ctx io.self) (L.asked m₂.ctx io.self)
      rw [hasked₂, hctx, hone]
      exact hlive
    | ready hz => exact hpaid _ (.complete none) hz
    | error e hz => exact hpaid _ (.error e) hz
    | complete v hi hz =>
      -- completed by the context and once more by `start`
      have hclean : ¬ clean := fun hc => hguard hc hi
      refine L.phaseAt_runFrames_cons hI₂ (.done ?_)
      have hexec : (m₂.exec B (.complete io.self v)).1 = m₂.set io.self
          ((m₂.ops io.self).complete v).1 := rfl
      rw [((L.exec_ledger hI₂).2 io.self).1, ((L.exec_ledger hI₂).2 io.self).2, hasked₂, hctx, hz,
        hexec, set_ops_self]
      have hlive' : Live exact { m₂.ops io.self with value := v.getD (m₂.ops io.self).value } 1 0 :=
        hlive.congr rfl rfl rfl
      have hone : (m₂.ops io.self).outstanding = 1 := by
        subst hm₂
        simp [SenderState.begin]
      exact hlive'.last (.called _ rfl rfl rfl) hone (.inr ⟨hclean, rfl⟩) _
  · obtain ⟨hheld', hasked', hsil⟩ := hrest o ho
    have hops : m₂.ops o = m.ops o := by
      subst hm₂
      exact (note_ops_of_ne _ _ ho).trans (set_ops_of_ne _ _ ho)
    refine L.phaseAt_runFrames hI₂ ((hph o).frame hheld' hasked' ?_ hops hctx hstack)
    intro f hf
    rcases List.mem_append.1 hf with hf | hf
    · exact hsil f hf
    · split_ifs at hf
      · obtain rfl := List.mem_singleton.1 hf
        simpa [Frame.target] using Ne.symm ho
      · cases hf

/-- **Every step keeps every operation in a phase.** -/
theorem sound_step {l : Label R A K} (h : L.Sound exact clean m)
    (hz : ∀ o, (m.ops o).upstream = {}) (hguard : L.Guard exact clean m l)
    (hstep : m.step B l = some m') : L.Sound exact clean m' := by
  have hstatus := status_of_step hstep
  have hI := h.inv
  have hph := h.phase hstatus
  cases l with
  | start io req stopped a =>
    obtain ⟨hlog, hstart⟩ := step_start hstep
    rcases start_eq_some hstart with ⟨-, hstart⟩ | ⟨hs, c, fs, r, hsub, rfl⟩ | ⟨-, e, rfl⟩
    · exact sound_start_stopped h hstatus hlog hstart
    · exact sound_start_submit h hstatus hlog (fun hc => hguard hc hs) hsub
    · -- the submission ended the process
      refine h.ended rfl fun o => ?_
      by_cases ho : o = io.self
      · subst ho
        rw [set_ops_self, ((hph io.self).idle_of_log hlog).1]
        exact .inr ⟨by simp [SenderState.begin], Nat.zero_le 1,
          fun _ x hx => by simp [SenderState.begin] at hx,
          fun _ b hb => by simp [SenderState.begin] at hb⟩
      · rw [set_ops_of_ne _ _ ho]
        exact h.safe o
  | stop o a =>
    obtain ⟨hcb, hstop⟩ := step_stop hstep
    exact sound_stop h hguard hstatus hcb hstop
  | call k =>
    rcases perform_eq_some (step_call hstep) with ⟨c, fs, hk, rfl⟩ | ⟨e, -, rfl⟩
    · obtain ⟨hI', hm⟩ := L.call_spec hI hk
      exact .of_phases (L.inv_runFrames hI') fun o => phaseAt_call hguard hI' (hph o) (hm o)
    · exact h.ended rfl h.safe
  | ret =>
    -- the calls on top of the stack are part of what each phase already allows for
    obtain ⟨fs, rest, hstack, rfl⟩ := step_ret hstep
    refine .of_phases (L.inv_runFrames hI) fun o => L.phaseAt_runFrames hI ?_
    have ho := hph o
    unfold PhaseAt at ho ⊢
    rwa [hstack] at ho
  | upstream io u req stopped a =>
    have hpos := (step_upstream hstep).1
    rw [hz] at hpos
    cases hpos

/-- The initial state of a machine over a context that owes nothing. -/
structure Fresh (L : Ledger B) (c : C) : Prop where
  inv : L.Inv c
  held : ∀ o, L.held c o = 0
  asked : ∀ o, L.asked c o = 0

/-- **Every run keeps every operation in a phase.** -/
theorem Fresh.sound {c : C} (hc : L.Fresh c)
    (h : Runs B (L.Guard exact clean) c m) : L.Sound exact clean m :=
  Reaches.invariant₂ h (fun _ ht => Runs.never_started ht) (Sound.init hc.inv hc.held hc.asked)
    fun _ _ _ hz hs hg hstep => sound_step hs hz hg hstep

/-- Without the two conditions the guard admits every step. -/
theorem guard_free (m : Machine C T) (l : Label R A K) (_ : free m l) :
    L.Guard False False m l := by
  cases l with
  | start => exact fun hc => hc.elim
  | stop => exact fun hc => hc.elim
  | call => exact fun hx => hx.elim
  | ret => trivial
  | upstream => trivial

/-- Where no call drops an operation, the guard for that admits every step. -/
theorem guard_of_not_drops (hdrops : ∀ c k, ¬ L.Drops c k) (m : Machine C T) (l : Label R A K)
    (_ : free m l) : L.Guard True False m l := by
  cases l with
  | start => exact fun hc => hc.elim
  | stop => exact fun hc => hc.elim
  | call k => exact fun _ => hdrops _ k
  | ret => trivial
  | upstream => trivial

/-- The stop callback asks the context for an operation that it has, or asks nothing. -/
theorem Sound.asks_pending {a : A} (h : L.Sound True clean m) (hstatus : m.status = none)
    (hcb : (m.ops o).callback = .registered) :
    (m.stopCallback B o a).2 = .ok (m.ctx, []) ∨
      0 < L.held m.ctx o ∧ (m.stopCallback B o a).2 = B.cancel m.ctx ⟨o, (m.ops o).op⟩ a := by
  cases h.phase hstatus o with
  | idle hs => rw [hs] at hcb; cases hcb
  | refused hr _ => exact absurd hcb hr.callback
  | done hd =>
    obtain ⟨-, hout, -⟩ := hd.rest.resolve_right fun hr => hr.1 hcb
    rw [stopCallback_spent (Int.le_of_eq hout)]
    exact .inl rfl
  | live hl =>
    obtain ⟨hone, -, -, hheld⟩ := hl.registered hcb
    rw [stopCallback_asks (by omega), hheld trivial]
    exact .inr ⟨Nat.zero_lt_one, rfl⟩

end Ledger

end Net29
