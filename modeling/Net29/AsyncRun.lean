import Net29.IoContext

/-!
# `run` and `async_run`

* `AsyncRun.Inv`: where the operation is, and what `run` has done by then;
* `Inv.progress`: it does not stop before `run` returns;
* `async_run_refines_run`: both make the same calls.
-/

namespace Net29

open RepeatEffectUntil Transition

namespace AsyncRun

/-! ### Where the operation is -/

variable {σ E : Type} {X : Execution σ E} {results : ℕ → ℕ} {sched : σ} {s s' : AsyncRun σ E}
  {l : AsyncRunLabel E}

/-- A body is running, which was connected from the scheduler given. -/
structure InBody (sched : σ) (loop : RepeatEffectUntil.State σ E) : Prop where
  started : loop.bodyState = some .started
  asking : loop.asking = false
  connected : loop.connects.head? = some sched

/-- What holds at every point. -/
def AtPoint (sched : σ) (s : AsyncRun σ E) : Point E → Prop
  | .idle | .entering => s.loop.upState = .connected ∧ s.lastCount ≠ 0
  | .upstream => s.loop.upState = .started ∧ s.lastCount ≠ 0
  | .asking => s.loop.asking = true
  | .bodyStart | .scheduling | .calling => InBody sched s.loop ∧ s.lastCount ≠ 0
  | .scheduled x => InBody sched s.loop ∧ s.lastCount ≠ 0 ∧ x = .value
  | .counted _ => InBody sched s.loop
  | .finished x | .bodyDone x => InBody sched s.loop ∧ x = .value
  | .left x => s.lastCount = 0 ∧ x = .value
  | .completed => s.lastCount = 0

/-- The last result of `run_one`, or 1 when it has not been called. -/
def latest (s : AsyncRun σ E) : ℕ :=
  match s.point with
  | .counted n => n
  | _ => s.lastCount

/-- The calls of `run_one` that have not returned. -/
def running (s : AsyncRun σ E) : ℕ :=
  match s.point with
  | .calling => 1
  | _ => 0

/-- What the receiver was sent. -/
def sent (s : AsyncRun σ E) : List (Completion E) :=
  match s.point with
  | .completed => [.value]
  | _ => []

/-- `run` made the same calls. -/
def Same (results : ℕ → ℕ) (s : AsyncRun σ E) (r : RunLoop) : Prop :=
  Reaches (RunLoop.step results) free {} r ∧ r.calls = s.returned ∧
    (r.returned = true ↔ s.latest = 0)

/-- The invariant of `async_run`. -/
structure Inv (results : ℕ → ℕ) (sched : σ) (s : AsyncRun σ E) : Prop where
  body : s.loop.body = sched
  atPoint : AtPoint sched s s.point
  same : ∃ r, Same results s r
  calls : s.calls = s.returned + s.running
  signals : s.signals = s.sent

theorem inv_initial (X : Execution σ E) (results : ℕ → ℕ) (sched : σ) :
    Inv results sched (initial X sched) where
  body := rfl
  atPoint := ⟨rfl, Nat.one_ne_zero⟩
  same := ⟨{}, .refl _, rfl, by simp [latest, initial]⟩
  calls := rfl
  signals := rfl

/-- A step between two calls of `run_one` and before the end. -/
theorem Inv.move (h : Inv results sched s) (hbody : s'.loop.body = sched)
    (hpoint : AtPoint sched s' s'.point) (hlatest : s'.latest = s.latest)
    (hreturned : s'.returned = s.returned) (hcalls : s'.calls = s'.returned + s'.running)
    (hsignals : s'.signals = s'.sent) : Inv results sched s' where
  body := hbody
  atPoint := hpoint
  same := by
    obtain ⟨r, hr, hreq, hiff⟩ := h.same
    exact ⟨r, hr, hreq.trans hreturned.symm, by rw [hlatest, hiff]⟩
  calls := hcalls
  signals := hsignals

/-- `run_one` returned: `run` has its result too. -/
theorem Inv.returned (h : Inv results sched s) (hp : s.point = .calling) :
    Inv results sched
      { s with point := .counted (results s.returned), returned := s.returned + 1 } := by
  have hat := h.atPoint
  have hcalls := h.calls
  have hsignals := h.signals
  rw [hp] at hat
  rw [running, hp] at hcalls
  rw [sent, hp] at hsignals
  refine ⟨h.body, hat.1, ?_, by simpa [running] using hcalls, hsignals⟩
  obtain ⟨r, hr, hreq, hiff⟩ := h.same
  have hnot : r.returned = false := by
    rw [latest, hp] at hiff
    cases hret : r.returned with
    | false => rfl
    | true => exact absurd (hiff.1 hret) hat.2
  refine ⟨r.next (results s.returned), hr.tail (l := ()) trivial ?_, ?_, ?_⟩
  · rw [RunLoop.step, hnot, hreq]
    rfl
  · unfold RunLoop.next
    split_ifs <;> simp [hreq]
  · unfold RunLoop.next
    split_ifs with hz <;> simp [latest, hz, hnot]

/-- `repeat_effect_until` calls the predicate. -/
theorem follow_asked {loop : RepeatEffectUntil.State σ E} {log : List (Event σ E)}
    (hlog : loop.log = .asked :: log) (hask : loop.asking = true) : follow loop = .asking := by
  rw [follow, hlog]
  exact if_pos hask

/-- An operation of `repeat_effect_until` sent a value: the predicate is called. -/
theorem Inv.asks (h : Inv results sched s) {loop : RepeatEffectUntil.State σ E}
    (hbody : loop.body = s.loop.body) (hlatest : s.latest = s.lastCount) (hrunning : s.running = 0)
    (hsent : s.sent = []) :
    Inv results sched { s with loop := loop.runNext, point := follow loop.runNext } := by
  rw [show follow loop.runNext = .asking from follow_asked rfl rfl]
  refine h.move ((reset_same loop).1.trans (hbody.trans h.body)) rfl hlatest.symm rfl ?_ ?_
  · exact h.calls.trans (congrArg _ hrunning)
  · exact h.signals.trans hsent

theorem Inv.upstream (hX : X.Documented) (h : Inv results sched s) (hp : s.point = .upstream)
    (hs : s.advance X (.upstream X.just) = some s') : Inv results sched s' := by
  have hat := h.atPoint
  rw [hp] at hat
  rw [hX.just, advance] at hs
  simp only [RepeatEffectUntil.State.step, if_pos hat.1, Option.map_some] at hs
  cases hs
  exact h.asks rfl (by rw [latest, hp]) (by rw [running, hp]) (by rw [sent, hp])

theorem Inv.bodyDone (h : Inv results sched s) (hp : s.point = .bodyDone .value)
    (hs : s.advance X (.body .value) = some s') : Inv results sched s' := by
  have hat := h.atPoint
  rw [hp] at hat
  rw [advance] at hs
  simp only [RepeatEffectUntil.State.step, if_pos hat.1.started, Option.map_some] at hs
  cases hs
  exact h.asks rfl (by rw [latest, hp]) (by rw [running, hp]) (by rw [sent, hp])

/-- The predicate returned: `repeat_effect_until` completes, or starts the next body. -/
theorem Inv.asked (hX : X.Documented) (h : Inv results sched s) (hp : s.point = .asking)
    (hs : s.advance X (.predicate (s.lastCount = 0)) = some s') : Inv results sched s' := by
  have hat := h.atPoint
  have hcalls := h.calls
  have hsignals := h.signals
  rw [hp] at hat
  rw [running, hp] at hcalls
  rw [sent, hp] at hsignals
  rw [advance] at hs
  simp only [RepeatEffectUntil.State.step, if_pos (show s.loop.asking = true from hat),
    Option.map_some] at hs
  cases hs
  by_cases hz : s.lastCount = 0
  · rw [decide_eq_true hz]
    exact h.move h.body ⟨hz, rfl⟩ (by rw [latest, latest, hp]; rfl) rfl hcalls hsignals
  · rw [decide_eq_false hz]
    refine h.move ((hX.moved _).trans h.body) ⟨⟨rfl, rfl, ?_⟩, hz⟩ (by rw [latest, latest, hp]; rfl)
      rfl hcalls hsignals
    exact congrArg some h.body

/-- A call of `start` returned. -/
theorem AtPoint.active {p : Point E} (h : AtPoint sched s p) (active : List Side) :
    AtPoint sched { s with loop := { s.loop with active := active } } p := by
  have hbody : InBody sched s.loop → InBody sched { s.loop with active := active } :=
    fun h => ⟨h.started, h.asking, h.connected⟩
  cases p with
  | idle => exact h
  | entering => exact h
  | upstream => exact h
  | asking => exact h
  | bodyStart => exact ⟨hbody h.1, h.2⟩
  | scheduling => exact ⟨hbody h.1, h.2⟩
  | scheduled x => exact ⟨hbody h.1, h.2⟩
  | calling => exact ⟨hbody h.1, h.2⟩
  | counted n => exact hbody h
  | finished x => exact ⟨hbody h.1, h.2⟩
  | bodyDone x => exact ⟨hbody h.1, h.2⟩
  | left x => exact h
  | completed => exact h

/-- The operations react as documented. -/
theorem Inv.tick (hX : X.Documented) (h : Inv results sched s) (hs : s.tick X = some s') :
    Inv results sched s' := by
  have hat := h.atPoint
  have hcalls := h.calls
  have hsignals := h.signals
  rw [running] at hcalls
  rw [sent] at hsignals
  cases hp : s.point with
  | idle => simp only [AsyncRun.tick, hp] at hs; cases hs
  | entering =>
    rw [hp] at hat hcalls hsignals
    simp only [AsyncRun.tick, hp, hX.letValue, RepeatEffectUntil.State.step, if_pos hat.1,
      Option.map_some] at hs
    cases hs
    exact h.move h.body ⟨rfl, hat.2⟩ (by rw [latest, latest, hp]) rfl hcalls hsignals
  | upstream =>
    simp only [AsyncRun.tick, hp] at hs
    exact h.upstream hX hp hs
  | asking =>
    simp only [AsyncRun.tick, hp] at hs
    exact h.asked hX hp hs
  | bodyStart =>
    rw [hp] at hat hcalls hsignals
    simp only [AsyncRun.tick, hp, hX.startsOn] at hs
    cases hs
    exact h.move h.body hat (by rw [latest, latest, hp]) rfl hcalls hsignals
  | scheduling => simp only [AsyncRun.tick, hp] at hs; cases hs
  | scheduled x =>
    rw [hp] at hat hcalls hsignals
    obtain ⟨hbody, hlast, rfl⟩ := hat
    simp only [AsyncRun.tick, hp, hX.scheduled] at hs
    cases hs
    exact h.move h.body ⟨hbody, hlast⟩ (by rw [latest, latest, hp]) rfl
      (congrArg (· + 1) hcalls) hsignals
  | calling => simp only [AsyncRun.tick, hp] at hs; cases hs
  | counted n =>
    rw [hp] at hat hcalls hsignals
    simp only [AsyncRun.tick, hp, hX.thenValue] at hs
    cases hs
    exact h.move h.body ⟨hat, rfl⟩ (by rw [latest, latest, hp]) rfl hcalls hsignals
  | finished x =>
    rw [hp] at hat hcalls hsignals
    simp only [AsyncRun.tick, hp, hX.finished] at hs
    cases hs
    exact h.move h.body hat (by rw [latest, latest, hp]) rfl hcalls hsignals
  | bodyDone x =>
    rw [hp] at hat
    obtain ⟨-, rfl⟩ := hat
    simp only [AsyncRun.tick, hp] at hs
    exact h.bodyDone hp hs
  | left x =>
    rw [hp] at hat hcalls hsignals
    obtain ⟨hlast, rfl⟩ := hat
    simp only [AsyncRun.tick, hp, hX.outer] at hs
    cases hs
    exact h.move h.body hlast (by rw [latest, latest, hp]) rfl hcalls
      (congrArg (Completion.value :: ·) hsignals)
  | completed => simp only [AsyncRun.tick, hp] at hs; cases hs

/-- **Every step keeps the invariant.** -/
theorem Inv.step (hX : X.Documented) (h : Inv results sched s) (hguard : Schedules sched s l)
    (hs : s.step X results l = some s') : Inv results sched s' := by
  have hat := h.atPoint
  have hcalls := h.calls
  have hsignals := h.signals
  cases l with
  | start =>
    simp only [AsyncRun.step] at hs
    split at hs
    · next hp =>
      cases hs
      rw [hp] at hat
      rw [running, hp] at hcalls
      rw [sent, hp] at hsignals
      exact h.move h.body hat (by rw [latest, latest, hp]) rfl hcalls hsignals
    · cases hs
  | scheduled x =>
    simp only [AsyncRun.step] at hs
    split at hs
    · next hp =>
      cases hs
      rw [hp] at hat
      rw [running, hp] at hcalls
      rw [sent, hp] at hsignals
      exact h.move h.body ⟨hat.1, hat.2, hguard hat.1.connected⟩ (by rw [latest, latest, hp]) rfl
        hcalls hsignals
    · cases hs
  | returned =>
    simp only [AsyncRun.step] at hs
    split at hs
    · next hp => cases hs; exact h.returned hp
    · cases hs
  | ret =>
    obtain ⟨loop, hloop, rfl⟩ := Option.map_eq_some_iff.1 hs
    simp only [RepeatEffectUntil.State.step] at hloop
    split at hloop
    · cases hloop
    · split_ifs at hloop
      cases hloop
      exact h.move h.body (hat.active _) rfl rfl hcalls hsignals
  | tick => exact h.tick hX hs

/-! ### Progress -/

/-- How far the operation is from the next result, or from its end. -/
def rank : Point E → ℕ
  | .idle => 10
  | .entering => 9
  | .upstream | .counted _ => 8
  | .finished _ => 7
  | .bodyDone _ => 6
  | .asking => 5
  | .bodyStart | .left _ => 4
  | .scheduling => 3
  | .scheduled _ => 2
  | .calling => 1
  | .completed => 0

/-- `run_one` returned, or the operation is nearer to the next result or its end. -/
def Nearer (s s' : AsyncRun σ E) : Prop :=
  s'.returned = s.returned + 1 ∨ s'.returned = s.returned ∧ rank s'.point < rank s.point

theorem Inv.tick_progress (hX : X.Documented) (h : Inv results sched s)
    (hpoint : s.tick X = none) :
    s.point = .idle ∨ s.point = .scheduling ∨ s.point = .calling ∨ s.point = .completed := by
  have hat := h.atPoint
  cases hp : s.point with
  | idle => exact .inl rfl
  | scheduling => exact .inr (.inl rfl)
  | calling => exact .inr (.inr (.inl rfl))
  | completed => exact .inr (.inr (.inr rfl))
  | entering =>
    rw [hp] at hat
    simp [AsyncRun.tick, hp, hX.letValue, RepeatEffectUntil.State.step, hat.1] at hpoint
  | upstream =>
    rw [hp] at hat
    simp [AsyncRun.tick, hp, advance, RepeatEffectUntil.State.step, hat.1] at hpoint
  | asking =>
    rw [hp] at hat
    have hask : s.loop.asking = true := hat
    simp [AsyncRun.tick, hp, advance, RepeatEffectUntil.State.step, hask] at hpoint
  | bodyStart => simp [AsyncRun.tick, hp, hX.startsOn] at hpoint
  | scheduled x =>
    rw [hp] at hat
    simp [AsyncRun.tick, hp, hat.2.2, hX.scheduled] at hpoint
  | counted n => simp [AsyncRun.tick, hp] at hpoint
  | finished x => simp [AsyncRun.tick, hp] at hpoint
  | bodyDone x =>
    rw [hp] at hat
    simp [AsyncRun.tick, hp, advance, RepeatEffectUntil.State.step, hat.1.started] at hpoint
  | left x => simp [AsyncRun.tick, hp] at hpoint

/-- Every reaction leads nearer. -/
theorem Inv.tick_nearer (hX : X.Documented) (h : Inv results sched s) (hs : s.tick X = some s') :
    Nearer s s' := by
  have hat := h.atPoint
  have hfollow : ∀ loop : RepeatEffectUntil.State σ E, follow loop.runNext = .asking :=
    fun loop => follow_asked rfl rfl
  refine .inr ?_
  cases hp : s.point with
  | idle => simp only [AsyncRun.tick, hp] at hs; cases hs
  | scheduling => simp only [AsyncRun.tick, hp] at hs; cases hs
  | calling => simp only [AsyncRun.tick, hp] at hs; cases hs
  | completed => simp only [AsyncRun.tick, hp] at hs; cases hs
  | entering =>
    simp only [AsyncRun.tick, hp, hX.letValue] at hs
    obtain ⟨loop, -, rfl⟩ := Option.map_eq_some_iff.1 hs
    exact ⟨rfl, Nat.lt_succ_self 8⟩
  | upstream =>
    rw [hp] at hat
    simp only [AsyncRun.tick, hp, hX.just, advance, RepeatEffectUntil.State.step, if_pos hat.1,
      Option.map_some, State.receive, hfollow] at hs
    cases hs
    exact ⟨rfl, (by decide : 5 < 8)⟩
  | asking =>
    rw [hp] at hat
    have hask : s.loop.asking = true := hat
    simp only [AsyncRun.tick, hp, advance, RepeatEffectUntil.State.step, if_pos hask,
      Option.map_some] at hs
    cases hs
    by_cases hz : s.lastCount = 0
    · rw [decide_eq_true hz]
      exact ⟨rfl, Nat.lt_succ_self 4⟩
    · rw [decide_eq_false hz]
      exact ⟨rfl, Nat.lt_succ_self 4⟩
  | bodyStart =>
    simp only [AsyncRun.tick, hp, hX.startsOn] at hs
    cases hs
    exact ⟨rfl, Nat.lt_succ_self 3⟩
  | scheduled x =>
    rw [hp] at hat
    obtain ⟨-, -, rfl⟩ := hat
    simp only [AsyncRun.tick, hp, hX.scheduled] at hs
    cases hs
    exact ⟨rfl, Nat.lt_succ_self 1⟩
  | counted n =>
    simp only [AsyncRun.tick, hp] at hs
    cases hs
    exact ⟨rfl, Nat.lt_succ_self 7⟩
  | finished x =>
    simp only [AsyncRun.tick, hp] at hs
    cases hs
    exact ⟨rfl, Nat.lt_succ_self 6⟩
  | bodyDone x =>
    rw [hp] at hat
    obtain ⟨hbody, rfl⟩ := hat
    simp only [AsyncRun.tick, hp, advance, RepeatEffectUntil.State.step, if_pos hbody.started,
      Option.map_some, State.receive, hfollow] at hs
    cases hs
    exact ⟨rfl, Nat.lt_succ_self 5⟩
  | left x =>
    simp only [AsyncRun.tick, hp] at hs
    cases hs
    exact ⟨rfl, Nat.zero_lt_succ 3⟩

/-- **Until it has completed the operation goes on**, and every step but the return of a `start`
leads nearer to the next result or to the end. -/
theorem Inv.progress (hX : X.Documented) (h : Inv results sched s) (hp : s.point ≠ .completed) :
    ∃ l s', Schedules sched s l ∧ s.step X results l = some s' ∧ Nearer s s' := by
  cases hs : s.tick X with
  | some s' => exact ⟨.tick, s', trivial, hs, h.tick_nearer hX hs⟩
  | none =>
    rcases h.tick_progress hX hs with hp' | hp' | hp' | hp'
    · refine ⟨.start, { s with point := .entering }, trivial, ?_, .inr ⟨rfl, ?_⟩⟩
      · simp only [AsyncRun.step, hp']
      · rw [hp']; exact Nat.lt_succ_self 9
    · refine ⟨.scheduled .value, { s with point := .scheduled .value }, fun _ => rfl, ?_,
        .inr ⟨rfl, ?_⟩⟩
      · simp only [AsyncRun.step, hp']
      · rw [hp']; exact Nat.lt_succ_self 2
    · refine ⟨.returned,
        { s with point := .counted (results s.returned), returned := s.returned + 1 }, trivial, ?_,
        .inl rfl⟩
      simp only [AsyncRun.step, hp']
    · exact absurd hp' hp

end AsyncRun

/-! ### Refinement -/

namespace RunLoop

variable {results : ℕ → ℕ} {r r' : RunLoop}

/-- `run` goes on while the results are not zero, and returns at the first that is. -/
structure Ok (results : ℕ → ℕ) (r : RunLoop) : Prop where
  before : ∀ i, i + 1 < r.calls → results i ≠ 0
  returned : r.returned = true ↔ 0 < r.calls ∧ results (r.calls - 1) = 0

theorem ok_of_reaches (h : Reaches (RunLoop.step results) free {} r) : Ok results r := by
  refine h.invariant ⟨fun i hi => absurd hi (Nat.not_lt_zero _), by simp⟩
    fun r l r' hr _ hstep => ?_
  simp only [RunLoop.step] at hstep
  split_ifs at hstep with hret
  cases hstep
  have hcalls : (r.next (results r.calls)).calls = r.calls + 1 := by
    unfold next
    split_ifs <;> rfl
  refine ⟨fun i hi => ?_, ?_⟩
  · rw [hcalls] at hi
    rcases Nat.lt_succ_iff_lt_or_eq.1 hi with hlt | heq
    · exact hr.before i hlt
    · intro hz
      refine hret (hr.returned.2 ⟨by omega, ?_⟩)
      rwa [← heq, Nat.add_sub_cancel]
  · rw [hcalls, Nat.add_sub_cancel]
    unfold next
    split_ifs with hz
    · simp [hz]
    · simp [hz, hret]

end RunLoop

namespace AsyncRun

variable {σ E : Type} {X : Execution σ E} {results : ℕ → ℕ} {sched : σ} {s s' : AsyncRun σ E}

/-- The states of `async_run` on a scheduler. -/
def Reached (X : Execution σ E) (results : ℕ → ℕ) (sched : σ) (s : AsyncRun σ E) : Prop :=
  Reaches (step X results) (Schedules sched) (initial X sched) s

/-- `async_run` and `run` have made the same calls of `run_one`. -/
structure Refines (s : AsyncRun σ E) (r : RunLoop) : Prop where
  returned : s.returned = r.calls
  /-- one after the other, and none when `run` has returned -/
  calls : s.calls = s.returned ∨ s.calls = s.returned + 1 ∧ r.returned = false
  /-- the receiver is signalled once, when `run` has returned -/
  signals : s.signals = [] ∨ s.signals = [.value] ∧ r.returned = true

theorem inv_of_reached (hX : X.Documented) (h : Reached X results sched s) :
    Inv results sched s :=
  Reaches.invariant h (inv_initial X results sched) fun _ _ _ hI hguard hs => hI.step hX hguard hs

theorem Same.refines (h : Inv results sched s) {r : RunLoop} (hr : Same results s r) :
    Refines s r := by
  have hat := h.atPoint
  have hcalls := h.calls
  have hsignals := h.signals
  obtain ⟨-, hreturned, hiff⟩ := hr
  refine ⟨hreturned.symm, ?_, ?_⟩
  · by_cases hp : s.point = .calling
    · rw [running, hp] at hcalls
      rw [hp] at hat
      rw [latest, hp] at hiff
      refine .inr ⟨hcalls, ?_⟩
      cases hret : r.returned with
      | false => rfl
      | true => exact absurd (hiff.1 hret) hat.2
    · refine .inl (hcalls.trans ?_)
      rw [running]
      split
      · next hp' => exact absurd hp' hp
      · rfl
  · by_cases hp : s.point = .completed
    · rw [sent, hp] at hsignals
      rw [hp] at hat
      rw [latest, hp] at hiff
      exact .inr ⟨hsignals, hiff.2 hat⟩
    · refine .inl (hsignals.trans ?_)
      rw [sent]
      split
      · next hp' => exact absurd hp' hp
      · rfl

/-- From every state a next result or the end is reached, by induction on the distance to it. -/
theorem next_result (hX : X.Documented) (h : Reached X results sched s)
    (hp : s.point ≠ .completed) :
    ∃ s', Reached X results sched s' ∧
      (s'.returned = s.returned + 1 ∨ s'.returned = s.returned ∧ s'.point = .completed) := by
  generalize hn : rank s.point = n
  induction n using Nat.strongRecOn generalizing s with
  | ind n ih =>
    obtain ⟨l, s₁, hguard, hstep, hreturned | ⟨hreturned, hrank⟩⟩ :=
      (inv_of_reached hX h).progress hX hp
    · exact ⟨s₁, Reaches.tail h hguard hstep, .inl hreturned⟩
    · have h₁ : Reached X results sched s₁ := Reaches.tail h hguard hstep
      by_cases hp₁ : s₁.point = .completed
      · exact ⟨s₁, h₁, .inr ⟨hreturned, hp₁⟩⟩
      · obtain ⟨s', hs', hend⟩ := ih _ (hn ▸ hrank) h₁ hp₁ rfl
        rw [hreturned] at hend
        exact ⟨s', hs', hend⟩

/-- Every call that `run` makes `async_run` can make, by induction on the run of `run`. -/
theorem reached_of_run (sched : σ) (hX : X.Documented) {r : RunLoop}
    (hr : Reaches (RunLoop.step results) free {} r) :
    ∃ s, Reached X results sched s ∧ s.returned = r.calls := by
  refine (Reaches.invariant₂ (J := RunLoop.Ok results)
    (I := fun r => ∃ s, Reached X results sched s ∧ s.returned = r.calls) hr
    (fun _ => RunLoop.ok_of_reaches) ⟨initial X sched, .refl _, rfl⟩ ?_)
  rintro r l r' hok ⟨s, hs, hreturned⟩ - hstep
  simp only [RunLoop.step] at hstep
  split_ifs at hstep with hret
  cases hstep
  have hcalls : (r.next (results r.calls)).calls = r.calls + 1 := by
    unfold RunLoop.next
    split_ifs <;> rfl
  -- as long as `run` goes on, `async_run` has not completed
  have hopen : ∀ s, Reached X results sched s → s.returned = r.calls → s.point ≠ .completed := by
    intro s hs hreturned hp
    have hI := inv_of_reached hX hs
    have hat := hI.atPoint
    obtain ⟨r₁, hr₁, hcalls₁, hiff⟩ := hI.same
    rw [hp] at hat
    rw [latest, hp] at hiff
    have hret₁ := (RunLoop.ok_of_reaches hr₁).returned.1 (hiff.2 hat)
    rw [hcalls₁, hreturned] at hret₁
    exact hret (hok.returned.2 hret₁)
  obtain ⟨s', hs', hnext | ⟨hsame, hp⟩⟩ := next_result hX hs (hopen s hs hreturned)
  · exact ⟨s', hs', by rw [hcalls, hnext, hreturned]⟩
  · exact absurd hp (hopen s' hs' (hsame.trans hreturned))

/-- When `run` has returned, `async_run` completes. -/
theorem completes_of_returned (sched : σ) (hX : X.Documented) {r : RunLoop}
    (hr : Reaches (RunLoop.step results) free {} r) (hret : r.returned = true) :
    ∃ s, Reached X results sched s ∧ s.returned = r.calls ∧ s.signals = [.value] := by
  obtain ⟨s, hs, hreturned⟩ := reached_of_run sched hX hr
  obtain ⟨hpos, hzero⟩ := (RunLoop.ok_of_reaches hr).returned.1 hret
  have hdone : ∀ s, Reached X results sched s → s.point = .completed → s.signals = [.value] := by
    intro s hs hp
    have hsignals := (inv_of_reached hX hs).signals
    rwa [sent, hp] at hsignals
  by_cases hp : s.point = .completed
  · exact ⟨s, hs, hreturned, hdone s hs hp⟩
  · obtain ⟨s', hs', hnext | ⟨hsame, hp'⟩⟩ := next_result hX hs hp
    · -- no call follows the first result 0
      obtain ⟨r₁, hr₁, hcalls₁, -⟩ := (inv_of_reached hX hs').same
      have hlt : r.calls - 1 + 1 < r₁.calls := by omega
      exact absurd hzero ((RunLoop.ok_of_reaches hr₁).before _ hlt)
    · exact ⟨s', hs', hsame.trans hreturned, hdone s' hs' hp'⟩

/-- **`async_run` refines `run`**, whatever `run_one` returns and whenever the scheduler completes:
in every state it has made the calls of `run`, one after the other, and it completes, once and with
`set_value`, when `run` returns; until then it goes on. Every call of `run` is made, and when `run`
returns it completes. -/
theorem async_run_refines_run (X : Execution σ E) (hX : X.Documented) (results : ℕ → ℕ)
    (sched : σ) :
    (∀ s, Reached X results sched s →
      (∃ r, Reaches (RunLoop.step results) free {} r ∧ Refines s r) ∧
      (s.signals = [] → ∃ l s', Schedules sched s l ∧ s.step X results l = some s' ∧
        Nearer s s')) ∧
    (∀ r, Reaches (RunLoop.step results) free {} r →
      ∃ s, Reached X results sched s ∧ s.returned = r.calls ∧
        (r.returned = true → s.signals = [.value])) := by
  refine ⟨fun s hs => ?_, fun r hr => ?_⟩
  · have hI := inv_of_reached hX hs
    obtain ⟨r, hr⟩ := hI.same
    refine ⟨⟨r, hr.1, hr.refines hI⟩, fun hsignals => hI.progress hX fun hp => ?_⟩
    have hsent := hI.signals
    rw [sent, hp, hsignals] at hsent
    cases hsent
  · cases hret : r.returned with
    | false =>
      obtain ⟨s, hs, hreturned⟩ := reached_of_run sched hX hr
      exact ⟨s, hs, hreturned, by simp⟩
    | true =>
      obtain ⟨s, hs, hreturned, hsignals⟩ := completes_of_returned sched hX hr hret
      exact ⟨s, hs, hreturned, fun _ => hsignals⟩

/-- Adaptors that do what is documented. -/
def documented (σ E : Type) : Execution σ E where
  moved sched := sched
  just := .value
  startsOn := .goOn
  scheduled
    | .value => .goOn
    | x => .complete x
  finished x := x
  thenValue f n v := (f n v, .value)
  letValue := .goOn
  outer
    | .stopped => .stopped
    | _ => .value

theorem async_run_refines_run_twoCalls :
    ∃ s : AsyncRun ℕ ℕ, Reached (documented ℕ ℕ) (fun i => 1 - i) 7 s ∧ s.returned = 2 ∧
      s.signals = [.value] := by
  have hX : (documented ℕ ℕ).Documented :=
    ⟨fun _ => rfl, rfl, rfl, rfl, fun _ => rfl, fun _ _ _ => rfl, rfl, rfl⟩
  -- `run_one` returns 1 and then 0
  have hrun : Reaches (RunLoop.step fun i => 1 - i) free {}
      { count := 1, calls := 2, returned := true } :=
    ((Reaches.refl _).tail (l := ()) (u := { count := 1, calls := 1 }) trivial rfl).tail (l := ())
      trivial rfl
  obtain ⟨s, hs, hreturned, hsignals⟩ :=
    (async_run_refines_run (documented ℕ ℕ) hX (fun i => 1 - i) 7).2 _ hrun
  exact ⟨s, hs, hreturned, hsignals rfl⟩

end AsyncRun

end Net29
