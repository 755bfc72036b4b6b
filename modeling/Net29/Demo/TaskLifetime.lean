import Net29.Demo.Task

/-!
# A `task` that is destroyed by its receiver

A receiver may destroy the operation state, and with it the coroutine, when it is sent a signal; the
receiver of a job in a scope does.

* `Hazard`: a signal is sent with more to do;
* `Living`, `Fate`: what is used while it exists, with one lemma for all steps;
* `used_iff_hazard`: something is used too late exactly after a hazard.
-/

namespace Net29

open Transition

namespace DemoTask

variable {α β ε σ : Type}

section Destroyed

variable {c : Coroutine α β ε σ} {r : Option α} {s s' : State α β ε σ} {l : Label β ε}
  {ls : List (Label β ε)}

/-- The body lets an exception out, or is at its end inside the stop callback: a signal is sent to
the receiver by a step with more to do. -/
def Hazard (s : State α β ε σ) : Prop :=
  (∃ e, s.phase = .running (.throw e)) ∨ s.phase = .leaving ∧ s.Requesting

/-- Something of the task is on the stack that uses the operation state when it goes on. -/
def State.Active (s : State α β ε σ) : Prop := s.phase = .leaving ∨ s.Requesting

/-- The operation state was used when it did not exist, or is about to be. -/
def Doomed (s : State α β ε σ) : Prop := s.used = true ∨ s.alive = false ∧ s.Active

/-- The body has ended. -/
def Phase.ended : Phase α ε σ → Bool
  | .leaving | .finished | .abandoned => true
  | .idle | .running _ | .awaiting _ => false

/-- How the coroutine and the callback are when the operation state does not exist. -/
structure Dead (s : State α β ε σ) : Prop where
  ended : s.phase.ended = true
  registered : s.callback ≠ .registered
  free : s.callback ≠ .requesting true

/-- An operation state that does not exist is left with nothing but the end of calls. -/
def Living (s : State α β ε σ) : Prop := s.alive = false → Dead s

theorem Living.alive (h : Living s) (hended : s.phase.ended = false) : s.alive = true := by
  by_contra halive
  have hd := (h (by simpa using halive)).ended
  rw [hended] at hd
  cases hd

theorem signal_ne_registered {x : Signal α ε} : (s.signal false x).callback ≠ .registered := by
  unfold State.signal
  cases s.callback <;> simp

theorem Dead.of_signal {x : Signal α ε} (hended : s.phase.ended = true)
    (hfree : s.callback ≠ .requesting true) : Dead (s.signal false x) :=
  ⟨hended, signal_ne_registered, mt signal_callback.1 hfree⟩

theorem active_signal {x : Signal α ε} : (s.signal false x).Active ↔ s.Active :=
  or_congr Iff.rfl requesting_signal

/-- What a step means for the operation state. -/
inductive Fate (s : State α β ε σ) (l : Label β ε) (s' : State α β ε σ) : Prop
  | lives (halive : s.alive = true) (halive' : s'.alive = true) (hused' : s'.used = false)
      (hsafe : ¬ (l = .advance ∧ Hazard s))
  | dies (halive : s.alive = true) (hdead' : Dead s') (halive' : s'.alive = false)
      (hused' : s'.used = false) (hactive : s'.Active ↔ l = .advance ∧ Hazard s)
  | late (halive : s.alive = false) (hactive : s.Active) (hdead' : Dead s')
      (halive' : s'.alive = false) (hused' : s'.used = true)

theorem fate_of_stepped (h : Living s) (hstops : Stops s) (hused : s.used = false)
    (hstep : Stepped c false s l s') : Fate s l s' := by
  cases hstep with
  | start hp =>
    have halive := h.alive (by rw [hp]; rfl)
    exact .lives halive halive hused nofun
  | ret hp =>
    have halive := h.alive (by rw [hp]; rfl)
    exact .lives halive halive hused (by simp [Hazard, hp])
  | @throw e hp hfree =>
    have halive := h.alive (by rw [hp]; rfl)
    exact .dies halive (.of_signal rfl hfree) (Bool.and_false _) hused
      (iff_of_true (active_signal.2 (.inl rfl)) ⟨rfl, .inl ⟨e, hp⟩⟩)
  | await hp =>
    have halive := h.alive (by rw [hp]; rfl)
    exact .lives halive halive hused (by simp [Hazard, hp])
  | final hp hfree halive =>
    refine .dies halive (.of_signal rfl hfree) (Bool.and_false _) hused (active_signal.trans ?_)
    constructor
    · rintro (hphase | hrequesting)
      · cases hphase
      · exact ⟨rfl, .inr ⟨hp, hrequesting⟩⟩
    · rintro ⟨-, ⟨e, he⟩ | ⟨-, hrequesting⟩⟩
      · rw [hp] at he; cases he
      · exact .inr hrequesting
  | lateFinal hp hdead =>
    have hd := h hdead
    exact .late hdead (.inl hp) ⟨hd.ended, hd.registered, hd.free⟩ hdead rfl
  | resume hp =>
    have halive := h.alive (by rw [hp]; rfl)
    exact .lives halive halive hused nofun
  | stopped hp hstop =>
    have hquiet := hstops.quiet_of_running hstop
    refine .dies (h.alive (by rw [hp]; rfl)) (.of_signal rfl fun hr => hquiet ⟨_, hr⟩)
      (Bool.and_false _) hused (active_signal.trans (iff_of_false ?_ nofun))
    rintro (hphase | hrequesting)
    · cases hphase
    · exact hquiet hrequesting
  | putOff hp =>
    have halive := h.alive (by rw [hp]; rfl)
    exact .lives halive halive hused nofun
  | stop hcallback =>
    have halive : s.alive = true := by
      by_contra halive
      exact (h (by simpa using halive)).registered hcallback
    exact .lives halive halive hused nofun
  | @caughtUp b hcallback halive hstop =>
    have hphase := hstops.abandoned ⟨b, hcallback⟩ hstop
    refine .dies halive (.of_signal (hphase ▸ rfl) nofun) (Bool.and_false _) hused
      (active_signal.trans (iff_of_false ?_ nofun))
    rintro (hp | ⟨b', hb'⟩)
    · exact absurd (hphase.symm.trans hp) nofun
    · cases hb'
  | wentOn _ halive => exact .lives halive halive hused nofun
  | @lateReturn b hcallback hdead =>
    have hd := h hdead
    exact .late hdead (.inr ⟨b, hcallback⟩) ⟨hd.ended, hd.registered, hd.free⟩ hdead rfl

theorem Fate.living (h : Fate s l s') : Living s' := by
  cases h with
  | lives _ halive' => exact fun hd => absurd (halive'.symm.trans hd) nofun
  | dies _ hdead' => exact fun _ => hdead'
  | late _ _ hdead' => exact fun _ => hdead'

/-- The steps that doom the task are the hazards. -/
theorem Fate.doomed_iff (h : Fate s l s') (hused : s.used = false) :
    Doomed s' ↔ Doomed s ∨ l = .advance ∧ Hazard s := by
  have hdoomed : Doomed s ↔ s.alive = false ∧ s.Active := by simp [Doomed, hused]
  rw [hdoomed]
  cases h with
  | lives halive halive' hused' hsafe =>
    simp only [Doomed, halive, halive', hused', Bool.true_eq_false, Bool.false_eq_true, false_and,
      false_or, false_iff]
    exact hsafe
  | dies halive _ halive' hused' hactive => simp [Doomed, halive, halive', hused', hactive]
  | late halive hactive _ _ hused' => simp [Doomed, halive, hactive, hused']

/-- Some step of the run is a hazard. -/
def MeetsHazard (c : Coroutine α β ε σ) : State α β ε σ → List (Label β ε) → Prop
  | _, [] => False
  | s, l :: ls => l = .advance ∧ Hazard s ∨ ∃ s', s.step c false l = some s' ∧ MeetsHazard c s' ls

/-- What is known of a state of a run. -/
structure Known (c : Coroutine α β ε σ) (r : Option α) (s : State α β ε σ) : Prop where
  stage : Stage c r s
  stops : Stops s
  living : Living s

theorem known_initial : Known c r { taskResult := r } where
  stage := ⟨rfl, rfl, rfl, rfl⟩
  stops := .quiet (by rintro ⟨b, hb⟩; cases hb) (.inl rfl)
  living := nofun

theorem Known.fate (h : Known c r s) (hstep : s.step c false l = some s') : Fate s l s' :=
  have ⟨hused, hstepped⟩ := stepped_of_step hstep
  fate_of_stepped h.living h.stops hused hstepped

theorem Known.step (h : Known c r s) (hstep : s.step c false l = some s') : Known c r s' where
  stage := h.stage.step h.stops (stepped_of_step hstep).2
  stops := h.stops.step h.stage (stepped_of_step hstep).2
  living := (h.fate hstep).living

/-- Induction on the run: it is doomed by its first hazard, and stays so. -/
theorem doomed_of_run (h : Known c r s) (hrun : run (State.step c false) s ls = some s') :
    Known c r s' ∧ (Doomed s' ↔ Doomed s ∨ MeetsHazard c s ls) := by
  induction ls generalizing s with
  | nil =>
    cases hrun
    exact ⟨h, (or_iff_left id).symm⟩
  | cons l ls ih =>
    obtain ⟨t, hstep, hrun⟩ := Option.bind_eq_some_iff.1 hrun
    obtain ⟨hknown, hdoomed⟩ := ih (h.step hstep) hrun
    refine ⟨hknown, ?_⟩
    rw [hdoomed, (h.fate hstep).doomed_iff (stepped_of_step hstep).1, or_assoc]
    refine or_congr_right (or_congr_right ?_)
    constructor
    · exact fun hmeets => ⟨t, hstep, hmeets⟩
    · rintro ⟨t', hstep', hmeets⟩
      cases hstep.symm.trans hstep'
      exact hmeets

theorem Known.late (h : Known c r s) (hused : s.used = false) (halive : s.alive = false)
    (hactive : s.Active) :
    (∃ l s', s.step c false l = some s') ∧ ∀ l s', s.step c false l = some s' → s'.used = true := by
  constructor
  · have hstarted : s.phase ≠ .idle := by
      intro hp
      have hended := (h.living halive).ended
      rw [hp] at hended
      cases hended
    rcases quiet_or_unwinds c false hused hstarted with hquiet | ⟨l, s', -, hstep, -⟩
    · rcases hactive with hp | hrequesting
      · have hbody := hquiet.body
        unfold State.InBody at hbody
        rw [hp] at hbody
        exact absurd trivial hbody
      · exact absurd hrequesting hquiet.callback
    · exact ⟨l, s', hstep⟩
  · intro l s' hstep
    cases h.fate hstep with
    | lives h' => rw [halive] at h'; cases h'
    | dies h' => rw [halive] at h'; cases h'
    | late _ _ _ _ hused' => exact hused'

/-- **When a signal comes too early.** With a receiver that destroys the operation state, it is used
afterwards, or the next step is such a use, exactly if the body let an exception out or got to its
end inside the stop callback. -/
theorem used_iff_hazard (h : run (State.step c false) { taskResult := r } ls = some s) :
    (s.used = true ∨ s.alive = false ∧ s.Active ↔ MeetsHazard c { taskResult := r } ls) ∧
    (s.used = false → s.alive = false → s.Active →
      (∃ l s', s.step c false l = some s') ∧
        ∀ l s', s.step c false l = some s' → s'.used = true) := by
  obtain ⟨hknown, hdoomed⟩ := doomed_of_run known_initial h
  refine ⟨hdoomed.trans (or_iff_right ?_), hknown.late⟩
  rintro (hused | ⟨halive, -⟩)
  · cases hused
  · cases halive

/-- The sender completes with a value instead of being stopped: the body returns in the callback. -/
theorem used_iff_hazard_returnInStop :
    MeetsHazard awaitOne { taskResult := none }
      [.start false, .advance, .stop, .complete (.value 5), .advance, .advance] := by
  obtain ⟨s, hrun, halive, hcallback⟩ : ∃ s : State ℕ ℕ ℕ Unit,
      run (State.step awaitOne false) { taskResult := none }
        [.start false, .advance, .stop, .complete (.value 5), .advance, .advance] = some s ∧
      s.alive = false ∧ s.callback = .requesting false := ⟨_, rfl, rfl, rfl⟩
  exact (used_iff_hazard hrun).1.1 (.inr ⟨halive, .inr ⟨false, hcallback⟩⟩)

end Destroyed

end DemoTask
end Net29
