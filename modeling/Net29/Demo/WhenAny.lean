import Net29.Lib.Tally
import Net29.Lib.Transition
import Mathlib.Tactic.Common

/-!
# `when_any`

`when_any` starts all its senders and completes with the completion of the first one, after all of
them have completed. The receivers of the senders share a state with two atomic counters; they may
be called by different threads, or by one from inside a call of another.

* `Phase`: how far the receiver of a sender is with the completion it was given, from one atomic
  operation to the next;
* `State`, `step`: the shared state and what can happen next, in any order;
* `Inv`: what the counters say about the phases, and who may write the result;
* `completes_with_first`: what the receiver of `when_any` is sent, and when.
-/

namespace Net29

open Transition Tally

namespace WhenAny

/-- A completion: of a sender, and of `when_any`. -/
inductive Completion (α ε : Type)
  | setValue (a : α)
  | setError (e : ε)
  | setStopped
  deriving DecidableEq, Repr

/-- How far the receiver of a sender is. -/
inductive Phase (α ε : Type)
  /-- the sender is not started -/
  | idle
  /-- the sender is started and has not completed -/
  | running
  /-- before `done_count++` in `complete` -/
  | completing (x : Completion α ε)
  /-- `complete` found the count at 0: before `request_stop` -/
  | stopping (x : Completion α ε)
  /-- `complete` returned true: before the result is emplaced -/
  | storing (x : Completion α ε)
  /-- before `++ready_count` in `ready` -/
  | readying
  /-- `++ready_count` returned `k`: before this is compared with `total`, which is read from the
  state -/
  | comparing (k : ℕ)
  /-- `ready` found the count at `total`: in `notify_done` -/
  | notifying
  /-- the call has returned -/
  | finished
  deriving DecidableEq, Repr

variable {α ε : Type} {n : ℕ}

/-- What the phase adds to `done_count`. -/
def Phase.done : Phase α ε → ℕ
  | .idle | .running | .completing _ => 0
  | .stopping _ | .storing _ | .readying | .comparing _ | .notifying | .finished => 1

/-- What the phase adds to `ready_count`. -/
def Phase.ready : Phase α ε → ℕ
  | .comparing _ | .notifying | .finished => 1
  | .idle | .running | .completing _ | .stopping _ | .storing _ | .readying => 0

/-- `state` of `when_any` on `n` senders, with the stop state of its `source` and what was sent to
its receiver (newest first). `started` is how many senders `start` has started, `sent` what each of
them has sent; `first` is the one for which `done_count++` returned 0. -/
structure State (n : ℕ) (α ε : Type) where
  doneCount : ℕ := 0
  readyCount : ℕ := 0
  error : Option ε := none
  value : Option α := none
  stopRequested : Bool := false
  phase : Fin n → Phase α ε := fun _ => .idle
  signals : List (Completion α ε) := []
  started : ℕ := 0
  sent : Fin n → Option (Completion α ε) := fun _ => none
  first : Option (Fin n) := none

/-- What can happen next. -/
inductive Label (n : ℕ) (α ε : Type)
  /-- `start` starts the next sender -/
  | start (i : Fin n)
  /-- a sender that was started completes -/
  | complete (i : Fin n) (x : Completion α ε)
  /-- the receiver of a sender does its next atomic operation -/
  | next (i : Fin n)
  deriving DecidableEq, Repr

namespace State

variable (s : State n α ε)

/-- The receiver of sender `i` is in another phase. -/
def move (i : Fin n) (p : Phase α ε) : State n α ε :=
  { s with phase := Function.update s.phase i p }

/-- `emplace`: the receiver's `set_stopped` has nothing to store. -/
def store : Completion α ε → State n α ε
  | .setValue a => { s with value := some a }
  | .setError e => { s with error := some e }
  | .setStopped => s

/-- What `notify_done` sends. -/
def notifyDone : Completion α ε :=
  match s.error with
  | some e => .setError e
  | none =>
      match s.value with
      | some a => .setValue a
      | none => .setStopped

/-- The next atomic operation of the receiver of sender `i`. -/
def next (i : Fin n) : Option (State n α ε) :=
  match s.phase i with
  | .idle | .running | .finished => none
  | .completing x =>
      let s' := { s with doneCount := s.doneCount + 1 }
      if s.doneCount = 0 then some ({ s' with first := some i }.move i (.stopping x))
      else some (s'.move i .readying)
  | .stopping x => some ({ s with stopRequested := true }.move i (.storing x))
  | .storing x => some ((s.store x).move i .readying)
  | .readying =>
      some ({ s with readyCount := s.readyCount + 1 }.move i (.comparing (s.readyCount + 1)))
  | .comparing k => if k = n then some (s.move i .notifying) else some (s.move i .finished)
  | .notifying => some ({ s with signals := s.notifyDone :: s.signals }.move i .finished)

/-- One step: the senders are started in their order, and complete once. -/
def step : Label n α ε → Option (State n α ε)
  | .start i =>
      if i = s.started then some ({ s with started := s.started + 1 }.move i .running) else none
  | .complete i x =>
      match s.phase i with
      | .running =>
          some ({ s with sent := Function.update s.sent i (some x) }.move i (.completing x))
      | _ => none
  | .next i => s.next i

end State

/-! ### One step -/

section Steps

variable {s s' : State n α ε} {i : Fin n} {l : Label n α ε} {x : Completion α ε}

/-- The receiver of sender `i` moves on. -/
inductive Advance (s : State n α ε) (i : Fin n) : State n α ε → Prop
  | first {x : Completion α ε} (hp : s.phase i = .completing x) (hzero : s.doneCount = 0) :
      Advance s i ({ s with doneCount := s.doneCount + 1, first := some i }.move i (.stopping x))
  | later {x : Completion α ε} (hp : s.phase i = .completing x) (hne : s.doneCount ≠ 0) :
      Advance s i ({ s with doneCount := s.doneCount + 1 }.move i .readying)
  | stop {x : Completion α ε} (hp : s.phase i = .stopping x) :
      Advance s i ({ s with stopRequested := true }.move i (.storing x))
  | store {x : Completion α ε} (hp : s.phase i = .storing x) :
      Advance s i ((s.store x).move i .readying)
  | count (hp : s.phase i = .readying) :
      Advance s i
        ({ s with readyCount := s.readyCount + 1 }.move i (.comparing (s.readyCount + 1)))
  | last (hp : s.phase i = .comparing n) : Advance s i (s.move i .notifying)
  | leave {k : ℕ} (hp : s.phase i = .comparing k) (hk : k ≠ n) : Advance s i (s.move i .finished)
  | notify (hp : s.phase i = .notifying) :
      Advance s i ({ s with signals := s.notifyDone :: s.signals }.move i .finished)

theorem advance_of_next (h : s.next i = some s') : Advance s i s' := by
  unfold State.next at h
  cases hp : s.phase i with
  | idle => rw [hp] at h; cases h
  | running => rw [hp] at h; cases h
  | finished => rw [hp] at h; cases h
  | completing x =>
    rw [hp] at h
    dsimp only at h
    split_ifs at h with hzero
    · cases h; exact .first hp hzero
    · cases h; exact .later hp hzero
  | stopping x => rw [hp] at h; cases h; exact .stop hp
  | storing x => rw [hp] at h; cases h; exact .store hp
  | readying => rw [hp] at h; cases h; exact .count hp
  | comparing k =>
    rw [hp] at h
    dsimp only at h
    split_ifs at h with hk
    · cases h; exact .last (hk ▸ hp)
    · cases h; exact .leave hp hk
  | notifying => rw [hp] at h; cases h; exact .notify hp

/-- A step starts a sender, is the completion of one, or lets a receiver move on. -/
inductive Stepped (s : State n α ε) : Label n α ε → State n α ε → Prop
  | start {i : Fin n} (hi : i = s.started) :
      Stepped s (.start i) ({ s with started := s.started + 1 }.move i .running)
  | complete {i : Fin n} {x : Completion α ε} (hp : s.phase i = .running) :
      Stepped s (.complete i x)
        ({ s with sent := Function.update s.sent i (some x) }.move i (.completing x))
  | next {i : Fin n} {s' : State n α ε} (h : Advance s i s') : Stepped s (.next i) s'

theorem stepped_of_step (h : s.step l = some s') : Stepped s l s' := by
  cases l with
  | start i =>
    simp only [State.step] at h
    split_ifs at h with hi
    cases h
    exact .start hi
  | complete i x =>
    simp only [State.step] at h
    split at h
    · next hp =>
      cases h
      exact .complete hp
    · cases h
  | next i => exact .next (advance_of_next h)

end Steps

/-! ### The invariant -/

section Invariant

variable {s s' : State n α ε} {i w : Fin n} {l : Label n α ε} {x : Completion α ε} {p : Phase α ε}

@[simp] theorem move_phase_self : (s.move i p).phase i = p := Function.update_self ..

theorem move_phase_of_ne (h : w ≠ i) : (s.move i p).phase w = s.phase w :=
  Function.update_of_ne h ..

/-- The counters count the phases. -/
structure Counted (s : State n α ε) : Prop where
  done : s.doneCount = tally Phase.done s.phase
  ready : s.readyCount = tally Phase.ready s.phase

/-- What a sender in this phase has sent. -/
def Phase.Carries : Phase α ε → Option (Completion α ε) → Prop
  | .idle, o | .running, o => o = none
  | .completing x, o | .stopping x, o | .storing x, o => o = some x
  | .readying, o | .comparing _, o | .notifying, o | .finished, o => o.isSome

/-- The senders are started in order and complete once. -/
structure Sending (s : State n α ε) : Prop where
  idle : ∀ i, s.phase i = .idle ↔ s.started ≤ i
  sent : ∀ i, (s.phase i).Carries (s.sent i)

/-- The call of `complete`, and the emplacement of the result if it was due, are over. -/
inductive Phase.Left : Phase α ε → Prop
  | readying : Left .readying
  | comparing (k : ℕ) : Left (.comparing k)
  | notifying : Left .notifying
  | finished : Left .finished

/-- The value that is emplaced. -/
def Completion.value? : Completion α ε → Option α
  | .setValue a => some a
  | _ => none

/-- The error that is emplaced. -/
def Completion.error? : Completion α ε → Option ε
  | .setError e => some e
  | _ => none

/-- Only the receiver of the first sender to complete requests stop and writes the result. -/
inductive Winner (s : State n α ε) : Prop
  | undecided (hfirst : s.first = none) (hdone : s.doneCount = 0) (hvalue : s.value = none)
      (herror : s.error = none) (hstop : s.stopRequested = false)
  | stopping (w : Fin n) (x : Completion α ε) (hfirst : s.first = some w)
      (hphase : s.phase w = .stopping x) (hvalue : s.value = none) (herror : s.error = none)
      (hstop : s.stopRequested = false)
  | storing (w : Fin n) (x : Completion α ε) (hfirst : s.first = some w)
      (hphase : s.phase w = .storing x) (hvalue : s.value = none) (herror : s.error = none)
      (hstop : s.stopRequested = true)
  | stored (w : Fin n) (x : Completion α ε) (hfirst : s.first = some w)
      (hphase : (s.phase w).Left) (hsent : s.sent w = some x) (hvalue : s.value = x.value?)
      (herror : s.error = x.error?) (hstop : s.stopRequested = true)

/-- No other receiver is in these phases. -/
def OnlyFirst (s : State n α ε) : Prop :=
  ∀ i x, s.phase i = .stopping x ∨ s.phase i = .storing x → s.first = some i

/-- The receiver was counted as ready and was not the last: it has returned, or only compares the
count with `total`. -/
inductive Phase.Leaving (n : ℕ) : Phase α ε → Prop
  | comparing {k : ℕ} (hk : k < n) : Leaving n (.comparing k)
  | finished : Leaving n .finished

/-- The receiver did not take the count to `total`. -/
structure Phase.Early (n : ℕ) (p : Phase α ε) : Prop where
  notifying : p ≠ .notifying
  comparing : ∀ k, p = .comparing k → k < n

/-- The receiver of `when_any` is sent a signal by the last call of `ready`. -/
inductive Notified (s : State n α ε) : Prop
  | before (hsignals : s.signals = []) (hphase : ∀ i, (s.phase i).Early n)
      (hcount : s.readyCount < n)
  | now (i : Fin n) (hsignals : s.signals = [])
      (hphase : s.phase i = .comparing n ∨ s.phase i = .notifying)
      (hrest : ∀ j, j ≠ i → (s.phase j).Leaving n)
  | after (hsignals : s.signals = [s.notifyDone]) (hphase : ∀ i, (s.phase i).Leaving n)

theorem Counted.move (h : Counted s) (hphase : s'.phase = Function.update s.phase i p)
    (hdone : s'.doneCount + (s.phase i).done = s.doneCount + p.done)
    (hready : s'.readyCount + (s.phase i).ready = s.readyCount + p.ready) : Counted s' := by
  have hd := tally_update Phase.done s.phase i p
  have hr := tally_update Phase.ready s.phase i p
  rw [← hphase] at hd hr
  have h₁ := h.done
  have h₂ := h.ready
  constructor <;> omega

theorem Counted.step (h : Counted s) (hs : Sending s) (hstep : Stepped s l s') : Counted s' := by
  cases hstep with
  | start hi =>
    have hp := (hs.idle _).2 (Nat.le_of_eq hi.symm)
    exact h.move rfl (by rw [hp]; rfl) (by rw [hp]; rfl)
  | complete hp => exact h.move rfl (by rw [hp]; rfl) (by rw [hp]; rfl)
  | next ha =>
    cases ha with
    | first hp => exact h.move rfl (by rw [hp]; rfl) (by rw [hp]; rfl)
    | later hp => exact h.move rfl (by rw [hp]; rfl) (by rw [hp]; rfl)
    | stop hp => exact h.move rfl (by rw [hp]; rfl) (by rw [hp]; rfl)
    | @store x hp => cases x <;> exact h.move rfl (by rw [hp]; rfl) (by rw [hp]; rfl)
    | count hp => exact h.move rfl (by rw [hp]; rfl) (by rw [hp]; rfl)
    | last hp => exact h.move rfl (by rw [hp]; rfl) (by rw [hp]; rfl)
    | leave hp => exact h.move rfl (by rw [hp]; rfl) (by rw [hp]; rfl)
    | notify hp => exact h.move rfl (by rw [hp]; rfl) (by rw [hp]; rfl)

theorem Sending.move (h : Sending s) (hphase : s'.phase = Function.update s.phase i p)
    (hsent : s'.sent = s.sent) (hstarted : s'.started = s.started) (hold : s.phase i ≠ .idle)
    (hnew : p ≠ .idle) (hcarries : p.Carries (s.sent i)) : Sending s' := by
  constructor
  · intro j
    rw [hphase, hstarted, ← h.idle j]
    by_cases hj : j = i
    · subst hj
      simp [hold, hnew]
    · rw [Function.update_of_ne hj]
  · intro j
    rw [hphase, hsent]
    by_cases hj : j = i
    · subst hj
      rwa [Function.update_self]
    · rw [Function.update_of_ne hj]
      exact h.sent j

theorem Sending.step (h : Sending s) (hstep : Stepped s l s') : Sending s' := by
  have hsome : ∀ {i : Fin n} {x : Completion α ε}, (s.phase i = .completing x ∨
      s.phase i = .storing x) → (s.sent i).isSome := by
    intro i x hp
    have hcarries := h.sent i
    rcases hp with hp | hp
    · rw [hp] at hcarries
      exact Option.isSome_iff_exists.2 ⟨x, hcarries⟩
    · rw [hp] at hcarries
      exact Option.isSome_iff_exists.2 ⟨x, hcarries⟩
  cases hstep with
  | @start i hi =>
    have hidle := (h.idle i).2 (Nat.le_of_eq hi.symm)
    constructor
    · intro j
      by_cases hj : j = i
      · subst hj
        simp [State.move, hi]
      · rw [move_phase_of_ne hj]
        have hne : (j : ℕ) ≠ s.started := fun hc => hj (Fin.ext (hc.trans hi.symm))
        refine (h.idle j).trans ?_
        simp only [State.move]
        omega
    · intro j
      by_cases hj : j = i
      · subst hj
        rw [move_phase_self]
        have hcarries := h.sent j
        rw [hidle] at hcarries
        exact hcarries
      · rw [move_phase_of_ne hj]
        exact h.sent j
  | @complete i x hp =>
    constructor
    · intro j
      by_cases hj : j = i
      · subst hj
        rw [move_phase_self]
        refine Iff.trans ?_ (h.idle j)
        simp [hp]
      · rw [move_phase_of_ne hj]
        exact h.idle j
    · intro j
      by_cases hj : j = i
      · subst hj
        rw [move_phase_self]
        exact Function.update_self ..
      · rw [move_phase_of_ne hj]
        refine (congrArg (Phase.Carries _) ?_).mpr (h.sent j)
        exact Function.update_of_ne hj ..
  | @next i _ ha =>
    have hcarries := h.sent i
    cases ha with
    | first hp =>
      exact h.move rfl rfl rfl (by simp [hp]) (by simp) (by rw [hp] at hcarries; exact hcarries)
    | later hp => exact h.move rfl rfl rfl (by simp [hp]) (by simp) (hsome (.inl hp))
    | stop hp =>
      exact h.move rfl rfl rfl (by simp [hp]) (by simp) (by rw [hp] at hcarries; exact hcarries)
    | @store x hp =>
      cases x <;> exact h.move rfl rfl rfl (by simp [hp]) (by simp) (hsome (.inr hp))
    | count hp =>
      exact h.move rfl rfl rfl (by simp [hp]) (by simp) (by rw [hp] at hcarries; exact hcarries)
    | last hp =>
      exact h.move rfl rfl rfl (by simp [hp]) (by simp) (by rw [hp] at hcarries; exact hcarries)
    | leave hp =>
      exact h.move rfl rfl rfl (by simp [hp]) (by simp) (by rw [hp] at hcarries; exact hcarries)
    | notify hp =>
      exact h.move rfl rfl rfl (by simp [hp]) (by simp) (by rw [hp] at hcarries; exact hcarries)

/-- The winner is not concerned by what another receiver does. -/
theorem Winner.congr (h : Winner s) (hfirst : s'.first = s.first) (hvalue : s'.value = s.value)
    (herror : s'.error = s.error) (hstop : s'.stopRequested = s.stopRequested)
    (hdone : s.first = none → s'.doneCount = s.doneCount)
    (hphase : ∀ w, s.first = some w →
      s'.phase w = s.phase w ∨ (s.phase w).Left ∧ (s'.phase w).Left)
    (hsent : ∀ w, s.first = some w → s'.sent w = s.sent w) : Winner s' := by
  have hleft : ∀ {p : Phase α ε} {x : Completion α ε},
      p.Left → p ≠ .stopping x ∧ p ≠ .storing x := by
    rintro p x (_ | _ | _ | _) <;> simp
  cases h with
  | undecided hf hd hv he hs =>
    exact .undecided (hfirst.trans hf) ((hdone hf).trans hd) (hvalue.trans hv) (herror.trans he)
      (hstop.trans hs)
  | stopping w x hf hp hv he hs =>
    rcases hphase w hf with heq | ⟨hl, -⟩
    · exact .stopping w x (hfirst.trans hf) (heq.trans hp) (hvalue.trans hv) (herror.trans he)
        (hstop.trans hs)
    · exact absurd hp (hleft hl).1
  | storing w x hf hp hv he hs =>
    rcases hphase w hf with heq | ⟨hl, -⟩
    · exact .storing w x (hfirst.trans hf) (heq.trans hp) (hvalue.trans hv) (herror.trans he)
        (hstop.trans hs)
    · exact absurd hp (hleft hl).2
  | stored w x hf hp hx hv he hs =>
    refine .stored w x (hfirst.trans hf) ?_ ((hsent w hf).trans hx) (hvalue.trans hv)
      (herror.trans he) (hstop.trans hs)
    rcases hphase w hf with heq | ⟨-, hl⟩
    · exact heq ▸ hp
    · exact hl

/-- The first sender to complete is past `done_count++`. -/
theorem Winner.past (h : Winner s) (hw : s.first = some w) :
    (∃ x, s.phase w = .stopping x ∨ s.phase w = .storing x) ∨ (s.phase w).Left := by
  cases h with
  | undecided hf => rw [hf] at hw; cases hw
  | stopping w' x hf hp => rw [hf] at hw; cases hw; exact .inl ⟨x, .inl hp⟩
  | storing w' x hf hp => rw [hf] at hw; cases hw; exact .inl ⟨x, .inr hp⟩
  | stored w' x hf hp => rw [hf] at hw; cases hw; exact .inr hp

/-- A receiver before `done_count++` is not that of the first sender to complete. -/
theorem Winner.ne_of_early (h : Winner s) (hw : s.first = some w)
    (hp : s.phase i = .idle ∨ s.phase i = .running ∨ ∃ x, s.phase i = .completing x) : w ≠ i := by
  rintro rfl
  rcases h.past hw with ⟨y, hy | hy⟩ | hl
  · rcases hp with hp | hp | ⟨x, hp⟩ <;> rw [hp] at hy <;> cases hy
  · rcases hp with hp | hp | ⟨x, hp⟩ <;> rw [hp] at hy <;> cases hy
  · rcases hp with hp | hp | ⟨x, hp⟩ <;> rw [hp] at hl <;> cases hl

theorem Winner.of_stopping (h : Winner s) (hfirst : s.first = some i)
    (hp : s.phase i = .stopping x) : s.value = none ∧ s.error = none := by
  cases h with
  | undecided _ _ hv he => exact ⟨hv, he⟩
  | stopping _ _ _ _ hv he => exact ⟨hv, he⟩
  | storing _ _ _ _ hv he => exact ⟨hv, he⟩
  | stored w y hf hl =>
    obtain rfl : w = i := Option.some.inj (hf.symm.trans hfirst)
    rw [hp] at hl
    cases hl

theorem Winner.of_storing (h : Winner s) (hfirst : s.first = some i)
    (hp : s.phase i = .storing x) :
    s.value = none ∧ s.error = none ∧ s.stopRequested = true := by
  cases h with
  | undecided hf => rw [hf] at hfirst; cases hfirst
  | stopping w y hf hp' =>
    obtain rfl : w = i := Option.some.inj (hf.symm.trans hfirst)
    rw [hp] at hp'
    cases hp'
  | storing _ _ _ _ hv he hst => exact ⟨hv, he, hst⟩
  | stored w y hf hl =>
    obtain rfl : w = i := Option.some.inj (hf.symm.trans hfirst)
    rw [hp] at hl
    cases hl

theorem Phase.Left.done {p : Phase α ε} (h : p.Left) : p.done = 1 := by cases h <;> rfl

/-- There is a first sender once `done_count` is not 0. -/
theorem Winner.first_eq_none_iff (h : Winner s) (hc : Counted s) :
    s.first = none ↔ s.doneCount = 0 := by
  constructor
  · intro hf
    cases h with
    | undecided _ hd => exact hd
    | stopping w x hf' => rw [hf] at hf'; cases hf'
    | storing w x hf' => rw [hf] at hf'; cases hf'
    | stored w x hf' => rw [hf] at hf'; cases hf'
  · intro hzero
    rw [hc.done, tally_eq_zero_iff] at hzero
    cases hf : s.first with
    | none => rfl
    | some w =>
      have hw := hzero w
      rcases h.past hf with ⟨x, hx | hx⟩ | hl
      · rw [hx] at hw; cases hw
      · rw [hx] at hw; cases hw
      · rw [hl.done] at hw; cases hw

theorem Winner.step (h : Winner s) (hc : Counted s) (ho : OnlyFirst s) (hs : Sending s)
    (hstep : Stepped s l s') : Winner s' := by
  cases hstep with
  | @start i hi =>
    have hidle := (hs.idle i).2 (Nat.le_of_eq hi.symm)
    refine h.congr rfl rfl rfl rfl (fun _ => rfl) (fun w hw => .inl ?_) fun _ _ => rfl
    exact move_phase_of_ne (h.ne_of_early hw (.inl hidle))
  | @complete i x hp =>
    have hne : ∀ w, s.first = some w → w ≠ i := fun w hw => h.ne_of_early hw (.inr (.inl hp))
    refine h.congr rfl rfl rfl rfl (fun _ => rfl) (fun w hw => .inl ?_) fun w hw => ?_
    · exact move_phase_of_ne (hne w hw)
    · exact Function.update_of_ne (hne w hw) ..
  | @next i _ ha =>
    have hmove : ∀ {t : State n α ε} {p : Phase α ε}, (s.phase i).Left → p.Left →
        t.phase = s.phase → ∀ w, (t.move i p).phase w = s.phase w ∨
          (s.phase w).Left ∧ ((t.move i p).phase w).Left := by
      intro t p hold hnew ht w
      by_cases hw : w = i
      · subst hw
        exact .inr ⟨hold, by rwa [move_phase_self]⟩
      · exact .inl (by rw [move_phase_of_ne hw, ht])
    cases ha with
    | @first x hp hzero =>
      have hnone := (h.first_eq_none_iff hc).2 hzero
      cases h with
      | undecided _ _ hv he hst => exact .stopping i x rfl move_phase_self hv he hst
      | stopping w y hf => rw [hnone] at hf; cases hf
      | storing w y hf => rw [hnone] at hf; cases hf
      | stored w y hf => rw [hnone] at hf; cases hf
    | @later x hp hne =>
      refine h.congr rfl rfl rfl rfl (fun hf => ?_) (fun w hw => .inl ?_) fun _ _ => rfl
      · exact absurd ((h.first_eq_none_iff hc).1 hf) hne
      · exact move_phase_of_ne (h.ne_of_early hw (.inr (.inr ⟨x, hp⟩)))
    | @stop x hp =>
      have hfirst := ho i x (.inl hp)
      obtain ⟨hv, he⟩ := h.of_stopping hfirst hp
      exact .storing i x hfirst move_phase_self hv he rfl
    | @store x hp =>
      have hfirst := ho i x (.inr hp)
      have hsent := hs.sent i
      rw [hp] at hsent
      obtain ⟨hv, he, hst⟩ := h.of_storing hfirst hp
      cases x with
      | setValue a =>
        exact .stored i _ hfirst (by rw [move_phase_self]; exact .readying) hsent rfl he hst
      | setError e =>
        exact .stored i _ hfirst (by rw [move_phase_self]; exact .readying) hsent hv rfl hst
      | setStopped =>
        exact .stored i _ hfirst (by rw [move_phase_self]; exact .readying) hsent hv he hst
    | count hp =>
      exact h.congr rfl rfl rfl rfl (fun _ => rfl)
        (fun w _ => hmove (hp ▸ .readying) (.comparing _) rfl w) fun _ _ => rfl
    | last hp =>
      exact h.congr rfl rfl rfl rfl (fun _ => rfl)
        (fun w _ => hmove (hp ▸ .comparing _) .notifying rfl w) fun _ _ => rfl
    | leave hp =>
      exact h.congr rfl rfl rfl rfl (fun _ => rfl)
        (fun w _ => hmove (hp ▸ .comparing _) .finished rfl w) fun _ _ => rfl
    | notify hp =>
      exact h.congr rfl rfl rfl rfl (fun _ => rfl)
        (fun w _ => hmove (hp ▸ .notifying) .finished rfl w) fun _ _ => rfl

/-- A receiver that moves on without deciding leaves the others as they are. -/
theorem OnlyFirst.move (h : OnlyFirst s) (hphase : s'.phase = Function.update s.phase i p)
    (hfirst : s'.first = s.first)
    (hp : ∀ x, p = .stopping x ∨ p = .storing x → s.first = some i) : OnlyFirst s' := by
  intro j x hj
  rw [hfirst]
  rw [hphase] at hj
  by_cases hji : j = i
  · subst hji
    rw [Function.update_self] at hj
    exact hp x hj
  · rw [Function.update_of_ne hji] at hj
    exact h j x hj

theorem OnlyFirst.step (h : OnlyFirst s) (hw : Winner s) (hc : Counted s)
    (hstep : Stepped s l s') : OnlyFirst s' := by
  cases hstep with
  | start => exact h.move rfl rfl (by simp)
  | complete => exact h.move rfl rfl (by simp)
  | @next i _ ha =>
    cases ha with
    | @first x hp hzero =>
      intro j y hj
      by_cases hji : j = i
      · rw [hji]
        rfl
      · -- nobody decided before
        rw [move_phase_of_ne hji] at hj
        have hfirst := h j y hj
        rw [(hw.first_eq_none_iff hc).2 hzero] at hfirst
        cases hfirst
    | later => exact h.move rfl rfl (by simp)
    | @stop x hp => exact h.move rfl rfl fun _ _ => h i x (.inl hp)
    | @store x hp => cases x <;> exact h.move rfl rfl (by simp)
    | count => exact h.move rfl rfl (by simp)
    | last => exact h.move rfl rfl (by simp)
    | leave => exact h.move rfl rfl (by simp)
    | notify => exact h.move rfl rfl (by simp)

theorem Phase.ready_le_one (p : Phase α ε) : p.ready ≤ 1 := by
  cases p <;> simp [Phase.ready]

theorem forall_move {P : Phase α ε → Prop} (h : ∀ j, P (s.phase j)) (hp : P p) (j : Fin n) :
    P ((s.move i p).phase j) := by
  by_cases hj : j = i
  · rwa [hj, move_phase_self]
  · rw [move_phase_of_ne hj]
    exact h j

/-- While a receiver was not counted as ready nothing was sent. -/
theorem Notified.early (h : Notified s) (hi : (s.phase i).ready = 0) :
    s.signals = [] ∧ (∀ j, (s.phase j).Early n) ∧ s.readyCount < n := by
  have hnot : ¬ (s.phase i).Leaving n := by
    intro hl
    generalize s.phase i = p at hi hl
    cases hl <;> cases hi
  cases h with
  | before hsig hphase hcount => exact ⟨hsig, hphase, hcount⟩
  | now j _ hphase hrest =>
    by_cases hij : i = j
    · subst hij
      rcases hphase with hp | hp <;> rw [hp] at hi <;> cases hi
    · exact absurd (hrest i hij) hnot
  | after _ hphase => exact absurd (hphase i) hnot

theorem Phase.early_of_ready (hp : p.ready = 0) : p.Early n := by
  constructor
  · rintro rfl
    cases hp
  · rintro k rfl
    cases hp

/-- A receiver that was not counted moves on, and is not counted then either. -/
theorem Notified.move {t : State n α ε} (h : Notified s) (hphase : t.phase = s.phase)
    (hsignals : t.signals = s.signals) (hcount : t.readyCount = s.readyCount)
    (hi : (s.phase i).ready = 0) (hp : p.ready = 0) : Notified (t.move i p) := by
  obtain ⟨hsig, hall, hlt⟩ := h.early hi
  rw [← hphase] at hall
  exact .before (hsignals.trans hsig) (forall_move hall (Phase.early_of_ready hp)) (hcount ▸ hlt)

/-- The receiver that takes the count to `total` is the last one. -/
theorem Notified.count (h : Notified s) (hc : Counted s) (hp : s.phase i = .readying) :
    Notified
      ({ s with readyCount := s.readyCount + 1 }.move i (.comparing (s.readyCount + 1))) := by
  obtain ⟨hsig, hall, hlt⟩ := h.early (i := i) (by rw [hp]; rfl)
  rcases Nat.lt_or_ge (s.readyCount + 1) n with hless | hge
  · refine .before hsig (forall_move hall ⟨by simp, fun k hk => ?_⟩) hless
    cases hk
    exact hless
  · have hn : s.readyCount + 1 = n := Nat.le_antisymm hlt hge
    refine .now i hsig (.inl (by rw [move_phase_self, hn])) fun j hj => ?_
    rw [move_phase_of_ne hj]
    -- after the step every receiver is counted
    have htally := tally_update Phase.ready s.phase i (.comparing n)
    rw [← hc.ready, hp] at htally
    have hcard : tally Phase.ready (Function.update s.phase i (.comparing n)) =
        Fintype.card (Fin n) := by
      rw [Fintype.card_fin]
      simp only [Phase.ready] at htally
      omega
    have hone := (tally_eq_card_iff Phase.ready_le_one).1 hcard j
    rw [Function.update_of_ne hj] at hone
    cases hpj : s.phase j with
    | comparing k => exact .comparing ((hall j).comparing k hpj)
    | finished => exact .finished
    | notifying => exact absurd hpj (hall j).notifying
    | _ => rw [hpj] at hone; cases hone

/-- A receiver that was not the last returns. -/
theorem Notified.leave {k : ℕ} (h : Notified s) (hp : s.phase i = .comparing k) (hk : k ≠ n) :
    Notified (s.move i .finished) := by
  cases h with
  | before hsig hphase hcount =>
    exact .before hsig (forall_move hphase ⟨by simp, by simp⟩) hcount
  | now w hsig hphase hothers =>
    have hne : w ≠ i := by
      rintro rfl
      rcases hphase with hw | hw
      · rw [hp] at hw
        cases hw
        exact hk rfl
      · rw [hp] at hw
        cases hw
    refine .now w hsig (by rwa [move_phase_of_ne hne]) fun j hj => ?_
    by_cases hji : j = i
    · rw [hji, move_phase_self]
      exact .finished
    · rw [move_phase_of_ne hji]
      exact hothers j hj
  | after hsig hphase => exact .after hsig (forall_move hphase .finished)

/-- The last receiver goes on to `notify_done`, and from there returns. -/
theorem Notified.last (h : Notified s)
    (hp : s.phase i = .comparing n ∨ s.phase i = .notifying) :
    s.signals = [] ∧ ∀ j, j ≠ i → (s.phase j).Leaving n := by
  have hlast : ¬ (s.phase i).Leaving n := by
    intro hl
    rcases hp with hp | hp
    · rw [hp] at hl
      cases hl with
      | comparing hk => exact Nat.lt_irrefl n hk
    · rw [hp] at hl
      cases hl
  cases h with
  | before _ hphase =>
    rcases hp with hp | hp
    · exact absurd ((hphase i).comparing n hp) (Nat.lt_irrefl n)
    · exact absurd hp (hphase i).notifying
  | now j hsig hphase hrest =>
    have hij : i = j := by
      by_contra hne
      exact hlast (hrest i hne)
    subst hij
    exact ⟨hsig, hrest⟩
  | after _ hphase => exact absurd (hphase i) hlast

theorem Notified.step (h : Notified s) (hc : Counted s) (hs : Sending s)
    (hstep : Stepped s l s') : Notified s' := by
  cases hstep with
  | @start i hi =>
    have hidle := (hs.idle i).2 (Nat.le_of_eq hi.symm)
    exact h.move rfl rfl rfl (by rw [hidle]; rfl) rfl
  | complete hp => exact h.move rfl rfl rfl (by rw [hp]; rfl) rfl
  | @next i _ ha =>
    cases ha with
    | first hp => exact h.move rfl rfl rfl (by rw [hp]; rfl) rfl
    | later hp => exact h.move rfl rfl rfl (by rw [hp]; rfl) rfl
    | stop hp => exact h.move rfl rfl rfl (by rw [hp]; rfl) rfl
    | @store x hp => cases x <;> exact h.move rfl rfl rfl (by rw [hp]; rfl) rfl
    | count hp => exact h.count hc hp
    | last hp =>
      obtain ⟨hsig, hrest⟩ := h.last (.inl hp)
      refine .now i hsig (.inr move_phase_self) fun j hj => ?_
      rw [move_phase_of_ne hj]
      exact hrest j hj
    | leave hp hk => exact h.leave hp hk
    | notify hp =>
      obtain ⟨hsig, hrest⟩ := h.last (.inr hp)
      refine .after (congrArg (s.notifyDone :: ·) hsig) fun j => ?_
      by_cases hj : j = i
      · rw [hj, move_phase_self]
        exact .finished
      · rw [move_phase_of_ne hj]
        exact hrest j hj

/-- The invariant. -/
structure Inv (s : State n α ε) : Prop where
  counted : Counted s
  sending : Sending s
  winner : Winner s
  only : OnlyFirst s
  notified : Notified s

theorem inv_initial (hn : 0 < n) : Inv ({} : State n α ε) where
  counted := ⟨(tally_const rfl).symm, (tally_const rfl).symm⟩
  sending := ⟨fun _ => ⟨fun _ => Nat.zero_le _, fun _ => rfl⟩, fun _ => rfl⟩
  winner := .undecided rfl rfl rfl rfl rfl
  only i x h := by rcases h with h | h <;> cases h
  notified := .before rfl (fun _ => Phase.early_of_ready rfl) hn

theorem Inv.step (h : Inv s) (hstep : s.step l = some s') : Inv s' where
  counted := h.counted.step h.sending (stepped_of_step hstep)
  sending := h.sending.step (stepped_of_step hstep)
  winner := h.winner.step h.counted h.only h.sending (stepped_of_step hstep)
  only := h.only.step h.winner h.counted (stepped_of_step hstep)
  notified := h.notified.step h.counted h.sending (stepped_of_step hstep)

/-- **Runs.** -/
theorem inv_of_reaches (hn : 0 < n) (h : Reaches State.step free ({} : State n α ε) s) : Inv s :=
  h.invariant (inv_initial hn) fun _ _ _ hI _ hstep => hI.step hstep

/-! ### What `when_any` completes with -/

/-- What `notify_done` finds is the completion of the first sender. -/
theorem Inv.notifyDone (h : Inv s) (hw : s.first = some w) (hl : (s.phase w).Left)
    (hx : s.sent w = some x) : s.notifyDone = x := by
  obtain ⟨y, hy, hv, he⟩ : ∃ y, s.sent w = some y ∧ s.value = y.value? ∧ s.error = y.error? := by
    cases h.winner with
    | undecided hf => rw [hf] at hw; cases hw
    | stopping w' y hf hp =>
      obtain rfl : w' = w := Option.some.inj (hf.symm.trans hw)
      rw [hp] at hl
      cases hl
    | storing w' y hf hp =>
      obtain rfl : w' = w := Option.some.inj (hf.symm.trans hw)
      rw [hp] at hl
      cases hl
    | stored w' y hf _ hy hv he =>
      obtain rfl : w' = w := Option.some.inj (hf.symm.trans hw)
      exact ⟨y, hy, hv, he⟩
  obtain rfl : y = x := Option.some.inj (hy.symm.trans hx)
  rw [State.notifyDone, hv, he]
  cases y <;> rfl

/-- The first sender stays the first. -/
theorem Stepped.first (h : Inv s) (hstep : Stepped s l s') (hw : s.first = some w) :
    s'.first = some w := by
  cases hstep with
  | start => exact hw
  | complete => exact hw
  | next ha =>
    cases ha with
    | first _ hzero =>
      rw [(h.winner.first_eq_none_iff h.counted).2 hzero] at hw
      cases hw
    | @store x => cases x <;> exact hw
    | _ => exact hw

theorem Phase.Leaving.ready {p : Phase α ε} (h : p.Leaving n) : p.ready = 1 := by cases h <;> rfl

theorem Phase.Leaving.left {p : Phase α ε} (h : p.Leaving n) : p.Left := by
  cases h with
  | comparing => exact .comparing _
  | finished => exact .finished

/-- When all receivers are leaving, all that is left to do is to compare counts with `total`. -/
theorem step_of_leaving (hs : Sending s) (h : ∀ i, (s.phase i).Leaving n)
    (hstep : s.step l = some s') :
    ∃ i k, l = .next i ∧ s.phase i = .comparing k ∧ s' = s.move i .finished := by
  cases stepped_of_step hstep with
  | @start i hi =>
    have hl := h i
    rw [(hs.idle i).2 (Nat.le_of_eq hi.symm)] at hl
    cases hl
  | @complete i x hp =>
    have hl := h i
    rw [hp] at hl
    cases hl
  | @next i _ ha =>
    have hl := h i
    cases ha with
    | leave hp => exact ⟨i, _, rfl, hp, rfl⟩
    | last hp =>
      rw [hp] at hl
      cases hl with
      | comparing hk => exact absurd hk (Nat.lt_irrefl n)
    | first hp | later hp | stop hp | store hp | count hp | notify hp => rw [hp] at hl; cases hl

/-- **`when_any` completes with the first completion of its senders**, in every order of their
starts, completions and of the atomic operations of their receivers. Its receiver is sent at most
one signal, which is what the sender sent whose receiver found `done_count` at 0; it is sent after
all senders have completed and their receivers were counted as ready. All that is left to do then is
that receivers which were not the last compare what they counted with `total`, which they read from
the state. Stop is requested by the first receiver only. -/
theorem completes_with_first (hn : 0 < n) (h : Reaches State.step free ({} : State n α ε) s) :
    (s.signals = [] ∨ ∃ w x, s.first = some w ∧ s.sent w = some x ∧ s.signals = [x] ∧
      (∀ i, (s.sent i).isSome ∧ (s.phase i = .finished ∨ ∃ k < n, s.phase i = .comparing k)) ∧
      ∀ l s', s.step l = some s' →
        ∃ i k, l = .next i ∧ s.phase i = .comparing k ∧ s' = s.move i .finished) ∧
    (s.stopRequested = true ↔ ∃ w, s.first = some w ∧ ∀ x, s.phase w ≠ .stopping x) ∧
    ∀ w, s.first = some w → (s.sent w).isSome ∧
      ∀ s', Reaches State.step free s s' → s'.first = some w := by
  have hI := inv_of_reaches hn h
  have hsent : ∀ i, (s.phase i).Left → (s.sent i).isSome := by
    intro i hl
    have hcarries := hI.sending.sent i
    generalize s.phase i = p at hl hcarries
    cases hl <;> exact hcarries
  refine ⟨?_, ?_, fun w hw => ⟨?_, fun s' hs' => ?_⟩⟩
  · cases hI.notified with
    | before hsig => exact .inl hsig
    | now i hsig => exact .inl hsig
    | after hsig hall =>
      refine .inr ?_
      cases hw : s.first with
      | none =>
        have hzero := (hI.winner.first_eq_none_iff hI.counted).1 hw
        rw [hI.counted.done, tally_eq_zero_iff] at hzero
        have hone := hzero ⟨0, hn⟩
        rw [(hall _).left.done] at hone
        cases hone
      | some w =>
        obtain ⟨x, hx⟩ := Option.isSome_iff_exists.1 (hsent w (hall w).left)
        have hdone := hI.notifyDone hw (hall w).left hx
        refine ⟨w, x, rfl, hx, hdone ▸ hsig, fun i => ⟨hsent i (hall i).left, ?_⟩,
          fun l s' => step_of_leaving hI.sending hall⟩
        have hl := hall i
        generalize s.phase i = p at hl
        cases hl with
        | comparing hk => exact .inr ⟨_, hk, rfl⟩
        | finished => exact .inl rfl
  · cases hI.winner with
    | undecided hf _ _ _ hst => simp [hf, hst]
    | stopping w x hf hp _ _ hst => simp [hf, hst, hp]
    | storing w x hf hp _ _ hst => simp [hf, hst, hp]
    | stored w x hf hp _ _ _ hst =>
      simp only [hf, hst, true_iff]
      refine ⟨w, rfl, fun y hy => ?_⟩
      rw [hy] at hp
      cases hp
  · rcases hI.winner.past hw with ⟨x, hx | hx⟩ | hl
    · have hcarries := hI.sending.sent w
      rw [hx] at hcarries
      exact Option.isSome_iff_exists.2 ⟨x, hcarries⟩
    · have hcarries := hI.sending.sent w
      rw [hx] at hcarries
      exact Option.isSome_iff_exists.2 ⟨x, hcarries⟩
    · exact hsent w hl
  · refine (Reaches.invariant (I := fun t => Inv t ∧ t.first = some w) hs' ⟨hI, hw⟩ ?_).2
    rintro t l u ⟨ht, htw⟩ - hstep
    exact ⟨ht.step hstep, (stepped_of_step hstep).first ht htw⟩

/-- A receive with a time-out that fires first; the bytes received before it is stopped are dropped.
The receiver of the `receive` is slow to leave. -/
def lateValue : List (Label 2 ℕ ℕ) :=
  [.start 0, .start 1, .complete 1 (.setError 3), .next 1, .complete 0 (.setValue 5), .next 0,
    .next 1, .next 0, .next 1, .next 1, .next 1, .next 1]

/-- The state is used after the signal: the receiver of the `receive` still reads `total`. -/
theorem completes_with_first_lateValue :
    ∃ s s' : State 2 ℕ ℕ, Reaches State.step free {} s ∧ s.signals = [.setError 3] ∧
      s.phase 0 = .comparing 1 ∧ s.step (.next 0) = some s' ∧ s' = s.move 0 .finished := by
  have hrun : (run State.step ({} : State 2 ℕ ℕ) lateValue).map
      (fun s => (s.signals, s.phase 0)) = some ([.setError 3], .comparing 1) := rfl
  obtain ⟨s, hs, hobs⟩ := Option.map_eq_some_iff.1 hrun
  obtain ⟨hsignals, hphase⟩ : _ ∧ _ := by simpa only [Prod.mk.injEq] using hobs
  have hreach := reaches_free_of_run hs
  have hnext : s.step (.next 0) = some (s.move 0 .finished) := by
    rw [State.step, State.next, hphase]
    rfl
  rcases (completes_with_first (by decide) hreach).1 with hnil | ⟨-, -, -, -, -, -, hend⟩
  · rw [hsignals] at hnil
    cases hnil
  · obtain ⟨i, k, hi, -, hs'⟩ := hend _ _ hnext
    cases hi
    exact ⟨s, _, hreach, hsignals, hphase, hnext, hs'⟩

/-! ### Progress -/

/-- How many steps a sender and its receiver can still take. -/
def Phase.left : Phase α ε → ℕ
  | .idle => 8
  | .running => 7
  | .completing _ => 6
  | .stopping _ => 5
  | .storing _ => 4
  | .readying => 3
  | .comparing _ => 2
  | .notifying => 1
  | .finished => 0

/-- Every step takes one of these. -/
theorem left_of_step (hs : Sending s) (hstep : Stepped s l s') :
    tally Phase.left s'.phase + 1 ≤ tally Phase.left s.phase := by
  have hmove : ∀ {i : Fin n} {p q : Phase α ε}, s.phase i = q → p.left < q.left →
      tally Phase.left (Function.update s.phase i p) + 1 ≤ tally Phase.left s.phase := by
    intro i p q hq hlt
    have htally := tally_update Phase.left s.phase i p
    rw [hq] at htally
    omega
  cases hstep with
  | start hi => exact hmove ((hs.idle _).2 (Nat.le_of_eq hi.symm)) (by simp [Phase.left])
  | complete hp => exact hmove hp (by simp [Phase.left])
  | next ha =>
    cases ha with
    | first hp => exact hmove hp (by simp [Phase.left])
    | later hp => exact hmove hp (by simp [Phase.left])
    | stop hp => exact hmove hp (by simp [Phase.left])
    | @store x hp => cases x <;> exact hmove hp (by simp [Phase.left])
    | count hp => exact hmove hp (by simp [Phase.left])
    | last hp => exact hmove hp (by simp [Phase.left])
    | leave hp => exact hmove hp (by simp [Phase.left])
    | notify hp => exact hmove hp (by simp [Phase.left])

theorem length_of_run {ls : List (Label n α ε)} (hI : Inv s) (h : run State.step s ls = some s') :
    ls.length + tally Phase.left s'.phase ≤ tally Phase.left s.phase := by
  induction ls generalizing s with
  | nil =>
    cases h
    simp
  | cons l ls ih =>
    obtain ⟨t, ht, hrun⟩ := Option.bind_eq_some_iff.1 h
    have hlen := ih (hI.step ht) hrun
    have hone := left_of_step hI.sending (stepped_of_step ht)
    rw [List.length_cons]
    omega

/-- A receiver that was called and has not returned can move on. -/
theorem next_isSome (hidle : s.phase i ≠ .idle) (hrunning : s.phase i ≠ .running)
    (hfin : s.phase i ≠ .finished) : (s.next i).isSome := by
  unfold State.next
  cases hp : s.phase i with
  | idle => exact absurd hp hidle
  | running => exact absurd hp hrunning
  | finished => exact absurd hp hfin
  | completing x => dsimp only; split_ifs <;> rfl
  | stopping x => rfl
  | storing x => rfl
  | readying => rfl
  | comparing k => dsimp only; split_ifs <;> rfl
  | notifying => rfl

/-- **`when_any` waits for its senders only.** No run has more than eight steps for each sender, and
a run can be continued by a step of `when_any` itself until the receiver is sent its signal, unless
a sender that was started has not completed. -/
theorem waits_for_senders_only (hn : 0 < n) {ls : List (Label n α ε)}
    (h : run State.step ({} : State n α ε) ls = some s) :
    ls.length ≤ 8 * n ∧ (s.signals.length = 1 ∨ (∃ i, s.phase i = .running) ∨
      ∃ i, (s.step (.start i)).isSome ∨ (s.step (.next i)).isSome) := by
  have hreach : Reaches State.step free ({} : State n α ε) s :=
    reaches_free_of_run h
  have hI := inv_of_reaches hn hreach
  constructor
  · have hlen := length_of_run (inv_initial hn) h
    have hall : tally Phase.left ({} : State n α ε).phase = 8 * n := by
      simp [tally, Phase.left, Nat.mul_comm]
    omega
  · cases hI.notified with
    | after hsig => exact .inl (by rw [hsig]; rfl)
    | now i _ hp =>
      refine .inr (.inr ⟨i, .inr ?_⟩)
      rcases hp with hp | hp <;> exact next_isSome (by simp [hp]) (by simp [hp]) (by simp [hp])
    | before _ _ hcount =>
      refine .inr ?_
      by_cases hrunning : ∃ i, s.phase i = .running
      · exact .inl hrunning
      refine .inr ?_
      by_cases hstart : s.started < n
      · exact ⟨⟨s.started, hstart⟩, .inl (by simp [State.step])⟩
      · -- one of the receivers has not been counted
        have hne : ¬ ∀ i, (s.phase i).ready = 1 := by
          intro hall
          have hcard := (tally_eq_card_iff Phase.ready_le_one).2 hall
          rw [← hI.counted.ready, Fintype.card_fin] at hcard
          omega
        obtain ⟨i, hi⟩ := not_forall.1 hne
        have hidle : s.phase i ≠ .idle := by
          rw [Ne, hI.sending.idle i]
          omega
        refine ⟨i, .inr (next_isSome hidle (fun hr => hrunning ⟨i, hr⟩) fun hf => ?_)⟩
        rw [hf] at hi
        exact hi rfl

theorem waits_for_senders_only_lateValue :
    ∃ s : State 2 ℕ ℕ, run State.step {} (lateValue.take 11) = some s ∧ s.signals = [] ∧
      ∃ i, (s.step (.start i)).isSome ∨ (s.step (.next i)).isSome := by
  have hrun : (run State.step ({} : State 2 ℕ ℕ) (lateValue.take 11)).map
      (fun s => (s.signals, s.phase 0, s.phase 1)) = some ([], .comparing 1, .notifying) := rfl
  obtain ⟨s, hs, hobs⟩ := Option.map_eq_some_iff.1 hrun
  obtain ⟨hsignals, h₀, h₁⟩ : _ ∧ _ ∧ _ := by simpa only [Prod.mk.injEq] using hobs
  rcases (waits_for_senders_only (by decide) hs).2 with hlen | ⟨i, hi⟩ | hnext
  · rw [hsignals] at hlen
    cases hlen
  · obtain rfl | rfl := Fin.exists_fin_two.1 ⟨i, rfl⟩
    · rw [h₀] at hi; cases hi
    · rw [h₁] at hi; cases hi
  · exact ⟨s, hs, hsignals, hnext⟩

end Invariant

end WhenAny

end Net29
