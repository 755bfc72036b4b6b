import Net29.Repeat.State
import Mathlib.Logic.Function.Iterate

/-!
# What `repeat_effect_until` leaves of its body

The stored body is given to `connect` as an rvalue in every iteration, so that the next iteration
connects what was left of it.

* `State.connects`: the senders that were connected; `connects_eq` says which they are;
* `every_body_is_original_iff`: when all of them equal the body that was passed.
-/

namespace Net29
namespace RepeatEffectUntil

open Transition

variable {Body E : Type} {moved : Body → Body} {b : Body} {s s' : State Body E}

/-- The sender that was connected. -/
def Event.connected? : Event Body E → Option Body
  | .connected b => some b
  | _ => none

/-- The predicate answered that the body has to run again. -/
def Event.goesOn : Event Body E → Bool
  | .answered b => !b
  | _ => false

namespace State

/-- The senders that were connected, newest first. -/
def connects (s : State Body E) : List Body := s.log.filterMap Event.connected?

/-- How often the predicate answered that the body has to run again. -/
def iterations (s : State Body E) : ℕ := s.log.countP Event.goesOn

end State

/-- The senders that `n` iterations connect, newest first: each what the one before left. -/
def remainders (moved : Body → Body) (b : Body) (n : ℕ) : List Body :=
  ((List.range n).map fun i => moved^[i] b).reverse

theorem remainders_succ (moved : Body → Body) (b : Body) (n : ℕ) :
    remainders moved b (n + 1) = moved^[n] b :: remainders moved b n := by
  simp [remainders, List.range_succ]

/-- The iterations connect one remainder after the other. -/
structure Consumes (moved : Body → Body) (b : Body) (s : State Body E) : Prop where
  body : s.body = moved^[s.iterations] b
  connects : s.connects = remainders moved b s.iterations

/-- The body that is stored, the iterations and the senders connected. -/
theorem Consumes.congr (h : Consumes moved b s) (hbody : s'.body = s.body)
    (hiter : s'.iterations = s.iterations) (hconn : s'.connects = s.connects) :
    Consumes moved b s' :=
  ⟨by rw [hbody, hiter, h.body], by rw [hconn, hiter, h.connects]⟩

theorem reset_same (s : State Body E) :
    s.reset.body = s.body ∧ s.reset.iterations = s.iterations ∧ s.reset.connects = s.connects := by
  unfold State.reset
  split <;> exact ⟨rfl, rfl, rfl⟩

theorem receive_same (s : State Body E) (x : Completion E) :
    (s.receive x).body = s.body ∧ (s.receive x).iterations = s.iterations ∧
      (s.receive x).connects = s.connects := by
  cases x with
  | value => exact reset_same s
  | error e => exact ⟨rfl, rfl, rfl⟩
  | stopped => exact ⟨rfl, rfl, rfl⟩

/-- Every step connects what is left of the body, or nothing. -/
theorem Consumes.step {l : Label E} (h : Consumes moved b s) (hstep : s.step moved l = some s') :
    Consumes moved b s' := by
  cases l with
  | start =>
    simp only [State.step] at hstep
    split_ifs at hstep
    cases hstep
    exact h.congr rfl rfl rfl
  | upstream x =>
    simp only [State.step] at hstep
    split_ifs at hstep
    cases hstep
    obtain ⟨hbody, hiter, hconn⟩ := receive_same
      { s with upState := .completed, log := .upstreamDone x :: s.log } x
    exact h.congr hbody hiter hconn
  | body x =>
    simp only [State.step] at hstep
    split_ifs at hstep
    cases hstep
    obtain ⟨hbody, hiter, hconn⟩ := receive_same
      { s with bodyState := some .completed, log := .bodyDone x :: s.log } x
    exact h.congr hbody hiter hconn
  | predicate b' =>
    simp only [State.step] at hstep
    split_ifs at hstep
    cases hstep
    cases b' with
    | true => exact h.congr rfl rfl rfl
    | false =>
      -- the stored body is connected, and what is left of it stays
      have hiter : (s.answer moved false).iterations = s.iterations + 1 := by
        simp [State.iterations, State.answer, Event.goesOn]
      refine ⟨?_, ?_⟩
      · rw [hiter, Function.iterate_succ_apply', ← h.body]
        rfl
      · rw [hiter, remainders_succ, ← h.body, ← h.connects]
        rfl
  | ret =>
    simp only [State.step] at hstep
    split at hstep
    · cases hstep
    · split_ifs at hstep
      cases hstep
      exact h.congr rfl rfl rfl

theorem consumes_of_reaches (h : Reaches (State.step moved) free { body := b } s) :
    Consumes moved b s :=
  h.invariant ⟨rfl, rfl⟩ fun _ _ _ hI _ hstep => hI.step hstep

/-- **Every iteration connects the body that was passed** if and only if there is at most one, or a
move leaves the body as it was; whether the body was passed with the upstream sender or to an
adaptor. -/
theorem every_body_is_original_iff (moved : Body → Body) (b : Body) (s₀ s : State Body E)
    (hs₀ : s₀ = ((sender moved b).connect moved).1 ∨
      s₀ = (((adaptor moved b).apply moved).1.connect moved).1)
    (h : Reaches (State.step moved) free s₀ s) :
    (∀ b' ∈ s.connects, b' = b) ↔ s.iterations ≤ 1 ∨ moved b = b := by
  have hc : Consumes moved b s := by
    rcases hs₀ with rfl | rfl
    · exact consumes_of_reaches h
    · exact consumes_of_reaches h
  have hmem : ∀ b', b' ∈ s.connects ↔ ∃ i < s.iterations, moved^[i] b = b' := by
    intro b'
    rw [hc.connects, remainders, List.mem_reverse, List.mem_map]
    simp only [List.mem_range]
  constructor
  · intro hall
    rcases Nat.lt_or_ge 1 s.iterations with hlt | hle
    · exact .inr (hall _ ((hmem _).2 ⟨1, hlt, rfl⟩))
    · exact .inl hle
  · rintro (hle | hfix) b' hb'
    · obtain ⟨i, hi, rfl⟩ := (hmem b').1 hb'
      obtain rfl : i = 0 := by omega
      rfl
    · obtain ⟨i, -, rfl⟩ := (hmem b').1 hb'
      exact Function.iterate_fixed hfix i

/-- The predicate asks for two iterations. -/
def twoIterations : List (Label ℕ) :=
  [.start, .upstream .value, .predicate false, .body .value, .predicate false]

/-- A body with the state 5, which is 0 after a move. -/
theorem twoIterations_runs :
    ∃ s : State ℕ ℕ, Reaches (State.step fun _ => 0) free { body := 5 } s ∧
      s.connects = [0, 5] ∧ s.iterations = 2 := by
  obtain ⟨s, hrun, hs⟩ := Option.map_eq_some_iff.1
    (show (run (checked (State.step fun _ => 0) fun _ _ => true) ({ body := 5 } : State ℕ ℕ)
      twoIterations).map (fun s => (s.connects, s.iterations)) = some ([0, 5], 2) by decide)
  obtain ⟨hconnects, hiter⟩ := Prod.mk.inj hs
  exact ⟨s, reaches_of_run (fun _ _ _ => trivial) hrun, hconnects, hiter⟩

theorem every_body_is_original_iff_twoIterations :
    ∃ s : State ℕ ℕ, Reaches (State.step fun _ => 0) free { body := 5 } s ∧
      ((∀ b' ∈ s.connects, b' = 5) ↔ s.iterations ≤ 1 ∨ (fun _ : ℕ => 0) 5 = 5) := by
  obtain ⟨s, hrun, -⟩ := twoIterations_runs
  exact ⟨s, hrun, every_body_is_original_iff (fun _ => 0) 5 { body := 5 } s (.inl rfl) hrun⟩

theorem second_body_is_moved_from :
    ¬ ∀ (Body E : Type) (moved : Body → Body) (b : Body) (s : State Body E),
      Reaches (State.step moved) free ((sender moved b).connect moved).1 s →
      ∀ b' ∈ s.connects, b' = b := by
  intro h
  obtain ⟨s, hrun, hconnects, -⟩ := twoIterations_runs
  have hzero := h ℕ ℕ (fun _ => 0) 5 s hrun 0 (by rw [hconnects]; exact List.mem_cons_self)
  cases hzero

end RepeatEffectUntil
end Net29
