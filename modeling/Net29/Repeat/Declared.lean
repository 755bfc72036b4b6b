import Net29.Repeat.Signatures
import Mathlib.Tactic.Common

/-!
# What `repeat_effect_until` declares and what it sends

* `Source.Sends`: a sender completes with what it declares;
* `sends_what_it_declares`: so does `repeat_effect_until`, and it declares nothing else but the
  exception of a predicate, which leaves a `noexcept` function instead of being sent.
-/

namespace Net29
namespace RepeatEffectUntil

open Transition

variable {Body E T : Type}

/-- The signature of a completion, where `type` gives the types of errors. -/
def Completion.signature (type : E → T) : Completion E → Signature T
  | .value => .value
  | .error e => .error (type e)
  | .stopped => .stopped

/-- What a sender declares besides `set_value`: the types of its errors, and whether it sends
`set_stopped`. -/
structure Source (T : Type) where
  errors : List T
  stops : Bool

/-- The sender completes so. -/
def Source.Sends (type : E → T) (d : Source T) : Completion E → Prop
  | .value => True
  | .error e => type e ∈ d.errors
  | .stopped => d.stops = true

/-- The upstream sender and the bodies complete with what they declare. -/
def Keeps (type : E → T) (upstream body : Source T) (_ : State Body E) : Label E → Prop
  | .upstream x => upstream.Sends type x
  | .body x => body.Sends type x
  | .start | .predicate _ | .ret => True

section Declared

variable {type : E → T} {upstream body : Source T} {exceptionPtr t : T} {nothrow : Bool}
  {sigs : List (Signature T)} {s s' : State Body E} {l : Label E} {x : Completion E}
  {moved : Body → Body} {b : Body}

/-- The signatures `repeat_effect_until` declares are `sigs`. -/
def Declares (upstream body : Source T) (exceptionPtr : T) (nothrow : Bool)
    (sigs : List (Signature T)) : Prop :=
  getCompletionSignatures exceptionPtr body.errors upstream.errors (body.stops || upstream.stops)
    nothrow = some sigs

theorem value_mem (h : Declares upstream body exceptionPtr nothrow sigs) : .value ∈ sigs := by
  rw [(getCompletionSignatures_eq_some h).mem_iff]
  exact List.mem_cons_self

theorem stopped_mem_iff (h : Declares upstream body exceptionPtr nothrow sigs) :
    .stopped ∈ sigs ↔ body.stops = true ∨ upstream.stops = true := by
  rw [(getCompletionSignatures_eq_some h).mem_iff, ← Bool.or_eq_true]
  cases body.stops || upstream.stops <;> simp

theorem error_mem_iff (h : Declares upstream body exceptionPtr nothrow sigs) :
    .error t ∈ sigs ↔
      t ∈ body.errors ∨ t ∈ upstream.errors ∨ nothrow = false ∧ t = exceptionPtr := by
  rw [(getCompletionSignatures_eq_some h).mem_iff]
  cases nothrow <;> cases body.stops || upstream.stops <;> simp [errorTypes]

/-! ### What is sent is declared -/

/-- The receiver was sent what one of the senders sent, or `set_value`. -/
def Passed (type : E → T) (upstream body : Source T) (s : State Body E) : Prop :=
  ∀ x, .signal x ∈ s.log → upstream.Sends type x ∨ body.Sends type x

theorem passed_receive (h : Passed type upstream body s)
    (hx : upstream.Sends type x ∨ body.Sends type x) : Passed type upstream body (s.receive x) := by
  cases x with
  | value =>
    intro y hy
    have hreset : .signal y ∈ s.reset.log := (List.mem_cons.1 hy).resolve_left nofun
    unfold State.reset at hreset
    split at hreset
    · exact h y hreset
    · exact h y ((List.mem_cons.1 hreset).resolve_left nofun)
  | error e =>
    intro y hy
    rcases List.mem_cons.1 hy with heq | hy
    · cases heq
      exact hx
    · exact h y hy
  | stopped =>
    intro y hy
    rcases List.mem_cons.1 hy with heq | hy
    · cases heq
      exact hx
    · exact h y hy

theorem passed_step (h : Passed type upstream body s) (hok : Keeps type upstream body s l)
    (hstep : s.step moved l = some s') : Passed type upstream body s' := by
  have hcons : ∀ {s : State Body E} {e : Event Body E}, (∀ y, e ≠ .signal y) →
      Passed type upstream body s → Passed type upstream body { s with log := e :: s.log } :=
    fun he hs y hy => hs y ((List.mem_cons.1 hy).resolve_left fun heq => he y heq.symm)
  cases l with
  | start =>
    simp only [State.step] at hstep
    split_ifs at hstep
    cases hstep
    exact hcons nofun h
  | upstream x =>
    simp only [State.step] at hstep
    split_ifs at hstep
    cases hstep
    exact passed_receive (hcons (s := { s with upState := .completed }) nofun h) (.inl hok)
  | body x =>
    simp only [State.step] at hstep
    split_ifs at hstep
    cases hstep
    exact passed_receive (hcons (s := { s with bodyState := some .completed }) nofun h) (.inr hok)
  | predicate answer =>
    simp only [State.step] at hstep
    split_ifs at hstep
    cases hstep
    intro y hy
    cases answer with
    | true =>
      rcases List.mem_cons.1 hy with heq | hy
      · cases heq
        exact .inl trivial
      · exact h y ((List.mem_cons.1 hy).resolve_left nofun)
    | false =>
      have hy := (List.mem_cons.1 hy).resolve_left nofun
      have hy := (List.mem_cons.1 hy).resolve_left nofun
      exact h y ((List.mem_cons.1 hy).resolve_left nofun)
  | ret =>
    simp only [State.step] at hstep
    split at hstep
    · cases hstep
    · split_ifs at hstep
      cases hstep
      exact h

theorem declared_of_sends (h : Declares upstream body exceptionPtr nothrow sigs)
    (hx : upstream.Sends type x ∨ body.Sends type x) : x.signature type ∈ sigs := by
  cases x with
  | value => exact value_mem h
  | error e => exact (error_mem_iff h).2 (hx.elim (fun hu => .inr (.inl hu)) .inl)
  | stopped => exact (stopped_mem_iff h).2 hx.symm

/-! ### What is declared is sent -/

/-- Some run ends with the signal. -/
def CanSend (moved : Body → Body) (b : Body) (type : E → T) (upstream body : Source T)
    (x : Completion E) : Prop :=
  ∃ s : State Body E, Reaches (State.step moved) (Keeps type upstream body) { body := b } s ∧
    .signal x ∈ s.log

theorem canSend_value : CanSend moved b type upstream body .value := by
  have hstart : Reaches (State.step moved) (Keeps type upstream body) { body := b } _ :=
    (Reaches.refl _).tail (l := .start) (by exact trivial) rfl
  have hupstream := hstart.tail (l := .upstream .value) (by exact trivial) rfl
  exact ⟨_, hupstream.tail (l := .predicate true) (by exact trivial) rfl, List.mem_cons_self⟩

theorem canSend_upstream (hx : upstream.Sends type x) (hne : x ≠ .value) :
    CanSend moved b type upstream body x := by
  have hstart : Reaches (State.step moved) (Keeps type upstream body) { body := b } _ :=
    (Reaches.refl _).tail (l := .start) (by exact trivial) rfl
  refine ⟨_, hstart.tail (l := .upstream x) hx rfl, ?_⟩
  cases x with
  | value => exact absurd rfl hne
  | error e => exact List.mem_cons_self
  | stopped => exact List.mem_cons_self

theorem canSend_body (hx : body.Sends type x) (hne : x ≠ .value) :
    CanSend moved b type upstream body x := by
  have hstart : Reaches (State.step moved) (Keeps type upstream body) { body := b } _ :=
    (Reaches.refl _).tail (l := .start) (by exact trivial) rfl
  have hupstream := hstart.tail (l := .upstream .value) (by exact trivial) rfl
  have hpredicate := hupstream.tail (l := .predicate false) (by exact trivial) rfl
  refine ⟨_, hpredicate.tail (l := .body x) hx rfl, ?_⟩
  cases x with
  | value => exact absurd rfl hne
  | error e => exact List.mem_cons_self
  | stopped => exact List.mem_cons_self

theorem canSend_of_sends (hx : upstream.Sends type x ∨ body.Sends type x) :
    CanSend moved b type upstream body x := by
  by_cases hne : x = .value
  · rw [hne]
    exact canSend_value
  · exact hx.elim (canSend_upstream · hne) (canSend_body · hne)

/-- **`repeat_effect_until` sends what it declares, and declares what it sends**, if the upstream
sender and the body do: in every run the receiver is sent completions that are declared, and each
declared signature is that of a completion sent in some run, but for the exception of a predicate
that may throw. `run_next` is `noexcept`, so that exception is never sent. -/
theorem sends_what_it_declares (moved : Body → Body) (b : Body) (htype : Function.Surjective type)
    (h : Declares upstream body exceptionPtr nothrow sigs) :
    (∀ s : State Body E, Reaches (State.step moved) (Keeps type upstream body) { body := b } s →
      ∀ x, .signal x ∈ s.log → x.signature type ∈ sigs) ∧
    ∀ sig ∈ sigs, (∃ x, x.signature type = sig ∧ CanSend moved b type upstream body x) ∨
      nothrow = false ∧ sig = .error exceptionPtr := by
  constructor
  · intro s hs x hx
    have hpassed : Passed type upstream body s :=
      hs.invariant (I := Passed type upstream body) (fun _ hy => by cases hy)
        fun _ _ _ hI hok hstep => passed_step hI hok hstep
    exact declared_of_sends h (hpassed x hx)
  · intro sig hsig
    cases sig with
    | value => exact .inl ⟨.value, rfl, canSend_value⟩
    | stopped =>
      have hstops := (stopped_mem_iff h).1 hsig
      exact .inl ⟨.stopped, rfl, canSend_of_sends hstops.symm⟩
    | error t =>
      obtain ⟨e, rfl⟩ := htype t
      rcases (error_mem_iff h).1 hsig with hbody | hup | ⟨hthrow, rfl⟩
      · exact .inl ⟨.error e, rfl, canSend_of_sends (.inr hbody)⟩
      · exact .inl ⟨.error e, rfl, canSend_of_sends (.inl hup)⟩
      · exact .inr ⟨hthrow, rfl⟩

/-- An upstream sender with an error, a body that may be stopped and a predicate that may throw. -/
theorem sends_what_it_declares_stoppedBody :
    ∃ x : Completion ℕ, x.signature id = .stopped ∧ CanSend id 5 id ⟨[3], false⟩ ⟨[], true⟩ x := by
  have h : Declares ⟨[3], false⟩ ⟨[], true⟩ 0 false [.value, .error 3, .stopped, .error 0] := rfl
  rcases (sends_what_it_declares id 5 Function.surjective_id h).2 .stopped (by decide) with hx | hx
  · exact hx
  · cases hx.2

end Declared

end RepeatEffectUntil
end Net29
