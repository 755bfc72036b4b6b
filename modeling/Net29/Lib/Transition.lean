import Mathlib.Logic.Relation
import Mathlib.Tactic.SplitIfs

/-!
# Systems driven by an environment

A system is a partial function `step : σ → ℓ → Option σ`: in state `s` the environment picks a
label `l`, and `step s l` is the state afterwards (`none` when the label is not possible in `s`).
Runs are restricted by a guard `ok : σ → ℓ → Prop` on the state before the step and its label;
`free` admits every label.

* `Guarded`, `Reaches`: guarded steps and their reflexive transitive closure;
* `Reaches.invariant`: what one guarded step preserves holds in every state reached;
* `Reaches.invariant₂`: the same, where the step may use a second invariant that is known already;
* `run`, `reaches_of_run`: lists of labels, for concrete runs;
* `outputs`: what the steps of such a run give out.
-/

namespace Transition

variable {σ ℓ : Type*} {step : σ → ℓ → Option σ} {ok ok' : σ → ℓ → Prop} {s t u : σ}

/-- One step under a label that the guard admits. -/
def Guarded (step : σ → ℓ → Option σ) (ok : σ → ℓ → Prop) (s t : σ) : Prop :=
  ∃ l, ok s l ∧ step s l = some t

/-- `t` is reached from `s` by steps that all meet the guard. -/
def Reaches (step : σ → ℓ → Option σ) (ok : σ → ℓ → Prop) : σ → σ → Prop :=
  Relation.ReflTransGen (Guarded step ok)

/-- The guard that admits every label. -/
def free : σ → ℓ → Prop := fun _ _ => True

theorem Reaches.refl (s : σ) : Reaches step ok s s := Relation.ReflTransGen.refl

theorem Reaches.tail {l : ℓ} (h : Reaches step ok s t) (hok : ok t l) (hstep : step t l = some u) :
    Reaches step ok s u :=
  Relation.ReflTransGen.tail h ⟨l, hok, hstep⟩

theorem Reaches.mono (h : Reaches step ok s t) (himp : ∀ s l, ok s l → ok' s l) :
    Reaches step ok' s t :=
  Relation.ReflTransGen.mono (fun _ _ ⟨l, hl, hs⟩ => ⟨l, himp _ l hl, hs⟩) _ _ h

/-- What every guarded step preserves holds in every state reached. -/
theorem Reaches.invariant {I : σ → Prop} (h : Reaches step ok s t) (h0 : I s)
    (hI : ∀ t l u, I t → ok t l → step t l = some u → I u) : I t := by
  induction h with
  | refl => exact h0
  | tail _ hstep ih =>
    obtain ⟨l, hl, hs⟩ := hstep
    exact hI _ l _ ih hl hs

/-- The invariant rule relative to a property `J` that every state reached is known to have. -/
theorem Reaches.invariant₂ {I J : σ → Prop} (h : Reaches step ok s t)
    (hJ : ∀ t, Reaches step ok s t → J t) (h0 : I s)
    (hI : ∀ t l u, J t → I t → ok t l → step t l = some u → I u) : I t := by
  induction h with
  | refl => exact h0
  | tail h hstep ih =>
    obtain ⟨l, hl, hs⟩ := hstep
    exact hI _ l _ (hJ _ h) ih hl hs

/-- The state after a list of labels. -/
def run (step : σ → ℓ → Option σ) (s : σ) : List ℓ → Option σ
  | [] => some s
  | l :: ls => (step s l).bind fun t => run step t ls

@[simp] theorem run_nil (s : σ) : run step s [] = some s := rfl

@[simp] theorem run_cons (s : σ) (l : ℓ) (ls : List ℓ) :
    run step s (l :: ls) = (step s l).bind fun t => run step t ls := rfl

theorem run_append (s : σ) (ls ls' : List ℓ) :
    run step s (ls ++ ls') = (run step s ls).bind fun t => run step t ls' := by
  induction ls generalizing s with
  | nil => rfl
  | cons l ls ih =>
    rw [List.cons_append, run_cons, run_cons, Option.bind_assoc]
    congr 1
    funext t
    exact ih t

/-- What the steps of a run give out, where `out` says what one of them does. -/
def outputs {β : Type*} (step : σ → ℓ → Option σ) (out : σ → ℓ → List β) (s : σ) :
    List ℓ → List β
  | [] => []
  | l :: ls => out s l ++ ((step s l).map fun t => outputs step out t ls).getD []

theorem outputs_cons_of_step {β : Type*} {out : σ → ℓ → List β} {l : ℓ} {ls : List ℓ}
    (h : step s l = some t) : outputs step out s (l :: ls) = out s l ++ outputs step out t ls := by
  rw [outputs, h]
  rfl

theorem outputs_append_of_run {β : Type*} {out : σ → ℓ → List β} {ls ls' : List ℓ}
    (h : run step s ls = some t) :
    outputs step out s (ls ++ ls') = outputs step out s ls ++ outputs step out t ls' := by
  induction ls generalizing s with
  | nil =>
    cases h
    rfl
  | cons l ls ih =>
    obtain ⟨u, hu, hrun⟩ := Option.bind_eq_some_iff.1 h
    rw [List.cons_append, outputs_cons_of_step hu, outputs_cons_of_step hu, ih hrun,
      List.append_assoc]

/-- Steps that a test lets through. -/
def checked (step : σ → ℓ → Option σ) (test : σ → ℓ → Bool) (s : σ) (l : ℓ) : Option σ :=
  if test s l then step s l else none

/-- A run of steps that pass a test reaches its last state under every guard the test implies. -/
theorem reaches_of_run {test : σ → ℓ → Bool} (htest : ∀ s l, test s l = true → ok s l)
    {ls : List ℓ} (h : run (checked step test) s ls = some t) : Reaches step ok s t := by
  suffices ∀ r, Reaches step ok r s → Reaches step ok r t from this s (.refl s)
  induction ls generalizing s with
  | nil =>
    intro r hr
    cases h
    exact hr
  | cons l ls ih =>
    intro r hr
    obtain ⟨u, hu, hrun⟩ := Option.bind_eq_some_iff.1 h
    unfold checked at hu
    split_ifs at hu with hl
    exact ih hrun r (hr.tail (htest s l hl) hu)

/-- A run that no guard restricts. -/
theorem reaches_free_of_run {ls : List ℓ} (h : run step s ls = some t) :
    Reaches step free s t := by
  have hchecked : checked step (fun _ _ => true) = step := by
    funext s l
    exact if_pos rfl
  have hrun : run (checked step fun _ _ => true) s ls = some t := by
    rw [hchecked]
    exact h
  exact reaches_of_run (fun _ _ _ => trivial) hrun

end Transition
