import Mathlib.Data.List.Basic

/-!
# Programs that act through an environment

Statements over actions `A`, which may raise an `X`, and tests `P`. Both are carried out by the
environment: a program makes a request, and goes on with the reply.

* `Stmt`: actions, sequences and loops;
* `Control`, `enter`, `Control.reply`: small steps over a continuation stack;
* `control`, `trace`: where a program is after some replies, and what was observed until then.

Replies and traces are listed newest first.
-/

namespace Program

variable {A P X : Type*}

/-- Statements. -/
inductive Stmt (A P : Type*)
  /-- carry out an action -/
  | act (a : A)
  /-- one statement after the other -/
  | seq (s t : Stmt A P)
  /-- `while (!p) s` -/
  | whileNot (p : P) (s : Stmt A P)

/-- What a program waits for, with the statements to be carried out then; or how it ended. -/
inductive Control (A P X : Type*)
  | acting (a : A) (k : List (Stmt A P))
  | testing (p : P) (s : Stmt A P) (k : List (Stmt A P))
  | done
  | raised (x : X)

/-- What the environment replies: an action was carried out or raised an exception; the answer to a
test. -/
inductive Reply (X : Type*)
  | value
  | raise (x : X)
  | answer (b : Bool)

/-- What can be observed of a program. -/
inductive Obs (A P X : Type*)
  | acts (a : A)
  | asks (p : P)
  | replied (r : Reply X)

/-- Begin a statement that other statements follow. -/
def enter : Stmt A P → List (Stmt A P) → Control A P X
  | .act a, k => .acting a k
  | .seq s t, k => enter s (t :: k)
  | .whileNot p s, k => .testing p s k

/-- Go on with the statements that follow. -/
def resume : List (Stmt A P) → Control A P X
  | [] => .done
  | s :: k => enter s k

/-- Go on with a reply, if it is one to the request made. -/
def Control.reply : Control A P X → Reply X → Option (Control A P X)
  | .acting _ k, .value => some (resume k)
  | .acting _ _, .raise x => some (.raised x)
  | .testing _ _ k, .answer true => some (resume k)
  | .testing p s k, .answer false => some (enter s (.whileNot p s :: k))
  | _, _ => none

/-- The request a program waits for the reply to, unless it has ended. -/
def Control.request : Control A P X → List (Obs A P X)
  | .acting a _ => [.acts a]
  | .testing p _ _ => [.asks p]
  | .done | .raised _ => []

/-- Where a program is after the replies. -/
def control (s : Stmt A P) : List (Reply X) → Option (Control A P X)
  | [] => some (enter s [])
  | r :: rs => (control s rs).bind fun c => c.reply r

/-- What was observed of a program after the replies: every request is made at once. -/
def trace (s : Stmt A P) : List (Reply X) → List (Obs A P X)
  | [] => Control.request (enter s [])
  | r :: rs => ((control s (r :: rs)).map Control.request).getD [] ++ .replied r :: trace s rs

variable {s : Stmt A P} {c c' : Control A P X} {r : Reply X} {rs : List (Reply X)}

theorem control_cons (h : control s rs = some c) (hr : c.reply r = some c') :
    control s (r :: rs) = some c' := by
  rw [control, h]
  exact hr

theorem trace_cons (h : control s rs = some c) (hr : c.reply r = some c') :
    trace s (r :: rs) = c'.request ++ .replied r :: trace s rs := by
  rw [trace, control_cons h hr]
  rfl

end Program
