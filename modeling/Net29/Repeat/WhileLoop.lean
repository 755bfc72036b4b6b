import Net29.Repeat.State
import Mathlib.Algebra.Group.Int.Defs
import Mathlib.Tactic.Common

/-!
# `repeat_effect_until` is a `while` loop

* `program`: `upstream; while (!predicate()) body`;
* `WhileLoop`: what was observed of the operation state is what is observed of the program under the
  same completions and answers, and the receiver is told how it ended;
* `Phase`, `Sim`: the operation state and the program in step, with one lemma for each label;
* `repeat_is_while_loop`: so it is in every run.
-/

namespace Net29
namespace RepeatEffectUntil

open Program Transition

variable {Body E : Type} {s s' : State Body E} {log pre : List (Event Body E)} {e : Event Body E}
  {x : Completion E} {b : Bool} {c : Control Side Unit (Completion E)} {moved : Body → Body}

/-! ### The loop -/

/-- `upstream; while (!predicate()) body`. -/
def program : Stmt Side Unit := .seq (.act .upstream) (.whileNot () (.act .body))

/-- A completion as the reply to an action: all but `set_value` are exceptions. -/
def Completion.reply : Completion E → Reply (Completion E)
  | .value => .value
  | .error e => .raise (.error e)
  | .stopped => .raise .stopped

/-- The reply of the environment an event records. -/
def Event.reply? : Event Body E → Option (Reply (Completion E))
  | .upstreamDone x | .bodyDone x => some x.reply
  | .answered b => some (.answer b)
  | _ => none

/-- What is observed in an event: operations are started and complete, the predicate is called and
returns. -/
def Event.obs? : Event Body E → Option (Obs Side Unit (Completion E))
  | .upstreamStarted => some (.acts .upstream)
  | .bodyStarted => some (.acts .body)
  | .asked => some (.asks ())
  | .upstreamDone x | .bodyDone x => some (.replied x.reply)
  | .answered b => some (.replied (.answer b))
  | .connected _ | .destroyed | .signal _ => none

/-- The signal an event records. -/
def Event.signal? : Event Body E → Option (Completion E)
  | .signal x => some x
  | _ => none

namespace State

/-- The replies of the environment, newest first. -/
def replies (s : State Body E) : List (Reply (Completion E)) := s.log.filterMap Event.reply?

/-- What was observed, newest first. -/
def trace (s : State Body E) : List (Obs Side Unit (Completion E)) := s.log.filterMap Event.obs?

/-- The signals the receiver was sent. -/
def signals (s : State Body E) : List (Completion E) := s.log.filterMap Event.signal?

end State

/-- The signals for the end of a program: `set_value` after its last statement. -/
def signalled : Control Side Unit (Completion E) → List (Completion E)
  | .acting _ _ | .testing _ _ _ => []
  | .done => [.value]
  | .raised x => [x]

/-- How an event changes the number of operation states of bodies. -/
def Event.change : Event Body E → ℤ
  | .connected _ => 1
  | .destroyed => -1
  | _ => 0

/-- How many operation states of bodies exist after the events. -/
def bodies : List (Event Body E) → ℤ
  | [] => 0
  | e :: log => bodies log + e.change

/-- At most one exists at any time, and none when the predicate is called. -/
structure OneBody (log : List (Event Body E)) : Prop where
  bounds : ∀ pre, pre <:+ log → 0 ≤ bodies pre ∧ bodies pre ≤ 1
  asked : ∀ pre, .asked :: pre <:+ log → bodies pre = 0

/-- The completion an event calls for, if it ends the loop. -/
def Event.ends? : Event Body E → Option (Completion E)
  | .upstreamDone .value | .bodyDone .value => none
  | .upstreamDone x | .bodyDone x => some x
  | .answered true => some .value
  | _ => none

/-- The loop has not ended, and no signal was sent. -/
def Open (log : List (Event Body E)) : Prop := ∀ e ∈ log, e.ends? = none ∧ e.signal? = none

/-- The loop ended, and the signal for that was sent at once. -/
def Closed (x : Completion E) (log : List (Event Body E)) : Prop :=
  ∃ e pre, log = .signal x :: e :: pre ∧ e.ends? = some x ∧ Open pre

theorem Open.cons (h : Open log) (he : e.ends? = none) (hs : e.signal? = none) : Open (e :: log) :=
  fun e' he' => by
    rcases List.mem_cons.1 he' with rfl | he'
    · exact ⟨he, hs⟩
    · exact h e' he'

/-- Where the operation state is when the loop is at `c`. -/
inductive Phase (s : State Body E) : Control Side Unit (Completion E) → Prop
  | upstream (hup : s.upState = .started) (hbody : s.bodyState = none) (hask : s.asking = false)
      (hlog : Open s.log) : Phase s (.acting .upstream [.whileNot () (.act .body)])
  | testing (hup : s.upState = .completed) (hbody : s.bodyState = none) (hask : s.asking = true)
      (hlog : Open s.log) : Phase s (.testing () (.act .body) [])
  | body (hup : s.upState = .completed) (hbody : s.bodyState = some .started)
      (hask : s.asking = false) (hlog : Open s.log) :
      Phase s (.acting .body [.whileNot () (.act .body)])
  | done (hup : s.upState = .completed) (hbody : s.bodyState ≠ some .started)
      (hask : s.asking = false) (hlog : Closed .value s.log) : Phase s .done
  | raised (x : Completion E) (hx : x ≠ .value) (hup : s.upState = .completed)
      (hbody : s.bodyState ≠ some .started) (hask : s.asking = false) (hlog : Closed x s.log) :
      Phase s (.raised x)

theorem Phase.started (h : Phase s c) : s.upState ≠ .connected := by
  cases h with
  | upstream hup => simp [hup]
  | testing hup => simp [hup]
  | body hup => simp [hup]
  | done hup => simp [hup]
  | raised x hx hup => simp [hup]

/-- The operation state and the loop are in step. -/
structure Sim (s : State Body E) (c : Control Side Unit (Completion E)) : Prop where
  control : control program s.replies = some c
  trace : s.trace = Program.trace program s.replies
  phase : Phase s c
  oneBody : OneBody s.log
  alive : bodies s.log = if s.bodyState.isSome then 1 else 0

theorem OneBody.nil : OneBody ([] : List (Event Body E)) where
  bounds pre hpre := by
    obtain rfl := List.suffix_nil.1 hpre
    exact ⟨Int.le_refl 0, Int.zero_le_ofNat 1⟩
  asked pre hpre := by cases List.suffix_nil.1 hpre

theorem OneBody.cons (h : OneBody log) {n : ℤ} (hn : bodies (e :: log) = n) (hb : n = 0 ∨ n = 1)
    (ha : e = .asked → bodies log = 0) : OneBody (e :: log) where
  bounds pre hpre := by
    rcases List.suffix_cons_iff.1 hpre with rfl | hpre
    · omega
    · exact h.bounds pre hpre
  asked pre hpre := by
    rcases List.suffix_cons_iff.1 hpre with heq | hpre
    · obtain ⟨rfl, rfl⟩ := List.cons.inj heq
      exact ha rfl
    · exact h.asked pre hpre

/-- An event that leaves the number as it is, and is no call of the predicate. -/
theorem OneBody.other (h : OneBody log) (he : e.change = 0) (ha : e ≠ .asked) :
    OneBody (e :: log) := by
  refine h.cons (n := bodies log) (by rw [bodies, he, Int.add_zero]) ?_ fun h => absurd h ha
  have := h.bounds log (List.suffix_refl _)
  omega

/-- The loop goes on with a reply, and the operation state does what the loop does. -/
theorem Sim.advance {c' : Control Side Unit (Completion E)} {r : Reply (Completion E)}
    (h : Sim s c) (hr : c.reply r = some c') (hreplies : s'.replies = r :: s.replies)
    (htrace : s'.trace = c'.request ++ .replied r :: s.trace) (hphase : Phase s' c')
    (hone : OneBody s'.log) (halive : bodies s'.log = if s'.bodyState.isSome then 1 else 0) :
    Sim s' c' where
  control := by rw [hreplies]; exact control_cons h.control hr
  trace := by rw [hreplies, trace_cons h.control hr, htrace, h.trace]
  phase := hphase
  oneBody := hone
  alive := halive

/-- `ret` only changes the active calls. -/
theorem Sim.ret (h : Sim s c) (active : List Side) : Sim { s with active := active } c where
  control := h.control
  trace := h.trace
  phase := by
    cases h.phase with
    | upstream hup hbody hask hlog => exact .upstream hup hbody hask hlog
    | testing hup hbody hask hlog => exact .testing hup hbody hask hlog
    | body hup hbody hask hlog => exact .body hup hbody hask hlog
    | done hup hbody hask hlog => exact .done hup hbody hask hlog
    | raised x hx hup hbody hask hlog => exact .raised x hx hup hbody hask hlog
  oneBody := h.oneBody
  alive := h.alive

/-- The upstream sender sent a value: the predicate is called. -/
theorem Sim.upstream_value (h : Sim s (.acting .upstream [.whileNot () (.act .body)]))
    (hbody : s.bodyState = none) (hlog : Open s.log) :
    Sim (State.runNext { s with upState := .completed, log := .upstreamDone .value :: s.log })
      (.testing () (.act .body) []) := by
  have halive : bodies s.log = 0 := by rw [h.alive, hbody]; rfl
  have hreset : State.reset { s with upState := .completed, log := .upstreamDone .value :: s.log } =
      { s with upState := .completed, log := .upstreamDone .value :: s.log } := by
    simp [State.reset, hbody]
  rw [State.runNext, hreset]
  refine h.advance (r := .value) rfl rfl rfl ?_ ?_ ?_
  · exact .testing rfl hbody rfl ((hlog.cons rfl rfl).cons rfl rfl)
  · exact (h.oneBody.other rfl (by simp)).cons (n := 0) (by simp [bodies, Event.change, halive])
      (.inl rfl) fun _ => by simp [bodies, Event.change, halive]
  · simp [bodies, Event.change, halive, hbody]

/-- A body sent a value: its operation state is destroyed, and the predicate is called. -/
theorem Sim.body_value (h : Sim s (.acting .body [.whileNot () (.act .body)]))
    (hup : s.upState = .completed) (hbody : s.bodyState = some .started) (hlog : Open s.log) :
    Sim (State.runNext { s with bodyState := some .completed, log := .bodyDone .value :: s.log })
      (.testing () (.act .body) []) := by
  have halive : bodies s.log = 1 := by rw [h.alive, hbody]; rfl
  refine h.advance (r := .value) rfl rfl rfl ?_ ?_ ?_
  · exact .testing hup rfl rfl (((hlog.cons rfl rfl).cons rfl rfl).cons rfl rfl)
  · have hdestroyed : OneBody (.destroyed :: .bodyDone .value :: s.log) :=
      (h.oneBody.other rfl (by simp)).cons (n := 0) (by simp [bodies, Event.change, halive])
        (.inl rfl) (by simp)
    exact hdestroyed.cons (n := 0) (by simp [bodies, Event.change, halive]) (.inl rfl)
      fun _ => by simp [bodies, Event.change, halive]
  · simp [State.runNext, State.reset, bodies, Event.change, halive]

/-- The predicate answered: the receiver is sent `set_value`, or the next body is started. -/
theorem Sim.answer (h : Sim s (.testing () (.act .body) [])) (hup : s.upState = .completed)
    (hbody : s.bodyState = none) (hlog : Open s.log) (moved : Body → Body) (b : Bool) :
    ∃ c, Sim (s.answer moved b) c := by
  have halive : bodies s.log = 0 := by rw [h.alive, hbody]; rfl
  cases b with
  | true =>
    refine ⟨.done, h.advance (r := .answer true) rfl rfl rfl ?_ ?_ ?_⟩
    · exact .done hup (by simp [State.answer, hbody]) rfl ⟨_, _, rfl, rfl, hlog⟩
    · exact (h.oneBody.other rfl (by simp)).other rfl (by simp)
    · simp [State.answer, bodies, Event.change, halive, hbody]
  | false =>
    refine ⟨.acting .body [.whileNot () (.act .body)],
      h.advance (r := .answer false) rfl rfl rfl ?_ ?_ ?_⟩
    · exact .body hup rfl rfl (((hlog.cons rfl rfl).cons rfl rfl).cons rfl rfl)
    · have hconnected : OneBody (.connected s.body :: .answered false :: s.log) :=
        (h.oneBody.other rfl (by simp)).cons (n := 1) (by simp [bodies, Event.change, halive])
          (.inr rfl) (by simp)
      exact hconnected.other rfl (by simp)
    · simp [State.answer, bodies, Event.change, halive]

theorem Completion.reply_of_ne (hx : x ≠ .value) : x.reply = .raise x := by
  cases x with
  | value => exact absurd rfl hx
  | error e => rfl
  | stopped => rfl

/-- The upstream sender or a body sent something else: the receiver is sent the same. -/
theorem Sim.interrupted (h : Sim s c) (hx : x ≠ .value) (hc : c.reply (.raise x) = some (.raised x))
    (hlog : Open s.log) {done : Event Body E} (hdone : done = .upstreamDone x ∨ done = .bodyDone x)
    (hlog' : s'.log = .signal x :: done :: s.log) (hup' : s'.upState = .completed)
    (hbody' : s'.bodyState ≠ some .started) (hask' : s'.asking = false)
    (hsome : s'.bodyState.isSome = s.bodyState.isSome) : Sim s' (.raised x) := by
  have hreply := Completion.reply_of_ne hx
  have hevent : done.reply? = some (.raise x) ∧ done.obs? = some (.replied (.raise x)) ∧
      done.change = 0 ∧ done ≠ .asked ∧ done.ends? = some x := by
    rcases hdone with rfl | rfl <;>
      exact ⟨congrArg some hreply, congrArg (some ∘ Obs.replied) hreply, rfl, by simp,
        by cases x <;> first | exact absurd rfl hx | rfl⟩
  obtain ⟨hrep, hobs, hchange, hasked, hends⟩ := hevent
  refine h.advance hc ?_ ?_ ?_ ?_ ?_
  · rw [State.replies, hlog', List.filterMap_cons_none rfl, List.filterMap_cons_some hrep]
    rfl
  · rw [State.trace, hlog', List.filterMap_cons_none rfl, List.filterMap_cons_some hobs]
    rfl
  · exact .raised x hx hup' hbody' hask' ⟨done, s.log, hlog', hends, hlog⟩
  · rw [hlog']
    exact (h.oneBody.other hchange hasked).other rfl (by simp)
  · rw [hlog', hsome, ← h.alive]
    show bodies s.log + done.change + 0 = bodies s.log
    rw [hchange, Int.add_zero, Int.add_zero]

theorem Sim.upstreamDone (h : Sim s c) (hstarted : s.upState = .started) (x : Completion E) :
    ∃ c', Sim (State.receive { s with upState := .completed, log := .upstreamDone x :: s.log } x)
      c' := by
  cases h.phase with
  | upstream _ hbody hask hlog =>
    cases x with
    | value => exact ⟨_, h.upstream_value hbody hlog⟩
    | error e =>
      exact ⟨_, h.interrupted (by simp) rfl hlog (.inl rfl) rfl rfl (by simp [State.receive, hbody])
        hask rfl⟩
    | stopped =>
      exact ⟨_, h.interrupted (by simp) rfl hlog (.inl rfl) rfl rfl (by simp [State.receive, hbody])
        hask rfl⟩
  | testing hup => rw [hup] at hstarted; cases hstarted
  | body hup => rw [hup] at hstarted; cases hstarted
  | done hup => rw [hup] at hstarted; cases hstarted
  | raised x hx hup => rw [hup] at hstarted; cases hstarted

theorem Sim.bodyDone (h : Sim s c) (hstarted : s.bodyState = some .started) (x : Completion E) :
    ∃ c', Sim (State.receive { s with bodyState := some .completed, log := .bodyDone x :: s.log } x)
      c' := by
  have hsome : (some Stage.completed).isSome = s.bodyState.isSome := by rw [hstarted]; rfl
  cases h.phase with
  | upstream _ hbody => rw [hbody] at hstarted; cases hstarted
  | testing _ hbody => rw [hbody] at hstarted; cases hstarted
  | body hup hbody hask hlog =>
    cases x with
    | value => exact ⟨_, h.body_value hup hbody hlog⟩
    | error e =>
      exact ⟨_, h.interrupted (by simp) rfl hlog (.inr rfl) rfl hup (by simp [State.receive]) hask
        hsome⟩
    | stopped =>
      exact ⟨_, h.interrupted (by simp) rfl hlog (.inr rfl) rfl hup (by simp [State.receive]) hask
        hsome⟩
  | done _ hbody => exact absurd hstarted hbody
  | raised _ _ _ hbody => exact absurd hstarted hbody

theorem Sim.predicate (h : Sim s c) (hask : s.asking = true) (moved : Body → Body) (b : Bool) :
    ∃ c', Sim (s.answer moved b) c' := by
  cases h.phase with
  | testing hup hbody _ hlog => exact h.answer hup hbody hlog moved b
  | upstream _ _ hnot => rw [hnot] at hask; cases hask
  | body _ _ hnot => rw [hnot] at hask; cases hask
  | done _ _ hnot => rw [hnot] at hask; cases hask
  | raised _ _ _ _ hnot => rw [hnot] at hask; cases hask

theorem Open.signals (h : Open s.log) : s.signals = [] := by
  rw [State.signals, List.filterMap_eq_nil_iff]
  exact fun e he => (h e he).2

theorem Closed.signals (h : Closed x s.log) : s.signals = [x] := by
  obtain ⟨e, pre, hlog, hends, hpre⟩ := h
  have hnone : e.signal? = none := by
    cases e with
    | signal y => cases hends
    | _ => rfl
  have hsignal : Event.signal? (.signal x : Event Body E) = some x := rfl
  rw [State.signals, hlog, List.filterMap_cons_some hsignal, List.filterMap_cons_none hnone,
    List.filterMap_eq_nil_iff.2 fun e he => (hpre e he).2]

theorem Closed.head? (h : Closed x log) : log.head? = some (.signal x) := by
  obtain ⟨e, pre, rfl, -⟩ := h
  rfl

/-- The only event that called for a completion called for the one that was signalled. -/
theorem Closed.ends (h : Closed x log) (he : e ∈ log) {y : Completion E} (hy : e.ends? = some y) :
    y = x := by
  obtain ⟨e', pre, rfl, hends, hpre⟩ := h
  rcases List.mem_cons.1 he with rfl | he
  · cases hy
  · rcases List.mem_cons.1 he with rfl | he
    · exact Option.some.inj (hy.symm.trans hends)
    · rw [(hpre e he).1] at hy
      cases hy

theorem Closed.signal (h : Closed x log) {y : Completion E} (hy : .signal y ∈ log) : y = x := by
  obtain ⟨e, pre, rfl, hends, hpre⟩ := h
  rcases List.mem_cons.1 hy with heq | hy
  · cases heq; rfl
  · rcases List.mem_cons.1 hy with rfl | hy
    · cases hends
    · cases (hpre _ hy).2

end RepeatEffectUntil
end Net29
