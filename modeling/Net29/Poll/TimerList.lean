import Net29.SortedList
import Net29.Poll.Timers

/-!
# `d_timeouts` is a `sorted_list`

The timers of a `poll_context` are a list of operations so far. In the source they are chained
through their `next` members by a `sorted_list`, which relies on its caller: a node is inserted only
when it is not in the list, and `pop_front` is called only on a list that is not empty.

* `timerCalls`: the calls of `d_timeouts` that a step of the machine makes;
* `Performs`: calls that are allowed and return, one after the other;
* `Linked`: the links hold the timers of the context;
* `timers_are_linked`: in every run all calls are allowed and return, and the links hold the timers.
-/

namespace Net29

open Machine Transition Links SortedList

namespace PollContext

variable {c c' : PollContext} {fs : List (Frame Empty)} {now : Time} {answers : List PollAnswer}
  {n : ℕ} {m m' : Machine PollContext Empty} {l : Label Answers Unit PollCall}
  {ls : List (Label Answers Unit PollCall)} {value : OpId → Time} {u u' : Usage OpId}

/-! ### The calls -/

/-- `resume_at`. -/
def submitCalls (io : IoBase) (req : Answers) : List (Call OpId) :=
  match io.op with
  | .resumeAt time => if req.now < time then [.insert io.self] else []
  | _ => []

/-- `cancel`: an operation on a socket is found before the timers are looked at. -/
def cancelCalls (c : PollContext) (o : OpId) : List (Call OpId) :=
  if c.outstanding.any fun io => io.self = o then [] else [.erase o]

/-- `run_one`: `process_timeout` takes off a timer that is due, first or after a call of `poll`. -/
def runOneCalls (c : PollContext) (now : Time) (answers : List PollAnswer) : List (Call OpId) :=
  match c.processTimeout now, c.processTask with
  | some _, _ => [.popFront]
  | none, some _ => []
  | none, none =>
      if c.poll = [] ∧ c.timeouts = [] then []
      else
        match c.wait now answers with
        | .ok (_, .timer _ _) => [.popFront]
        | _ => []

/-- The calls of a step. -/
def timerCalls (m : Machine PollContext Empty) : Label Answers Unit PollCall → List (Call OpId)
  | .start io _ true _ => m.ctx.cancelCalls io.self
  | .start io req false _ => submitCalls io req
  | .stop o _ => if 1 < (m.ops o).invoke.outstanding then m.ctx.cancelCalls o else []
  | .call (.runOne now answers) => m.ctx.runOneCalls now answers
  | _ => []

/-- The calls of a run. -/
def runCalls (m : Machine PollContext Empty) : List (Label Answers Unit PollCall) → List (Call OpId)
  | [] => []
  | l :: ls =>
      timerCalls m l ++
        match m.step pollBase l with
        | some m' => runCalls m' ls
        | none => []

/-- The calls are allowed when they are made, and return. -/
inductive Performs (value : OpId → Time) : Usage OpId → List (Call OpId) → Usage OpId → Prop
  | nil (u : Usage OpId) : Performs value u [] u
  | cons {u₁ u₂ u₃ : Usage OpId} {call : Call OpId} {calls : List (Call OpId)} (fuel : ℕ)
      (hallowed : u₁.Allowed call) (hreturns : u₁.step (· < ·) value fuel call = some u₂)
      (hrest : Performs value u₂ calls u₃) : Performs value u₁ (call :: calls) u₃

theorem Performs.append {calls calls' : List (Call OpId)} {u₁ u₂ u₃ : Usage OpId}
    (h : Performs value u₁ calls u₂) (h' : Performs value u₂ calls' u₃) :
    Performs value u₁ (calls ++ calls') u₃ := by
  induction h with
  | nil => exact h'
  | cons fuel hallowed hreturns _ ih => exact .cons fuel hallowed hreturns (ih h')

/-! ### The links -/

/-- A timer operation. -/
def timerAt (value : OpId → Time) (o : OpId) : IoBase := ⟨o, .resumeAt (value o)⟩

/-- The links hold the timers, in their order. -/
structure Linked (value : OpId → Time) (timers : List IoBase) (u : Usage OpId) : Prop where
  holds : Holds (timerAt value) u.links timers
  represents : ∃ l, Represents (· < ·) value u l

theorem time_isStrictWeakOrder : IsStrictWeakOrder Time (· < ·) :=
  isStrictWeakOrder_of_isOrderConnected

/-- The nodes in the list are the timers. -/
theorem Linked.mem_members {timers : List IoBase} (h : Linked value timers u) (o : OpId) :
    o ∈ u.members ↔ timerAt value o ∈ timers := by
  obtain ⟨l, hl⟩ := h.represents
  obtain ⟨l', hlist, rfl⟩ := h.holds
  obtain rfl := hl.isList.unique hlist
  rw [← hl.mem_iff, List.mem_map]
  constructor
  · exact fun ho => ⟨o, ho, rfl⟩
  · rintro ⟨o', ho', heq⟩
    cases heq
    exact ho'

/-- A call that the context makes keeps an ordered list of the members. -/
theorem exists_represents_of_step {call : Call OpId} {fuel : ℕ}
    (h : ∃ l, Represents (· < ·) value u l) (hallowed : u.Allowed call)
    (hstep : u.step (· < ·) value fuel call = some u') : ∃ l, Represents (· < ·) value u' l := by
  obtain ⟨l, hl⟩ := h
  have hweak := time_isStrictWeakOrder
  exact hl.step hallowed hstep

/-- `resume_at` inserts an operation that is not among the timers. -/
theorem Linked.insert {timers : List IoBase} {o : OpId} (h : Linked value timers u)
    (ho : timerAt value o ∉ timers) :
    ∃ u', Performs value u [.insert o] u' ∧
      Linked value (Timers.insert timers (timerAt value o)) u' := by
  obtain ⟨l, hlist, -⟩ := id h.holds
  have hallowed : u.Allowed (.insert o) := fun hmem => ho ((h.mem_members o).1 hmem)
  obtain ⟨p, hp⟩ := insert_returns (· < ·) value hlist (Nat.lt_succ_self _) o
  have hstep : u.step (· < ·) value l.length.succ (.insert o) =
      some { links := p.1, members := Insert.insert o u.members } := by
    simp only [Usage.step, hp, Option.map_some]
  refine ⟨_, .cons _ hallowed hstep (.nil _), ?_,
    exists_represents_of_step h.represents hallowed hstep⟩
  exact (insert_timers h.holds ho hp).2

/-- `process_timeout` takes off the first timer. -/
theorem Linked.popFront {timers timers' : List IoBase} {io : IoBase} (h : Linked value timers u)
    (hdue : Timers.popDue? timers now = some (io, timers')) :
    ∃ u', Performs value u [.popFront] u' ∧ Linked value timers' u' := by
  rcases popFront_timers h.holds now with
    ⟨o, s', hfront, -, hpop, timers'', hdue', hholds⟩ | ⟨-, hnone⟩
  · rw [hdue] at hdue'
    cases hdue'
    have hallowed : u.Allowed .popFront := by
      obtain ⟨l, hl⟩ := h.represents
      cases l with
      | nil =>
        rw [front, isList_nil.1 hl.isList] at hfront
        cases hfront
      | cons first l => exact ⟨first, (hl.mem_iff first).1 List.mem_cons_self⟩
    have hstep : u.step (· < ·) value 0 .popFront =
        some { links := s', members := u.members.erase o } := by
      simp only [Usage.step, hpop, Except.toOption, Option.map_some]
    exact ⟨_, .cons _ hallowed hstep (.nil _), hholds,
      exists_represents_of_step h.represents hallowed hstep⟩
  · rw [hdue] at hnone
    cases hnone

/-- `cancel` erases a timer. -/
theorem Linked.erase {timers timers' : List IoBase} {o : OpId} (h : Linked value timers u)
    (herase : Timers.erase? timers o = some timers') :
    ∃ u', Performs value u [.erase o] u' ∧ Linked value timers' u' := by
  obtain ⟨l, hlist, -⟩ := id h.holds
  obtain ⟨e, he⟩ := erase_returns hlist (Nat.lt_succ_self _) o
  rcases erase_timers (fun _ => rfl) h.holds he with
    ⟨s', timers'', rfl, herase', hholds⟩ | ⟨-, hnone⟩
  · rw [herase] at herase'
    cases herase'
    have hallowed : u.Allowed (.erase o) := trivial
    have hstep : u.step (· < ·) value l.length.succ (.erase o) =
        some { links := s', members := u.members.erase o } := by
      simp only [Usage.step, he, Option.bind_some, Except.toOption, Option.map_some]
    exact ⟨_, .cons _ hallowed hstep (.nil _), hholds,
      exists_represents_of_step h.represents hallowed hstep⟩
  · rw [herase] at hnone
    cases hnone

/-! ### The calls of a step -/

/-- What `run_one` does to the timers: nothing, or it takes off one that is due. -/
theorem runOne_timers (h : c.runOne now answers = .ok (c', fs, n)) :
    c.runOneCalls now answers = [] ∧ c'.timeouts = c.timeouts ∨
      c.runOneCalls now answers = [.popFront] ∧
        ∃ reading io, Timers.popDue? c.timeouts reading = some (io, c'.timeouts) := by
  unfold runOne at h
  unfold runOneCalls
  cases hdue : c.processTimeout now with
  | some x =>
    obtain ⟨c₁, fs₁⟩ := x
    rw [hdue] at h
    cases h
    obtain ⟨io, timeouts, hl, hle, rfl, -⟩ := processTimeout_eq_some hdue
    exact .inr ⟨rfl, now, io, Timers.popDue?_eq_some.2 ⟨hl, hle⟩⟩
  | none =>
    cases htask : c.processTask with
    | some x =>
      obtain ⟨c₁, fs₁⟩ := x
      rw [hdue, htask] at h
      cases h
      obtain ⟨t, tasks, -, rfl, -⟩ := processTask_eq_some htask
      exact .inl ⟨rfl, rfl⟩
    | none =>
      rw [hdue, htask] at h
      dsimp only at h ⊢
      split_ifs at h ⊢ with hidle
      · cases h
        exact .inl ⟨rfl, rfl⟩
      · obtain ⟨⟨c₁, exit⟩, hwait, h⟩ := Exec.bind_eq_ok.1 h
        obtain ⟨hw, hleft⟩ := wait_spec hwait
        rw [hwait]
        cases hleft with
        | failed =>
          cases h
          exact .inl ⟨rfl, hw.timeouts⟩
        | timer _ ht =>
          cases h
          obtain ⟨io, timeouts, hl, hle, rfl, -⟩ := processTimeout_eq_some ht
          have hpop := Timers.popDue?_eq_some.2 ⟨hl, hle⟩
          rw [hw.timeouts] at hpop
          exact .inr ⟨rfl, _, io, hpop⟩
        | @entry i =>
          obtain ⟨⟨c₂, fs'⟩, hdisp, h⟩ := Exec.bind_eq_ok.1 h
          cases h
          cases hio : c₁.outstanding[i]? with
          | none => rw [dispatch, hio] at hdisp; cases hdisp
          | some io =>
            rw [dispatch, hio] at hdisp
            obtain ⟨⟨c₃, fs₃, r⟩, hwork, heq⟩ := Exec.bind_eq_ok.1 hdisp
            cases heq
            refine .inl ⟨rfl, ?_⟩
            rw [(work_spec hwork).1.worked.timeouts, timeouts_removeOutstanding, hw.timeouts]

theorem Linked.of_eq {timers timers' : List IoBase} (h : Linked value timers u)
    (heq : timers' = timers) : ∃ u', Performs value u [] u' ∧ Linked value timers' u' :=
  ⟨u, .nil u, heq ▸ h⟩

/-- A call of the context. -/
theorem Linked.call {k : PollCall} (h : Linked value m.ctx.timeouts u)
    (hcall : pollBase.call m.ctx k = .ok (c', fs)) :
    ∃ u', Performs value u (timerCalls m (.call k)) u' ∧ Linked value c'.timeouts u' := by
  cases call_eq_ok hcall with
  | runOne hrun =>
    simp only [timerCalls]
    rcases runOne_timers hrun with ⟨hnil, heq⟩ | ⟨hone, reading, io, hdue⟩
    · rw [hnil]
      exact h.of_eq heq
    · rw [hone]
      exact h.popFront hdue
  | schedule t => exact h.of_eq rfl
  | makeSocket hmake =>
    rcases makeSocket_spec hmake with rfl | hopens
    · exact h.of_eq rfl
    · exact h.of_eq hopens.worked.timeouts
  | makeSocketNative hmake =>
    obtain ⟨sockets, -, rfl⟩ := makeSocketNative_eq_ok hmake
    exact h.of_eq rfl
  | release hrel => exact h.of_eq (release_spec hrel).timeouts

/-- A submission of an operation that was not started before. -/
theorem Linked.submit {io : IoBase} {req : Answers} {a : Unit} {r : SubmitResult}
    (hI : StepInv m) (h : Linked value m.ctx.timeouts u) (hidle : m.ops io.self = {})
    (hvalue : ∀ t, io.op = .resumeAt t → t = value io.self)
    (hsub : m.ctx.submit io req = .ok (c', fs, r)) :
    ∃ u', Performs value u (timerCalls m (.start io req false a)) u' ∧
      Linked value c'.timeouts u' := by
  -- only `resume_at` looks at the timers
  have hother : c'.timeouts = m.ctx.timeouts → (∀ t, io.op = .resumeAt t → t ≤ req.now) →
      ∃ u', Performs value u (timerCalls m (.start io req false a)) u' ∧
        Linked value c'.timeouts u' := by
    intro heq hdue
    have hnil : timerCalls m (.start io req false a) = [] := by
      simp only [timerCalls, submitCalls]
      split
      · next t hop => exact if_neg (Int.not_lt.2 (hdue t hop))
      · rfl
    rw [hnil]
    exact h.of_eq heq
  cases submit_cases hI.inv.blocking hsub with
  | @timer time hop hnow =>
    have hcalls : timerCalls m (.start io req false a) = [.insert io.self] := by
      simp only [timerCalls, submitCalls, hop]
      exact if_pos hnow
    have hio : timerAt value io.self = io := by
      rw [timerAt, ← hvalue time hop, ← hop]
    have hnot : timerAt value io.self ∉ m.ctx.timeouts := by
      intro hmem
      exact (hI.waiting (.inr hmem)).started (by rw [timerAt, hidle])
    rw [hcalls]
    have hinsert := h.insert hnot
    rwa [hio] at hinsert
  | due hinline =>
    refine hother rfl fun t hop => ?_
    rw [Inline, hop] at hinline
    exact hinline
  | connected hinline _ hacts =>
    refine hother hacts.worked.timeouts fun t hop => ?_
    rw [Inline, hop] at hinline
    exact hinline
  | failed _ _ hacts =>
    refine hother hacts.worked.timeouts fun t hop => ?_
    have hon := submit_failed hsub
    rw [hop] at hon
    cases hon
  | queued _ hacts =>
    refine hother hacts.worked.timeouts fun t hop => ?_
    have hlen := congrArg List.length (submit_timer hop hsub).1
    simp [hacts.worked.outstanding, record] at hlen

/-- `cancel` looks at the timers only when it did not find the operation among the others. -/
theorem Linked.cancel {io : IoBase} {a : Unit} (h : Linked value c.timeouts u)
    (hcancel : c.cancel io a = .ok (c', fs)) :
    ∃ u', Performs value u (c.cancelCalls io.self) u' ∧ Linked value c'.timeouts u' := by
  unfold PollContext.cancel at hcancel
  unfold cancelCalls
  split at hcancel
  · next i hi =>
    cases hcancel
    obtain ⟨hlt, hself, -⟩ := List.findIdx?_eq_some_iff_getElem.1 hi
    rw [if_pos (List.any_eq_true.2 ⟨_, List.getElem_mem hlt, hself⟩)]
    exact h.of_eq timeouts_removeOutstanding
  · next hnone =>
    have hnot : ¬ (c.outstanding.any fun io' => io'.self = io.self) = true := by
      simpa using List.findIdx?_eq_none_iff.1 hnone
    rw [if_neg hnot]
    split at hcancel
    · next timeouts herase =>
      cases hcancel
      exact h.erase herase
    · cases hcancel

/-- The keys are the deadlines of the operations that were started. -/
def RightKeys (value : OpId → Time) (m : Machine PollContext Empty) : Prop :=
  ∀ o t, (m.ops o).log ≠ [] → (m.ops o).op = .resumeAt t → t = value o

/-- The data of an operation are filled in when it is started, and stay. -/
theorem RightKeys.of_step {os : Os} (hruns : Runs pollBase free (initial os) m)
    (hstep : m.step pollBase l = some m') (hstatus : m'.status = none)
    (hvalue : RightKeys value m') : RightKeys value m := by
  intro o t hlog hop
  have hkept := (pollStep_of_runs hruns hstep).op hstatus hlog
  have hlog' : (m'.ops o).log ≠ [] := fun hnil => hlog <| by
    simpa [hnil] using log_step hstep (Runs.never_started hruns) o
  exact hvalue o t hlog' (hkept.trans hop)

/-- **Step.** The calls are allowed and return, and the links hold the timers afterwards. -/
theorem PollStep.linked (hI : StepInv m) (hstep : PollStep m l m') (hstatus : m'.status = none)
    (hvalue : RightKeys value m') (h : Linked value m.ctx.timeouts u) :
    ∃ u', Performs value u (timerCalls m l) u' ∧ Linked value m'.ctx.timeouts u' := by
  have hstarted : ∀ {io : IoBase} {req : Answers} {a : Unit},
      l = .start io req false a → ∀ t, io.op = .resumeAt t → t = value io.self := by
    rintro io req a rfl t hop
    obtain ⟨hsame, hlog⟩ := hstep.started hstatus
    exact hvalue io.self t hlog (hsame.trans hop)
  cases hstep with
  | ended _ hsome => rw [hstatus] at hsome; cases hsome
  | queued hidle hsub => exact h.submit hI hidle (hstarted rfl) hsub
  | inline hidle hsub => exact h.submit hI hidle (hstarted rfl) hsub
  | failed hidle hsub => exact h.submit hI hidle (hstarted rfl) hsub
  | @cancelled o a c hw hcancel =>
    have hcalls : timerCalls m (.stop o a) = m.ctx.cancelCalls o := by
      simp [timerCalls, SenderState.invoke, hw.outstanding]
    rw [hcalls]
    exact h.cancel hcancel
  | silent hcall => exact h.call hcall
  | task hcall => exact h.call hcall
  | completed _ hcall => exact h.call hcall
  | errored _ hcall => exact h.call hcall
  | returned => exact h.of_eq rfl
  | repeated => exact h.of_eq rfl

theorem runCalls_append (ls : List (Label Answers Unit PollCall)) {m₀ : Machine PollContext Empty}
    (h : run (step pollBase) m₀ ls = some m) :
    runCalls m₀ (ls ++ [l]) = runCalls m₀ ls ++ timerCalls m l := by
  induction ls generalizing m₀ with
  | nil =>
    cases h
    rw [List.nil_append, runCalls, runCalls, List.nil_append]
    cases m.step pollBase l with
    | none => exact List.append_nil _
    | some m' => exact List.append_nil _
  | cons l' ls ih =>
    obtain ⟨m₁, hstep, hrun⟩ := Option.bind_eq_some_iff.1 h
    have hstep : m₀.step pollBase l' = some m₁ := hstep
    rw [List.cons_append, runCalls, runCalls, hstep]
    dsimp only
    rw [ih hrun, List.append_assoc]

/-- **Runs.** -/
theorem linked_of_run {os : Os} {s : SortedList OpId} (hs : s .head = none)
    (h : run (step pollBase) { ctx := initial os } ls = some m) (hstatus : m.status = none)
    (hvalue : RightKeys value m) :
    ∃ u, Performs value { links := s } (runCalls { ctx := initial os } ls) u ∧
      Linked value m.ctx.timeouts u := by
  induction ls using List.reverseRecOn generalizing m with
  | nil =>
    cases h
    exact ⟨_, .nil _, ⟨[], hs, rfl⟩, [], represents_empty hs⟩
  | append_singleton ls l ih =>
    rw [run_append] at h
    obtain ⟨m₁, hrun, h⟩ := Option.bind_eq_some_iff.1 h
    obtain ⟨m₂, hstep, h⟩ := Option.bind_eq_some_iff.1 h
    cases h
    have hruns : Runs pollBase free (initial os) m₁ := reaches_free_of_run hrun
    have hI := stepInv_of_runs hruns (status_of_step hstep)
    have hpoll := pollStep_of_runs hruns hstep
    obtain ⟨u, hcalls, hlinked⟩ :=
      ih hrun (status_of_step hstep) (hvalue.of_step hruns hstep hstatus)
    obtain ⟨u', hcalls', hlinked'⟩ := hpoll.linked hI hstatus hvalue hlinked
    rw [runCalls_append ls hrun]
    exact ⟨u', hcalls.append hcalls', hlinked'⟩

/-- The deadline of a timer operation. -/
def deadlines (m : Machine PollContext Empty) (o : OpId) : Time :=
  IoBase.deadline ⟨o, (m.ops o).op⟩

theorem rightKeys_deadlines (m : Machine PollContext Empty) : RightKeys (deadlines m) m := by
  intro o t _ hop
  rw [deadlines, IoBase.deadline, hop]

/-- **`d_timeouts` is used as a `sorted_list` requires**, in every run while the process goes on and
whatever is in the links of operations that are in no list: a timer is inserted only when it is not
in the list, `pop_front` is called only when there is one, every call returns, and afterwards the
chain from `head` is the list of the timers, in their order, so that `value_or` gives the deadline
by which `run_one` waits. -/
theorem timers_are_linked (os : Os) (ls : List (Label Answers Unit PollCall))
    (m : Machine PollContext Empty) (s : SortedList OpId) (hs : s .head = none)
    (h : run (step pollBase) { ctx := initial os } ls = some m) (hstatus : m.status = none) :
    ∃ u, Performs (deadlines m) { links := s } (runCalls { ctx := initial os } ls) u ∧
      Holds (timerAt (deadlines m)) u.links m.ctx.timeouts ∧
      (∀ v, SortedList.valueOr (deadlines m) u.links v = Timers.valueOr m.ctx.timeouts v) ∧
      ∀ o, o ∈ u.members ↔ timerAt (deadlines m) o ∈ m.ctx.timeouts := by
  obtain ⟨u, hcalls, hlinked⟩ := linked_of_run hs h hstatus (rightKeys_deadlines m)
  have hvalue := valueOr_timers hlinked.holds
  exact ⟨u, hcalls, hlinked.holds, hvalue, hlinked.mem_members⟩

/-- Three timers are started, one is cancelled and the first of the others fires. -/
def threeTimers : List (Label Answers Unit PollCall) :=
  [.start ⟨1, .resumeAt 5⟩ { now := 0 } false (), .start ⟨2, .resumeAt 3⟩ { now := 0 } false (),
    .start ⟨3, .resumeAt 4⟩ { now := 0 } false (), .stop 2 (), .call (.runOne 4 [])]

theorem timers_are_linked_threeTimers :
    ∃ (m : Machine PollContext Empty) (u : Usage OpId),
      run (step pollBase) { ctx := initial {} } threeTimers = some m ∧
      Performs (deadlines m) { links := fun _ => none }
        [.insert 1, .insert 2, .insert 3, .erase 2, .popFront] u ∧
      m.ctx.timeouts = [⟨1, .resumeAt 5⟩] ∧ 1 ∈ u.members := by
  obtain ⟨m, hrun, hstatus, htimeouts, hone⟩ : ∃ m : Machine PollContext Empty,
      run (step pollBase) { ctx := initial {} } threeTimers = some m ∧ m.status = none ∧
      m.ctx.timeouts = [⟨1, .resumeAt 5⟩] ∧ (m.ops 1).op = .resumeAt 5 :=
    ⟨_, rfl, rfl, rfl, rfl⟩
  obtain ⟨u, hcalls, -, -, hmembers⟩ :=
    timers_are_linked {} threeTimers m (fun _ => none) rfl hrun hstatus
  refine ⟨m, u, hrun, hcalls, htimeouts, (hmembers 1).2 ?_⟩
  rw [htimeouts, timerAt, deadlines, IoBase.deadline, hone]
  exact List.mem_singleton.2 rfl

end PollContext

end Net29
