import Net29.Poll.Ledger

/-!
# The loop around `poll`

`run_one` reads the clock once and then calls `poll` until something is dispatched.

* `Round`, `Rounds`: the answers after which the loop goes on, and what the context is then;
* `rounds_iff_idle`: the same, said of the answers alone;
* `reported_is_dispatched_iff`: when a reported condition is dispatched.
-/

namespace Net29

open SwapRemove Machine Transition

def POLLHUP : BitVec 16 := 16
def POLLNVAL : BitVec 16 := 32

namespace PollContext

variable {c c' c₁ : PollContext} {io : IoBase} {i n : ℕ} {sys : List SysAnswer} {now later : Time}
  {answers before : List PollAnswer} {answer : PollAnswer} {revents : List (BitVec 16)}

/-! ### Rounds -/

/-- `poll` is called: the time-out handed to it is recorded. -/
def handed (c : PollContext) (now : Time) : PollContext :=
  { c with polls := c.timeout now :: c.polls }

/-- A round of the loop that goes on: `poll` was interrupted, or nothing was to be dispatched. -/
inductive Round (now : Time) (c : PollContext) : PollAnswer → PollContext → Prop
  | interrupted {e : Errno} (he : e = Errno.EINTR ∨ e = Errno.EAGAIN) :
      Round now c (.err e) (c.handed now)
  | nothing {revents : List (BitVec 16)} {later : Time} {sys : List SysAnswer}
      (hlen : revents.length = c.poll.length)
      (hscan : ((c.handed now).report revents).scan
        ((c.handed now).report revents).poll.length = none)
      (hdue : ((c.handed now).report revents).processTimeout later = none) :
      Round now c (.ok revents later sys) ((c.handed now).report revents)

/-- The loop goes on after all these answers. -/
inductive Rounds (now : Time) : PollContext → List PollAnswer → PollContext → Prop
  | nil (c : PollContext) : Rounds now c [] c
  | cons {c c₁ c₂ : PollContext} {answer : PollAnswer} {answers : List PollAnswer}
      (h : Round now c answer c₁) (hs : Rounds now c₁ answers c₂) :
      Rounds now c (answer :: answers) c₂

theorem waited_handed (c : PollContext) (now : Time) : Waited c (c.handed now) :=
  ⟨rfl, rfl, rfl, rfl, rfl, rfl⟩

theorem Round.waited (h : Round now c answer c₁) : Waited c c₁ := by
  cases h with
  | interrupted => exact waited_handed c now
  | nothing hlen => exact (waited_handed c now).trans (waited_report hlen)

theorem Rounds.waited (h : Rounds now c before c₁) : Waited c c₁ := by
  induction h with
  | nil c => exact .refl c
  | cons h _ ih => exact h.waited.trans ih

theorem Round.wait (h : Round now c answer c₁) (rest : List PollAnswer) :
    c.wait now (answer :: rest) = c₁.wait now rest := by
  cases h with
  | interrupted he => simp only [PollContext.wait, if_pos he]; rfl
  | nothing hlen hscan hdue =>
    unfold handed at hscan hdue ⊢
    simp only [PollContext.wait, ne_eq, hlen, not_true_eq_false, if_false, hscan, hdue]

/-- The loop is where it is after the answers that it went on after. -/
theorem Rounds.wait (h : Rounds now c before c₁) (rest : List PollAnswer) :
    c.wait now (before ++ rest) = c₁.wait now rest := by
  induction h with
  | nil c => rfl
  | cons h _ ih => rw [List.cons_append, h.wait, ih]

/-- The answer with which the loop is left, from the state `c` before that call of `poll`. -/
inductive Leaves (now : Time) (c : PollContext) : PollAnswer → PollContext → Exit → Prop
  | failed {e : Errno} (he : ¬ (e = Errno.EINTR ∨ e = Errno.EAGAIN)) :
      Leaves now c (.err e) (c.handed now) .failed
  | entry {revents : List (BitVec 16)} {later : Time} {sys : List SysAnswer} {i : ℕ}
      (hlen : revents.length = c.poll.length)
      (hscan : ((c.handed now).report revents).scan
        ((c.handed now).report revents).poll.length = some i) :
      Leaves now c (.ok revents later sys) ((c.handed now).report revents) (.entry i sys)
  | timer {revents : List (BitVec 16)} {later : Time} {sys : List SysAnswer} {c' : PollContext}
      {fs : List (Frame Empty)} (hlen : revents.length = c.poll.length)
      (hscan : ((c.handed now).report revents).scan
        ((c.handed now).report revents).poll.length = none)
      (hdue : ((c.handed now).report revents).processTimeout later = some (c', fs)) :
      Leaves now c (.ok revents later sys) ((c.handed now).report revents) (.timer c' fs)

/-- The loop goes on for some rounds and is left with the next answer. -/
theorem wait_cases {exit : Exit} (h : c.wait now answers = .ok (c', exit)) :
    ∃ before answer after c₁, answers = before ++ answer :: after ∧ Rounds now c before c₁ ∧
      Leaves now c₁ answer c' exit := by
  induction answers generalizing c with
  | nil => cases h
  | cons a answers ih =>
    have hcons : ∀ c₁, Round now c a c₁ → c₁.wait now answers = .ok (c', exit) →
        ∃ before answer after c₁, a :: answers = before ++ answer :: after ∧
          Rounds now c before c₁ ∧ Leaves now c₁ answer c' exit := by
      intro c₁ hr hw
      obtain ⟨before, answer, after, c₂, rfl, hrs, hl⟩ := ih hw
      exact ⟨a :: before, answer, after, c₂, rfl, .cons hr hrs, hl⟩
    cases a with
    | err e =>
      simp only [wait] at h
      split_ifs at h with he
      · exact hcons _ (.interrupted he) h
      · cases h
        exact ⟨[], _, _, c, rfl, .nil c, .failed he⟩
    | ok revents later sys =>
      simp only [wait, ne_eq, ite_not] at h
      split_ifs at h with hlen
      split at h
      · next i hscan =>
        cases h
        exact ⟨[], _, _, c, rfl, .nil c, .entry hlen hscan⟩
      · next hscan =>
        split at h
        · next c'' fs hdue =>
          cases h
          exact ⟨[], _, _, c, rfl, .nil c, .timer hlen hscan hdue⟩
        · next hdue => exact hcons _ (.nothing hlen hscan hdue) h

/-- A clock reading of `run_one` found a timer due: the one at its beginning, or the one after the
last call of `poll`. -/
inductive FoundDue (c : PollContext) (now : Time) (answers : List PollAnswer) :
    Time → PollContext → List (Frame Empty) → Prop
  | atOnce {c' : PollContext} {fs : List (Frame Empty)}
      (hdue : c.processTimeout now = some (c', fs)) : FoundDue c now answers now c' fs
  | later {before after : List PollAnswer} {revents : List (BitVec 16)} {later : Time}
      {sys : List SysAnswer} {c₁ c' : PollContext} {fs : List (Frame Empty)}
      (hanswers : answers = before ++ .ok revents later sys :: after) (hr : Rounds now c before c₁)
      (hlen : revents.length = c₁.poll.length)
      (hscan : ((c₁.handed now).report revents).scan
        ((c₁.handed now).report revents).poll.length = none)
      (hdue : ((c₁.handed now).report revents).processTimeout later = some (c', fs)) :
      FoundDue c now answers later c' fs

/-- How `run_one` returns. -/
inductive Exits (c : PollContext) (now : Time) (answers : List PollAnswer) :
    PollContext → List (Frame Empty) → ℕ → Prop
  /-- a timer was due -/
  | timer {reading : Time} {c' : PollContext} {fs : List (Frame Empty)}
      (h : FoundDue c now answers reading c' fs) : Exits c now answers c' fs 1
  /-- there was a task -/
  | task {c' : PollContext} {fs : List (Frame Empty)} (h : c.processTask = some (c', fs)) :
      Exits c now answers c' fs 1
  /-- there is nothing left -/
  | empty (htask : c.processTask = none) (hpoll : c.poll = []) (htimeouts : c.timeouts = []) :
      Exits c now answers c [] 0
  /-- `poll` failed -/
  | failed {before after : List PollAnswer} {e : Errno} {c₁ : PollContext}
      (htask : c.processTask = none) (hanswers : answers = before ++ .err e :: after)
      (hr : Rounds now c before c₁) (he : ¬ (e = Errno.EINTR ∨ e = Errno.EAGAIN)) :
      Exits c now answers (c₁.handed now) [] 0
  /-- an entry was reported -/
  | entry {before after : List PollAnswer} {revents : List (BitVec 16)} {later : Time}
      {sys : List SysAnswer} {c₁ c' : PollContext} {i : ℕ} {io : IoBase} {r : SubmitResult}
      {fs : List (Frame Empty)} (htimer : c.processTimeout now = none)
      (htask : c.processTask = none) (hanswers : answers = before ++ .ok revents later sys :: after)
      (hr : Rounds now c before c₁) (hlen : revents.length = c₁.poll.length)
      (hscan : ((c₁.handed now).report revents).scan
        ((c₁.handed now).report revents).poll.length = some i)
      (hio : c₁.outstanding[i]? = some io)
      (hwork : (((c₁.handed now).report revents).removeOutstanding i).work io sys =
        .ok (c', fs, r)) : Exits c now answers c' fs 1

theorem runOne_exits {fs : List (Frame Empty)} (h : c.runOne now answers = .ok (c', fs, n)) :
    Exits c now answers c' fs n := by
  unfold PollContext.runOne at h
  split at h
  · next hdue => cases h; exact .timer (.atOnce hdue)
  · next htimer =>
    split at h
    · next htask => cases h; exact .task htask
    · next htask =>
      split_ifs at h with hidle
      · cases h
        exact .empty htask hidle.1 hidle.2
      · obtain ⟨⟨c₁, exit⟩, hwait, h⟩ := Exec.bind_eq_ok.1 h
        obtain ⟨before, answer, after, c₀, hanswers, hr, hl⟩ := wait_cases hwait
        cases hl with
        | failed he =>
          cases h
          exact .failed htask hanswers hr he
        | timer hlen hscan hdue =>
          cases h
          exact .timer (.later hanswers hr hlen hscan hdue)
        | entry hlen hscan =>
          obtain ⟨⟨c₂, fs'⟩, hdisp, h⟩ := Exec.bind_eq_ok.1 h
          cases h
          unfold dispatch at hdisp
          split at hdisp
          · cases hdisp
          · next io hio =>
            obtain ⟨⟨c₃, fs₃, r⟩, hwork, h⟩ := Exec.bind_eq_ok.1 hdisp
            cases h
            exact .entry htimer htask hanswers hr hlen hscan hio hwork

/-- The last call of `poll` failed, with an error that the loop does not go on after. -/
def PollFailed (c : PollContext) (now : Time) (answers : List PollAnswer) : Prop :=
  ∃ before e after c₁, answers = before ++ .err e :: after ∧ Rounds now c before c₁ ∧
    e ≠ Errno.EINTR ∧ e ≠ Errno.EAGAIN

/-! ### The entries reported -/

theorem scan_eq_none :
    c.scan n = none ↔ ∀ i < n, ∀ p, c.poll[i]? = some p → p.reported = false := by
  induction n with
  | zero => simp [scan]
  | succ n ih =>
    have hcons : (∀ i < n + 1, ∀ p, c.poll[i]? = some p → p.reported = false) ↔
        (∀ p, c.poll[n]? = some p → p.reported = false) ∧
          ∀ i < n, ∀ p, c.poll[i]? = some p → p.reported = false := by
      constructor
      · exact fun h => ⟨h n (Nat.lt_succ_self n), fun i hi => h i (Nat.lt_succ_of_lt hi)⟩
      · rintro ⟨hn, h⟩ i hi
        rcases Nat.lt_succ_iff_lt_or_eq.1 hi with hi | rfl
        · exact h i hi
        · exact hn
    rw [hcons, ← ih, scan]
    split
    · next p hp =>
      split_ifs with hr
      · simp [hp, hr]
      · simp [hp, hr]
    · next hp => simp [hp]

theorem report_get {p : Pollfd} :
    (c.report revents).poll[i]? = some p ↔
      ∃ q r, c.poll[i]? = some q ∧ revents[i]? = some r ∧ p = { q with revents := r } := by
  rw [report, List.getElem?_zipWith_eq_some]
  simp only [eq_comm]

/-- A requested event or an error is reported for some operation. -/
def SomeRequested (c : PollContext) (revents : List (BitVec 16)) : Prop :=
  ∃ (i : ℕ) (r : BitVec 16) (io : IoBase), revents[i]? = some r ∧ c.outstanding[i]? = some io ∧
    r &&& (eventMask io.op.events ||| POLLERR) ≠ 0

theorem Waited.someRequested (h : Waited c c') :
    SomeRequested c' revents ↔ SomeRequested c revents := by
  unfold SomeRequested
  rw [h.outstanding]

/-- The loop over the entries finds one exactly when something was requested. -/
theorem scan_report_eq_none (ha : Aligned c) :
    (c.report revents).scan (c.report revents).poll.length = none ↔ ¬ SomeRequested c revents := by
  rw [scan_eq_none]
  constructor
  · rintro h ⟨i, r, io, hr, hio, hne⟩
    have hlt : i < c.poll.length := by
      rw [ha.length]
      exact (List.getElem?_eq_some_iff.1 hio).1
    have hp := List.getElem?_eq_getElem hlt
    have hget := report_get.2 ⟨_, r, hp, hr, rfl⟩
    have hnot := h i (List.getElem?_eq_some_iff.1 hget).1 _ hget
    rw [← ha.get hp hio] at hne
    exact hne (by simpa [Pollfd.reported] using hnot)
  · intro h i _ p hget
    obtain ⟨q, r, hq, hr, rfl⟩ := report_get.1 hget
    have hlt : i < c.outstanding.length := by
      rw [← ha.length]
      exact (List.getElem?_eq_some_iff.1 hq).1
    have hio := List.getElem?_eq_getElem hlt
    by_contra hreported
    refine h ⟨i, r, _, hr, hio, ?_⟩
    rw [← ha.get hq hio]
    simpa [Pollfd.reported] using hreported

/-- An answer that leaves nothing to dispatch: an interruption, or a wake-up with nothing requested
and before the first deadline. -/
def Idle (c : PollContext) : PollAnswer → Prop
  | .err e => e = Errno.EINTR ∨ e = Errno.EAGAIN
  | .ok revents later _ =>
      revents.length = c.poll.length ∧ ¬ SomeRequested c revents ∧ c.processTimeout later = none

theorem Waited.processTimeout (h : Waited c c') :
    c'.processTimeout later = none ↔ c.processTimeout later = none := by
  rw [PollContext.processTimeout, PollContext.processTimeout, Option.map_eq_none_iff,
    Option.map_eq_none_iff, h.timeouts]

theorem Waited.idle (h : Waited c c') : Idle c' answer ↔ Idle c answer := by
  cases answer with
  | err e => exact Iff.rfl
  | ok revents later sys =>
    have hlen : c'.poll.length = c.poll.length := by
      simpa only [PollContext.entries, List.length_map] using congrArg List.length h.entries
    simp only [Idle, hlen, h.someRequested, h.processTimeout]

theorem round_iff_idle (now : Time) (ha : Aligned c) :
    (∃ c₁, Round now c answer c₁) ↔ Idle c answer := by
  constructor
  · rintro ⟨c₁, h⟩
    cases h with
    | interrupted he => exact he
    | nothing hlen hscan hdue =>
      have hrep := (waited_handed c now).trans (waited_report hlen)
      rw [scan_report_eq_none (show Aligned (c.handed now) from ha)] at hscan
      exact ⟨hlen, hscan, hrep.processTimeout.1 hdue⟩
  · intro h
    cases answer with
    | err e => exact ⟨_, .interrupted h⟩
    | ok revents later sys =>
      obtain ⟨hlen, hnot, hdue⟩ := h
      have hrep := (waited_handed c now).trans (waited_report hlen)
      refine ⟨_, .nothing hlen ?_ (hrep.processTimeout.2 hdue)⟩
      rw [scan_report_eq_none (show Aligned (c.handed now) from ha)]
      exact hnot

/-- The loop goes on exactly after answers that leave nothing to dispatch. -/
theorem rounds_iff_idle (now : Time) (ha : Aligned c) :
    (∃ c₁, Rounds now c answers c₁) ↔ ∀ answer ∈ answers, Idle c answer := by
  induction answers generalizing c with
  | nil => exact ⟨fun _ => List.forall_mem_nil _, fun _ => ⟨c, .nil c⟩⟩
  | cons a answers ih =>
    rw [List.forall_mem_cons]
    constructor
    · rintro ⟨c₂, hrounds⟩
      cases hrounds with
      | cons h hs =>
        refine ⟨(round_iff_idle now ha).1 ⟨_, h⟩, fun answer hmem => h.waited.idle.1 ?_⟩
        exact (ih (h.waited.matches ha)).1 ⟨c₂, hs⟩ answer hmem
    · rintro ⟨hidle, hrest⟩
      obtain ⟨c₁, h⟩ := (round_iff_idle now ha).2 hidle
      obtain ⟨c₂, hs⟩ := (ih (h.waited.matches ha)).2 fun answer hmem =>
        h.waited.idle.2 (hrest answer hmem)
      exact ⟨c₂, .cons h hs⟩

/-- An entry was reported: the loop is left with it. -/
theorem wait_entry (hlen : revents.length = c.poll.length)
    (hscan : ((c.handed now).report revents).scan
      ((c.handed now).report revents).poll.length = some i) (rest : List PollAnswer) :
    c.wait now (.ok revents later sys :: rest) =
      .ok ((c.handed now).report revents, .entry i sys) := by
  unfold handed at hscan ⊢
  simp only [PollContext.wait, ne_eq, hlen, not_true_eq_false, if_false, hscan]

/-- No entry was reported, and a timer is due: the loop is left with it. -/
theorem wait_timer {fs : List (Frame Empty)} (hlen : revents.length = c.poll.length)
    (hscan : ((c.handed now).report revents).scan
      ((c.handed now).report revents).poll.length = none)
    (hdue : ((c.handed now).report revents).processTimeout later = some (c', fs))
    (rest : List PollAnswer) :
    c.wait now (.ok revents later sys :: rest) =
      .ok ((c.handed now).report revents, .timer c' fs) := by
  unfold handed at hscan hdue ⊢
  simp only [PollContext.wait, ne_eq, hlen, not_true_eq_false, if_false, hscan, hdue]

/-- `run_one` reaches the loop: nothing is due, there is no task, but something to wait for. -/
structure Waits (c : PollContext) (now : Time) : Prop where
  timer : c.processTimeout now = none
  task : c.processTask = none
  pending : ¬ (c.poll = [] ∧ c.timeouts = [])

theorem Waits.runOne_entry (h : Waits c now)
    (hwait : c.wait now answers = .ok (c₁, .entry i sys)) (hio : c₁.outstanding[i]? = some io) :
    c.runOne now answers =
      ((c₁.removeOutstanding i).work io sys).map fun x => (x.1, x.2.1, 1) := by
  unfold PollContext.runOne
  rw [h.timer, h.task, hwait]
  dsimp only
  rw [if_neg h.pending]
  show (c₁.dispatch i sys >>= fun x => Except.ok (x.1, x.2, 1)) = _
  unfold dispatch
  rw [hio]
  dsimp only
  cases (c₁.removeOutstanding i).work io sys <;> rfl

theorem Waits.runOne_timer {fs : List (Frame Empty)} (h : Waits c now)
    (hwait : c.wait now answers = .ok (c₁, .timer c' fs)) :
    c.runOne now answers = .ok (c', fs, 1) := by
  unfold PollContext.runOne
  rw [h.timer, h.task, hwait]
  dsimp only
  rw [if_neg h.pending]
  rfl

/-! ### Every condition reported is dispatched, or not -/

/-- The answer `revents` is used up in the iteration that gets it, whatever `poll` would answer
later: an operation that was reported is taken out, its work function is what `run_one` ends with,
returning 1, and the loop does not go on. -/
structure UsedUp (c : PollContext) (now : Time) (before : List PollAnswer) (c₁ : PollContext)
    (revents : List (BitVec 16)) (later : Time) (sys : List SysAnswer) : Prop where
  dispatched : ∃ (i : ℕ) (r : BitVec 16) (io : IoBase) (c₂ : PollContext),
    revents[i]? = some r ∧ r ≠ 0 ∧ c₁.outstanding[i]? = some io ∧
      c₁.outstanding.Perm (io :: c₂.outstanding) ∧
      ∀ rest, c.runOne now (before ++ .ok revents later sys :: rest) =
        (c₂.work io sys).map fun x => (x.1, x.2.1, 1)
  left : ∀ c₂, ¬ Round now c₁ (.ok revents later sys) c₂

/-- What `poll` reports: events that were requested, and `POLLERR`, `POLLHUP` and `POLLNVAL`. -/
def Reportable (c : PollContext) (revents : List (BitVec 16)) : Prop :=
  ∀ (i : ℕ) (r : BitVec 16) (io : IoBase), revents[i]? = some r → c.outstanding[i]? = some io →
    r &&& ~~~(eventMask io.op.events ||| POLLERR ||| (POLLHUP ||| POLLNVAL)) = 0

/-- Of what lies in two disjoint masks, the part in the first is the part outside the second. -/
theorem and_eq_and_not {w : ℕ} {r a b : BitVec w} (hab : a &&& b = 0) (h : r &&& ~~~(a ||| b) = 0) :
    r &&& a = r &&& ~~~b := by
  ext i hi
  have hab' := congrArg (fun x => x.getLsbD i) hab
  have h' := congrArg (fun x => x.getLsbD i) h
  simp only [BitVec.getLsbD_and, BitVec.getLsbD_not, BitVec.getLsbD_or, hi, decide_true,
    Bool.true_and] at hab' h'
  simp only [← BitVec.getLsbD_eq_getElem]
  cases r.getLsbD i <;> cases ha : a.getLsbD i <;> cases hb : b.getLsbD i <;> simp_all

theorem eventMask_and_hup (e : EventType) :
    (eventMask e ||| POLLERR) &&& (POLLHUP ||| POLLNVAL) = 0 := by
  cases e <;> decide

/-- Of what `poll` can report, only `POLLHUP` and `POLLNVAL` are not looked at. -/
theorem someRequested_iff_of_reportable (hlen : revents.length = c.outstanding.length)
    (h : Reportable c revents) :
    SomeRequested c revents ↔ ∃ r ∈ revents, r &&& ~~~(POLLHUP ||| POLLNVAL) ≠ 0 := by
  constructor
  · rintro ⟨i, r, io, hr, hio, hne⟩
    refine ⟨r, List.mem_of_getElem? hr, ?_⟩
    rwa [← and_eq_and_not (eventMask_and_hup _) (h i r io hr hio)]
  · rintro ⟨r, hmem, hne⟩
    obtain ⟨i, hi, hr⟩ := List.getElem_of_mem hmem
    have hr' : revents[i]? = some r := by rw [List.getElem?_eq_getElem hi, hr]
    have hio := List.getElem?_eq_getElem (hlen ▸ hi)
    refine ⟨i, r, _, hr', hio, ?_⟩
    rwa [and_eq_and_not (eventMask_and_hup _) (h i r _ hr' hio)]

/-- A condition that was requested, or an error, is dispatched. -/
theorem usedUp_of_someRequested (ha : Aligned c) (hw : Waits c now) (hr : Rounds now c before c₁)
    (hlen : revents.length = c.poll.length) (hsome : SomeRequested c revents) :
    UsedUp c now before c₁ revents later sys := by
  have ha₁ : Aligned c₁ := hr.waited.matches ha
  have hlen₁ : revents.length = c₁.poll.length := by
    rw [hlen, ha.length, ha₁.length, hr.waited.outstanding]
  have hrep : Waited c₁ ((c₁.handed now).report revents) :=
    (waited_handed c₁ now).trans (waited_report hlen₁)
  have hscan : ((c₁.handed now).report revents).scan
      ((c₁.handed now).report revents).poll.length ≠ none := by
    rw [ne_eq, scan_report_eq_none (show Aligned (c₁.handed now) from ha₁)]
    exact not_not.2 (hr.waited.someRequested.2 hsome)
  obtain ⟨i, hi⟩ := Option.ne_none_iff_exists'.1 hscan
  obtain ⟨p, hp, hreported⟩ := scan_eq_some hi
  obtain ⟨q, r, hq, hri, rfl⟩ := report_get.1 hp
  have hlt : i < c₁.outstanding.length := by
    rw [← ha₁.length]
    exact (List.getElem?_eq_some_iff.1 hq).1
  have hio := List.getElem?_eq_getElem hlt
  have hrep_al := hrep.matches ha₁
  refine ⟨⟨i, r, _, ((c₁.handed now).report revents).removeOutstanding i, hri, ?_, hio, ?_,
    fun rest => ?_⟩, fun c₂ hround => ?_⟩
  · rintro rfl
    simp [Pollfd.reported] at hreported
  · rw [outstanding_removeOutstanding hrep_al.length, hrep.outstanding]
    exact perm_cons_swapRemove c₁.outstanding hlt
  · refine hw.runOne_entry ?_ (by rw [hrep.outstanding]; exact hio)
    rw [hr.wait]
    exact wait_entry hlen₁ hi rest
  · cases hround with
    | nothing _ hnone => exact hscan hnone

/-- What is dispatched was requested, or is an error. -/
theorem someRequested_of_usedUp (ha : Aligned c) (hw : Waits c now) (hr : Rounds now c before c₁)
    (hlen : revents.length = c.poll.length) (h : UsedUp c now before c₁ revents later sys) :
    SomeRequested c revents := by
  have ha₁ : Aligned c₁ := hr.waited.matches ha
  have hlen₁ : revents.length = c₁.poll.length := by
    rw [hlen, ha.length, ha₁.length, hr.waited.outstanding]
  by_contra hnot
  have hscan : ((c₁.handed now).report revents).scan
      ((c₁.handed now).report revents).poll.length = none := by
    rw [scan_report_eq_none (show Aligned (c₁.handed now) from ha₁)]
    exact fun hsome => hnot (hr.waited.someRequested.1 hsome)
  cases hdue : ((c₁.handed now).report revents).processTimeout later with
  | none => exact h.left _ (.nothing hlen₁ hscan hdue)
  | some x =>
    -- a timer is dispatched instead, and every operation still waits
    obtain ⟨c', fs⟩ := x
    obtain ⟨i, r, io, c₂, -, -, -, hperm, hrun⟩ := h.dispatched
    have htimer := hw.runOne_timer ((hr.wait (.ok revents later sys :: [])).trans
      (wait_timer hlen₁ hscan hdue []))
    obtain ⟨⟨c₃, fs₃, r₃⟩, hwork, heq⟩ := Exec.map_eq_ok.1 ((hrun []).symm.trans htimer)
    cases heq
    obtain ⟨_, _, _, _, rfl, _⟩ := processTimeout_eq_some hdue
    have hout : c₁.outstanding = c₂.outstanding := (work_spec hwork).1.worked.outstanding
    have := hperm.length_eq
    rw [hout, List.length_cons] at this
    omega

/-- Otherwise the loop goes round as often as the same is reported. -/
theorem rounds_of_not_requested (ha : Aligned c) (hlen : revents.length = c.poll.length)
    (hnot : ¬ SomeRequested c revents) (hdue : c.processTimeout later = none) (k : ℕ) :
    ∃ c₁, Rounds now c (List.replicate k (.ok revents later sys)) c₁ := by
  induction k generalizing c with
  | zero => exact ⟨c, .nil c⟩
  | succ k ih =>
    have hrep : Waited c ((c.handed now).report revents) :=
      (waited_handed c now).trans (waited_report hlen)
    have ha₁ := hrep.matches ha
    have hscan : ((c.handed now).report revents).scan
        ((c.handed now).report revents).poll.length = none := by
      rw [scan_report_eq_none (show Aligned (c.handed now) from ha)]
      exact hnot
    have hdue₁ : ((c.handed now).report revents).processTimeout later = none := by
      rw [processTimeout, Option.map_eq_none_iff] at hdue ⊢
      exact hdue
    obtain ⟨c₁, hc₁⟩ := ih (c := (c.handed now).report revents) ha₁
      (by rw [hlen, ha.length, ha₁.length, hrep.outstanding]) hnot hdue₁
    exact ⟨c₁, .cons (.nothing hlen hscan hdue₁) hc₁⟩

/-- **A reported condition is dispatched** in the iteration that gets it if and only if a requested
event or an error is reported for some operation: of what `poll` can report, if and only if
something other than `POLLHUP` and `POLLNVAL` is. Otherwise, while no timer is due, the loop goes
round as often as the same is reported. -/
theorem reported_is_dispatched_iff (os : Os) (m : Machine PollContext Empty)
    (h : Runs pollBase free (initial os) m) (now : Time) (hw : Waits m.ctx now)
    (before : List PollAnswer) (c₁ : PollContext) (hr : Rounds now m.ctx before c₁)
    (revents : List (BitVec 16)) (later : Time) (sys : List SysAnswer)
    (hlen : revents.length = m.ctx.poll.length) :
    (UsedUp m.ctx now before c₁ revents later sys ↔ SomeRequested m.ctx revents) ∧
    (Reportable m.ctx revents →
      (UsedUp m.ctx now before c₁ revents later sys ↔
        ∃ r ∈ revents, r &&& ~~~(POLLHUP ||| POLLNVAL) ≠ 0)) ∧
    (¬ SomeRequested m.ctx revents → m.ctx.processTimeout later = none →
      ∀ k, ∃ c₂, Rounds now c₁ (List.replicate k (.ok revents later sys)) c₂) := by
  have hI := pollInv_of_runs h
  have ha₁ : Aligned c₁ := hr.waited.matches hI.aligned
  have hiff : UsedUp m.ctx now before c₁ revents later sys ↔ SomeRequested m.ctx revents :=
    ⟨someRequested_of_usedUp hI.aligned hw hr hlen, usedUp_of_someRequested hI.aligned hw hr hlen⟩
  refine ⟨hiff, fun hrep => hiff.trans (someRequested_iff_of_reportable ?_ hrep),
    fun hnot hdue => rounds_of_not_requested ha₁ ?_ ?_ ?_⟩
  · rw [hlen, hI.aligned.length]
  · rw [hlen, hI.aligned.length, ha₁.length, hr.waited.outstanding]
  · exact fun hsome => hnot (hr.waited.someRequested.1 hsome)
  · rw [processTimeout, Option.map_eq_none_iff] at hdue ⊢
    rwa [hr.waited.timeouts]

/-- A `send` waits for its descriptor. -/
def pendingSend : List (Label Answers Unit PollCall) :=
  [.call (.makeSocket (.ok 3 [])), .start ⟨1, .send 0 [8]⟩ {} false ()]

theorem pendingSend_runs :
    ∃ m : Machine PollContext Empty, Runs pollBase free (initial {}) m ∧ Waits m.ctx 0 ∧
      m.ctx.poll = [⟨3, POLLOUT, 0⟩] ∧ m.ctx.outstanding = [⟨1, .send 0 [8]⟩] := by
  obtain ⟨m, hrun, hm⟩ := runs_of_labels pollBase (initial {}) any any_free pendingSend
    (fun m => (m.ctx.poll, m.ctx.outstanding, m.ctx.timeouts, m.ctx.tasks.head))
    ([⟨3, POLLOUT, 0⟩], [⟨1, .send 0 [8]⟩], [], none) (by decide)
  obtain ⟨hpoll, hout, htimeouts, htasks⟩ : _ ∧ _ ∧ _ ∧ _ := by
    simpa only [Prod.mk.injEq] using hm
  refine ⟨m, hrun, ⟨?_, ?_, by simp [hpoll]⟩, hpoll, hout⟩
  · rw [processTimeout, htimeouts]; rfl
  · rw [processTask, TaskList.pop?, htasks]; rfl

theorem not_someRequested_hangup (hout : c.outstanding = [⟨1, .send 0 [8]⟩]) :
    ¬ SomeRequested c [POLLHUP] := by
  rintro ⟨i, r, io, hr, hio, hne⟩
  rw [hout] at hio
  cases i with
  | zero => cases hr; cases hio; exact hne (by decide)
  | succ i => cases hr

theorem reported_is_dispatched_iff_pendingSend :
    ∃ m : Machine PollContext Empty, Runs pollBase free (initial {}) m ∧
      UsedUp m.ctx 0 [] m.ctx [POLLOUT] 0 [.ok 8 []] ∧
      ¬ UsedUp m.ctx 0 [] m.ctx [POLLHUP] 0 [.ok 8 []] := by
  obtain ⟨m, hrun, hw, hpoll, hout⟩ := pendingSend_runs
  have hlen : ∀ r : BitVec 16, [r].length = m.ctx.poll.length := fun r => by rw [hpoll]; rfl
  refine ⟨m, hrun, ?_, fun hused => not_someRequested_hangup hout ?_⟩
  · exact (reported_is_dispatched_iff {} m hrun 0 hw [] m.ctx (.nil _) [POLLOUT] 0 _ (hlen _)).1.2
      ⟨0, POLLOUT, _, rfl, by rw [hout]; rfl, by decide⟩
  · exact (reported_is_dispatched_iff {} m hrun 0 hw [] m.ctx (.nil _) [POLLHUP] 0 _ (hlen _)).1.1
      hused

/-- The peer of a `send` hangs up: that is not requested, so it is reported for ever. -/
theorem hangup_is_not_dispatched :
    ¬ ∀ (os : Os) (m : Machine PollContext Empty), Runs pollBase free (initial os) m →
      ∀ now, Waits m.ctx now → ∀ before c₁, Rounds now m.ctx before c₁ →
      ∀ revents later sys, revents.length = m.ctx.poll.length → Reportable m.ctx revents →
        (∃ r ∈ revents, r ≠ 0) → UsedUp m.ctx now before c₁ revents later sys := by
  intro h
  obtain ⟨m, hrun, hw, hpoll, hout⟩ := pendingSend_runs
  have hI := pollInv_of_runs hrun
  have hlen : [POLLHUP].length = m.ctx.poll.length := by rw [hpoll]; rfl
  have hrep : Reportable m.ctx [POLLHUP] := by
    intro i r io hr hio
    rw [hout] at hio
    cases i with
    | zero => cases hr; cases hio; decide
    | succ i => cases hr
  have hused := h {} m hrun 0 hw [] m.ctx (.nil _) [POLLHUP] 0 [] hlen hrep
    ⟨POLLHUP, List.mem_singleton.2 rfl, by decide⟩
  exact not_someRequested_hangup hout
    (someRequested_of_usedUp hI.aligned hw (.nil _) hlen hused)

end PollContext

end Net29
