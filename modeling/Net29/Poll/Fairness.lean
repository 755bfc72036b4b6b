import Net29.Poll.Steps
import Net29.Poll.Pending

/-!
# Whom `poll_context` serves first

`run_one` looks at what `poll` reported from the back and serves one operation, and the last one
moves into its place.

* `served`: the operations that a call of `run_one` takes out of the queue;
* `Ready`: an operation is reported whenever `poll` answers;
* `Serving`, `Requeued`: what a call of `run_one`, and a step, does to the queue;
* `Dispatched`: a call of `run_one`, what it takes out and what it calls;
* `served_from_back`: what is queued behind such an operation goes first, what is before it waits;
* `can_starve`: it is never served while others are started again and again.
-/

namespace Net29

open SwapRemove Machine Transition

/-- The operation whose work function is called. -/
def Dispatch.work? : Dispatch → Option OpId
  | .work o => some o
  | .task _ | .timer _ => none

namespace PollContext

variable {c c' : PollContext} {io io' : IoBase} {i k n : ℕ} {now : Time}
  {answers : List PollAnswer} {fs : List (Frame Empty)} {m m' : Machine PollContext Empty}
  {l : Label Answers Unit PollCall} {ls : List (Label Answers Unit PollCall)} {os : Os}

/-- If `poll` succeeds, it reports for the entry `k` what `io` waits for, or an error. -/
def Requested (k : ℕ) (io : IoBase) : PollAnswer → Prop
  | .ok revents _ _ => ∃ r, revents[k]? = some r ∧ r &&& (eventMask io.op.events ||| POLLERR) ≠ 0
  | .err _ => True

/-- The operations that are in the queue of the first context, and not in that of the second. -/
def takenOff (c c' : PollContext) : List OpId :=
  (c.outstanding.map IoBase.self).diff (c'.outstanding.map IoBase.self)

/-- The operations a call of `run_one` serves: those it takes out of the queue. -/
def served (c : PollContext) (now : Time) (answers : List PollAnswer) : List OpId :=
  match c.runOne now answers with
  | .ok (c', _, _) => takenOff c c'
  | .error _ => []

/-! ### What is taken out -/

theorem takenOff_of_eq (h : c'.outstanding = c.outstanding) : takenOff c c' = [] := by
  rw [takenOff, h]
  refine List.eq_nil_iff_forall_not_mem.2 fun o ho => ?_
  -- `diff` takes away each operation as often as it is there
  have hcount := List.count_pos_iff.2 ho
  rw [List.count_diff, Nat.sub_self] at hcount
  exact Nat.lt_irrefl 0 hcount

theorem takenOff_of_perm (h : c.outstanding.Perm (io :: c'.outstanding)) :
    takenOff c c' = [io.self] := by
  refine List.perm_singleton.1 (List.perm_iff_count.2 fun o => ?_)
  rw [takenOff, List.count_diff, (h.map IoBase.self).count_eq, List.map_cons, List.count_cons,
    List.count_singleton]
  omega

theorem served_of_runOne (h : c.runOne now answers = .ok (c', fs, n)) :
    c.served now answers = takenOff c c' := by
  rw [served, h]

/-- `run_one` calls the work functions of the operations it takes out of the queue. -/
theorem works_of_takenOut {ds : List Dispatch} (ha : Aligned c) (ha' : Aligned c')
    (h : TakenOut c now answers c' fs ds) : ds.filterMap Dispatch.work? = takenOff c c' := by
  have hqueue : ∀ {c : PollContext}, Aligned c → c.pairs.map Prod.snd = c.outstanding := by
    intro c ha
    refine List.map_snd_zip ?_
    rw [entries, List.length_map, ha.length]
  have hsame : c'.pairs = c.pairs → takenOff c c' = [] := by
    intro hpairs
    refine takenOff_of_eq ?_
    rw [← hqueue ha, ← hqueue ha', hpairs]
  cases h with
  | work _ _ _ _ _ _ _ hpairs =>
    have hperm := hpairs.map Prod.snd
    rw [hqueue ha, List.map_cons, hqueue ha'] at hperm
    exact (takenOff_of_perm hperm).symm
  | timer _ _ hpairs => exact (hsame hpairs).symm
  | task hpairs => exact (hsame hpairs).symm
  | nothing hpairs => exact (hsame hpairs).symm

/-! ### One call of `run_one` -/

/-- Nothing behind the entry found was reported. -/
theorem scan_last {j : ℕ} {p : Pollfd} (h : c.scan n = some i) (hij : i < j) (hj : j < n)
    (hp : c.poll[j]? = some p) : p.reported = false := by
  induction n with
  | zero => cases h
  | succ n ih =>
    rw [scan] at h
    rcases Nat.lt_succ_iff_lt_or_eq.1 hj with hlt | rfl
    · split at h
      · split_ifs at h
        · cases h
          omega
        · exact ih h hlt
      · exact ih h hlt
    · rw [hp] at h
      dsimp only at h
      split_ifs at h with hr
      · cases h
        omega
      · simpa using hr

/-- What a call of `run_one` means for the operations in the queue. -/
inductive Serving (c : PollContext) (now : Time) (answers : List PollAnswer) (c' : PollContext) :
    Prop
  /-- none is served: a timer was due, there was a task, `poll` failed, or nothing is reported -/
  | none (hout : c'.outstanding = c.outstanding)
      (hwhy : ∀ (k : ℕ) (io : IoBase), c.outstanding[k]? = some io →
        (∀ a ∈ answers, Requested k io a) → c.processTimeout now = none → c.processTask = none →
          ∃ e, .err e ∈ answers ∧ e ≠ Errno.EINTR ∧ e ≠ Errno.EAGAIN)
  /-- one is served: the last of those reported -/
  | one {i : ℕ} {io : IoBase} (hio : c.outstanding[i]? = some io)
      (hout : c'.outstanding = swapRemove c.outstanding i)
      (hlast : ∀ (k : ℕ) (io' : IoBase), c.outstanding[k]? = some io' →
        (∀ a ∈ answers, Requested k io' a) → k ≤ i)

/-- An operation that is waited for is reported by an answer that requests it. -/
theorem reported_of_requested {c₁ : PollContext} {revents : List (BitVec 16)} {later : Time}
    {sys : List SysAnswer} (ha : Aligned c₁) (hlen : revents.length = c₁.poll.length)
    (hio : c₁.outstanding[k]? = some io) (h : Requested k io (.ok revents later sys)) :
    ∃ p, (c₁.report revents).poll[k]? = some p ∧ p.reported = true := by
  obtain ⟨r, hr, hne⟩ := h
  have hlt : k < c₁.poll.length := by
    rw [← hlen]
    exact (List.getElem?_eq_some_iff.1 hr).1
  have hp := List.getElem?_eq_getElem hlt
  refine ⟨_, report_get.2 ⟨_, r, hp, hr, rfl⟩, ?_⟩
  rw [← ha.get hp hio] at hne
  simpa [Pollfd.reported] using hne

/-- An operation that is reported is at or before the entry found. -/
theorem le_of_requested {before : List PollAnswer} {revents : List (BitVec 16)} {later : Time}
    {sys : List SysAnswer} {c₁ : PollContext} (ha : Aligned c) (hr : Rounds now c before c₁)
    (hlen : revents.length = c₁.poll.length) (hio : c.outstanding[k]? = some io)
    (hreq : Requested k io (.ok revents later sys)) :
    ∃ i, k ≤ i ∧ ((c₁.handed now).report revents).scan
      ((c₁.handed now).report revents).poll.length = some i := by
  have hw := hr.waited.trans (waited_handed c₁ now)
  obtain ⟨p, hp, hrep⟩ := reported_of_requested (hw.matches ha) hlen (hw.outstanding ▸ hio) hreq
  have hk := (List.getElem?_eq_some_iff.1 hp).1
  cases hscan : ((c₁.handed now).report revents).scan
      ((c₁.handed now).report revents).poll.length with
  | none =>
    rw [scan_eq_none.1 hscan k hk p hp] at hrep
    cases hrep
  | some i =>
    refine ⟨i, Nat.not_lt.1 fun hlt => ?_, rfl⟩
    rw [scan_last hscan hlt hk hp] at hrep
    cases hrep

theorem serving_of_runOne (ha : Aligned c) (h : c.runOne now answers = .ok (c', fs, n)) :
    Serving c now answers c' := by
  cases runOne_exits h with
  | @timer reading _ _ hdue =>
    cases hdue with
    | atOnce hdue =>
      obtain ⟨io, timeouts, -, -, rfl, -⟩ := processTimeout_eq_some hdue
      refine .none rfl fun _ _ _ _ hnone => ?_
      rw [hdue] at hnone
      cases hnone
    | @later before after revents _ sys c₁ _ _ hanswers hr hlen hscan hdue =>
      have hw := hr.waited.trans (waited_handed c₁ now)
      obtain ⟨io, timeouts, -, -, rfl, -⟩ := processTimeout_eq_some hdue
      refine .none hw.outstanding fun k io hio hreq _ _ => ?_
      have hmem : .ok revents reading sys ∈ answers := by simp [hanswers]
      obtain ⟨i, -, hsome⟩ := le_of_requested ha hr hlen hio (hreq _ hmem)
      rw [hscan] at hsome
      cases hsome
  | task htask =>
    obtain ⟨t, tasks, -, rfl, -⟩ := processTask_eq_some htask
    refine .none rfl fun _ _ _ _ _ hnone => ?_
    rw [htask] at hnone
    cases hnone
  | empty _ hpoll =>
    refine .none rfl fun k io hio => ?_
    have hlen := ha.length
    rw [hpoll] at hlen
    rw [List.eq_nil_of_length_eq_zero hlen.symm] at hio
    cases hio
  | @failed before after e c₁ _ hanswers hr he =>
    have hw := hr.waited.trans (waited_handed c₁ now)
    refine .none hw.outstanding fun _ _ _ _ _ _ => ?_
    exact ⟨e, by simp [hanswers], fun h => he (.inl h), fun h => he (.inr h)⟩
  | @entry before after revents later sys c₁ _ i io r _ _ _ hanswers hr hlen hscan hio hwork =>
    have hw := (hr.waited.trans (waited_handed c₁ now)).trans
      (waited_report (c := c₁.handed now) hlen)
    refine .one (hr.waited.outstanding ▸ hio) ?_ fun k io' hio' hreq => ?_
    · rw [(work_spec hwork).1.worked.outstanding,
        outstanding_removeOutstanding (hw.matches ha).length, hw.outstanding]
    · have hmem : .ok revents later sys ∈ answers := by simp [hanswers]
      obtain ⟨i', hle, hsome⟩ := le_of_requested ha hr hlen hio' (hreq _ hmem)
      rw [hscan] at hsome
      cases hsome
      exact hle

/-- What one that is served is taken out of. -/
theorem served_of_swapRemove (hio : c.outstanding[i]? = some io)
    (hout : c'.outstanding = swapRemove c.outstanding i) : takenOff c c' = [io.self] := by
  obtain ⟨hi, hget⟩ := List.getElem?_eq_some_iff.1 hio
  refine takenOff_of_perm ?_
  rw [hout, ← hget]
  exact perm_cons_swapRemove c.outstanding hi

/-! ### Steps -/

/-- The operations a step serves. -/
def servedBy (m : Machine PollContext Empty) : Label Answers Unit PollCall → List OpId
  | .call (.runOne now answers) => m.ctx.served now answers
  | _ => []

/-- What a submission puts into the queue, by how it returns. -/
def queuedAs (io : IoBase) : Exec Result → List OpId
  | .ok (_, _, .submit) => if io.op.onSocket then [io.self] else []
  | _ => []

/-- The operations a step puts into the queue. -/
def queuedBy (m : Machine PollContext Empty) : Label Answers Unit PollCall → List OpId
  | .start io req false _ => queuedAs io (m.ctx.submit io req)
  | _ => []

/-- `io`, whose entry is `k`, is ready whenever `poll` answers, and nothing is cancelled. -/
def Ready (k : ℕ) (io : IoBase) : Label Answers Unit PollCall → Prop
  | .call (.runOne _ answers) => ∀ a ∈ answers, Requested k io a
  | .stop _ _ => False
  | _ => True

/-- What a step does to the operations in the queue. -/
inductive Requeued (m : Machine PollContext Empty) (l : Label Answers Unit PollCall)
    (m' : Machine PollContext Empty) : Prop
  | same (hout : m'.ctx.outstanding = m.ctx.outstanding) (hserved : servedBy m l = [])
      (hqueued : queuedBy m l = [])
  | queued {io : IoBase} (hout : m'.ctx.outstanding = m.ctx.outstanding ++ [io])
      (hserved : servedBy m l = []) (hqueued : queuedBy m l = [io.self])
  | served {i : ℕ} {io : IoBase} (hio : m.ctx.outstanding[i]? = some io)
      (hout : m'.ctx.outstanding = swapRemove m.ctx.outstanding i)
      (hserved : servedBy m l = [io.self]) (hqueued : queuedBy m l = [])
      (hlast : ∀ (k : ℕ) (io' : IoBase), m.ctx.outstanding[k]? = some io' → Ready k io' l → k ≤ i)

/-- A submission that does not ask for the operation to be queued. -/
theorem not_queued_of_submit {req : Answers} {r : SubmitResult} (hb : AllBlocking c)
    (h : c.submit io req = .ok (c', fs, r)) (hr : r ≠ .submit) :
    c'.outstanding = c.outstanding ∧ queuedAs io (c.submit io req) = [] := by
  constructor
  · cases submit_cases hb h with
    | timer => exact absurd rfl hr
    | queued => exact absurd rfl hr
    | due => rfl
    | connected _ _ hacts => exact (worked_record.trans hacts.worked).outstanding
    | failed _ _ hacts => exact (worked_record.trans hacts.worked).outstanding
  · rw [h]
    cases r with
    | submit => exact absurd rfl hr
    | ready => rfl
    | error => rfl

theorem queued_of_submit {req : Answers} (hb : AllBlocking c)
    (h : c.submit io req = .ok (c', fs, .submit)) :
    c'.outstanding = c.outstanding ∧ queuedAs io (c.submit io req) = [] ∨
      c'.outstanding = c.outstanding ++ [io] ∧ queuedAs io (c.submit io req) = [io.self] := by
  rw [h, queuedAs]
  cases hsocket : io.op.onSocket with
  | false =>
    obtain ⟨time, hop⟩ : ∃ time, io.op = .resumeAt time := by
      cases hop : io.op with
      | resumeAt time => exact ⟨time, rfl⟩
      | _ => rw [hop] at hsocket; cases hsocket
    exact .inl ⟨(submit_timer hop h).1, rfl⟩
  | true =>
    cases submit_cases hb h with
    | timer hop => rw [hop] at hsocket; cases hsocket
    | queued _ hacts =>
      exact .inr ⟨congrArg (· ++ [io]) (worked_record.trans hacts.worked).outstanding, rfl⟩

theorem requeued_of_start {req : Answers} {stopped : Bool} {a : Unit} (hI : StepInv m)
    (hstep : m.step pollBase (.start io req stopped a) = some m') (hstatus : m'.status = none) :
    Requeued m (.start io req stopped a) m' := by
  have hb : AllBlocking m.ctx := hI.inv.blocking
  cases pollStep_of_start hI (step_start hstep).1 (step_start hstep).2 with
  | ended _ h => rw [hstatus] at h; cases h
  | inline _ hsub =>
    obtain ⟨hout, hqueued⟩ := not_queued_of_submit hb hsub nofun
    exact .same hout rfl hqueued
  | failed _ hsub =>
    obtain ⟨hout, hqueued⟩ := not_queued_of_submit hb hsub nofun
    exact .same hout rfl hqueued
  | queued _ hsub =>
    rcases queued_of_submit hb hsub with ⟨hout, hqueued⟩ | ⟨hout, hqueued⟩
    · exact .same hout rfl hqueued
    · exact .queued hout rfl hqueued

theorem requeued_of_call {k : PollCall} (hI : StepInv m)
    (hstep : m.step pollBase (.call k) = some m') (hstatus : m'.status = none) :
    Requeued m (.call k) m' := by
  rcases perform_eq_some (step_call hstep) with ⟨c, fs, hcall, rfl⟩ | ⟨e, -, rfl⟩
  · have hctx : (({ m with ctx := c } : Machine PollContext Empty).runFrames pollBase fs).ctx = c :=
      runFrames_ctx fs
    cases k with
    | runOne now answers =>
      obtain ⟨⟨c₁, fs₁, n⟩, hrun, heq⟩ := Exec.map_eq_ok.1 hcall
      cases heq
      have hserved := served_of_runOne hrun
      cases serving_of_runOne hI.inv.aligned hrun with
      | none hout =>
        exact .same (by rw [hctx]; exact hout) (hserved.trans (takenOff_of_eq hout)) rfl
      | one hio hout hlast =>
        exact .served hio (by rw [hctx]; exact hout) (hserved.trans (served_of_swapRemove hio hout))
          rfl hlast
    | schedule t =>
      cases hcall
      exact .same (by rw [hctx]; rfl) rfl rfl
    | _ =>
      cases call_cases hcall with
      | socket hw => exact .same (by rw [hctx]; exact hw.outstanding) rfl rfl
  · cases hstatus

theorem requeued_of_step (hI : StepInv m) (hz : ∀ o, (m.ops o).upstream = {})
    (hready : Ready k io l) (hstep : m.step pollBase l = some m') (hstatus : m'.status = none) :
    Requeued m l m' := by
  cases l with
  | start io req stopped a => exact requeued_of_start hI hstep hstatus
  | stop o a => exact hready.elim
  | call k => exact requeued_of_call hI hstep hstatus
  | ret =>
    obtain ⟨fs, rest, -, rfl⟩ := step_ret hstep
    exact .same (by rw [runFrames_ctx]) rfl rfl
  | upstream io u req stopped a =>
    have hpos := (step_upstream hstep).1
    rw [hz] at hpos
    cases hpos

/-! ### Runs -/

/-- The operations behind the entry `k`. -/
def behind (k : ℕ) (c : PollContext) : List OpId := (c.outstanding.drop (k + 1)).map IoBase.self

/-- What happened to the queue behind an operation that waits at `k`: what is before it, and itself,
is where it was; those that were behind it or queued since were served, or are behind it. -/
structure Overtaken (k : ℕ) (c c' : PollContext) (served queued : List OpId) : Prop where
  before : c'.outstanding.take (k + 1) = c.outstanding.take (k + 1)
  behind : (behind k c' ++ served).Perm (behind k c ++ queued)

/-- One step of those before. -/
theorem Requeued.overtaken (h : Requeued m l m') (hio : m.ctx.outstanding[k]? = some io)
    (hready : Ready k io l) (hwaits : io.self ∉ servedBy m l) :
    Overtaken k m.ctx m'.ctx (servedBy m l) (queuedBy m l) := by
  cases h with
  | same hout hserved hqueued =>
    rw [hserved, hqueued]
    exact ⟨by rw [hout], by rw [PollContext.behind, hout]; exact .refl _⟩
  | @queued io' hout hserved hqueued =>
    have hlt : k + 1 ≤ m.ctx.outstanding.length := (List.getElem?_eq_some_iff.1 hio).1
    rw [hserved, hqueued]
    refine ⟨by rw [hout, List.take_append_of_le_length hlt], ?_⟩
    rw [PollContext.behind, hout, List.drop_append_of_le_length hlt, List.map_append,
      List.append_nil]
    exact .refl _
  | @served i io' hio' hout hserved hqueued hlast =>
    have hne : i ≠ k := by
      rintro rfl
      cases hio.symm.trans hio'
      exact hwaits (hserved ▸ List.mem_cons_self)
    have hk : k + 1 ≤ i := Nat.lt_of_le_of_ne (hlast k io hio hready) hne.symm
    obtain ⟨hi, hget⟩ := List.getElem?_eq_some_iff.1 hio'
    rw [hserved, hqueued]
    refine ⟨by rw [hout, take_swapRemove hk hi], ?_⟩
    have hperm := (perm_drop_swapRemove hk hi).map IoBase.self
    rw [hget, List.map_cons] at hperm
    rw [PollContext.behind, hout, List.append_nil]
    exact (List.perm_append_singleton _ _).trans hperm.symm

theorem Overtaken.trans {c₁ : PollContext} {served served' queued queued' : List OpId}
    (h : Overtaken k c c₁ served queued) (h' : Overtaken k c₁ c' served' queued') :
    Overtaken k c c' (served ++ served') (queued ++ queued') where
  before := h'.before.trans h.before
  behind := by
    have hfirst := List.perm_append_comm_assoc (PollContext.behind k c') served served'
    refine hfirst.trans ((h'.behind.append_left served).trans ?_)
    rw [← List.append_assoc, ← List.append_assoc]
    exact (List.perm_append_comm.trans h.behind).append_right queued'

/-- Induction on the run, while `io` waits. -/
theorem overtaken_of_run (hm : Runs pollBase free (initial os) m)
    (hrun : run (Machine.step pollBase) m ls = some m') (hstatus : m'.status = none)
    (hio : m.ctx.outstanding[k]? = some io) (hready : ∀ l ∈ ls, Ready k io l)
    (hwaits : io.self ∉ outputs (Machine.step pollBase) servedBy m ls) :
    Overtaken k m.ctx m'.ctx (outputs (Machine.step pollBase) servedBy m ls)
      (outputs (Machine.step pollBase) queuedBy m ls) := by
  induction ls generalizing m with
  | nil =>
    cases hrun
    exact ⟨rfl, .refl _⟩
  | cons l ls ih =>
    obtain ⟨t, hstep, hrun⟩ := Option.bind_eq_some_iff.1 hrun
    have hrunning : t.status = none := by
      cases ls with
      | nil => cases hrun; exact hstatus
      | cons l' ls =>
        obtain ⟨u, hu, -⟩ := Option.bind_eq_some_iff.1 hrun
        exact status_of_step hu
    rw [outputs_cons_of_step hstep] at hwaits ⊢
    rw [outputs_cons_of_step hstep]
    obtain ⟨hl, hls⟩ := List.forall_mem_cons.1 hready
    have hone := (requeued_of_step (stepInv_of_runs hm (status_of_step hstep))
      (Runs.never_started hm) hl hstep hrunning).overtaken hio hl
        fun h => hwaits (List.mem_append_left _ h)
    refine hone.trans (ih (hm.tail trivial hstep) hrun ?_ hls fun h =>
      hwaits (List.mem_append_right _ h))
    rw [← hio, ← List.getElem?_take_of_lt (Nat.lt_succ_self k), hone.before,
      List.getElem?_take_of_lt (Nat.lt_succ_self k)]

/-- A call of `run_one` that returned: what it dispatched, what it took out of the queues for that,
and what it called. -/
structure Dispatched (m : Machine PollContext Empty) (now : Time) (answers : List PollAnswer)
    (ds : List Dispatch) (m' : Machine PollContext Empty) : Prop where
  called : ∃ c fs, m.ctx.runOne now answers = .ok (c, fs, ds.length) ∧
    m' = ({ m with ctx := c } : Machine PollContext Empty).runFrames pollBase fs ∧
    TakenOut m.ctx now answers c fs ds
  served : m.ctx.served now answers = ds.filterMap Dispatch.work?

theorem exists_dispatched (hI : StepInv m)
    (hstep : m.step pollBase (.call (.runOne now answers)) = some m') (hstatus : m'.status = none) :
    ∃ ds, Dispatched m now answers ds m' := by
  rcases perform_eq_some (step_call hstep) with ⟨c, fs, hcall, rfl⟩ | ⟨e, -, rfl⟩
  · obtain ⟨⟨c₁, fs₁, n⟩, hrun, heq⟩ := Exec.map_eq_ok.1 hcall
    cases heq
    obtain ⟨ds, htaken, rfl⟩ := takenOut hI.inv hrun
    refine ⟨ds, ⟨_, _, hrun, rfl, htaken⟩, ?_⟩
    rw [served_of_runOne hrun]
    exact (works_of_takenOut hI.inv.aligned (runOne_spec hI.inv hrun).1.aligned htaken).symm
  · cases hstatus

/-- A call that serves an operation dispatches its work function and nothing else. -/
theorem Dispatched.eq_work {ds : List Dispatch} {o : OpId} (h : Dispatched m now answers ds m')
    (hserved : m.ctx.served now answers = [o]) : ds = [.work o] := by
  obtain ⟨c, fs, -, -, htaken⟩ := h.called
  have hworks := h.served.symm.trans hserved
  cases htaken with
  | work =>
    cases hworks
    rfl
  | _ => cases hworks

/-- A call of `run_one` that polls serves one, while one of those in the queue is ready. -/
theorem served_of_polls {ds : List Dispatch} (ha : Aligned m.ctx)
    (hio : m.ctx.outstanding[k]? = some io) (h : Dispatched m now answers ds m')
    (hready : Ready k io (.call (.runOne now answers)))
    (htimer : m.ctx.processTimeout now = none) (htask : m.ctx.processTask = none)
    (hpoll : ∀ e, .err e ∈ answers → e = Errno.EINTR ∨ e = Errno.EAGAIN) :
    ∃ o ∈ io.self :: behind k m.ctx, ds = [.work o] := by
  obtain ⟨c, fs, hrun, -, -⟩ := h.called
  cases serving_of_runOne ha hrun with
  | none _ hwhy =>
    obtain ⟨e, he, hint, hagain⟩ := hwhy k io hio hready htimer htask
    exact absurd (hpoll e he) (not_or.2 ⟨hint, hagain⟩)
  | @one i io' hio' hout hlast =>
    have hserved := (served_of_runOne hrun).trans (served_of_swapRemove hio' hout)
    refine ⟨io'.self, ?_, h.eq_work hserved⟩
    obtain ⟨hlt, hget⟩ := List.getElem?_eq_some_iff.1 hio
    have hdrop : m.ctx.outstanding.drop k = io :: m.ctx.outstanding.drop (k + 1) := by
      rw [List.drop_eq_getElem_cons hlt, hget]
    have hmem : io' ∈ m.ctx.outstanding.drop k := by
      refine List.mem_of_getElem? (i := i - k) ?_
      rw [List.getElem?_drop, Nat.add_sub_cancel' (hlast k io hio hready), hio']
    rw [behind, ← List.map_cons, ← hdrop]
    exact List.mem_map_of_mem hmem

/-! ### Two receives -/

/-- A receive that is ready all the time. -/
def neglected : IoBase := ⟨1, .receive 0 [8]⟩

/-- The receives on another socket, each one started when the one before it has completed. -/
def repeated (j : ℕ) : IoBase := ⟨j + 2, .receive 1 [8]⟩

/-- Both sockets are reported, and there is a byte to read. -/
def bothReady : List PollAnswer := [.ok [POLLIN, POLLIN] 0 [.ok 1 []]]

/-- Two sockets with a receive on each. -/
def bothReceives : List (Label Answers Unit PollCall) :=
  [.call (.makeSocket (.ok 3 [])), .call (.makeSocket (.ok 4 [])),
    .start neglected {} false (), .start (repeated 0) {} false ()]

/-- The later receive completes, and its receiver starts the next one before it returns. -/
def round (j : ℕ) : List (Label Answers Unit PollCall) :=
  [.call (.runOne 0 bothReady), .start (repeated (j + 1)) {} false (), .ret]

theorem ready_of_mem_round {j : ℕ} (hl : l ∈ round j) : Ready 0 neglected l := by
  simp only [round, List.mem_cons, List.not_mem_nil, or_false] at hl
  rcases hl with rfl | rfl | rfl
  · intro a ha
    cases List.mem_singleton.1 ha
    exact ⟨POLLIN, rfl, by decide⟩
  all_goals trivial

/-! ### The order of service -/

/-- **The queue is served from the back**, in every run in which `io`, at `k`, is reported whenever
`poll` answers and nothing is cancelled. As long as it is not served, it and what is before it stay
where they are, and those served are among the ones that were behind it and the ones queued since,
each as often as it was there. The operations that a call of `run_one` serves are those whose work
functions it calls; and if it comes to polling, and `poll` does not fail, it calls the work function
of `io` or of one behind it. -/
theorem served_from_back (hm : Runs pollBase free (initial os) m)
    (hrun : run (Machine.step pollBase) m ls = some m') (hstatus : m'.status = none)
    (hio : m.ctx.outstanding[k]? = some io) (hready : ∀ l ∈ ls, Ready k io l)
    (hwaits : io.self ∉ outputs (Machine.step pollBase) servedBy m ls) :
    Overtaken k m.ctx m'.ctx (outputs (Machine.step pollBase) servedBy m ls)
      (outputs (Machine.step pollBase) queuedBy m ls) ∧
    (outputs (Machine.step pollBase) servedBy m ls).length ≤
      (behind k m.ctx).length + (outputs (Machine.step pollBase) queuedBy m ls).length ∧
    ∀ now answers m'', m'.step pollBase (.call (.runOne now answers)) = some m'' →
      m''.status = none → ∃ ds, Dispatched m' now answers ds m'' ∧
        (Ready k io (.call (.runOne now answers)) → m'.ctx.processTimeout now = none →
          m'.ctx.processTask = none →
          (∀ e, .err e ∈ answers → e = Errno.EINTR ∨ e = Errno.EAGAIN) →
            ∃ o ∈ io.self :: behind k m'.ctx, ds = [.work o]) := by
  have hover := overtaken_of_run hm hrun hstatus hio hready hwaits
  refine ⟨hover, ?_, fun now answers m'' hstep hreturns => ?_⟩
  · have hlen := hover.behind.length_eq
    rw [List.length_append, List.length_append] at hlen
    omega
  · have hI := stepInv_of_runs (hm.trans (reaches_free_of_run hrun)) hstatus
    have hio' : m'.ctx.outstanding[k]? = some io := by
      rw [← hio, ← List.getElem?_take_of_lt (Nat.lt_succ_self k), hover.before,
        List.getElem?_take_of_lt (Nat.lt_succ_self k)]
    obtain ⟨ds, hdispatched⟩ := exists_dispatched hI hstep hreturns
    exact ⟨ds, hdispatched, served_of_polls hI.inv.aligned hio' hdispatched⟩

theorem served_from_back_oneRound : ∃ m m' m'',
    run (Machine.step pollBase) { ctx := initial {} } bothReceives = some m ∧
    run (Machine.step pollBase) m (round 0) = some m' ∧
    Overtaken 0 m.ctx m'.ctx [(repeated 0).self] [(repeated 1).self] ∧
    m'.step pollBase (.call (.runOne 0 bothReady)) = some m'' ∧
    ∃ o ∈ [neglected.self, (repeated 1).self], Dispatched m' 0 bothReady [.work o] m'' := by
  obtain ⟨m, hsetup, m', hround, hstatus, hio, hserved, hqueued, hbehind, htimer, htask, m'', hstep,
      hreturns⟩ : ∃ m,
      run (Machine.step pollBase) { ctx := initial {} } bothReceives = some m ∧ ∃ m',
      run (Machine.step pollBase) m (round 0) = some m' ∧ m'.status = none ∧
      m.ctx.outstanding[0]? = some neglected ∧
      outputs (Machine.step pollBase) servedBy m (round 0) = [(repeated 0).self] ∧
      outputs (Machine.step pollBase) queuedBy m (round 0) = [(repeated 1).self] ∧
      behind 0 m'.ctx = [(repeated 1).self] ∧ m'.ctx.processTimeout 0 = none ∧
      m'.ctx.processTask = none ∧ ∃ m'',
      m'.step pollBase (.call (.runOne 0 bothReady)) = some m'' ∧ m''.status = none :=
    ⟨_, rfl, _, rfl, rfl, rfl, rfl, rfl, rfl, rfl, rfl, _, rfl, rfl⟩
  obtain ⟨hover, -, hcalls⟩ := served_from_back (reaches_free_of_run hsetup) hround hstatus hio
    (fun l hl => ready_of_mem_round hl) (by rw [hserved]; decide)
  obtain ⟨ds, hdispatched, hone⟩ := hcalls 0 bothReady m'' hstep hreturns
  obtain ⟨o, ho, rfl⟩ := hone (ready_of_mem_round (j := 0) List.mem_cons_self) htimer htask
    fun e he => by cases List.mem_singleton.1 he
  rw [hbehind] at ho
  rw [hserved, hqueued] at hover
  exact ⟨m, m', m'', hsetup, hround, hover, hstep, o, ho, hdispatched⟩

/-! ### Starvation -/

/-- The first rounds from the `j`-th. -/
def rounds (j : ℕ) : ℕ → List (Label Answers Unit PollCall)
  | 0 => []
  | n + 1 => round j ++ rounds (j + 1) n

/-- The context while only one of the two waits. -/
def onlyNeglected (env : Env) (polls : List ℤ) : PollContext where
  sockets := { records := [.used ⟨3, true⟩, .used ⟨4, true⟩], free := 2 }
  poll := [⟨3, POLLIN, POLLIN⟩]
  outstanding := [neglected]
  env := env
  polls := polls

/-- The context before a round; `r` was reported for the first entry. -/
def looping (env : Env) (polls : List ℤ) (r : BitVec 16) (j : ℕ) : PollContext :=
  { onlyNeglected env polls with
    poll := [⟨3, POLLIN, r⟩, ⟨4, POLLIN, 0⟩]
    outstanding := [neglected, repeated j] }

/-- The state before a round. -/
structure Looping (j : ℕ) (m : Machine PollContext Empty) : Prop where
  ctx : ∃ env polls r, m.ctx = looping env polls r j
  status : m.status = none
  unused : ∀ i, j < i → (m.ops (repeated i).self).log = []

theorem looping_runOne (env : Env) (polls : List ℤ) (r : BitVec 16) (j : ℕ) :
    ∃ env' polls', pollBase.call (looping env polls r j) (.runOne 0 bothReady) =
      .ok (onlyNeglected env' polls', [.complete (repeated j).self (some (.size 1))]) :=
  ⟨_, _, rfl⟩

theorem onlyNeglected_submit (env : Env) (polls : List ℤ) (j : ℕ) :
    ∃ env', (onlyNeglected env polls).submit (repeated j) {} =
      .ok (looping env' polls POLLIN j, [], .submit) := by
  have hmask : eventMask (repeated j).op.events = POLLIN :=
    show eventMask (repeated 0).op.events = POLLIN by decide
  refine ⟨env.submitted (repeated j).self (some 4), ?_⟩
  show Except.ok (({ looping (env.submitted (repeated j).self (some 4)) polls POLLIN j with
    poll := [⟨3, POLLIN, POLLIN⟩, ⟨4, eventMask (repeated j).op.events, 0⟩] } : PollContext), _) = _
  rw [hmask]
  rfl

theorem step_complete {c : PollContext} {k : PollCall} {o : OpId} {v : Option Value}
    (hstatus : m.status = none) (hw : Waiting (m.ops o))
    (hcall : pollBase.call m.ctx k = .ok (c, [.complete o v])) :
    m.step pollBase (.call k) = some
      { m.set o ((m.ops o).complete v).1 with ctx := c, stack := [] :: m.stack } := by
  rw [Machine.step, if_neg (by simp [hstatus])]
  dsimp only
  rw [hcall, perform, runFrames_user (by exact (hw.complete v).2)]
  rfl

theorem step_queue {c : PollContext} {req : Answers} (hstatus : m.status = none)
    (hlog : (m.ops io.self).log = []) (hsub : m.ctx.submit io req = .ok (c, [], .submit)) :
    m.step pollBase (.start io req false ()) = some
      (({ m.set io.self ((m.ops io.self).begin io.op false) with ctx := c } :
        Machine PollContext Empty).note io.self (.submitted .submit)) := by
  rw [Machine.step, if_neg (by simp [hstatus])]
  dsimp only
  rw [if_pos hlog, Machine.start]
  dsimp only
  rw [if_neg Bool.false_ne_true, set_ctx,
    show pollBase.submit m.ctx io req = .ok (c, [], .submit) from hsub]
  rfl

theorem step_returns {rest : List (List (Frame Empty))} (hstatus : m.status = none)
    (hstack : m.stack = [] :: rest) : m.step pollBase .ret = some { m with stack := rest } := by
  rw [Machine.step, if_neg (by simp [hstatus])]
  simp only [hstack]
  rfl

theorem repeated_self_ne {i j : ℕ} (h : i ≠ j) : (repeated i).self ≠ (repeated j).self :=
  fun heq => h (Nat.add_right_cancel heq)

theorem looping_round {j : ℕ} (hm : Runs pollBase free (initial os) m) (h : Looping j m) :
    ∃ m', run (Machine.step pollBase) m (round j) = some m' ∧ Looping (j + 1) m' ∧
      outputs (Machine.step pollBase) servedBy m (round j) = [(repeated j).self] := by
  obtain ⟨env, polls, r, hctx⟩ := h.ctx
  have hw : Waiting (m.ops (repeated j).self) :=
    (stepInv_of_runs hm h.status).waiting (.inl (by rw [hctx]; simp [looping]))
  -- the later receive completes
  obtain ⟨env₁, polls₁, hcall⟩ := looping_runOne env polls r j
  rw [← hctx] at hcall
  have hstep₁ := step_complete h.status hw hcall
  have hserved : servedBy m (.call (.runOne 0 bothReady)) = [(repeated j).self] := by
    rw [servedBy, hctx]
    rfl
  generalize hm₁ : Machine.mk _ _ _ _ = m₁ at hstep₁
  have hstatus₁ : m₁.status = none := by
    rw [← hm₁]
    exact h.status
  have hops₁ : ∀ i, j < i → (m₁.ops (repeated i).self).log = [] := by
    intro i hi
    rw [← hm₁]
    exact (congrArg SenderState.log (set_ops_of_ne _ _ (repeated_self_ne hi.ne'))).trans
      (h.unused i hi)
  -- its receiver starts the next one
  obtain ⟨env₂, hsub⟩ := onlyNeglected_submit env₁ polls₁ (j + 1)
  have hctx₁ : m₁.ctx = onlyNeglected env₁ polls₁ := by rw [← hm₁]
  rw [← hctx₁] at hsub
  have hstep₂ := step_queue hstatus₁ (hops₁ (j + 1) (Nat.lt_succ_self j)) hsub
  generalize hm₂ : note _ _ _ = m₂ at hstep₂
  have hstatus₂ : m₂.status = none := by rw [← hm₂]; exact hstatus₁
  have hstack₂ : m₂.stack = [] :: m.stack := by rw [← hm₂, ← hm₁]; rfl
  have hstep₃ := step_returns hstatus₂ hstack₂
  have hctx₂ : m₂.ctx = looping env₂ polls₁ POLLIN (j + 1) := by rw [← hm₂]; rfl
  refine ⟨{ m₂ with stack := m.stack }, ?_, ⟨⟨_, _, _, hctx₂⟩, hstatus₂, ?_⟩, ?_⟩
  · rw [round, run_cons, hstep₁, Option.bind_some, run_cons, hstep₂, Option.bind_some, run_cons,
      hstep₃, Option.bind_some, run_nil]
  · intro i hi
    show (m₂.ops (repeated i).self).log = []
    have hne := repeated_self_ne hi.ne'
    rw [← hm₂, note_ops_of_ne _ _ hne]
    exact (congrArg SenderState.log (set_ops_of_ne _ _ hne)).trans
      (hops₁ i (Nat.lt_of_succ_lt hi))
  · rw [round, outputs_cons_of_step hstep₁, hserved, outputs_cons_of_step hstep₂,
      outputs_cons_of_step hstep₃]
    rfl

theorem ready_of_mem_rounds {j : ℕ} (hl : l ∈ rounds j n) : Ready 0 neglected l := by
  induction n generalizing j with
  | zero => cases hl
  | succ n ih =>
    rcases List.mem_append.1 hl with hl | hl
    · exact ready_of_mem_round hl
    · exact ih hl

/-- Induction on the number of rounds. -/
theorem looping_rounds {j : ℕ} (hm : Runs pollBase free (initial os) m) (h : Looping j m) :
    ∃ m', run (Machine.step pollBase) m (rounds j n) = some m' ∧ Looping (j + n) m' ∧
      outputs (Machine.step pollBase) servedBy m (rounds j n) =
        (List.range' j n).map fun i => (repeated i).self := by
  induction n generalizing j m with
  | zero => exact ⟨m, rfl, h, rfl⟩
  | succ n ih =>
    obtain ⟨m₁, hround, h₁, hout₁⟩ := looping_round hm h
    obtain ⟨m', hrounds, h', hout'⟩ := ih (hm.trans (reaches_free_of_run hround)) h₁
    refine ⟨m', ?_, by rwa [Nat.add_right_comm, Nat.add_assoc] at h', ?_⟩
    · rw [rounds, run_append, hround, Option.bind_some, hrounds]
    · rw [rounds, outputs_append_of_run hround, hout₁, hout', List.range'_succ]
      rfl

theorem looping_bothReceives : ∃ m,
    run (Machine.step pollBase) { ctx := initial {} } bothReceives = some m ∧ Looping 0 m := by
  refine ⟨_, rfl, ⟨_, _, _, rfl⟩, rfl, fun i hi => ?_⟩
  have h₂ : (repeated i).self ≠ (repeated 0).self := repeated_self_ne hi.ne'
  have h₁ : (repeated i).self ≠ neglected.self := Nat.succ_ne_succ_iff.2 (Nat.succ_ne_zero i)
  show SenderState.log (note (set _ _ _) _ _ |>.ops _) = []
  rw [note_ops_of_ne _ _ h₂, set_ops_of_ne _ _ h₂]
  show SenderState.log (note (set _ _ _) _ _ |>.ops _) = []
  rw [note_ops_of_ne _ _ h₁, set_ops_of_ne _ _ h₁]
  rfl

/-- **A receive can be starved**: however long the run, it is ready at every call of `poll`, each
time a receive that was queued later goes first, and it waits where it was. -/
theorem can_starve (n : ℕ) : ∃ m m', Runs pollBase free (initial {}) m ∧
    m.ctx.outstanding[0]? = some neglected ∧ (∀ l ∈ rounds 0 n, Ready 0 neglected l) ∧
    run (Machine.step pollBase) m (rounds 0 n) = some m' ∧ m'.status = none ∧
    outputs (Machine.step pollBase) servedBy m (rounds 0 n) =
      (List.range n).map (fun j => (repeated j).self) ∧
    m'.ctx.outstanding[0]? = some neglected := by
  obtain ⟨m, hsetup, h⟩ := looping_bothReceives
  have hm := reaches_free_of_run hsetup
  obtain ⟨m', hrun, h', hout⟩ := looping_rounds (n := n) hm h
  obtain ⟨env, polls, r, hctx⟩ := h.ctx
  obtain ⟨env', polls', r', hctx'⟩ := h'.ctx
  refine ⟨m, m', hm, by rw [hctx]; rfl, fun l => ready_of_mem_rounds, hrun, h'.status, ?_,
    by rw [hctx']; rfl⟩
  rw [hout, List.range_eq_range']

end PollContext

end Net29
