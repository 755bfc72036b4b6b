import Net29.Uring.Ledger

/-!
# Finished operations of `uring_context`

An operation that was asked to stop has two completions to come, and the one that is read last
decides what its receiver is sent.

* `Carries`: the values that hand on what a successful completion brought;
* `finished_step`: the step that reads such a completion sends one of them, if and only if no cancel
  request of the operation is outstanding;
* `finished_not_discarded`: hence in every run in which this is so whenever one is read;
* `UringReads`, `work_of_reads`: the step that reads any completion calls its work function.
-/

namespace Net29

open Machine Transition

/-- The system finished the operation successfully. -/
structure Cqe.Succeeded (cqe : Cqe) (io : IoBase) : Prop where
  data : cqe.data = .op io
  socket : io.op.onSocket = true
  res : 0 ≤ cqe.res

/-- The value hands on what a successful completion brought: the bytes transferred, or one of the
`ids` with the address of the peer. (A connection is all that `connect` brings.) -/
def Carries (cqe : Cqe) (ids : SocketId → Prop) (v : Value) : Operation → Prop
  | .accept _ addrlen => ∃ id, ids id ∧ v = .accepted id (Endpoint.empty.write cqe.peer addrlen)
  | .connect _ _ => True
  | .receive _ _ | .send _ _ => v = .size cqe.res.toNat
  | .poll _ _ | .resumeAt _ => False

/-- The receiver was sent the result, and nothing else. -/
def Delivered (cqe : Cqe) (ids : SocketId → Prop) (io : IoBase) (s : SenderState) : Prop :=
  .started true ∉ s.log ∧ ∃ v, s.signals = [.setValue v] ∧ Carries cqe ids v io.op

theorem Carries.mono {cqe : Cqe} {ids ids' : SocketId → Prop} {v : Value} {op : Operation}
    (h : Carries cqe ids v op) (himp : ∀ id, ids id → ids' id) : Carries cqe ids' v op := by
  cases op with
  | accept id addrlen =>
    obtain ⟨id', hid, hv⟩ := h
    exact ⟨id', himp id' hid, hv⟩
  | _ => exact h

namespace UringContext

variable {c c' c₁ : UringContext} {io : IoBase} {fs : List (Frame Empty)} {r : SubmitResult}
  {cqe : Cqe} {n : ℕ} {m m' : Machine UringContext Empty}

/-! ### One step -/

/-- The work function of an operation that succeeded completes it with its result; the id of an
accepted socket is the one its record gets. -/
theorem work_succeeded (hs : cqe.Succeeded io) (h : c.work cqe = .ok (c', fs, r)) :
    ∃ v : Option Value, fs = [.complete io.self v] ∧ ∀ w, Carries cqe
      (fun id => c.sockets.insert cqe.res.toNat = .ok (c'.sockets, id)) (v.getD w) io.op := by
  have hres : ¬ cqe.res < 0 := Int.not_lt.2 hs.res
  have hsocket := hs.socket
  unfold work at h
  rw [hs.data] at h
  dsimp only at h
  cases hop : io.op with
  | accept id addrlen =>
    rw [hop] at h
    dsimp only at h
    unfold acceptWork at h
    rw [if_neg hres] at h
    obtain ⟨⟨c₁, id'⟩, hmake, h⟩ := Exec.bind_eq_ok.1 h
    obtain ⟨sockets, hins, rfl⟩ := makeSocketNative_eq_ok hmake
    cases h
    exact ⟨_, rfl, fun w => ⟨id', hins, rfl⟩⟩
  | connect id endpoint =>
    rw [hop] at h
    dsimp only at h
    unfold connectWork at h
    rw [if_neg hres] at h
    cases h
    exact ⟨none, rfl, fun w => trivial⟩
  | receive id buffers =>
    rw [hop] at h
    dsimp only at h
    unfold transferWork at h
    rw [if_neg hres] at h
    cases h
    exact ⟨_, rfl, fun w => rfl⟩
  | send id buffers =>
    rw [hop] at h
    dsimp only at h
    unfold transferWork at h
    rw [if_neg hres] at h
    cases h
    exact ⟨_, rfl, fun w => rfl⟩
  | poll id mask => rw [hop] at h; cases h
  | resumeAt time => rw [hop] at hsocket; cases hsocket

theorem post_frame {p : Post} (h : c.post p = .ok c') :
    c'.sockets = c.sockets ∧ c'.seen = c.seen := by
  obtain ⟨sqe, os, -, -, rfl⟩ := post_eq_ok h
  exact ⟨rfl, rfl⟩

theorem postAll_frame {ps : List Post} (h : c.postAll ps = .ok c') :
    c'.sockets = c.sockets ∧ c'.seen = c.seen :=
  postAll_induct (P := fun c' => c'.sockets = c.sockets ∧ c'.seen = c.seen)
    (fun hP hp => ⟨(post_frame hp).1.trans hP.1, (post_frame hp).2.trans hP.2⟩) ⟨rfl, rfl⟩ h

theorem work_seen (h : c.work cqe = .ok (c', fs, r)) : c'.seen = c.seen := by
  rcases (work_spec h).2 with rfl | ⟨_, _, _, _, _, -, -, -, -, rfl, -⟩ <;> rfl

/-- What `run_one` reads, and the work function it calls. -/
inductive Read (c : UringContext) (submitted : ℤ) (posts : List Post) (c' : UringContext)
    (fs : List (Frame Empty)) : Prop
  | nothing (hseen : c'.seen = c.seen) : Read c submitted posts c' fs
  | completion {c₁ : UringContext} {cqe : Cqe} {r : SubmitResult} (hseen : c'.seen = cqe :: c.seen)
      (hreads : c.Reads submitted posts cqe) (hsockets : c₁.sockets = c.sockets)
      (hpointers : c.pointers.Perm (cqe.data :: c₁.pointers))
      (hwork : c₁.work cqe = .ok (c', fs, r)) : Read c submitted posts c' fs

theorem runOne_read {submitted waited : ℤ} {posts : List Post}
    (h : c.runOne submitted posts waited = .ok (c', fs, n)) : Read c submitted posts c' fs := by
  cases runOne_cases h with
  | task ht =>
    obtain ⟨t, tasks, -, rfl, -⟩ := processTask_eq_some ht
    exact .nothing rfl
  | @idle k _ _ _ hpost _ => exact .nothing (postAll_frame hpost).2
  | @completed k c₁ c₂ _ waited cqe _ r _ _ hpost hreads hwait hwork =>
    have hperm : c₁.pointers.Perm c.pointers := by
      refine postAll_induct (P := fun c' => c'.pointers.Perm c.pointers)
        (fun hP hp => (pointers_post hp).trans hP) ?_ hpost
      exact pointers_consume k
    have hread := pointers_wait hwait
    have hseen := work_seen hwork
    obtain ⟨-, cq, -, rfl⟩ := wait_eq_ok hwait
    refine .completion ?_ hreads ?_ ?_ hwork
    · exact hseen.trans (congrArg (cqe :: ·) (postAll_frame hpost).2)
    · exact (postAll_frame hpost).1
    · exact hperm.symm.trans hread

/-- **The step that reads a successful completion**: its result is sent to the receiver if and only
if no cancel request of the operation is outstanding. -/
theorem finished_step (hsound : uringLedger.Sound True False m) (hstatus : m.status = none)
    (hsockets : c₁.sockets = m.ctx.sockets)
    (hpointers : m.ctx.pointers.Perm (cqe.data :: c₁.pointers))
    (hwork : c₁.work cqe = .ok (c', fs, r)) (hs : cqe.Succeeded io) :
    Delivered cqe (fun id => m.ctx.sockets.insert cqe.res.toNat = .ok (c'.sockets, id)) io
      (({ m with ctx := c' }.runFrames uringBase fs).ops io.self) ↔ m.ctx.asked io.self = 0 := by
  obtain ⟨v, rfl, hresult⟩ := work_succeeded hs hwork
  rw [hsockets] at hresult
  have hheld : 0 < m.ctx.held io.self := by
    rw [held, hpointers.countP_eq, hs.data, List.countP_cons]
    simp [Completion.isOp]
  cases hsound.phase hstatus io.self with
  | idle _ hz => exact absurd hz (Nat.ne_of_gt hheld)
  | refused _ hz => exact absurd hz (Nat.ne_of_gt hheld)
  | done hd => exact absurd hd.held (Nat.ne_of_gt hheld)
  | live hl =>
    obtain ⟨hbal, hone⟩ := hl.balance trivial
    have hout : (m.ops io.self).outstanding = 1 + m.ctx.asked io.self := by
      have hone' : m.ctx.held io.self + (m.ops io.self).calls.length = 1 := hone
      have hbal' :
          (m.ctx.held io.self + m.ctx.asked io.self : ℤ) = (m.ops io.self).outstanding := hbal
      omega
    -- the counter is at one exactly when nothing else is owed
    have hops : ({ m with ctx := c' }.runFrames uringBase [.complete io.self v]).ops io.self =
        ((m.ops io.self).complete v).1 := by
      cases hb : (({ m with ctx := c' } : Machine UringContext Empty).exec uringBase
          (.complete io.self v)).2 with
      | true => rw [runFrames_cons_of_user hb]; exact set_ops_self _ _ _
      | false => rw [runFrames_cons_of_silent hb]; exact set_ops_self _ _ _
    rw [hops]
    constructor
    · rintro ⟨-, w, hsignals, -⟩
      by_contra hasked
      have hnot : (m.ops io.self).outstanding ≠ 1 := by omega
      rw [SenderState.complete_not_last hnot] at hsignals
      have hnil : (m.ops io.self).signals = [] := hl.signals
      simp only [SenderState.signals, List.filterMap_cons, OpEvent.signal?] at hsignals hnil
      rw [hnil] at hsignals
      cases hsignals
    · intro hasked
      have hlast : (m.ops io.self).outstanding = 1 := by omega
      rw [SenderState.complete_last hlast]
      have hnil : (m.ops io.self).signals = [] := hl.signals
      refine ⟨?_, v.getD (m.ops io.self).value, ?_, hresult _⟩
      · simpa using hl.begun.2
      · simp only [SenderState.signals, List.filterMap_cons, OpEvent.signal?] at hnil ⊢
        rw [hnil]

/-! ### Runs -/

/-- What was delivered stays so. -/
theorem delivered_step {ids : SocketId → Prop} (h : Delivered cqe ids io (m.ops io.self))
    (hz : ∀ o, (m.ops o).upstream = {}) (hsound : uringLedger.Sound True False m')
    {l : Label UringRequest (List ℤ) UringCall} (hstep : m.step uringBase l = some m') :
    Delivered cqe ids io (m'.ops io.self) := by
  obtain ⟨hstart, v, hsignals, hcarries⟩ := h
  have hlog : (m.ops io.self).log ≠ [] := by
    intro hnil
    rw [SenderState.signals, hnil] at hsignals
    cases hsignals
  have hstart' : .started true ∉ (m'.ops io.self).log := fun hb =>
    hstart (started_step hstep hz hlog hb)
  refine ⟨hstart', v, ?_, hcarries⟩
  -- the signals only grow, and there is at most one
  have hsuffix : (m.ops io.self).signals <:+ (m'.ops io.self).signals :=
    (log_step hstep hz io.self).filterMap _
  have hone := ((hsound.safe io.self).resolve_left fun hr => hstart' hr.1).2.1
  rw [hsignals] at hsuffix
  exact (hsuffix.eq_of_length_le (by simpa using hone)).symm

/-- The steps in which `run_one` reads no successful completion of an operation with a cancel
request outstanding. -/
def Undisturbed (m : Machine UringContext Empty) : Label UringRequest (List ℤ) UringCall → Prop
  | .call (.runOne submitted posts _) => ∀ cqe io, m.ctx.Reads submitted posts cqe →
      cqe.Succeeded io → m.ctx.asked io.self = 0
  | _ => True

/-- Only `run_one` reads completions. -/
theorem seen_of_ctxStep {l : Label UringRequest (List ℤ) UringCall}
    (h : CtxStep uringBase m l c')
    (hl : ∀ submitted posts waited, l ≠ .call (.runOne submitted posts waited)) :
    c'.seen = m.ctx.seen := by
  cases h with
  | same => rfl
  | submit hlog hsub =>
    cases (submit_cases hsub).1 <;> rfl
  | cancel l hcancel =>
    obtain ⟨-, n, -, -, rfl⟩ := cancel_eq_ok hcancel
    rfl
  | @call k c fs hcall =>
    cases call_eq_ok hcall with
    | @runOne submitted waited posts => exact absurd rfl (hl submitted posts waited)
    | post hpost => exact (post_frame hpost).2
    | schedule t => rfl
    | makeSocket hmake =>
      rcases makeSocket_eq_ok hmake with rfl | ⟨fd, os, sockets, -, -, rfl⟩
      · rfl
      · rfl
    | makeSocketNative hmake =>
      obtain ⟨sockets, -, rfl⟩ := makeSocketNative_eq_ok hmake
      rfl
    | release hrel =>
      obtain ⟨fd, -, rfl⟩ := release_eq_ok hrel
      rfl

/-- Every successful completion that was read has been delivered. -/
def AllDelivered (m : Machine UringContext Empty) : Prop :=
  ∀ cqe ∈ m.ctx.seen, ∀ io, cqe.Succeeded io → Delivered cqe (fun _ => True) io (m.ops io.self)

theorem allDelivered_step {l : Label UringRequest (List ℤ) UringCall} (hI : AllDelivered m)
    (hz : ∀ o, (m.ops o).upstream = {}) (hsound : uringLedger.Sound True False m)
    (hguard : Undisturbed m l) (hstep : m.step uringBase l = some m') : AllDelivered m' := by
  have hsound' := Ledger.sound_step hsound hz
    (Ledger.guard_of_not_drops (fun _ _ hd => hd) m l trivial) hstep
  have hold : ∀ cqe ∈ m.ctx.seen, ∀ io, cqe.Succeeded io →
      Delivered cqe (fun _ => True) io (m'.ops io.self) := fun cqe hmem io hs =>
    delivered_step (hI cqe hmem io hs) hz hsound' hstep
  by_cases hl : ∃ submitted posts waited, l = .call (.runOne submitted posts waited)
  · obtain ⟨submitted, posts, waited, rfl⟩ := hl
    rcases perform_eq_some (step_call hstep) with ⟨c, fs, hcall, rfl⟩ | ⟨e, -, rfl⟩
    · obtain ⟨⟨c₁, fs₁, n⟩, hrun, heq⟩ := Exec.map_eq_ok.1 hcall
      cases heq
      intro cqe hmem io hs
      rw [runFrames_ctx] at hmem
      cases runOne_read hrun with
      | nothing hseen => exact hold cqe (hseen ▸ hmem) io hs
      | completion hseen hreads hsockets hpointers hwork =>
        rw [hseen] at hmem
        rcases List.mem_cons.1 hmem with rfl | hmem
        · have hnow := (finished_step hsound (status_of_step hstep) hsockets hpointers hwork hs).2
            (hguard cqe io hreads hs)
          obtain ⟨hstart, v, hsignals, hcarries⟩ := hnow
          exact ⟨hstart, v, hsignals, hcarries.mono fun _ _ => trivial⟩
        · exact hold cqe hmem io hs
    · exact hold
  · have hseen := seen_of_ctxStep (ctx_of_step hz hstep)
      fun submitted posts waited he => hl ⟨submitted, posts, waited, he⟩
    intro cqe hmem
    exact hold cqe (hseen ▸ hmem)

/-- A list is not its own tail. -/
theorem seen_ne_cons {l : List Cqe} : l ≠ cqe :: l := fun h => by
  have hlen := congrArg List.length h
  simp at hlen

/-! ### Reading a completion -/

/-- The completion `cqe`, which is that of the operation state of `io`, is read in this step. -/
def UringReads (m : Machine UringContext Empty) (io : IoBase) (cqe : Cqe)
    (m' : Machine UringContext Empty) : Prop :=
  cqe.data = .op io ∧ (m.ops io.self).op = io.op ∧ m'.ctx.seen = cqe :: m.ctx.seen ∧
    ∃ submitted posts waited, m.step uringBase (.call (.runOne submitted posts waited)) = some m'

/-- Then its work function is called; if no stop was requested nothing else is owed. -/
theorem work_of_reads {os : Os}
    {ok : Machine UringContext Empty → Label UringRequest (List ℤ) UringCall → Prop}
    (hm : Runs uringBase ok (initial os) m) (h : UringReads m io cqe m')
    (hstop : (m.ops io.self).callback = .registered) :
    ∃ (c c' : UringContext) (fs : List (Frame Empty)) (r : SubmitResult),
      c.sockets = m.ctx.sockets ∧ c.work cqe = .ok (c', fs, r) ∧
      m' = ({ m with ctx := c' } : Machine UringContext Empty).runFrames uringBase fs ∧
      (m.ops io.self).outstanding = 1 ∧ (m.ops io.self).signals = [] ∧
      (m.ops io.self).calls = [] := by
  obtain ⟨hdata, -, hseen, submitted, posts, waited, hstep⟩ := h
  have hsound : uringLedger.Sound True False m := (uringLedger_fresh os).sound
    (hm.mono fun m l _ => Ledger.guard_of_not_drops (fun _ _ hd => hd) m l trivial)
  rcases perform_eq_some (step_call hstep) with ⟨c, fs, hcall, rfl⟩ | ⟨e, -, rfl⟩
  · obtain ⟨⟨c₁, fs₁, n⟩, hrun, heq⟩ := Exec.map_eq_ok.1 hcall
    cases heq
    rw [runFrames_ctx] at hseen
    cases runOne_read hrun with
    | nothing hsame => exact absurd (hsame.symm.trans hseen) seen_ne_cons
    | @completion c₂ cqe' r hread _ hsockets hpointers hwork =>
      obtain rfl := (List.cons.inj (hread.symm.trans hseen)).1
      have hheld : 0 < m.ctx.held io.self := by
        rw [held, hpointers.countP_eq, hdata, List.countP_cons]
        simp [Completion.isOp]
      cases hsound.phase (status_of_step hstep) io.self with
      | idle _ hz => exact absurd hz (Nat.ne_of_gt hheld)
      | refused _ hz => exact absurd hz (Nat.ne_of_gt hheld)
      | done hd => exact absurd hd.held (Nat.ne_of_gt hheld)
      | live hl =>
        obtain ⟨hone, -, hcalls, -⟩ := hl.registered hstop
        exact ⟨c₂, _, _, r, hsockets, hwork, rfl, hone, hl.signals, hcalls⟩
  · exact absurd hseen seen_ne_cons

end UringContext

open UringContext

/-- **Finished operations are not discarded**: every successful completion that was read has been
delivered, in every run in which none is read while a cancel request of its operation is
outstanding; and in every run the step that reads one delivers it exactly if this is so. -/
theorem finished_not_discarded (os : Os) (m : Machine UringContext Empty) :
    (Runs uringBase Undisturbed (UringContext.initial os) m →
      ∀ cqe ∈ m.ctx.seen, ∀ io, cqe.Succeeded io →
        Delivered cqe (fun _ => True) io (m.ops io.self)) ∧
    (Runs uringBase free (UringContext.initial os) m → ∀ submitted posts waited m',
      m.step uringBase (.call (.runOne submitted posts waited)) = some m' →
      ∀ cqe io, m'.ctx.seen = cqe :: m.ctx.seen → cqe.Succeeded io →
        (Delivered cqe (fun id => m.ctx.sockets.insert cqe.res.toNat = .ok (m'.ctx.sockets, id)) io
          (m'.ops io.self) ↔ m.ctx.asked io.self = 0)) := by
  have hsound : ∀ {ok : Machine UringContext Empty → Label UringRequest (List ℤ) UringCall → Prop}
      {m : Machine UringContext Empty}, Runs uringBase ok (UringContext.initial os) m →
      uringLedger.Sound True False m := fun h => (uringLedger_fresh os).sound
    (h.mono fun m l _ => Ledger.guard_of_not_drops (fun _ _ hd => hd) m l trivial)
  constructor
  · intro h
    exact Reaches.invariant₂ (I := AllDelivered)
      (J := fun m => uringLedger.Sound True False m ∧ ∀ o, (m.ops o).upstream = {}) h
      (fun _ hm => ⟨hsound hm, Runs.never_started hm⟩) (fun _ hmem => by cases hmem)
      fun _ _ _ hJ hI hguard hstep => allDelivered_step hI hJ.2 hJ.1 hguard hstep
  · intro h submitted posts waited m' hstep cqe io hseen hs
    rcases perform_eq_some (step_call hstep) with ⟨c, fs, hcall, rfl⟩ | ⟨e, -, rfl⟩
    · obtain ⟨⟨c₁, fs₁, n⟩, hrun, heq⟩ := Exec.map_eq_ok.1 hcall
      cases heq
      rw [runFrames_ctx] at hseen ⊢
      cases runOne_read hrun with
      | nothing hsame => exact absurd (hsame.symm.trans hseen) seen_ne_cons
      | completion hread _ hsockets hpointers hwork =>
        obtain rfl := (List.cons.inj (hread.symm.trans hseen)).1
        exact finished_step (hsound h) (status_of_step hstep) hsockets hpointers hwork hs
    · exact absurd hseen seen_ne_cons

/-- A `receive` is stopped while it is pending; the system finishes it with five bytes, and then its
cancel request, which finds nothing. -/
def finishedReceive : List (Label UringRequest (List ℤ) UringCall) :=
  [.call (.makeSocket (.ok 3 [])), .start ⟨1, .receive 0 [8]⟩ {} false [], .stop 1 [],
    .call (.runOne 2 [⟨0, 5, []⟩, ⟨0, -2, []⟩] 0), .call (.runOne 0 [] 0)]

theorem finished_discarded :
    ¬ ∀ (os : Os) (m : Machine UringContext Empty),
      Runs uringBase free (UringContext.initial os) m →
        m.ctx.outstanding = 0 → ∀ cqe ∈ m.ctx.seen, ∀ io, cqe.Succeeded io →
          Delivered cqe (fun _ => True) io (m.ops io.self) := by
  intro h
  obtain ⟨m, hrun, hm⟩ := runs_of_labels uringBase (UringContext.initial {}) any any_free
    finishedReceive (fun m => (m.ctx.outstanding, m.ctx.seen, (m.ops 1).signals))
    (0, [⟨-2, .cancelOp 1, []⟩, ⟨5, .op ⟨1, .receive 0 [8]⟩, []⟩], [.setStopped]) (by decide)
  obtain ⟨hout, hseen, hsignals⟩ : _ ∧ _ ∧ _ := by simpa only [Prod.mk.injEq] using hm
  obtain ⟨-, v, hvalue, -⟩ := h {} m hrun hout ⟨5, .op ⟨1, .receive 0 [8]⟩, []⟩
    (by rw [hseen]; decide) ⟨1, .receive 0 [8]⟩ ⟨rfl, rfl, by decide⟩
  rw [hsignals] at hvalue
  cases hvalue

/-- The same, with the two completions in the other order. -/
def finishedAfterCancel : List (Label UringRequest (List ℤ) UringCall) :=
  [.call (.makeSocket (.ok 3 [])), .start ⟨1, .receive 0 [8]⟩ {} false [], .stop 1 [],
    .call (.runOne 2 [⟨1, -114, []⟩, ⟨0, 5, []⟩] 0), .call (.runOne 0 [] 0)]

/-- The operation whose completion a call of `run_one` reads next. -/
def nextOp (c : UringContext) (submitted : ℤ) (posts : List Post) : Option IoBase :=
  match c.flush submitted >>= fun c => c.postAll posts with
  | .ok c => c.cq.head?.bind fun cqe => match cqe.data with
      | .op io => some io
      | _ => none
  | .error _ => none

/-- No completion of an operation with a cancel request outstanding is read. -/
def undisturbed (m : Machine UringContext Empty) : Label UringRequest (List ℤ) UringCall → Bool
  | .call (.runOne submitted posts _) =>
      (nextOp m.ctx submitted posts).all fun io => m.ctx.asked io.self = 0
  | _ => true

theorem undisturbed_sound (m : Machine UringContext Empty)
    (l : Label UringRequest (List ℤ) UringCall) (h : undisturbed m l = true) : Undisturbed m l := by
  cases l with
  | call k =>
    cases k with
    | runOne submitted posts waited =>
      rintro ⟨res, data, peer⟩ io ⟨-, c₁, cq, hflush, hcq⟩ ⟨rfl, -, -⟩
      simpa [undisturbed, nextOp, hflush, hcq] using h
    | _ => trivial
  | _ => trivial

theorem finished_not_discarded_finishedAfterCancel :
    ∃ m : Machine UringContext Empty, Runs uringBase Undisturbed (UringContext.initial {}) m ∧
      (m.ops 1).signals = [.setValue (.size 5)] ∧
      Delivered ⟨5, .op ⟨1, .receive 0 [8]⟩, []⟩ (fun _ => True) ⟨1, .receive 0 [8]⟩ (m.ops 1) := by
  obtain ⟨m, hrun, hm⟩ := runs_of_labels uringBase (UringContext.initial {}) undisturbed
    undisturbed_sound finishedAfterCancel (fun m => (m.ctx.seen, (m.ops 1).signals))
    ([⟨5, .op ⟨1, .receive 0 [8]⟩, []⟩, ⟨-114, .cancelOp 1, []⟩], [.setValue (.size 5)]) (by decide)
  obtain ⟨hseen, hsignals⟩ : _ ∧ _ := by simpa only [Prod.mk.injEq] using hm
  exact ⟨m, hrun, hsignals, (finished_not_discarded {} m).1 hrun _
    (by rw [hseen]; exact List.mem_cons_self) ⟨1, .receive 0 [8]⟩ ⟨rfl, rfl, by decide⟩⟩

end Net29
