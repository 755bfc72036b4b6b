import Net29.Uring.Ledger
import Net29.Sockets

/-!
# The sockets of `uring_context`

The descriptor of an operation is put into its entry when it is submitted, and the system looks at
it when it consumes the entry. `release` does not look at the queue. A descriptor that `accept`
returned has no record until its completion is read.

* `UringSockets`: every call was made on the right socket, and so will be that of every entry in the
  queue;
* `Unconsumed`: no socket is released while an entry for it is in the queue;
* `uringSockets_of_runs`: such steps keep the invariant.
-/

namespace Net29

open Machine Transition

/-- The descriptor that a successful `accept` returned. -/
def Cqe.accepted? (cqe : Cqe) : Option Fd :=
  if cqe.data.isAccept = true ∧ 0 ≤ cqe.res then some cqe.res.toNat else none

namespace UringContext

variable {c c' c₁ : UringContext} {io : IoBase} {fs : List (Frame Empty)} {r : SubmitResult}
  {fd : Fd} {cqe : Cqe} {sqe : Sqe} {waiting : List Fd} {n : ℕ}

/-- The socket table of the context. -/
def view (c : UringContext) : SocketView Fd := ⟨c.sockets, c.env⟩

/-- The accepted descriptors whose completion was not read. -/
def accepted (c : UringContext) : List Fd := c.cq.filterMap Cqe.accepted?

/-- If the entry asks for a call for an operation, then on its socket. -/
def Served (v : SocketView Fd) (sqe : Sqe) : Prop :=
  ∀ io call fd len, sqe.data = .op io → sqe.request = .socket call fd len → Serves id v fd io

/-- The invariant of the sockets. -/
structure UringSockets (c : UringContext) : Prop where
  faithful : Faithful id c.view c.accepted
  served : ∀ sqe ∈ c.sq, Served c.view sqe
  accepts : ∀ sqe, sqe ∈ c.sq ∨ sqe ∈ c.inflight → sqe.request.isAccept = sqe.data.isAccept

/-! ### The ring -/

/-- The system consumes an entry. -/
theorem consumed_sockets {sockets : Container Fd} {env : Env}
    (hF : Faithful id ⟨sockets, env⟩ waiting) (hs : Served ⟨sockets, env⟩ sqe) :
    Faithful id ⟨sockets, env.consumed sqe⟩ waiting ∧
      Keeps id ⟨sockets, env⟩ ⟨sockets, env.consumed sqe⟩ := by
  unfold Env.consumed
  split
  · next io call fd len hdata hreq =>
    exact ⟨hF.logCalls (hs io call fd len hdata hreq) 1 call len, fun _ _ h => h⟩
  · exact ⟨hF, .refl _⟩

/-- The system consumes entries, by induction on them. -/
theorem foldl_consumed_sockets {sockets : Container Fd} (l : List Sqe) {env : Env}
    (hF : Faithful id ⟨sockets, env⟩ waiting) (hs : ∀ sqe ∈ l, Served ⟨sockets, env⟩ sqe) :
    Faithful id ⟨sockets, l.foldl Env.consumed env⟩ waiting ∧
      Keeps id ⟨sockets, env⟩ ⟨sockets, l.foldl Env.consumed env⟩ := by
  induction l generalizing env with
  | nil => exact ⟨hF, .refl _⟩
  | cons sqe l ih =>
    obtain ⟨hF₁, hkeep⟩ := consumed_sockets hF (hs sqe List.mem_cons_self)
    obtain ⟨hF₂, hkeep'⟩ := ih hF₁ fun sqe' hmem io call fd len hdata hreq =>
      hkeep fd io (hs sqe' (List.mem_cons_of_mem _ hmem) io call fd len hdata hreq)
    exact ⟨hF₂, hkeep.trans hkeep'⟩

theorem UringSockets.consume (hS : UringSockets c) (n : ℕ) :
    UringSockets (c.consume n) ∧ Keeps id c.view (c.consume n).view := by
  obtain ⟨hF, hkeep⟩ := foldl_consumed_sockets (c.sq.take n) hS.faithful fun sqe hmem =>
    hS.served sqe (List.mem_of_mem_take hmem)
  refine ⟨⟨hF, fun sqe hmem io call fd len hdata hreq => hkeep fd io
    (hS.served sqe (List.mem_of_mem_drop hmem) io call fd len hdata hreq),
    fun sqe hmem => ?_⟩, hkeep⟩
  rcases hmem with hmem | hmem
  · exact hS.accepts sqe (.inl (List.mem_of_mem_drop hmem))
  · rcases List.mem_append.1 hmem with hmem | hmem
    · exact hS.accepts sqe (.inr hmem)
    · exact hS.accepts sqe (.inl (List.mem_of_mem_take hmem))

/-- Calls that leave the table, the system and the ring alone. -/
theorem UringSockets.same (hS : UringSockets c) (hview : c'.view = c.view) (hsq : c'.sq = c.sq)
    (hinflight : c'.inflight = c.inflight) (hcq : c'.cq = c.cq) : UringSockets c' where
  faithful := by rw [hview, accepted, hcq]; exact hS.faithful
  served := by rw [hview, hsq]; exact hS.served
  accepts := by rw [hsq, hinflight]; exact hS.accepts

theorem UringSockets.counters (hS : UringSockets c) (submitting outstanding : ℕ) :
    UringSockets { c with submitting := submitting, outstanding := outstanding } :=
  hS.same rfl rfl rfl rfl

/-- Calls that leave the ring alone. -/
theorem UringSockets.keeps (hS : UringSockets c) (hF : Faithful id c'.view c'.accepted)
    (hkeep : ∀ sqe ∈ c.sq, Served c.view sqe → Served c'.view sqe) (hsq : c'.sq = c.sq)
    (hinflight : c'.inflight = c.inflight) : UringSockets c' where
  faithful := hF
  served sqe hmem := hkeep sqe (hsq ▸ hmem) (hS.served sqe (hsq ▸ hmem))
  accepts := by rw [hsq, hinflight]; exact hS.accepts

theorem Keeps.served {v v' : SocketView Fd} (h : Keeps id v v') (hs : Served v sqe) :
    Served v' sqe := fun io call fd len hdata hreq => h fd io (hs io call fd len hdata hreq)

/-- An entry is added. -/
theorem UringSockets.prep (hS : UringSockets c) {data : Completion} {request : SqeRequest}
    (hs : Served c.view ⟨data, request⟩) (ha : request.isAccept = data.isAccept) :
    UringSockets (c.prep data request) where
  faithful := hS.faithful
  served sqe hmem := by
    rcases List.mem_append.1 hmem with hmem | hmem
    · exact hS.served sqe hmem
    · obtain rfl := List.mem_singleton.1 hmem
      exact hs
  accepts sqe hmem := by
    rcases hmem with hmem | hmem
    · rcases List.mem_append.1 hmem with hmem | hmem
      · exact hS.accepts sqe (.inl hmem)
      · obtain rfl := List.mem_singleton.1 hmem
        exact ha
    · exact hS.accepts sqe (.inr hmem)

/-- The system finishes an entry; what `accept` returns waits for its record. -/
theorem UringSockets.post (hS : UringSockets c) {p : Post} (h : c.post p = .ok c') :
    UringSockets c' := by
  obtain ⟨sqe, os, hsqe, hos, rfl⟩ := post_eq_ok h
  have hmem := List.mem_of_getElem? hsqe
  have haccept := hS.accepts sqe (.inr hmem)
  have haccepts : ∀ sqe', sqe' ∈ c.sq ∨ sqe' ∈ c.inflight.eraseIdx p.index →
      sqe'.request.isAccept = sqe'.data.isAccept := fun sqe' hmem' =>
    hS.accepts sqe' (hmem'.imp_right List.mem_of_mem_eraseIdx)
  rcases hos with ⟨rfl, hno⟩ | ⟨hreq, hres, hopen⟩
  · have hnone : Cqe.accepted? ⟨p.res, sqe.data, p.peer⟩ = none := by
      rw [Cqe.accepted?, if_neg (by rw [← haccept]; exact hno)]
    have haccepted : (c.cq ++ [Cqe.mk p.res sqe.data p.peer]).filterMap Cqe.accepted? =
        c.accepted := by
      simp [accepted, List.filterMap_append, hnone]
    refine ⟨?_, hS.served, haccepts⟩
    show Faithful id c.view ((c.cq ++ [_]).filterMap Cqe.accepted?)
    rw [haccepted]
    exact hS.faithful
  · have hsome : Cqe.accepted? ⟨p.res, sqe.data, p.peer⟩ = some p.res.toNat := by
      rw [Cqe.accepted?, if_pos ⟨haccept ▸ hreq, hres⟩]
    obtain ⟨hF, hkeep⟩ := hS.faithful.opened hopen
    refine ⟨⟨hF.table.perm ?_, hF.calls⟩, fun sqe hmem => Keeps.served hkeep (hS.served sqe hmem),
      haccepts⟩
    simpa [accepted, List.filterMap_append, hsome] using
      (List.perm_append_singleton p.res.toNat (c.cq.filterMap Cqe.accepted?)).symm

theorem UringSockets.postAll (hS : UringSockets c) {ps : List Post} (h : c.postAll ps = .ok c') :
    UringSockets c' :=
  postAll_induct (P := UringSockets) (fun hP hp => hP.post hp) hS h

/-- A completion is read and its work function called: an accepted descriptor gets its record. -/
theorem UringSockets.completed (hS : UringSockets c) {k : ℤ} (hwait : c.wait k = .ok (c₁, cqe))
    (hwork : c₁.work cqe = .ok (c', fs, r)) : UringSockets c' := by
  obtain ⟨-, cq, hcq, rfl⟩ := wait_eq_ok hwait
  have haccepted : c.accepted = cqe.accepted?.toList ++ cq.filterMap Cqe.accepted? := by
    rw [accepted, hcq, List.filterMap_cons]
    cases cqe.accepted? <;> rfl
  have hF := hS.faithful
  rw [haccepted] at hF
  rcases (work_spec hwork).2 with
    rfl | ⟨io, id', addrlen, sockets, id'', hdata, hop, hres, hins, rfl, -⟩
  · refine hS.keeps ?_ (fun _ _ h => h) rfl rfl
    show Faithful id c.view (cq.filterMap Cqe.accepted?)
    cases h : cqe.accepted? with
    | none => simpa [h] using hF
    | some fd =>
      rw [h] at hF
      exact hF.forget
  · have hsome : cqe.accepted? = some cqe.res.toNat := by
      rw [Cqe.accepted?, if_pos ⟨by simp [hdata, Completion.isAccept, hop], hres⟩]
    have hF₁ : Faithful id c.view (cqe.res.toNat :: cq.filterMap Cqe.accepted?) := by
      simpa [hsome] using hF
    obtain ⟨hF₂, hkeep⟩ := hF₁.insert (r := cqe.res.toNat) hins
    exact hS.keeps hF₂ (fun _ _ h => Keeps.served hkeep h) rfl rfl

/-! ### The calls -/

/-- The submission of an operation that is not in the queue is recorded. -/
theorem UringSockets.record (hS : UringSockets c)
    (hfresh : ∀ sqe ∈ c.sq, ∀ io', sqe.data = .op io' → io'.self ≠ io.self) :
    UringSockets (c.record io) := by
  refine hS.keeps ?_ (fun sqe hmem hs io' call fd len hdata hreq => ?_) rfl rfl
  · exact ⟨hS.faithful.table, hS.faithful.calls⟩
  · exact (hs io' call fd len hdata hreq).submitted (hfresh sqe hmem io' hdata) _

/-- At its submission an operation is served by the descriptor of its id. -/
theorem UringSockets.serves_record (hS : UringSockets c) (hfd : c.sockets.get? io.op.id = some fd) :
    Serves id (c.record io).view fd io := by
  have hs : Serves id
      ⟨c.sockets, c.env.submitted io.self ((c.sockets.get? io.op.id).map id)⟩ fd io :=
    hS.faithful.serves_submitted hfd
  rwa [Option.map_id] at hs

theorem submit_sockets {req : UringRequest} (hS : UringSockets c)
    (hfresh : ∀ sqe ∈ c.sq, ∀ io', sqe.data = .op io' → io'.self ≠ io.self)
    (h : c.submit io req = .ok (c', fs, r)) : UringSockets c' := by
  cases (submit_cases h).1 with
  | @socket n call fd len hn hn' hfd hcall =>
    obtain ⟨hS₁, hkeep⟩ := (hS.record hfresh).consume n
    refine (UringSockets.counters hS₁ _ _).prep ?_ hcall
    intro io' call' fd' len' hdata hreq
    cases hdata
    cases hreq
    exact hkeep fd io (hS.serves_record hfd)
  | @timer n time ts hn hn' hop =>
    have hS₁ : UringSockets (c.prep (.op io) (.timeout ts.1 ts.2)) :=
      hS.prep (fun _ _ _ _ _ hreq => by cases hreq) (by simp [Completion.isAccept, hop]; rfl)
    exact (hS₁.consume n).1.same rfl rfl rfl rfl

theorem cancel_sockets {flush : List ℤ} (hS : UringSockets c)
    (h : c.cancel io flush = .ok (c', fs)) : UringSockets c' := by
  obtain ⟨-, n, -, -, rfl⟩ := cancel_eq_ok h
  refine (UringSockets.counters (hS.consume n).1 _ _).prep (fun io' _ _ _ hdata => ?_) rfl
  cases hdata

theorem runOne_sockets {submitted waited : ℤ} {posts : List Post} (hS : UringSockets c)
    (h : c.runOne submitted posts waited = .ok (c', fs, n)) : UringSockets c' := by
  cases runOne_cases h with
  | task ht =>
    obtain ⟨t, tasks, -, rfl, -⟩ := processTask_eq_some ht
    exact hS.same rfl rfl rfl rfl
  | @idle k _ _ _ hpost _ =>
    refine UringSockets.postAll ?_ hpost
    exact (hS.consume k).1.same rfl rfl rfl rfl
  | @completed k c₁ c₂ _ waited cqe _ r _ _ hpost _ hwait hwork =>
    refine UringSockets.completed (UringSockets.postAll ?_ hpost) hwait hwork
    exact (hS.consume k).1.same rfl rfl rfl rfl

/-- The steps in which no socket is released while an entry for it has not been consumed, and a
native handle given to the context is open and not one of its sockets already. -/
def Unconsumed (m : Machine UringContext Empty) : Label UringRequest (List ℤ) UringCall → Prop
  | .call (.release id _) => ∀ sqe ∈ m.ctx.sq, ∀ io call fd len, sqe.data = .op io →
      sqe.request = .socket call fd len → io.op.id ≠ id
  | .call (.makeSocketNative fd) => m.ctx.env.os.IsOpen fd ∧
      (∀ id fd', m.ctx.sockets.get? id = some fd' → fd' ≠ fd) ∧ fd ∉ m.ctx.accepted
  | _ => True

theorem call_sockets {m : Machine UringContext Empty} {k : UringCall} (hS : UringSockets m.ctx)
    (hguard : Unconsumed m (.call k)) (h : uringBase.call m.ctx k = .ok (c', fs)) :
    UringSockets c' := by
  cases call_eq_ok h with
  | runOne hrun => exact runOne_sockets hS hrun
  | post hpost => exact hS.post hpost
  | schedule t => exact hS.same rfl rfl rfl rfl
  | makeSocket hmake =>
    rcases makeSocket_eq_ok hmake with rfl | ⟨fd, os, sockets, hos, hins, rfl⟩
    · exact hS
    · obtain ⟨hF, hkeep⟩ := hS.faithful.opened hos
      obtain ⟨hF', hkeep'⟩ := hF.insert (r := fd) hins
      exact hS.keeps hF' (fun _ _ h => Keeps.served (hkeep.trans hkeep') h) rfl rfl
  | @makeSocketNative fd _ _ hmake =>
    obtain ⟨sockets, hins, rfl⟩ := makeSocketNative_eq_ok hmake
    obtain ⟨hopen, hlive, hwait⟩ := hguard
    have hF : Faithful id m.ctx.view (fd :: m.ctx.accepted) :=
      ⟨hS.faithful.table.arrive hopen hlive hwait, hS.faithful.calls⟩
    obtain ⟨hF', hkeep⟩ := hF.insert (r := fd) hins
    exact hS.keeps hF' (fun _ _ h => Keeps.served hkeep h) rfl rfl
  | release hrel =>
    obtain ⟨fd, hfd, rfl⟩ := release_eq_ok hrel
    obtain ⟨hF, hkeep⟩ := hS.faithful.release hfd
    refine hS.keeps hF (fun sqe hmem hs io call fd' len hdata hreq => ?_) rfl rfl
    exact hkeep fd' io (hguard sqe hmem io call fd' len hdata hreq) (hs io call fd' len hdata hreq)

theorem uringSockets_initial (os : Os) : UringSockets (initial os) where
  faithful := ⟨.empty _ os, fun _ hc => by cases hc⟩
  served _ hmem := by cases hmem
  accepts _ hmem := by rcases hmem with hmem | hmem <;> cases hmem

/-- **Runs without such releases** keep every operation on its socket. -/
theorem uringSockets_of_runs {os : Os} {m : Machine UringContext Empty}
    (h : Runs uringBase Unconsumed (initial os) m) : UringSockets m.ctx := by
  refine Reaches.invariant₂ (I := fun m => UringSockets m.ctx)
    (J := fun m => uringLedger.Sound False False m ∧ ∀ o, (m.ops o).upstream = {}) h
    (fun m hm => ⟨(uringLedger_fresh os).sound (hm.mono fun m l _ => Ledger.guard_free m l trivial),
      Runs.never_started hm⟩) (uringSockets_initial os) fun m l m' hJ hS hguard hstep => ?_
  have hctx := ctx_of_step hJ.2 hstep
  generalize m'.ctx = c' at hctx ⊢
  cases hctx with
  | same => exact hS
  | @submit io req a c fs r hlog hsub =>
    refine submit_sockets hS (fun sqe hmem io' hdata hself => ?_) hsub
    have hzero := (hJ.1.phase (status_of_step hstep) io.self).idle_of_log hlog
    have hpos : 0 < m.ctx.held io.self := List.countP_pos_iff.2 ⟨.op io',
      List.mem_append_left _ (List.mem_append_left _ (hdata ▸ List.mem_map_of_mem hmem)),
      by simpa [Completion.isOp] using hself⟩
    have hheld : m.ctx.held io.self = 0 := hzero.2.1
    omega
  | cancel l hcancel => exact cancel_sockets hS hcancel
  | call hcall => exact call_sockets hS hguard hcall

end UringContext

end Net29
