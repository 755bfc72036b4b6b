import Net29.Poll.Ledger
import Net29.Sockets

/-!
# The sockets of `poll_context`

The descriptor of an operation is looked up when it is queued and again when its work function runs.
`release` does not look at the queue.

* `PollSockets`: every call was made on the right socket, and every operation in `outstanding` has a
  live id whose descriptor is the one in the same place of `poll`;
* `Unreleased`: no socket is released while an operation waits on it;
* `pollSockets_of_runs`: such steps keep the invariant.
-/

namespace Net29

open Machine Transition

namespace PollContext

variable {c c' c₁ : PollContext} {io : IoBase} {fs : List (Frame Empty)} {r : SubmitResult}
  {R R' : Fd → BitVec 16 → IoBase → Prop} {fd : Fd}

/-- The socket table of the context. -/
def view (c : PollContext) : SocketView PollRecord := ⟨c.sockets, c.env⟩

/-- The invariant of the sockets. -/
structure PollSockets (c : PollContext) : Prop where
  faithful : Faithful PollRecord.handle c.view []
  served : Matches (fun fd _ io => Serves PollRecord.handle c.view fd io) c

theorem Matches.imp (h : Matches R c)
    (himp : ∀ fd events io, io ∈ c.outstanding → R fd events io → R' fd events io) :
    Matches R' c := by
  have hzip := List.forall₂_iff_zip.1 h
  exact List.forall₂_iff_zip.2 ⟨hzip.1, fun hmem =>
    himp _ _ _ (List.of_mem_zip hmem).2 (hzip.2 hmem)⟩

theorem opens_sockets (h : Opens c c') (hF : Faithful PollRecord.handle c.view []) :
    Faithful PollRecord.handle c'.view [] ∧ Keeps PollRecord.handle c.view c'.view := by
  cases h with
  | @mk fd os sockets id hopen hins =>
    obtain ⟨hopened, hkeep⟩ := hF.opened hopen
    obtain ⟨hinserted, hkeep'⟩ := hopened.insert (r := PollRecord.mk fd true) hins
    exact ⟨hinserted, hkeep.trans hkeep'⟩

/-- What is done on behalf of an operation is done on its socket. -/
theorem acts_sockets (h : Acts io c c') (hF : Faithful PollRecord.handle c.view [])
    (hs : Serves PollRecord.handle c.view fd io) :
    Faithful PollRecord.handle c'.view [] ∧ Keeps PollRecord.handle c.view c'.view := by
  refine h.induct (P := fun c' => Faithful PollRecord.handle c'.view [] ∧
    Keeps PollRecord.handle c.view c'.view) ⟨hF, .refl _⟩ fun {c₁ c₂} hP hact => ?_
  obtain ⟨hF₁, hkeep⟩ := hP
  cases hact with
  | @log n call fd' len hfd =>
    obtain ⟨rec, hrec, hhandle⟩ := nativeHandle_eq_ok hfd
    have hs₁ : Serves PollRecord.handle c₁.view fd io := hkeep fd io hs
    obtain rfl : fd' = fd := hhandle.symm.trans (hs₁.unique hrec)
    exact ⟨hF₁.logCalls hs₁ n call len, hkeep⟩
  | opens hopens =>
    obtain ⟨hF₂, hkeep'⟩ := opens_sockets hopens hF₁
    exact ⟨hF₂, hkeep.trans hkeep'⟩

/-- Calls that leave the queues alone. -/
theorem PollSockets.worked (hS : PollSockets c) (hw : Worked c c')
    (h : Faithful PollRecord.handle c'.view [] ∧ Keeps PollRecord.handle c.view c'.view) :
    PollSockets c' :=
  ⟨h.1, (hw.matches hS.served).imp fun fd _ io _ => h.2 fd io⟩

/-- Calls that leave the table and the system alone. -/
theorem PollSockets.same (hS : PollSockets c) (hview : c'.view = c.view)
    (hentries : c'.entries = c.entries) (houtstanding : c'.outstanding = c.outstanding) :
    PollSockets c' := by
  refine ⟨hview ▸ hS.faithful, ?_⟩
  unfold Matches
  rw [hentries, houtstanding, hview]
  exact hS.served

theorem PollSockets.waited (hS : PollSockets c) (hw : Waited c c') : PollSockets c' := by
  refine hS.same ?_ hw.entries hw.outstanding
  rw [view, hw.sockets, hw.env, view]

theorem PollSockets.removeOutstanding (hS : PollSockets c) (i : ℕ) :
    PollSockets (c.removeOutstanding i) := by
  have hview : (c.removeOutstanding i).view = c.view := by simp [view]
  refine ⟨hview ▸ hS.faithful, ?_⟩
  rw [hview]
  exact hS.served.removeOutstanding i

/-- The submission of an operation that is not in the queue is recorded. -/
theorem PollSockets.record (hS : PollSockets c)
    (hfresh : ∀ io' ∈ c.outstanding, io'.self ≠ io.self) : PollSockets (c.record io) :=
  ⟨hS.faithful.submitted io, hS.served.imp fun _ _ _ hmem hs => hs.submitted (hfresh _ hmem) _⟩

theorem submit_sockets {req : Answers} (hS : PollSockets c) (hb : AllBlocking c)
    (hfresh : ∀ io' ∈ c.outstanding, io'.self ≠ io.self)
    (hsub : c.submit io req = .ok (c', fs, r)) : PollSockets c' := by
  have hR := hS.record hfresh
  have hacts : ∀ {c₁ : PollContext} {rec : PollRecord}, c.sockets.get? io.op.id = some rec →
      Acts io (c.record io) c₁ → PollSockets c₁ ∧
        Keeps PollRecord.handle (c.record io).view c₁.view := by
    intro c₁ rec hrec hacts
    have hact := acts_sockets hacts hR.faithful (hS.faithful.serves_submitted hrec)
    exact ⟨hR.worked hacts.worked hact, hact.2⟩
  cases submit_cases hb hsub with
  | timer => exact hS.same rfl rfl rfl
  | due => exact hS
  | connected _ hrec h => exact (hacts hrec h).1
  | failed _ hrec h => exact (hacts hrec h).1
  | @queued c₁ rec rec' hrec h hrec' =>
    obtain ⟨hS₁, hkeep⟩ := hacts hrec h
    have hs := hkeep _ io (hS.faithful.serves_submitted hrec)
    refine ⟨hS₁.faithful, ?_⟩
    show Matches (fun fd _ io => Serves PollRecord.handle c₁.view fd io) _
    exact hS₁.served.emplaceBack (by rw [hs.unique hrec']; exact hs)

theorem runOne_sockets {now : Time} {answers : List PollAnswer} {n : ℕ} (hS : PollSockets c)
    (h : c.runOne now answers = .ok (c', fs, n)) : PollSockets c' := by
  cases runOne_cases h with
  | timer hw ht =>
    obtain ⟨io, timeouts, -, -, rfl, -⟩ := processTimeout_eq_some ht
    exact (hS.waited hw).same rfl rfl rfl
  | task ht =>
    obtain ⟨t, tasks, -, rfl, -⟩ := processTask_eq_some ht
    exact hS.same rfl rfl rfl
  | idle hw => exact hS.waited hw
  | @dispatched c₁ _ _ i sys io _ _ _ hwait hio hwork =>
    have hS₁ := hS.waited (wait_spec hwait).1
    have hlt : i < c₁.poll.length := by
      rw [hS₁.served.length]
      exact (List.getElem?_eq_some_iff.1 hio).1
    have hs := hS₁.served.get (List.getElem?_eq_getElem hlt) hio
    have hS₂ := hS₁.removeOutstanding i
    have hview : (c₁.removeOutstanding i).view = c₁.view := by simp [view]
    have hacts := (work_spec hwork).1
    exact hS₂.worked hacts.worked (acts_sockets hacts hS₂.faithful (hview ▸ hs))

/-- The steps in which no socket is released while an operation waits on it, and a native handle
given to the context is open and not one of its sockets already. -/
def Unreleased (m : Machine PollContext Empty) : Label Answers Unit PollCall → Prop
  | .call (.release id _) => ∀ io ∈ m.ctx.outstanding, io.op.id ≠ id
  | .call (.makeSocketNative fd) =>
      m.ctx.env.os.IsOpen fd ∧ ∀ id rec, m.ctx.sockets.get? id = some rec → rec.handle ≠ fd
  | _ => True

theorem call_sockets {m : Machine PollContext Empty} {k : PollCall} (hS : PollSockets m.ctx)
    (hguard : Unreleased m (.call k)) (h : pollBase.call m.ctx k = .ok (c', fs)) :
    PollSockets c' := by
  cases call_eq_ok h with
  | runOne hrun => exact runOne_sockets hS hrun
  | schedule t => exact hS.same rfl rfl rfl
  | makeSocket hmake =>
    rcases makeSocket_spec hmake with rfl | hopens
    · exact hS
    · exact hS.worked hopens.worked (opens_sockets hopens hS.faithful)
  | @makeSocketNative fd _ _ hmake =>
    obtain ⟨sockets, hins, rfl⟩ := makeSocketNative_eq_ok hmake
    have hF : Faithful PollRecord.handle m.ctx.view [fd] :=
      ⟨hS.faithful.table.arrive hguard.1 hguard.2 (by simp), hS.faithful.calls⟩
    exact hS.worked (worked_insert hins) (hF.insert (r := PollRecord.mk fd true) hins)
  | release hrel =>
    have hw := release_spec hrel
    obtain ⟨fd, hfd, hrel⟩ := Exec.bind_eq_ok.1 hrel
    obtain ⟨rec, hrec, rfl⟩ := nativeHandle_eq_ok hfd
    cases hrel
    obtain ⟨hF, hkeep⟩ := hS.faithful.release hrec
    exact ⟨hF, (hw.matches hS.served).imp fun fd _ io hmem => hkeep fd io (hguard io hmem)⟩

theorem pollSockets_initial (os : Os) : PollSockets (initial os) :=
  ⟨⟨.empty _ os, fun _ hc => by cases hc⟩, .nil⟩

/-- **Runs without such releases** keep every operation on its socket. -/
theorem pollSockets_of_runs {os : Os} {m : Machine PollContext Empty}
    (h : Runs pollBase Unreleased (initial os) m) : PollSockets m.ctx := by
  refine Reaches.invariant₂ (I := fun m => PollSockets m.ctx)
    (J := fun m => pollLedger.Sound False False m ∧ ∀ o, (m.ops o).upstream = {}) h
    (fun m hm => ⟨(pollLedger_fresh os).sound (hm.mono fun m l _ => Ledger.guard_free m l trivial),
      Runs.never_started hm⟩) (pollSockets_initial os) fun m l m' hJ hS hguard hstep => ?_
  have hI : PollInv m.ctx := hJ.1.inv
  have hctx := ctx_of_step hJ.2 hstep
  generalize m'.ctx = c' at hctx ⊢
  cases hctx with
  | same => exact hS
  | @submit io req a c fs r hlog hsub =>
    refine submit_sockets hS hI.blocking (fun io' hio' hself => ?_) hsub
    -- an operation that was not started is owed nothing, so it is not in the queue
    have hzero := (hJ.1.phase (status_of_step hstep) io.self).idle_of_log hlog
    have hpos : 0 < occurrences m.ctx.outstanding io.self := occurrences_pos.2 ⟨io', hio', hself⟩
    have hheld : occurrences m.ctx.outstanding io.self + _ = 0 := hzero.2.1
    omega
  | @cancel _ io a c fs hcancel =>
    cases (cancel_cases (u := a) hcancel).1 with
    | outstanding => exact hS.removeOutstanding _
    | timer => exact hS.same rfl rfl rfl
  | call hcall => exact call_sockets hS hguard hcall

end PollContext

end Net29
