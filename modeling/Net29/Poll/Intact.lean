import Net29.Poll.Holders

/-!
# The socket table of `poll_context` in runs

* `TableStep`: how a step changes the table and the descriptors;
* `freeList_of_runs`: the free list is intact in every run;
* `Intact`, `NativeOpen`: the live records have distinct open descriptors while the native handles
  given to the context are open and not its own.
-/

namespace Net29

open Machine Transition

namespace PollContext

variable {c c' : PollContext} {fs : List (Frame Empty)} {id : SocketId} {os : Os}
  {ok : Machine PollContext Empty → Label Answers Unit PollCall → Prop}
  {m m' : Machine PollContext Empty} {l : Label Answers Unit PollCall}

/-! ### Steps -/

/-- A native handle was given a record. -/
def Given (c c' : PollContext) (fd : Fd) (id : SocketId) : Prop :=
  c.sockets.insert { handle := fd } = .ok (c'.sockets, id) ∧ c'.env.os = c.env.os

/-- How a step changes the table and the descriptors. -/
inductive TableStep (c : PollContext) : Label Answers Unit PollCall → PollContext → Prop
  | same (l : Label Answers Unit PollCall) {c' : PollContext} (h : SameSockets c c') :
      TableStep c l c'
  | made (l : Label Answers Unit PollCall) {c' : PollContext} {id : SocketId} (h : Made c c' id) :
      TableStep c l c'
  | given {c' : PollContext} {fd : Fd} {id : SocketId} (h : Given c c' fd id) :
      TableStep c (.call (.makeSocketNative fd)) c'
  | released (l : Label Answers Unit PollCall) {c' : PollContext} {id : SocketId}
      (h : Released c c' id) : TableStep c l c'

theorem tableStep_of_call {k : PollCall} (h : pollBase.call c k = .ok (c', fs)) :
    TableStep c (.call k) c' := by
  cases call_eq_ok h with
  | runOne hrun =>
    cases runOne_handles hrun with
    | same hsame => exact .same _ hsame
    | accepted _ _ hmade => exact .made _ hmade
  | schedule t => exact .same _ ⟨rfl, rfl⟩
  | makeSocket hmake =>
    rcases makeSocket_eq_ok hmake with ⟨rfl, -⟩ | ⟨hmade, -⟩
    · exact .same _ (.refl _)
    · exact .made _ hmade
  | makeSocketNative hmake =>
    obtain ⟨sockets, hins, rfl⟩ := makeSocketNative_eq_ok hmake
    exact .given ⟨hins, rfl⟩
  | release hrel => exact .released _ (release_eq_ok hrel)

theorem tableStep_of_runs (h : Runs pollBase ok (initial os) m)
    (hstep : m.step pollBase l = some m') : TableStep m.ctx l m'.ctx := by
  have hctx := ctx_of_step (Runs.never_started h) hstep
  generalize m'.ctx = c' at hctx ⊢
  cases hctx with
  | same => exact .same _ (.refl _)
  | submit hlog hsub => exact .same _ (submit_sameSockets (pollInv_of_runs h).blocking hsub)
  | @cancel _ io a c fs hcancel => exact .same _ (cancel_sameSockets (u := a) hcancel)
  | call hcall => exact tableStep_of_call hcall

/-- What every change of the table preserves, every run preserves. -/
theorem Runs.table {I : PollContext → Prop} (h : Runs pollBase ok (initial os) m)
    (h0 : I (initial os))
    (hI : ∀ m l c', ok m l → I m.ctx → TableStep m.ctx l c' → I c') : I m.ctx :=
  Reaches.invariant₂ (I := fun m => I m.ctx) (J := Runs pollBase ok (initial os)) h
    (fun _ hm => hm) h0 fun m l _ hm hi hguard hstep =>
      hI m l _ hguard hi (tableStep_of_runs hm hstep)

/-! ### The free list -/

/-- **The free list is intact** in every run. -/
theorem freeList_of_runs (h : Runs pollBase ok (initial os) m) : ∃ l, m.ctx.sockets.FreeList l := by
  refine Runs.table (I := fun c => ∃ l, c.sockets.FreeList l) h ⟨[], .empty⟩
    fun m l c' _ hfree hstep => ?_
  obtain ⟨l, hl⟩ := hfree
  cases hstep with
  | same _ hsame => exact ⟨l, hsame.1 ▸ hl⟩
  | made _ hmade =>
    obtain ⟨fd, os, -, hins, -⟩ := hmade
    exact ⟨l.tail, hl.insert hins⟩
  | given hgiven => exact ⟨l.tail, hl.insert hgiven.1⟩
  | released _ hrel =>
    obtain ⟨rec, hrec, hsockets, -⟩ := hrel
    exact ⟨_ :: l, hsockets ▸ hl.erase hrec⟩

/-! ### The descriptors -/

/-- The steps in which a native handle given to the context is open and not one of its sockets
already. -/
def NativeOpen (m : Machine PollContext Empty) : Label Answers Unit PollCall → Prop
  | .call (.makeSocketNative fd) =>
      m.ctx.env.os.IsOpen fd ∧ ∀ id rec, m.ctx.sockets.get? id = some rec → rec.handle ≠ fd
  | _ => True

/-- The live records have distinct open descriptors. -/
def Intact (c : PollContext) : Prop := Table PollRecord.handle c.sockets c.env.os []

theorem intact_initial (os : Os) : Intact (initial os) := Table.empty _ os

theorem Intact.made (h : Intact c) (hmade : Made c c' id) : Intact c' := by
  obtain ⟨fd, os, hopen, hins, hos⟩ := hmade
  unfold Intact
  rw [hos]
  exact (h.opened hopen).insert (r := PollRecord.mk fd true) hins

/-- No id is the greatest value of its type. -/
theorem Intact.invalid (h : Intact c) : c.sockets.get? SocketId.invalid = none := by
  by_contra hne
  obtain ⟨rec, hrec⟩ := Option.ne_none_iff_exists'.1 hne
  have hlt := c.sockets.lt_of_get? hrec
  have hsize := h.size
  simp only [SocketId.invalid] at hlt
  omega

/-- **The table stays intact** in such runs. -/
theorem intact_of_runs (h : Runs pollBase NativeOpen (initial os) m) : Intact m.ctx := by
  refine Runs.table h (intact_initial os) fun m l c' hguard hT hstep => ?_
  cases hstep with
  | same _ hsame =>
    unfold Intact
    rw [hsame.1, hsame.2]
    exact hT
  | made _ hmade => exact hT.made hmade
  | @given _ fd _ hgiven =>
    unfold Intact
    rw [hgiven.2]
    exact (hT.arrive hguard.1 hguard.2 (by simp)).insert (r := PollRecord.mk fd true) hgiven.1
  | released _ hrel =>
    obtain ⟨rec, hrec, hsockets, hos⟩ := hrel
    unfold Intact
    rw [hsockets, hos]
    exact hT.release hrec

end PollContext

end Net29
