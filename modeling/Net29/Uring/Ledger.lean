import Net29.Uring.Queues

/-!
# What `uring_context` owes

Every completion pointer in the ring stands for one call: of the operation, or of the
`cancel_callback`. The context never drops an operation and never completes one before `submit`
returns.

* `UringInv`: the two counters are the numbers of entries;
* `uringLedger`: the debts and how every call moves them.
-/

namespace Net29

namespace UringContext

variable {c c' : UringContext} {io : IoBase} {o : OpId} {n : ℕ} {fs : List (Frame Empty)}
  {r : SubmitResult} {cqe : Cqe} {req : UringRequest} {data : Completion} {request : SqeRequest}

/-- The invariant of the context: `submitting` counts the entries not yet consumed, `outstanding`
the completions to come. -/
structure UringInv (c : UringContext) : Prop where
  submitting : c.submitting = c.sq.length
  outstanding : c.outstanding = c.pointers.length

/-- How many completions of the operation are to come. -/
def held (c : UringContext) (o : OpId) : ℕ := c.pointers.countP (Completion.isOp o)

/-- How many completions of cancel requests of the operation are to come. -/
def asked (c : UringContext) (o : OpId) : ℕ := c.pointers.countP (Completion.isCancelOp o)

/-! ### Pointers -/

theorem pointers_consume (n : ℕ) : (c.consume n).pointers.Perm c.pointers := by
  have hsq : (c.sq.take n ++ c.sq.drop n).map Sqe.data = c.sq.map Sqe.data := by
    rw [List.take_append_drop]
  unfold pointers consume
  rw [← hsq]
  simp only [List.map_append]
  refine List.Perm.append_right _ ?_
  refine List.perm_append_comm.trans ?_
  rw [List.append_assoc, List.append_assoc]
  exact List.perm_append_comm.trans (by rw [List.append_assoc])

theorem pointers_prep : (c.prep data request).pointers.Perm (data :: c.pointers) := by
  unfold pointers prep
  simp only [List.map_append, List.map_cons, List.map_nil, List.append_assoc, List.singleton_append]
  exact List.perm_middle

theorem pointers_post {p : Post} (h : c.post p = .ok c') : c'.pointers.Perm c.pointers := by
  obtain ⟨sqe, os, hsqe, -, rfl⟩ := post_eq_ok h
  obtain ⟨hlt, hget⟩ := List.getElem?_eq_some_iff.1 hsqe
  have hperm : (sqe :: c.inflight.eraseIdx p.index).Perm c.inflight :=
    hget ▸ List.getElem_cons_eraseIdx_perm hlt
  have hmap := hperm.map Sqe.data
  unfold pointers
  simp only [List.map_append, List.map_cons, List.map_nil, List.append_assoc]
  refine List.Perm.append_left _ ?_
  rw [← List.append_assoc]
  refine (List.perm_append_singleton _ _).trans ?_
  exact hmap.append_right _

theorem pointers_wait {k : ℤ} (h : c.wait k = .ok (c', cqe)) :
    c.pointers.Perm (cqe.data :: c'.pointers) := by
  obtain ⟨-, cq, hcq, rfl⟩ := wait_eq_ok h
  unfold pointers
  rw [hcq]
  exact List.perm_middle

theorem held_perm (h : c'.pointers.Perm c.pointers) : c'.held o = c.held o := h.countP_eq _

theorem asked_perm (h : c'.pointers.Perm c.pointers) : c'.asked o = c.asked o := h.countP_eq _

theorem held_cons (h : c'.pointers.Perm (data :: c.pointers)) :
    c'.held o = c.held o + if data.isOp o then 1 else 0 := by
  rw [held, h.countP_eq, List.countP_cons, held]

theorem asked_cons (h : c'.pointers.Perm (data :: c.pointers)) :
    c'.asked o = c.asked o + if data.isCancelOp o then 1 else 0 := by
  rw [asked, h.countP_eq, List.countP_cons, asked]

/-! ### The counters -/

theorem UringInv.consume (hI : UringInv c) (n : ℕ) :
    UringInv { c.consume n with submitting := c.submitting - n } where
  submitting := by
    show c.submitting - n = (c.sq.drop n).length
    rw [List.length_drop, hI.submitting]
  outstanding := hI.outstanding.trans (pointers_consume n).length_eq.symm

theorem UringInv.queued (hI : UringInv c) (n : ℕ) :
    UringInv (prep { c.consume n with
      submitting := c.submitting - n + 1, outstanding := c.outstanding + 1 } data request) where
  submitting := by
    show c.submitting - n + 1 = (c.sq.drop n ++ [_]).length
    rw [List.length_append, List.length_drop, List.length_singleton, hI.submitting]
  outstanding := by
    refine Eq.trans ?_ pointers_prep.length_eq.symm
    show c.outstanding + 1 = (c.consume n).pointers.length + 1
    rw [hI.outstanding, (pointers_consume n).length_eq]

/-- An operation becomes one pointer more. -/
theorem submittedAs_spec (hI : UringInv c) (h : SubmittedAs c io c') :
    UringInv c' ∧ c'.pointers.Perm (.op io :: c.pointers) := by
  cases h with
  | socket hn hn' hfd hcall =>
    have hI₀ : UringInv (c.record io) := ⟨hI.submitting, hI.outstanding⟩
    refine ⟨hI₀.queued _, pointers_prep.trans (List.Perm.cons _ ?_)⟩
    exact pointers_consume (c := c.record io) _
  | @timer n time ts hn hn' hop =>
    have hperm :=
      (pointers_consume (c := c.prep (.op io) (.timeout ts.1 ts.2)) n).trans pointers_prep
    refine ⟨⟨?_, ?_⟩, hperm⟩
    · show c.submitting + 1 - n = ((c.sq ++ [_]).drop n).length
      rw [List.length_drop, List.length_append, List.length_singleton, hI.submitting]
    · show c.outstanding + 1 = _
      rw [hI.outstanding]
      exact hperm.length_eq.symm

/-- A cancel request becomes one pointer more. -/
theorem cancel_spec {flush : List ℤ} (hI : UringInv c) (h : c.cancel io flush = .ok (c', fs)) :
    fs = [] ∧ UringInv c' ∧ c'.pointers.Perm (.cancelOp io.self :: c.pointers) := by
  obtain ⟨rfl, n, -, -, rfl⟩ := cancel_eq_ok h
  exact ⟨rfl, hI.queued n, pointers_prep.trans ((pointers_consume (c := c) n).cons _)⟩

theorem post_spec {p : Post} (hI : UringInv c) (h : c.post p = .ok c') :
    UringInv c' ∧ c'.pointers.Perm c.pointers := by
  have hperm := pointers_post h
  obtain ⟨sqe, os, -, -, rfl⟩ := post_eq_ok h
  exact ⟨⟨hI.submitting, hI.outstanding.trans hperm.length_eq.symm⟩, hperm⟩

theorem postAll_spec {ps : List Post} (hI : UringInv c) (h : c.postAll ps = .ok c') :
    UringInv c' ∧ c'.pointers.Perm c.pointers :=
  postAll_induct (P := fun c' => UringInv c' ∧ c'.pointers.Perm c.pointers)
    (fun hP hp => ⟨(post_spec hP.1 hp).1, (post_spec hP.1 hp).2.trans hP.2⟩) ⟨hI, .refl _⟩ h

theorem wait_spec {k : ℤ} (hI : UringInv c) (h : c.wait k = .ok (c', cqe)) :
    UringInv c' ∧ c.pointers.Perm (cqe.data :: c'.pointers) := by
  have hperm := pointers_wait h
  obtain ⟨-, cq, -, rfl⟩ := wait_eq_ok h
  refine ⟨⟨hI.submitting, ?_⟩, hperm⟩
  show c.outstanding - 1 = _
  rw [hI.outstanding, hperm.length_eq]
  rfl

theorem work_same (h : c.work cqe = .ok (c', fs, r)) (hI : UringInv c) :
    UringInv c' ∧ c'.pointers = c.pointers := by
  rcases (work_spec h).2 with rfl | ⟨io, id, addrlen, sockets, id', -, -, -, -, rfl, -⟩
  · exact ⟨hI, rfl⟩
  · exact ⟨⟨hI.submitting, hI.outstanding⟩, rfl⟩

/-- What a completion that was read means for an operation. -/
theorem moved_of_frames {drops : Prop} (hperm : c.pointers.Perm (cqe.data :: c'.pointers))
    (h : WorkFrames cqe fs) (o : OpId) :
    Moved drops (c.held o) (c'.held o) (c.asked o) (c'.asked o) o fs := by
  rw [held_cons hperm, asked_cons hperm]
  cases h with
  | notified io f hdata hf =>
    rw [hdata]
    by_cases ho : io.self = o
    · subst ho
      simpa [Completion.isOp, Completion.isCancelOp] using
        (.notified f [] hf (by simp [Silent]) rfl rfl : Moved drops _ _ _ _ _ _)
    · have hs : Silent o [f] := by cases hf <;> simpa [Silent, Frame.target] using ho
      simpa [Completion.isOp, Completion.isCancelOp, ho] using
        (.silent [f] hs rfl (.inl rfl) : Moved drops _ _ _ _ _ _)
  | answered o' hdata =>
    rw [hdata]
    by_cases ho : o' = o
    · subst ho
      simpa [Completion.isOp, Completion.isCancelOp] using
        (.answered [] (by simp [Silent]) rfl rfl : Moved drops _ _ _ _ _ _)
    · have hs : Silent o [(.cancelOp o' : Frame Empty)] := by simpa [Silent, Frame.target] using ho
      simpa [Completion.isOp, Completion.isCancelOp, ho] using
        (.silent [_] hs rfl (.inl rfl) : Moved drops _ _ _ _ _ _)

theorem moved_of_perm {drops : Prop} (hperm : c'.pointers.Perm c.pointers) (hs : Silent o fs) :
    Moved drops (c.held o) (c'.held o) (c.asked o) (c'.asked o) o fs :=
  .silent fs hs (asked_perm hperm) (.inl (held_perm hperm))

theorem runOne_spec {submitted waited : ℤ} {posts : List Post} (hI : UringInv c)
    (h : c.runOne submitted posts waited = .ok (c', fs, n)) :
    UringInv c' ∧ ∀ o, Moved False (c.held o) (c'.held o) (c.asked o) (c'.asked o) o fs := by
  cases runOne_cases h with
  | task ht =>
    obtain ⟨t, tasks, -, rfl, rfl⟩ := processTask_eq_some ht
    exact ⟨⟨hI.submitting, hI.outstanding⟩, fun o =>
      moved_of_perm (.refl _) (by simp [Silent, Frame.target])⟩
  | @idle k _ hn hn' hpost hidle =>
    obtain ⟨hI', hperm⟩ := postAll_spec (hI.consume k) hpost
    exact ⟨hI', fun o => moved_of_perm (hperm.trans (pointers_consume k)) (by simp [Silent])⟩
  | @completed k c₁ c₂ _ waited cqe _ r hn hn' hpost _ hwait hwork =>
    obtain ⟨hI₁, hperm⟩ := postAll_spec (hI.consume k) hpost
    obtain ⟨hI₂, hread⟩ := wait_spec hI₁ hwait
    obtain ⟨hI', hsame⟩ := work_same hwork hI₂
    refine ⟨hI', moved_of_frames ?_ (work_spec hwork).1⟩
    rw [hsame]
    exact (hperm.trans (pointers_consume k)).symm.trans hread

theorem call_spec {k : UringCall} (hI : UringInv c) (h : uringBase.call c k = .ok (c', fs)) :
    UringInv c' ∧ ∀ o, Moved False (c.held o) (c'.held o) (c.asked o) (c'.asked o) o fs := by
  have hsame : UringInv c' → c'.pointers.Perm c.pointers → fs = [] →
      UringInv c' ∧ ∀ o, Moved False (c.held o) (c'.held o) (c.asked o) (c'.asked o) o fs := by
    rintro hI' hperm rfl
    exact ⟨hI', fun o => moved_of_perm hperm (by simp [Silent])⟩
  cases call_eq_ok h with
  | runOne hrun => exact runOne_spec hI hrun
  | post hpost => exact hsame (post_spec hI hpost).1 (post_spec hI hpost).2 rfl
  | schedule t => exact hsame ⟨hI.submitting, hI.outstanding⟩ (.refl _) rfl
  | makeSocket hmake =>
    rcases makeSocket_eq_ok hmake with rfl | ⟨fd, os, sockets, -, -, rfl⟩
    · exact hsame hI (.refl _) rfl
    · exact hsame ⟨hI.submitting, hI.outstanding⟩ (.refl _) rfl
  | makeSocketNative hmake =>
    obtain ⟨sockets, -, rfl⟩ := makeSocketNative_eq_ok hmake
    exact hsame ⟨hI.submitting, hI.outstanding⟩ (.refl _) rfl
  | release hrel =>
    obtain ⟨fd, -, rfl⟩ := release_eq_ok hrel
    exact hsame ⟨hI.submitting, hI.outstanding⟩ (.refl _) rfl

/-- A `uring_context` as it is constructed, in a process with open descriptors. -/
def initial (os : Os) : UringContext := { env := { os := os } }

end UringContext

open UringContext

/-- The debts of a `uring_context`. -/
def uringLedger : Ledger uringBase where
  Inv := UringInv
  held := UringContext.held
  asked := UringContext.asked
  Drops _ _ := False
  Inline _ _ _ := False
  pending_iff c o := by
    show c.pointers.any (Completion.isOp o) = true ↔ _
    rw [UringContext.held, List.countP_pos_iff, List.any_eq_true]
  submit_spec {c c' io req fs r} hI hz h := by
    obtain ⟨hsub, rfl, rfl⟩ := submit_cases h
    obtain ⟨hI', hperm⟩ := submittedAs_spec hI hsub
    refine ⟨hI', ?_, .queued ?_, fun o ho => ⟨?_, ?_, by simp [Silent]⟩⟩
    · rw [asked_cons hperm]; rfl
    · rw [held_cons hperm, hz]; simp [Completion.isOp]
    · rw [held_cons hperm]; simp [Completion.isOp, Ne.symm ho]
    · rw [asked_cons hperm]; rfl
  cancel_spec {c c' io a fs} hI hz h := by
    obtain ⟨rfl, hI', hperm⟩ := UringContext.cancel_spec hI h
    refine ⟨hI', .request ?_ ?_, fun o ho => ⟨?_, ?_, by simp [Silent]⟩⟩
    · rw [held_cons hperm]; rfl
    · rw [asked_cons hperm, hz]; simp [Completion.isCancelOp]
    · rw [held_cons hperm]; rfl
    · rw [asked_cons hperm]; simp [Completion.isCancelOp, Ne.symm ho]
  call_spec := UringContext.call_spec
  tail_spec t := t.elim

theorem uringLedger_fresh (os : Os) : uringLedger.Fresh (UringContext.initial os) where
  inv := UringInv.mk rfl rfl
  held _ := rfl
  asked _ := rfl

end Net29
