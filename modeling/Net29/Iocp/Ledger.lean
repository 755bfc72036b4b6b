import Net29.Iocp.Queues
import Mathlib.Data.List.Perm.Basic

/-!
# What `iocp_context` owes

A request that the system has accepted is owed one call, when its packet arrives, and so is a timer.
A cancel request is answered at once, before the packet of the aborted request. The context never
drops an operation; it completes one before `submit` returns when its deadline has passed.

* `IocpInv`: `outstanding` counts the requests, and the `OVERLAPPED` of each names its operation;
* `iocpLedger`: the debts and how every call moves them.
-/

namespace Net29

namespace IocpContext

variable {c c' : IocpContext} {io : IoBase} {o : OpId} {n : ℕ} {fs : List (Frame StorageId)}
  {r : SubmitResult} {req : Answers}

/-- The invariant of the context. -/
structure IocpInv (c : IocpContext) : Prop where
  count : c.outstanding = c.requests.length
  heap : ∀ {s : StorageId} {data : IocpSocketData}, c.storage s = some data → s < c.allocated
  issued : ∀ {r : Request}, r ∈ c.requests → r.storage < c.allocated
  named : ∀ {r : Request} {data : IocpSocketData}, r ∈ c.requests →
    c.storage r.storage = some data →
    ∃ io, (data r.direction).completion = some io ∧ io.self = r.op

/-- How often the operation is pending. -/
def held (c : IocpContext) (o : OpId) : ℕ :=
  (c.requests.countP fun r => r.op = o) + occurrences c.timeouts o

/-- The deadline has passed. -/
def Inline (io : IoBase) (req : Answers) : Prop :=
  match io.op with
  | .resumeAt time => time ≤ req.now
  | _ => False

/-! ### The storage -/

/-- What no change of the storage or the sockets affects. -/
structure Kept (c c' : IocpContext) : Prop where
  requests : c'.requests = c.requests
  outstanding : c'.outstanding = c.outstanding
  timeouts : c'.timeouts = c.timeouts

theorem Kept.held {c c' : IocpContext} (h : Kept c c') : c'.held o = c.held o := by
  rw [IocpContext.held, h.requests, h.timeouts, IocpContext.held]

/-- A block with an `OVERLAPPED` rewritten that no request uses, or with the operation it names
kept, is as good for the requests as before. -/
theorem IocpInv.update (hI : IocpInv c) {s : StorageId} {d : Direction} {ol : Overlapped}
    {data : IocpSocketData} (hdata : c.storage s = some data)
    (h : ol.completion = (data d).completion ∨
      ∀ r ∈ c.requests, ¬ (r.storage = s ∧ r.direction = d)) :
    IocpInv { c with
      storage := Function.update c.storage s (some (Function.update data d ol)) } where
  count := hI.count
  heap {s' data'} hs := by
    by_cases hss : s' = s
    · subst hss; exact hI.heap hdata
    · exact hI.heap ((Function.update_of_ne hss _ _).symm.trans hs)
  issued := hI.issued
  named {r data'} hr hs := by
    by_cases hss : r.storage = s
    · obtain ⟨io, hio, hself⟩ := hI.named hr (hss ▸ hdata)
      have hs' : data' = Function.update data d ol := by
        have : Function.update c.storage s (some (Function.update data d ol)) r.storage =
            some data' := hs
        rw [hss, Function.update_self] at this
        exact (Option.some.inj this).symm
      refine ⟨io, ?_, hself⟩
      by_cases hd : r.direction = d
      · rw [hs', hd, Function.update_self, h.resolve_right fun hf => hf r hr ⟨hss, hd⟩, ← hd, hio]
      · rw [hs', Function.update_of_ne hd, hio]
    · exact hI.named hr ((Function.update_of_ne hss _ _).symm.trans hs)

/-- A new block is no request's. -/
theorem IocpInv.allocate (hI : IocpInv c) (sockets : Container IocpRecord)
    (history : List SocketEvent) :
    IocpInv { c with
      sockets := sockets
      storage := Function.update c.storage c.allocated (some fun _ => {})
      allocated := c.allocated + 1
      history := history } where
  count := hI.count
  heap {s data} hs := by
    show s < c.allocated + 1
    by_cases hss : s = c.allocated
    · rw [hss]; exact Nat.lt_succ_self _
    · exact Nat.lt_succ_of_lt (hI.heap ((Function.update_of_ne hss _ _).symm.trans hs))
  issued hr := Nat.lt_succ_of_lt (hI.issued hr)
  named {r data} hr hs := by
    have hne : r.storage ≠ c.allocated := Nat.ne_of_lt (hI.issued hr)
    exact hI.named hr ((Function.update_of_ne hne _ _).symm.trans hs)

/-- A block is freed. -/
theorem IocpInv.free (hI : IocpInv c) (s : StorageId) : IocpInv (c.free s) ∧ Kept c (c.free s) := by
  unfold IocpContext.free
  split
  · exact ⟨hI, rfl, rfl, rfl⟩
  · next data hdata =>
    have hfree : IocpInv { c with storage := Function.update c.storage s none } := by
      have hold : ∀ {s' : StorageId} {data : IocpSocketData},
          Function.update c.storage s none s' = some data → c.storage s' = some data := by
        intro s' data hs
        by_cases hss : s' = s
        · rw [hss, Function.update_self] at hs
          cases hs
        · exact (Function.update_of_ne hss _ _).symm.trans hs
      exact ⟨hI.count, fun hs => hI.heap (hold hs), hI.issued, fun hr hs => hI.named hr (hold hs)⟩
    dsimp only
    split
    · exact ⟨⟨hfree.count, hfree.heap, hfree.issued, hfree.named⟩, rfl, rfl, rfl⟩
    · exact ⟨hfree, rfl, rfl, rfl⟩

theorem prepare_spec (hI : IocpInv c) (h : Prepare c c') : IocpInv c' ∧ Kept c c' := by
  cases h with
  | touch h =>
    cases h with
    | os os history => exact ⟨⟨hI.count, hI.heap, hI.issued, hI.named⟩, rfl, rfl, rfl⟩
    | extra extra => exact ⟨⟨hI.count, hI.heap, hI.issued, hI.named⟩, rfl, rfl, rfl⟩
    | write hdata hcomp => exact ⟨hI.update hdata (.inl hcomp), rfl, rfl, rfl⟩
    | makeSocket hins => exact ⟨hI.allocate _ _, rfl, rfl, rfl⟩
  | initialise ol hdata hfree => exact ⟨hI.update hdata (.inr hfree), rfl, rfl, rfl⟩

theorem prepared_spec (hI : IocpInv c) (h : Prepared c c') : IocpInv c' ∧ Kept c c' :=
  h.induct (P := fun c' => IocpInv c' ∧ Kept c c') ⟨hI, rfl, rfl, rfl⟩ fun hP hstep => by
    obtain ⟨hI', hk⟩ := prepare_spec hP.1 hstep
    exact ⟨hI', hk.requests.trans hP.2.requests, hk.outstanding.trans hP.2.outstanding,
      hk.timeouts.trans hP.2.timeouts⟩

/-! ### Submission -/

theorem IocpInv.accepted (hI : IocpInv c) {s : StorageId} {d : Direction} {data : IocpSocketData}
    (hdata : c.storage s = some data) (hcomp : (data d).completion = some io) :
    IocpInv { c with
      requests := c.requests ++ [⟨s, d, io.self⟩], outstanding := c.outstanding + 1 } where
  count := by simp [hI.count]
  heap := hI.heap
  issued {r} hr := by
    rcases List.mem_append.1 hr with hr | hr
    · exact hI.issued hr
    · obtain rfl := List.mem_singleton.1 hr
      exact hI.heap hdata
  named {r data'} hr hs := by
    rcases List.mem_append.1 hr with hr | hr
    · exact hI.named hr hs
    · obtain rfl := List.mem_singleton.1 hr
      obtain rfl : data' = data := Option.some.inj (hs.symm.trans hdata)
      exact ⟨io, hcomp, rfl⟩

theorem held_accepted (h : Kept c c') {s : StorageId} {d : Direction} (o : OpId) :
    held { c' with
      requests := c'.requests ++ [⟨s, d, io.self⟩], outstanding := c'.outstanding + 1 } o =
      c.held o + if io.self = o then 1 else 0 := by
  rw [← h.held]
  simp only [held, List.countP_append, List.countP_cons, List.countP_nil, decide_eq_true_eq]
  omega

theorem submit_spec (hI : IocpInv c) (hz : c.held io.self = 0)
    (h : c.submit io req = .ok (c', fs, r)) :
    IocpInv c' ∧ Submitted (Inline io req) (c'.held io.self) io.self fs r ∧
      ∀ o, o ≠ io.self → c'.held o = c.held o ∧ Silent o fs := by
  have hne : ∀ {o : OpId}, o ≠ io.self → ¬ io.self = o := fun ho => Ne.symm ho
  cases submit_cases h with
  | ready => exact ⟨hI, .ready hz, fun o _ => ⟨rfl, by simp [Silent]⟩⟩
  | timer hop hnow =>
    have hheld : ∀ o, held { c with timeouts := Timers.insert c.timeouts io } o =
        c.held o + if io.self = o then 1 else 0 := fun o => by
      rw [held, held, occurrences_insert, Nat.add_assoc]
    refine ⟨⟨hI.count, hI.heap, hI.issued, hI.named⟩, .queued ?_,
      fun o ho => ⟨?_, by simp [Silent]⟩⟩
    · rw [hheld, if_pos rfl, hz]
    · rw [hheld, if_neg (hne ho), Nat.add_zero]
  | due hop hnow =>
    refine ⟨hI, .complete none (by rw [Inline, hop]; exact hnow) hz, fun o ho => ⟨rfl, ?_⟩⟩
    simpa [Silent, Frame.target] using hne ho
  | failed e hprep =>
    obtain ⟨hI', hk⟩ := prepared_spec hI hprep
    refine ⟨hI', .error e (hk.held.trans hz), fun o ho => ⟨hk.held, ?_⟩⟩
    simpa [Silent, Frame.target] using hne ho
  | accepted hrec hprep hdata hcomp =>
    obtain ⟨hI', hk⟩ := prepared_spec hI hprep
    refine ⟨hI'.accepted hdata hcomp, .queued ?_, fun o ho => ⟨?_, by simp [Silent]⟩⟩
    · rw [held_accepted hk, if_pos rfl, hz]
    · rw [held_accepted hk, if_neg (hne ho), Nat.add_zero]

/-! ### The other calls -/

/-- A request taken off the list is one call less that is owed. -/
theorem held_dequeued {index : ℕ} {r : Request} (hr : c.requests[index]? = some r) :
    c.held o = (c.dequeued index r).held o + if r.op = o then 1 else 0 := by
  obtain ⟨hlt, hget⟩ := List.getElem?_eq_some_iff.1 hr
  have hperm : (r :: c.requests.eraseIdx index).Perm c.requests :=
    hget ▸ List.getElem_cons_eraseIdx_perm hlt
  have hcount := hperm.countP_eq fun r => decide (r.op = o)
  rw [List.countP_cons] at hcount
  simp only [decide_eq_true_eq] at hcount
  simp only [held, dequeued]
  omega

theorem IocpInv.dequeued (hI : IocpInv c) {index : ℕ} {r : Request}
    (hr : c.requests[index]? = some r) : IocpInv (c.dequeued index r) where
  count := by
    obtain ⟨hlt, -⟩ := List.getElem?_eq_some_iff.1 hr
    show c.outstanding - 1 = (c.requests.eraseIdx index).length
    rw [List.length_eraseIdx_of_lt hlt, hI.count]
  heap := hI.heap
  issued hr' := hI.issued (List.mem_of_mem_eraseIdx hr')
  named hr' := hI.named (List.mem_of_mem_eraseIdx hr')

theorem complete_spec {index : ℕ} {result : SysAnswer} {associate : Option Errno} (hI : IocpInv c)
    (h : c.complete index result associate = .ok (c', fs)) :
    IocpInv c' ∧ ∀ o, Moved False (c.held o) (c'.held o) 0 0 o fs := by
  obtain ⟨r, data, io, f, hr, hdata, hio, htouched, hf, rfl⟩ := complete_cases h hI.heap
  obtain ⟨hI', hk⟩ := prepared_spec (hI.dequeued hr) htouched.prepared
  obtain ⟨io', hio', hself⟩ := hI.named (List.mem_of_getElem? hr) hdata
  obtain rfl : io' = io := Option.some.inj (hio'.symm.trans hio)
  refine ⟨hI', fun o => ?_⟩
  have hheld : c.held o = c'.held o + if r.op = o then 1 else 0 := by
    rw [hk.held]
    exact held_dequeued hr
  by_cases ho : r.op = o
  · rw [if_pos ho] at hheld
    rw [hself, ho] at hf
    exact .notified f _ hf (by simp [Silent, Frame.target]) rfl hheld
  · rw [if_neg ho] at hheld
    rw [hself] at hf
    refine .silent _ ?_ rfl (.inl hheld.symm)
    cases hf <;> simpa [Silent, Frame.target] using ho

theorem runOne_spec {now : Time} {answer : Option PortAnswer} (hI : IocpInv c)
    (h : c.runOne now answer = .ok (c', fs, n)) :
    IocpInv c' ∧ ∀ o, Moved False (c.held o) (c'.held o) 0 0 o fs := by
  have hsame : IocpInv c ∧
      ∀ o, Moved False (c.held o) (c.held o) 0 0 o ([] : List (Frame StorageId)) :=
    ⟨hI, fun o => .silent _ (by simp [Silent]) rfl (.inl rfl)⟩
  cases runOne_cases h with
  | timer _ ht =>
    obtain ⟨io, timeouts, hl, -, rfl, rfl⟩ := processTimeout_eq_some ht
    refine ⟨⟨hI.count, hI.heap, hI.issued, hI.named⟩, fun o => ?_⟩
    have hheld : c.held o =
        held { c with timeouts := timeouts } o + if io.self = o then 1 else 0 := by
      simp only [held, hl, occurrences_cons]
      omega
    by_cases ho : io.self = o
    · subst ho
      exact .notified _ [] (.complete _) (by simp [Silent]) rfl (by rw [hheld, if_pos rfl])
    · rw [if_neg ho] at hheld
      exact .silent _ (by simpa [Silent, Frame.target] using ho) rfl (.inl hheld.symm)
  | task ht =>
    obtain ⟨t, tasks, -, rfl, rfl⟩ := processTask_eq_some ht
    exact ⟨⟨hI.count, hI.heap, hI.issued, hI.named⟩, fun o =>
      .silent _ (by simp [Silent, Frame.target]) rfl (.inl rfl)⟩
  | idle => exact hsame
  | early => exact hsame
  | failed => exact hsame
  | stale =>
    exact ⟨⟨hI.count, hI.heap, hI.issued, hI.named⟩, fun o =>
      .silent _ (by simp [Silent]) rfl (.inl rfl)⟩
  | completed _ hcomp => exact complete_spec hI hcomp

theorem makeSocket_cases {a : SysAnswer} {associate : Option Errno} {id : SocketId}
    {e : Option Errno} (h : c.makeSocket a associate = .ok (c', id, e)) : Touched c c' := by
  rcases makeSocket_eq_ok h with rfl | ⟨fd, c₁, hopen, rfl | hmake⟩
  · exact .refl
  · exact .single (touch_opened hopen)
  · obtain ⟨sockets, hins, rfl⟩ := makeSocketNative_eq_ok hmake
    exact (Touched.single (touch_opened hopen)).trans (.single (.makeSocket hins))

/-- `release` keeps the storage or frees it. -/
theorem release_cases {id : SocketId} {a e : Option Errno} (h : c.release id a = .ok (c', e)) :
    ∃ rec c₁, c.sockets.get? id = some rec ∧ c' = c₁.closeSocket rec.handle ∧
      (0 < c.outstanding ∧
        c₁ = { c with sockets := c.sockets.erase id, deferred := rec.io :: c.deferred } ∨
      c.outstanding = 0 ∧ c₁ = free { c with sockets := c.sockets.erase id } rec.io) := by
  obtain ⟨rec, hrec, h⟩ := Exec.bind_eq_ok.1 h
  cases h
  refine ⟨rec, _, record_eq_ok hrec, rfl, ?_⟩
  by_cases ho : 0 < c.outstanding
  · exact .inl ⟨ho, if_pos ho⟩
  · exact .inr ⟨Nat.eq_zero_of_not_pos ho, if_neg ho⟩

theorem release_spec {id : SocketId} {a e : Option Errno} (hI : IocpInv c)
    (h : c.release id a = .ok (c', e)) : IocpInv c' ∧ Kept c c' := by
  obtain ⟨rec, c₁, -, rfl, ⟨-, rfl⟩ | ⟨-, rfl⟩⟩ := release_cases h
  · exact ⟨⟨hI.count, hI.heap, hI.issued, hI.named⟩, rfl, rfl, rfl⟩
  · have hI₁ : IocpInv { c with sockets := c.sockets.erase id } :=
      ⟨hI.count, hI.heap, hI.issued, hI.named⟩
    obtain ⟨hI', hk⟩ := hI₁.free rec.io
    exact ⟨⟨hI'.count, hI'.heap, hI'.issued, hI'.named⟩, hk.requests, hk.outstanding, hk.timeouts⟩

theorem popDeferred_spec (hI : IocpInv c) (s : StorageId) :
    IocpInv (c.popDeferred s) ∧ Kept c (c.popDeferred s) := by
  unfold popDeferred
  dsimp only
  split
  · exact ⟨⟨hI.count, hI.heap, hI.issued, hI.named⟩, rfl, rfl, rfl⟩
  · next head deferred hdef =>
    have hI₁ : IocpInv { c with working := c.working.erase s, deferred := deferred } :=
      ⟨hI.count, hI.heap, hI.issued, hI.named⟩
    obtain ⟨hI', hk⟩ := hI₁.free head
    exact ⟨hI', hk.requests, hk.outstanding, hk.timeouts⟩

theorem call_spec {k : IocpCall} (hI : IocpInv c) (h : iocpBase.call c k = .ok (c', fs)) :
    IocpInv c' ∧ ∀ o, Moved False (c.held o) (c'.held o) 0 0 o fs := by
  have hkept : IocpInv c' ∧ Kept c c' → fs = [] →
      IocpInv c' ∧ ∀ o, Moved False (c.held o) (c'.held o) 0 0 o fs := by
    rintro ⟨hI', hk⟩ rfl
    exact ⟨hI', fun o => .silent _ (by simp [Silent]) rfl (.inl hk.held)⟩
  cases call_eq_ok h with
  | runOne hrun => exact runOne_spec hI hrun
  | schedule t => exact hkept ⟨⟨hI.count, hI.heap, hI.issued, hI.named⟩, rfl, rfl, rfl⟩ rfl
  | makeSocket hmake => exact hkept (prepared_spec hI (makeSocket_cases hmake).prepared) rfl
  | makeSocketNative hmake =>
    obtain ⟨sockets, hins, rfl⟩ := makeSocketNative_eq_ok hmake
    exact hkept (prepare_spec hI (.touch (.makeSocket hins))) rfl
  | release hrel => exact hkept (release_spec hI hrel) rfl

/-- An `iocp_context` as it is constructed, in a process with open sockets. -/
def initial (os : Os) : IocpContext := { os := os }

theorem iocpInv_initial (os : Os) : IocpInv (initial os) where
  count := rfl
  heap hs := by cases hs
  issued hr := by cases hr
  named hr := by cases hr

end IocpContext

open IocpContext

/-- The debts of an `iocp_context`. -/
def iocpLedger : Ledger iocpBase where
  Inv := IocpInv
  held := IocpContext.held
  asked _ _ := 0
  Drops _ _ := False
  Inline _ := IocpContext.Inline
  pending_iff c o := by
    show ((c.requests.any fun r => r.op = o) || c.timeouts.any fun io => io.self = o) = true ↔ _
    rw [Bool.or_eq_true, IocpContext.held, Nat.add_pos_iff_pos_or_pos, occurrences_pos,
      List.countP_pos_iff]
    simp
  submit_spec hI hz h := by
    obtain ⟨hI', hsub, hothers⟩ := IocpContext.submit_spec hI hz h
    exact ⟨hI', rfl, hsub, fun o ho => ⟨(hothers o ho).1, rfl, (hothers o ho).2⟩⟩
  cancel_spec {c c' io a fs} hI _ h := by
    rcases IocpContext.cancel_cases (u := a) h with ⟨timeouts, herase, rfl, rfl⟩ | ⟨-, rfl, rfl⟩
    · have hheld : ∀ o, c.held o = IocpContext.held { c with timeouts := timeouts } o +
          if io.self = o then 1 else 0 := fun o => by
        have := occurrences_erase? (o := o) herase
        simp only [IocpContext.held]
        omega
      refine ⟨⟨hI.count, hI.heap, hI.issued, hI.named⟩,
        .now (by simpa using hheld io.self) rfl, fun o ho => ⟨?_, rfl, ?_⟩⟩
      · simpa [Ne.symm ho] using (hheld o).symm
      · simpa [Silent, Frame.target] using Ne.symm ho
    · refine ⟨hI, .later rfl rfl, fun o ho => ⟨rfl, rfl, ?_⟩⟩
      simpa [Silent, Frame.target] using Ne.symm ho
  call_spec := IocpContext.call_spec
  tail_spec s hI := by
    obtain ⟨hI', hk⟩ := popDeferred_spec hI s
    exact ⟨hI', fun o => ⟨hk.held, rfl⟩⟩

theorem iocpLedger_fresh (os : Os) : iocpLedger.Fresh (IocpContext.initial os) where
  inv := iocpInv_initial os
  held _ := rfl
  asked _ := rfl

open Machine Transition in
/-- Every operation is in a phase in every state that is reached, whatever the guard. -/
theorem IocpContext.sound_of_runs {os : Os} {m : Machine IocpContext StorageId}
    {ok : Machine IocpContext StorageId → Label Answers Unit IocpCall → Prop}
    (h : Runs iocpBase ok (IocpContext.initial os) m) : iocpLedger.Sound False False m :=
  (iocpLedger_fresh os).sound (h.mono fun m l _ => Ledger.guard_free m l trivial)

open Machine Transition in
/-- With exact counters, as no step of this context loses an operation. -/
theorem IocpContext.soundExact_of_runs {os : Os} {m : Machine IocpContext StorageId}
    {ok : Machine IocpContext StorageId → Label Answers Unit IocpCall → Prop}
    (h : Runs iocpBase ok (IocpContext.initial os) m) : iocpLedger.Sound True False m :=
  (iocpLedger_fresh os).sound (h.mono fun m l _ =>
    Ledger.guard_of_not_drops (L := iocpLedger) (fun _ _ hd => hd.elim) m l trivial)

end Net29
