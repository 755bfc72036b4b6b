import Net29.Poll.Objects
import Net29.Poll.Steps
import Net29.Sockets
import Net29.Lib.Ownership

/-!
# Holders of the sockets of `poll_context`

What every call does to the socket table and the descriptors, and how the ids that are live stay
those that are held.

* `SameSockets`, `Made`, `Released`: what a call does; `delivers_of_step`: a step of the context
  leaves the sockets alone, or delivers a new one;
* `Owns`: each live id has one holder, and each open descriptor that is not the caller's has one
  live id;
* `Passes`: how ids pass between the table and the holders, which keeps that.
-/

namespace Net29

open Machine Ownership

namespace PollContext

variable {c c' c₁ : PollContext} {io : IoBase} {fs : List (Frame Empty)} {r : SubmitResult}
  {id : SocketId} {sys : List SysAnswer}

/-! ### Calls of the context -/

theorem SameSockets.refl (c : PollContext) : SameSockets c c := ⟨rfl, rfl⟩

theorem SameSockets.trans (h : SameSockets c c₁) (h' : SameSockets c₁ c') : SameSockets c c' :=
  ⟨h'.1.trans h.1, h'.2.trans h.2⟩

theorem Waited.sameSockets (h : Waited c c') : SameSockets c c' := ⟨h.sockets, by rw [h.env]⟩

theorem sameSockets_removeOutstanding (c : PollContext) (i : ℕ) :
    SameSockets c (c.removeOutstanding i) := by
  constructor <;> simp

/-- A socket was opened and has the id `id`. -/
def Made (c c' : PollContext) (id : SocketId) : Prop :=
  ∃ fd os, c.env.os.open fd = .ok os ∧
    c.sockets.insert { handle := fd } = .ok (c'.sockets, id) ∧ c'.env.os = os

/-- The socket `id` was released. -/
def Released (c c' : PollContext) (id : SocketId) : Prop :=
  ∃ rec, c.sockets.get? id = some rec ∧ c'.sockets = c.sockets.erase id ∧
    c'.env.os = c.env.os.close rec.handle

theorem SameSockets.made (h : SameSockets c c₁) (hmade : Made c₁ c' id) : Made c c' id := by
  obtain ⟨fd, os, hopen, hins, hos⟩ := hmade
  exact ⟨fd, os, h.2 ▸ hopen, h.1 ▸ hins, hos⟩

theorem makeSocket_eq_ok {a : SysAnswer} {e : Option Errno} (h : c.makeSocket a = .ok (c', id, e)) :
    (c' = c ∧ id = SocketId.invalid ∧ e.isSome) ∨ (Made c c' id ∧ e = none) := by
  cases a with
  | err e => cases h; exact .inl ⟨rfl, rfl, rfl⟩
  | ok fd peer =>
    obtain ⟨c₁, hopen, h⟩ := Exec.bind_eq_ok.1 h
    obtain ⟨⟨c₂, id'⟩, hmake, h⟩ := Exec.bind_eq_ok.1 h
    cases h
    obtain ⟨os, hos, hc⟩ := Exec.bind_eq_ok.1 hopen
    cases hc
    obtain ⟨sockets, hins, rfl⟩ := makeSocketNative_eq_ok hmake
    exact .inr ⟨⟨fd, os, hos, hins, rfl⟩, rfl⟩

/-- The process does not end in `make_socket` while the free list is intact. -/
theorem makeSocketNative_returns {l : List ℕ} (hl : c.sockets.FreeList l) (fd : Fd) :
    ∃ r, c.makeSocketNative fd = .ok r := by
  obtain ⟨p, hp⟩ := hl.insert_returns (PollRecord.mk fd true)
  exact ⟨_, by rw [makeSocketNative, hp]; rfl⟩

theorem makeSocket_eq_error {l : List ℕ} (hl : c.sockets.FreeList l) {a : SysAnswer} {e : Stuck}
    (h : c.makeSocket a = .error e) : e = .blocked := by
  cases a with
  | err e => cases h
  | ok fd peer =>
    rcases Exec.bind_eq_error.1 h with hopen | ⟨c₁, hopen, h⟩
    · rcases Exec.bind_eq_error.1 hopen with hos | ⟨os, -, hc⟩
      · unfold Os.open at hos
        split_ifs at hos
        cases hos
        rfl
      · cases hc
    · obtain ⟨os, -, hc⟩ := Exec.bind_eq_ok.1 hopen
      cases hc
      obtain ⟨r, hr⟩ := makeSocketNative_returns
        (c := { c with env := { c.env with os := os } }) hl fd
      rw [hr] at h
      cases h

theorem release_eq_ok {a e : Option Errno} (h : c.release id a = .ok (c', e)) :
    Released c c' id := by
  obtain ⟨fd, hfd, h⟩ := Exec.bind_eq_ok.1 h
  obtain ⟨rec, hrec, rfl⟩ := nativeHandle_eq_ok hfd
  cases h
  exact ⟨rec, hrec, rfl, rfl⟩

/-- The release of a live id returns. -/
theorem release_of_live {rec : PollRecord} (h : c.sockets.get? id = some rec)
    (answer : Option Errno) : ∃ c', c.release id answer = .ok (c', answer) := by
  unfold release nativeHandle
  rw [h]
  exact ⟨_, rfl⟩

theorem addOutstanding_sameSockets (hb : AllBlocking c)
    (h : c.addOutstanding io sys = .ok (c', fs, r)) : SameSockets c c' := by
  obtain ⟨rec, -, rfl, -⟩ := addOutstanding_eq_ok hb h
  exact ⟨rfl, rfl⟩

theorem connect_sameSockets (hb : AllBlocking c) {endpoint : Endpoint}
    (h : c.connect io endpoint sys = .ok (c', fs, r)) : SameSockets c c' := by
  obtain ⟨fd, -, h⟩ := Exec.bind_eq_ok.1 h
  split at h
  · cases h
  · cases h; exact ⟨rfl, rfl⟩
  · dsimp only at h
    split at h
    · cases h
    · cases h; exact ⟨rfl, rfl⟩
    · split_ifs at h
      · have hsame := addOutstanding_sameSockets
          (c := (c.logCalls 1 io .fcntl fd 0).logCalls 1 io .connect fd endpoint.size) hb h
        exact ⟨hsame.1, hsame.2⟩
      · cases h; exact ⟨rfl, rfl⟩

/-- No submission opens a socket. -/
theorem submit_sameSockets (hb : AllBlocking c) {req : Answers}
    (h : c.submit io req = .ok (c', fs, r)) : SameSockets c c' := by
  have hrecord : SameSockets c (c.record io) := ⟨rfl, rfl⟩
  have hb' : AllBlocking (c.record io) := hb
  unfold submit at h
  split at h
  · exact hrecord.trans (connect_sameSockets hb' h)
  · unfold resumeAt at h
    split_ifs at h <;> cases h <;> exact ⟨rfl, rfl⟩
  all_goals exact hrecord.trans (addOutstanding_sameSockets hb' h)

theorem cancel_sameSockets {u : Unit} (h : c.cancel io u = .ok (c', fs)) : SameSockets c c' := by
  cases (cancel_cases h).1 with
  | outstanding => exact sameSockets_removeOutstanding c _
  | timer => exact ⟨rfl, rfl⟩

/-- What the other calls of the context do to its sockets, those of the objects apart: a socket that
was accepted is handed to the operation that waited for it. -/
inductive Handles (c : PollContext) : PollContext → List (Frame Empty) → Prop
  | same {c' : PollContext} {fs : List (Frame Empty)} (h : SameSockets c c')
      (hfs : ∀ o id peer, fs ≠ [.complete o (some (.accepted id peer))]) : Handles c c' fs
  | accepted {c' : PollContext} {id : SocketId} {io : IoBase} (peer : Endpoint)
      (hio : io ∈ c.outstanding) (h : Made c c' id) :
      Handles c c' [.complete io.self (some (.accepted id peer))]

theorem WorkedAs.handles (h : WorkedAs c₁ io c' fs) (hsame : SameSockets c c₁)
    (hio : io ∈ c.outstanding) : Handles c c' fs := by
  cases h with
  | blocked h => exact .same (hsame.trans h) (by simp)
  | completed v h hv =>
    refine .same (hsame.trans h) fun o id peer he => hv id peer ?_
    cases he
    rfl
  | failed e h => exact .same (hsame.trans h) (by simp)
  | accepted peer hopen hins hos => exact .accepted peer hio (hsame.made ⟨_, _, hopen, hins, hos⟩)

theorem runOne_handles {now : Time} {answers : List PollAnswer} {n : ℕ}
    (h : c.runOne now answers = .ok (c', fs, n)) : Handles c c' fs := by
  cases runOne_cases h with
  | timer hw ht =>
    obtain ⟨io, timeouts, -, -, rfl, rfl⟩ := processTimeout_eq_some ht
    exact .same (hw.sameSockets.trans ⟨rfl, rfl⟩) (by simp)
  | task ht =>
    obtain ⟨t, tasks, -, rfl, rfl⟩ := processTask_eq_some ht
    exact .same ⟨rfl, rfl⟩ (by simp)
  | idle hw => exact .same hw.sameSockets (by simp)
  | @dispatched c₁ _ _ i sys io _ _ _ hwait hio hwork =>
    have hw := (wait_spec hwait).1
    refine (work_cases hwork).handles
      (hw.sameSockets.trans (sameSockets_removeOutstanding c₁ i)) ?_
    exact hw.outstanding ▸ List.mem_of_getElem? hio

theorem call_handles {k : PollCall} (hk : ofObjects (.call k) = false)
    (h : pollBase.call c k = .ok (c', fs)) : Handles c c' fs := by
  cases call_eq_ok h with
  | runOne hrun => exact runOne_handles hrun
  | schedule t => exact .same ⟨rfl, rfl⟩ (by simp)
  | makeSocket => cases hk
  | makeSocketNative => cases hk
  | release => cases hk

variable {m m' : Machine PollContext Empty} {lc : Label Answers Unit PollCall}

/-- What a step of the context does to its sockets: one that was accepted is delivered. -/
theorem delivers_of_step {ok : Machine PollContext Empty → Label Answers Unit PollCall → Prop}
    {os : Os} (hrun : Runs pollBase ok (initial os) m) (hl : ofObjects lc = false)
    (h : m.step pollBase lc = some m') :
    (SameSockets m.ctx m'.ctx ∧ delivered m lc = none) ∨
      ∃ id, Made m.ctx m'.ctx id ∧ delivered m lc = some id := by
  have hI := stepInv_of_runs hrun (status_of_step h)
  by_cases hcall : ∃ k, lc = .call k
  · obtain ⟨k, rfl⟩ := hcall
    rcases perform_eq_some (step_call h) with ⟨c, fs, hc, rfl⟩ | ⟨e, hne, rfl⟩
    · rw [runFrames_ctx]
      cases call_handles hl hc with
      | same hsame hfs =>
        refine .inl ⟨hsame, ?_⟩
        unfold delivered
        dsimp only
        rw [hc]
        split
        · next heq =>
          cases heq
          exact absurd rfl (hfs _ _ _)
        · rfl
      | @accepted id io peer hio hmade =>
        -- the operation was waiting, so its receiver is signalled
        have hw := hI.waiting (.inl hio)
        refine .inr ⟨id, hmade, ?_⟩
        unfold delivered
        dsimp only
        rw [hc]
        exact if_pos (hw.complete _).2
    · refine .inl ⟨.refl _, ?_⟩
      unfold delivered
      dsimp only
      split
      · next heq => exact absurd heq (hne _)
      · rfl
  · have hnone : delivered m lc = none := by
      cases lc with
      | call k => exact absurd ⟨k, rfl⟩ hcall
      | _ => rfl
    refine .inl ⟨?_, hnone⟩
    have hctx := ctx_of_step (Runs.never_started hrun) h
    generalize m'.ctx = c at hctx
    cases hctx with
    | same => exact .refl _
    | submit hlog hsub => exact submit_sameSockets hI.inv.blocking hsub
    | @cancel _ io a c fs hcancel => exact cancel_sameSockets (u := a) hcancel
    | call => exact absurd ⟨_, rfl⟩ hcall

/-! ### Holders of ids -/

variable {os os' : Os} {sockets sockets' : Container PollRecord} {own : List Fd} {fd : Fd}
  {x y : ObjectId} {holder holder' : ObjectId → Option SocketId}

/-- The invariant: the live ids are those held, each by one holder, and the open descriptors are
theirs, except those that the caller owns. -/
structure Owns (own : List Fd) (sockets : Container PollRecord) (os : Os)
    (holder : ObjectId → Option SocketId) : Prop where
  table : Table PollRecord.handle sockets os []
  exact : Exact (fun id => (sockets.get? id).isSome) holder
  callers : ∀ fd ∈ own, (os.denotes fd).isSome
  apart : ∀ {id : SocketId} {rec : PollRecord}, sockets.get? id = some rec → rec.handle ∉ own
  opened : ∀ {fd : Fd}, (os.denotes fd).isSome → fd ∉ own →
    ∃ id rec, sockets.get? id = some rec ∧ rec.handle = fd

theorem Owns.empty (os : Os) : Owns os.descriptors {} os fun _ => none where
  table := .empty _ os
  exact := Exact.empty.congr (by simp [Container.get?]) rfl
  callers fd hfd := Os.mem_descriptors.1 hfd
  apart h := by simp [Container.get?] at h
  opened h hnot := absurd (Os.mem_descriptors.2 h) hnot

theorem Owns.live (h : Owns own sockets os holder) (hx : holder x = some id) :
    ∃ rec, sockets.get? id = some rec :=
  Option.isSome_iff_exists.1 ((h.exact.live_iff id).2 ⟨x, hx⟩)

/-- A live id is not `invalid`. -/
theorem Owns.ne_invalid (h : Owns own sockets os holder) {rec : PollRecord}
    (hget : sockets.get? id = some rec) : id ≠ SocketId.invalid := by
  have hlt := Nat.lt_of_lt_of_le (Container.lt_of_get? hget) h.table.size
  rintro rfl
  exact absurd hlt (by decide)

/-- The caller gets a descriptor. -/
theorem Owns.open (h : Owns own sockets os holder) (hopen : os.open fd = .ok os') :
    Owns (fd :: own) sockets os' holder := by
  obtain ⟨-, hclosed, -⟩ := Os.open_eq_ok hopen
  have hkeep : ∀ {fd'}, (os.denotes fd').isSome → (os'.denotes fd').isSome := by
    intro fd' hsome
    obtain ⟨s, hs⟩ := Option.isSome_iff_exists.1 hsome
    rw [Os.denotes_open hopen hs]
    rfl
  refine ⟨(h.table.opened hopen).forget, h.exact, fun fd' hfd' => ?_, fun {id rec} hget => ?_,
    fun {fd'} hsome hnot => ?_⟩
  · rcases List.mem_cons.1 hfd' with rfl | hfd'
    · rw [Os.denotes_open_self hopen]
      rfl
    · exact hkeep (h.callers fd' hfd')
  · refine List.not_mem_cons_of_ne_of_not_mem ?_ (h.apart hget)
    intro he
    have hlive := (h.table.live hget).1.1
    rw [he, hclosed] at hlive
    cases hlive
  · obtain ⟨hne, hnot⟩ := List.ne_and_not_mem_of_not_mem_cons hnot
    rw [Os.denotes_open_of_ne hopen hne] at hsome
    exact h.opened hsome hnot

/-- A descriptor of the caller gets a record, held by one that held nothing. -/
theorem Owns.give (h : Owns own sockets os holder) (hx : holder x = none) (hfd : fd ∈ own)
    (hlt : fd < 2 ^ 31) (hins : sockets.insert { handle := fd } = .ok (sockets', id)) :
    Owns (own.filter (· ≠ fd)) sockets' os (Function.update holder x (some id)) := by
  obtain ⟨hnew, hself, hother⟩ := Container.insert_spec hins h.table.size_lt
  have hold : ∀ {i rec}, i ≠ id → sockets'.get? i = some rec → sockets.get? i = some rec :=
    fun hi hget => (hother _ hi).symm.trans hget
  have hapart : ∀ {i rec}, sockets.get? i = some rec → rec.handle ≠ fd := by
    rintro i rec hget rfl
    exact h.apart hget hfd
  refine ⟨(h.table.arrive ⟨h.callers fd hfd, hlt⟩ (fun _ _ => hapart) (by simp)).insert
    (r := PollRecord.mk fd true) hins, h.exact.acquire hx (by simp [hnew]) fun j => ?_,
    fun fd' hfd' => h.callers fd' (List.mem_filter.1 hfd').1, fun {i rec} hget hmem => ?_,
    fun {fd'} hsome hnot => ?_⟩
  · by_cases hj : j = id
    · subst hj
      simp [hself]
    · simp [hj, hother j hj]
  · obtain ⟨hmem, hne⟩ := List.mem_filter.1 hmem
    by_cases hi : i = id
    · subst hi
      obtain rfl := Option.some.inj (hself.symm.trans hget)
      exact of_decide_eq_true hne rfl
    · exact h.apart (hold hi hget) hmem
  · by_cases he : fd' = fd
    · subst he
      exact ⟨id, _, hself, rfl⟩
    · have hnot' : fd' ∉ own := fun hmem => hnot (List.mem_filter.2 ⟨hmem, decide_eq_true he⟩)
      obtain ⟨i, rec, hget, hrec⟩ := h.opened hsome hnot'
      have hi : i ≠ id := by
        rintro rfl
        rw [hnew] at hget
        cases hget
      exact ⟨i, rec, (hother i hi).trans hget, hrec⟩

/-- A socket is opened, and held by one that held nothing. -/
theorem Owns.made (h : Owns own sockets os holder) (hx : holder x = none)
    (hopen : os.open fd = .ok os')
    (hins : sockets.insert { handle := fd } = .ok (sockets', id)) :
    Owns own sockets' os' (Function.update holder x (some id)) := by
  obtain ⟨hlt, hclosed, -⟩ := Os.open_eq_ok hopen
  have hgive := (h.open hopen).give hx List.mem_cons_self hlt hins
  have hown : ∀ fd' ∈ own, decide (fd' ≠ fd) = true := by
    intro fd' hfd'
    refine decide_eq_true fun he => ?_
    have hsome := h.callers fd' hfd'
    rw [he, hclosed] at hsome
    cases hsome
  rwa [List.filter_cons_of_neg (by simp), List.filter_eq_self.2 hown] at hgive

/-- A holder releases its socket. -/
theorem Owns.released (h : Owns own sockets os holder) (hx : holder x = some id)
    {rec : PollRecord} (hget : sockets.get? id = some rec) :
    Owns own (sockets.erase id) (os.close rec.handle) (Function.update holder x none) := by
  refine ⟨h.table.release hget, h.exact.release hx fun j => ?_, fun fd hfd => ?_,
    fun hget' => h.apart (Container.get?_erase hget'), fun {fd} hsome hnot => ?_⟩
  · by_cases hj : j = id
    · subst hj
      simp
    · simp [hj, Container.get?_erase_of_ne hj]
  · have hne : fd ≠ rec.handle := by
      rintro rfl
      exact h.apart hget hfd
    rw [Os.denotes_close_of_ne hne]
    exact h.callers fd hfd
  · have hne : fd ≠ rec.handle := by
      rintro rfl
      rw [Os.denotes_close_self] at hsome
      cases hsome
    rw [Os.denotes_close_of_ne hne] at hsome
    obtain ⟨i, rec', hget', hrec'⟩ := h.opened hsome hnot
    have hi : i ≠ id := by
      rintro rfl
      obtain rfl := Option.some.inj (hget.symm.trans hget')
      exact hne hrec'.symm
    exact ⟨i, rec', (Container.get?_erase_of_ne hi).trans hget', hrec'⟩

/-- How ids pass between the table and the holders. -/
inductive Passes (c : PollContext) (holder : ObjectId → Option SocketId) :
    PollContext → (ObjectId → Option SocketId) → Prop
  | same {c' : PollContext} (h : SameSockets c c') : Passes c holder c' holder
  | made {c' : PollContext} {id : SocketId} (x : ObjectId) (hx : holder x = none)
      (h : Made c c' id) : Passes c holder c' (Function.update holder x (some id))
  | released {c' : PollContext} {id : SocketId} (x : ObjectId) (hx : holder x = some id)
      (h : Released c c' id) : Passes c holder c' (Function.update holder x none)
  | moved {c' : PollContext} (x y : ObjectId) (hy : holder y = none) (hne : x ≠ y)
      (h : SameSockets c c') :
      Passes c holder c' (Function.update (Function.update holder y (holder x)) x none)

theorem Owns.passes (hO : Owns own c.sockets c.env.os holder) (h : Passes c holder c' holder') :
    Owns own c'.sockets c'.env.os holder' := by
  cases h with
  | same h => rwa [h.1, h.2]
  | made x hx h =>
    obtain ⟨fd, os, hopen, hins, hos⟩ := h
    rw [hos]
    exact hO.made hx hopen hins
  | released x hx h =>
    obtain ⟨rec, hget, hsockets, hos⟩ := h
    rw [hsockets, hos]
    exact hO.released hx hget
  | moved x y hy hne h =>
    rw [h.1, h.2]
    exact { hO with exact := hO.exact.move hy hne }

theorem call_makeSocket {a : SysAnswer} {e : Option Errno} (h : c.makeSocket a = .ok (c', id, e)) :
    pollBase.call c (.makeSocket a) = .ok (c', []) := by
  show (c.makeSocket a).map _ = _
  rw [h]
  rfl

theorem call_makeSocketNative {fd : Fd} (h : c.makeSocketNative fd = .ok (c', id)) :
    pollBase.call c (.makeSocketNative fd) = .ok (c', []) := by
  show (c.makeSocketNative fd).map _ = _
  rw [h]
  rfl

theorem call_release {a e : Option Errno} (h : c.release id a = .ok (c', e)) :
    pollBase.call c (.release id a) = .ok (c', []) := by
  show (c.release id a).map _ = _
  rw [h]
  rfl

end PollContext

end Net29
