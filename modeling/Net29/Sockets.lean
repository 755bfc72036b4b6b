import Net29.Container
import Net29.Os
import Mathlib.Data.Finset.Card

/-!
# The sockets of a context

A record of the socket table holds a descriptor. Ids are used again by the table, descriptors by the
system, so neither identifies a socket for long; what does is the pair of them while the record is
live.

* `Table`: live records have distinct open descriptors, and so fewer than `2 ^ 31` of them exist;
* `Serves`: a descriptor is that of an operation's id, and denotes the socket that the id denoted
  when the operation was submitted;
* `Faithful`: the table with the calls made so far, and one lemma for each way it changes.
-/

namespace Net29

variable {α : Type} {handle : α → Fd} {sockets sockets' : Container α} {os os' : Os}
  {waiting waiting' : List Fd} {fd : Fd} {r : α} {id : SocketId} {io io' : IoBase}

/-! ### The table -/

/-- An open descriptor, in the range of `int`. -/
def Os.IsOpen (os : Os) (fd : Fd) : Prop := (os.denotes fd).isSome ∧ fd < 2 ^ 31

theorem Os.IsOpen.opened (h : os.IsOpen fd) {fd' : Fd} (hopen : os.open fd' = .ok os') :
    os'.IsOpen fd := by
  obtain ⟨s, hs⟩ := Option.isSome_iff_exists.1 h.1
  exact ⟨by rw [Os.denotes_open hopen hs]; rfl, h.2⟩

theorem Os.IsOpen.close (h : os.IsOpen fd) {fd' : Fd} (hne : fd ≠ fd') : (os.close fd').IsOpen fd :=
  ⟨by rw [Os.denotes_close_of_ne hne]; exact h.1, h.2⟩

/-- A socket table over the open descriptors: the free list is intact, and the records have distinct
open descriptors. `waiting` are further descriptors, which have no record yet. -/
structure Table (handle : α → Fd) (sockets : Container α) (os : Os) (waiting : List Fd) : Prop where
  free : ∃ l, sockets.FreeList l
  size : sockets.records.length ≤ 2 ^ 31
  live : ∀ {id : SocketId} {r : α}, sockets.get? id = some r →
    os.IsOpen (handle r) ∧ handle r ∉ waiting
  distinct : ∀ {i j : SocketId} {r r' : α}, sockets.get? i = some r → sockets.get? j = some r' →
    handle r = handle r' → i = j
  nodup : waiting.Nodup
  waits : ∀ fd ∈ waiting, os.IsOpen fd

namespace Table

theorem empty (handle : α → Fd) (os : Os) : Table handle {} os [] where
  free := ⟨[], .empty⟩
  size := Nat.zero_le _
  live h := by simp [Container.get?] at h
  distinct h := by simp [Container.get?] at h
  nodup := List.nodup_nil
  waits fd h := by cases h

/-- Ids fit their type. -/
theorem size_lt (h : Table handle sockets os waiting) : sockets.records.length < 2 ^ 32 :=
  Nat.lt_of_le_of_lt h.size (by decide)

/-- A descriptor that has no record is given to the context. -/
theorem arrive (h : Table handle sockets os waiting) (hopen : os.IsOpen fd)
    (hlive : ∀ id r, sockets.get? id = some r → handle r ≠ fd) (hwait : fd ∉ waiting) :
    Table handle sockets os (fd :: waiting) where
  free := h.free
  size := h.size
  live hget :=
    ⟨(h.live hget).1, List.not_mem_cons_of_ne_of_not_mem (hlive _ _ hget) (h.live hget).2⟩
  distinct := h.distinct
  nodup := List.nodup_cons.2 ⟨hwait, h.nodup⟩
  waits fd' hfd' := by
    rcases List.mem_cons.1 hfd' with rfl | hfd'
    · exact hopen
    · exact h.waits fd' hfd'

/-- The system opens a descriptor: it was not open, so no record has it. -/
theorem opened (h : Table handle sockets os waiting) (hopen : os.open fd = .ok os') :
    Table handle sockets os' (fd :: waiting) := by
  obtain ⟨hlt, hclosed, -⟩ := Os.open_eq_ok hopen
  have hnot : ∀ {fd'}, os.IsOpen fd' → fd' ≠ fd := by
    rintro fd' ⟨hs, -⟩ rfl
    rw [hclosed] at hs
    cases hs
  have h' : Table handle sockets os' waiting := {
    h with
    live := fun hget => ⟨(h.live hget).1.opened hopen, (h.live hget).2⟩
    waits := fun fd' hfd' => (h.waits fd' hfd').opened hopen }
  refine h'.arrive ⟨by rw [Os.denotes_open_self hopen]; rfl, hlt⟩
    (fun id r hget => hnot (h.live hget).1) fun hmem => hnot (h.waits fd hmem) rfl

theorem perm (h : Table handle sockets os waiting) (hp : waiting.Perm waiting') :
    Table handle sockets os waiting' :=
  { h with
    live := fun hget => ⟨(h.live hget).1, fun hm => (h.live hget).2 (hp.mem_iff.2 hm)⟩
    nodup := hp.nodup_iff.1 h.nodup
    waits := fun fd hfd => h.waits fd (hp.mem_iff.2 hfd) }

/-- When no slot is free there are no more records than descriptors, one of which has none. -/
theorem length_lt (h : Table handle sockets os (fd :: waiting)) (hfree : sockets.FreeList []) :
    sockets.records.length + 1 ≤ 2 ^ 31 := by
  -- the descriptors of all slots and the one without a record are distinct and below `2 ^ 31`
  let f : ℕ → ℕ := fun i => ((sockets.get? i).map handle).getD fd
  have hlive : ∀ i < sockets.records.length, ∃ r, sockets.get? i = some r := fun i hi =>
    (hfree.mem_or_get? hi).resolve_left (by simp)
  have hlast : f sockets.records.length = fd := by
    have hnone : sockets.get? sockets.records.length = none := by simp [Container.get?]
    simp [f, hnone]
  have hmaps : ∀ i ∈ Finset.range (sockets.records.length + 1), f i ∈ Finset.range (2 ^ 31) := by
    intro i hi
    rw [Finset.mem_range] at hi ⊢
    rcases Nat.lt_succ_iff_lt_or_eq.1 hi with hi | rfl
    · obtain ⟨r, hr⟩ := hlive i hi
      simpa [f, hr] using (h.live hr).1.2
    · rw [hlast]
      exact (h.waits fd List.mem_cons_self).2
  have hinj : Set.InjOn f (Finset.range (sockets.records.length + 1)) := by
    have hne : ∀ i < sockets.records.length, f i ≠ fd := by
      intro i hi
      obtain ⟨r, hr⟩ := hlive i hi
      have hnot := (h.live hr).2
      simp only [f, hr, Option.map_some, Option.getD_some]
      exact fun he => hnot (he ▸ List.mem_cons_self)
    intro i hi j hj hij
    simp only [Finset.coe_range, Set.mem_Iio] at hi hj
    rcases Nat.lt_succ_iff_lt_or_eq.1 hi with hi | rfl
    · rcases Nat.lt_succ_iff_lt_or_eq.1 hj with hj | rfl
      · obtain ⟨r, hr⟩ := hlive i hi
        obtain ⟨r', hr'⟩ := hlive j hj
        exact h.distinct hr hr' (by simpa [f, hr, hr'] using hij)
      · exact absurd (hij.trans hlast) (hne i hi)
    · rcases Nat.lt_succ_iff_lt_or_eq.1 hj with hj | rfl
      · exact absurd (hij.symm.trans hlast) (hne j hj)
      · rfl
  simpa using Finset.card_le_card_of_injOn f hmaps hinj

/-- A waiting descriptor is lost. -/
theorem forget (h : Table handle sockets os (fd :: waiting)) : Table handle sockets os waiting :=
  { h with
    live := fun hget => ⟨(h.live hget).1, fun hm => (h.live hget).2 (List.mem_cons_of_mem _ hm)⟩
    nodup := (List.nodup_cons.1 h.nodup).2
    waits := fun fd' hfd' => h.waits fd' (List.mem_cons_of_mem _ hfd') }

/-- A waiting descriptor is closed. -/
theorem discard (h : Table handle sockets os (fd :: waiting)) :
    Table handle sockets (os.close fd) waiting := by
  obtain ⟨hnot, hnodup⟩ := List.nodup_cons.1 h.nodup
  refine { h.forget with live := fun hget => ?_, waits := fun fd' hfd' => ?_ }
  · have hne := (h.live hget).2
    exact ⟨(h.live hget).1.close fun he => hne (he ▸ List.mem_cons_self),
      fun hm => hne (List.mem_cons_of_mem _ hm)⟩
  · exact (h.waits fd' (List.mem_cons_of_mem _ hfd')).close fun he => hnot (he ▸ hfd')

/-- A waiting descriptor gets a record. -/
theorem insert (h : Table handle sockets os (handle r :: waiting))
    (hins : sockets.insert r = .ok (sockets', id)) : Table handle sockets' os waiting := by
  obtain ⟨l, hl⟩ := h.free
  obtain ⟨hnew, hself, hother⟩ := Container.insert_spec hins h.size_lt
  obtain ⟨hnot, hnodup⟩ := List.nodup_cons.1 h.nodup
  have hold : ∀ {i r'}, i ≠ id → sockets'.get? i = some r' → sockets.get? i = some r' :=
    fun hi hget => (hother _ hi).symm.trans hget
  refine ⟨⟨l.tail, hl.insert hins⟩, ?_, fun {i r'} hget => ?_, fun {i j r₁ r₂} hi hj he => ?_,
    hnodup, fun fd hfd => h.waits fd (List.mem_cons_of_mem _ hfd)⟩
  · rcases Container.insert_eq_ok hins with ⟨hfull, -, rfl⟩ | ⟨-, -, next, -, rfl⟩
    · simpa using h.length_lt (hl.eq_nil_of_full hfull ▸ hl)
    · simpa using h.size
  · by_cases hi : i = id
    · subst hi
      obtain rfl : r = r' := Option.some.inj (hself.symm.trans hget)
      exact ⟨h.waits _ List.mem_cons_self, hnot⟩
    · have hlive := h.live (hold hi hget)
      exact ⟨hlive.1, fun hm => hlive.2 (List.mem_cons_of_mem _ hm)⟩
  · have hne : ∀ {k r'}, k ≠ id → sockets'.get? k = some r' → handle r' ≠ handle r :=
      fun hk hget he' => (h.live (hold hk hget)).2 (he' ▸ List.mem_cons_self)
    by_cases hid : i = id
    · subst hid
      obtain rfl : r = r₁ := Option.some.inj (hself.symm.trans hi)
      by_contra hji
      exact hne (Ne.symm hji) hj he.symm
    · by_cases hjd : j = id
      · subst hjd
        obtain rfl : r = r₂ := Option.some.inj (hself.symm.trans hj)
        exact absurd he (hne hid hi)
      · exact h.distinct (hold hid hi) (hold hjd hj) he

/-- A record is erased and its descriptor closed. -/
theorem release (h : Table handle sockets os waiting) (hget : sockets.get? id = some r) :
    Table handle (sockets.erase id) (os.close (handle r)) waiting := by
  obtain ⟨l, hl⟩ := h.free
  refine ⟨⟨id :: l, hl.erase hget⟩, ?_, fun {i r'} hi => ?_, fun {i j r₁ r₂} hi hj he => ?_,
    h.nodup, fun fd hfd => (h.waits fd hfd).close fun he => (h.live hget).2 (he ▸ hfd)⟩
  · simpa [Container.erase] using h.size
  · have hne : i ≠ id := by
      rintro rfl
      rw [Container.get?_erase_self] at hi
      cases hi
    have hi' := Container.get?_erase hi
    exact ⟨(h.live hi').1.close fun he => hne (h.distinct hi' hget he), (h.live hi').2⟩
  · exact h.distinct (Container.get?_erase hi) (Container.get?_erase hj) he

end Table

/-! ### Operations and their sockets -/

/-- The socket table of a context and the system it is in. -/
structure SocketView (α : Type) where
  sockets : Container α
  env : Env

/-- The call was made on the socket that the operation's id denoted when it was submitted. -/
def OsCall.Faithful (call : OsCall) : Prop := ∃ s, call.sock = some s ∧ call.denoted = some s

/-- `fd` is the descriptor of the operation's id and denotes the socket that the id denoted when the
operation was submitted. -/
def Serves (handle : α → Fd) (v : SocketView α) (fd : Fd) (io : IoBase) : Prop :=
  ∃ r s, v.sockets.get? io.op.id = some r ∧ handle r = fd ∧ v.env.os.denotes fd = some s ∧
    v.env.denoted io.self = some s

/-- The table is intact, and every call so far was made on the right socket. -/
structure Faithful (handle : α → Fd) (v : SocketView α) (waiting : List Fd) : Prop where
  table : Table handle v.sockets v.env.os waiting
  calls : ∀ call ∈ v.env.calls, call.Faithful

/-- Every operation that was served still is. -/
def Keeps (handle : α → Fd) (v v' : SocketView α) : Prop :=
  ∀ fd io, Serves handle v fd io → Serves handle v' fd io

variable {v v' v'' : SocketView α}

theorem Keeps.refl (v : SocketView α) : Keeps handle v v := fun _ _ h => h

theorem Keeps.trans (h : Keeps handle v v') (h' : Keeps handle v' v'') : Keeps handle v v'' :=
  fun fd io hs => h' fd io (h fd io hs)

/-- An operation that is served by the descriptor its id has now. -/
theorem Serves.unique (h : Serves handle v fd io) (hget : v.sockets.get? io.op.id = some r) :
    handle r = fd := by
  obtain ⟨r', s, hget', hfd, -⟩ := h
  rw [← hfd, Option.some.inj (hget.symm.trans hget')]

namespace Faithful

theorem opened (h : Faithful handle v waiting) (hopen : v.env.os.open fd = .ok os') :
    Faithful handle ⟨v.sockets, { v.env with os := os' }⟩ (fd :: waiting) ∧
      Keeps handle v ⟨v.sockets, { v.env with os := os' }⟩ :=
  ⟨⟨h.table.opened hopen, h.calls⟩, fun _ _ ⟨r, s, hget, hfd, hs, hd⟩ =>
    ⟨r, s, hget, hfd, Os.denotes_open hopen hs, hd⟩⟩

theorem forget (h : Faithful handle v (fd :: waiting)) : Faithful handle v waiting :=
  ⟨h.table.forget, h.calls⟩

theorem insert (h : Faithful handle v (handle r :: waiting))
    (hins : v.sockets.insert r = .ok (sockets', id)) :
    Faithful handle ⟨sockets', v.env⟩ waiting ∧ Keeps handle v ⟨sockets', v.env⟩ := by
  refine ⟨⟨h.table.insert hins, h.calls⟩, fun fd io ⟨r', s, hget, hfd, hs, hd⟩ => ?_⟩
  obtain ⟨hnew, -, hother⟩ := Container.insert_spec hins h.table.size_lt
  -- the id returned was not live
  have hne : io.op.id ≠ id := by
    rintro he
    rw [he, hnew] at hget
    cases hget
  exact ⟨r', s, (hother _ hne).trans hget, hfd, hs, hd⟩

theorem logCalls (h : Faithful handle v waiting) (hs : Serves handle v fd io) (n : ℕ)
    (call : Syscall) (len : ℕ) :
    Faithful handle ⟨v.sockets, v.env.logCalls n io.self call fd len⟩ waiting := by
  refine ⟨h.table, fun c hc => ?_⟩
  rcases List.mem_append.1 hc with hc | hc
  · obtain ⟨r, s, -, -, hsock, hdenoted⟩ := hs
    rw [List.eq_of_mem_replicate hc]
    exact ⟨s, hsock, hdenoted⟩
  · exact h.calls c hc

/-- At its submission an operation is served by the descriptor of its id. -/
theorem submitted (h : Faithful handle v waiting) (io : IoBase) :
    Faithful handle ⟨v.sockets, v.env.submitted io.self ((v.sockets.get? io.op.id).map handle)⟩
      waiting :=
  ⟨h.table, h.calls⟩

theorem serves_submitted (h : Faithful handle v waiting) (hget : v.sockets.get? io.op.id = some r) :
    Serves handle ⟨v.sockets, v.env.submitted io.self ((v.sockets.get? io.op.id).map handle)⟩
      (handle r) io := by
  obtain ⟨s, hs⟩ := Option.isSome_iff_exists.1 (h.table.live hget).1.1
  refine ⟨r, s, hget, rfl, hs, ?_⟩
  simp [Env.submitted, hget, hs]

/-- A record is erased: an operation on another id is served as before. -/
theorem release (h : Faithful handle v waiting) (hget : v.sockets.get? id = some r) :
    Faithful handle ⟨v.sockets.erase id, { v.env with os := v.env.os.close (handle r) }⟩ waiting ∧
      ∀ fd io, io.op.id ≠ id → Serves handle v fd io →
        Serves handle
          ⟨v.sockets.erase id, { v.env with os := v.env.os.close (handle r) }⟩ fd io := by
  refine ⟨⟨h.table.release hget, h.calls⟩, ?_⟩
  rintro fd io hne ⟨r', s, hget', rfl, hs, hd⟩
  have hhandle : handle r' ≠ handle r := fun he => hne (h.table.distinct hget' hget he)
  exact ⟨r', s, (Container.get?_erase_of_ne hne).trans hget', rfl,
    (Os.denotes_close_of_ne hhandle).trans hs, hd⟩

end Faithful

/-- The submission of another operation. -/
theorem Serves.submitted (h : Serves handle v fd io) (hne : io.self ≠ io'.self) (fd' : Option Fd) :
    Serves handle ⟨v.sockets, v.env.submitted io'.self fd'⟩ fd io := by
  obtain ⟨r, s, hget, hfd, hs, hd⟩ := h
  refine ⟨r, s, hget, hfd, hs, ?_⟩
  show Function.update v.env.denoted io'.self _ io.self = some s
  rw [Function.update_of_ne hne, hd]

end Net29
