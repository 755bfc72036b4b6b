import Net29.Sockets
import Net29.Iocp.Context

/-!
# Who holds which descriptor

A descriptor of an `iocp_context` is held by a record of the socket table, or by the slot for a
socket that was created to accept with. The history tells what happened to every socket.

* `Holdings`: the holders of descriptors, with the history;
* `Settled`, `Fate`: what became of a socket that was created for an `accept`;
* `Tracked`: every descriptor has one holder and every such socket a fate; `opened`, `fill`, `drop`,
  `hand`, `adopt`, `release`: one lemma for each way a descriptor changes hands.
-/

namespace Net29

/-- The socket an event is about. -/
def SocketEvent.sock : SocketEvent → Option Sock
  | .created _ sock | .inserted sock | .closed sock => sock

/-- The holders of descriptors: the records of the table, and the slots for sockets to accept with,
each with the operation it was last initialised for. -/
structure Holdings where
  sockets : Container IocpRecord
  slots : StorageId → Option (Option OpId × Fd)
  os : Os
  history : List SocketEvent

namespace Holdings

variable {v v' : Holdings} {o o' : OpId} {k k' : Sock} {fd : Fd} {s : StorageId}
  {id : SocketId} {rec : IocpRecord} {os : Os} {sockets : Container IocpRecord}

/-- What happened to a socket, newest first. -/
def events (v : Holdings) (k : Sock) : List SocketEvent :=
  v.history.filter fun e => e.sock = some k

/-- The socket is in the table. -/
def Listed (v : Holdings) (k : Sock) : Prop :=
  ∃ id rec, v.sockets.get? id = some rec ∧ v.os.denotes rec.handle = some k

/-- The socket is closed. -/
def Gone (v : Holdings) (k : Sock) : Prop := ∀ fd, v.os.denotes fd ≠ some k

/-- What becomes of a socket that was created for an operation. -/
inductive Settled (v : Holdings) (o : OpId) (k : Sock) : Prop
  /-- it got a record and was not closed, -/
  | handed (hlisted : v.Listed k) (h : v.events k = [.inserted (some k), .created o (some k)])
  /-- or closed later, with its record, -/
  | released (hgone : v.Gone k)
      (h : v.events k = [.closed (some k), .inserted (some k), .created o (some k)])
  /-- or it got none and was closed -/
  | closed (hgone : v.Gone k) (h : v.events k = [.closed (some k), .created o (some k)])

/-- A socket that was created for an operation is in a slot that is initialised for it, or settled.
-/
inductive Fate (v : Holdings) (o : OpId) (k : Sock) : Prop
  | waiting {s : StorageId} {fd : Fd} (hslot : v.slots s = some (some o, fd))
      (hsock : v.os.denotes fd = some k) (h : v.events k = [.created o (some k)])
  | settled (h : v.Settled o k)

theorem events_cons_self (sockets : Container IocpRecord)
    (slots : StorageId → Option (Option OpId × Fd)) (os : Os) {e : SocketEvent}
    (he : e.sock = some k) :
    events ⟨sockets, slots, os, e :: v.history⟩ k = e :: v.events k := by
  rw [events, List.filter_cons_of_pos (by simpa using he), events]

theorem events_cons_of_ne (sockets : Container IocpRecord)
    (slots : StorageId → Option (Option OpId × Fd)) (os : Os) {e : SocketEvent}
    (he : e.sock ≠ some k) : events ⟨sockets, slots, os, e :: v.history⟩ k = v.events k := by
  rw [events, List.filter_cons_of_neg (by simpa using he), events]

/-- An event about a socket is among its events. -/
theorem mem_events {e : SocketEvent} (he : e ∈ v.history) (hk : e.sock = some k) : e ∈ v.events k :=
  List.mem_filter.2 ⟨he, by simpa using hk⟩

/-- A change that does not concern the socket. -/
theorem Fate.mono (h : v.Fate o k) (hevents : v'.events k = v.events k)
    (hlisted : v.Listed k → v'.Listed k) (hgone : v.Gone k → v'.Gone k)
    (hslot : ∀ s fd, v.slots s = some (some o, fd) → v.os.denotes fd = some k →
      v'.slots s = some (some o, fd) ∧ v'.os.denotes fd = some k) : v'.Fate o k := by
  cases h with
  | waiting hs hsock h =>
    obtain ⟨hs', hsock'⟩ := hslot _ _ hs hsock
    exact .waiting hs' hsock' (hevents.trans h)
  | settled h =>
    cases h with
    | handed hl h => exact .settled (.handed (hlisted hl) (hevents.trans h))
    | released hg h => exact .settled (.released (hgone hg) (hevents.trans h))
    | closed hg h => exact .settled (.closed (hgone hg) (hevents.trans h))

/-- Every descriptor of the context has one holder, and every socket that was created for an
operation has a fate. -/
structure Tracked (v : Holdings) : Prop where
  table : ∃ waiting, Table IocpRecord.handle v.sockets v.os waiting ∧
    ∀ fd, fd ∈ waiting ↔ ∃ s o, v.slots s = some (o, fd)
  single : ∀ {s s' : StorageId} {o o' : Option OpId} {fd : Fd}, v.slots s = some (o, fd) →
    v.slots s' = some (o', fd) → s = s'
  numbered : v.os.Numbered
  recent : ∀ e ∈ v.history, ∃ k, e.sock = some k ∧ k < v.os.next
  fates : ∀ {o : OpId} {k : Sock}, .created o (some k) ∈ v.history → v.Fate o k

/-- A descriptor that the context does not hold. -/
structure Unheld (v : Holdings) (fd : Fd) : Prop where
  isOpen : v.os.IsOpen fd
  live : ∀ id rec, v.sockets.get? id = some rec → rec.handle ≠ fd
  slots : ∀ s o, v.slots s ≠ some (o, fd)

namespace Tracked

/-- A socket that no event is about. -/
theorem events_eq_nil (h : v.Tracked) (hk : v.os.next ≤ k) : v.events k = [] := by
  refine List.filter_eq_nil_iff.2 fun e he hsock => ?_
  obtain ⟨k', hk', hlt⟩ := h.recent e he
  rw [decide_eq_true_eq, hk'] at hsock
  obtain rfl := Option.some.inj hsock
  exact absurd hlt (Nat.not_lt.2 hk)

/-- What a slot holds is open. -/
theorem isOpen (h : v.Tracked) {o : Option OpId} (hslot : v.slots s = some (o, fd)) :
    v.os.IsOpen fd := by
  obtain ⟨waiting, htable, hwaiting⟩ := h.table
  exact htable.waits fd ((hwaiting fd).2 ⟨s, o, hslot⟩)

/-- A record and a slot do not hold the same descriptor. -/
theorem handle_ne (h : v.Tracked) (hget : v.sockets.get? id = some rec) {o : Option OpId}
    (hslot : v.slots s = some (o, fd)) : rec.handle ≠ fd := by
  obtain ⟨waiting, htable, hwaiting⟩ := h.table
  rintro rfl
  exact (htable.live hget).2 ((hwaiting _).2 ⟨s, o, hslot⟩)

/-- What happened to a socket whose descriptor is in a slot. -/
theorem fate_of_slot (h : v.Tracked) (hfate : v.Fate o k) {o' : Option OpId}
    (hslot : v.slots s = some (o', fd)) (hsock : v.os.denotes fd = some k) :
    o' = some o ∧ v.events k = [.created o (some k)] := by
  cases hfate with
  | waiting hs hsock' hevents =>
    obtain rfl := h.numbered.unique hsock hsock'
    obtain rfl := h.single hslot hs
    exact ⟨(Prod.mk.inj (Option.some.inj (hslot.symm.trans hs))).1, hevents⟩
  | settled hsettled =>
    cases hsettled with
    | handed hlisted =>
      obtain ⟨id, rec, hget, hsock'⟩ := hlisted
      exact absurd (h.numbered.unique hsock' hsock) (h.handle_ne hget hslot)
    | released hgone => exact absurd hsock (hgone _)
    | closed hgone => exact absurd hsock (hgone _)

/-- What happened to a socket whose descriptor is in a record. -/
theorem fate_of_live (h : v.Tracked) (hfate : v.Fate o k) (hget : v.sockets.get? id = some rec)
    (hsock : v.os.denotes rec.handle = some k) :
    v.events k = [.inserted (some k), .created o (some k)] := by
  cases hfate with
  | waiting hs hsock' =>
    exact absurd (h.numbered.unique hsock hsock') (h.handle_ne hget hs)
  | settled hsettled =>
    cases hsettled with
    | handed _ hevents => exact hevents
    | released hgone => exact absurd hsock (hgone _)
    | closed hgone => exact absurd hsock (hgone _)

/-- A socket whose descriptor the context does not hold was not created to accept with. -/
theorem not_created (h : v.Tracked) (hfd : v.Unheld fd) (hsock : v.os.denotes fd = some k) :
    .created o (some k) ∉ v.history := by
  intro hmem
  cases h.fates hmem with
  | waiting hs hsock' => exact hfd.slots _ _ (h.numbered.unique hsock' hsock ▸ hs)
  | settled hsettled =>
    cases hsettled with
    | handed hlisted =>
      obtain ⟨id, rec, hget, hsock'⟩ := hlisted
      exact hfd.live id rec hget (h.numbered.unique hsock' hsock)
    | released hgone => exact hgone _ hsock
    | closed hgone => exact hgone _ hsock

/-! ### Changes of hands -/

/-- The system opens a descriptor, which nobody holds yet. -/
theorem opened (h : v.Tracked) (hopen : v.os.open fd = .ok os) :
    Tracked { v with os := os } ∧ Unheld { v with os := os } fd := by
  obtain ⟨waiting, htable, hwaiting⟩ := h.table
  have htable' := htable.opened hopen
  have hnot := (List.nodup_cons.1 htable'.nodup).1
  refine ⟨⟨⟨waiting, htable'.forget, hwaiting⟩, h.single, h.numbered.opened hopen, ?_, ?_⟩, ?_⟩
  · intro e he
    obtain ⟨k, hk, hlt⟩ := h.recent e he
    have hnext : os.next = v.os.next + 1 := by
      obtain ⟨-, -, rfl⟩ := Os.open_eq_ok hopen
      rfl
    exact ⟨k, hk, hnext ▸ Nat.lt_succ_of_lt hlt⟩
  · intro o k hmem
    obtain ⟨k', hk', hlt⟩ := h.recent _ hmem
    obtain rfl : k = k' := Option.some.inj hk'
    refine (h.fates hmem).mono rfl ?_ ?_ fun s fd' hslot hsock =>
      ⟨hslot, Os.denotes_open hopen hsock⟩
    · rintro ⟨id, rec, hget, hsock⟩
      exact ⟨id, rec, hget, Os.denotes_open hopen hsock⟩
    · intro hgone fd' hsock
      rcases Os.denotes_of_open hopen hsock with ⟨-, rfl⟩ | hsock
      · exact absurd hlt (Nat.lt_irrefl _)
      · exact hgone fd' hsock
  · refine ⟨htable'.waits fd List.mem_cons_self, fun id rec hget he => ?_, fun s o hslot => ?_⟩
    · exact (htable'.live hget).2 (he ▸ List.mem_cons_self)
    · exact hnot ((hwaiting fd).2 ⟨s, o, hslot⟩)

/-- One more event about a socket that is there. -/
theorem recent_cons (h : v.Tracked) {e : SocketEvent} (he : e.sock = some k) (hk : k < v.os.next) :
    ∀ e' ∈ e :: v.history, ∃ k, e'.sock = some k ∧ k < v.os.next := by
  intro e' he'
  rcases List.mem_cons.1 he' with rfl | he'
  · exact ⟨k, he, hk⟩
  · exact h.recent e' he'

/-- A new socket is put into an empty slot that is initialised for an operation. -/
theorem fill (h : v.Tracked) (hfd : v.Unheld fd) (hslot : v.slots s = none)
    (hsock : v.os.denotes fd = some k) (hnew : v.events k = []) :
    Tracked { v with
      slots := Function.update v.slots s (some (some o, fd))
      history := .created o (some k) :: v.history } := by
  obtain ⟨waiting, htable, hwaiting⟩ := h.table
  have hnot : fd ∉ waiting := fun hmem => by
    obtain ⟨s', o', hs'⟩ := (hwaiting fd).1 hmem
    exact hfd.slots s' o' hs'
  have hslots : ∀ {s' : StorageId} {o' : Option OpId} {fd' : Fd},
      Function.update v.slots s (some (some o, fd)) s' = some (o', fd') ↔
        s' = s ∧ o' = some o ∧ fd' = fd ∨ v.slots s' = some (o', fd') := by
    intro s' o' fd'
    by_cases hs : s' = s
    · subst hs
      rw [Function.update_self, hslot]
      simp [eq_comm]
    · rw [Function.update_of_ne hs]
      simp [hs]
  refine ⟨⟨fd :: waiting, htable.arrive hfd.isOpen hfd.live hnot, fun fd' => ?_⟩, ?_, h.numbered,
    h.recent_cons rfl (h.numbered.lt hsock), ?_⟩
  · simp only [List.mem_cons, hwaiting, hslots]
    constructor
    · rintro (rfl | ⟨s', o', hs'⟩)
      · exact ⟨s, some o, .inl ⟨rfl, rfl, rfl⟩⟩
      · exact ⟨s', o', .inr hs'⟩
    · rintro ⟨s', o', ⟨-, -, rfl⟩ | hs'⟩
      · exact .inl rfl
      · exact .inr ⟨s', o', hs'⟩
  · intro a b o₁ o₂ fd' ha hb
    rcases hslots.1 ha with ⟨hsa, -, hfa⟩ | ha' <;> rcases hslots.1 hb with ⟨hsb, -, hfb⟩ | hb'
    · exact hsa.trans hsb.symm
    · exact absurd (hfa ▸ hb') (hfd.slots _ _)
    · exact absurd (hfb ▸ ha') (hfd.slots _ _)
    · exact h.single ha' hb'
  · intro o' k' hmem
    rcases List.mem_cons.1 hmem with heq | hmem
    · cases heq
      refine .waiting (hslots.2 (.inl ⟨rfl, rfl, rfl⟩)) hsock ?_
      rw [events_cons_self _ _ _ (by rfl), hnew]
    · have hne : k ≠ k' := by
        rintro rfl
        have hmem' := mem_events hmem rfl
        rw [hnew] at hmem'
        cases hmem'
      exact (h.fates hmem).mono (events_cons_of_ne _ _ _ (by simpa [SocketEvent.sock] using hne))
        (fun hlisted => hlisted) (fun hgone => hgone)
        fun s' fd' hs' hsock' => ⟨hslots.2 (.inr hs'), hsock'⟩

/-- The descriptors that are left when a slot is emptied. -/
theorem table_emptied (h : v.Tracked) {o' : Option OpId} (hslot : v.slots s = some (o', fd)) :
    ∃ waiting, Table IocpRecord.handle v.sockets v.os (fd :: waiting) ∧
      ∀ fd', fd' ∈ waiting ↔ ∃ s' o', Function.update v.slots s none s' = some (o', fd') := by
  obtain ⟨waiting, htable, hwaiting⟩ := h.table
  have hmem : fd ∈ waiting := (hwaiting fd).2 ⟨s, o', hslot⟩
  refine ⟨waiting.erase fd, htable.perm (List.perm_cons_erase hmem), fun fd' => ?_⟩
  rw [htable.nodup.mem_erase_iff, hwaiting]
  constructor
  · rintro ⟨hne, s', o₁, hs'⟩
    have hs : s' ≠ s := by
      rintro rfl
      exact hne (Prod.mk.inj (Option.some.inj (hs'.symm.trans hslot))).2
    exact ⟨s', o₁, by rw [Function.update_of_ne hs, hs']⟩
  · rintro ⟨s', o₁, hs'⟩
    have hs : s' ≠ s := by
      rintro rfl
      rw [Function.update_self] at hs'
      cases hs'
    rw [Function.update_of_ne hs] at hs'
    refine ⟨?_, s', o₁, hs'⟩
    rintro rfl
    exact hs (h.single hs' hslot)

/-- Of two slots at most one is emptied. -/
theorem single_emptied (h : v.Tracked) {a b : StorageId} {o₁ o₂ : Option OpId}
    (ha : Function.update v.slots s none a = some (o₁, fd))
    (hb : Function.update v.slots s none b = some (o₂, fd)) : a = b := by
  have hold : ∀ {a : StorageId} {o : Option OpId},
      Function.update v.slots s none a = some (o, fd) → v.slots a = some (o, fd) := by
    intro a o ha
    by_cases hs : a = s
    · subst hs
      rw [Function.update_self] at ha
      cases ha
    · exact (Function.update_of_ne hs _ _).symm.trans ha
  exact h.single (hold ha) (hold hb)

/-- A slot that holds another socket is not emptied. -/
theorem slot_emptied_of_ne (hk : k ≠ k') {o' : Option OpId} (hslot : v.slots s = some (o', fd))
    (hsock : v.os.denotes fd = some k) {s' : StorageId} {fd' : Fd} {o₁ : Option OpId}
    (hs' : v.slots s' = some (o₁, fd')) (hsock' : v.os.denotes fd' = some k') :
    fd' ≠ fd ∧ Function.update v.slots s none s' = some (o₁, fd') := by
  have hfd : fd' ≠ fd := by
    rintro rfl
    exact hk (Option.some.inj (hsock.symm.trans hsock'))
  have hs : s' ≠ s := by
    rintro rfl
    exact hfd (Prod.mk.inj (Option.some.inj (hs'.symm.trans hslot))).2
  exact ⟨hfd, (Function.update_of_ne hs _ _).trans hs'⟩

end Tracked

/-- Closing the descriptor of another socket. -/
theorem gone_close {fd : Fd} (h : v.Gone k) (sockets : Container IocpRecord)
    (slots : StorageId → Option (Option OpId × Fd)) (history : List SocketEvent) :
    Gone ⟨sockets, slots, v.os.close fd, history⟩ k := fun fd' hsock =>
  h fd' (Os.denotes_of_close hsock).2

/-- A socket is closed with its descriptor. -/
theorem gone_of_close (hos : v.os.Numbered) (hsock : v.os.denotes fd = some k)
    (sockets : Container IocpRecord) (slots : StorageId → Option (Option OpId × Fd))
    (history : List SocketEvent) : Gone ⟨sockets, slots, v.os.close fd, history⟩ k :=
  fun fd' hsock' => by
    obtain ⟨hne, hsock'⟩ := Os.denotes_of_close hsock'
    exact hne (hos.unique hsock' hsock)

namespace Tracked

/-- The socket in a slot is closed. -/
theorem drop (h : v.Tracked) {o' : Option OpId} (hslot : v.slots s = some (o', fd))
    (hsock : v.os.denotes fd = some k) :
    Tracked { v with
      slots := Function.update v.slots s none
      os := v.os.close fd
      history := .closed (some k) :: v.history } := by
  obtain ⟨waiting, htable, hwaiting⟩ := h.table_emptied hslot
  refine ⟨⟨waiting, htable.discard, hwaiting⟩, fun ha hb => h.single_emptied ha hb,
    h.numbered.close fd, h.recent_cons rfl (h.numbered.lt hsock), fun {o k'} hmem => ?_⟩
  have hmem := (List.mem_cons.1 hmem).resolve_left (by simp)
  by_cases hk : k = k'
  · subst hk
    obtain ⟨-, hevents⟩ := h.fate_of_slot (h.fates hmem) hslot hsock
    refine .settled (.closed (gone_of_close h.numbered hsock _ _ _) ?_)
    rw [events_cons_self _ _ _ (by rfl), hevents]
  · refine (h.fates hmem).mono (events_cons_of_ne _ _ _ (by simpa [SocketEvent.sock] using hk)) ?_
      (fun hgone => gone_close hgone _ _ _) fun s' fd' hs' hsock' => ?_
    · rintro ⟨id, rec, hget, hsock'⟩
      exact ⟨id, rec, hget, (Os.denotes_close_of_ne (h.handle_ne hget hslot)).trans hsock'⟩
    · obtain ⟨hfd, hs⟩ := slot_emptied_of_ne hk hslot hsock hs' hsock'
      exact ⟨hs, (Os.denotes_close_of_ne hfd).trans hsock'⟩

/-- A new record displaces none. -/
theorem get?_insert (h : v.Tracked) (hins : v.sockets.insert rec = .ok (sockets, id)) :
    sockets.get? id = some rec ∧
      ∀ id' rec', v.sockets.get? id' = some rec' → sockets.get? id' = some rec' := by
  obtain ⟨waiting, htable, -⟩ := h.table
  obtain ⟨hnew, hself, hother⟩ := Container.insert_spec hins htable.size_lt
  refine ⟨hself, fun id' rec' hget => ?_⟩
  have hne : id' ≠ id := by
    rintro rfl
    rw [hnew] at hget
    cases hget
  exact (hother _ hne).trans hget

/-- A descriptor gets a record. -/
theorem listed_insert (h : v.Tracked) (hins : v.sockets.insert rec = .ok (sockets, id))
    (slots : StorageId → Option (Option OpId × Fd)) (history : List SocketEvent) :
    (∀ k, v.Listed k → Listed ⟨sockets, slots, v.os, history⟩ k) ∧
      ∀ k, v.os.denotes rec.handle = some k → Listed ⟨sockets, slots, v.os, history⟩ k := by
  obtain ⟨hself, hother⟩ := h.get?_insert hins
  exact ⟨fun k ⟨id', rec', hget, hsock⟩ => ⟨id', rec', hother id' rec' hget, hsock⟩,
    fun k hsock => ⟨id, rec, hself, hsock⟩⟩

/-- The socket in a slot gets a record. -/
theorem hand (h : v.Tracked) (rec : IocpRecord) {o' : Option OpId}
    (hslot : v.slots s = some (o', rec.handle))
    (hsock : v.os.denotes rec.handle = some k) (hins : v.sockets.insert rec = .ok (sockets, id)) :
    Tracked { v with
      sockets := sockets
      slots := Function.update v.slots s none
      history := .inserted (some k) :: v.history } := by
  obtain ⟨waiting, htable, hwaiting⟩ := h.table_emptied hslot
  refine ⟨⟨waiting, htable.insert hins, hwaiting⟩, fun ha hb => h.single_emptied ha hb, h.numbered,
    h.recent_cons rfl (h.numbered.lt hsock), fun {o k'} hmem => ?_⟩
  have hmem := (List.mem_cons.1 hmem).resolve_left (by simp)
  by_cases hk : k = k'
  · subst hk
    obtain ⟨-, hevents⟩ := h.fate_of_slot (h.fates hmem) hslot hsock
    refine .settled (.handed ((h.listed_insert hins _ _).2 k hsock) ?_)
    rw [events_cons_self _ _ _ (by rfl), hevents]
  · exact (h.fates hmem).mono (events_cons_of_ne _ _ _ (by simpa [SocketEvent.sock] using hk))
      ((h.listed_insert hins _ _).1 k') (fun hgone => hgone) fun s' fd' hs' hsock' =>
        ⟨(slot_emptied_of_ne hk hslot hsock hs' hsock').2, hsock'⟩

/-- A descriptor that the context did not hold gets a record. -/
theorem adopt (h : v.Tracked) (rec : IocpRecord) (hfd : v.Unheld rec.handle)
    (hsock : v.os.denotes rec.handle = some k) (hins : v.sockets.insert rec = .ok (sockets, id)) :
    Tracked { v with sockets := sockets, history := .inserted (some k) :: v.history } := by
  obtain ⟨waiting, htable, hwaiting⟩ := h.table
  have hnot : rec.handle ∉ waiting := fun hmem => by
    obtain ⟨s, o, hs⟩ := (hwaiting _).1 hmem
    exact hfd.slots s o hs
  refine ⟨⟨waiting, (htable.arrive hfd.isOpen hfd.live hnot).insert hins, hwaiting⟩, h.single,
    h.numbered, h.recent_cons rfl (h.numbered.lt hsock), fun {o k'} hmem => ?_⟩
  have hmem := (List.mem_cons.1 hmem).resolve_left (by simp)
  have hk : k ≠ k' := by
    rintro rfl
    exact h.not_created hfd hsock hmem
  exact (h.fates hmem).mono (events_cons_of_ne _ _ _ (by simpa [SocketEvent.sock] using hk))
    ((h.listed_insert hins _ _).1 k') (fun hgone => hgone) fun s fd' hs hsock' => ⟨hs, hsock'⟩

/-- A record is erased and its socket closed. -/
theorem release (h : v.Tracked) (hget : v.sockets.get? id = some rec)
    (hsock : v.os.denotes rec.handle = some k) :
    Tracked { v with
      sockets := v.sockets.erase id
      os := v.os.close rec.handle
      history := .closed (some k) :: v.history } := by
  obtain ⟨waiting, htable, hwaiting⟩ := h.table
  refine ⟨⟨waiting, htable.release hget, hwaiting⟩, h.single, h.numbered.close _,
    h.recent_cons rfl (h.numbered.lt hsock), fun {o k'} hmem => ?_⟩
  have hmem := (List.mem_cons.1 hmem).resolve_left (by simp)
  by_cases hk : k = k'
  · subst hk
    have hevents := h.fate_of_live (h.fates hmem) hget hsock
    refine .settled (.released (gone_of_close h.numbered hsock _ _ _) ?_)
    rw [events_cons_self _ _ _ (by rfl), hevents]
  · refine (h.fates hmem).mono (events_cons_of_ne _ _ _ (by simpa [SocketEvent.sock] using hk)) ?_
      (fun hgone => gone_close hgone _ _ _) fun s fd hs hsock' => ⟨hs, ?_⟩
    · rintro ⟨id', rec', hget', hsock'⟩
      have hhandle : rec'.handle ≠ rec.handle := fun he =>
        hk (Option.some.inj (hsock.symm.trans (he ▸ hsock')))
      have hid : id' ≠ id := by
        rintro rfl
        exact hhandle (congrArg _ (Option.some.inj (hget'.symm.trans hget)))
      exact ⟨id', rec', (Container.get?_erase_of_ne hid).trans hget',
        (Os.denotes_close_of_ne hhandle).trans hsock'⟩
    · exact (Os.denotes_close_of_ne fun he => h.handle_ne hget hs he.symm).trans hsock'

end Tracked

theorem tracked_empty {os : Os} (hos : os.Numbered) : Tracked ⟨{}, fun _ => none, os, []⟩ where
  table := ⟨[], .empty _ os, by simp⟩
  single h := by cases h
  numbered := hos
  recent _ h := by cases h
  fates h := by cases h

end Holdings

end Net29
