import Net29.Iocp.Holdings
import Net29.Iocp.Wiring

/-!
# The sockets that `iocp_context` creates to accept with

`accept` creates a socket before there is a connection and keeps its handle in `accept_ol`, from
where it goes into the socket table or is closed. Otherwise it would be lost when the slot is
initialised again, or closed once more by the destructor.

* `AcceptInv`: a slot is empty unless an `accept` with it is pending;
* `submit_acceptInv`, `complete_acceptInv`, `release_acceptInv`, …: every call preserves it;
* `accepted_sockets_settled`: in every run, once its operation was signalled, such a socket is
  settled and its slot is empty.
-/

namespace Net29

open Machine Transition

namespace IocpContext

variable {c c' : IocpContext} {io : IoBase} {s : StorageId} {d : Direction}
  {ol : Overlapped} {data : IocpSocketData} {fs : List (Frame StorageId)} {r : SubmitResult}
  {req : Answers} {os : Os} {index : ℕ} {result : SysAnswer} {associate : Option Errno}

/-- The socket an `iocp_accept_data` holds, and the operation it is for. -/
def slot (ol : Overlapped) : Option (Option OpId × Fd) :=
  ol.acceptSocket.map fun fd => (ol.completion.map IoBase.self, fd)

/-- The holders of descriptors in a context. -/
def holdings (c : IocpContext) : Holdings where
  sockets := c.sockets
  slots s := (c.storage s).bind fun data => slot (data .accept)
  os := c.os
  history := c.history

theorem holdings_congr (hslots : c'.holdings.slots = c.holdings.slots)
    (hsockets : c'.sockets = c.sockets) (hos : c'.os = c.os) (hhistory : c'.history = c.history) :
    c'.holdings = c.holdings := by
  show Holdings.mk c'.sockets c'.holdings.slots c'.os c'.history = _
  rw [hslots, hsockets, hos, hhistory]
  rfl

theorem slots_rewritten_accept : (c.rewritten s data .accept ol).holdings.slots =
    Function.update c.holdings.slots s (slot ol) := by
  funext s'
  by_cases hs : s' = s
  · subst hs
    simp [holdings, rewritten]
  · simp [holdings, rewritten, Function.update_of_ne hs]

/-- Writing another `OVERLAPPED` of the block does not affect the slot. -/
theorem slots_rewritten_of_ne (hdata : c.storage s = some data) (hd : d ≠ .accept) :
    (c.rewritten s data d ol).holdings.slots = c.holdings.slots := by
  funext s'
  by_cases hs : s' = s
  · subst hs
    simp [holdings, rewritten, hdata, Function.update_of_ne hd.symm]
  · simp [holdings, rewritten, Function.update_of_ne hs]

/-- Nor does storing a result. -/
theorem slots_delivered {r : Request}
    (hdata : c.storage r.storage = some data) :
    (c.delivered index r data result).holdings.slots = c.holdings.slots := by
  by_cases hd : r.direction = .accept
  · have hslots : (c.delivered index r data result).holdings.slots =
        Function.update c.holdings.slots r.storage (slot (data .accept)) := by
      rw [delivered, hd]
      exact slots_rewritten_accept
    rw [hslots, Function.update_eq_self_iff]
    simp [holdings, hdata]
  · exact slots_rewritten_of_ne (c := c.dequeued index r) hdata hd

/-- Freeing a block with an empty slot. -/
theorem free_holdings (h : c.holdings.slots s = none) : (c.free s).holdings = c.holdings := by
  unfold free
  split
  · rfl
  · next data hdata =>
    have hnone : (data .accept).acceptSocket = none := by
      simpa [holdings, hdata, slot] using h
    have hslots : (fun s' => (Function.update c.storage s none s').bind fun data =>
        slot (data .accept)) = c.holdings.slots := by
      funext s'
      by_cases hs : s' = s
      · subst hs
        rw [Function.update_self, h]
        rfl
      · rw [Function.update_of_ne hs]
        rfl
    dsimp only
    rw [hnone]
    simp only [holdings] at hslots ⊢
    rw [hslots]

/-- A new block has an empty slot. -/
theorem slots_makeSocketNative (hI : IocpInv c) {fd : Fd} {id : SocketId}
    (h : c.makeSocketNative fd = .ok (c', id)) : c'.holdings.slots = c.holdings.slots := by
  obtain ⟨sockets, -, rfl⟩ := makeSocketNative_eq_ok h
  funext s
  by_cases hs : s = c.allocated
  · subst hs
    have hnone : c.storage c.allocated = none := by
      cases hdata : c.storage c.allocated with
      | none => rfl
      | some data => exact absurd (hI.heap hdata) (Nat.lt_irrefl _)
    simp [holdings, hnone, slot]
  · simp [holdings, Function.update_of_ne hs]

/-- The invariant: a slot is empty unless an `accept` with it is pending, and the socket it belongs
to is in the table then. -/
structure AcceptInv (c : IocpContext) : Prop where
  wired : c.Wired
  owned : c.Owned
  tracked : c.holdings.Tracked
  armed : ∀ s, c.holdings.slots s ≠ none → ∃ o, ⟨s, .accept, o⟩ ∈ c.requests
  listens : ∀ s o, ⟨s, .accept, o⟩ ∈ c.requests →
    ∃ id rec, c.sockets.get? id = some rec ∧ rec.io = s

/-- The invariant only depends on the holders of descriptors and on the requests for `accept`. -/
theorem AcceptInv.congr (h : AcceptInv c) (hW : c'.Wired) (hO : c'.Owned)
    (hholdings : c'.holdings = c.holdings)
    (hrequests : ∀ s o, ⟨s, .accept, o⟩ ∈ c'.requests ↔ ⟨s, .accept, o⟩ ∈ c.requests) :
    AcceptInv c' := by
  have hsockets : c'.sockets = c.sockets := congrArg Holdings.sockets hholdings
  refine ⟨hW, hO, hholdings.symm ▸ h.tracked, fun s hs => ?_, fun s o ho => ?_⟩
  · obtain ⟨o, ho⟩ := h.armed s (hholdings ▸ hs)
    exact ⟨o, (hrequests s o).2 ho⟩
  · rw [hsockets]
    exact h.listens s o ((hrequests s o).1 ho)

/-- The slot is empty of a socket with no `accept` pending. -/
theorem AcceptInv.slot_eq_none (h : AcceptInv c) (hnot : ∀ o, ⟨s, .accept, o⟩ ∉ c.requests) :
    c.holdings.slots s = none := by
  by_contra hslot
  obtain ⟨o, ho⟩ := h.armed s hslot
  exact hnot o ho

/-- Nothing is in the slot that is initialised for an `accept`. -/
theorem AcceptInv.slot_of_fits (h : AcceptInv c) (hfits : c.Fits io s .accept data) :
    c.holdings.slots s = none :=
  h.slot_eq_none fun _ ho => hfits.unused _ ho ⟨rfl, rfl⟩

/-- Initialising a slot for which there is no socket yet. -/
theorem AcceptInv.slots_initialised (h : AcceptInv c) (hfits : c.Fits io s .accept data) :
    (c.rewritten s data .accept { completion := some io }).holdings.slots = c.holdings.slots := by
  rw [slots_rewritten_accept, Function.update_eq_self_iff, h.slot_of_fits hfits]
  rfl

/-- A new socket is put into a slot. -/
theorem AcceptInv.fill (h : AcceptInv c) (hfits : c.Fits io s .accept data) {fd : Fd}
    (hopen : c.os.open fd = .ok os) :
    Holdings.Tracked ⟨c.sockets, Function.update c.holdings.slots s (some (some io.self, fd)), os,
      .created io.self (os.denotes fd) :: c.history⟩ := by
  obtain ⟨htracked, hunheld⟩ := h.tracked.opened hopen
  have hsock := Os.denotes_open_self hopen
  rw [hsock]
  exact htracked.fill hunheld (h.slot_of_fits hfits) hsock
    (h.tracked.events_eq_nil (Nat.le_refl c.os.next))

/-- A request of another direction is no `accept`. -/
theorem mem_requested_of_ne (hd : d ≠ .accept) {s' : StorageId} {o : OpId} :
    ⟨s', .accept, o⟩ ∈ (c.requested s d io.self).requests ↔ ⟨s', .accept, o⟩ ∈ c.requests := by
  simp [requested, Ne.symm hd]

theorem submit_acceptInv (h : AcceptInv c) (hI : IocpInv c) (hheld : c.held io.self = 0)
    (hsub : c.submit io req = .ok (c', fs, r)) : AcceptInv c' := by
  have hW := submit_wired h.wired hheld hsub
  have hO := submit_owned h.owned hI hsub
  cases submit_begins hsub with
  | timer => exact h.congr hW hO rfl fun _ _ => Iff.rfl
  | unopened hfits =>
    exact h.congr hW hO (holdings_congr (h.slots_initialised hfits) rfl rfl rfl) fun _ _ => Iff.rfl
  | refused hfits hd =>
    exact h.congr hW hO (holdings_congr (slots_rewritten_of_ne hfits.storage hd) rfl rfl rfl)
      fun _ _ => Iff.rfl
  | requested hfits hd =>
    exact h.congr hW hO (holdings_congr (slots_rewritten_of_ne hfits.storage hd) rfl rfl rfl)
      fun _ _ => mem_requested_of_ne hd
  | @closed s data fd os hfits hopen =>
    have hsock := Os.denotes_open_self hopen
    have hdrop := (h.fill hfits hopen).drop (Function.update_self ..) hsock
    have hslots : Function.update (Function.update c.holdings.slots s (some (some io.self, fd))) s
        none = c.holdings.slots := by
      rw [Function.update_idem, Function.update_eq_self_iff, h.slot_of_fits hfits]
    refine ⟨hW, hO, ?_, ?_, h.listens⟩
    · show Holdings.Tracked ⟨c.sockets, (c.rewritten s data .accept
        { completion := some io }).holdings.slots, os.close fd,
        .closed (os.denotes fd) :: .created io.self (os.denotes fd) :: c.history⟩
      rw [h.slots_initialised hfits, ← hslots, hsock]
      rwa [hsock] at hdrop
    · show ∀ s', (c.rewritten s data .accept { completion := some io }).holdings.slots s' ≠ none → _
      rw [h.slots_initialised hfits]
      exact h.armed
  | @accepting s data fd os hfits hopen =>
    have hslots : (c.rewritten s data .accept
        { completion := some io, acceptSocket := some fd }).holdings.slots =
        Function.update c.holdings.slots s (some (some io.self, fd)) := slots_rewritten_accept
    refine ⟨hW, hO, ?_, fun s' hs' => ?_, fun s' o' ho' => ?_⟩
    · show Holdings.Tracked ⟨c.sockets, (c.rewritten s data .accept
        { completion := some io, acceptSocket := some fd }).holdings.slots, os,
        .created io.self (os.denotes fd) :: c.history⟩
      rw [hslots]
      exact h.fill hfits hopen
    · by_cases hs : s' = s
      · exact ⟨io.self, hs ▸ List.mem_append_right _ (List.mem_singleton_self _)⟩
      · have hs'' : Function.update c.holdings.slots s (some (some io.self, fd)) s' ≠ none :=
          hslots ▸ hs'
        rw [Function.update_of_ne hs] at hs''
        obtain ⟨o', ho'⟩ := h.armed s' hs''
        exact ⟨o', List.mem_append_left _ ho'⟩
    · rcases List.mem_append.1 ho' with ho' | ho'
      · exact h.listens s' o' ho'
      · cases List.mem_singleton.1 ho'
        obtain ⟨rec, hrec, hio⟩ := hfits.record
        exact ⟨_, rec, hrec, hio⟩

/-- The work function of `accept` empties the slot: its socket is closed or gets a record. -/
theorem accepted_tracked (hI : IocpInv c) (h : c.holdings.Tracked)
    (hslot : c.holdings.slots s = slot ol) (haccepted : Accepted c s .accept data ol c') :
    c'.holdings.Tracked ∧ c'.holdings.slots = Function.update c.holdings.slots s none ∧
      c'.requests = c.requests ∧
      ∀ id rec, c.sockets.get? id = some rec → c'.sockets.get? id = some rec := by
  have hempty : slot { ol with acceptSocket := none } = none := rfl
  have hslots : (c.rewritten s data .accept { ol with acceptSocket := none }).holdings.slots =
      Function.update c.holdings.slots s none := slots_rewritten_accept
  -- the descriptor that the slot holds is open
  have hsock : ∀ {fd : Fd}, ol.acceptSocket = some fd →
      c.holdings.slots s = some (ol.completion.map IoBase.self, fd) ∧
        ∃ k, c.os.denotes fd = some k := by
    intro fd hfd
    have hs : c.holdings.slots s = some (ol.completion.map IoBase.self, fd) := by
      rw [hslot, slot, hfd]
      rfl
    exact ⟨hs, Option.isSome_iff_exists.1 (h.isOpen hs).1⟩
  cases haccepted with
  | missing hfd =>
    have hnone : c.holdings.slots s = none := by
      rw [hslot, slot, hfd]
      rfl
    have hself : Function.update c.holdings.slots s none = c.holdings.slots := by
      rw [Function.update_eq_self_iff, hnone]
    have hsame : (c.rewritten s data .accept { ol with acceptSocket := none }).holdings =
        c.holdings := holdings_congr (hslots.trans hself) rfl rfl rfl
    exact ⟨hsame ▸ h, hslots, rfl, fun _ _ hget => hget⟩
  | @closed fd hfd =>
    obtain ⟨hs, k, hk⟩ := hsock hfd
    refine ⟨?_, hslots, rfl, fun _ _ hget => hget⟩
    show Holdings.Tracked ⟨c.sockets,
      (c.rewritten s data .accept { ol with acceptSocket := none }).holdings.slots, c.os.close fd,
      .closed (c.os.denotes fd) :: c.history⟩
    rw [hslots, hk]
    exact h.drop hs hk
  | @handed fd c₁ id hfd hmake =>
    obtain ⟨hs, k, hk⟩ := hsock hfd
    have hslots₁ : (c₁.rewritten s data .accept { ol with acceptSocket := none }).holdings.slots =
        Function.update c.holdings.slots s none := by
      rw [slots_rewritten_accept, slots_makeSocketNative hI hmake]
      rfl
    obtain ⟨sockets, hins, rfl⟩ := makeSocketNative_eq_ok hmake
    refine ⟨?_, hslots₁, rfl, fun id rec hget => (h.get?_insert hins).2 id rec hget⟩
    show Holdings.Tracked ⟨sockets, (rewritten _ s data .accept _).holdings.slots, c.os,
      .inserted (c.os.denotes fd) :: c.history⟩
    rw [hslots₁, hk]
    exact h.hand ⟨fd, c.allocated⟩ hs hk hins

theorem complete_acceptInv (h : AcceptInv c) (hI : IocpInv c)
    (hcomp : c.complete index result associate = .ok (c', fs)) (hW : c'.Wired) (hO : c'.Owned) :
    AcceptInv c' := by
  obtain ⟨r, data, io, fs₁, res, hr, hdata, hio, hwork, -⟩ := complete_eq_ok h.wired hcomp
  have hsame : (c.delivered index r data result).holdings = c.holdings :=
    holdings_congr (slots_delivered hdata) rfl rfl rfl
  -- the other requests are still there
  have hothers : ∀ {r' : Request}, r' ∈ c.requests → r' ≠ r → r' ∈ c.requests.eraseIdx index := by
    intro r' hr' hne
    obtain ⟨hlt, hget⟩ := List.getElem?_eq_some_iff.1 hr
    have hperm := List.getElem_cons_eraseIdx_perm hlt
    exact (List.mem_cons.1 (hperm.mem_iff.2 hr')).resolve_left (hget ▸ hne)
  by_cases hd : r.direction = .accept
  · rw [work_of_accept hio hd] at hwork
    have hs : r.storage ≠ c.allocated := Nat.ne_of_lt (hI.heap hdata)
    have hends := acceptWork_cases delivered_storage_self hs hwork
    rw [hd] at hends
    have hslot : (c.delivered index r data result).holdings.slots r.storage =
        slot { data .accept with result := resultOf result } := by
      rw [hsame]
      simp [holdings, hdata, slot]
    obtain ⟨htracked, hslots, hrequests, hsockets⟩ :=
      accepted_tracked (hI.delivered hr hdata) (hsame ▸ h.tracked) hslot hends
    refine ⟨hW, hO, htracked, fun s' hs' => ?_, fun s' o' ho' => ?_⟩
    · rw [hslots, hsame] at hs'
      have hne : s' ≠ r.storage := by
        rintro rfl
        exact hs' (Function.update_self ..)
      rw [Function.update_of_ne hne] at hs'
      obtain ⟨o', ho'⟩ := h.armed s' hs'
      refine ⟨o', ?_⟩
      rw [hrequests]
      exact hothers ho' fun he => hne (he ▸ rfl)
    · rw [hrequests] at ho'
      obtain ⟨id, rec, hget, hio'⟩ := h.listens s' o' (List.mem_of_mem_eraseIdx ho')
      exact ⟨id, rec, hsockets id rec hget, hio'⟩
  · obtain rfl := work_ctx_of_ne hio hd hwork
    refine h.congr hW hO hsame fun s' o' => ⟨List.mem_of_mem_eraseIdx, fun ho' => ?_⟩
    exact hothers ho' fun he => hd (he ▸ rfl)

/-- The steps in which no socket is released while an `accept` with it is pending, and a native
handle given to the context is open and not held by it already. -/
def ListensWhilePending (m : Machine IocpContext StorageId) : Label Answers Unit IocpCall → Prop
  | .call (.release id _) => ∀ rec, m.ctx.sockets.get? id = some rec →
      ∀ o, ⟨rec.io, .accept, o⟩ ∉ m.ctx.requests
  | .call (.makeSocketNative fd) => m.ctx.holdings.Unheld fd
  | _ => True

theorem makeSocketNative_acceptInv {fd : Fd} {id : SocketId} (h : AcceptInv c) (hI : IocpInv c)
    (hfd : c.holdings.Unheld fd) (hmake : c.makeSocketNative fd = .ok (c', id)) (hW : c'.Wired)
    (hO : c'.Owned) : AcceptInv c' := by
  have hslots := slots_makeSocketNative hI hmake
  obtain ⟨k, hk⟩ := Option.isSome_iff_exists.1 hfd.isOpen.1
  have hk' : c.os.denotes fd = some k := hk
  obtain ⟨sockets, hins, rfl⟩ := makeSocketNative_eq_ok hmake
  refine ⟨hW, hO, ?_, fun s hs => h.armed s (hslots ▸ hs), fun s o ho => ?_⟩
  · show Holdings.Tracked ⟨sockets, (IocpContext.holdings _).slots, c.os,
      .inserted (c.os.denotes fd) :: c.history⟩
    rw [hslots, hk']
    exact h.tracked.adopt ⟨fd, c.allocated⟩ hfd hk hins
  · obtain ⟨id, rec, hget, hio⟩ := h.listens s o ho
    exact ⟨id, rec, (h.tracked.get?_insert hins).2 id rec hget, hio⟩

theorem release_acceptInv {id : SocketId} {a e : Option Errno} (h : AcceptInv c)
    (hguard : ∀ rec, c.sockets.get? id = some rec → ∀ o, ⟨rec.io, .accept, o⟩ ∉ c.requests)
    (hrel : c.release id a = .ok (c', e)) (hW : c'.Wired) (hO : c'.Owned) : AcceptInv c' := by
  obtain ⟨rec, c₁, hrec, rfl, hcases⟩ := release_cases hrel
  obtain ⟨k, hk⟩ : ∃ k, c.os.denotes rec.handle = some k := by
    obtain ⟨waiting, htable, -⟩ := h.tracked.table
    exact Option.isSome_iff_exists.1 (htable.live hrec).1.1
  have hempty : c.holdings.slots rec.io = none := h.slot_eq_none (hguard rec hrec)
  -- the block is kept, or freed with an empty slot
  have hsame : c₁.holdings = { c.holdings with sockets := c.sockets.erase id } ∧
      c₁.requests = c.requests := by
    rcases hcases with ⟨-, rfl⟩ | ⟨-, rfl⟩
    · exact ⟨rfl, rfl⟩
    · exact ⟨free_holdings (c := { c with sockets := c.sockets.erase id }) hempty,
        free_requests _ _⟩
  obtain ⟨hholdings, hrequests⟩ := hsame
  have hos : c₁.os = c.os := congrArg Holdings.os hholdings
  have hview : (c₁.closeSocket rec.handle).holdings = { c.holdings with
      sockets := c.sockets.erase id
      os := c.os.close rec.handle
      history := .closed (some k) :: c.history } := by
    show Holdings.mk c₁.sockets c₁.holdings.slots (c₁.os.close rec.handle)
      (.closed (c₁.os.denotes rec.handle) :: c₁.history) = _
    rw [hos, hk, hholdings, show c₁.sockets = c.sockets.erase id from
      congrArg Holdings.sockets hholdings, show c₁.history = c.history from
      congrArg Holdings.history hholdings]
  refine ⟨hW, hO, hview ▸ h.tracked.release hrec hk, fun s hs => ?_, fun s o ho => ?_⟩
  · rw [hview] at hs
    obtain ⟨o, ho⟩ := h.armed s hs
    exact ⟨o, hrequests.symm ▸ ho⟩
  · have ho' : ⟨s, .accept, o⟩ ∈ c.requests := hrequests ▸ ho
    obtain ⟨id', rec', hget, rfl⟩ := h.listens s o ho'
    have hne : id' ≠ id := by
      rintro rfl
      obtain rfl : rec = rec' := Option.some.inj (hrec.symm.trans hget)
      exact hguard rec hrec o ho'
    refine ⟨id', rec', ?_, rfl⟩
    have hsockets : (c₁.closeSocket rec.handle).sockets = c.sockets.erase id :=
      congrArg Holdings.sockets hview
    rw [hsockets, Container.get?_erase_of_ne hne]
    exact hget

theorem makeSocket_acceptInv {a : SysAnswer} {id : SocketId} {e : Option Errno} (h : AcceptInv c)
    (hI : IocpInv c) (hmake : c.makeSocket a associate = .ok (c', id, e)) (hW : c'.Wired)
    (hO : c'.Owned) : AcceptInv c' := by
  rcases makeSocket_eq_ok hmake with rfl | ⟨fd, c₁, hopened, hmade⟩
  · exact h
  · obtain ⟨os, hopen, rfl⟩ := opened_eq_ok hopened
    obtain ⟨htracked, hunheld⟩ := h.tracked.opened hopen
    have h₁ : AcceptInv { c with os := os } :=
      ⟨h.wired.congr rfl rfl rfl, h.owned.congr rfl rfl rfl, htracked, h.armed, h.listens⟩
    rcases hmade with rfl | hmake
    · exact h₁
    · exact makeSocketNative_acceptInv h₁ ⟨hI.count, hI.heap, hI.issued, hI.named⟩ hunheld hmake
        hW hO

theorem runOne_acceptInv {now : Time} {answer : Option PortAnswer} {n : ℕ} (h : AcceptInv c)
    (hI : IocpInv c) (hrun : c.runOne now answer = .ok (c', fs, n)) : AcceptInv c' := by
  have hW := runOne_wired h.wired hI hrun
  have hO := runOne_owned h.owned hI hrun
  cases runOne_cases hrun with
  | timer _ ht =>
    obtain ⟨io, timeouts, -, -, rfl, -⟩ := processTimeout_eq_some ht
    exact h.congr hW hO rfl fun _ _ => Iff.rfl
  | task ht =>
    obtain ⟨t, tasks, -, rfl, -⟩ := processTask_eq_some ht
    exact h.congr hW hO rfl fun _ _ => Iff.rfl
  | stale => exact h.congr hW hO rfl fun _ _ => Iff.rfl
  | completed _ hcomp => exact complete_acceptInv h hI hcomp hW hO
  | _ => exact h

theorem call_acceptInv {m : Machine IocpContext StorageId} {k : IocpCall} (h : AcceptInv m.ctx)
    (hI : IocpInv m.ctx) (hguard : ListensWhilePending m (.call k))
    (hcall : iocpBase.call m.ctx k = .ok (c', fs)) : AcceptInv c' := by
  have hW := call_wired h.wired hI hcall
  have hO := call_owned h.owned hI hcall
  cases call_eq_ok hcall with
  | runOne hrun => exact runOne_acceptInv h hI hrun
  | schedule t => exact h.congr hW hO rfl fun _ _ => Iff.rfl
  | makeSocket hmake => exact makeSocket_acceptInv h hI hmake hW hO
  | makeSocketNative hmake => exact makeSocketNative_acceptInv h hI hguard hmake hW hO
  | release hrel => exact release_acceptInv h hguard hrel hW hO

/-- A block in `deferred` belongs to no socket, so no `accept` with it is pending. -/
theorem AcceptInv.popDeferred_holdings (h : AcceptInv c) (s : StorageId) :
    (c.popDeferred s).holdings = c.holdings ∧ (c.popDeferred s).requests = c.requests := by
  unfold popDeferred
  dsimp only
  split
  · exact ⟨rfl, rfl⟩
  · next head deferred hdef =>
    have hempty : c.holdings.slots head = none := h.slot_eq_none fun o ho => by
      obtain ⟨id, rec, hget, rfl⟩ := h.listens head o ho
      exact (h.owned.live hget).2 (hdef ▸ List.mem_cons_self)
    exact ⟨free_holdings (c := { c with working := c.working.erase s, deferred := deferred })
      hempty, free_requests _ _⟩

theorem popDeferred_acceptInv (h : AcceptInv c) (s : StorageId) : AcceptInv (c.popDeferred s) := by
  obtain ⟨hholdings, hrequests⟩ := h.popDeferred_holdings s
  refine h.congr (popDeferred_wired h.wired s) (popDeferred_owned h.owned s) hholdings
    fun s' o' => ?_
  rw [hrequests]

theorem acceptInv_stable : Stable ListensWhilePending AcceptInv where
  submit hI h hheld hsub := submit_acceptInv h hI hheld hsub
  timeouts _ h :=
    h.congr (h.wired.congr rfl rfl rfl) (h.owned.congr rfl rfl rfl) rfl fun _ _ => Iff.rfl
  call hI h hguard hcall := call_acceptInv h hI hguard hcall
  tail s h := popDeferred_acceptInv h s

theorem acceptInv_initial {os : Os} (hos : os.Numbered) : AcceptInv (initial os) where
  wired _ hr := by cases hr
  owned := ⟨fun hget => (by cases hget), fun hget => (by cases hget), List.nodup_nil,
    fun hs => (by cases hs)⟩
  tracked := Holdings.tracked_empty hos
  armed _ hs := absurd rfl hs
  listens _ _ ho := by cases ho

variable {m : Machine IocpContext StorageId} {o : OpId}

/-- Nothing is pending for an operation whose receiver was signalled. -/
theorem held_of_signalled (hS : iocpLedger.Sound False False m) (hstatus : m.status = none)
    (hsignals : (m.ops o).signals ≠ []) : m.ctx.held o = 0 := by
  cases hS.phase hstatus o with
  | idle hs => exact absurd (by rw [hs]; rfl) hsignals
  | live hlive => exact absurd hlive.signals hsignals
  | done hdone => exact hdone.held
  | refused _ hheld => exact hheld

/-- What is in a slot is for the operation whose `accept` is pending with it. -/
theorem AcceptInv.pending_of_slot (h : AcceptInv c) (hdata : c.storage s = some data)
    (hslot : slot (data .accept) ≠ none) :
    ∃ io, (data .accept).completion = some io ∧ 0 < c.held io.self := by
  have hs : c.holdings.slots s ≠ none := by simpa [holdings, hdata] using hslot
  obtain ⟨o, ho⟩ := h.armed s hs
  obtain ⟨io, hio⟩ := h.wired _ ho data hdata
  refine ⟨io, hio.completion, Nat.add_pos_left (List.countP_pos_iff.2 ⟨_, ho, ?_⟩) _⟩
  simpa using hio.self.symm

end IocpContext

open IocpContext

/-- **The sockets that `accept` creates** are settled once its operation was signalled: each was
given a record once and is not closed before its record is erased, or was closed once and has no
record; nothing is closed that is not open. The slot is empty then, and no slot without a pending
`accept` holds a socket. -/
theorem accepted_sockets_settled (os : Os) (hos : os.Numbered) (m : Machine IocpContext StorageId)
    (h : Runs iocpBase ListensWhilePending (IocpContext.initial os) m) (hstatus : m.status = none) :
    (∀ o sock, .created o sock ∈ m.ctx.history → (m.ops o).signals ≠ [] →
      ∃ k, sock = some k ∧ m.ctx.holdings.Settled o k) ∧
    .closed none ∉ m.ctx.history ∧
    (∀ s data io, m.ctx.storage s = some data → (data .accept).completion = some io →
      (m.ops io.self).signals ≠ [] → (data .accept).acceptSocket = none) ∧
    (∀ s data, m.ctx.storage s = some data → (∀ o, ⟨s, .accept, o⟩ ∉ m.ctx.requests) →
      (data .accept).acceptSocket = none) := by
  have hS := sound_of_runs h
  have hI : AcceptInv m.ctx := acceptInv_stable.of_runs (acceptInv_initial hos) h
  refine ⟨fun o sock hmem hsignals => ?_, fun hmem => ?_, fun s data io hdata hio hsignals => ?_,
    fun s data hdata hnot => ?_⟩
  · obtain ⟨k, hk, -⟩ := hI.tracked.recent _ hmem
    obtain rfl : sock = some k := hk
    refine ⟨k, rfl, ?_⟩
    cases hI.tracked.fates hmem with
    | settled hsettled => exact hsettled
    | @waiting s fd hslot =>
      -- the operation in the slot is pending
      obtain ⟨data, hdata, hs⟩ := Option.bind_eq_some_iff.1 hslot
      obtain ⟨io, hio, hheld⟩ := hI.pending_of_slot hdata (by simp [hs])
      have ho : io.self = o := by
        obtain ⟨fd', -, heq⟩ := Option.map_eq_some_iff.1 hs
        rw [hio] at heq
        exact Option.some.inj (Prod.mk.inj heq).1
      rw [ho, held_of_signalled hS hstatus hsignals] at hheld
      exact absurd hheld (Nat.lt_irrefl 0)
  · obtain ⟨k, hk, -⟩ := hI.tracked.recent _ hmem
    cases hk
  · by_contra hne
    have hslot : slot (data .accept) ≠ none := by simpa [slot] using hne
    obtain ⟨io', hio', hheld⟩ := hI.pending_of_slot hdata hslot
    obtain rfl : io = io' := Option.some.inj (hio.symm.trans hio')
    rw [held_of_signalled hS hstatus hsignals] at hheld
    exact absurd hheld (Nat.lt_irrefl 0)
  · have hslot := hI.slot_eq_none hnot
    simpa [holdings, hdata, slot] using hslot

/-- One `accept` succeeds, the next one fails at once. -/
def acceptedTwice : List (Label Answers Unit IocpCall) :=
  [.call (.makeSocket (.ok 3 []) none),
    .start ⟨1, .accept 0 136⟩ { sys := [.ok 4 [], .err ERROR_IO_PENDING] } false (),
    .call (.runOne 0 (some (.completion 0 (.ok 0 [2, 0]) none))), .ret,
    .start ⟨2, .accept 0 136⟩ { sys := [.ok 5 [], .err WSAECONNRESET] } false ()]

/-- No socket is released, and no native handle is adopted. -/
def kept (_ : Machine IocpContext StorageId) : Label Answers Unit IocpCall → Bool
  | .call (.release _ _) | .call (.makeSocketNative _) => false
  | _ => true

theorem kept_listens (m : Machine IocpContext StorageId) (l : Label Answers Unit IocpCall)
    (h : kept m l = true) : ListensWhilePending m l := by
  cases l with
  | call k => cases k <;> trivial
  | _ => trivial

theorem accepted_sockets_settled_acceptedTwice :
    ∃ m : Machine IocpContext StorageId,
      Runs iocpBase ListensWhilePending (IocpContext.initial {}) m ∧
      m.ctx.holdings.Settled 1 1 ∧ m.ctx.holdings.Settled 2 2 := by
  obtain ⟨m, hrun, hm⟩ := runs_of_labels iocpBase (IocpContext.initial {}) kept kept_listens
    acceptedTwice (fun m => (m.status, m.ctx.history, (m.ops 1).signals.length,
      (m.ops 2).signals.length))
    (none, [.closed (some 2), .created 2 (some 2), .inserted (some 1), .created 1 (some 1),
      .inserted (some 0)], 1, 1) (by decide)
  obtain ⟨hstatus, hhistory, hone, htwo⟩ : _ ∧ _ ∧ _ ∧ _ := by simpa only [Prod.mk.injEq] using hm
  have hsettled := (accepted_sockets_settled {} Os.numbered_empty m hrun hstatus).1
  obtain ⟨k, hk, hfirst⟩ := hsettled 1 (some 1) (by rw [hhistory]; decide) (by
    intro hnil
    rw [hnil] at hone
    cases hone)
  obtain ⟨k', hk', hsecond⟩ := hsettled 2 (some 2) (by rw [hhistory]; decide) (by
    intro hnil
    rw [hnil] at htwo
    cases htwo)
  cases hk
  cases hk'
  exact ⟨m, hrun, hfirst, hsecond⟩

end Net29
