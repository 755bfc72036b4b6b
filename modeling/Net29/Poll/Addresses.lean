import Net29.Poll.Acceptor
import Net29.Poll.Steps

/-!
# The address lengths handed to the system

An endpoint has a length stored with it (`Endpoint.size`); `basic_endpoint` hides it by a `size`
computed from the family. `bind` converts the endpoint and passes the computed length, `connect`
slices it and passes the stored one, `accept` passes `sizeof` the endpoint.

* `AcceptDesc.submit`, `ConnectDesc.submit`: what the descriptors fill in;
* `Made`, `Made.fits`: the constructors and conversions, and the lengths they store;
* `Passes`: which length is passed for which endpoint;
* `address_lengths_iff`: when it is the right one.
-/

namespace Net29

open Machine Transition

/-- `sizeof(detail::endpoint)`: the storage and the length, padded to the alignment of 8. -/
def sizeofEndpoint : ℕ := 136

/-- `accept_desc::data::submit`. -/
def AcceptDesc.submit (id : SocketId) : Operation := .accept id sizeofEndpoint

/-- `connect_desc::data::submit`: the endpoint of the socket is assigned to its base class. -/
def ConnectDesc.submit (id : SocketId) (endpoint : BasicEndpoint) : Operation :=
  .connect id endpoint.base

/-- An operation that a descriptor filled in. -/
inductive Described : Operation → Prop
  | accept (id : SocketId) : Described (AcceptDesc.submit id)
  | connect (id : SocketId) (endpoint : BasicEndpoint) : Described (ConnectDesc.submit id endpoint)
  | poll (id : SocketId) (mask : EventType) : Described (.poll id mask)
  | receive (id : SocketId) (buffers : List ℕ) : Described (.receive id buffers)
  | send (id : SocketId) (buffers : List ℕ) : Described (.send id buffers)
  | resumeAt (time : Time) : Described (.resumeAt time)

theorem Described.addrlen {id : SocketId} {len : ℕ} (h : Described (.accept id len)) :
    len = sizeofEndpoint := by
  cases h
  rfl

/-- The steps in which the operation that is started was filled in by its descriptor. -/
def StartsDescribed (_ : Machine PollContext Empty) : Label Answers Unit PollCall → Prop
  | .start io _ _ _ => Described io.op
  | _ => True

/-! ### Endpoints -/

namespace Endpoint

variable (host : ByteOrder)

/-- `ss_family`. -/
def family (e : Endpoint) : ℕ := e.storage.get host familyField

/-- `len` is the size of the family's address structure, for the two internet families. -/
def FamilySize (e : Endpoint) (len : ℕ) : Prop :=
  (e.family host = PF_INET → len = sizeofSockaddrIn) ∧
    (e.family host = PF_INET6 → len = sizeofSockaddrIn6)

/-- The length stored with an endpoint is the one of its address. -/
def Fits (e : Endpoint) : Prop := e.size ≤ sizeofSockaddrStorage ∧ e.FamilySize host e.size

end Endpoint

/-- The endpoints that the constructors and conversions make, from those that are `given`. -/
inductive Made (host : ByteOrder) (given : Endpoint → Prop) : Endpoint → Prop
  | given {e : Endpoint} (h : given e) : Made host given e
  | empty : Made host given .empty
  /-- `basic_endpoint(address, port)` -/
  | address (addr : Address) (port : UInt16) :
      Made host given (BasicEndpoint.ofAddress host addr port).base
  /-- `endpoint(e)` of an endpoint that is not const -/
  | copy {e : Endpoint} (h : Made host given e) : Made host given (.ofPointer e.storage e.size)
  /-- `endpoint(e)` of a `basic_endpoint`; a `basic_endpoint` of an endpoint has the same base -/
  | convert {e : Endpoint} (h : Made host given e) : Made host given (.ofBasic host ⟨e⟩)

section Made

variable {host : ByteOrder} {given : Endpoint → Prop} {e : Endpoint}

theorem Endpoint.family_ofPointer {m : Memory} {n : ℕ} (h : 2 ≤ n) :
    (Endpoint.ofPointer m n).family host = m.get host familyField :=
  Memory.get_congr (read_ofPointer (Nat.le_min.2 ⟨h, by decide⟩))

theorem BasicEndpoint.size_cases (host : ByteOrder) (e : BasicEndpoint) :
    2 ≤ e.size host ∧ e.size host ≤ sizeofSockaddrStorage ∧
      e.base.FamilySize host (e.size host) := by
  unfold BasicEndpoint.size
  split_ifs with hv4
  · refine ⟨by decide, by decide, fun _ => rfl, fun hv6 => ?_⟩
    exact absurd (hv4.symm.trans hv6) (by decide)
  · exact ⟨by decide, by decide, fun h => absurd h hv4, fun _ => rfl⟩

theorem Endpoint.fits_empty : Endpoint.empty.Fits host := by
  have hfamily : Endpoint.empty.family host = 0 := by
    cases host <;> decide
  refine ⟨Nat.le_refl _, fun h => ?_, fun h => ?_⟩ <;> rw [hfamily] at h <;> cases h

/-- The length that is computed from the family is stored by the conversion. -/
theorem Endpoint.fits_ofBasic (e : BasicEndpoint) : (Endpoint.ofBasic host e).Fits host := by
  obtain ⟨htwo, hle, hsize⟩ := e.size_cases host
  have hfamily : (Endpoint.ofBasic host e).family host = e.base.family host := family_ofPointer htwo
  refine ⟨hle, fun h => hsize.1 ?_, fun h => hsize.2 ?_⟩
  · rwa [← hfamily]
  · rwa [← hfamily]

theorem Endpoint.fits_ofAddress (addr : Address) (port : UInt16) :
    (BasicEndpoint.ofAddress host addr port).base.Fits host := by
  obtain ⟨-, hle, hsize⟩ := (BasicEndpoint.ofAddress host addr port).size_cases host
  rw [← BasicEndpoint.size_ofAddress] at hle hsize
  exact ⟨hle, hsize⟩

theorem Endpoint.Fits.copy (h : e.Fits host) (htwo : 2 ≤ e.size) :
    (Endpoint.ofPointer e.storage e.size).Fits host := by
  have hfamily : (Endpoint.ofPointer e.storage e.size).family host = e.family host :=
    family_ofPointer htwo
  refine ⟨h.1, fun hv4 => h.2.1 ?_, fun hv6 => h.2.2 ?_⟩
  · rwa [← hfamily]
  · rwa [← hfamily]

/-- **The constructors and conversions store the right length**, as long as those endpoints have it
that are not made from an address. -/
theorem Made.fits (h : Made host given e) (hgiven : ∀ e, given e → 2 ≤ e.size ∧ e.Fits host) :
    2 ≤ e.size ∧ e.Fits host := by
  induction h with
  | given h => exact hgiven _ h
  | empty => exact ⟨by decide, Endpoint.fits_empty⟩
  | address addr port =>
    refine ⟨?_, Endpoint.fits_ofAddress addr port⟩
    rw [BasicEndpoint.size_ofAddress]
    exact (BasicEndpoint.size_cases host _).1
  | copy _ ih => exact ⟨ih.1, ih.2.copy ih.1⟩
  | convert _ _ => exact ⟨(BasicEndpoint.size_cases host _).1, Endpoint.fits_ofBasic _⟩

end Made

/-! ### The calls of an operation -/

/-- The lengths that are passed for an operation: to `::accept` the one in the operation, to
`::connect` the one of the endpoint. -/
def OsCall.PassesFor (call : OsCall) (op : Operation) : Prop :=
  (call.call = .accept → ∃ id, op = .accept id call.len) ∧
    (call.call = .connect → ∃ id endpoint, op = .connect id endpoint ∧ call.len = endpoint.size)

namespace PollContext

variable {c c' : PollContext} {io : IoBase} {fs : List (Frame Empty)} {r : SubmitResult}
  {sys : List SysAnswer} {k : Syscall} {n : ℕ} {fd : Fd} {len : ℕ}

/-- The calls that were added are made for `io`, with its lengths. -/
def CallsFor (io : IoBase) (c c' : PollContext) : Prop :=
  ∀ call ∈ c'.env.calls, call ∈ c.env.calls ∨ call.op = io.self ∧ call.PassesFor io.op

theorem CallsFor.refl (io : IoBase) (c : PollContext) : CallsFor io c c := fun _ => .inl

theorem CallsFor.of_eq (h : c'.env.calls = c.env.calls) : CallsFor io c c' :=
  fun _ hcall => .inl (h ▸ hcall)

theorem CallsFor.trans {c₁ : PollContext} (h : CallsFor io c c₁) (h' : CallsFor io c₁ c') :
    CallsFor io c c' := fun call hcall => (h' call hcall).elim (h call) .inr

/-- Calls are made that take no address, or are passed the length of the operation. -/
theorem callsFor_logCalls
    (haccept : k = .accept → ∃ id, io.op = .accept id len)
    (hconnect : k = .connect → ∃ id endpoint, io.op = .connect id endpoint ∧ len = endpoint.size) :
    CallsFor io c (c.logCalls n io k fd len) := by
  intro call hcall
  rcases List.mem_append.1 hcall with hcall | hcall
  · rw [List.eq_of_mem_replicate hcall]
    exact .inr ⟨rfl, haccept, hconnect⟩
  · exact .inl hcall

theorem acceptWork_callsFor {id : SocketId} (hop : io.op = .accept id len)
    (h : c.acceptWork io len sys = .ok (c', fs, r)) : CallsFor io c c' := by
  obtain ⟨fd, -, h⟩ := Exec.bind_eq_ok.1 h
  have hlog : ∀ {n : ℕ}, CallsFor io c (c.logCalls n io .accept fd len) :=
    callsFor_logCalls (fun _ => ⟨id, hop⟩) fun hk => by cases hk
  split at h
  · cases h
  · obtain ⟨c₁, hopen, h⟩ := Exec.bind_eq_ok.1 h
    obtain ⟨⟨c₂, id'⟩, hmake, h⟩ := Exec.bind_eq_ok.1 h
    cases h
    obtain ⟨os, -, hc⟩ := Exec.bind_eq_ok.1 hopen
    cases hc
    obtain ⟨sockets, -, rfl⟩ := makeSocketNative_eq_ok hmake
    exact hlog.trans (.of_eq rfl)
  · split_ifs at h <;> cases h
    · exact hlog
    · exact hlog

theorem connectWork_callsFor (h : c.connectWork io sys = .ok (c', fs, r)) : CallsFor io c c' := by
  obtain ⟨fd, -, h⟩ := Exec.bind_eq_ok.1 h
  have hlog : CallsFor io c (c.logCalls 1 io .getsockopt fd 0) :=
    callsFor_logCalls (fun hk => by cases hk) fun hk => by cases hk
  split at h
  · cases h
  · cases h; exact hlog
  · split_ifs at h <;> cases h
    · exact hlog
    · exact hlog

theorem transferWork_callsFor (haccept : k ≠ .accept) (hconnect : k ≠ .connect)
    (h : transferWork k c io sys = .ok (c', fs, r)) : CallsFor io c c' := by
  obtain ⟨fd, -, h⟩ := Exec.bind_eq_ok.1 h
  have hlog : ∀ {n : ℕ}, CallsFor io c (c.logCalls n io k fd 0) :=
    callsFor_logCalls (fun hk => absurd hk haccept) fun hk => absurd hk hconnect
  split at h
  · cases h
  · dsimp only at h
    split at h
    · cases h; exact hlog
    · split_ifs at h <;> cases h
      · exact hlog
      · exact hlog
      · exact hlog

theorem work_callsFor (h : c.work io sys = .ok (c', fs, r)) : CallsFor io c c' := by
  unfold work at h
  split at h
  · cases h; exact .refl io c
  · next hop => exact acceptWork_callsFor hop h
  · exact connectWork_callsFor h
  · exact transferWork_callsFor (by simp) (by simp) h
  · exact transferWork_callsFor (by simp) (by simp) h
  · cases h

theorem addOutstanding_callsFor (h : c.addOutstanding io sys = .ok (c', fs, r)) :
    CallsFor io c c' := by
  have hback : ∀ {c c' : PollContext}, c.emplaceBack io = .ok c' → CallsFor io c c' := by
    intro c c' h
    obtain ⟨fd, -, h⟩ := Exec.bind_eq_ok.1 h
    cases h
    exact .of_eq rfl
  unfold addOutstanding at h
  split at h
  · cases h
  · split_ifs at h
    · obtain ⟨c₁, hc₁, h⟩ := Exec.bind_eq_ok.1 h
      cases h
      exact hback hc₁
    · obtain ⟨⟨c₁, fs₁, r₁⟩, hwork, h⟩ := Exec.bind_eq_ok.1 h
      dsimp only at h
      split_ifs at h
      · obtain ⟨c₂, hc₂, h⟩ := Exec.bind_eq_ok.1 h
        cases h
        exact (work_callsFor hwork).trans (hback hc₂)
      · cases h
        exact work_callsFor hwork

theorem connect_callsFor {id : SocketId} {endpoint : Endpoint} (hop : io.op = .connect id endpoint)
    (h : c.connect io endpoint sys = .ok (c', fs, r)) : CallsFor io c c' := by
  obtain ⟨fd, -, h⟩ := Exec.bind_eq_ok.1 h
  have hfcntl : CallsFor io c (c.logCalls 1 io .fcntl fd 0) :=
    callsFor_logCalls (fun hk => by cases hk) fun hk => by cases hk
  have hconnect : CallsFor io c
      ((c.logCalls 1 io .fcntl fd 0).logCalls 1 io .connect fd endpoint.size) :=
    hfcntl.trans (callsFor_logCalls (fun hk => by cases hk) fun _ => ⟨id, endpoint, hop, rfl⟩)
  split at h
  · cases h
  · cases h; exact hfcntl
  · dsimp only at h
    split at h
    · cases h
    · cases h; exact hconnect
    · split_ifs at h
      · exact hconnect.trans (addOutstanding_callsFor h)
      · cases h; exact hconnect

/-- **The lengths passed** when an operation is submitted are its own. -/
theorem submit_callsFor {req : Answers} (h : c.submit io req = .ok (c', fs, r)) :
    CallsFor io c c' := by
  have hrecord : CallsFor io c (c.record io) := .of_eq rfl
  unfold submit at h
  split at h
  · next hop => exact hrecord.trans (connect_callsFor hop h)
  · unfold resumeAt at h
    split_ifs at h <;> cases h
    · exact .of_eq rfl
    · exact .refl io c
  all_goals exact hrecord.trans (addOutstanding_callsFor h)

/-- A call of the context makes calls for an operation in the queue, or none. -/
theorem call_callsFor {k : PollCall} (h : pollBase.call c k = .ok (c', fs)) :
    c'.env.calls = c.env.calls ∨ ∃ io ∈ c.outstanding, CallsFor io c c' := by
  cases call_eq_ok h with
  | runOne hrun =>
    cases runOne_cases hrun with
    | timer hw ht =>
      obtain ⟨io, timeouts, -, -, rfl, -⟩ := processTimeout_eq_some ht
      exact .inl (by rw [hw.env])
    | task ht =>
      obtain ⟨t, tasks, -, rfl, -⟩ := processTask_eq_some ht
      exact .inl rfl
    | idle hw => exact .inl (by rw [hw.env])
    | @dispatched c₁ _ _ i sys io _ _ _ hwait hio hwork =>
      have hw := (wait_spec hwait).1
      refine .inr ⟨io, hw.outstanding ▸ List.mem_of_getElem? hio, ?_⟩
      refine CallsFor.trans (.of_eq ?_) (work_callsFor hwork)
      rw [env_removeOutstanding, hw.env]
  | schedule t => exact .inl rfl
  | makeSocket hmake =>
    rcases makeSocket_spec hmake with rfl | hopens
    · exact .inl rfl
    · cases hopens
      exact .inl rfl
  | makeSocketNative hmake =>
    obtain ⟨sockets, -, rfl⟩ := makeSocketNative_eq_ok hmake
    exact .inl rfl
  | release hrel =>
    obtain ⟨fd, -, hrel⟩ := Exec.bind_eq_ok.1 hrel
    cases hrel
    exact .inl rfl

/-! ### Peer endpoints -/

variable {o : OpId} {id : SocketId} {peer : Endpoint}

theorem transferWork_not_accepted :
    transferWork k c io sys ≠ .ok (c', [.complete o (some (.accepted id peer))], r) := by
  intro h
  obtain ⟨fd, -, h⟩ := Exec.bind_eq_ok.1 h
  split at h
  · cases h
  · dsimp only at h
    split at h
    · cases h
    · split_ifs at h <;> cases h

/-- `::accept` writes to the address of an endpoint and leaves its length as it was. -/
theorem work_peer (h : c.work io sys = .ok (c', [.complete o (some (.accepted id peer))], r)) :
    peer.size = sizeofSockaddrStorage := by
  unfold work at h
  split at h
  · cases h
  · obtain ⟨fd, -, h⟩ := Exec.bind_eq_ok.1 h
    split at h
    · cases h
    · obtain ⟨c₁, -, h⟩ := Exec.bind_eq_ok.1 h
      obtain ⟨⟨c₂, id'⟩, -, h⟩ := Exec.bind_eq_ok.1 h
      cases h
      rfl
    · split_ifs at h <;> cases h
  · obtain ⟨fd, -, h⟩ := Exec.bind_eq_ok.1 h
    split at h
    · cases h
    · cases h
    · split_ifs at h <;> cases h
  · exact absurd h transferWork_not_accepted
  · exact absurd h transferWork_not_accepted
  · cases h

theorem call_peer {k : PollCall}
    (h : pollBase.call c k = .ok (c', [.complete o (some (.accepted id peer))])) :
    peer.size = sizeofSockaddrStorage := by
  cases call_eq_ok h with
  | runOne hrun =>
    cases runOne_cases hrun with
    | timer hw ht =>
      obtain ⟨io, timeouts, -, -, -, hfs⟩ := processTimeout_eq_some ht
      cases hfs
    | task ht =>
      obtain ⟨t, tasks, -, -, hfs⟩ := processTask_eq_some ht
      cases hfs
    | dispatched _ _ _ _ hwork => exact work_peer hwork

end PollContext

/-! ### Runs -/

section Runs

open PollContext

variable {m m' : Machine PollContext Empty} {l : Label Answers Unit PollCall}

/-- Every operation was filled in by its descriptor, every call was made with the lengths of an
operation that was started, and every peer endpoint has the length of the storage. -/
structure LengthInv (m : Machine PollContext Empty) : Prop where
  described : ∀ o, Described (m.ops o).op
  calls : ∀ call ∈ m.ctx.env.calls, (m.ops call.op).log ≠ [] ∧ call.PassesFor (m.ops call.op).op
  peers : ∀ o id peer, (m.ops o).value = .accepted id peer → peer.size = sizeofSockaddrStorage

theorem lengthInv_initial (os : Os) : LengthInv { ctx := initial os } where
  described _ := .resumeAt 0
  calls _ hcall := by cases hcall
  peers _ _ _ hv := by cases hv

/-- Calls that are made for an operation that stands in the queue, or is started. -/
theorem ctxStep_callsFor {c' : PollContext} (h : CtxStep pollBase m l c') :
    c'.env.calls = m.ctx.env.calls ∨ ∃ io, CallsFor io m.ctx c' ∧
      (io ∈ m.ctx.outstanding ∨ ∃ req a, l = .start io req false a) := by
  cases h with
  | same => exact .inl rfl
  | submit _ hsub => exact .inr ⟨_, submit_callsFor hsub, .inr ⟨_, _, rfl⟩⟩
  | @cancel _ io a _ _ hcancel =>
    cases (cancel_cases (u := a) hcancel).1 with
    | outstanding => exact .inl (by rw [env_removeOutstanding])
    | timer => exact .inl rfl
  | call hcall =>
    rcases call_callsFor hcall with hsame | ⟨io, hio, hcalls⟩
    · exact .inl hsame
    · exact .inr ⟨io, hcalls, .inl hio⟩

theorem PollContext.PollStep.peers (h : PollStep m l m') (hstatus : m'.status = none)
    (hm : ∀ o id peer, (m.ops o).value = .accepted id peer → peer.size = sizeofSockaddrStorage) :
    ∀ o id peer, (m'.ops o).value = .accepted id peer → peer.size = sizeofSockaddrStorage := by
  intro o id peer
  have hset : ∀ {o' : OpId} {s : SenderState},
      (s.value = .accepted id peer → peer.size = sizeofSockaddrStorage) →
      ((m.set o' s).ops o).value = .accepted id peer → peer.size = sizeofSockaddrStorage :=
    fun hs => set_ops_cases
      (P := fun s => s.value = .accepted id peer → peer.size = sizeofSockaddrStorage)
      (fun _ => hs) fun _ => hm o id peer
  have hinitial : ∀ op : Operation, op.initial ≠ .accepted id peer := fun op => by
    cases op <;> simp [Operation.initial]
  cases h with
  | ended _ hsome => rw [hstatus] at hsome; cases hsome
  | queued => exact hset fun hv => absurd hv (hinitial _)
  | inline =>
    rw [SenderState.complete_last (waiting_begun _ _).outstanding]
    exact hset fun hv => absurd hv (hinitial _)
  | failed =>
    rw [SenderState.error, SenderState.countDown_last (waiting_begun _ _).outstanding]
    exact hset fun hv => absurd hv (hinitial _)
  | cancelled => exact hset (hm _ id peer)
  | silent => exact hm o id peer
  | task => exact hm o id peer
  | @completed k c o' v hw hcall =>
    rw [SenderState.complete_last hw.outstanding]
    refine hset fun hv => ?_
    cases v with
    | none => exact hm o' id peer hv
    | some v =>
      obtain rfl : v = .accepted id peer := hv
      exact call_peer hcall
  | errored hw =>
    rw [SenderState.error, SenderState.countDown_last hw.outstanding]
    exact hset (hm _ id peer)
  | returned => exact hm o id peer
  | repeated _ hover =>
    have := hover.outstanding
    rw [SenderState.complete_not_last (by omega)]
    exact hset (hm _ id peer)

theorem LengthInv.step (hL : LengthInv m) (hI : StepInv m) (hz : ∀ o, (m.ops o).upstream = {})
    (hok : StartsDescribed m l) (hstep : m.step pollBase l = some m') (hstatus : m'.status = none) :
    LengthInv m' := by
  have hp := pollStep_of_step hI hz hstep
  refine ⟨fun o => ?_, fun call hcall => ?_, hp.peers hstatus hL.peers⟩
  · rcases hp.op_cases hstatus o with hop | ⟨-, req, a, rfl⟩
    · rw [hop]
      exact hL.described o
    · exact hok
  · have hold : call ∈ m.ctx.env.calls →
        (m'.ops call.op).log ≠ [] ∧ call.PassesFor (m'.ops call.op).op := fun hcall => by
      obtain ⟨hlog, hpasses⟩ := hL.calls call hcall
      rw [hp.op hstatus hlog]
      exact ⟨fun hnil => hlog (List.suffix_nil.1 (hnil ▸ log_step hstep hz call.op)), hpasses⟩
    rcases ctxStep_callsFor (ctx_of_step hz hstep) with hsame | ⟨io, hcalls, hio⟩
    · exact hold (hsame ▸ hcall)
    · rcases hcalls call hcall with hcall | ⟨hself, hpasses⟩
      · exact hold hcall
      · rw [hself]
        rcases hio with hio | ⟨req, a, rfl⟩
        · have hlog := (hI.waiting (.inl hio)).started
          rw [hp.op hstatus hlog, (hI.queued io hio).1]
          exact ⟨fun hnil => hlog (List.suffix_nil.1 (hnil ▸ log_step hstep hz io.self)), hpasses⟩
        · obtain ⟨hop, hlog⟩ := hp.started hstatus
          rw [hop]
          exact ⟨hlog, hpasses⟩

/-- **The invariant holds in every run** while the process runs. -/
theorem lengthInv_of_runs {os : Os} (h : Runs pollBase StartsDescribed (initial os) m)
    (hstatus : m.status = none) : LengthInv m := by
  refine Reaches.invariant₂
    (I := fun m : Machine PollContext Empty => m.status = none → LengthInv m)
    (J := fun m => (m.status = none → StepInv m) ∧ ∀ o, (m.ops o).upstream = {}) h
    (fun _ hm => ⟨stepInv_of_runs hm, Runs.never_started hm⟩) (fun _ => lengthInv_initial os)
    (fun m l m' hJ hL hok hstep hnone => ?_) hstatus
  have hrunning := status_of_step hstep
  exact (hL hrunning).step (hJ.1 hrunning) hJ.2 hok hstep hnone

/-- `e` is the peer endpoint of a connection that was accepted. -/
def Peer (m : Machine PollContext Empty) (e : Endpoint) : Prop :=
  ∃ o id, .setValue (.accepted id e) ∈ (m.ops o).signals

theorem LengthInv.peer_size (hL : LengthInv m) (hI : StepInv m) {e : Endpoint} (h : Peer m e) :
    e.size = sizeofSockaddrStorage := by
  obtain ⟨o, id, hsignal⟩ := h
  have hst := hI.stands o
  generalize m.ctx.held o = k at hst
  cases hst with
  | idle hs => rw [hs] at hsignal; cases hsignal
  | waiting hw => rw [hw.signals] at hsignal; cases hsignal
  | lost hw => rw [hw.signals] at hsignal; cases hsignal
  | ended hover =>
    rw [hover.signals, List.mem_singleton] at hsignal
    exact hL.peers o id e (hover.value _ hsignal.symm)

/-- **A peer endpoint of an internet address has the wrong length stored**, in every run. -/
theorem peer_not_fits {host : ByteOrder} {os : Os} {e : Endpoint}
    (hm : Runs pollBase StartsDescribed (initial os) m) (hstatus : m.status = none) (h : Peer m e)
    (hfamily : e.family host = PF_INET ∨ e.family host = PF_INET6) : ¬ e.Fits host := by
  have hsize := (lengthInv_of_runs hm hstatus).peer_size (stepInv_of_runs hm hstatus) h
  intro hfits
  rcases hfamily with hv4 | hv6
  · exact absurd (hsize.symm.trans (hfits.2.1 hv4)) (by decide)
  · exact absurd (hsize.symm.trans (hfits.2.2 hv6)) (by decide)

/-- The endpoints that user code can have in the state `m`. -/
def Obtainable (host : ByteOrder) (m : Machine PollContext Empty) : Endpoint → Prop :=
  Made host fun e => (∃ data size, size < 2 ^ 32 ∧ e = Endpoint.ofPointer data size) ∨ Peer m e

end Runs

/-! ### Lengths and addresses -/

/-- A call that hands the system an address: a socket is bound, through `io_context` or directly,
connected, or asked for a connection. -/
inductive AddressUse
  | bind (endpoint : BasicEndpoint)
  | contextBind (endpoint : Endpoint)
  | connect (endpoint : BasicEndpoint)
  | accept

/-- The endpoint whose address is used. -/
def AddressUse.endpoint? : AddressUse → Option Endpoint
  | .bind e | .connect e => some e.base
  | .contextBind e => some e
  | .accept => none

/-- In the state `m` the system is, or was, passed `len` with the address. -/
inductive Passes (host : ByteOrder) (m : Machine PollContext Empty) : AddressUse → ℕ → Prop
  | bind {id : SocketId} {endpoint : BasicEndpoint} {answer error : Option Errno} {fd : Fd}
      {address : List UInt8} {len : ℕ}
      (h : ioContextBind host m.ctx id endpoint answer = .ok (⟨fd, address, len⟩, error)) :
      Passes host m (.bind endpoint) len
  | contextBind {id : SocketId} {endpoint : Endpoint} {answer error : Option Errno} {fd : Fd}
      {address : List UInt8} {len : ℕ}
      (h : m.ctx.bind id endpoint answer = .ok (⟨fd, address, len⟩, error)) :
      Passes host m (.contextBind endpoint) len
  | connect {call : OsCall} {id : SocketId} {endpoint : BasicEndpoint}
      (hcall : call ∈ m.ctx.env.calls) (hconnect : call.call = .connect)
      (hop : (m.ops call.op).op = ConnectDesc.submit id endpoint) :
      Passes host m (.connect endpoint) call.len
  | accept {call : OsCall} (hcall : call ∈ m.ctx.env.calls) (haccept : call.call = .accept) :
      Passes host m .accept call.len

/-- The system stays inside the storage, and the length of an internet address is that of its
family. -/
def LengthMatches (host : ByteOrder) (use : AddressUse) (len : ℕ) : Prop :=
  len ≤ sizeofSockaddrStorage ∧ ∀ e, use.endpoint? = some e → e.FamilySize host len

/-- The length that the call takes is stored with the endpoint, or computed from it. -/
def AddressUse.Fits (host : ByteOrder) : AddressUse → Prop
  | .bind _ => True
  | .contextBind e => e.Fits host
  | .connect e => e.base.Fits host
  | .accept => False

theorem bind_length {c : PollContext} {id : SocketId} {endpoint : Endpoint}
    {answer error : Option Errno} {fd : Fd} {address : List UInt8} {len : ℕ}
    (h : c.bind id endpoint answer = .ok (⟨fd, address, len⟩, error)) : len = endpoint.size := by
  obtain ⟨fd', -, h⟩ := Exec.bind_eq_ok.1 h
  cases h
  rfl

/-- **The right length is passed** by every `bind`, by the calls of `connect` whose endpoint has it
stored, and by no call of `accept`. What is made from an address has it stored, the peer endpoints
that `accept` delivers have not. -/
theorem address_lengths_iff (host : ByteOrder) (os : Os) (m : Machine PollContext Empty)
    (hm : Runs pollBase StartsDescribed (PollContext.initial os) m) (hstatus : m.status = none) :
    (∀ use len, Passes host m use len → (LengthMatches host use len ↔ use.Fits host)) ∧
      (∀ e, Made host (fun _ => False) e → e.Fits host) ∧
      ∀ e, Peer m e → e.family host = PF_INET ∨ e.family host = PF_INET6 → ¬ e.Fits host := by
  have hL := lengthInv_of_runs hm hstatus
  refine ⟨fun use len h => ?_, fun e h => (h.fits fun _ hgiven => hgiven.elim).2,
    fun e h hfamily => peer_not_fits hm hstatus h hfamily⟩
  have hstored : ∀ e : Endpoint, (e.size ≤ sizeofSockaddrStorage ∧
      ∀ e', some e = some e' → e'.FamilySize host e.size) ↔ e.Fits host := fun e =>
    and_congr_right fun _ => ⟨fun h => h e rfl, fun h e' he => Option.some.inj he ▸ h⟩
  cases h with
  | @bind _ endpoint _ _ _ _ _ h =>
    obtain rfl : len = endpoint.size host := bind_length h
    obtain ⟨-, hle, hsize⟩ := endpoint.size_cases host
    exact iff_of_true ⟨hle, fun e he => Option.some.inj he ▸ hsize⟩ trivial
  | contextBind h =>
    obtain rfl := bind_length h
    exact hstored _
  | @connect call id endpoint hcall hconnect hop =>
    obtain ⟨id', e, he, hlen⟩ := (hL.calls call hcall).2.2 hconnect
    rw [hop] at he
    cases he
    rw [hlen]
    exact hstored _
  | @accept call hcall haccept =>
    obtain ⟨id, hid⟩ := (hL.calls call hcall).2.1 haccept
    have hdescribed := hL.described call.op
    rw [hid] at hdescribed
    refine iff_of_false (fun hmatch => ?_) fun hfits => hfits
    have hle := hmatch.1
    rw [hdescribed.addrlen] at hle
    exact absurd hle (by decide)

/-- The data that descriptors fill in. -/
def Operation.isDescribed : Operation → Bool
  | .accept _ len => len = sizeofEndpoint
  | _ => true

theorem Described.of_isDescribed {op : Operation} (h : op.isDescribed = true) : Described op := by
  cases op with
  | poll id mask => exact .poll id mask
  | accept id len => exact (of_decide_eq_true h) ▸ .accept id
  | connect id endpoint => exact .connect id ⟨endpoint⟩
  | receive id buffers => exact .receive id buffers
  | send id buffers => exact .send id buffers
  | resumeAt time => exact .resumeAt time

/-- The steps that start what descriptors fill in. -/
def startsDescribed (_ : Machine PollContext Empty) : Label Answers Unit PollCall → Bool
  | .start io _ _ _ => io.op.isDescribed
  | _ => true

theorem startsDescribed_sound (m : Machine PollContext Empty) (l : Label Answers Unit PollCall)
    (h : startsDescribed m l = true) : StartsDescribed m l := by
  cases l with
  | start io req stopped a => exact .of_isDescribed h
  | _ => trivial

/-- The endpoint 127.0.0.1:80. -/
def loopback : BasicEndpoint :=
  .ofAddress .little (Address.ofV4 .little (fun _ => 0) ⟨0x7F000001⟩) 80

/-- A socket is connected at once. -/
def connectsTo (endpoint : BasicEndpoint) : List (Label Answers Unit PollCall) :=
  [.call (.makeSocket (.ok 3 [])),
    .start ⟨1, ConnectDesc.submit 0 endpoint⟩ { sys := [.ok 0 [], .ok 0 []] } false ()]

theorem address_lengths_iff_loopback :
    ∃ m : Machine PollContext Empty,
      Runs pollBase StartsDescribed (PollContext.initial {}) m ∧
        LengthMatches .little (.connect loopback) 16 := by
  obtain ⟨m, hrun, hm⟩ := runs_of_labels pollBase (PollContext.initial {}) startsDescribed
    startsDescribed_sound (connectsTo loopback)
    (fun m => (m.status, (m.ops 1).op,
      m.ctx.env.calls.map fun call => (call.op, call.call, call.len)))
    (none, .connect 0 loopback.base, [(1, .connect, 16), (1, .fcntl, 0)]) (by rfl)
  obtain ⟨hstatus, hop, hcalls⟩ : _ ∧ _ ∧ _ := by simpa only [Prod.mk.injEq] using hm
  obtain ⟨call, hcall, heq⟩ := List.mem_map.1 (hcalls ▸ List.mem_cons_self)
  obtain ⟨hself, hconnect, hlen⟩ : _ ∧ _ ∧ _ := by simpa only [Prod.mk.injEq] using heq
  have hpasses : Passes .little m (.connect loopback) call.len :=
    .connect hcall hconnect (hself ▸ hop)
  rw [hlen] at hpasses
  have hiff := (address_lengths_iff .little {} m hrun hstatus).1 (.connect loopback) 16 hpasses
  exact ⟨m, hrun, hiff.2 (Endpoint.fits_ofAddress _ _)⟩

/-- What `::accept` writes for the peer 127.0.0.1:8080. -/
def peerAddress : List UInt8 := [2, 0, 0x1F, 0x90, 127, 0, 0, 1, 0, 0, 0, 0, 0, 0, 0, 0]

/-- A connection is accepted, and another socket connected to its peer endpoint. -/
def connectsToPeer : List (Label Answers Unit PollCall) :=
  [.call (.makeSocket (.ok 3 [])), .start ⟨1, AcceptDesc.submit 0⟩ {} false (),
    .call (.runOne 0 [.ok [POLLIN] 0 [.ok 4 peerAddress]]), .call (.makeSocket (.ok 5 [])),
    .start ⟨2, ConnectDesc.submit 2 ⟨Endpoint.empty.write peerAddress sizeofEndpoint⟩⟩
      { sys := [.ok 0 [], .ok 0 []] } false ()]

theorem address_lengths_mismatch :
    ¬ ∀ (host : ByteOrder) (os : Os) (m : Machine PollContext Empty),
      Runs pollBase StartsDescribed (PollContext.initial os) m → m.status = none →
        ∀ use len, (∀ e, use.endpoint? = some e → Obtainable host m e) →
          Passes host m use len → LengthMatches host use len := by
  intro h
  let e : Endpoint := Endpoint.empty.write peerAddress sizeofEndpoint
  obtain ⟨m, hrun, hm⟩ := runs_of_labels pollBase (PollContext.initial {}) startsDescribed
    startsDescribed_sound connectsToPeer
    (fun m => (m.status, (m.ops 1).signals, (m.ops 2).op,
      (m.ctx.env.calls.map fun call => (call.op, call.call, call.len)).head?))
    (none, [.setValue (.accepted 1 e)], .connect 2 e, some (2, .connect, 128)) (by rfl)
  obtain ⟨hstatus, hsignals, hop, hcalls⟩ : _ ∧ _ ∧ _ ∧ _ := by
    simpa only [Prod.mk.injEq] using hm
  obtain ⟨call, hcall, heq⟩ := List.mem_map.1 (List.mem_of_mem_head? hcalls)
  obtain ⟨hself, hconnect, hlen⟩ : _ ∧ _ ∧ _ := by simpa only [Prod.mk.injEq] using heq
  have hpeer : Obtainable .little m e := .given (.inr ⟨1, 1, by rw [hsignals]; simp⟩)
  have hpasses : Passes .little m (.connect ⟨e⟩) call.len :=
    .connect hcall hconnect (hself ▸ hop)
  have hsize := (h .little {} m hrun hstatus (.connect ⟨e⟩) call.len
    (fun e' he => Option.some.inj he ▸ hpeer) hpasses).2 e rfl
  have hfamily : e.family .little = PF_INET := by decide
  exact absurd (hlen.symm.trans (hsize.1 hfamily)) (by decide)

end Net29
