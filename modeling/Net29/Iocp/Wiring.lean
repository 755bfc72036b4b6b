import Net29.Iocp.Storage

/-!
# From the packet of a request to its operation

A packet leads to an `OVERLAPPED`, which names the operation, whose `extra` is to point back to it.

* `Begins`: the states in which submissions leave the context, spelled out;
* `Wired`: every pending request leads to its operation and back;
* `Stable`, `Stable.of_runs`: what each call of the context preserves holds in every run;
* `wired_stable`: so `Wired` does; `call_owned`: the calls also keep `Owned`;
* `complete_eq_ok`: a packet leads to the work function of the direction of its request.
-/

namespace Net29

open Machine Transition

/-- The direction of the request for an operation. -/
def Operation.direction? : Operation → Option Direction
  | .accept _ _ => some .accept
  | .connect _ _ => some .connect
  | .receive _ _ => some .recv
  | .send _ _ => some .send
  | .poll _ _ | .resumeAt _ => none

/-- The length of the first buffer as it is handed to the system. -/
def Operation.firstLen : Operation → ℕ
  | .receive _ buffers | .send _ buffers => (buffers.head?.getD 0) % 2 ^ 32
  | _ => 0

namespace IocpContext

variable {c c' c₁ : IocpContext} {io : IoBase} {fs : List (Frame StorageId)} {r : SubmitResult}
  {req : Answers} {s : StorageId} {d : Direction} {ol : Overlapped} {answers : List SysAnswer}
  {a : SysAnswer} {rec : IocpRecord} {data : IocpSocketData}

/-- An `OVERLAPPED` of a block is rewritten. -/
def rewritten (c : IocpContext) (s : StorageId) (data : IocpSocketData) (d : Direction)
    (ol : Overlapped) : IocpContext :=
  { c with storage := Function.update c.storage s (some (Function.update data d ol)) }

/-- The system accepts a request for an operation. -/
def requested (c : IocpContext) (s : StorageId) (d : Direction) (o : OpId) : IocpContext :=
  { c with requests := c.requests ++ [⟨s, d, o⟩], outstanding := c.outstanding + 1 }

/-! ### Submission -/

/-- An `OVERLAPPED` is initialised for an operation: it is that of its direction in the block of its
socket, and no request uses it. -/
structure Fits (c : IocpContext) (io : IoBase) (s : StorageId) (d : Direction)
    (data : IocpSocketData) : Prop where
  record : ∃ rec, c.sockets.get? io.op.id = some rec ∧ rec.io = s
  direction : io.op.direction? = some d
  storage : c.storage s = some data
  unused : ∀ r ∈ c.requests, ¬ (r.storage = s ∧ r.direction = d)

/-- The state in which a submission leaves the context. -/
inductive Begins (c : IocpContext) (io : IoBase) : IocpContext → Prop
  /-- no request was made; a timer was inserted perhaps -/
  | timer (timeouts : List IoBase) : Begins c io { c with timeouts := timeouts }
  /-- there is no socket to accept with -/
  | unopened {s : StorageId} {data : IocpSocketData} (h : c.Fits io s .accept data) :
      Begins c io (c.rewritten s data .accept { completion := some io })
  /-- the system refused the request, -/
  | refused {s : StorageId} {d : Direction} {data : IocpSocketData} (h : c.Fits io s d data)
      (hd : d ≠ .accept) :
      Begins c io ((c.rewritten s data d
        { completion := some io, len := io.op.firstLen }).setExtra io s d)
  /-- or accepted it -/
  | requested {s : StorageId} {d : Direction} {data : IocpSocketData} (h : c.Fits io s d data)
      (hd : d ≠ .accept) :
      Begins c io (((c.rewritten s data d
        { completion := some io, len := io.op.firstLen }).setExtra io s d).requested s d io.self)
  /-- the same for `AcceptEx`, to which a new socket is given -/
  | closed {s : StorageId} {data : IocpSocketData} {fd : Fd} {os : Os}
      (h : c.Fits io s .accept data) (hopen : c.os.open fd = .ok os) :
      Begins c io {
        (c.rewritten s data .accept { completion := some io }).setExtra io s .accept with
        os := os.close fd
        history := .closed (os.denotes fd) :: .created io.self (os.denotes fd) :: c.history }
  | accepting {s : StorageId} {data : IocpSocketData} {fd : Fd} {os : Os}
      (h : c.Fits io s .accept data) (hopen : c.os.open fd = .ok os) :
      Begins c io ({ (c.rewritten s data .accept
        { completion := some io, acceptSocket := some fd }).setExtra io s .accept with
          os := os
          history := .created io.self (os.denotes fd) :: c.history }.requested s .accept io.self)

theorem initialise_eq_ok (h : c.initialise s d ol = .ok c') :
    ∃ data, c.storage s = some data ∧
      (∀ r ∈ c.requests, ¬ (r.storage = s ∧ r.direction = d)) ∧ c' = c.rewritten s data d ol := by
  unfold initialise at h
  split_ifs at h with hany
  obtain ⟨data, hdata, rfl⟩ := write_eq_ok h
  exact ⟨data, hdata, by simpa using hany, rfl⟩

theorem request_eq_ok {failed : IocpContext → Exec IocpContext}
    (h : c.request io s d failed a = .ok (c', fs, r)) :
    c' = c.requested s d io.self ∨ failed c = .ok c' := by
  unfold request at h
  dsimp only at h
  split at h
  · cases h
    exact .inl rfl
  · split_ifs at h
    · cases h
      exact .inl rfl
    · obtain ⟨c₁, hf, h⟩ := Exec.bind_eq_ok.1 h
      cases h
      exact .inr hf

theorem dropAccepted_eq_ok (h : c.dropAccepted s d ol = .ok c') :
    ∃ data, c.storage s = some data ∧
      c' = ((ol.acceptSocket.map
        (c.rewritten s data d { ol with acceptSocket := none }).closeSocket).getD
          (c.rewritten s data d { ol with acceptSocket := none })) := by
  obtain ⟨c₁, hwrite, h⟩ := Exec.bind_eq_ok.1 h
  obtain ⟨data, hdata, rfl⟩ := write_eq_ok hwrite
  cases h
  exact ⟨data, hdata, rfl⟩

theorem rewritten_storage_self : (c.rewritten s data d ol).storage s =
    some (Function.update data d ol) := Function.update_self ..

theorem accept_begins {answers : List SysAnswer} (hop : io.op.direction? = some .accept)
    (h : c.accept io answers = .ok (c', fs, r)) : Begins c io c' := by
  obtain ⟨rec, hrec, h⟩ := Exec.bind_eq_ok.1 h
  obtain ⟨c₁, hinit, h⟩ := Exec.bind_eq_ok.1 h
  obtain ⟨data, hdata, hfree, rfl⟩ := initialise_eq_ok hinit
  have hfits : c.Fits io rec.io .accept data := ⟨⟨rec, record_eq_ok hrec, rfl⟩, hop, hdata, hfree⟩
  split at h
  · cases h
  · cases h
    exact .unopened hfits
  · next fd peer answers =>
    obtain ⟨c₂, hopened, h⟩ := Exec.bind_eq_ok.1 h
    obtain ⟨os, hopen, rfl⟩ := opened_eq_ok hopened
    obtain ⟨c₃, hwrite, h⟩ := Exec.bind_eq_ok.1 h
    obtain ⟨data₁, hdata₁, rfl⟩ := write_eq_ok hwrite
    obtain rfl : Function.update data .accept { completion := some io } = data₁ :=
      Option.some.inj (rewritten_storage_self.symm.trans hdata₁)
    split at h
    · cases h
    · rcases request_eq_ok h with rfl | hdrop
      · have haccepting := Begins.accepting hfits hopen
        simpa [rewritten, setExtra, Function.update_idem] using haccepting
      · obtain ⟨data₂, hdata₂, rfl⟩ := dropAccepted_eq_ok hdrop
        have hdata₂' := (Function.update_self ..).symm.trans hdata₂
        obtain rfl := Option.some.inj hdata₂'
        have hclosed := Begins.closed hfits hopen
        simpa [rewritten, setExtra, closeSocket, Function.update_idem] using hclosed

/-- An `OVERLAPPED` is initialised, `extra` set and the request handed over. -/
theorem request_begins (hrec : c.sockets.get? io.op.id = some rec) (hd : d ≠ .accept)
    (hop : io.op.direction? = some d)
    (hinit : c.initialise rec.io d { completion := some io, len := io.op.firstLen } = .ok c₁)
    (h : (c₁.setExtra io rec.io d).request io rec.io d .ok a = .ok (c', fs, r)) :
    Begins c io c' := by
  obtain ⟨data, hdata, hfree, rfl⟩ := initialise_eq_ok hinit
  have hfits : c.Fits io rec.io d data := ⟨⟨rec, hrec, rfl⟩, hop, hdata, hfree⟩
  rcases request_eq_ok h with rfl | hrefused
  · exact .requested hfits hd
  · cases hrefused
    exact .refused hfits hd

theorem connectEx_begins (hrec : c.sockets.get? io.op.id = some rec)
    {id : SocketId} {endpoint : Endpoint} (hop : io.op = .connect id endpoint)
    (h : c.connectEx io rec.io answers = .ok (c', fs, r)) : Begins c io c' := by
  obtain ⟨c₁, hinit, h⟩ := Exec.bind_eq_ok.1 h
  split at h
  · cases h
  · exact request_begins hrec (by simp) (by rw [hop]; rfl) (by rw [hop]; exact hinit) h

theorem transfer_begins (hd : d ≠ .accept) (hop : io.op.direction? = some d) {buffers : List ℕ}
    (hlen : io.op.firstLen = (buffers.head?.getD 0) % 2 ^ 32)
    (h : c.transfer io d buffers answers = .ok (c', fs, r)) : Begins c io c' := by
  obtain ⟨rec, hrec, h⟩ := Exec.bind_eq_ok.1 h
  obtain ⟨c₁, hinit, h⟩ := Exec.bind_eq_ok.1 h
  split at h
  · cases h
  · exact request_begins (record_eq_ok hrec) hd hop (by rw [hlen]; exact hinit) h

/-- **What a submission does** to the context. -/
theorem submit_begins (h : c.submit io req = .ok (c', fs, r)) : Begins c io c' := by
  unfold submit at h
  split at h
  · cases h
    exact .timer c.timeouts
  · next hop => exact accept_begins (by rw [hop]; rfl) h
  · next hop =>
    obtain ⟨rec, hrec, h⟩ := Exec.bind_eq_ok.1 h
    split at h
    · cases h
    · split_ifs at h
      · exact connectEx_begins (record_eq_ok hrec) hop h
      · cases h
        exact .timer c.timeouts
    · exact connectEx_begins (record_eq_ok hrec) hop h
  · next hop => exact transfer_begins (d := .recv) (by simp) (by rw [hop]; rfl) (by rw [hop]; rfl) h
  · next hop => exact transfer_begins (d := .send) (by simp) (by rw [hop]; rfl) (by rw [hop]; rfl) h
  · unfold resumeAt at h
    split_ifs at h <;> cases h
    · exact .timer _
    · exact .timer c.timeouts

/-! ### The packet of a request -/

/-- The request leads to the operation, and the operation back to it. -/
structure WiredTo (c : IocpContext) (r : Request) (data : IocpSocketData) (io : IoBase) : Prop where
  completion : (data r.direction).completion = some io
  self : io.self = r.op
  extra : c.extra r.op = some (r.storage, r.direction)
  direction : io.op.direction? = some r.direction
  len : (data r.direction).len = io.op.firstLen

/-- Every pending request, unless its block was freed, leads to its operation and back. -/
def Wired (c : IocpContext) : Prop :=
  ∀ r ∈ c.requests, ∀ data, c.storage r.storage = some data → ∃ io, c.WiredTo r data io

/-- The state in which the work function of a request runs. -/
def delivered (c : IocpContext) (index : ℕ) (r : Request) (data : IocpSocketData)
    (result : SysAnswer) : IocpContext :=
  (c.dequeued index r).rewritten r.storage data r.direction
    { data r.direction with result := resultOf result }

variable {index : ℕ} {result : SysAnswer} {associate : Option Errno}

/-- A packet leads to the work function of the operation that its request leads to. -/
theorem complete_of_wiredTo {r : Request} (hr : c.requests[index]? = some r)
    (hdata : c.storage r.storage = some data) (hio : c.WiredTo r data io) :
    c.complete index result associate =
      ((c.delivered index r data result).work io (peerOf result) associate).map
        fun x => (x.1, x.2.1 ++ [.tail r.storage]) := by
  have hol : (c.dequeued index r).overlapped r.storage r.direction = .ok (data r.direction) := by
    simp only [overlapped, dequeued, hdata]
  have hwrite : (c.dequeued index r).write r.storage r.direction
      { data r.direction with result := resultOf result } =
      .ok (c.delivered index r data result) := by
    simp only [write, dequeued, hdata]
    rfl
  unfold complete
  rw [hr]
  show ((c.dequeued index r).overlapped r.storage r.direction >>= fun ol => _) = _
  rw [hol]
  show ((c.dequeued index r).write r.storage r.direction
    { data r.direction with result := resultOf result } >>= fun c => _) = _
  rw [hwrite, hio.completion]
  show ((c.delivered index r data result).work io (peerOf result) associate >>=
    fun x => .ok (x.1, x.2.1 ++ [.tail r.storage])) = _
  cases (c.delivered index r data result).work io (peerOf result) associate <;> rfl

theorem complete_eq_ok (hW : c.Wired) (h : c.complete index result associate = .ok (c', fs)) :
    ∃ r data io fs₁ res, c.requests[index]? = some r ∧ c.storage r.storage = some data ∧
      c.WiredTo r data io ∧
      (c.delivered index r data result).work io (peerOf result) associate = .ok (c', fs₁, res) ∧
      fs = fs₁ ++ [.tail r.storage] := by
  cases hr : c.requests[index]? with
  | none =>
    rw [complete, hr] at h
    cases h
  | some r =>
    cases hdata : c.storage r.storage with
    | none =>
      rw [complete, hr] at h
      simp only [overlapped, hdata] at h
      cases h
    | some data =>
      obtain ⟨io, hio⟩ := hW r (List.mem_of_getElem? hr) data hdata
      rw [complete_of_wiredTo hr hdata hio] at h
      obtain ⟨⟨c₁, fs₁, res⟩, hwork, heq⟩ := Exec.map_eq_ok.1 h
      cases heq
      exact ⟨r, data, io, fs₁, res, rfl, hdata, hio, hwork, rfl⟩

section Work

variable {req : Request} {peer : List UInt8}

/-- The `OVERLAPPED` that the work function of a request finds is the one the packet was for. -/
theorem overlapped_delivered :
    (c.delivered index req data result).overlapped req.storage req.direction =
      .ok { data req.direction with result := resultOf result } := by
  simp [overlapped, delivered, rewritten]

theorem delivered_storage_self :
    (c.delivered index req data result).storage req.storage =
      some (Function.update data req.direction
        { data req.direction with result := resultOf result }) :=
  rewritten_storage_self

theorem IocpInv.delivered (hI : IocpInv c) (hreq : c.requests[index]? = some req)
    (hdata : c.storage req.storage = some data) :
    IocpInv (c.delivered index req data result) :=
  (hI.dequeued hreq).update hdata (.inl rfl)

theorem extra_delivered (hio : c.WiredTo req data io) :
    (c.delivered index req data result).extra io.self = some (req.storage, req.direction) := by
  rw [hio.self]
  exact hio.extra

theorem work_of_accept (hio : c.WiredTo req data io) (hd : req.direction = .accept) :
    (c.delivered index req data result).work io peer associate =
      (c.delivered index req data result).acceptWork io req.storage req.direction
        { data req.direction with result := resultOf result } peer associate := by
  have hop := hio.direction
  rw [hd] at hop
  rw [work, extra_delivered hio]
  dsimp only
  rw [overlapped_delivered]
  cases hio : io.op with
  | accept => rfl
  | _ => rw [hio] at hop; cases hop

theorem work_of_connect (hio : c.WiredTo req data io) (hd : req.direction = .connect) :
    (c.delivered index req data result).work io peer associate =
      (c.delivered index req data result).connectWork io
        { data req.direction with result := resultOf result } := by
  have hop := hio.direction
  rw [hd] at hop
  rw [work, extra_delivered hio]
  dsimp only
  rw [overlapped_delivered]
  cases hio : io.op with
  | connect => rfl
  | _ => rw [hio] at hop; cases hop

theorem work_of_transfer (hio : c.WiredTo req data io)
    (hd : req.direction = .recv ∨ req.direction = .send) :
    (c.delivered index req data result).work io peer associate =
      (c.delivered index req data result).transferWork io
        { data req.direction with result := resultOf result } := by
  have hop := hio.direction
  rw [work, extra_delivered hio]
  dsimp only
  rw [overlapped_delivered]
  cases hio : io.op with
  | receive => rfl
  | send => rfl
  | _ =>
    rw [hio] at hop
    rcases hd with hd | hd <;> rw [hd] at hop <;> cases hop

theorem connectWork_ctx {res : SubmitResult} (h : c.connectWork io ol = .ok (c', fs, res)) :
    c' = c := by
  unfold connectWork at h
  split_ifs at h
  · exact (failedWork_spec h).1
  · obtain ⟨_, -, h⟩ := Exec.bind_eq_ok.1 h
    cases h
    rfl

theorem transferWork_ctx {res : SubmitResult} (h : c.transferWork io ol = .ok (c', fs, res)) :
    c' = c := by
  unfold transferWork at h
  split_ifs at h
  · cases h
    rfl
  · exact (failedWork_spec h).1
  · cases h
    rfl

/-- Only the work function of `accept` changes the context. -/
theorem work_ctx_of_ne {res : SubmitResult} (hio : c.WiredTo req data io)
    (hd : req.direction ≠ .accept)
    (h : (c.delivered index req data result).work io peer associate = .ok (c', fs, res)) :
    c' = c.delivered index req data result := by
  cases hdir : req.direction with
  | accept => exact absurd hdir hd
  | connect =>
    rw [work_of_connect hio hdir] at h
    exact connectWork_ctx h
  | recv =>
    rw [work_of_transfer hio (.inl hdir)] at h
    exact transferWork_ctx h
  | send =>
    rw [work_of_transfer hio (.inr hdir)] at h
    exact transferWork_ctx h

/-- What the work function of `accept` does with the pre-created socket, whose storage is `s`. -/
inductive Accepted (c : IocpContext) (s : StorageId) (d : Direction) (data : IocpSocketData) :
    Overlapped → IocpContext → Prop
  /-- there is none -/
  | missing {ol : Overlapped} (h : ol.acceptSocket = none) :
      Accepted c s d data ol (c.rewritten s data d { ol with acceptSocket := none })
  /-- it is closed, -/
  | closed {ol : Overlapped} {fd : Fd} (h : ol.acceptSocket = some fd) :
      Accepted c s d data ol
        ((c.rewritten s data d { ol with acceptSocket := none }).closeSocket fd)
  /-- or gets a record -/
  | handed {ol : Overlapped} {fd : Fd} {c₁ : IocpContext} {id : SocketId}
      (h : ol.acceptSocket = some fd) (hmake : c.makeSocketNative fd = .ok (c₁, id)) :
      Accepted c s d data ol (c₁.rewritten s data d { ol with acceptSocket := none })

theorem acceptWork_cases {res : SubmitResult} (hdata : c.storage s = some data)
    (hs : s ≠ c.allocated) (h : c.acceptWork io s d ol peer associate = .ok (c', fs, res)) :
    Accepted c s d data ol c' := by
  have hdrop : ∀ {c' : IocpContext}, c.dropAccepted s d ol = .ok c' →
      Accepted c s d data ol c' := by
    intro c' hdrop
    obtain ⟨data', hdata', rfl⟩ := dropAccepted_eq_ok hdrop
    obtain rfl : data = data' := Option.some.inj (hdata.symm.trans hdata')
    cases hfd : ol.acceptSocket with
    | none => exact .missing hfd
    | some fd => exact .closed hfd
  unfold acceptWork at h
  split_ifs at h
  · obtain ⟨c₁, hd, h⟩ := Exec.bind_eq_ok.1 h
    obtain ⟨rfl, -⟩ := failedWork_spec h
    exact hdrop hd
  · obtain ⟨_, -, h⟩ := Exec.bind_eq_ok.1 h
    split at h
    · obtain ⟨c₁, hd, h⟩ := Exec.bind_eq_ok.1 h
      cases h
      exact hdrop hd
    · split at h
      · cases h
      · next fd hfd =>
        obtain ⟨⟨c₁, id⟩, hmake, h⟩ := Exec.bind_eq_ok.1 h
        obtain ⟨c₂, hwrite, h⟩ := Exec.bind_eq_ok.1 h
        obtain ⟨data', hdata', rfl⟩ := write_eq_ok hwrite
        cases h
        have hsame : c₁.storage s = some data := by
          obtain ⟨sockets, -, rfl⟩ := makeSocketNative_eq_ok hmake
          exact (Function.update_of_ne hs _ _).trans hdata
        obtain rfl : data = data' := Option.some.inj (hsame.symm.trans hdata')
        exact .handed hfd hmake

end Work

/-! ### Runs -/

variable {m : Machine IocpContext StorageId} {I : IocpContext → Prop}
  {ok : Machine IocpContext StorageId → Label Answers Unit IocpCall → Prop}

/-- A property of the context that its calls keep in steps that meet the guard. -/
structure Stable (ok : Machine IocpContext StorageId → Label Answers Unit IocpCall → Prop)
    (I : IocpContext → Prop) : Prop where
  submit : ∀ {c c' : IocpContext} {io : IoBase} {req : Answers} {fs : List (Frame StorageId)}
    {r : SubmitResult}, IocpInv c → I c → c.held io.self = 0 →
    c.submit io req = .ok (c', fs, r) → I c'
  timeouts : ∀ {c : IocpContext} (timeouts : List IoBase), I c → I { c with timeouts := timeouts }
  call : ∀ {m : Machine IocpContext StorageId} {k : IocpCall} {c' : IocpContext}
    {fs : List (Frame StorageId)}, IocpInv m.ctx → I m.ctx → ok m (.call k) →
    iocpBase.call m.ctx k = .ok (c', fs) → I c'
  tail : ∀ {c : IocpContext} (s : StorageId), I c → I (c.popDeferred s)

/-- The property holds in every run, by induction on it. -/
theorem Stable.of_runs {os : Os} (hI : Stable ok I) (h0 : I (initial os))
    (h : Runs iocpBase ok (initial os) m) : I m.ctx := by
  refine Reaches.invariant₂ (I := fun m => I m.ctx) h
    (fun m hm => And.intro (sound_of_runs hm) (Runs.never_started hm)) h0 ?_
  rintro m l m' ⟨hS, hz⟩ hm hok hstep
  rcases entry_of_step hz hstep with ⟨hctx, -⟩ | ⟨m₀, fs, hentry, rfl⟩
  · rw [hctx]
    exact hm
  · refine runFrames_ctx_induct (P := I) (fun s hc => hI.tail s hc) ?_
    generalize m₀.ctx = c, m₀.stack = stack at hentry
    cases hentry with
    | submit hlog hsub =>
      have hidle := (hS.phase (status_of_step hstep) _).idle_of_log hlog
      exact hI.submit hS.inv hm hidle.2.1 hsub
    | @cancel _ io a _ _ _ hcancel =>
      rcases cancel_cases (u := a) hcancel with ⟨timeouts, -, rfl, -⟩ | ⟨-, rfl, -⟩
      · exact hI.timeouts timeouts hm
      · exact hm
    | unasked => exact hm
    | call hcall => exact hI.call hS.inv hm hok hcall
    | ret => exact hm

/-- No other request is affected by what a request's `OVERLAPPED` is rewritten to. -/
theorem Wired.mono (h : c.Wired) (hrequests : ∀ r ∈ c'.requests, r ∈ c.requests)
    (hextra : ∀ r ∈ c'.requests, c'.extra r.op = c.extra r.op)
    (hstorage : ∀ r ∈ c'.requests, ∀ data', c'.storage r.storage = some data' →
      ∃ data, c.storage r.storage = some data ∧
        (data' r.direction).completion = (data r.direction).completion ∧
        (data' r.direction).len = (data r.direction).len) : c'.Wired := by
  intro r hr data' hdata'
  obtain ⟨data, hdata, hcomp, hlen⟩ := hstorage r hr data' hdata'
  obtain ⟨io, hio⟩ := h r (hrequests r hr) data hdata
  exact ⟨io, hcomp.trans hio.completion, hio.self, (hextra r hr).trans hio.extra, hio.direction,
    hlen.trans hio.len⟩

/-- The rest of the context does not matter. -/
theorem Wired.congr (h : c.Wired) (hrequests : c'.requests = c.requests)
    (hextra : c'.extra = c.extra) (hstorage : c'.storage = c.storage) : c'.Wired :=
  h.mono (fun _ hr => hrequests ▸ hr) (fun _ _ => congrFun hextra _)
    fun _ _ data' hdata' => ⟨data', hstorage ▸ hdata', rfl, rfl⟩

/-- An `OVERLAPPED` is rewritten that no request uses, or with its operation and its length kept. -/
theorem Wired.rewritten (h : c.Wired) (hdata : c.storage s = some data)
    (hol : (∀ r ∈ c.requests, ¬ (r.storage = s ∧ r.direction = d)) ∨
      ol.completion = (data d).completion ∧ ol.len = (data d).len) :
    (c.rewritten s data d ol).Wired := by
  refine h.mono (fun _ hr => hr) (fun _ _ => rfl) fun r hr data' hdata' => ?_
  by_cases hs : r.storage = s
  · subst hs
    obtain rfl : Function.update data d ol = data' :=
      Option.some.inj (rewritten_storage_self.symm.trans hdata')
    refine ⟨data, hdata, ?_⟩
    by_cases hd : r.direction = d
    · rw [hd, Function.update_self]
      exact hol.resolve_left fun hf => hf r hr ⟨rfl, hd⟩
    · rw [Function.update_of_ne hd]
      exact ⟨rfl, rfl⟩
  · exact ⟨data', (Function.update_of_ne hs _ _).symm.trans hdata', rfl, rfl⟩

theorem Wired.setExtra (h : c.Wired) (hnot : ∀ r ∈ c.requests, r.op ≠ io.self) :
    (c.setExtra io s d).Wired :=
  h.mono (fun _ hr => hr) (fun r hr => Function.update_of_ne (hnot r hr) _ _)
    fun _ _ data' hdata' => ⟨data', hdata', rfl, rfl⟩

/-- The request that was prepared for an operation is accepted. -/
theorem Wired.requested (h : c.Wired) (hdata : c.storage s = some data)
    (hol : (data d).completion = some io ∧ (data d).len = io.op.firstLen)
    (hextra : c.extra io.self = some (s, d)) (hop : io.op.direction? = some d) :
    (c.requested s d io.self).Wired := by
  intro r hr data' hdata'
  rcases List.mem_append.1 hr with hr | hr
  · obtain ⟨io', hio'⟩ := h r hr data' hdata'
    exact ⟨io', hio'.completion, hio'.self, hio'.extra, hio'.direction, hio'.len⟩
  · obtain rfl := List.mem_singleton.1 hr
    obtain rfl : data = data' := Option.some.inj (hdata.symm.trans hdata')
    exact ⟨io, hol.1, rfl, hextra, hop, hol.2⟩

theorem Wired.free (h : c.Wired) (s : StorageId) : (c.free s).Wired := by
  have hfree : ({ c with storage := Function.update c.storage s none } : IocpContext).Wired :=
    h.mono (fun _ hr => hr) (fun _ _ => rfl) fun r _ data' hdata' => by
      have hs : r.storage ≠ s := by
        rintro rfl
        have hdata'' := (Function.update_self ..).symm.trans hdata'
        cases hdata''
      exact ⟨data', (Function.update_of_ne hs _ _).symm.trans hdata', rfl, rfl⟩
  unfold IocpContext.free
  split
  · exact h
  · dsimp only
    split
    · exact hfree.congr rfl rfl rfl
    · exact hfree

/-- A new block is no request's. -/
theorem Wired.makeSocketNative (h : c.Wired) (hI : IocpInv c) {fd : Fd} {id : SocketId}
    (hmake : c.makeSocketNative fd = .ok (c', id)) : c'.Wired := by
  obtain ⟨sockets, -, rfl⟩ := makeSocketNative_eq_ok hmake
  refine h.mono (fun _ hr => hr) (fun _ _ => rfl) fun r hr data' hdata' => ?_
  have hs : r.storage ≠ c.allocated := Nat.ne_of_lt (hI.issued hr)
  exact ⟨data', (Function.update_of_ne hs _ _).symm.trans hdata', rfl, rfl⟩

/-- A packet is dequeued and its result stored. -/
theorem Wired.delivered (h : c.Wired) {req : Request} (hdata : c.storage req.storage = some data) :
    (c.delivered index req data result).Wired := by
  have hdequeued : (c.dequeued index req).Wired :=
    h.mono (fun _ hr => List.mem_of_mem_eraseIdx hr) (fun _ _ => rfl)
      fun _ _ data' hdata' => ⟨data', hdata', rfl, rfl⟩
  exact hdequeued.rewritten hdata (.inr ⟨rfl, rfl⟩)

theorem submit_wired (hW : c.Wired) (hheld : c.held io.self = 0)
    (h : c.submit io req = .ok (c', fs, r)) : c'.Wired := by
  have hnot : ∀ r ∈ c.requests, r.op ≠ io.self := by
    intro r hr hop
    have hpos : 0 < c.requests.countP fun r => r.op = io.self :=
      List.countP_pos_iff.2 ⟨r, hr, by simpa using hop⟩
    unfold held at hheld
    omega
  -- the `OVERLAPPED` that is initialised is no request's
  have hinit : ∀ {s : StorageId} {d : Direction} {data : IocpSocketData} {ol : Overlapped},
      c.Fits io s d data → (c.rewritten s data d ol).Wired :=
    fun hfits => hW.rewritten hfits.storage (.inl hfits.unused)
  cases submit_begins h with
  | timer timeouts => exact hW.congr rfl rfl rfl
  | unopened hfits => exact hinit hfits
  | refused hfits => exact (hinit hfits).setExtra hnot
  | requested hfits =>
    exact ((hinit hfits).setExtra hnot).requested rewritten_storage_self (by simp)
      (Function.update_self ..) hfits.direction
  | closed hfits =>
    exact ((hinit hfits).setExtra hnot).congr rfl rfl rfl
  | @accepting s data fd os hfits =>
    have hlen : 0 = io.op.firstLen := by
      have hop := hfits.direction
      cases hio : io.op with
      | accept => rfl
      | _ => rw [hio] at hop; cases hop
    refine Wired.requested ?_ rewritten_storage_self
      (by simpa using hlen) (Function.update_self ..) hfits.direction
    exact ((hinit hfits).setExtra hnot).congr rfl rfl rfl

theorem acceptWork_wired (hW : c.Wired) (hI : IocpInv c) (hs : s ≠ c.allocated)
    (hdata : c.storage s = some data) (hol : ol.completion = (data d).completion ∧
      ol.len = (data d).len) (h : Accepted c s d data ol c') : c'.Wired := by
  cases h with
  | missing => exact hW.rewritten hdata (.inr hol)
  | closed =>
    have hW₁ : (c.rewritten s data d { ol with acceptSocket := none }).Wired :=
      hW.rewritten hdata (.inr hol)
    exact hW₁.congr rfl rfl rfl
  | handed hfd hmake =>
    have hW₁ := hW.makeSocketNative hI hmake
    obtain ⟨sockets, -, rfl⟩ := makeSocketNative_eq_ok hmake
    exact hW₁.rewritten ((Function.update_of_ne hs _ _).trans hdata) (.inr hol)

theorem complete_wired (hW : c.Wired) (hI : IocpInv c)
    (h : c.complete index result associate = .ok (c', fs)) : c'.Wired := by
  obtain ⟨req, data, io, fs₁, res, hreq, hdata, hio, hwork, -⟩ := complete_eq_ok hW h
  have hW₁ : (c.delivered index req data result).Wired := hW.delivered hdata
  by_cases hd : req.direction = .accept
  · rw [work_of_accept hio hd] at hwork
    have hs : req.storage ≠ c.allocated := Nat.ne_of_lt (hI.heap hdata)
    have hends := acceptWork_cases delivered_storage_self hs hwork
    exact acceptWork_wired hW₁ (hI.delivered hreq hdata) hs delivered_storage_self (by simp) hends
  · rw [work_ctx_of_ne hio hd hwork]
    exact hW₁

theorem runOne_wired {now : Time} {answer : Option PortAnswer} {n : ℕ} (hW : c.Wired)
    (hI : IocpInv c) (h : c.runOne now answer = .ok (c', fs, n)) : c'.Wired := by
  cases runOne_cases h with
  | timer _ ht =>
    obtain ⟨io, timeouts, -, -, rfl, -⟩ := processTimeout_eq_some ht
    exact hW.congr rfl rfl rfl
  | task ht =>
    obtain ⟨t, tasks, -, rfl, -⟩ := processTask_eq_some ht
    exact hW.congr rfl rfl rfl
  | stale => exact hW.congr rfl rfl rfl
  | completed _ hcomp => exact complete_wired hW hI hcomp
  | _ => exact hW

theorem call_wired {k : IocpCall} (hW : c.Wired) (hI : IocpInv c)
    (h : iocpBase.call c k = .ok (c', fs)) : c'.Wired := by
  cases call_eq_ok h with
  | runOne hrun => exact runOne_wired hW hI hrun
  | schedule t => exact hW.congr rfl rfl rfl
  | makeSocket hmake =>
    rcases makeSocket_eq_ok hmake with rfl | ⟨fd, c₁, hopened, hmade⟩
    · exact hW
    · obtain ⟨os, -, rfl⟩ := opened_eq_ok hopened
      have hW₁ : ({ c with os := os } : IocpContext).Wired := hW.congr rfl rfl rfl
      rcases hmade with rfl | hmake
      · exact hW₁
      · exact hW₁.makeSocketNative ⟨hI.count, hI.heap, hI.issued, hI.named⟩ hmake
  | makeSocketNative hmake => exact hW.makeSocketNative hI hmake
  | @release id _ _ _ hrel =>
    obtain ⟨rec, c₂, -, rfl, ⟨-, rfl⟩ | ⟨-, rfl⟩⟩ := release_cases hrel
    · exact hW.congr rfl rfl rfl
    · have hW₁ : ({ c with sockets := c.sockets.erase id } : IocpContext).Wired :=
        hW.congr rfl rfl rfl
      exact (hW₁.free rec.io).congr rfl rfl rfl

theorem popDeferred_wired (hW : c.Wired) (s : StorageId) : (c.popDeferred s).Wired := by
  unfold popDeferred
  dsimp only
  split
  · exact hW.congr rfl rfl rfl
  · next head deferred _ =>
    have hW₁ : ({ c with working := c.working.erase s, deferred := deferred } :
        IocpContext).Wired := hW.congr rfl rfl rfl
    exact hW₁.free head

theorem wired_stable : Stable ok Wired where
  submit _ hW hheld h := submit_wired hW hheld h
  timeouts _ hW := hW.congr rfl rfl rfl
  call hI hW _ h := call_wired hW hI h
  tail s hW := popDeferred_wired hW s

/-- **Every request leads to its operation and back** in every run. -/
theorem wired_of_runs {os : Os} (h : Runs iocpBase ok (initial os) m) : m.ctx.Wired :=
  wired_stable.of_runs (fun _ hr => by cases hr) h

/-! ### Who owns the storage -/

theorem runOne_owned {now : Time} {answer : Option PortAnswer} {n : ℕ} (hO : c.Owned)
    (hI : IocpInv c) (h : c.runOne now answer = .ok (c', fs, n)) : c'.Owned := by
  cases runOne_cases h with
  | timer _ ht =>
    obtain ⟨io, timeouts, -, -, rfl, -⟩ := processTimeout_eq_some ht
    exact hO.congr rfl rfl rfl
  | task ht =>
    obtain ⟨t, tasks, -, rfl, -⟩ := processTask_eq_some ht
    exact hO.congr rfl rfl rfl
  | stale => exact hO.congr rfl rfl rfl
  | @completed index _ _ _ _ _ hcomp =>
    obtain ⟨req, data, io, f, hreq, -, -, htouched, -⟩ := complete_cases hcomp hI.heap
    have hO₁ : (c.dequeued index req).Owned := hO.congr rfl rfl rfl
    exact (prepared_retains hO₁ (hI.dequeued hreq) htouched.prepared).1
  | _ => exact hO

theorem call_owned {k : IocpCall} (hO : c.Owned) (hI : IocpInv c)
    (h : iocpBase.call c k = .ok (c', fs)) : c'.Owned := by
  cases call_eq_ok h with
  | runOne hrun => exact runOne_owned hO hI hrun
  | schedule t => exact hO.congr rfl rfl rfl
  | makeSocket hmake => exact (prepared_retains hO hI (makeSocket_cases hmake).prepared).1
  | makeSocketNative hmake =>
    obtain ⟨sockets, hins, rfl⟩ := makeSocketNative_eq_ok hmake
    exact hO.makeSocket hI hins _
  | release hrel => exact release_owned hO hrel

end IocpContext

end Net29
