import Net29.Iocp.Wiring
import Net29.Iocp.Idle
import Mathlib.Algebra.Order.Ring.Nat

/-!
# The byte counts of `iocp_context`

`WSARecv` and `WSASend` are given the length of the first buffer in 32 bits. What they return, a
count of bytes or an error code of 32 bits each, is put into one `int`; the sign tells which it is.

* `Outcome`: what the system may answer to a request for some bytes;
* `ReportsOutcome`: a signal that says what happened;
* `CountsExactly`: the request, and what its receiver is sent when the packet arrives;
* `byte_counts_exact_iff`: these are exact if and only if the length of the first buffer is not a
  multiple of `2 ^ 32` and the outcome keeps its sign in an `int`;
* `byte_counts_inexact`: a buffer of `2 ^ 32` bytes.
-/

namespace Net29

open Machine Transition

/-- The lengths of the buffers of a transfer. -/
def Operation.buffers? : Operation → Option (List ℕ)
  | .receive _ buffers | .send _ buffers => some buffers
  | _ => none

namespace IocpContext

variable {c c' : IocpContext} {io : IoBase} {fs : List (Frame StorageId)} {r : SubmitResult}
  {req : Answers} {d : Direction} {ol : Overlapped} {result : SysAnswer} {len : ℕ}
  {buffers : List ℕ}

/-- What can become of a request for `len` bytes: at most as many are transferred, or it fails with
a code, a `DWORD`. -/
def Outcome (len : ℕ) : SysAnswer → Prop
  | .ok n _ => n ≤ len
  | .err e => 0 < e ∧ e < 2 ^ 32

/-- The sign of the `int` tells success from failure: a count of bytes is not negative there, and
a failure code is negative when it is negated. -/
def KeepsSign : SysAnswer → Prop
  | .ok n _ => n < 2 ^ 31
  | .err e => e ≤ 2 ^ 31

/-- A signal that reports an outcome: the number of bytes that were transferred, or after a failure
the code of the error (as an `int`), the end of the stream, or that it was stopped. -/
inductive ReportsOutcome : SysAnswer → Signal → Prop
  | transferred (n : ℕ) (peer : List UInt8) : ReportsOutcome (.ok n peer) (.setValue (.size n))
  | error (e : Errno) :
      ReportsOutcome (.err e) (.setError (.system (Int.bmod e (2 ^ 32))))
  | reset (e : Errno) : ReportsOutcome (.err e) (.setValue (.size 0))
  | stopped (e : Errno) : ReportsOutcome (.err e) .setStopped

/-! ### One `int` for both -/

theorem bmod_of_fits {n : ℤ} (h : -2 ^ 31 ≤ n) (hn : n < 2 ^ 31) : Int.bmod n (2 ^ 32) = n :=
  Int.bmod_eq_of_le (by omega) (by omega)

/-- From `2 ^ 31` on the sign changes. -/
theorem bmod_of_large {n : ℤ} (h : 2 ^ 31 ≤ n) (hn : n < 2 ^ 32) :
    Int.bmod n (2 ^ 32) = n - 2 ^ 32 := by
  have hmod : n % (2 ^ 32 : ℕ) = n := Int.emod_eq_of_lt (by omega) (by omega)
  rw [Int.bmod_def, hmod, if_neg (by omega)]
  rfl

theorem bmod_of_small {n : ℤ} (h : n < -2 ^ 31) (hn : -2 ^ 32 ≤ n) :
    Int.bmod n (2 ^ 32) = n + 2 ^ 32 := by
  have hadd : Int.bmod (n + (2 ^ 32 : ℕ)) (2 ^ 32) = Int.bmod n (2 ^ 32) := Int.add_bmod_right n _
  rw [← hadd]
  exact bmod_of_fits (by omega) (by omega)

theorem resultOf_ok {n : ℕ} (peer : List UInt8) (hn : n < 2 ^ 32) :
    n < 2 ^ 31 ∧ resultOf (.ok n peer) = n ∨
      ¬ n < 2 ^ 31 ∧ resultOf (.ok n peer) < 0 := by
  have heq : resultOf (.ok n peer) = Int.bmod n (2 ^ 32) := rfl
  rw [heq]
  rcases Nat.lt_or_ge n (2 ^ 31) with h | h
  · exact .inl ⟨h, bmod_of_fits (by omega) (by omega)⟩
  · have hlarge : Int.bmod n (2 ^ 32) = n - 2 ^ 32 := bmod_of_large (by omega) (by omega)
    rw [hlarge]
    exact .inr ⟨Nat.not_lt.2 h, by omega⟩

theorem resultOf_err_eq (e : ℕ) : resultOf (.err e) = Int.bmod (-(e : ℤ)) (2 ^ 32) := by
  have heq : resultOf (.err e) = negInt (Int.bmod e (2 ^ 32)) := rfl
  rw [heq, negInt]
  exact Int.bmod_neg_bmod

/-- The code `2 ^ 31` is its own negation as an `int`, and negative. -/
theorem resultOf_err {e : ℕ} (hpos : 0 < e) (he : e < 2 ^ 32) :
    e ≤ 2 ^ 31 ∧ resultOf (.err e) < 0 ∨ ¬ e ≤ 2 ^ 31 ∧ 0 < resultOf (.err e) := by
  rw [resultOf_err_eq]
  rcases Nat.lt_or_ge (2 ^ 31) e with h | h
  · have hsmall : Int.bmod (-(e : ℤ)) (2 ^ 32) = -(e : ℤ) + 2 ^ 32 :=
      bmod_of_small (by omega) (by omega)
    rw [hsmall]
    exact .inr ⟨Nat.not_le.2 h, by omega⟩
  · have hfits : Int.bmod (-(e : ℤ)) (2 ^ 32) = -(e : ℤ) := bmod_of_fits (by omega) (by omega)
    rw [hfits]
    exact .inl ⟨h, by omega⟩

/-- The work functions find the code again. -/
theorem negInt_resultOf (e : ℕ) : negInt (resultOf (.err e)) = Int.bmod e (2 ^ 32) := by
  rw [resultOf_err_eq, negInt]
  have hneg : Int.bmod (-Int.bmod (-(e : ℤ)) (2 ^ 32)) (2 ^ 32) = Int.bmod (- -(e : ℤ)) (2 ^ 32) :=
    Int.bmod_neg_bmod
  rw [hneg, neg_neg]

/-- What the receiver of a transfer is sent for a result. -/
inductive SignalOf (n : ℤ) : Signal → Prop
  | size (hn : 0 ≤ n) : SignalOf n (.setValue (.size n.toNat))
  | reset (hn : n < 0) : SignalOf n (.setValue (.size 0))
  | stopped (hn : n < 0) : SignalOf n .setStopped
  | error (hn : n < 0) : SignalOf n (.setError (.system (negInt n)))

/-- The report is right exactly for outcomes that keep their sign. -/
theorem SignalOf.reports_iff {x : Signal} (h : SignalOf (resultOf result) x)
    (hresult : Outcome len result) (hlen : len < 2 ^ 32) :
    ReportsOutcome result x ↔ KeepsSign result := by
  cases result with
  | ok n peer =>
    rcases resultOf_ok peer (Nat.lt_of_le_of_lt hresult hlen) with ⟨hlt, heq⟩ | ⟨hge, hneg⟩
    · rw [heq] at h
      refine iff_of_true ?_ hlt
      cases h with
      | size => exact .transferred n peer
      | reset hn | stopped hn | error hn => omega
    · refine iff_of_false (fun hreports => ?_) hge
      -- a count of bytes that was taken for a failure is not zero
      cases h with
      | size hn => omega
      | reset =>
        cases hreports
        exact hge (by decide)
      | stopped => cases hreports
      | error => cases hreports
  | err e =>
    rcases resultOf_err hresult.1 hresult.2 with ⟨hle, hneg⟩ | ⟨hgt, hpos⟩
    · refine iff_of_true ?_ hle
      cases h with
      | size hn => omega
      | reset => exact .reset e
      | stopped => exact .stopped e
      | error =>
        rw [negInt_resultOf]
        exact .error e
    · refine iff_of_false (fun hreports => ?_) hgt
      -- a failure that was taken for a count of bytes is not zero
      generalize resultOf (.err e) = n at h hpos
      cases h with
      | size =>
        generalize hk : n.toNat = k at hreports
        cases hreports
        omega
      | reset hn | stopped hn | error hn => omega

/-- What the work function of a transfer does with a result. -/
theorem transferWork_signals (c : IocpContext) (io : IoBase) (ol : Overlapped) :
    ∃ f res, c.transferWork io ol = .ok (c, [f], res) ∧
      ∀ (m : Machine IocpContext StorageId) (fs : List (Frame StorageId)),
        (m.ops io.self).outstanding = 1 → (m.ops io.self).signals = [] →
        ∃ x, ((m.runFrames iocpBase (f :: fs)).ops io.self).signals = [x] ∧
          SignalOf ol.result x := by
  unfold transferWork failedWork
  split_ifs with hneg
  · exact ⟨_, _, rfl, fun m fs hone hnil => ⟨_, signals_of_complete hone hnil _, .reset hneg⟩⟩
  · exact ⟨_, _, rfl, fun m fs hone hnil => ⟨_, signals_of_cancel hone hnil, .stopped hneg⟩⟩
  · exact ⟨_, _, rfl, fun m fs hone hnil => ⟨_, signals_of_error hone hnil _, .error hneg⟩⟩
  · exact ⟨_, _, rfl, fun m fs hone hnil =>
      ⟨_, signals_of_complete hone hnil _, .size (Int.not_lt.1 hneg)⟩⟩

/-! ### Requests -/

/-- The byte counts of a transfer that is pending with a request for `len` bytes: the request is not
for nothing unless the buffers are empty, and when `run_one` gets its packet, the receiver is sent
one signal, which reports the outcome. -/
structure CountsExactly (m : Machine IocpContext StorageId) (index : ℕ) (r : Request)
    (buffers : List ℕ) (len : ℕ) (result : SysAnswer) (associate : Option Errno) (now : Time) :
    Prop where
  nonempty : 0 < buffers.sum → 0 < len
  reports : ∃ m' x,
    m.step iocpBase (.call (.runOne now (some (.completion index result associate)))) = some m' ∧
      (m'.ops r.op).signals = [x] ∧ ReportsOutcome result x

/-- A transfer that is refused at once reports the error it is refused with. -/
theorem transfer_frames {answers : List SysAnswer}
    (h : c.transfer io d buffers answers = .ok (c', fs, r)) :
    r ≠ .ready ∧
      (fs = [] ∨ ∃ e rest, answers = .err e :: rest ∧ fs = [.error io.self (.system e)]) := by
  obtain ⟨rec, -, h⟩ := Exec.bind_eq_ok.1 h
  obtain ⟨c₁, -, h⟩ := Exec.bind_eq_ok.1 h
  split at h
  · cases h
  · unfold request at h
    dsimp only at h
    split at h
    · cases h
      exact ⟨by simp, .inl rfl⟩
    · split_ifs at h
      · cases h
        exact ⟨by simp, .inl rfl⟩
      · cases h
        exact ⟨by simp, .inr ⟨_, _, rfl, rfl⟩⟩

theorem submit_frames (hop : io.op.buffers? = some buffers)
    (h : c.submit io req = .ok (c', fs, r)) :
    r ≠ .ready ∧
      (fs = [] ∨ ∃ e rest, req.sys = .err e :: rest ∧ fs = [.error io.self (.system e)]) := by
  unfold submit at h
  split at h
  · next hio => rw [hio] at hop; cases hop
  · next hio => rw [hio] at hop; cases hop
  · next hio => rw [hio] at hop; cases hop
  · exact transfer_frames h
  · exact transfer_frames h
  · next hio => rw [hio] at hop; cases hop

/-- The direction of a transfer, and the length it hands to the system. -/
theorem direction_of_buffers (hop : io.op.buffers? = some buffers)
    (hd : io.op.direction? = some d) :
    (d = .recv ∨ d = .send) ∧ io.op.firstLen = (buffers.head?.getD 0) % 2 ^ 32 := by
  cases hio : io.op with
  | receive id buffers' =>
    rw [hio] at hop hd
    cases hop
    cases hd
    exact ⟨.inl rfl, rfl⟩
  | send id buffers' =>
    rw [hio] at hop hd
    cases hop
    cases hd
    exact ⟨.inr rfl, rfl⟩
  | _ => rw [hio] at hop; cases hop

/-- A transfer that was started is pending, or its receiver was sent the error of the system call.
-/
theorem signals_of_start {m m' : Machine IocpContext StorageId} {a : Unit}
    (hsound : iocpLedger.Sound True False m) (hop : io.op.buffers? = some buffers)
    (hstep : m.step iocpBase (.start io req false a) = some m') (hstatus : m'.status = none) :
    (m'.ops io.self).signals = [] ∨
      ∃ e rest, req.sys = .err e :: rest ∧
        (m'.ops io.self).signals = [.setError (.system e)] := by
  obtain ⟨hlog, hstart⟩ := step_start hstep
  obtain ⟨hidle, -⟩ := (hsound.phase (status_of_step hstep) io.self).idle_of_log hlog
  rcases start_eq_some hstart with ⟨hstopped, -⟩ | ⟨-, c', fs, r, hsub, rfl⟩ | ⟨-, e, rfl⟩
  · cases hstopped
  · obtain ⟨hready, hfs⟩ := submit_frames hop hsub
    have hstate : (({ m.set io.self ((m.ops io.self).begin io.op false) with ctx := c' } :
        Machine IocpContext StorageId).note io.self (.submitted r)).ops io.self =
          { ({} : SenderState).begin io.op false with log := [.submitted r, .started false] } := by
      rw [note_ops_self]
      simp only [set_ops_self, hidle]
      rfl
    rw [if_neg hready, List.append_nil]
    rcases hfs with rfl | ⟨e, rest, hsys, rfl⟩
    · refine .inl ?_
      rw [runFrames_nil, hstate]
      rfl
    · exact .inr ⟨e, rest, hsys,
        signals_of_error (by rw [hstate]; rfl) (by rw [hstate]; rfl) _⟩
  · cases hstatus

/-- An operation with a pending request is owed one call. -/
theorem owed_of_request {m : Machine IocpContext StorageId} {r : Request}
    (hsound : iocpLedger.Sound True False m) (hstatus : m.status = none)
    (hr : r ∈ m.ctx.requests) :
    (m.ops r.op).outstanding = 1 ∧ (m.ops r.op).signals = [] := by
  have hheld : 0 < iocpLedger.held m.ctx r.op := by
    refine Nat.add_pos_left (List.countP_pos_iff.2 ⟨r, hr, ?_⟩) _
    simp
  cases hsound.phase hstatus r.op with
  | idle _ hnone => omega
  | refused _ hnone => omega
  | done hd => exact absurd hd.held (Nat.ne_of_gt hheld)
  | live hl =>
    obtain ⟨hbalance, honce⟩ := hl.balance trivial
    have hasked : iocpLedger.asked m.ctx r.op = 0 := rfl
    exact ⟨by omega, hl.signals⟩

end IocpContext

open IocpContext

theorem waits_of_request {m : Machine IocpContext StorageId} (htimeouts : m.ctx.timeouts = [])
    (htasks : m.ctx.tasks.head = none) (hout : m.ctx.outstanding = 1) (now : Time) :
    Waits m.ctx now where
  timer := by rw [processTimeout, htimeouts]; rfl
  task := processTask_eq_none.2 htasks
  busy := by simp [hout]

/-- What the receiver is sent when the packet arrives. -/
theorem signal_of_packet {m : Machine IocpContext StorageId} {index : ℕ} {r : Request}
    {data : IocpSocketData} {now : Time} (result : SysAnswer) (associate : Option Errno)
    (hsound : iocpLedger.Sound True False m) (hstatus : m.status = none)
    (hr : m.ctx.requests[index]? = some r) (hdata : m.ctx.storage r.storage = some data)
    (hwired : m.ctx.WiredTo r data io) (hd : r.direction = .recv ∨ r.direction = .send)
    (hwaits : Waits m.ctx now) :
    ∃ m' x,
      m.step iocpBase (.call (.runOne now (some (.completion index result associate)))) =
        some m' ∧
      (m'.ops r.op).signals = [x] ∧ SignalOf (resultOf result) x := by
  obtain ⟨f, res, hwork, hsignals⟩ := transferWork_signals (m.ctx.delivered index r data result) io
    { data r.direction with result := resultOf result }
  have hcomplete : m.ctx.complete index result associate =
      .ok (m.ctx.delivered index r data result, [f, .tail r.storage]) := by
    rw [complete_of_wiredTo hr hdata hwired, work_of_transfer hwired hd, hwork]
    rfl
  have hcall : iocpBase.call m.ctx (.runOne now (some (.completion index result associate))) =
      .ok (m.ctx.delivered index r data result, [f, .tail r.storage]) := by
    show (m.ctx.runOne now _).map _ = _
    unfold runOne
    rw [hwaits.timer, hwaits.task]
    dsimp only
    rw [if_neg hwaits.busy, hcomplete]
    rfl
  obtain ⟨hone, hnil⟩ := owed_of_request hsound hstatus (List.mem_of_getElem? hr)
  rw [← hwired.self] at hone hnil ⊢
  obtain ⟨x, hx, hof⟩ := hsignals { m with ctx := m.ctx.delivered index r data result }
    [.tail r.storage] hone hnil
  refine ⟨_, x, ?_, hx, hof⟩
  rw [Machine.step, if_neg (by simp [hstatus]), hcall]
  rfl

/-- **The byte counts are exact** if and only if the length of the first buffer is not a multiple of
`2 ^ 32`, unless all buffers are empty, and the outcome keeps its sign: less than `2 ^ 31` bytes, or
a failure code of at most `2 ^ 31`. A transfer that is refused at once reports the error of the
system call. -/
theorem byte_counts_exact_iff (os : Os) (m : Machine IocpContext StorageId)
    (h : Runs iocpBase free (IocpContext.initial os) m) :
    (∀ io req a buffers m', io.op.buffers? = some buffers →
      m.step iocpBase (.start io req false a) = some m' → m'.status = none →
      (m'.ops io.self).signals = [] ∨ ∃ e rest, req.sys = .err e :: rest ∧
        (m'.ops io.self).signals = [.setError (.system e)]) ∧
    ∀ index r data io buffers result associate now, m.status = none →
      m.ctx.requests[index]? = some r → m.ctx.storage r.storage = some data →
      (data r.direction).completion = some io → io.op.buffers? = some buffers →
      Outcome (data r.direction).len result → Waits m.ctx now →
      (CountsExactly m index r buffers (data r.direction).len result associate now ↔
        (buffers.sum = 0 ∨ (buffers.head?.getD 0) % 2 ^ 32 ≠ 0) ∧ KeepsSign result) := by
  have hsound := soundExact_of_runs h
  refine ⟨fun io req a buffers m' => signals_of_start hsound, ?_⟩
  intro index r data io buffers result associate now hstatus hr hdata hio hop hresult hwaits
  obtain ⟨io', hwired⟩ := wired_of_runs h r (List.mem_of_getElem? hr) data hdata
  obtain rfl : io = io' := Option.some.inj (hio.symm.trans hwired.completion)
  obtain ⟨hd, hfirst⟩ := direction_of_buffers hop hwired.direction
  have hlen : (data r.direction).len = (buffers.head?.getD 0) % 2 ^ 32 := hwired.len.trans hfirst
  have hlt : (data r.direction).len < 2 ^ 32 := hlen ▸ Nat.mod_lt _ (by decide)
  obtain ⟨m', x, hstep, hsignals, hx⟩ :=
    signal_of_packet result associate hsound hstatus hr hdata hwired hd hwaits
  have hreports := hx.reports_iff hresult hlt
  constructor
  · rintro ⟨hnonempty, m'', x', hstep', hsignals', hreports'⟩
    obtain rfl := Option.some.inj (hstep.symm.trans hstep')
    obtain rfl := List.singleton_inj.1 (hsignals.symm.trans hsignals')
    refine ⟨?_, hreports.1 hreports'⟩
    rw [hlen] at hnonempty
    omega
  · rintro ⟨hmod, hkeeps⟩
    refine ⟨fun hpos => ?_, m', x, hstep, hsignals, hreports.2 hkeeps⟩
    rw [hlen]
    omega

/-- A `receive` into a buffer of `2 ^ 32` bytes is pending. -/
def wholeLength : List (Label Answers Unit IocpCall) :=
  [.call (.makeSocket (.ok 3 []) none),
    .start ⟨1, .receive 0 [2 ^ 32]⟩ { sys := [.err ERROR_IO_PENDING] } false ()]

theorem byte_counts_inexact :
    ¬ ∀ (os : Os) (m : Machine IocpContext StorageId),
      Runs iocpBase free (IocpContext.initial os) m →
      ∀ index r data io buffers result associate now, m.status = none →
        m.ctx.requests[index]? = some r → m.ctx.storage r.storage = some data →
        (data r.direction).completion = some io → io.op.buffers? = some buffers →
        Outcome (data r.direction).len result → Waits m.ctx now →
        CountsExactly m index r buffers (data r.direction).len result associate now := by
  intro h
  obtain ⟨m, hrun, hm⟩ := runs_of_labels iocpBase (IocpContext.initial {}) any any_free wholeLength
    (fun m => (m.status, m.ctx.requests, (m.ctx.storage 0).map fun data => data .recv,
      m.ctx.timeouts, m.ctx.tasks.head, m.ctx.outstanding))
    (none, [⟨0, .recv, 1⟩], some { completion := some ⟨1, .receive 0 [2 ^ 32]⟩ }, [], none, 1)
    rfl
  obtain ⟨hstatus, hrequests, hstorage, htimeouts, htasks, hout⟩ : _ ∧ _ ∧ _ ∧ _ ∧ _ ∧ _ := by
    simpa only [Prod.mk.injEq] using hm
  obtain ⟨data, hdata, hol⟩ := Option.map_eq_some_iff.1 hstorage
  have hcounts := h {} m hrun 0 ⟨0, .recv, 1⟩ data ⟨1, .receive 0 [2 ^ 32]⟩ [2 ^ 32] (.ok 0 []) none
    0 hstatus (by rw [hrequests]; rfl) hdata (by rw [hol]) rfl (by simp [Outcome])
    (waits_of_request htimeouts htasks hout 0)
  have hpos := hcounts.nonempty (by decide)
  rw [hol] at hpos
  exact absurd hpos (by decide)

/-- A `receive` into a buffer of eight bytes is pending. -/
def eightBytes : List (Label Answers Unit IocpCall) :=
  [.call (.makeSocket (.ok 3 []) none),
    .start ⟨1, .receive 0 [8]⟩ { sys := [.err ERROR_IO_PENDING] } false ()]

theorem byte_counts_exact_iff_eightBytes :
    ∃ (m : Machine IocpContext StorageId) (data : IocpSocketData),
      Runs iocpBase free (IocpContext.initial {}) m ∧ (data .recv).len = 8 ∧
      CountsExactly m 0 ⟨0, .recv, 1⟩ [8] (data .recv).len (.ok 5 []) none 0 ∧
      CountsExactly m 0 ⟨0, .recv, 1⟩ [8] (data .recv).len (.err (2 ^ 31)) none 0 ∧
      ¬ CountsExactly m 0 ⟨0, .recv, 1⟩ [8] (data .recv).len (.err (2 ^ 31 + 1)) none 0 := by
  obtain ⟨m, hrun, hm⟩ := runs_of_labels iocpBase (IocpContext.initial {}) any any_free eightBytes
    (fun m => (m.status, m.ctx.requests, (m.ctx.storage 0).map fun data => data .recv,
      m.ctx.timeouts, m.ctx.tasks.head, m.ctx.outstanding))
    (none, [⟨0, .recv, 1⟩], some { completion := some ⟨1, .receive 0 [8]⟩, len := 8 }, [], none, 1)
    rfl
  obtain ⟨hstatus, hrequests, hstorage, htimeouts, htasks, hout⟩ : _ ∧ _ ∧ _ ∧ _ ∧ _ ∧ _ := by
    simpa only [Prod.mk.injEq] using hm
  obtain ⟨data, hdata, hol⟩ := Option.map_eq_some_iff.1 hstorage
  have hiff := fun result hresult => (byte_counts_exact_iff {} m hrun).2 0 ⟨0, .recv, 1⟩ data
    ⟨1, .receive 0 [8]⟩ [8] result none 0 hstatus (by rw [hrequests]; rfl) hdata (by rw [hol]) rfl
    hresult (waits_of_request htimeouts htasks hout 0)
  refine ⟨m, data, hrun, by rw [hol], (hiff _ ?_).2 ⟨.inr (by decide), ?_⟩,
    (hiff _ ?_).2 ⟨.inr (by decide), ?_⟩, fun hcounts => ?_⟩
  · simp [Outcome, hol]
  · simp [KeepsSign]
  · simp [Outcome]
  · simp [KeepsSign]
  · exact absurd ((hiff _ (by simp [Outcome])).1 hcounts).2 (by simp [KeepsSign])

end Net29
