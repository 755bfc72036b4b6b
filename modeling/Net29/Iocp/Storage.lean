import Net29.Iocp.Ledger

/-!
# How long `iocp_context` keeps the storage of a request

The system uses an `OVERLAPPED` until its packet was dequeued, and the work function uses it then.
So `release` moves the storage of a socket to `deferred` while anything is outstanding, where it is
to stay "until IOCP completions drain"; `run_one` frees the head of `deferred` after every work
function.

* `Owned`: every block of storage belongs to one socket or is in `deferred` once;
* `Alive`: no storage in use was freed;
* `Retained`: the steps that do not free storage in use;
* `storage_outlives_request`: exactly these steps preserve `Alive`.
-/

namespace Net29

open Machine Transition

namespace IocpContext

variable {c c' c'' : IocpContext} {s head : StorageId} {id : SocketId} {rec : IocpRecord}
  {now : Time} {answer : Option PortAnswer}

/-- A request in the storage is pending, or its work function is running. -/
def InUse (c : IocpContext) (s : StorageId) : Prop :=
  (∃ r ∈ c.requests, r.storage = s) ∨ s ∈ c.working

instance (c : IocpContext) (s : StorageId) : Decidable (c.InUse s) :=
  inferInstanceAs (Decidable ((∃ r ∈ c.requests, r.storage = s) ∨ s ∈ c.working))

/-- The storage in use was not freed. -/
def Alive (c : IocpContext) : Prop := ∀ s, c.InUse s → (c.storage s).isSome

/-- When the work function of a request in `s` has returned, the head of `deferred` is not in use.
-/
def PopSafe (c : IocpContext) (s : StorageId) : Prop :=
  ∀ head ∈ c.deferred.head?, ¬ InUse { c with working := c.working.erase s } head

instance (c : IocpContext) (s : StorageId) : Decidable (c.PopSafe s) :=
  inferInstanceAs (Decidable
    (∀ head ∈ c.deferred.head?, ¬ InUse { c with working := c.working.erase s } head))

/-- The sockets and `deferred` own different blocks, which exist. -/
structure Owned (c : IocpContext) : Prop where
  live : ∀ {id : SocketId} {rec : IocpRecord}, c.sockets.get? id = some rec →
    (c.storage rec.io).isSome ∧ rec.io ∉ c.deferred
  unique : ∀ {id id' : SocketId} {rec rec' : IocpRecord}, c.sockets.get? id = some rec →
    c.sockets.get? id' = some rec' → rec.io = rec'.io → id = id'
  nodup : c.deferred.Nodup
  deferred : ∀ {s : StorageId}, s ∈ c.deferred → (c.storage s).isSome

/-- Who owns what depends on the sockets, `deferred` and the storage only. -/
theorem Owned.congr (h : c.Owned) (hsockets : c'.sockets = c.sockets)
    (hdeferred : c'.deferred = c.deferred) (hstorage : c'.storage = c.storage) : c'.Owned := by
  refine ⟨?_, ?_, hdeferred ▸ h.nodup, ?_⟩
  · rw [hsockets, hdeferred, hstorage]; exact h.live
  · rw [hsockets]; exact h.unique
  · rw [hdeferred, hstorage]; exact h.deferred

/-- What is in use, and what exists, decides; the rest of the context does not matter. -/
theorem alive_congr (hrequests : c'.requests = c.requests) (hworking : c'.working = c.working)
    (hstorage : c'.storage = c.storage) : c'.Alive ↔ c.Alive := by
  simp only [Alive, InUse, hrequests, hworking, hstorage]

/-! ### Freeing a block -/

section Free

variable (c s)

@[simp] theorem free_storage : (c.free s).storage = Function.update c.storage s none := by
  unfold free
  split
  · next h => rw [← h, Function.update_eq_self]
  · dsimp only
    split <;> rfl

@[simp] theorem free_sockets : (c.free s).sockets = c.sockets := by
  unfold free
  split
  · rfl
  · dsimp only
    split <;> rfl

@[simp] theorem free_deferred : (c.free s).deferred = c.deferred := by
  unfold free
  split
  · rfl
  · dsimp only
    split <;> rfl

@[simp] theorem free_requests : (c.free s).requests = c.requests := by
  unfold free
  split
  · rfl
  · dsimp only
    split <;> rfl

@[simp] theorem free_inUse (s' : StorageId) : (c.free s).InUse s' ↔ c.InUse s' := by
  unfold free
  split
  · rfl
  · dsimp only
    split <;> rfl

end Free

/-- A block may be freed exactly when it is not in use. -/
theorem alive_free_iff (h : c.Alive) : (c.free s).Alive ↔ ¬ c.InUse s := by
  constructor
  · intro hfree huse
    have hs := hfree s ((free_inUse c s s).2 huse)
    simp at hs
  · intro hs s' huse
    rw [free_inUse] at huse
    have hne : s' ≠ s := fun he => hs (he ▸ huse)
    rw [free_storage, Function.update_of_ne hne]
    exact h s' huse

/-- A block that nothing owns is freed. -/
theorem Owned.free (h : c.Owned)
    (hlive : ∀ {id : SocketId} {rec : IocpRecord}, c.sockets.get? id = some rec → rec.io ≠ s)
    (hdef : s ∉ c.deferred) : (c.free s).Owned where
  live {id rec} hget := by
    rw [free_sockets] at hget
    rw [free_storage, free_deferred, Function.update_of_ne (hlive hget)]
    exact h.live hget
  unique {id id' rec rec'} hget hget' := by
    rw [free_sockets] at hget hget'
    exact h.unique hget hget'
  nodup := by rw [free_deferred]; exact h.nodup
  deferred {s'} hs' := by
    rw [free_deferred] at hs'
    have hne : s' ≠ s := fun he => hdef (he ▸ hs')
    rw [free_storage, Function.update_of_ne hne]
    exact h.deferred hs'

/-! ### Changes that free nothing -/

/-- No block is freed, and the same blocks are in use. -/
structure Retains (c c' : IocpContext) : Prop where
  requests : c'.requests = c.requests
  working : c'.working = c.working
  deferred : c'.deferred = c.deferred
  storage : ∀ {s : StorageId}, (c.storage s).isSome → (c'.storage s).isSome

theorem Retains.inUse (h : Retains c c') : c'.InUse s ↔ c.InUse s := by
  rw [InUse, h.requests, h.working, InUse]

theorem Retains.alive (h : Retains c c') (hA : c.Alive) : c'.Alive := fun s huse =>
  h.storage (hA s (h.inUse.1 huse))

theorem Retains.popSafe (h : Retains c c') : c'.PopSafe s ↔ c.PopSafe s := by
  simp only [PopSafe, InUse, h.deferred, h.requests, h.working]

theorem isSome_update {storage : StorageId → Option IocpSocketData} {s' : StorageId}
    (h : (storage s').isSome) (data : IocpSocketData) :
    (Function.update storage s (some data) s').isSome := by
  by_cases hs : s' = s
  · rw [hs, Function.update_self]; rfl
  · rwa [Function.update_of_ne hs]

theorem prepare_retains (h : Prepare c c') : Retains c c' := by
  cases h with
  | touch h =>
    cases h with
    | os => exact ⟨rfl, rfl, rfl, id⟩
    | extra => exact ⟨rfl, rfl, rfl, id⟩
    | write => exact ⟨rfl, rfl, rfl, fun hs => isSome_update hs _⟩
    | makeSocket => exact ⟨rfl, rfl, rfl, fun hs => isSome_update hs _⟩
  | initialise => exact ⟨rfl, rfl, rfl, fun hs => isSome_update hs _⟩

/-- A new socket gets a new block. -/
theorem Owned.makeSocket (hO : c.Owned) (hI : IocpInv c) {handle : Fd}
    {sockets : Container IocpRecord}
    (hins : c.sockets.insert ⟨handle, c.allocated⟩ = .ok (sockets, id))
    (history : List SocketEvent) :
    Owned { c with
      sockets := sockets
      storage := Function.update c.storage c.allocated (some fun _ => {})
      allocated := c.allocated + 1
      history := history } := by
  have hold : ∀ {s : StorageId}, (c.storage s).isSome → s ≠ c.allocated := by
    intro s hs
    obtain ⟨data, hdata⟩ := Option.isSome_iff_exists.1 hs
    exact Nat.ne_of_lt (hI.heap hdata)
  refine ⟨?_, ?_, hO.nodup, fun hs => isSome_update (hO.deferred hs) _⟩
  · intro id' rec hget
    rcases Container.get?_insert hins hget with hget | ⟨-, rfl⟩
    · exact ⟨isSome_update (hO.live hget).1 _, (hO.live hget).2⟩
    · exact ⟨by simp, fun hmem => hold (hO.deferred hmem) rfl⟩
  · intro i i' rec rec' hget hget' hio
    rcases Container.get?_insert hins hget with hget | ⟨rfl, rfl⟩ <;>
      rcases Container.get?_insert hins hget' with hget' | ⟨rfl, rfl⟩
    · exact hO.unique hget hget' hio
    · exact absurd hio (hold (hO.live hget).1)
    · exact absurd hio.symm (hold (hO.live hget').1)
    · rfl

theorem Owned.prepare (hO : c.Owned) (hI : IocpInv c) (h : Prepare c c') : c'.Owned := by
  have hsame : ∀ {c' : IocpContext}, c'.sockets = c.sockets → Retains c c' → c'.Owned := by
    intro c' hsockets hr
    refine ⟨?_, ?_, hr.deferred ▸ hO.nodup, fun hs => hr.storage (hO.deferred (hr.deferred ▸ hs))⟩
    · intro id rec hget
      rw [hsockets] at hget
      exact ⟨hr.storage (hO.live hget).1, hr.deferred ▸ (hO.live hget).2⟩
    · intro id id' rec rec' hget hget'
      rw [hsockets] at hget hget'
      exact hO.unique hget hget'
  have hr := prepare_retains h
  cases h with
  | touch h =>
    cases h with
    | makeSocket hins => exact hO.makeSocket hI hins _
    | _ => exact hsame rfl hr
  | initialise => exact hsame rfl hr

theorem prepared_retains (hO : c.Owned) (hI : IocpInv c) (h : Prepared c c') :
    c'.Owned ∧ Retains c c' := by
  have hall := h.induct (P := fun c' => IocpInv c' ∧ c'.Owned ∧ Retains c c')
    ⟨hI, hO, rfl, rfl, rfl, id⟩ fun ⟨hI, hO, hr⟩ hstep => by
      have hr' := prepare_retains hstep
      exact ⟨(prepare_spec hI hstep).1, hO.prepare hI hstep, hr'.requests.trans hr.requests,
        hr'.working.trans hr.working, hr'.deferred.trans hr.deferred,
        fun hs => hr'.storage (hr.storage hs)⟩
  exact hall.2

/-! ### `release` and the end of `run_one` -/

/-- After `release` the socket owns nothing; its storage is in `deferred`, or freed. -/
theorem release_owned {a e : Option Errno} (hO : c.Owned) (h : c.release id a = .ok (c', e)) :
    c'.Owned := by
  obtain ⟨rec, c₁, hrec, rfl, hcases⟩ := release_cases h
  -- the records that stay live, and their storage
  have hothers : ∀ {i : SocketId} {rec' : IocpRecord},
      (c.sockets.erase id).get? i = some rec' →
      c.sockets.get? i = some rec' ∧ rec'.io ≠ rec.io := by
    intro i rec' hget
    have hne : i ≠ id := by
      rintro rfl
      rw [Container.get?_erase_self] at hget
      cases hget
    have hget' := Container.get?_erase hget
    exact ⟨hget', fun hio => hne (hO.unique hget' hrec hio)⟩
  have hclose : ∀ {c₁ : IocpContext}, c₁.Owned → (c₁.closeSocket rec.handle).Owned :=
    fun h => h.congr rfl rfl rfl
  have hunique : ∀ {i i' : SocketId} {rec₁ rec₂ : IocpRecord},
      (c.sockets.erase id).get? i = some rec₁ → (c.sockets.erase id).get? i' = some rec₂ →
      rec₁.io = rec₂.io → i = i' :=
    fun hget hget' => hO.unique (hothers hget).1 (hothers hget').1
  rcases hcases with ⟨-, rfl⟩ | ⟨-, rfl⟩
  · refine hclose ⟨?_, hunique, ?_, ?_⟩
    · intro i rec' hget
      obtain ⟨hget', hne⟩ := hothers hget
      exact ⟨(hO.live hget').1, fun hs => (List.mem_cons.1 hs).elim hne (hO.live hget').2⟩
    · exact List.nodup_cons.2 ⟨(hO.live hrec).2, hO.nodup⟩
    · intro s hs
      rcases List.mem_cons.1 hs with rfl | hs
      · exact (hO.live hrec).1
      · exact hO.deferred hs
  · have hO₁ : Owned { c with sockets := c.sockets.erase id } :=
      ⟨fun hget => hO.live (hothers hget).1, hunique, hO.nodup, hO.deferred⟩
    exact hclose (hO₁.free (fun hget => (hothers hget).2) (hO.live hrec).2)

/-- `release` frees the storage at once only if nothing is outstanding. -/
theorem release_alive {a e : Option Errno} (hA : c.Alive) (h : c.release id a = .ok (c', e)) :
    ∃ rec, c.sockets.get? id = some rec ∧
      (c'.Alive ↔ (c.outstanding = 0 → ¬ c.InUse rec.io)) := by
  obtain ⟨rec, c₁, hrec, rfl, ⟨hout, rfl⟩ | ⟨hout, rfl⟩⟩ := release_cases h
  · exact ⟨rec, hrec, iff_of_true hA fun hz => absurd hout (by omega)⟩
  · refine ⟨rec, hrec, ?_⟩
    have hA₁ : Alive { c with sockets := c.sockets.erase id } := hA
    exact ((alive_congr rfl rfl rfl).trans (alive_free_iff hA₁)).trans
      ⟨fun hs _ => hs, fun hs => hs hout⟩

/-- The head of `deferred` is owned by no socket and is not in the rest of the list. -/
theorem popDeferred_owned (hO : c.Owned) (s : StorageId) : (c.popDeferred s).Owned := by
  unfold popDeferred
  dsimp only
  split
  · exact hO.congr rfl rfl rfl
  · next head deferred hdef =>
    have hnodup := List.nodup_cons.1 (hdef ▸ hO.nodup)
    have hmem : ∀ {s : StorageId}, s ∈ deferred → s ∈ c.deferred := fun hs =>
      hdef ▸ List.mem_cons_of_mem _ hs
    have hhead : head ∈ c.deferred := hdef ▸ List.mem_cons_self
    have hO₁ : Owned { c with working := c.working.erase s, deferred := deferred } :=
      ⟨fun hget => ⟨(hO.live hget).1, fun hs => (hO.live hget).2 (hmem hs)⟩, hO.unique, hnodup.2,
        fun hs => hO.deferred (hmem hs)⟩
    exact hO₁.free (fun hget he => (hO.live hget).2 (he ▸ hhead)) hnodup.1

/-- After a work function, the head of `deferred` is freed. -/
theorem popDeferred_alive (hA : c.Alive) (s : StorageId) :
    (c.popDeferred s).Alive ↔ c.PopSafe s := by
  have hA₁ : Alive { c with working := c.working.erase s } := fun s' huse =>
    hA s' (huse.imp_right List.mem_of_mem_erase)
  unfold popDeferred PopSafe
  dsimp only
  split
  · next hdef => exact iff_of_true hA₁ (by simp [hdef])
  · next head deferred hdef =>
    have hA₂ : Alive { c with working := c.working.erase s, deferred := deferred } := hA₁
    rw [alive_free_iff hA₂, hdef]
    simp [InUse]

/-- A dequeued request is in use until its work function returns. -/
theorem Alive.dequeued (hA : c.Alive) {index : ℕ} {r : Request}
    (hr : c.requests[index]? = some r) : (c.dequeued index r).Alive := by
  rintro s (⟨r', hr', hs⟩ | hs)
  · exact hA s (.inl ⟨r', List.mem_of_mem_eraseIdx hr', hs⟩)
  · rcases List.mem_cons.1 hs with rfl | hs
    · exact hA _ (.inl ⟨r, List.mem_of_getElem? hr, rfl⟩)
    · exact hA s (.inr hs)

/-! ### Steps -/

/-- The steps that free no storage in use: a socket with nothing outstanding is not released while a
work function of its own is running, and the head of `deferred` is not in use when a work function
returns. The work function returns in the same step unless it sends its receiver a signal. -/
def Retained (m : Machine IocpContext StorageId) : Label Answers Unit IocpCall → Prop
  | .call (.release id _) => ∀ rec, m.ctx.sockets.get? id = some rec → m.ctx.outstanding = 0 →
      ¬ m.ctx.InUse rec.io
  | .call (.runOne now (some (.completion index _ _))) => Waits m.ctx now →
      ∀ r, m.ctx.requests[index]? = some r → (m.ops r.op).outstanding ≠ 1 →
        (m.ctx.dequeued index r).PopSafe r.storage
  | .ret => ∀ s rest, m.stack = [.tail s] :: rest → m.ctx.PopSafe s
  | _ => True

/-- Calls that were interrupted: at most the end of `run_one` is left. -/
def Interrupted (fs : List (Frame StorageId)) : Prop := Plain fs ∨ ∃ s, fs = [.tail s]

/-- The invariant of a run. -/
structure StorageInv (m : Machine IocpContext StorageId) : Prop where
  owned : m.ctx.Owned
  alive : m.ctx.Alive
  stack : ∀ fs ∈ m.stack, Interrupted fs

variable {m m' : Machine IocpContext StorageId} {fs : List (Frame StorageId)}
  {l : Label Answers Unit IocpCall} {k : IocpCall}

/-- After calls without a continuation the context is as before them. -/
theorem StorageInv.plain (hO : m.ctx.Owned) (hA : m.ctx.Alive)
    (hstack : ∀ fs ∈ m.stack, Interrupted fs) (h : Plain fs) :
    StorageInv (m.runFrames iocpBase fs) := by
  have hctx := runFrames_ctx_of_plain (B := iocpBase) (m := m) h
  refine ⟨hctx ▸ hO, hctx ▸ hA, ?_⟩
  have hcases : (m.runFrames iocpBase fs).stack = m.stack ∨
      ∃ f fs', f :: fs' <:+ fs ∧ (m.runFrames iocpBase fs).stack = fs' :: m.stack := runFrames_stack
  rcases hcases with hs | ⟨f, fs', hsuf, hs⟩
  · rw [hs]
    exact hstack
  · rw [hs]
    intro fs₁ hmem
    rcases List.mem_cons.1 hmem with rfl | hmem
    · exact .inl (h.of_suffix ((List.suffix_cons _ _).trans hsuf))
    · exact hstack fs₁ hmem

theorem submit_plain {io : IoBase} {req : Answers} {r : SubmitResult}
    (h : c.submit io req = .ok (c', fs, r)) : Plain fs := by
  cases submit_cases h with
  | ready | timer | accepted => exact .nil
  | due | failed => exact .single (by simp)

/-- A submission gives no storage to another owner, -/
theorem submit_owned {io : IoBase} {req : Answers} {r : SubmitResult} (hO : c.Owned)
    (hI : IocpInv c) (h : c.submit io req = .ok (c', fs, r)) : c'.Owned := by
  cases submit_cases h with
  | ready | due => exact hO
  | timer => exact hO.congr rfl rfl rfl
  | failed e hprep => exact (prepared_retains hO hI hprep).1
  | accepted hrec hprep hdata hcomp => exact (prepared_retains hO hI hprep).1.congr rfl rfl rfl

/-- and frees none. -/
theorem submit_alive {io : IoBase} {req : Answers} {r : SubmitResult} (hO : c.Owned)
    (hA : c.Alive) (hI : IocpInv c) (h : c.submit io req = .ok (c', fs, r)) : c'.Alive := by
  cases submit_cases h with
  | ready | due | timer => exact hA
  | failed e hprep => exact (prepared_retains hO hI hprep).2.alive hA
  | accepted hrec hprep hdata hcomp =>
    have hr := (prepared_retains hO hI hprep).2
    rintro s (⟨r, hmem, rfl⟩ | hs)
    · rcases List.mem_append.1 hmem with hmem | hmem
      · exact hr.alive hA _ (.inl ⟨r, hmem, rfl⟩)
      · obtain rfl := List.mem_singleton.1 hmem
        exact Option.isSome_iff_exists.2 ⟨_, hdata⟩
    · exact hr.alive hA s (.inr hs)

/-- A step that neither calls the context from outside nor returns to an interrupted call. -/
theorem storage_step_of_ne (h : StorageInv m) (hI : IocpInv m.ctx)
    (hz : ∀ o, (m.ops o).upstream = {}) (hcall : ∀ k, l ≠ .call k) (hret : l ≠ .ret)
    (hstep : m.step iocpBase l = some m') : StorageInv m' := by
  rcases entry_of_step hz hstep with ⟨hctx, hstack, -⟩ | ⟨m₀, fs, hentry, rfl⟩
  · exact ⟨hctx ▸ h.owned, hctx ▸ h.alive, hstack ▸ h.stack⟩
  · generalize hc : m₀.ctx = c, hs : m₀.stack = stack at hentry
    cases hentry with
    | submit hlog hsub =>
      have hO := submit_owned h.owned hI hsub
      have hA := submit_alive h.owned h.alive hI hsub
      refine .plain (hc ▸ hO) (hc ▸ hA) (hs ▸ h.stack) ((submit_plain hsub).append ?_)
      split_ifs
      · exact .single (by simp)
      · exact .nil
    | @cancel _ io a _ _ _ hcancel hends =>
      rcases cancel_cases (u := a) hcancel with ⟨timeouts, -, rfl, rfl⟩ | ⟨-, rfl, rfl⟩
      · have hO : Owned { m.ctx with timeouts := timeouts } :=
          (h.owned.congr rfl rfl rfl)
        have hA : Alive { m.ctx with timeouts := timeouts } := h.alive
        exact .plain (hc ▸ hO) (hc ▸ hA) (hs ▸ h.stack)
          (Plain.append (fun t ht => by simp at ht) hends)
      · exact .plain (hc ▸ h.owned) (hc ▸ h.alive) (hs ▸ h.stack)
          ((Plain.single (by simp)).append hends)
    | unasked l hends => exact .plain (hc ▸ h.owned) (hc ▸ h.alive) (hs ▸ h.stack) hends
    | call => exact absurd rfl (hcall _)
    | ret => exact absurd rfl hret

/-- What holds after a step. -/
structure Stepped (m : Machine IocpContext StorageId) (l : Label Answers Unit IocpCall)
    (m' : Machine IocpContext StorageId) : Prop where
  owned : m'.ctx.Owned
  alive : m'.ctx.Alive ↔ Retained m l
  stack : ∀ fs ∈ m'.stack, Interrupted fs

theorem Stepped.of_inv (h : StorageInv m') (hl : Retained m l) : Stepped m l m' :=
  ⟨h.owned, iff_of_true h.alive hl, h.stack⟩

theorem runFrames_tail :
    m.runFrames iocpBase [.tail s] = { m with ctx := m.ctx.popDeferred s } := by
  rw [runFrames_cons_of_silent rfl]
  rfl

theorem complete_storage {index : ℕ} {result : SysAnswer} {associate : Option Errno}
    (h : StorageInv m) (hI : IocpInv m.ctx) (hwaits : Waits m.ctx now)
    (hcomp : m.ctx.complete index result associate = .ok (c, fs)) :
    Stepped m (.call (.runOne now (some (.completion index result associate))))
      ({ m with ctx := c }.runFrames iocpBase fs) := by
  obtain ⟨r, data, io, f, hr, hdata, hio, htouched, hf, rfl⟩ := complete_cases hcomp hI.heap
  obtain ⟨io', hio', hself⟩ := hI.named (List.mem_of_getElem? hr) hdata
  obtain rfl : io' = io := Option.some.inj (hio'.symm.trans hio)
  have hO₁ : (m.ctx.dequeued index r).Owned :=
    (h.owned.congr rfl rfl rfl)
  obtain ⟨hO, hretains⟩ := prepared_retains hO₁ (hI.dequeued hr) htouched.prepared
  have hA : c.Alive := hretains.alive (h.alive.dequeued hr)
  have hguard : Retained m (.call (.runOne now (some (.completion index result associate)))) ↔
      ((m.ops r.op).outstanding ≠ 1 → (m.ctx.dequeued index r).PopSafe r.storage) := by
    constructor
    · exact fun hg => hg hwaits r hr
    · intro hg _ r' hr'
      obtain rfl : r' = r := Option.some.inj (hr'.symm.trans hr)
      exact hg
  have hsignals : (({ m with ctx := c } : Machine IocpContext StorageId).exec iocpBase f).2 = true ↔
      (m.ops r.op).outstanding = 1 := by
    rw [← hself]
    exact exec_of_notifies hf
  have hctx : (({ m with ctx := c } : Machine IocpContext StorageId).exec iocpBase f).1.ctx = c :=
    exec_ctx_of_ne fun t ht => by subst ht; cases hf
  cases hb : (({ m with ctx := c } : Machine IocpContext StorageId).exec iocpBase f).2 with
  | true =>
    -- the receiver's code runs before the work function returns
    rw [runFrames_cons_of_user hb]
    refine ⟨(congrArg Owned hctx).mpr hO, ?_, ?_⟩
    · rw [hguard]
      exact iff_of_true ((congrArg Alive hctx).mpr hA) fun hne => absurd (hsignals.1 hb) hne
    · intro fs hmem
      rcases List.mem_cons.1 hmem with rfl | hmem
      · exact .inr ⟨_, rfl⟩
      · rw [exec_stack] at hmem
        exact h.stack fs hmem
  | false =>
    -- no signal: the work function returns and the head of `deferred` is freed in the same step
    have hne : (m.ops r.op).outstanding ≠ 1 := fun hone => by
      rw [hsignals.2 hone] at hb
      cases hb
    rw [runFrames_cons_of_silent hb, runFrames_tail]
    refine ⟨by rw [hctx]; exact popDeferred_owned hO r.storage, ?_, ?_⟩
    · rw [hguard, hctx]
      exact (popDeferred_alive hA r.storage).trans
        (hretains.popSafe.trans ⟨fun hs _ => hs, fun hs => hs hne⟩)
    · rw [exec_stack]
      exact h.stack

/-- `run_one` frees storage in use, or not, as the guard says. -/
theorem runOne_storage {n : ℕ} (h : StorageInv m) (hI : IocpInv m.ctx)
    (hrun : m.ctx.runOne now answer = .ok (c, fs, n)) :
    Stepped m (.call (.runOne now answer)) ({ m with ctx := c }.runFrames iocpBase fs) := by
  have hsame : ∀ {c : IocpContext}, c.Owned → c.Alive → Plain fs →
      Retained m (.call (.runOne now answer)) →
      Stepped m (.call (.runOne now answer)) ({ m with ctx := c }.runFrames iocpBase fs) :=
    fun hO hA hfs => .of_inv (.plain hO hA h.stack hfs)
  -- where `run_one` does not wait no packet is dequeued, and the guard holds
  have hnot : ¬ Waits m.ctx now → Retained m (.call (.runOne now answer)) := by
    intro hw
    rcases answer with _ | _ | _ | _ | _
    all_goals first | trivial | exact fun hw' => absurd hw' hw
  cases runOne_cases hrun with
  | @timer _ later _ _ hlater ht =>
    obtain ⟨io, timeouts, -, -, rfl, rfl⟩ := processTimeout_eq_some ht
    refine hsame (h.owned.congr rfl rfl rfl) h.alive
      (.single (by simp)) ?_
    rcases hlater with rfl | rfl
    · exact hnot fun hw => by rw [hw.timer] at ht; cases ht
    · trivial
  | task ht =>
    obtain ⟨t, tasks, -, rfl, rfl⟩ := processTask_eq_some ht
    refine hsame (h.owned.congr rfl rfl rfl) h.alive
      (.single (by simp)) (hnot fun hw => by rw [hw.task] at ht; cases ht)
  | idle _ ho ht => exact hsame h.owned h.alive .nil (hnot fun hw => hw.busy ⟨ho, ht⟩)
  | early => exact hsame h.owned h.alive .nil trivial
  | failed => exact hsame h.owned h.alive .nil trivial
  | stale =>
    exact hsame (h.owned.congr rfl rfl rfl) h.alive .nil trivial
  | completed hwaits hcomp => exact complete_storage h hI hwaits hcomp

theorem call_storage (h : StorageInv m) (hI : IocpInv m.ctx)
    (hcall : iocpBase.call m.ctx k = .ok (c, fs)) :
    Stepped m (.call k) ({ m with ctx := c }.runFrames iocpBase fs) := by
  have hprepared : ∀ {c : IocpContext}, Prepared m.ctx c → Retained m (.call k) →
      Stepped m (.call k) ({ m with ctx := c }.runFrames iocpBase []) := by
    intro c hprep hl
    obtain ⟨hO, hr⟩ := prepared_retains h.owned hI hprep
    exact .of_inv (.plain hO (hr.alive h.alive) h.stack .nil) hl
  cases call_eq_ok hcall with
  | runOne hrun => exact runOne_storage h hI hrun
  | schedule t => exact ⟨h.owned.congr rfl rfl rfl, iff_of_true h.alive trivial, h.stack⟩
  | makeSocket hmake => exact hprepared (makeSocket_cases hmake).prepared trivial
  | makeSocketNative hmake =>
    obtain ⟨sockets, hins, rfl⟩ := makeSocketNative_eq_ok hmake
    exact hprepared (.touch (.makeSocket hins)) trivial
  | release hrel =>
    obtain ⟨rec, hrec, halive⟩ := release_alive h.alive hrel
    -- the guard speaks of every record of the id, of which there is one
    refine ⟨release_owned h.owned hrel,
      halive.trans ⟨fun hs rec' hrec' => ?_, fun hs => hs rec hrec⟩, h.stack⟩
    obtain rfl : rec' = rec := Option.some.inj (hrec'.symm.trans hrec)
    exact hs

/-- **What a step does to the storage.** -/
theorem storage_step (h : StorageInv m) (hI : IocpInv m.ctx) (hz : ∀ o, (m.ops o).upstream = {})
    (hstep : m.step iocpBase l = some m') :
    (m'.status.isSome ∧ StorageInv m') ∨ Stepped m l m' := by
  cases l with
  | call k =>
    rcases perform_eq_some (step_call hstep) with ⟨c, fs, hcall, rfl⟩ | ⟨e, -, rfl⟩
    · exact .inr (call_storage h hI hcall)
    · exact .inl ⟨rfl, h.owned, h.alive, h.stack⟩
  | ret =>
    obtain ⟨fs, rest, hstack, rfl⟩ := step_ret hstep
    have hrest : ∀ fs ∈ rest, Interrupted fs := fun fs hmem =>
      h.stack fs (hstack ▸ List.mem_cons_of_mem _ hmem)
    rcases h.stack fs (hstack ▸ List.mem_cons_self) with hplain | ⟨s, rfl⟩
    · refine .inr (.of_inv (.plain h.owned h.alive hrest hplain) fun s rest' hs => ?_)
      rw [hstack] at hs
      cases hs
      exact absurd List.mem_cons_self (hplain s)
    · rw [runFrames_tail]
      refine .inr ⟨popDeferred_owned h.owned s, (popDeferred_alive h.alive s).trans
        ⟨fun hs s' rest' hs' => ?_, fun hs => hs s rest hstack⟩, hrest⟩
      rw [hstack] at hs'
      cases hs'
      exact hs
  | upstream io u req stopped a =>
    have hpos := (step_upstream hstep).1
    rw [hz] at hpos
    cases hpos
  | start => exact .inr (.of_inv (storage_step_of_ne h hI hz (by simp) (by simp) hstep) trivial)
  | stop => exact .inr (.of_inv (storage_step_of_ne h hI hz (by simp) (by simp) hstep) trivial)

theorem storageInv_initial (os : Os) : StorageInv { ctx := initial os } where
  owned := ⟨fun hget => (by cases hget), fun hget => (by cases hget), List.nodup_nil,
    fun hs => (by cases hs)⟩
  alive := by
    rintro s (⟨r, hr, -⟩ | hs)
    · cases hr
    · cases hs
  stack := fun _ hmem => (by cases hmem)

end IocpContext

open IocpContext

/-- **The storage of a request outlives it** in every run of steps that meet the guard, and while
the process runs a further step frees storage in use if and only if it does not meet the guard. -/
theorem storage_outlives_request (os : Os) (m : Machine IocpContext StorageId)
    (h : Runs iocpBase Retained (IocpContext.initial os) m) :
    m.ctx.Alive ∧ ∀ l m', m.step iocpBase l = some m' → m'.status = none →
      (m'.ctx.Alive ↔ Retained m l) := by
  have hJ : ∀ m, Runs iocpBase Retained (IocpContext.initial os) m →
      IocpInv m.ctx ∧ ∀ o, (m.ops o).upstream = {} := fun m hm =>
    ⟨(sound_of_runs hm).inv, Runs.never_started hm⟩
  have hI : StorageInv m := by
    refine Reaches.invariant₂ (I := StorageInv) h hJ (storageInv_initial os) ?_
    intro m l m' hm hI hguard hstep
    rcases storage_step hI hm.1 hm.2 hstep with ⟨-, hI'⟩ | hI'
    · exact hI'
    · exact ⟨hI'.owned, hI'.alive.2 hguard, hI'.stack⟩
  refine ⟨hI.alive, fun l m' hstep hstatus => ?_⟩
  rcases storage_step hI (hJ m h).1 (hJ m h).2 hstep with ⟨hended, -⟩ | hI'
  · rw [hstatus] at hended
    cases hended
  · exact hI'.alive

/-- Two sockets with a `receive` each. The first is released, then the `receive` of the second
finishes. -/
def releasedFirst : List (Label Answers Unit IocpCall) :=
  [.call (.makeSocket (.ok 3 []) none), .call (.makeSocket (.ok 4 []) none),
    .start ⟨1, .receive 0 [8]⟩ { sys := [.err ERROR_IO_PENDING] } false (),
    .start ⟨2, .receive 1 [8]⟩ { sys := [.err ERROR_IO_PENDING] } false (),
    .call (.release 0 none), .call (.runOne 0 (some (.completion 1 (.ok 5 []) none))), .ret]

theorem storage_freed_early :
    ¬ ∀ (os : Os) (m : Machine IocpContext StorageId),
      Runs iocpBase free (IocpContext.initial os) m → m.ctx.Alive := by
  intro h
  obtain ⟨m, hrun, hm⟩ := runs_of_labels iocpBase (IocpContext.initial {}) any any_free
    releasedFirst (fun m => (m.ctx.requests, (m.ctx.storage 0).isSome)) ([⟨0, .recv, 1⟩], false)
    (by decide)
  obtain ⟨hrequests, hstorage⟩ : _ ∧ _ := by simpa only [Prod.mk.injEq] using hm
  have halive := h {} m hrun 0 (.inl ⟨⟨0, .recv, 1⟩, by rw [hrequests]; decide, rfl⟩)
  rw [hstorage] at halive
  cases halive

/-- A socket is released while its `receive` is pending, which the system then aborts. -/
def releasedAlone : List (Label Answers Unit IocpCall) :=
  [.call (.makeSocket (.ok 3 []) none),
    .start ⟨1, .receive 0 [8]⟩ { sys := [.err ERROR_IO_PENDING] } false (),
    .call (.release 0 none),
    .call (.runOne 0 (some (.completion 0 (.err ERROR_OPERATION_ABORTED) none))), .ret]

/-- Sockets are released while something is outstanding, and packets are for receivers that are sent
a signal. -/
def retained (m : Machine IocpContext StorageId) : Label Answers Unit IocpCall → Bool
  | .call (.release _ _) => 0 < m.ctx.outstanding
  | .call (.runOne _ (some (.completion index _ _))) =>
      (m.ctx.requests[index]?).all fun r => (m.ops r.op).outstanding = 1
  | .ret => match m.stack with
      | [.tail s] :: _ => m.ctx.PopSafe s
      | _ => true
  | _ => true

theorem retained_sound (m : Machine IocpContext StorageId) (l : Label Answers Unit IocpCall)
    (h : retained m l = true) : Retained m l := by
  cases l with
  | call k =>
    cases k with
    | release id answer =>
      have hpos : 0 < m.ctx.outstanding := by simpa [retained] using h
      exact fun _ _ hz => absurd hz (by omega)
    | runOne now answer =>
      rcases answer with _ | _ | _ | _ | ⟨index, result, associate⟩
      case completion =>
        intro _ r hr hne
        have hone : (m.ops r.op).outstanding = 1 := by simpa [retained, hr] using h
        exact absurd hone hne
      all_goals trivial
    | _ => trivial
  | ret =>
    intro s rest hs
    simpa [retained, hs] using h
  | _ => trivial

theorem storage_outlives_request_releasedAlone :
    ∃ m : Machine IocpContext StorageId, Runs iocpBase Retained (IocpContext.initial {}) m ∧
      (m.ctx.storage 0).isNone ∧ m.ctx.Alive := by
  obtain ⟨m, hrun, hm⟩ := runs_of_labels iocpBase (IocpContext.initial {}) retained
    retained_sound releasedAlone (fun m => (m.ctx.storage 0).isNone) true (by decide)
  exact ⟨m, hrun, hm, (storage_outlives_request {} m hrun).1⟩

end Net29
