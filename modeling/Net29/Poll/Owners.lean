import Net29.Poll.Holders

/-!
# Who owns the sockets of a `poll_context`

Acceptors and sockets hold ids, and pass them on when they are moved, closed and destroyed.

* `World.Owned`: the live ids are those held by living objects, each by one;
* `World.NotReopened`: no acceptor is opened that is open already;
* `World.owned_iff_not_reopened`: exactly such steps keep the sockets owned.
-/

namespace Net29

open Machine Transition Ownership

namespace Object

variable {c c' : PollContext} {x x' : Object} {a : SysAnswer} {answer : Option Errno}

/-- The id that an object holds. -/
def held (x : Object) : Option SocketId := if x.isOpen then some x.id else none

theorem held_of_isOpen (h : x.isOpen = true) : x.held = some x.id := if_pos h

theorem held_of_not_isOpen (h : x.isOpen = false) : x.held = none := if_neg (by simp [h])

@[simp] theorem held_invalid (kind : ObjectKind) : held ⟨kind, SocketId.invalid⟩ = none :=
  held_of_not_isOpen (by simp [isOpen])

theorem held_of_ne {kind : ObjectKind} {id : SocketId} (h : id ≠ SocketId.invalid) :
    held ⟨kind, id⟩ = some id := held_of_isOpen (by simp [isOpen, h])

theorem open_eq_ok {e : Option ErrorCode} (h : x.open c a = .ok (x', c', e)) :
    ∃ id e', c.makeSocket a = .ok (c', id, e') ∧ x' = { x with id := id } ∧
      e = (e'.map ErrorCode.system).or (if x.isOpen then some .alreadyOpen else none) := by
  obtain ⟨⟨c₁, id, e'⟩, hmake, h⟩ := Exec.bind_eq_ok.1 h
  cases h
  exact ⟨id, e', hmake, rfl, rfl⟩

theorem open_eq_error {e : Stuck} (h : x.open c a = .error e) : c.makeSocket a = .error e := by
  rcases Exec.bind_eq_error.1 h with h | ⟨r, -, h⟩
  · exact h
  · cases h

theorem close_of_isOpen (h : x.isOpen = true) (hrel : c.release x.id answer = .ok (c', answer)) :
    x.close c answer = .ok ({ x with id := SocketId.invalid }, c') := by
  rw [close, if_pos h, hrel]
  rfl

theorem close_of_not_isOpen (h : x.isOpen = false) : x.close c answer = .ok (x, c) := by
  rw [close, if_neg (by simp [h])]

theorem destroy_of_isOpen (h : x.isOpen = true) (hrel : c.release x.id answer = .ok (c', answer)) :
    x.destroy c answer = .ok c' := by
  unfold destroy
  split
  · rw [close_of_isOpen h hrel]
    rfl
  · rw [if_pos (of_decide_eq_true h), hrel]
    rfl

theorem destroy_of_not_isOpen (h : x.isOpen = false) : x.destroy c answer = .ok c := by
  unfold destroy
  split
  · rw [close_of_not_isOpen h]
    rfl
  · rw [if_neg (of_decide_eq_false h)]

theorem acceptor_eq_ok (h : Object.acceptor c a = .ok (c', some x)) :
    ∃ id, c.makeSocket a = .ok (c', id, none) ∧ x = ⟨.acceptor, id⟩ := by
  obtain ⟨⟨x₁, c₁, e⟩, hopen, h⟩ := Exec.bind_eq_ok.1 h
  obtain ⟨id, e', hmake, rfl, rfl⟩ := open_eq_ok hopen
  cases e' with
  | none => cases h; exact ⟨id, hmake, rfl⟩
  | some e' => cases h

theorem acceptor_eq_error {e : Stuck} (h : Object.acceptor c a = .error e) :
    c.makeSocket a = .error e := by
  rcases Exec.bind_eq_error.1 h with h | ⟨r, -, h⟩
  · exact open_eq_error h
  · cases h

theorem streamSocket_eq_ok (h : Object.streamSocket c a = .ok (c', some x)) :
    ∃ id, c.makeSocket a = .ok (c', id, none) ∧ x = ⟨.socket, id⟩ := by
  obtain ⟨⟨c₁, id, e⟩, hmake, h⟩ := Exec.bind_eq_ok.1 h
  cases e with
  | none => cases h; exact ⟨id, hmake, rfl⟩
  | some e => cases h

theorem streamSocket_eq_error {e : Stuck} (h : Object.streamSocket c a = .error e) :
    c.makeSocket a = .error e := by
  rcases Exec.bind_eq_error.1 h with h | ⟨r, -, h⟩
  · exact h
  · cases h

end Object

namespace World

open PollContext

variable {w w' : World} {l : WorldLabel} {x y : ObjectId} {id : SocketId}

/-- The id held by the object at `x`. -/
def holder (w : World) (x : ObjectId) : Option SocketId := (w.objects x).bind Object.held

/-- The descriptor of that. -/
def descriptor (w : World) (x : ObjectId) : Option Fd :=
  (w.holder x).bind fun id => (w.ctx.sockets.get? id).map PollRecord.handle

/-- Nothing was constructed; what is open is the caller's. -/
def initial (os : Os) : World :=
  { machine := { ctx := PollContext.initial os }, own := os.descriptors }

/-- **Sockets are owned**: the live ids are exactly those held, each by one object, and so are the
open descriptors, those apart that the caller owns. -/
structure Owned (w : World) : Prop where
  ids : Exact (fun id => (w.ctx.sockets.get? id).isSome) w.holder
  descriptors : Exact (fun fd => (w.ctx.env.os.denotes fd).isSome ∧ fd ∉ w.own) w.descriptor

/-- An acceptor is opened that is open already. -/
def reopens (w : World) : WorldLabel → Bool
  | .open x _ => (w.objects x).any Object.isOpen
  | _ => false

/-- The steps in which that does not happen. -/
def NotReopened (w : World) (l : WorldLabel) : Prop := w.reopens l = false

/-! ### Steps -/

theorem perform_eq_some {r : Exec (PollContext × (ObjectId → Option Object))}
    (hr : ∀ e, r = .error e → e = .blocked) (h : w.perform r = some w') :
    ∃ c objects, r = .ok (c, objects) ∧ w' = ⟨{ w.machine with ctx := c }, objects, w.own⟩ := by
  unfold perform at h
  split at h
  · cases h; exact ⟨_, _, rfl, rfl⟩
  · cases h
  · next e hne => exact absurd (hr e rfl) (fun he => hne (by rw [he]))

theorem construct_eq_some {r : Exec (PollContext × Option Object)}
    (hr : ∀ e, r = .error e → e = .blocked) (h : w.construct x r = some w') :
    w.objects x = none ∧ ∃ c object, r = .ok (c, some object) ∧
      w' = ⟨{ w.machine with ctx := c }, Function.update w.objects x (some object), w.own⟩ := by
  unfold construct at h
  split_ifs at h with hx
  refine ⟨hx, ?_⟩
  split at h
  · cases h
  · cases h; exact ⟨_, _, rfl, rfl⟩
  · next e =>
    obtain rfl := hr e rfl
    cases h

/-- What is done with the objects. -/
inductive ObjectStep (w : World) :
    WorldLabel → PollContext → (ObjectId → Option Object) → Prop
  /-- a constructor opened a socket -/
  | constructed {l : WorldLabel} {a : SysAnswer} {c : PollContext} {id : SocketId}
      (hl : w.reopens l = false) (x : ObjectId) (kind : ObjectKind) (hx : w.objects x = none)
      (h : w.ctx.makeSocket a = .ok (c, id, none)) :
      ObjectStep w l c (Function.update w.objects x (some ⟨kind, id⟩))
  | empty (x : ObjectId) (hx : w.objects x = none) :
      ObjectStep w (.socket x) w.ctx (Function.update w.objects x (some { kind := .socket }))
  | opened {a : SysAnswer} {c : PollContext} {id : SocketId} {e : Option Errno} {object : Object}
      (x : ObjectId) (hx : w.objects x = some object)
      (h : w.ctx.makeSocket a = .ok (c, id, e)) :
      ObjectStep w (.open x a) c (Function.update w.objects x (some { object with id := id }))
  /-- an object released its socket; it is closed or destroyed -/
  | released {l : WorldLabel} {c : PollContext} {answer : Option Errno} {object : Object}
      {left : Option Object} (hl : w.reopens l = false) (x : ObjectId)
      (hx : w.objects x = some object)
      (hopen : object.isOpen = true) (h : w.ctx.release object.id answer = .ok (c, answer))
      (hleft : left.bind Object.held = none) :
      ObjectStep w l c (Function.update w.objects x left)
  /-- the same with an object that holds none -/
  | unheld {l : WorldLabel} {object : Object} {left : Option Object}
      (hl : w.reopens l = false) (x : ObjectId) (hx : w.objects x = some object)
      (hopen : object.isOpen = false)
      (hleft : left.bind Object.held = none) :
      ObjectStep w l w.ctx (Function.update w.objects x left)
  | moved {object : Object} (x y : ObjectId) (hx : w.objects x = some object)
      (hy : w.objects y = none) :
      ObjectStep w (.move x y) w.ctx
        (Function.update (Function.update w.objects y (some object)) x
          (some { object with id := SocketId.invalid }))

/-- All that a step can do. -/
inductive Stepped (w : World) : WorldLabel → World → Prop
  | object {l : WorldLabel} {c : PollContext} {objects : ObjectId → Option Object}
      (h : ObjectStep w l c objects) :
      Stepped w l ⟨{ w.machine with ctx := c }, objects, w.own⟩
  /-- the caller hands over a descriptor -/
  | native {c : PollContext} {id : SocketId} {fd : Fd} (x : ObjectId) (hx : w.objects x = none)
      (hfd : fd ∈ w.own) (hlt : fd < 2 ^ 31) (h : w.ctx.makeSocketNative fd = .ok (c, id)) :
      Stepped w (.nativeSocket x fd) ⟨{ w.machine with ctx := c },
        Function.update w.objects x (some ⟨.socket, id⟩), w.own.filter (· ≠ fd)⟩
  | context {lc : Label Answers Unit PollCall} {w' : World} (x : ObjectId)
      (h : w.context lc x = some w') : Stepped w (.context lc x) w'

theorem holder_eq {object : Object} (hx : w.objects x = some object) :
    w.holder x = object.held := by
  rw [holder, hx]
  rfl

theorem holder_of_none (hx : w.objects x = none) : w.holder x = none := by
  rw [holder, hx]
  rfl

/-- An object that is open holds a live id, which can be released. -/
theorem release_of_isOpen (hO : Owns w.own w.ctx.sockets w.ctx.env.os w.holder) {object : Object}
    (hx : w.objects x = some object) (hopen : object.isOpen = true) (answer : Option Errno) :
    ∃ c, w.ctx.release object.id answer = .ok (c, answer) := by
  obtain ⟨rec, hrec⟩ := hO.live ((holder_eq hx).trans (Object.held_of_isOpen hopen))
  exact release_of_live hrec answer

theorem makeSocket_blocked (hO : Owns w.own w.ctx.sockets w.ctx.env.os w.holder) {a : SysAnswer}
    {e : Stuck} (h : w.ctx.makeSocket a = .error e) : e = .blocked := by
  obtain ⟨free, hfree⟩ := hO.table.free
  exact makeSocket_eq_error hfree h

theorem stepped_of_open (hO : Owns w.own w.ctx.sockets w.ctx.env.os w.holder) {object : Object}
    {a : SysAnswer} (hx : w.objects x = some object)
    (h : w.perform ((object.open w.ctx a).map fun r =>
      (r.2.1, Function.update w.objects x (some r.1))) = some w') :
    Stepped w (.open x a) w' := by
  have hblocked : ∀ e, (object.open w.ctx a).map (fun r =>
      (r.2.1, Function.update w.objects x (some r.1))) = .error e → e = .blocked := by
    intro e he
    cases hopen : object.open w.ctx a with
    | ok r => rw [hopen] at he; cases he
    | error e' =>
      rw [hopen] at he
      cases he
      exact makeSocket_blocked hO (Object.open_eq_error hopen)
  obtain ⟨c, objects, hr, rfl⟩ := perform_eq_some hblocked h
  obtain ⟨⟨object', c', e⟩, hopen, heq⟩ := Exec.map_eq_ok.1 hr
  cases heq
  obtain ⟨id, e', hmade, rfl, -⟩ := Object.open_eq_ok hopen
  exact .object (.opened x hx hmade)

theorem stepped_of_close (hO : Owns w.own w.ctx.sockets w.ctx.env.os w.holder) {object : Object}
    {answer : Option Errno} (hx : w.objects x = some object)
    (h : w.perform ((object.close w.ctx answer).map fun r =>
      (r.2, Function.update w.objects x (some r.1))) = some w') :
    Stepped w (.close x answer) w' := by
  cases hopen : object.isOpen with
  | true =>
    obtain ⟨c, hc⟩ := release_of_isOpen hO hx hopen answer
    rw [Object.close_of_isOpen hopen hc] at h
    cases h
    exact .object (.released rfl x hx hopen hc (by exact Object.held_invalid _))
  | false =>
    rw [Object.close_of_not_isOpen hopen] at h
    cases h
    exact .object (.unheld rfl x hx hopen (by exact Object.held_of_not_isOpen hopen))

theorem stepped_of_destroy (hO : Owns w.own w.ctx.sockets w.ctx.env.os w.holder) {object : Object}
    {answer : Option Errno} (hx : w.objects x = some object)
    (h : w.perform ((object.destroy w.ctx answer).map fun c =>
      (c, Function.update w.objects x none)) = some w') :
    Stepped w (.destroy x answer) w' := by
  cases hopen : object.isOpen with
  | true =>
    obtain ⟨c, hc⟩ := release_of_isOpen hO hx hopen answer
    rw [Object.destroy_of_isOpen hopen hc] at h
    cases h
    exact .object (.released rfl x hx hopen hc rfl)
  | false =>
    rw [Object.destroy_of_not_isOpen hopen] at h
    cases h
    exact .object (.unheld rfl x hx hopen rfl)

theorem stepped_of_native (hO : Owns w.own w.ctx.sockets w.ctx.env.os w.holder) {fd : Fd}
    (hfd : fd ∈ w.own) (hlt : fd < 2 ^ 31)
    (h : ({ w with own := w.own.filter (· ≠ fd) } : World).construct x
      (Object.nativeSocket w.ctx fd) = some w') :
    Stepped w (.nativeSocket x fd) w' := by
  obtain ⟨free, hfree⟩ := hO.table.free
  obtain ⟨⟨c, id⟩, hmake⟩ := makeSocketNative_returns hfree fd
  have hnative : Object.nativeSocket w.ctx fd = .ok (c, some ⟨.socket, id⟩) := by
    rw [Object.nativeSocket, hmake]
    rfl
  rw [hnative] at h
  obtain ⟨hx, c', object, hr, rfl⟩ := construct_eq_some (fun e he => by cases he) h
  cases hr
  exact .native x hx hfd hlt hmake

/-- **What a step can do** while the sockets are owned. -/
theorem stepped_of_step (hO : Owns w.own w.ctx.sockets w.ctx.env.os w.holder)
    (h : w.step l = some w') : Stepped w l w' := by
  unfold step at h
  split_ifs at h with hstatus
  cases l with
  | acceptor x a =>
    obtain ⟨hx, c, object, hr, rfl⟩ := construct_eq_some
      (fun e he => makeSocket_blocked hO (Object.acceptor_eq_error he)) h
    obtain ⟨id, hmade, rfl⟩ := Object.acceptor_eq_ok hr
    exact .object (.constructed rfl x .acceptor hx hmade)
  | socket x =>
    obtain ⟨hx, c, object, hr, rfl⟩ := construct_eq_some (fun e he => by cases he) h
    cases hr
    exact .object (.empty x hx)
  | streamSocket x a =>
    obtain ⟨hx, c, object, hr, rfl⟩ := construct_eq_some
      (fun e he => makeSocket_blocked hO (Object.streamSocket_eq_error he)) h
    obtain ⟨id, hmade, rfl⟩ := Object.streamSocket_eq_ok hr
    exact .object (.constructed rfl x .socket hx hmade)
  | nativeSocket x fd =>
    dsimp only at h
    split_ifs at h with hfd
    exact stepped_of_native hO hfd.1 hfd.2 h
  | «open» x a =>
    dsimp only at h
    split at h
    · next object hx =>
      split_ifs at h
      exact stepped_of_open hO hx h
    · cases h
  | close x answer =>
    dsimp only at h
    split at h
    · next object hx =>
      split_ifs at h
      exact stepped_of_close hO hx h
    · cases h
  | move x y =>
    dsimp only at h
    split at h
    · next object hx =>
      split_ifs at h with hy
      cases h
      exact .object (.moved x y hx hy)
    · cases h
  | destroy x answer =>
    dsimp only at h
    split at h
    · next object hx => exact stepped_of_destroy hO hx h
    · cases h
  | context lc x => exact .context x h

/-- What the objects hold after one of them was replaced. -/
theorem holder_update {m : Machine PollContext Empty} {own : List Fd}
    (objects : ObjectId → Option Object) (x : ObjectId) (o : Option Object) :
    holder ⟨m, Function.update objects x o, own⟩ =
      Function.update (holder ⟨m, objects, own⟩) x (o.bind Object.held) := by
  funext y
  by_cases hy : y = x
  · subst hy
    simp [holder]
  · simp [holder, hy]

/-- A holder that gets what it has. -/
theorem update_holder {k : Option SocketId} (h : w.holder x = k) :
    Function.update w.holder x k = w.holder := by
  rw [← h, Function.update_eq_self]

/-- A new socket is held by an object that held nothing. -/
theorem passes_of_made (hO : Owns w.own w.ctx.sockets w.ctx.env.os w.holder) {c : PollContext}
    (hx : w.holder x = none) (h : Made w.ctx c id) (kind : ObjectKind) :
    Passes w.ctx w.holder c (Function.update w.holder x (Object.held ⟨kind, id⟩)) := by
  have hO' := hO.passes (.made x hx h)
  obtain ⟨rec, hget⟩ := hO'.live (Function.update_self x (some id) w.holder)
  rw [Object.held_of_ne (hO'.ne_invalid hget)]
  exact .made x hx h

theorem passes_of_makeSocket (hO : Owns w.own w.ctx.sockets w.ctx.env.os w.holder) {a : SysAnswer}
    {c : PollContext} {e : Option Errno} (hx : w.holder x = none)
    (h : w.ctx.makeSocket a = .ok (c, id, e)) (kind : ObjectKind) :
    Passes w.ctx w.holder c (Function.update w.holder x (Object.held ⟨kind, id⟩)) := by
  rcases makeSocket_eq_ok h with ⟨rfl, rfl, -⟩ | ⟨hmade, -⟩
  · rw [Object.held_invalid, update_holder hx]
    exact .same (.refl _)
  · exact passes_of_made hO hx hmade kind

theorem ObjectStep.passes (hO : Owns w.own w.ctx.sockets w.ctx.env.os w.holder)
    (hok : w.NotReopened l) {c : PollContext} {objects : ObjectId → Option Object}
    (h : ObjectStep w l c objects) {m : Machine PollContext Empty} {own : List Fd} :
    Passes w.ctx w.holder c (holder ⟨m, objects, own⟩) := by
  cases h with
  | constructed l x kind hx h =>
    rw [holder_update]
    exact passes_of_makeSocket hO (holder_of_none hx) h kind
  | empty x hx =>
    rw [holder_update]
    show Passes _ _ _ (Function.update w.holder x (Object.held ⟨.socket, SocketId.invalid⟩))
    rw [Object.held_invalid, update_holder (holder_of_none hx)]
    exact .same (.refl _)
  | @opened _ _ _ _ object x hx h =>
    have hclosed : object.isOpen = false := by simpa [NotReopened, reopens, hx] using hok
    rw [holder_update]
    refine passes_of_makeSocket hO ?_ h object.kind
    rw [holder_eq hx, Object.held_of_not_isOpen hclosed]
  | released l x hx hopen h hleft =>
    rw [holder_update, hleft]
    exact .released x ((holder_eq hx).trans (Object.held_of_isOpen hopen)) (release_eq_ok h)
  | unheld l x hx hopen hleft =>
    rw [holder_update, hleft]
    show Passes _ _ _ (Function.update w.holder x none)
    rw [update_holder ((holder_eq hx).trans (Object.held_of_not_isOpen hopen))]
    exact .same (.refl _)
  | @moved object x y hx hy =>
    have hne : x ≠ y := by
      rintro rfl
      rw [hx] at hy
      cases hy
    rw [holder_update, holder_update]
    show Passes _ _ _ (Function.update (Function.update w.holder y object.held) x
      (Object.held ⟨object.kind, SocketId.invalid⟩))
    rw [Object.held_invalid, ← holder_eq hx]
    exact .moved x y (holder_of_none hy) hne (.refl _)

theorem passes_of_context (hO : Owns w.own w.ctx.sockets w.ctx.env.os w.holder)
    {lc : Label Answers Unit PollCall}
    {os : Os} (hrun : Runs pollBase free (PollContext.initial os) w.machine)
    (h : w.context lc x = some w') :
    w.machine.step pollBase lc = some w'.machine ∧ w'.own = w.own ∧
      Passes w.ctx w.holder w'.ctx w'.holder := by
  unfold context at h
  by_cases hl : ofObjects lc = true
  · rw [if_pos hl] at h
    cases h
  rw [if_neg hl] at h
  obtain ⟨m, hstep, h⟩ := Option.bind_eq_some_iff.1 h
  rcases delivers_of_step hrun (by simpa using hl) hstep with ⟨hsame, hnone⟩ | ⟨id, hmade, hsome⟩
  · rw [hnone] at h
    cases h
    exact ⟨hstep, rfl, .same hsame⟩
  · rw [hsome] at h
    dsimp only at h
    split_ifs at h with hx
    cases h
    rw [holder_update]
    exact ⟨hstep, rfl, passes_of_made hO (holder_of_none hx) hmade .socket⟩

theorem ObjectStep.called {c : PollContext} {objects : ObjectId → Option Object}
    (h : ObjectStep w l c objects) : c = w.ctx ∨ ∃ k, pollBase.call w.ctx k = .ok (c, []) := by
  cases h with
  | constructed _ _ _ _ h => exact .inr ⟨_, call_makeSocket h⟩
  | empty => exact .inl rfl
  | opened _ _ h => exact .inr ⟨_, call_makeSocket h⟩
  | released _ _ _ _ h => exact .inr ⟨_, call_release h⟩
  | unheld => exact .inl rfl
  | moved => exact .inl rfl

/-! ### Runs -/

/-- What holds in every state reached: the context is one that a run of it reaches. -/
structure Inv (w : World) : Prop where
  runs : ∃ os, Runs pollBase free (PollContext.initial os) w.machine
  owns : Owns w.own w.ctx.sockets w.ctx.env.os w.holder

theorem inv_initial (os : Os) : (initial os).Inv := ⟨⟨os, .refl _⟩, .empty os⟩

/-- A call that runs no user code. -/
theorem Inv.called (hI : w.Inv) (hstatus : w.machine.status = none) {k : PollCall}
    {c : PollContext} (h : pollBase.call w.ctx k = .ok (c, [])) :
    ∃ os, Runs pollBase free (PollContext.initial os) { w.machine with ctx := c } := by
  obtain ⟨os, hrun⟩ := hI.runs
  refine ⟨os, hrun.tail (l := .call k) trivial ?_⟩
  unfold Machine.step
  rw [hstatus, if_neg (by simp)]
  show w.machine.perform pollBase (pollBase.call w.ctx k) = _
  rw [h]
  rfl

theorem Inv.step (hI : w.Inv) (hok : w.NotReopened l) (h : w.step l = some w') : w'.Inv := by
  have hstatus : w.machine.status = none := by
    unfold World.step at h
    split_ifs at h with hs
    simpa using hs
  cases stepped_of_step hI.owns h with
  | object hstep =>
    refine ⟨?_, hI.owns.passes (hstep.passes hI.owns hok)⟩
    rcases hstep.called with rfl | ⟨k, hk⟩
    · exact hI.runs
    · exact hI.called hstatus hk
  | @native c id fd x hx hfd hlt hmake =>
    refine ⟨hI.called hstatus (call_makeSocketNative hmake), ?_⟩
    obtain ⟨sockets, hins, rfl⟩ := makeSocketNative_eq_ok hmake
    have hgive := hI.owns.give (holder_of_none hx) hfd hlt hins
    obtain ⟨rec, hget⟩ := hgive.live (Function.update_self x (some id) w.holder)
    rw [holder_update]
    show Owns _ _ _ (Function.update w.holder x (Object.held ⟨.socket, id⟩))
    rw [Object.held_of_ne (hgive.ne_invalid hget)]
    exact hgive
  | context x hstep =>
    obtain ⟨os, hrun⟩ := hI.runs
    obtain ⟨hmachine, hown, hpasses⟩ := passes_of_context hI.owns hrun hstep
    exact ⟨⟨os, hrun.tail trivial hmachine⟩, hown ▸ hI.owns.passes hpasses⟩

theorem inv_of_reaches {os : Os} (h : Reaches World.step NotReopened (initial os) w) : w.Inv :=
  Reaches.invariant h (inv_initial os) fun _ _ _ hI hok hstep => hI.step hok hstep

/-- Each holder has the descriptor of its id. -/
theorem Inv.owned (hI : w.Inv) : w.Owned := by
  refine ⟨hI.owns.exact, hI.owns.exact.bind (fun fd => ?_) fun {i j fd} hi hj hfd hfd' => ?_⟩
  · constructor
    · rintro ⟨hsome, hnot⟩
      obtain ⟨id, rec, hget, rfl⟩ := hI.owns.opened hsome hnot
      exact ⟨id, by rw [hget]; rfl, by rw [hget]; rfl⟩
    · rintro ⟨id, -, hfd⟩
      obtain ⟨rec, hget, rfl⟩ := Option.map_eq_some_iff.1 hfd
      exact ⟨(hI.owns.table.live hget).1.1, hI.owns.apart hget⟩
  · obtain ⟨rec, hget, rfl⟩ := Option.map_eq_some_iff.1 hfd
    obtain ⟨rec', hget', heq⟩ := Option.map_eq_some_iff.1 hfd'
    exact hI.owns.table.distinct hget hget' heq.symm

/-- An acceptor that is opened again drops its socket, which stays in the table. -/
theorem Inv.not_owned (hI : w.Inv) (hre : w.reopens l = true) (h : w.step l = some w') :
    ¬ w'.Owned := by
  cases stepped_of_step hI.owns h with
  | context => cases hre
  | native => cases hre
  | @object _ c _ hstep =>
    cases hstep with
    | constructed hl => rw [hre] at hl; cases hl
    | released hl => rw [hre] at hl; cases hl
    | unheld hl => rw [hre] at hl; cases hl
    | empty => cases hre
    | moved => cases hre
    | @opened _ _ id _ object x hx hmake =>
      intro howned
      have hopen : object.isOpen = true := by simpa [reopens, hx] using hre
      have hheld := (holder_eq hx).trans (Object.held_of_isOpen hopen)
      obtain ⟨rec, hrec⟩ := hI.owns.live hheld
      have hids := howned.ids
      rw [holder_update] at hids
      -- what `make_socket` returns is not the id that was held, which stays live
      suffices hnew : (c.sockets.get? object.id).isSome ∧
          Object.held ⟨object.kind, id⟩ ≠ some object.id from
        hI.owns.exact.dropped hheld hnew.1 hnew.2 hids
      rcases makeSocket_eq_ok hmake with ⟨rfl, rfl, -⟩ | ⟨⟨fd, os', -, hins, -⟩, -⟩
      · exact ⟨by rw [hrec]; rfl, by simp⟩
      · obtain ⟨hfree, -, hother⟩ := Container.insert_spec hins hI.owns.table.size_lt
        have hne : object.id ≠ id := by
          intro he
          rw [← he, hrec] at hfree
          cases hfree
        refine ⟨by rw [hother _ hne, hrec]; rfl, fun hsame => ?_⟩
        unfold Object.held at hsame
        split_ifs at hsame
        exact hne (Option.some.inj hsame).symm

/-- **Sockets are owned** in every state that is reached without opening an open acceptor again.
From there every step keeps them so but that one. -/
theorem owned_iff_not_reopened (os : Os) (w : World)
    (h : Reaches World.step NotReopened (initial os) w) :
    w.Owned ∧ ∀ l w', w.step l = some w' → (w'.Owned ↔ w.NotReopened l) := by
  have hI := inv_of_reaches h
  refine ⟨hI.owned, fun l w' hstep => ⟨fun howned => ?_, fun hok => (hI.step hok hstep).owned⟩⟩
  cases hre : w.reopens l with
  | true => exact absurd howned (hI.not_owned hre hstep)
  | false => exact hre

/-- A guard that can be computed. -/
theorem reaches_of_notReopened {os : Os} {ls : List WorldLabel}
    (h : run (checked step fun w l => !w.reopens l) (initial os) ls = some w) :
    Reaches step NotReopened (initial os) w :=
  reaches_of_run (fun w l hl => by simpa [NotReopened] using hl) h

/-- An acceptor is moved and accepts a connection. -/
def acceptedSocket : List WorldLabel :=
  [.acceptor 0 (.ok 3 []), .move 0 1, .context (.start ⟨1, .accept 0 128⟩ {} false ()) 2,
    .context (.call (.runOne 0 [.ok [POLLIN] 0 [.ok 4 []]])) 2]

theorem owned_iff_not_reopened_accepted :
    ∃ w w', run step (initial {}) acceptedSocket = some w ∧ w.step (.close 1 none) = some w' ∧
      (w.holder 0, w.holder 1, w.holder 2) = (none, some 0, some 1) ∧ w.Owned ∧ w'.Owned := by
  obtain ⟨w, w', hpass, hrun, hstep, hheld⟩ : ∃ w w',
      run (checked step fun w l => !w.reopens l) (initial {}) acceptedSocket = some w ∧
      run step (initial {}) acceptedSocket = some w ∧ w.step (.close 1 none) = some w' ∧
        (w.holder 0, w.holder 1, w.holder 2) = (none, some 0, some 1) :=
    ⟨_, _, rfl, rfl, rfl, rfl⟩
  have howned := owned_iff_not_reopened {} w (reaches_of_notReopened hpass)
  exact ⟨w, w', hrun, hstep, hheld, howned.1, (howned.2 _ _ hstep).2 rfl⟩

/-- An acceptor is opened again: that is reported, and done. -/
theorem opened_twice_is_not_owned :
    ∃ w w', run step (initial {}) [.acceptor 0 (.ok 3 [])] = some w ∧
      w.step (.open 0 (.ok 4 [])) = some w' ∧ ¬ w'.Owned ∧
      (Object.open ⟨.acceptor, 0⟩ w.ctx (.ok 4 [])).map (fun r => r.2.2) =
        .ok (some .alreadyOpen) ∧
      w.objects 0 = some ⟨.acceptor, 0⟩ ∧ w'.objects 0 = some ⟨.acceptor, 1⟩ ∧
      w.ctx.sockets.records = [.used ⟨3, true⟩] ∧
      w'.ctx.sockets.records = [.used ⟨3, true⟩, .used ⟨4, true⟩] := by
  obtain ⟨w, w', hpass, hrun, hstep, hre, hdone⟩ : ∃ w w',
      run (checked step fun w l => !w.reopens l) (initial {}) [.acceptor 0 (.ok 3 [])] = some w ∧
      run step (initial {}) [.acceptor 0 (.ok 3 [])] = some w ∧
      w.step (.open 0 (.ok 4 [])) = some w' ∧ w.reopens (.open 0 (.ok 4 [])) = true ∧
      (Object.open ⟨.acceptor, 0⟩ w.ctx (.ok 4 [])).map (fun r => r.2.2) =
        .ok (some .alreadyOpen) ∧
      w.objects 0 = some ⟨.acceptor, 0⟩ ∧ w'.objects 0 = some ⟨.acceptor, 1⟩ ∧
      w.ctx.sockets.records = [.used ⟨3, true⟩] ∧
      w'.ctx.sockets.records = [.used ⟨3, true⟩, .used ⟨4, true⟩] :=
    ⟨_, _, rfl, rfl, rfl, rfl, rfl, rfl, rfl, rfl, rfl⟩
  have hI := inv_of_reaches (reaches_of_notReopened hpass)
  exact ⟨w, w', hrun, hstep, hI.not_owned hre hstep, hdone⟩

end World

end Net29
