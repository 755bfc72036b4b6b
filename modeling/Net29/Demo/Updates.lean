import Net29.Demo.Buffered
import Net29.Lib.Transition
import Mathlib.Algebra.BigOperators.Group.Finset.Basic
import Mathlib.Algebra.Order.BigOperators.Group.Finset

/-!
# `context` of the streams in memory

A `memory` object registers its `receive` with the context under its name, and functions that were
added to the context under that name deliver the data. `async_run` calls one of them after the
other, until each has finished or has found no `receive` to deliver to.

* `Context`: `add`, `start` of a `receive`, `add_receive_data`, and `next`;
* `AsyncUpdates.step`: the steps of `async_run`, of the functions and of the receivers;
* `turns_fair`: the functions take turns;
* `async_run_ends_iff`: when the loop ends, and when it reads `updates` out of range.
-/

namespace Net29

open Transition

namespace DemoStream

/-- `memory::state`: a receive that waits, told from others by `op`, with the size of its buffer. -/
structure MemoryState where
  op : ℕ
  room : ℕ
  deriving DecidableEq, Repr

/-- An element of `updates`; the functions are told apart by a number. -/
structure Update (N : Type) where
  name : N
  id : ℕ
  deriving DecidableEq, Repr

/-- `context`. A name that is not in `streams` is added with a null pointer when it is looked up. -/
structure Context (N : Type) where
  streams : N → Option MemoryState := fun _ => none
  updates : List (Update N) := []
  nextIndex : ℕ := 0

namespace Context

variable {N : Type}

/-- `add`. -/
def add (c : Context N) (name : N) (id : ℕ) : Context N :=
  { c with updates := c.updates ++ [⟨name, id⟩] }

/-- `memory::state::start`. -/
def start [DecidableEq N] (c : Context N) (name : N) (s : MemoryState) : Context N :=
  { c with streams := Function.update c.streams name (some s) }

/-- `memory::state::add_receive_data`: what is copied into the buffer of the receive, which is not
registered then. -/
def addReceiveData [DecidableEq N] (c : Context N) (name : N) (s : MemoryState)
    (data : List UInt8) : List UInt8 × Context N :=
  (data.take (min data.length s.room), { c with streams := Function.update c.streams name none })

/-- What `next` does after the function has returned, or if there is no stream to call it with. -/
def turn (c : Context N) (finished : Bool) : Context N :=
  if finished then { c with updates := c.updates.eraseIdx c.nextIndex }
  else if c.updates.length = c.nextIndex + 1 then { c with nextIndex := 0 }
  else { c with nextIndex := c.nextIndex + 1 }

/-- The functions in `updates`. -/
def ids (c : Context N) : List ℕ := c.updates.map Update.id

/-- Those before `next_index`, which had their turn in this round. -/
def served (c : Context N) : List ℕ := (c.updates.take c.nextIndex).map Update.id

/-- The number of turns a function had in this round. -/
def ahead (c : Context N) (id : ℕ) : ℕ := if id ∈ c.served then 1 else 0

/-! ### One turn -/

variable {c : Context N} {u : Update N} {id : ℕ}

theorem ahead_le_one : c.ahead id ≤ 1 := by
  unfold ahead
  split_ifs <;> omega

/-- The functions before and behind the one at `next_index`. -/
theorem split_at_index (hu : c.updates[c.nextIndex]? = some u) :
    ∃ before after, c.updates = before ++ u :: after ∧ before.length = c.nextIndex := by
  obtain ⟨hlt, hget⟩ := List.getElem?_eq_some_iff.1 hu
  refine ⟨c.updates.take c.nextIndex, c.updates.drop (c.nextIndex + 1), ?_, ?_⟩
  · rw [← hget, List.getElem_cons_drop, List.take_append_drop]
  · exact List.length_take_of_le (Nat.le_of_lt hlt)

theorem turn_of_last (h : c.updates.length = c.nextIndex + 1) :
    c.turn false = { c with nextIndex := 0 } := by
  rw [turn, if_neg Bool.false_ne_true, if_pos h]

theorem turn_of_not_last (h : c.updates.length ≠ c.nextIndex + 1) :
    c.turn false = { c with nextIndex := c.nextIndex + 1 } := by
  rw [turn, if_neg Bool.false_ne_true, if_neg h]

theorem updates_turn_false (c : Context N) : (c.turn false).updates = c.updates := by
  by_cases h : c.updates.length = c.nextIndex + 1
  · rw [turn_of_last h]
  · rw [turn_of_not_last h]

theorem turn_true_updates (before after : List (Update N)) (h : c.updates = before ++ u :: after)
    (hlen : before.length = c.nextIndex) : (c.turn true).updates = before ++ after := by
  show c.updates.eraseIdx c.nextIndex = _
  rw [h, ← hlen, List.eraseIdx_append_of_length_le (Nat.le_refl _), Nat.sub_self]
  rfl

theorem mem_turn_true {v : Update N} (hu : c.updates[c.nextIndex]? = some u) (hv : v ∈ c.updates)
    (hne : v ≠ u) : v ∈ (c.turn true).updates := by
  obtain ⟨before, after, h, hlen⟩ := split_at_index hu
  rw [turn_true_updates before after h hlen]
  rw [h, List.mem_append, List.mem_cons] at hv
  rw [List.mem_append]
  exact hv.imp_right fun hv => hv.resolve_left hne

/-- The functions that stay: all others, and `u` if it has not finished. -/
theorem mem_ids_turn (hu : c.updates[c.nextIndex]? = some u) (hs : c.ids.Pairwise (· < ·))
    (finished : Bool) :
    id ∈ (c.turn finished).ids ↔ id ∈ c.ids ∧ (finished = true → id ≠ u.id) := by
  obtain ⟨before, after, h, hlen⟩ := split_at_index hu
  cases finished with
  | false => simp [ids, updates_turn_false]
  | true =>
    have hnodup : c.ids.Nodup := hs.imp Nat.ne_of_lt
    unfold ids at hnodup ⊢
    rw [turn_true_updates before after h hlen, h]
    rw [h, List.map_append, List.map_cons, List.nodup_middle, List.nodup_cons] at hnodup
    simp only [List.map_append, List.map_cons, List.mem_append, List.mem_cons] at hnodup ⊢
    constructor
    · intro hid
      refine ⟨by tauto, fun _ heq => hnodup.1 (heq ▸ hid)⟩
    · rintro ⟨hid, hne⟩
      have hother := hne trivial
      tauto

theorem served_of_split {before after : List (Update N)} (h : c.updates = before ++ u :: after)
    (hlen : before.length = c.nextIndex) : c.served = before.map Update.id := by
  rw [served, h, ← hlen, List.take_left]

theorem not_served (hu : c.updates[c.nextIndex]? = some u) (hs : c.ids.Pairwise (· < ·)) :
    u.id ∉ c.served := by
  obtain ⟨before, after, h, hlen⟩ := split_at_index hu
  have hnodup : c.ids.Nodup := hs.imp Nat.ne_of_lt
  rw [ids, h, List.map_append, List.map_cons, List.nodup_middle, List.nodup_cons,
    List.mem_append, not_or] at hnodup
  rw [served_of_split h hlen]
  exact hnodup.1.1

theorem served_turn_true (hu : c.updates[c.nextIndex]? = some u) :
    (c.turn true).served = c.served := by
  obtain ⟨before, after, h, hlen⟩ := split_at_index hu
  rw [served, turn_true_updates before after h hlen, served_of_split h hlen]
  show ((before ++ after).take c.nextIndex).map Update.id = _
  rw [← hlen, List.take_left]

theorem served_of_last (h : c.updates.length = c.nextIndex + 1) : (c.turn false).served = [] := by
  rw [turn_of_last h]
  rfl

theorem served_of_not_last (hu : c.updates[c.nextIndex]? = some u)
    (h : c.updates.length ≠ c.nextIndex + 1) : (c.turn false).served = c.served ++ [u.id] := by
  rw [turn_of_not_last h]
  show (c.updates.take (c.nextIndex + 1)).map Update.id = _
  rw [List.take_add_one, hu, List.map_append]
  rfl

/-- In the last turn of a round all others had theirs. -/
theorem mem_served_of_last (hu : c.updates[c.nextIndex]? = some u)
    (h : c.updates.length = c.nextIndex + 1) (hid : id ∈ c.ids) (hne : id ≠ u.id) :
    id ∈ c.served := by
  obtain ⟨before, after, hsplit, hlen⟩ := split_at_index hu
  have hnil : after = [] := by
    rw [hsplit, List.length_append, List.length_cons, hlen] at h
    exact List.eq_nil_of_length_eq_zero (by omega)
  rw [ids, hsplit, hnil, List.map_append, List.mem_append, List.map_cons, List.map_nil,
    List.mem_singleton] at hid
  rw [served_of_split hsplit hlen]
  exact hid.resolve_right hne

/-- A turn counts for the function it was: with it, each one that stays has had as many turns as
before, in a new round if this was the last turn of one. -/
theorem ahead_turn (hu : c.updates[c.nextIndex]? = some u) (hs : c.ids.Pairwise (· < ·))
    (finished : Bool) : ∃ w, (finished = true → w = 0) ∧ ∀ id ∈ (c.turn finished).ids,
      (if id = u.id then 1 else 0) + c.ahead id = w + (c.turn finished).ahead id := by
  have hnot := not_served hu hs
  cases finished with
  | true =>
    refine ⟨0, fun _ => rfl, fun id hid => ?_⟩
    have hne := ((mem_ids_turn hu hs true).1 hid).2 rfl
    rw [ahead, ahead, served_turn_true hu, if_neg hne]
  | false =>
    by_cases hlast : c.updates.length = c.nextIndex + 1
    · refine ⟨1, nofun, fun id hid => ?_⟩
      rw [ahead, ahead, served_of_last hlast, if_neg List.not_mem_nil]
      by_cases heq : id = u.id
      · rw [heq, if_pos rfl, if_neg hnot]
      · have hid' := ((mem_ids_turn hu hs false).1 hid).1
        rw [if_neg heq, if_pos (mem_served_of_last hu hlast hid' heq)]
    · refine ⟨0, nofun, fun id hid => ?_⟩
      rw [ahead, ahead, served_of_not_last hu hlast]
      by_cases heq : id = u.id
      · simp [heq, hnot]
      · simp [heq]

theorem sorted_turn (hs : c.ids.Pairwise (· < ·)) (finished : Bool) :
    (c.turn finished).ids.Pairwise (· < ·) := by
  cases finished with
  | true => exact hs.sublist ((List.eraseIdx_sublist _ _).map Update.id)
  | false => rwa [ids, updates_turn_false]

theorem index_turn (hu : c.updates[c.nextIndex]? = some u) (finished : Bool) :
    (c.turn finished).nextIndex ≤ (c.turn finished).updates.length := by
  have hlt := (List.getElem?_eq_some_iff.1 hu).1
  cases finished with
  | true =>
    show c.nextIndex ≤ (c.updates.eraseIdx c.nextIndex).length
    rw [List.length_eraseIdx_of_lt hlt]
    omega
  | false =>
    rw [updates_turn_false]
    by_cases hlast : c.updates.length = c.nextIndex + 1
    · rw [turn_of_last hlast]
      exact Nat.zero_le _
    · rw [turn_of_not_last hlast]
      exact hlt

/-- The functions are in the order in which they were added. -/
theorem lt_of_served (hu : c.updates[c.nextIndex]? = some u) (hs : c.ids.Pairwise (· < ·))
    (hid : id ∈ c.served) : id < u.id := by
  obtain ⟨before, after, h, hlen⟩ := split_at_index hu
  rw [ids, h, List.map_append, List.pairwise_append] at hs
  rw [served_of_split h hlen] at hid
  exact hs.2.2 id hid u.id List.mem_cons_self

theorem lt_of_not_last (hu : c.updates[c.nextIndex]? = some u) (hs : c.ids.Pairwise (· < ·))
    (h : c.updates.length ≠ c.nextIndex + 1) : ∃ id ∈ c.ids, u.id < id := by
  obtain ⟨before, after, hsplit, hlen⟩ := split_at_index hu
  rw [ids, hsplit, List.map_append, List.map_cons, List.pairwise_append, List.pairwise_cons] at hs
  cases after with
  | nil =>
    rw [hsplit, List.length_append, List.length_singleton, hlen] at h
    exact absurd rfl h
  | cons v after => exact ⟨v.id, by simp [ids, hsplit], hs.2.1.1 v.id (by simp)⟩

/-- After a turn the index is in range, if the function added last is still there. -/
theorem index_turn_of_mem {k : ℕ} {finished : Bool} (hu : c.updates[c.nextIndex]? = some u)
    (hs : c.ids.Pairwise (· < ·)) (hle : ∀ id ∈ c.ids, id ≤ k) (hk : k ∈ (c.turn finished).ids) :
    (c.turn finished).nextIndex < (c.turn finished).updates.length := by
  have hlt := (List.getElem?_eq_some_iff.1 hu).1
  cases finished with
  | true =>
    obtain ⟨hid, hne⟩ := (mem_ids_turn hu hs true).1 hk
    have hnot : c.updates.length ≠ c.nextIndex + 1 := by
      intro hlast
      have hbefore := lt_of_served hu hs (mem_served_of_last hu hlast hid (hne rfl))
      have hmax := hle u.id (List.mem_map_of_mem (List.mem_of_getElem? hu))
      omega
    show c.nextIndex < (c.updates.eraseIdx c.nextIndex).length
    rw [List.length_eraseIdx_of_lt hlt]
    omega
  | false =>
    rw [updates_turn_false]
    by_cases hlast : c.updates.length = c.nextIndex + 1
    · rw [turn_of_last hlast]
      exact Nat.zero_lt_of_lt hlt
    · rw [turn_of_not_last hlast]
      show c.nextIndex + 1 < _
      omega

/-- So one that comes first has had its turn if a later one has. -/
theorem ahead_anti {id' : ℕ} (hs : c.ids.Pairwise (· < ·)) (hid : id ∈ c.ids) (hlt : id < id') :
    c.ahead id' ≤ c.ahead id := by
  unfold ahead
  split_ifs with hserved' hserved
  · exact Nat.le_refl 1
  · rw [ids, ← List.take_append_drop c.nextIndex c.updates, List.map_append] at hs hid
    have hrest := (List.mem_append.1 hid).resolve_left hserved
    have hgt := (List.pairwise_append.1 hs).2.2 id' hserved' id hrest
    omega
  all_goals omega

end Context

/-- `async_run`, with the functions and the receivers. -/
structure AsyncUpdates (N : Type) where
  ctx : Context N := {}
  /-- the function `next` has called, with its argument as long as that was not used -/
  calling : Option (Update N × Option MemoryState) := none
  /-- `next` has read `updates` out of range -/
  undefined : Bool := false
  added : ℕ := 0
  turns : ℕ → ℕ := fun _ => 0
  started : List (N × MemoryState) := []
  received : List (N × MemoryState × List UInt8) := []

/-- The steps. -/
inductive UpdatesLabel (N : Type)
  | add (name : N)
  /-- the program, or a receiver that was called, starts a receive -/
  | start (name : N) (s : MemoryState)
  /-- the loop finds `updates` not empty and calls `next` -/
  | next
  /-- the function calls `add_receive_data` -/
  | deliver (data : List UInt8)
  /-- the function returns -/
  | ret (finished : Bool)

namespace AsyncUpdates

variable {N : Type}

/-- `next` returns, after the turn of `u`. -/
def taken (s : AsyncUpdates N) (u : Update N) (finished : Bool) : AsyncUpdates N :=
  { s with
    ctx := s.ctx.turn finished
    calling := none
    turns := Function.update s.turns u.id (s.turns u.id + 1) }

/-- Up to the call of the function. -/
def next (s : AsyncUpdates N) : AsyncUpdates N :=
  match s.ctx.updates[s.ctx.nextIndex]? with
  | none => { s with undefined := true }
  | some u =>
      match s.ctx.streams u.name with
      | none => s.taken u true
      | some stream => { s with calling := some (u, some stream) }

/-- One step. (A function that adds another one while it runs is left out: the vector it is stored
in may be reallocated.) -/
def step [DecidableEq N] (s : AsyncUpdates N) (l : UpdatesLabel N) : Option (AsyncUpdates N) :=
  if s.undefined then none
  else match l, s.calling with
  | .add name, none => some { s with ctx := s.ctx.add name s.added, added := s.added + 1 }
  | .start name stream, _ =>
      some { s with ctx := s.ctx.start name stream, started := (name, stream) :: s.started }
  | .next, none => if s.ctx.updates = [] then none else some s.next
  | .deliver data, some (u, some stream) =>
      let (got, c) := s.ctx.addReceiveData u.name stream data
      some { s with
        ctx := c
        calling := some (u, none)
        received := (u.name, stream, got) :: s.received }
  | .ret finished, some (u, _) => some (s.taken u finished)
  | _, _ => none

variable {s s' : AsyncUpdates N} {l : UpdatesLabel N} {u : Update N}

/-- All that a step can do. -/
inductive Stepped [DecidableEq N] (s : AsyncUpdates N) : UpdatesLabel N → AsyncUpdates N → Prop
  | add {name : N} (hcalling : s.calling = none) :
      Stepped s (.add name) { s with ctx := s.ctx.add name s.added, added := s.added + 1 }
  | start {name : N} {stream : MemoryState} :
      Stepped s (.start name stream)
        { s with ctx := s.ctx.start name stream, started := (name, stream) :: s.started }
  | next (hcalling : s.calling = none) (hne : s.ctx.updates ≠ []) : Stepped s .next s.next
  | deliver {data : List UInt8} {u : Update N} {stream : MemoryState}
      (hcalling : s.calling = some (u, some stream)) :
      Stepped s (.deliver data)
        { s with
          ctx := (s.ctx.addReceiveData u.name stream data).2
          calling := some (u, none)
          received := (u.name, stream, (s.ctx.addReceiveData u.name stream data).1) :: s.received }
  | ret {finished : Bool} {u : Update N} {a : Option MemoryState}
      (hcalling : s.calling = some (u, a)) : Stepped s (.ret finished) (s.taken u finished)

theorem stepped_of_step [DecidableEq N] (h : s.step l = some s') :
    s.undefined = false ∧ Stepped s l s' := by
  unfold step at h
  by_cases hundefined : s.undefined = true
  · rw [if_pos hundefined] at h
    cases h
  · refine ⟨by simpa using hundefined, ?_⟩
    rw [if_neg hundefined] at h
    split at h
    · next hcalling =>
      obtain rfl := Option.some.inj h
      exact .add hcalling
    · obtain rfl := Option.some.inj h
      exact .start
    · next hcalling =>
      split_ifs at h with hne
      obtain rfl := Option.some.inj h
      exact .next hcalling hne
    · next hcalling =>
      obtain rfl := Option.some.inj h
      exact .deliver hcalling
    · next hcalling =>
      obtain rfl := Option.some.inj h
      exact .ret hcalling
    · cases h

/-! ### Turns -/

/-- The turn that ends in a step: whose it is, and whether it is the last one. -/
def turnOf (s : AsyncUpdates N) : UpdatesLabel N → Option (Update N × Bool)
  | .next =>
      match s.ctx.updates[s.ctx.nextIndex]? with
      | none => none
      | some u => if s.ctx.streams u.name = none then some (u, true) else none
  | .ret finished => s.calling.map fun x => (x.1, finished)
  | _ => none

/-- What a step does to `updates` and `next_index`. -/
inductive Moved (s : AsyncUpdates N) (l : UpdatesLabel N) (s' : AsyncUpdates N) : Prop
  | same (hturn : s.turnOf l = none) (hupdates : s'.ctx.updates = s.ctx.updates)
      (hindex : s'.ctx.nextIndex = s.ctx.nextIndex) (hturns : s'.turns = s.turns)
      (hadded : s'.added = s.added)
      (hcalling : ∀ u a, s'.calling = some (u, a) →
        s.ctx.updates[s.ctx.nextIndex]? = some u)
      (hundefined : s'.undefined = true →
        s.ctx.updates ≠ [] ∧ s.ctx.updates[s.ctx.nextIndex]? = none)
  | added {name : N} (hl : l = .add name) (hturn : s.turnOf l = none)
      (hctx : s'.ctx = s.ctx.add name s.added)
      (hturns : s'.turns = s.turns) (hadded : s'.added = s.added + 1) (hcalling : s'.calling = none)
      (hundefined : s'.undefined = false)
  | taken {u : Update N} {finished : Bool} (hturn : s.turnOf l = some (u, finished))
      (hu : s.ctx.updates[s.ctx.nextIndex]? = some u) (hs' : s' = s.taken u finished)
      (hundefined : s.undefined = false)

/-- The function that is being called is the one at `next_index`. -/
def Calls (s : AsyncUpdates N) : Prop :=
  ∀ u a, s.calling = some (u, a) → s.ctx.updates[s.ctx.nextIndex]? = some u

theorem moved_of_next (hundefined : s.undefined = false) (hcalling : s.calling = none)
    (hne : s.ctx.updates ≠ []) : Moved s .next s.next := by
  unfold next
  cases hu : s.ctx.updates[s.ctx.nextIndex]? with
  | none =>
    exact .same (by simp [turnOf, hu]) rfl rfl rfl rfl
      (fun u a h => by simp [hcalling] at h) fun _ => ⟨hne, hu⟩
  | some u =>
    dsimp only
    cases hstream : s.ctx.streams u.name with
    | none => exact .taken (by simp [turnOf, hu, hstream]) hu rfl hundefined
    | some stream =>
      refine .same (by simp [turnOf, hu, hstream]) rfl rfl rfl rfl ?_ fun h => ?_
      · rintro _ _ ⟨⟩
        exact hu
      · simp [hundefined] at h

theorem moved_of_step [DecidableEq N] (hcalls : s.Calls) (h : s.step l = some s') :
    Moved s l s' := by
  obtain ⟨hdefined, hstep⟩ := stepped_of_step h
  have hsame : ∀ {P : Prop}, s.undefined = true → P := fun h => by simp [hdefined] at h
  cases hstep with
  | add hcalling => exact .added rfl rfl rfl rfl rfl hcalling hdefined
  | start => exact .same rfl rfl rfl rfl rfl hcalls hsame
  | next hcalling hne => exact moved_of_next hdefined hcalling hne
  | deliver hcalling =>
    refine .same rfl rfl rfl rfl rfl ?_ hsame
    rintro _ _ ⟨⟩
    exact hcalls _ _ hcalling
  | ret hcalling =>
    exact .taken (by simp [turnOf, hcalling]) (hcalls _ _ hcalling) rfl hdefined

/-! ### Order -/

/-- What always holds of `updates`. -/
structure Ordered (s : AsyncUpdates N) : Prop where
  sorted : s.ctx.ids.Pairwise (· < ·)
  added : ∀ id ∈ s.ctx.ids, id < s.added
  index : s.ctx.nextIndex ≤ s.ctx.updates.length
  calls : s.Calls

theorem Ordered.moved (h : Ordered s) (hmoved : Moved s l s') : Ordered s' := by
  cases hmoved with
  | same _ hupdates hindex _ hadded hcalling _ =>
    refine ⟨?_, ?_, by rw [hupdates, hindex]; exact h.index, ?_⟩
    · rw [Context.ids, hupdates]
      exact h.sorted
    · rw [Context.ids, hupdates, hadded]
      exact h.added
    · intro u a hu
      rw [hupdates, hindex]
      exact hcalling u a hu
  | @added name _ _ hctx _ hadded hcalling _ =>
    have hids : s'.ctx.ids = s.ctx.ids ++ [s.added] := by
      rw [hctx]
      exact List.map_append
    refine ⟨?_, ?_, ?_, fun u a hu => by rw [hcalling] at hu; cases hu⟩
    · rw [hids, List.pairwise_append]
      refine ⟨h.sorted, List.pairwise_singleton _ _, fun a ha b hb => ?_⟩
      rw [List.mem_singleton.1 hb]
      exact h.added a ha
    · intro id hid
      rw [hids, List.mem_append, List.mem_singleton] at hid
      rw [hadded]
      exact hid.elim (fun hid => Nat.lt_succ_of_lt (h.added id hid)) fun hid => by omega
    · rw [hctx]
      exact h.index.trans (by simp [Context.add])
  | @taken u finished _ hu hs' _ =>
    subst hs'
    refine ⟨Context.sorted_turn h.sorted finished, fun id hid => ?_,
      Context.index_turn hu finished, fun _ _ hu => by cases hu⟩
    exact h.added id ((Context.mem_ids_turn hu h.sorted finished).1 hid).1

theorem ordered_of_reaches [DecidableEq N] {ok : AsyncUpdates N → UpdatesLabel N → Prop}
    {s₀ : AsyncUpdates N} (h₀ : Ordered s₀) (h : Reaches step ok s₀ s) : Ordered s :=
  h.invariant h₀ fun _ _ _ ht _ hstep => ht.moved (moved_of_step ht.calls hstep)

/-! ### Taking turns -/

theorem turns_taken (s : AsyncUpdates N) (u : Update N) (finished : Bool) (id : ℕ) :
    (s.taken u finished).turns id = s.turns id + if id = u.id then 1 else 0 := by
  show Function.update s.turns u.id (s.turns u.id + 1) id = _
  by_cases heq : id = u.id
  · rw [heq, Function.update_self, if_pos rfl]
  · rw [Function.update_of_ne heq, if_neg heq, Nat.add_zero]

/-- What happened since `s₀`: none of its functions came back, and each one that stayed has had as
many turns as the rounds that were completed, and one more if it had its turn in this one. -/
structure Since (s₀ s : AsyncUpdates N) : Prop where
  added : s₀.added ≤ s.added
  stayed : ∀ id ∈ s.ctx.ids, id < s₀.added → id ∈ s₀.ctx.ids
  rounds : ∃ w, ∀ id ∈ s.ctx.ids, id < s₀.added →
    s.turns id + s₀.ctx.ahead id = s₀.turns id + w + s.ctx.ahead id

theorem Since.moved {s₀ : AsyncUpdates N} (h : Since s₀ s) (ho : Ordered s)
    (hmoved : Moved s l s') : Since s₀ s' := by
  obtain ⟨w, hw⟩ := h.rounds
  cases hmoved with
  | same _ hupdates hindex hturns hadded _ _ =>
    have hids : s'.ctx.ids = s.ctx.ids := by rw [Context.ids, hupdates]; rfl
    have hahead : ∀ id, s'.ctx.ahead id = s.ctx.ahead id := fun id => by
      rw [Context.ahead, Context.served, hupdates, hindex]
      rfl
    refine ⟨hadded ▸ h.added, hids ▸ h.stayed, w, fun id hid hlt => ?_⟩
    rw [hturns, hahead]
    exact hw id (hids ▸ hid) hlt
  | @added name _ _ hctx hturns hadded _ _ =>
    have hids : s'.ctx.ids = s.ctx.ids ++ [s.added] := by
      rw [hctx]
      exact List.map_append
    have hold : ∀ id ∈ s'.ctx.ids, id < s₀.added → id ∈ s.ctx.ids := by
      intro id hid hlt
      rw [hids, List.mem_append, List.mem_singleton] at hid
      refine hid.resolve_right fun heq => ?_
      have := h.added
      omega
    refine ⟨h.added.trans (by omega), fun id hid hlt => h.stayed id (hold id hid hlt) hlt, w,
      fun id hid hlt => ?_⟩
    have hahead : s'.ctx.ahead id = s.ctx.ahead id := by
      rw [hctx, Context.ahead, Context.served]
      show (if id ∈ ((s.ctx.updates ++ _).take s.ctx.nextIndex).map _ then 1 else 0) = _
      rw [List.take_append_of_le_length ho.index]
      rfl
    rw [hturns, hahead]
    exact hw id (hold id hid hlt) hlt
  | @taken u finished _ hu hs' _ =>
    subst hs'
    obtain ⟨w', -, hw'⟩ := Context.ahead_turn hu ho.sorted finished
    have hold : ∀ id ∈ (s.ctx.turn finished).ids, id ∈ s.ctx.ids := fun id hid =>
      ((Context.mem_ids_turn hu ho.sorted finished).1 hid).1
    refine ⟨h.added, fun id hid hlt => h.stayed id (hold id hid) hlt, w + w',
      fun id hid hlt => ?_⟩
    have hbefore := hw id (hold id hid) hlt
    have hturn := hw' id hid
    rw [turns_taken]
    show _ = s₀.turns id + (w + w') + (s.ctx.turn finished).ahead id
    omega

theorem ordered_initial : Ordered ({} : AsyncUpdates N) where
  sorted := List.Pairwise.nil
  added _ h := by cases h
  index := Nat.le_refl 0
  calls _ _ h := by cases h

/-- **The functions take turns**, in every run: of two that are there all the time, neither is
called more often than the other but once. -/
theorem turns_fair [DecidableEq N] {s₀ : AsyncUpdates N} (h₀ : Reaches step free {} s₀)
    (h : Reaches step free s₀ s) {id id' : ℕ} (hid₀ : id ∈ s₀.ctx.ids) (hid₀' : id' ∈ s₀.ctx.ids)
    (hid : id ∈ s.ctx.ids) (hid' : id' ∈ s.ctx.ids) :
    s.turns id - s₀.turns id ≤ s.turns id' - s₀.turns id' + 1 := by
  have ho₀ := ordered_of_reaches ordered_initial h₀
  have ho := ordered_of_reaches ho₀ h
  have hsince : Since s₀ s := by
    refine h.invariant₂ (J := Ordered) (fun t ht => ordered_of_reaches ho₀ ht)
      ⟨Nat.le_refl _, fun _ h _ => h, 0, fun _ _ _ => rfl⟩ fun t l u ht hs _ hstep => ?_
    exact hs.moved ht (moved_of_step ht.calls hstep)
  obtain ⟨w, hw⟩ := hsince.rounds
  have h₁ := hw id hid (ho₀.added id hid₀)
  have h₂ := hw id' hid' (ho₀.added id' hid₀')
  have hle : ∀ c : Context N, c.ahead id ≤ 1 := fun c => Context.ahead_le_one
  have hle' : ∀ c : Context N, c.ahead id' ≤ 1 := fun c => Context.ahead_le_one
  have hone := hle s.ctx
  have hone₀ := hle s₀.ctx
  have hone' := hle' s.ctx
  have hone₀' := hle' s₀.ctx
  rcases Nat.lt_trichotomy id id' with hlt | rfl | hlt
  · have ha := Context.ahead_anti ho.sorted hid hlt
    have ha₀ := Context.ahead_anti ho₀.sorted hid₀ hlt
    omega
  · omega
  · have ha := Context.ahead_anti ho.sorted hid' hlt
    have ha₀ := Context.ahead_anti ho₀.sorted hid₀' hlt
    omega

/-- Two functions, with a receive to deliver to for each. -/
def twoReceives : List (UpdatesLabel ℕ) := [.add 0, .add 1, .start 0 ⟨1, 4⟩, .start 1 ⟨2, 4⟩]

/-- A function delivers a byte, and has more. -/
def oneByte : List (UpdatesLabel ℕ) := [.next, .deliver [7], .ret false]

theorem turns_fair_oneTurn : ∃ s₀ s : AsyncUpdates ℕ, run step {} twoReceives = some s₀ ∧
    run step s₀ oneByte = some s ∧ s.turns 0 = 1 ∧
    s.turns 0 - s₀.turns 0 ≤ s.turns 1 - s₀.turns 1 + 1 := by
  obtain ⟨s₀, h₀, s, h, hone, hids₀, hids⟩ : ∃ s₀ : AsyncUpdates ℕ,
      run step {} twoReceives = some s₀ ∧ ∃ s, run step s₀ oneByte = some s ∧ s.turns 0 = 1 ∧
      s₀.ctx.ids = [0, 1] ∧ s.ctx.ids = [0, 1] := ⟨_, rfl, _, rfl, rfl, rfl, rfl⟩
  exact ⟨s₀, s, h₀, h, hone, turns_fair (reaches_free_of_run h₀) (reaches_free_of_run h)
    (by simp [hids₀]) (by simp [hids₀]) (by simp [hids]) (by simp [hids])⟩

/-! ### The end of the loop -/

/-- Functions that finish in their `need`-th turn, and none is added. -/
def Needs (need : ℕ → ℕ) (s : AsyncUpdates N) : UpdatesLabel N → Prop
  | .add _ => False
  | l => ∀ x ∈ s.turnOf l, (x.2 = true ↔ s.turns x.1.id + 1 = need x.1.id)

instance (need : ℕ → ℕ) (s : AsyncUpdates N) (l : UpdatesLabel N) : Decidable (Needs need s l) :=
  match l with
  | .add _ => inferInstanceAs (Decidable False)
  | .start _ _ | .next | .deliver _ | .ret _ =>
      inferInstanceAs (Decidable (∀ x ∈ s.turnOf _, (x.2 = true ↔ _)))

theorem Needs.turn {need : ℕ → ℕ} {finished : Bool} (h : Needs need s l)
    (hturn : s.turnOf l = some (u, finished)) : finished = true ↔ s.turns u.id + 1 = need u.id := by
  cases l with
  | add name => cases hturn
  | start name stream => cases hturn
  | next => exact h (u, finished) hturn
  | deliver data => cases hturn
  | ret b => exact h (u, finished) hturn

/-- The loop with `k + 1` functions, in the round `r`: those that are there have had their turns and
need more; as long as the last one is there, `next_index` is in range. -/
structure InRound (need : ℕ → ℕ) (k r : ℕ) (s : AsyncUpdates N) : Prop where
  ids : ∀ id ∈ s.ctx.ids, id ≤ k
  running : ∀ id ∈ s.ctx.ids, s.turns id = r + s.ctx.ahead id ∧ s.turns id < need id
  finished : ∀ id ≤ k, id ∉ s.ctx.ids → s.turns id = need id
  bound : ∀ id ≤ k, s.turns id ≤ r + 1
  inRange : k ∈ s.ctx.ids → s.ctx.nextIndex < s.ctx.updates.length
  outOfRange : k ∉ s.ctx.ids → s.turns k = r + 1 ∧ s.ctx.nextIndex = s.ctx.updates.length
  undefined : s.undefined = true → s.ctx.updates ≠ [] ∧ k ∉ s.ctx.ids

theorem InRound.taken {need : ℕ → ℕ} {k r : ℕ} {finished : Bool} (h : InRound need k r s)
    (ho : Ordered s) (hu : s.ctx.updates[s.ctx.nextIndex]? = some u)
    (hneed : finished = true ↔ s.turns u.id + 1 = need u.id) (hundefined : s.undefined = false) :
    ∃ r', InRound need k r' (s.taken u finished) := by
  have hlt := (List.getElem?_eq_some_iff.1 hu).1
  have hmem : ∀ {id}, id ∈ (s.taken u finished).ctx.ids ↔ _ :=
    Context.mem_ids_turn hu ho.sorted finished
  have huid : u.id ∈ s.ctx.ids := List.mem_map_of_mem (List.mem_of_getElem? hu)
  have hlast : k ∈ s.ctx.ids := by
    by_contra hk
    have := (h.outOfRange hk).2
    omega
  have hfirst : s.turns u.id = r := by
    rw [(h.running u.id huid).1, Context.ahead, if_neg (Context.not_served hu ho.sorted),
      Nat.add_zero]
  obtain ⟨w, hw, hturn⟩ := Context.ahead_turn hu ho.sorted finished
  refine ⟨r + w, fun id hid => h.ids id (hmem.1 hid).1, fun id hid => ?_, fun id hk hid => ?_,
    fun id hk => ?_, fun hid => ?_, fun hid => ?_, fun hundef => ?_⟩
  · obtain ⟨hid', hstays⟩ := hmem.1 hid
    obtain ⟨hturns, hmore⟩ := h.running id hid'
    have hahead := hturn id hid
    rw [turns_taken]
    refine ⟨?_, ?_⟩
    · show _ = r + w + (s.ctx.turn finished).ahead id
      omega
    · split_ifs with heq
      · subst heq
        have hnot : ¬ s.turns u.id + 1 = need u.id := fun hn => hstays (hneed.2 hn) rfl
        omega
      · exact hmore
  · rw [turns_taken]
    by_cases hold : id ∈ s.ctx.ids
    · obtain ⟨hfin, rfl⟩ : finished = true ∧ id = u.id := by
        by_contra hnot
        exact hid (hmem.2 ⟨hold, fun hfin heq => hnot ⟨hfin, heq⟩⟩)
      rw [if_pos rfl]
      exact hneed.1 hfin
    · have hne : id ≠ u.id := fun heq => hold (by rwa [heq])
      rw [if_neg hne, Nat.add_zero]
      exact h.finished id hk hold
  · have hbound := h.bound id hk
    rw [turns_taken]
    split_ifs with heq
    · rw [heq, hfirst]
      omega
    · omega
  · exact Context.index_turn_of_mem hu ho.sorted h.ids hid
  · obtain ⟨hfin, heq⟩ : finished = true ∧ k = u.id := by
      by_contra hnot
      exact hid (hmem.2 ⟨hlast, fun hfin heq => hnot ⟨hfin, heq⟩⟩)
    refine ⟨?_, ?_⟩
    · rw [turns_taken, if_pos heq, heq, hfirst, hw hfin]
    · subst hfin
      have hend : s.ctx.updates.length = s.ctx.nextIndex + 1 := by
        by_contra hnot
        obtain ⟨id, hid, hgt⟩ := Context.lt_of_not_last hu ho.sorted hnot
        have := h.ids id hid
        omega
      show s.ctx.nextIndex = (s.ctx.updates.eraseIdx s.ctx.nextIndex).length
      rw [List.length_eraseIdx_of_lt hlt, hend, Nat.add_sub_cancel]
  · have hundef' : s.undefined = true := hundef
    rw [hundefined] at hundef'
    cases hundef'

theorem InRound.moved {need : ℕ → ℕ} {k r : ℕ} (h : InRound need k r s) (ho : Ordered s)
    (hok : Needs need s l) (hmoved : Moved s l s') : ∃ r', InRound need k r' s' := by
  cases hmoved with
  | same _ hupdates hindex hturns _ _ hundefined =>
    have hids : s'.ctx.ids = s.ctx.ids := by rw [Context.ids, hupdates]; rfl
    have hahead : ∀ id, s'.ctx.ahead id = s.ctx.ahead id := fun id => by
      rw [Context.ahead, Context.served, hupdates, hindex]
      rfl
    refine ⟨r, ?_, ?_, ?_, ?_, ?_, ?_, fun hundef => ?_⟩
    · rw [hids]
      exact h.ids
    · simpa only [hids, hturns, hahead] using h.running
    · rw [hids, hturns]
      exact h.finished
    · rw [hturns]
      exact h.bound
    · rw [hids, hupdates, hindex]
      exact h.inRange
    · rw [hids, hturns, hupdates, hindex]
      exact h.outOfRange
    · obtain ⟨hne, hnone⟩ := hundefined hundef
      rw [hids, hupdates]
      refine ⟨hne, fun hk => ?_⟩
      have hlt := h.inRange hk
      rw [List.getElem?_eq_getElem hlt] at hnone
      cases hnone
  | added hl =>
    subst hl
    exact hok.elim
  | @taken u finished hturn hu hs' hundefined =>
    subst hs'
    exact h.taken ho hu (hok.turn hturn) hundefined

/-- The number of calls of `next` that have returned. -/
def calls (k : ℕ) (s : AsyncUpdates N) : ℕ := ∑ id ∈ Finset.range (k + 1), s.turns id

/-- As long as the function added last has not finished, the others have had no more turns than it
needs. -/
theorem InRound.calls_lt {need : ℕ → ℕ} {k r : ℕ} (h : InRound need k r s) (ho : Ordered s)
    (hk : k ∈ s.ctx.ids) :
    s.calls k < ∑ id ∈ Finset.range (k + 1), min (need id) (need k) := by
  have hlt := h.inRange hk
  have hnot : k ∉ s.ctx.served := by
    intro hserved
    have hget := List.getElem?_eq_getElem hlt
    have hbefore := Context.lt_of_served hget ho.sorted hserved
    have hmax := h.ids _ (List.mem_map_of_mem (List.getElem_mem hlt))
    omega
  obtain ⟨hturns, hmore⟩ := h.running k hk
  rw [Context.ahead, if_neg hnot, Nat.add_zero] at hturns
  refine Finset.sum_lt_sum (fun id hid => ?_) ⟨k, by simp, by omega⟩
  have hle : id ≤ k := Nat.lt_succ_iff.1 (Finset.mem_range.1 hid)
  have hbound := h.bound id hle
  have hneed : s.turns id ≤ need id := by
    by_cases hthere : id ∈ s.ctx.ids
    · exact Nat.le_of_lt (h.running id hthere).2
    · exact Nat.le_of_eq (h.finished id hle hthere)
  omega

/-- When it has, all have had their turns up to the one it finished in. -/
theorem InRound.turns_eq {need : ℕ → ℕ} {k r : ℕ} (h : InRound need k r s) (hk : k ∉ s.ctx.ids)
    {id : ℕ} (hle : id ≤ k) :
    s.turns id = min (need id) (need k) ∧ (id ∈ s.ctx.ids ↔ need k < need id) := by
  obtain ⟨hlast, hindex⟩ := h.outOfRange hk
  have hneed := h.finished k (Nat.le_refl k) hk
  by_cases hthere : id ∈ s.ctx.ids
  · obtain ⟨hturns, hmore⟩ := h.running id hthere
    have hserved : id ∈ s.ctx.served := by
      rw [Context.served, hindex, List.take_length]
      exact hthere
    rw [Context.ahead, if_pos hserved] at hturns
    exact ⟨by omega, fun _ => by omega, fun _ => hthere⟩
  · have hturns := h.finished id hle hthere
    have hbound := h.bound id hle
    exact ⟨by omega, fun h => absurd h hthere, fun _ => by omega⟩

theorem ids_of_adds [DecidableEq N] {names : List N} {s₀ : AsyncUpdates N}
    (hcalling : s.calling = none) (hundefined : s.undefined = false)
    (h : run step s (names.map .add) = some s₀) :
    s₀.ctx.ids = s.ctx.ids ++ List.range' s.added names.length ∧
      s₀.ctx.nextIndex = s.ctx.nextIndex ∧ s₀.turns = s.turns ∧ s₀.undefined = false := by
  induction names generalizing s with
  | nil =>
    cases h
    exact ⟨by simp, rfl, rfl, hundefined⟩
  | cons name names ih =>
    obtain ⟨t, hstep, hrun⟩ := Option.bind_eq_some_iff.1 h
    simp only [step, hundefined, hcalling, Bool.false_eq_true, if_false] at hstep
    obtain rfl := Option.some.inj hstep
    obtain ⟨hids, hindex, hturns, hundef⟩ := ih (by rfl) (by rfl) hrun
    refine ⟨?_, hindex, hturns, hundef⟩
    rw [hids, List.length_cons, List.range'_succ]
    simp [Context.ids, Context.add]

theorem inRound_of_add [DecidableEq N] {names : List N} {s₀ : AsyncUpdates N} {k : ℕ}
    (hk : names.length = k + 1) (hadd : run step {} (names.map .add) = some s₀)
    {need : ℕ → ℕ} (hneed : ∀ id ≤ k, 0 < need id) : InRound need k 0 s₀ ∧ Ordered s₀ := by
  obtain ⟨hids, hindex, hturns, hundefined⟩ := ids_of_adds rfl rfl hadd
  have hmem : ∀ id, id ∈ s₀.ctx.ids ↔ id ≤ k := by
    intro id
    have hrange : s₀.ctx.ids = List.range' 0 (k + 1) := by rw [hids, hk]; rfl
    rw [hrange, List.mem_range'_1]
    omega
  have hzero : ∀ id, s₀.turns id = 0 := fun id => by rw [hturns]
  have hahead : ∀ id, s₀.ctx.ahead id = 0 := fun id => by
    rw [Context.ahead, Context.served, hindex]
    rfl
  have hlast : k ∈ s₀.ctx.ids := (hmem k).2 (Nat.le_refl k)
  refine ⟨⟨fun id => (hmem id).1, fun id hid => ?_, fun id hle hid => ?_, fun id _ => ?_,
    fun _ => ?_, fun hnot => absurd hlast hnot, fun hundef => ?_⟩,
    ordered_of_reaches ordered_initial (reaches_free_of_run hadd)⟩
  · rw [hzero, hahead]
    exact ⟨rfl, hneed id ((hmem id).1 hid)⟩
  · exact absurd ((hmem id).2 hle) hid
  · rw [hzero]
    exact Nat.zero_le _
  · rw [hindex]
    exact List.length_pos_of_mem (List.exists_of_mem_map hlast).choose_spec.1
  · rw [hundefined] at hundef
    cases hundef

/-- **When `async_run` ends**, if each function that was added finishes in some turn: the calls of
`next` return until the one added last has finished; then the loop ends if none of the others needs
more turns than it, and otherwise the next call reads `updates` out of range. -/
theorem async_run_ends_iff [DecidableEq N] {names : List N} {s₀ : AsyncUpdates N} {k : ℕ}
    {need : ℕ → ℕ} (hk : names.length = k + 1) (hadd : run step {} (names.map .add) = some s₀)
    (hneed : ∀ id ≤ k, 0 < need id) (h : Reaches step (Needs need) s₀ s)
    (hcalling : s.calling = none) :
    (s.undefined = false ∧ s.ctx.nextIndex < s.ctx.updates.length ∧
      s.calls k < ∑ id ∈ Finset.range (k + 1), min (need id) (need k)) ∨
    (s.calls k = ∑ id ∈ Finset.range (k + 1), min (need id) (need k) ∧
      (s.ctx.updates = [] ↔ ∀ id ≤ k, need id ≤ need k) ∧
      (s.ctx.updates ≠ [] → s.undefined = true ∨
        ∃ s', s.step .next = some s' ∧ s'.undefined = true)) := by
  obtain ⟨hround₀, ho₀⟩ := inRound_of_add hk hadd hneed
  have ho := ordered_of_reaches ho₀ h
  obtain ⟨r, hr⟩ : ∃ r, InRound need k r s := by
    refine h.invariant₂ (I := fun t => ∃ r, InRound need k r t) (J := Ordered)
      (fun t ht => ordered_of_reaches ho₀ ht) ⟨0, hround₀⟩ fun t l u ht ⟨r, hr⟩ hok hstep => ?_
    exact hr.moved ht hok (moved_of_step ht.calls hstep)
  by_cases hlast : k ∈ s.ctx.ids
  · refine .inl ⟨?_, hr.inRange hlast, hr.calls_lt ho hlast⟩
    by_contra hundef
    exact (hr.undefined (by simpa using hundef)).2 hlast
  · have hturns : ∀ id ≤ k, s.turns id = min (need id) (need k) ∧
        (id ∈ s.ctx.ids ↔ need k < need id) := fun id hle => hr.turns_eq hlast hle
    refine .inr ⟨?_, ⟨fun hnil id hle => ?_, fun hall => ?_⟩, fun hne => ?_⟩
    · exact Finset.sum_congr rfl fun id hid =>
        (hturns id (Nat.lt_succ_iff.1 (Finset.mem_range.1 hid))).1
    · refine Nat.le_of_not_lt fun hlt => ?_
      have hthere := (hturns id hle).2.2 hlt
      rw [Context.ids, hnil] at hthere
      cases hthere
    · refine List.eq_nil_iff_forall_not_mem.2 fun u hu => ?_
      have hthere : u.id ∈ s.ctx.ids := List.mem_map_of_mem hu
      have hle := hr.ids u.id hthere
      have hlt := (hturns u.id hle).2.1 hthere
      exact absurd (hall u.id hle) (Nat.not_le_of_lt hlt)
    · cases hundef : s.undefined with
      | true => exact .inl rfl
      | false =>
        refine .inr ⟨{ s with undefined := true }, ?_, rfl⟩
        have hnone : s.ctx.updates[s.ctx.nextIndex]? = none := by
          rw [(hr.outOfRange hlast).2]
          exact List.getElem?_eq_none (Nat.le_refl _)
        have hnext : s.next = { s with undefined := true } := by
          rw [next, hnone]
        simp only [step, hundef, hcalling, hne, hnext, Bool.false_eq_true, if_false]

/-- Each function gets a turn; there is no receive for the second one. -/
def oneRound : List (UpdatesLabel ℕ) := [.start 0 ⟨1, 4⟩, .next, .deliver [7], .ret false, .next]

/-- The function added first has more to deliver when the other one is dropped. -/
theorem async_run_ends_iff_lastFirst : ∃ s₀ s : AsyncUpdates ℕ,
    run step {} ([0, 1].map .add) = some s₀ ∧ run step s₀ oneRound = some s ∧ s.calls 1 = 2 ∧
    ∃ s', s.step .next = some s' ∧ s'.undefined = true := by
  let need : ℕ → ℕ := fun id => 2 - id
  obtain ⟨s₀, hadd, s, hrun, htest, hcalling, hupdates, hundefined, hindex⟩ : ∃ s₀ : AsyncUpdates ℕ,
      run step {} ([0, 1].map .add) = some s₀ ∧ ∃ s, run step s₀ oneRound = some s ∧
      run (checked step fun s l => decide (Needs need s l)) s₀ oneRound = some s ∧
      s.calling = none ∧ s.ctx.updates = [⟨0, 0⟩] ∧ s.undefined = false ∧ s.ctx.nextIndex = 1 :=
    ⟨_, rfl, _, rfl, rfl, rfl, rfl, rfl, rfl⟩
  have hreach : Reaches step (Needs need) s₀ s :=
    reaches_of_run (fun s l h => of_decide_eq_true h) htest
  rcases async_run_ends_iff (k := 1) rfl hadd (by decide) hreach hcalling with
    ⟨-, hlt, -⟩ | ⟨hcalls, -, hout⟩
  · rw [hupdates, hindex] at hlt
    exact absurd hlt (by decide)
  · have hne : s.ctx.updates ≠ [] := by simp [hupdates]
    exact ⟨s₀, s, hadd, hrun, hcalls.trans (by decide),
      (hout hne).resolve_left (by simp [hundefined])⟩

end AsyncUpdates

end DemoStream

end Net29
