import Net29.Container
import Net29.Lib.Transition

/-!
# `container` as a finite map

A container is used by insertion, and by `erase` and `operator[]` for ids that are live. Beside the
table stands the map it is meant to be: every id that was inserted and not erased since, with its
record.

* `Usage.step`, `Usage.Allowed`: one call, and what its caller has to see to;
* `Usage.IsMap u l`: the table is the map, and the erased slots are the cells of its free list `l`;
* `finite_map`: what the calls do in every state of a run.
-/

namespace Net29

open Transition

namespace Container

variable {α : Type} {c c' : Container α} {r : α} {id i : ℕ} {l : List ℕ}

/-- The table, and the records inserted under the ids that were not erased since. -/
structure Usage (α : Type) where
  table : Container α := {}
  live : SocketId → Option α := fun _ => none

/-- The member functions. -/
inductive Call (α : Type)
  | insert (r : α)
  | erase (id : SocketId)
  | index (id : SocketId)

/-- Ids fit their type and are not `invalid`; only live ids are erased or read. -/
def Usage.Allowed (u : Usage α) : Call α → Prop
  | .insert _ => u.table.records.length < 2 ^ 32 - 1
  | .erase id | .index id => (u.live id).isSome

instance (u : Usage α) (call : Call α) : Decidable (u.Allowed call) :=
  match call with
  | .insert _ => inferInstanceAs (Decidable (u.table.records.length < 2 ^ 32 - 1))
  | .erase id | .index id => inferInstanceAs (Decidable ((u.live id).isSome = true))

/-- A call that returns. -/
def Usage.step (u : Usage α) : Call α → Option (Usage α)
  | .insert r =>
    (u.table.insert r).toOption.map fun p =>
      { table := p.1, live := Function.update u.live p.2 (some r) }
  | .erase id =>
    some { table := u.table.erase id, live := Function.update u.live id none }
  | .index id => (u.table.get? id).map fun _ => u

/-- The table is the map `live`, and following the stored indices from `free` visits every slot that
is not live once and ends at the size of the table. -/
structure Usage.IsMap (u : Usage α) (l : List ℕ) : Prop where
  freeList : FreeList u.table l
  get?_eq : ∀ i, u.table.get? i = u.live i
  mem_iff : ∀ i, i ∈ l ↔ i < u.table.records.length ∧ u.live i = none

/-- An erased slot is one that does not hold a record. -/
theorem FreeList.mem_iff_get? (h : FreeList c l) :
    i ∈ l ↔ i < c.records.length ∧ c.get? i = none := by
  constructor
  · intro hi
    refine ⟨h.lt hi, ?_⟩
    obtain ⟨next, hnext⟩ := Option.isSome_iff_exists.1 ((h.mem_iff i).1 hi)
    simp [get?, nextFree_eq_some.1 hnext]
  · rintro ⟨hlt, hget⟩
    rcases h.mem_or_get? hlt with hi | ⟨r, hr⟩
    · exact hi
    · rw [hget] at hr
      cases hr

/-- The invariant only needs the map: a slot that is not live is erased. -/
theorem Usage.isMap {u : Usage α} (hl : FreeList u.table l)
    (hget : ∀ i, u.table.get? i = u.live i) : u.IsMap l where
  freeList := hl
  get?_eq := hget
  mem_iff i := by rw [hl.mem_iff_get?, hget]

/-- The table grows only when no erased slot is left. -/
theorem FreeList.length_insert (h : FreeList c l) (hins : c.insert r = .ok (c', id)) :
    c'.records.length = if l = [] then c.records.length + 1 else c.records.length := by
  rcases insert_eq_ok hins with ⟨hfree, -, rfl⟩ | ⟨hlt, -, next, -, rfl⟩
  · rw [if_pos (h.eq_nil_of_full hfree)]
    simp
  · have hne : l ≠ [] := by
      obtain ⟨a, l', hcons, -⟩ := h.chain.uncons (Nat.ne_of_lt hlt)
      rw [hcons]
      exact List.cons_ne_nil _ _
    rw [if_neg hne]
    simp

/-- Ids are below the size of the table, and `invalid` is above it. -/
theorem insert_ne_invalid (hins : c.insert r = .ok (c', id))
    (hlen : c.records.length < 2 ^ 32 - 1) : id ≠ SocketId.invalid := by
  unfold SocketId.invalid
  rcases insert_eq_ok hins with ⟨hfree, rfl, -⟩ | ⟨hlt, rfl, -⟩
  · rw [hfree, Nat.mod_eq_of_lt (by omega)]
    omega
  · rw [Nat.mod_eq_of_lt (by omega)]
    omega

section Runs

variable {u u' : Usage α}

theorem isMap_empty : ({} : Usage α).IsMap [] :=
  Usage.isMap FreeList.empty fun i => by simp [get?]

/-- **Step.** -/
theorem Usage.IsMap.step {call : Call α} (h : u.IsMap l) (hcall : u.Allowed call)
    (hstep : u.step call = some u') : ∃ l', u'.IsMap l' := by
  cases call with
  | insert r =>
    obtain ⟨p, hp, rfl⟩ := Option.map_eq_some_iff.1 hstep
    have hins := Exec.toOption_eq_some.1 hp
    have hlen : u.table.records.length < 2 ^ 32 := Nat.lt_of_lt_of_le hcall (Nat.sub_le _ _)
    obtain ⟨-, hnew, hold⟩ := insert_spec hins hlen
    refine ⟨l.tail, Usage.isMap (h.freeList.insert hins) fun i => ?_⟩
    by_cases hi : i = p.2
    · simpa [hi] using hnew
    · simpa [hi, hold i hi] using h.get?_eq i
  | erase id =>
    cases hstep
    obtain ⟨r, hr⟩ := Option.isSome_iff_exists.1 hcall
    rw [← h.get?_eq] at hr
    refine ⟨id :: l, Usage.isMap (h.freeList.erase hr) fun i => ?_⟩
    by_cases hi : i = id
    · simp [hi]
    · simpa [hi, get?_erase_of_ne hi] using h.get?_eq i
  | index id =>
    obtain ⟨r, -, rfl⟩ := Option.map_eq_some_iff.1 hstep
    exact ⟨l, h⟩

/-- **Runs.** -/
theorem exists_isMap (h : Reaches Usage.step Usage.Allowed ({} : Usage α) u) : ∃ l, u.IsMap l :=
  Reaches.invariant (I := fun u : Usage α => ∃ l, u.IsMap l) h ⟨[], isMap_empty⟩
    fun _ _ _ ⟨_, hl⟩ hok hstep => hl.step hok hstep

/-- **`container` is a finite map that uses its slots again.** After any sequence of insertions, and
of `erase` and `operator[]` for live ids, the erased slots are the cells of the free list `l`, and
every live id has the record it was inserted with. While ids fit, the next insertion returns an id
that is neither live nor `invalid`, leaves the other ids alone, and makes the table larger only
when `l` is empty; `erase` ends the life of its id only. -/
theorem finite_map (h : Reaches Usage.step Usage.Allowed ({} : Usage α) u) :
    ∃ l, u.IsMap l ∧
      (u.table.records.length < 2 ^ 32 - 1 → ∀ r, ∃ c' id, u.table.insert r = .ok (c', id) ∧
        u.live id = none ∧ id ≠ SocketId.invalid ∧ c'.get? id = some r ∧
        (∀ i, i ≠ id → c'.get? i = u.live i) ∧
        c'.records.length =
          if l = [] then u.table.records.length + 1 else u.table.records.length) ∧
      ∀ id, (u.live id).isSome →
        (u.table.erase id).get? id = none ∧
        (∀ i, i ≠ id → (u.table.erase id).get? i = u.live i) ∧
        (u.table.erase id).records.length = u.table.records.length := by
  obtain ⟨l, hl⟩ := exists_isMap h
  refine ⟨l, hl, fun hlen r => ?_, fun id hid => ⟨get?_erase_self, fun i hi => ?_, ?_⟩⟩
  · obtain ⟨⟨c', id⟩, hins⟩ := hl.freeList.insert_returns r
    obtain ⟨hdead, hnew, hold⟩ :=
      insert_spec hins (Nat.lt_of_lt_of_le hlen (Nat.sub_le _ _))
    refine ⟨c', id, hins, ?_, insert_ne_invalid hins hlen, hnew, fun i hi => ?_,
      hl.freeList.length_insert hins⟩
    · rw [← hl.get?_eq, hdead]
    · rw [hold i hi, hl.get?_eq]
  · rw [get?_erase_of_ne hi, hl.get?_eq]
  · exact List.length_set

/-- Two insertions and an erasure. -/
theorem finite_map_of_calls :
    ∃ u : Usage ℕ, u.table.records = [.free 2, .used 8] ∧ ∃ l, u.IsMap l ∧
      ∃ c' id, u.table.insert 9 = .ok (c', id) ∧ u.live id = none ∧ id ≠ SocketId.invalid := by
  have hrun : (run (checked Usage.step fun u call => decide (u.Allowed call)) ({} : Usage ℕ)
      [.insert 7, .insert 8, .erase 0, .index 1]).map (fun u => u.table.records) =
      some [.free 2, .used 8] := by decide
  obtain ⟨u, hu, hrecords⟩ := Option.map_eq_some_iff.1 hrun
  have hreach : Reaches _ Usage.Allowed _ u := reaches_of_run (fun _ _ => of_decide_eq_true) hu
  obtain ⟨l, hl, hinsert, -⟩ := finite_map hreach
  have hlen : u.table.records.length < 2 ^ 32 - 1 := by
    rw [hrecords]
    decide
  obtain ⟨c', id, hins, hdead, hne, -⟩ := hinsert hlen 9
  exact ⟨u, hrecords, l, hl, c', id, hins, hdead, hne⟩

end Runs

end Container

end Net29
