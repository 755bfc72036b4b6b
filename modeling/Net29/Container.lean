import Net29.Basic
import Net29.Lib.Chain
import Mathlib.Data.List.Basic

/-!
# `container`: a table with a free list

The socket table of every context. A slot holds a record or, when it was erased, the index of the
next erased slot; `free` is the first erased slot, and the list of erased slots ends at the size of
the table. Ids are slot indices, narrowed to the 32 bits of `socket_id`.

* `Container.insert`, `Container.erase`, `Container.get?` (`operator[]`);
* `Container.FreeList c l`: the erased slots are exactly `l`, threaded through the table;
* `Container.insert_spec`: the id returned was not live, and no other id is affected.
-/

namespace Net29

open Links

/-- `variant<size_t, Record>`. -/
inductive Slot (α : Type)
  | free (next : ℕ)
  | used (r : α)
  deriving DecidableEq, Repr

/-- `container<Record>`. -/
structure Container (α : Type) where
  records : List (Slot α) := []
  free : ℕ := 0
  deriving DecidableEq, Repr

namespace Container

variable {α : Type} {c c' : Container α} {r : α} {id i : ℕ} {l : List ℕ}

/-- `insert`. Reading the link of a slot that holds a record throws. -/
def insert (c : Container α) (r : α) : Exec (Container α × SocketId) :=
  if c.free = c.records.length then
    .ok (⟨c.records ++ [.used r], c.free + 1⟩, c.free % 2 ^ 32)
  else
    match c.records[c.free]? with
    | some (.free next) => .ok (⟨c.records.set c.free (.used r), next⟩, c.free % 2 ^ 32)
    | some (.used _) => .error .terminate
    | none => .error .undefined

/-- `erase`. -/
def erase (c : Container α) (id : SocketId) : Container α :=
  ⟨c.records.set id (.free c.free), id⟩

/-- `operator[]`: the record of a live id; for any other id the assertion fails. -/
def get? (c : Container α) (id : SocketId) : Option α :=
  match c.records[id]? with
  | some (.used r) => some r
  | _ => none

theorem get?_eq_some : c.get? id = some r ↔ c.records[id]? = some (.used r) := by
  unfold get?
  split
  · next r' h => simp [h]
  · next h =>
    constructor
    · intro hn; cases hn
    · intro hs; exact absurd hs (h r)

theorem lt_of_get? (h : c.get? id = some r) : id < c.records.length :=
  (List.getElem?_eq_some_iff.1 (get?_eq_some.1 h)).1

@[simp] theorem get?_erase_self : (c.erase id).get? id = none := by
  unfold get? erase
  simp only [List.getElem?_set_self']
  cases c.records[id]? <;> rfl

theorem get?_erase_of_ne (h : i ≠ id) : (c.erase id).get? i = c.get? i := by
  unfold get? erase
  simp only [List.getElem?_set_ne h.symm]

/-- The two ways an insertion succeeds: at the end of the table, or in the first erased slot. -/
theorem insert_eq_ok (h : c.insert r = .ok (c', id)) :
    (c.free = c.records.length ∧ id = c.free % 2 ^ 32 ∧
      c' = ⟨c.records ++ [.used r], c.free + 1⟩) ∨
    (c.free < c.records.length ∧ id = c.free % 2 ^ 32 ∧ ∃ next,
      c.records[c.free]? = some (.free next) ∧ c' = ⟨c.records.set c.free (.used r), next⟩) := by
  unfold insert at h
  split at h
  · next hfree => cases h; exact .inl ⟨hfree, rfl, rfl⟩
  · split at h
    · next next hslot =>
      cases h
      exact .inr ⟨(List.getElem?_eq_some_iff.1 hslot).1, rfl, next, hslot, rfl⟩
    · cases h
    · cases h

/-- **Insertion.** While ids fit their type, the id returned was not live, is live afterwards with
the record inserted, and every other id is as before. -/
theorem insert_spec (h : c.insert r = .ok (c', id)) (hlen : c.records.length < 2 ^ 32) :
    c.get? id = none ∧ c'.get? id = some r ∧ ∀ i, i ≠ id → c'.get? i = c.get? i := by
  rcases insert_eq_ok h with ⟨hfree, hid, rfl⟩ | ⟨hlt, hid, next, hslot, rfl⟩
  · rw [Nat.mod_eq_of_lt (by omega)] at hid
    subst hid
    refine ⟨?_, ?_, fun i hi => ?_⟩
    · simp [get?, hfree]
    · simp [get?_eq_some, hfree]
    · unfold get?
      rcases Nat.lt_or_ge i c.records.length with hlt | hge
      · simp only [List.getElem?_append_left hlt]
      · have hlen' : (c.records ++ [Slot.used r]).length ≤ i := by
          simp only [List.length_append, List.length_singleton]
          omega
        rw [List.getElem?_eq_none hge, List.getElem?_eq_none hlen']
  · rw [Nat.mod_eq_of_lt (by omega)] at hid
    subst hid
    refine ⟨?_, ?_, fun i hi => ?_⟩
    · simp [get?, hslot]
    · simp [get?_eq_some, hlt]
    · simp only [get?, List.getElem?_set_ne hi.symm]

/-- A record that is live after an insertion was live before, or is the one inserted, in the first
free slot. -/
theorem get?_insert {r' : α} (h : c.insert r = .ok (c', id)) (hget : c'.get? i = some r') :
    c.get? i = some r' ∨ i = c.free ∧ r' = r := by
  rw [get?_eq_some] at hget ⊢
  rcases insert_eq_ok h with ⟨hfree, -, rfl⟩ | ⟨-, -, next, -, rfl⟩
  · rw [List.getElem?_append] at hget
    split at hget
    · exact .inl hget
    · next hge =>
      obtain ⟨hlt, hr⟩ := List.getElem?_eq_some_iff.1 hget
      rw [List.getElem_singleton] at hr
      rw [List.length_singleton] at hlt
      cases hr
      exact .inr ⟨by omega, rfl⟩
  · rw [List.getElem?_set] at hget
    split_ifs at hget with hi hlt
    · cases hget
      exact .inr ⟨hi.symm, rfl⟩
    · exact .inl hget

/-- A record that is live after an erasure was live before. -/
theorem get?_erase (hget : (c.erase id).get? i = some r) : c.get? i = some r := by
  by_cases hi : i = id
  · subst hi
    rw [get?_erase_self] at hget
    cases hget
  · rwa [get?_erase_of_ne hi] at hget

/-! ### The free list -/

/-- The link stored in an erased slot. -/
def nextFree (c : Container α) (i : ℕ) : Option ℕ :=
  match c.records[i]? with
  | some (.free next) => some next
  | _ => none

theorem nextFree_eq_some {next : ℕ} :
    c.nextFree i = some next ↔ c.records[i]? = some (.free next) := by
  unfold nextFree
  split
  · next n h => simp [h]
  · next h =>
    constructor
    · intro hn; cases hn
    · intro hs; exact absurd hs (h next)

/-- The erased slots are the cells of `l`: following the links from `free` visits each of them once
and ends at the size of the table. -/
structure FreeList (c : Container α) (l : List ℕ) : Prop where
  chain : Chain c.nextFree c.free l c.records.length
  nodup : l.Nodup
  mem_iff : ∀ i, i ∈ l ↔ (c.nextFree i).isSome

theorem FreeList.empty : FreeList ({} : Container α) [] where
  chain := .nil _
  nodup := List.nodup_nil
  mem_iff i := by simp [nextFree]

theorem FreeList.lt (h : FreeList c l) (hi : i ∈ l) : i < c.records.length := by
  obtain ⟨n, hn⟩ := Option.isSome_iff_exists.1 ((h.mem_iff i).1 hi)
  exact (List.getElem?_eq_some_iff.1 (nextFree_eq_some.1 hn)).1

/-- A slot of the table is erased or holds a record. -/
theorem FreeList.mem_or_get? (h : FreeList c l) (hi : i < c.records.length) :
    i ∈ l ∨ ∃ r, c.get? i = some r := by
  have hget := List.getElem?_eq_getElem hi
  cases hs : c.records[i] with
  | free n =>
    refine .inl ((h.mem_iff i).2 ?_)
    rw [nextFree_eq_some.2 (hget.trans (by rw [hs]))]
    rfl
  | used r => exact .inr ⟨r, get?_eq_some.2 (hget.trans (by rw [hs]))⟩

/-- The table grows only when no erased slot is left. -/
theorem FreeList.eq_nil_of_full (h : FreeList c l) (hfree : c.free = c.records.length) :
    l = [] := by
  cases l with
  | nil => rfl
  | cons i l =>
    obtain ⟨_, _, hcons, -⟩ : ∃ a' l', i :: l = c.free :: l' ∧ c.nextFree c.free = some a' := by
      generalize c.records.length = b at *
      rcases h.chain with _ | ⟨hn, hl⟩
      exact ⟨_, _, rfl, hn⟩
    have := h.lt (i := c.free) (by rw [hcons]; exact List.mem_cons_self)
    omega

/-- With an intact free list every insertion returns. -/
theorem FreeList.insert_returns (h : FreeList c l) (r : α) : ∃ p, c.insert r = .ok p := by
  unfold Container.insert
  split
  · exact ⟨_, rfl⟩
  · next hne =>
    obtain ⟨next, l', -, hn, -⟩ := h.chain.uncons hne
    rw [nextFree_eq_some.1 hn]
    exact ⟨_, rfl⟩

theorem FreeList.insert (h : FreeList c l) (hins : c.insert r = .ok (c', id)) :
    FreeList c' l.tail := by
  rcases insert_eq_ok hins with ⟨hfree, -, rfl⟩ | ⟨hlt, -, next, hslot, rfl⟩
  · obtain rfl := h.eq_nil_of_full hfree
    refine ⟨?_, List.nodup_nil, fun i => ?_⟩
    · simpa [hfree] using (Chain.nil (c.records.length + 1) : Chain (nextFree _) _ [] _)
    · have hi := h.mem_iff i
      simp only [List.not_mem_nil, false_iff, Option.isSome_iff_exists, not_exists,
        nextFree_eq_some, List.tail_nil] at hi ⊢
      intro n hn
      rw [List.getElem?_append] at hn
      split at hn
      · exact hi n hn
      · have := (List.getElem?_eq_some_iff.1 hn).2
        simp at this
  · obtain ⟨a', l', rfl, hn, hl⟩ := h.chain.uncons (Nat.ne_of_lt hlt)
    obtain rfl : a' = next := by
      rw [nextFree_eq_some, hslot] at hn
      cases hn; rfl
    have hnot : c.free ∉ l' := (List.nodup_cons.1 h.nodup).1
    have hset : ∀ x, x ≠ c.free →
        nextFree ⟨c.records.set c.free (.used r), a'⟩ x = c.nextFree x := by
      intro x hx
      simp only [nextFree, List.getElem?_set_ne hx.symm]
    refine ⟨?_, (List.nodup_cons.1 h.nodup).2, fun i => ?_⟩
    · simpa using hl.congr fun x hx => hset x fun he => hnot (he ▸ hx)
    · by_cases hi : i = c.free
      · subst hi
        simp [hnot, nextFree, hlt]
      · rw [hset i hi, ← h.mem_iff, List.tail_cons, List.mem_cons, or_iff_right hi]

theorem FreeList.erase (h : FreeList c l) (hlive : c.get? id = some r) :
    FreeList (c.erase id) (id :: l) := by
  have hlt := lt_of_get? hlive
  have hnot : id ∉ l := by
    rw [h.mem_iff]
    simp [nextFree, get?_eq_some.1 hlive]
  have hset : ∀ x, x ≠ id → (c.erase id).nextFree x = c.nextFree x := by
    intro x hx
    simp only [nextFree, Container.erase, List.getElem?_set_ne hx.symm]
  have hself : (c.erase id).nextFree id = some c.free := by
    simp [nextFree, Container.erase, hlt]
  refine ⟨?_, List.nodup_cons.2 ⟨hnot, h.nodup⟩, fun i => ?_⟩
  · refine Chain.cons hself ?_
    simpa [Container.erase] using h.chain.congr fun x hx => hset x fun he => hnot (he ▸ hx)
  · by_cases hi : i = id
    · subst hi; simp [hself]
    · rw [hset i hi, ← h.mem_iff, List.mem_cons, or_iff_right hi]

end Container

end Net29
