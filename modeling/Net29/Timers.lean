import Net29.Basic
import Mathlib.Data.List.Sort

/-!
# Pending timers and queues of operations

`d_timeouts` is a `sorted_list` of timer operations with their deadlines as keys; here it is the
list of its nodes. An operation is identified by its address, so a queue has it as often as the
address occurs.

* `Timers.insert`, `Timers.popDue?`, `Timers.valueOr`, `Timers.erase?`;
* `Timers.Sorted`: the order that insertion and erasure keep;
* `occurrences`: how often an operation is in a queue, with one lemma for each way a queue changes.
-/

namespace Net29

/-- `std::get<0>` of a timer operation. -/
def IoBase.deadline (io : IoBase) : Time :=
  match io.op with
  | .resumeAt time => time
  | _ => 0

namespace Timers

/-- `sorted_list::insert`: before the first node whose deadline is not less. -/
def insert (l : List IoBase) (io : IoBase) : List IoBase :=
  l.orderedInsert (fun a b => a.deadline ≤ b.deadline) io

/-- The condition of `process_timeout` with `pop_front`. -/
def popDue? (l : List IoBase) (now : Time) : Option (IoBase × List IoBase) :=
  match l with
  | [] => none
  | io :: l => if io.deadline ≤ now then some (io, l) else none

/-- `sorted_list::value_or`. -/
def valueOr (l : List IoBase) (v : Time) : Time :=
  match l with
  | [] => v
  | io :: _ => io.deadline

/-- `sorted_list::erase`: the list without the node at the address, if it is in the list. -/
def erase? (l : List IoBase) (o : OpId) : Option (List IoBase) :=
  if l.any fun io => io.self = o then some (l.eraseP fun io => io.self = o) else none

theorem popDue?_eq_some {l l' : List IoBase} {io : IoBase} {now : Time} :
    popDue? l now = some (io, l') ↔ l = io :: l' ∧ io.deadline ≤ now := by
  cases l with
  | nil => simp [popDue?]
  | cons a l =>
    rw [popDue?]
    split_ifs with h
    · simp only [Option.some.injEq, Prod.mk.injEq, List.cons.injEq]
      constructor
      · rintro ⟨rfl, rfl⟩; exact ⟨⟨rfl, rfl⟩, h⟩
      · exact And.left
    · simp only [List.cons.injEq, false_iff]
      rintro ⟨⟨rfl, -⟩, h'⟩
      exact h h'

/-- The deadlines do not decrease. -/
def Sorted (l : List IoBase) : Prop := l.Pairwise fun a b => a.deadline ≤ b.deadline

/-- The first timer has the earliest deadline. -/
theorem Sorted.first_le {l : List IoBase} {io io' : IoBase} (h : Sorted (io :: l))
    (hio' : io' ∈ io :: l) : io.deadline ≤ io'.deadline := by
  rcases List.mem_cons.1 hio' with rfl | hmem
  · exact Int.le_refl _
  · exact List.rel_of_pairwise_cons h hmem

theorem Sorted.insert {l : List IoBase} (h : Sorted l) (io : IoBase) : Sorted (insert l io) :=
  List.Pairwise.orderedInsert (r := fun a b : IoBase => a.deadline ≤ b.deadline) io l h

theorem Sorted.erase? {l l' : List IoBase} {o : OpId} (h : Sorted l) (he : erase? l o = some l') :
    Sorted l' := by
  unfold Timers.erase? at he
  split_ifs at he
  cases he
  exact h.sublist List.eraseP_sublist

end Timers

/-- How often the operation is in a queue. -/
def occurrences (l : List IoBase) (o : OpId) : ℕ := l.countP fun io => io.self = o

section Occurrences

variable {l l' : List IoBase} {o : OpId}

@[simp] theorem occurrences_cons (io : IoBase) :
    occurrences (io :: l) o = occurrences l o + if io.self = o then 1 else 0 := by
  simp [occurrences, List.countP_cons]

@[simp] theorem occurrences_append : occurrences (l ++ l') o = occurrences l o + occurrences l' o :=
  List.countP_append

theorem occurrences_concat (io : IoBase) :
    occurrences (l ++ [io]) o = occurrences l o + if io.self = o then 1 else 0 := by
  rw [← occurrences_cons]
  exact (List.perm_append_singleton io l).countP_eq _

theorem occurrences_perm (h : l.Perm l') : occurrences l o = occurrences l' o := h.countP_eq _

theorem occurrences_pos : 0 < occurrences l o ↔ ∃ io ∈ l, io.self = o := by
  simp [occurrences, List.countP_pos_iff]

theorem occurrences_insert (io : IoBase) :
    occurrences (Timers.insert l io) o = occurrences l o + if io.self = o then 1 else 0 := by
  rw [← occurrences_cons]
  exact occurrences_perm (List.perm_orderedInsert _ io l)

/-- Erasing takes one node of the operation out. -/
theorem erase?_eq_some (h : Timers.erase? l o = some l') :
    ∃ io, io.self = o ∧ l.Perm (io :: l') := by
  unfold Timers.erase? at h
  split_ifs at h with hany
  cases h
  obtain ⟨io, hio, hself⟩ := List.any_eq_true.1 hany
  obtain ⟨a, l₁, l₂, -, ha, hl, herase⟩ :=
    @List.exists_of_eraseP _ (fun io => io.self = o) _ _ hio hself
  refine ⟨a, by simpa using ha, ?_⟩
  rw [herase, hl]
  exact List.perm_middle

theorem occurrences_erase? {o' : OpId} (h : Timers.erase? l o' = some l') :
    occurrences l o = occurrences l' o + if o' = o then 1 else 0 := by
  obtain ⟨io, rfl, hperm⟩ := erase?_eq_some h
  rw [occurrences_perm hperm, occurrences_cons]

/-- An operation that is in a queue can be erased from it. -/
theorem erase?_isSome : (Timers.erase? l o).isSome ↔ 0 < occurrences l o := by
  unfold Timers.erase?
  rw [occurrences_pos]
  split_ifs with h
  · simpa using h
  · simpa using h

/-- An operation that occurs at most once: no two nodes have the same address. -/
theorem nodup_of_occurrences (h : ∀ o, occurrences l o ≤ 1) : (l.map IoBase.self).Nodup := by
  rw [List.nodup_iff_count_le_one]
  intro o
  rw [List.count, List.countP_map]
  exact h o

end Occurrences

end Net29
