import Mathlib.Data.List.Basic
import Mathlib.Logic.Function.Basic

/-!
# Linked lists whose links are rewritten in place

A link is the address of a node or null. It is stored in a cell: the head of the list, or a member
of a node. Loops over such a list move from cell to cell, so that the cell they stop at can be
written to.

* `IsList s c l`: from the cell `c` the links of `s` lead through exactly the nodes `l` and end;
  such a list has no node twice (`IsList.nodup`);
* `endCell c l`: the cell after the nodes `l`;
* `IsList.insert`, `IsList.remove`: what writing to that cell makes of the list;
* `walk`: the loop that moves on while a test holds, with `walk_isList` for where it stops.
-/

namespace Links

/-- Where a link is stored: in the head of a list, or in a node. -/
inductive Cell (α : Type*)
  | head
  | next (n : α)
  deriving DecidableEq

variable {α : Type*} {s s' : Cell α → Option α} {c d : Cell α} {l l' l₁ l₂ : List α} {n : α}

/-- From the cell `c` the links lead through the nodes `l`, and the last one is null. -/
def IsList (s : Cell α → Option α) : Cell α → List α → Prop
  | c, [] => s c = none
  | c, n :: l => s c = some n ∧ IsList s (.next n) l

@[simp] theorem isList_nil : IsList s c [] ↔ s c = none := Iff.rfl

@[simp] theorem isList_cons : IsList s c (n :: l) ↔ s c = some n ∧ IsList s (.next n) l := Iff.rfl

/-- The cell that is reached from `c` through the nodes `l`. -/
def endCell : Cell α → List α → Cell α
  | c, [] => c
  | _, n :: l => endCell (.next n) l

@[simp] theorem endCell_nil : endCell c [] = c := rfl

@[simp] theorem endCell_cons : endCell c (n :: l) = endCell (.next n) l := rfl

/-- The nodes of a list are determined by the links. -/
theorem IsList.unique (h : IsList s c l) (h' : IsList s c l') : l = l' := by
  induction l generalizing c l' with
  | nil =>
    cases l' with
    | nil => rfl
    | cons m l' => simp_all
  | cons n l ih =>
    cases l' with
    | nil => simp_all
    | cons m l' =>
      obtain ⟨hn, hl⟩ := h
      obtain ⟨hm, hl'⟩ := h'
      obtain rfl : n = m := Option.some.inj (hn.symm.trans hm)
      rw [ih hl hl']

theorem IsList.drop (h : IsList s c (l₁ ++ l₂)) : IsList s (endCell c l₁) l₂ := by
  induction l₁ generalizing c with
  | nil => exact h
  | cons n l₁ ih => exact ih h.2

/-- The link after the nodes `l₁`. -/
theorem IsList.endCell_eq (h : IsList s c (l₁ ++ l₂)) : s (endCell c l₁) = l₂.head? := by
  have hd := h.drop
  cases l₂ with
  | nil => exact hd
  | cons n l₂ => exact hd.1

/-- The last link is null. -/
theorem IsList.endCell_eq_none (h : IsList s c l) : s (endCell c l) = none := by
  have hl : IsList s c (l ++ []) := by rwa [List.append_nil]
  exact hl.endCell_eq

/-- **No cycles.** A list does not lead back to the cell it starts at. -/
theorem IsList.ne_next (h : IsList s c l) (hn : n ∈ l) : c ≠ .next n := by
  rintro rfl
  obtain ⟨l₁, l₂, rfl⟩ := List.append_of_mem hn
  have hd : IsList s (.next n) l₂ := h.drop.2
  have hlen := congrArg List.length (h.unique hd)
  simp only [List.length_append, List.length_cons] at hlen
  omega

theorem IsList.nodup (h : IsList s c l) : l.Nodup := by
  induction l generalizing c with
  | nil => exact List.nodup_nil
  | cons n l ih => exact List.nodup_cons.2 ⟨fun hn => h.2.ne_next hn rfl, ih h.2⟩

/-- The nodes in front of a node are others. -/
theorem IsList.ne_of_mem {m : α} (h : IsList s c (l₁ ++ n :: l₂)) (hm : m ∈ l₁) : m ≠ n :=
  (List.nodup_append.1 h.nodup).2.2 m hm n List.mem_cons_self

theorem endCell_cons_eq (c : Cell α) (n : α) (l : List α) :
    ∃ m ∈ n :: l, endCell c (n :: l) = .next m := by
  induction l generalizing c n with
  | nil => exact ⟨n, List.mem_cons_self, rfl⟩
  | cons k l ih =>
    obtain ⟨m, hm, heq⟩ := ih c k
    exact ⟨m, List.mem_cons_of_mem _ hm, heq⟩

/-- A walk that moved on has left the cell it started at. -/
theorem IsList.ne_endCell (h : IsList s c (n :: l₁ ++ l₂)) : c ≠ endCell c (n :: l₁) := by
  obtain ⟨m, hm, heq⟩ := endCell_cons_eq c n l₁
  rw [heq]
  exact h.ne_next (List.mem_append_left _ hm)

/-- The list goes on in the same way from any cell with the same link, as long as its nodes keep
their links. -/
theorem IsList.congr (h : IsList s d l) (hc : s' c = s d)
    (hl : ∀ n ∈ l, s' (.next n) = s (.next n)) : IsList s' c l := by
  induction l generalizing c d with
  | nil => exact hc.trans h
  | cons n l ih =>
    refine ⟨hc.trans h.1, ih h.2 (hl n List.mem_cons_self) fun m hm => ?_⟩
    exact hl m (List.mem_cons_of_mem _ hm)

section Update

variable [DecidableEq α]

/-- Writing to the link of another node changes nothing. -/
theorem IsList.assign {p : Option α} (h : IsList s .head l) (hn : n ∉ l) :
    IsList (Function.update s (.next n) p) .head l := by
  refine h.congr (Function.update_of_ne (by simp) _ _) fun m hm => ?_
  refine Function.update_of_ne ?_ _ _
  rintro ⟨rfl⟩
  exact hn hm

/-- **Insertion.** A node that is linked to the rest of the list and then written to the cell before
the rest is in between. -/
theorem IsList.insert (h : IsList s c (l₁ ++ l₂)) (hn : n ∉ l₁ ++ l₂) (hc : c ≠ .next n) :
    IsList
      (Function.update (Function.update s (.next n) (s (endCell c l₁))) (endCell c l₁) (some n))
      c (l₁ ++ n :: l₂) := by
  induction l₁ generalizing c with
  | nil =>
    refine ⟨Function.update_self .., ?_⟩
    refine IsList.congr h ?_ fun m hm => ?_
    · rw [endCell_nil, Function.update_of_ne hc.symm, Function.update_self]
    · have hmn : Cell.next m ≠ .next n := by
        rintro ⟨rfl⟩
        exact hn hm
      rw [endCell_nil, Function.update_of_ne (h.ne_next hm).symm, Function.update_of_ne hmn]
  | cons k l₁ ih =>
    rw [List.cons_append, List.mem_cons, not_or] at hn
    have hkn : Cell.next k ≠ .next n := by
      rintro ⟨rfl⟩
      exact hn.1 rfl
    refine ⟨?_, ih h.2 hn.2 hkn⟩
    rw [Function.update_of_ne h.ne_endCell, Function.update_of_ne hc]
    exact h.1

/-- **Removal.** Writing the link of a node to the cell before the node takes it out. -/
theorem IsList.remove (h : IsList s c (l₁ ++ n :: l₂)) :
    IsList (Function.update s (endCell c l₁) (s (.next n))) c (l₁ ++ l₂) := by
  induction l₁ generalizing c with
  | nil =>
    refine IsList.congr h.2 (Function.update_self ..) fun m hm => ?_
    exact Function.update_of_ne (h.ne_next (List.mem_cons_of_mem _ hm)).symm _ _
  | cons k l₁ ih =>
    refine ⟨?_, ih h.2⟩
    rw [Function.update_of_ne h.ne_endCell]
    exact h.1

end Update

/-! ### Walks -/

/-- `while (*it != nullptr && go(*it)) it = &(*it)->next;` from the cell `c`: the cell at which the
loop ends, if it tests its condition at most `fuel` times. -/
def walk (s : Cell α → Option α) (go : α → Bool) : ℕ → Cell α → Option (Cell α)
  | 0, _ => none
  | fuel + 1, c =>
    match s c with
    | none => some c
    | some n => if go n then walk s go fuel (.next n) else some c

variable {go : α → Bool} {fuel : ℕ}

/-- On a list the loop ends, behind the longest part of it that passes the test. -/
theorem walk_isList (h : IsList s c l) (hfuel : l.length < fuel) :
    walk s go fuel c = some (endCell c (l.takeWhile go)) := by
  induction l generalizing c fuel with
  | nil =>
    obtain ⟨fuel, rfl⟩ := Nat.exists_eq_succ_of_ne_zero (Nat.ne_of_gt hfuel)
    simp [walk, isList_nil.1 h]
  | cons n l ih =>
    obtain ⟨fuel, rfl⟩ := Nat.exists_eq_succ_of_ne_zero (Nat.ne_of_gt (Nat.zero_lt_of_lt hfuel))
    rw [List.length_cons, Nat.succ_lt_succ_iff] at hfuel
    simp only [walk, h.1]
    split
    · next hgo => rw [ih h.2 hfuel, List.takeWhile_cons_of_pos hgo, endCell_cons]
    · next hgo => rw [List.takeWhile_cons_of_neg hgo, endCell_nil]

/-- A loop that has ended does not need more rounds. -/
theorem walk_mono {fuel' : ℕ} (h : walk s go fuel c = some d) (hle : fuel ≤ fuel') :
    walk s go fuel' c = some d := by
  induction fuel generalizing c fuel' with
  | zero => cases h
  | succ fuel ih =>
    obtain ⟨fuel', rfl⟩ := Nat.exists_eq_succ_of_ne_zero (n := fuel') (by omega)
    simp only [walk] at h ⊢
    split at h
    · exact h
    · split at h
      · next hgo =>
        rw [if_pos hgo]
        exact ih h (by omega)
      · next hgo =>
        rw [if_neg hgo]
        exact h

/-- Wherever the loop ends, that is where it stops. -/
theorem walk_eq_some (h : IsList s c l) (hw : walk s go fuel c = some d) :
    d = endCell c (l.takeWhile go) := by
  have hmax := walk_mono hw (Nat.le_max_left fuel (l.length + 1))
  rw [walk_isList h (by omega)] at hmax
  exact (Option.some.inj hmax).symm

end Links
