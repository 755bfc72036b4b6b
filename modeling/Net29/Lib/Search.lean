import Mathlib.Data.List.Infix
import Mathlib.Tactic.Common

/-!
# Searching a list for a pattern

The first occurrence of a pattern in a list, and how it is found when the list comes in pieces.

* `Occurs p l i`: the pattern stands at position `i`;
* `search p l`: the position of the first occurrence, or the length of `l`;
* `search_append_of_found`, `search_drop_append`: what is appended does not change an occurrence,
  and the last `p.length - 1` elements suffice to find the next one.
-/

namespace Search

variable {α : Type*} {p l r : List α} {i j k : ℕ}

/-- The pattern stands at position `i`. -/
def Occurs (p l : List α) (i : ℕ) : Prop := p <+: l.drop i

theorem Occurs.length_le (h : Occurs p l i) (hp : p ≠ []) : i + p.length ≤ l.length := by
  have hlen := List.IsPrefix.length_le h
  have hpos := List.length_pos_iff.2 hp
  rw [List.length_drop] at hlen
  omega

/-- What comes later does not matter. -/
theorem Occurs.append (h : Occurs p l i) (r : List α) : Occurs p (l ++ r) i := by
  unfold Occurs
  rw [List.drop_append]
  exact h.trans (List.prefix_append _ _)

/-- An occurrence that ends in the first part. -/
theorem Occurs.of_append (h : Occurs p (l ++ r) i) (hlen : i + p.length ≤ l.length) :
    Occurs p l i := by
  unfold Occurs at h ⊢
  rw [List.drop_append_of_le_length (by omega)] at h
  exact List.prefix_of_prefix_length_le h (List.prefix_append _ _)
    (by rw [List.length_drop]; omega)

theorem occurs_drop : Occurs p (l.drop k) i ↔ Occurs p l (k + i) := by
  rw [Occurs, Occurs, List.drop_drop]

variable [DecidableEq α]

/-- The position of the first occurrence, or the end of the list. -/
def search (p : List α) : List α → ℕ
  | [] => 0
  | a :: l => if p <+: a :: l then 0 else search p l + 1

theorem search_le (p l : List α) : search p l ≤ l.length := by
  induction l with
  | nil => exact Nat.le_refl 0
  | cons a l ih =>
    rw [search]
    split_ifs
    · exact Nat.zero_le _
    · exact Nat.succ_le_succ ih

theorem occurs_search (h : search p l < l.length) : Occurs p l (search p l) := by
  induction l with
  | nil => exact absurd h (Nat.lt_irrefl 0)
  | cons a l ih =>
    rw [search] at h ⊢
    split_ifs at h ⊢ with hp
    · exact hp
    · exact ih (Nat.lt_of_succ_lt_succ h)

theorem not_occurs_of_lt_search (h : i < search p l) : ¬ Occurs p l i := by
  induction l generalizing i with
  | nil => exact absurd h (Nat.not_lt_zero i)
  | cons a l ih =>
    rw [search] at h
    split_ifs at h with hp
    · exact absurd h (Nat.not_lt_zero i)
    · cases i with
      | zero => exact hp
      | succ i => exact ih (Nat.lt_of_succ_lt_succ h)

/-- There is only one first occurrence. -/
theorem search_eq (hi : Occurs p l i) (hlen : i ≤ l.length) (hbefore : ∀ j < i, ¬ Occurs p l j) :
    search p l = i := by
  rcases Nat.lt_trichotomy (search p l) i with hlt | heq | hgt
  · exact absurd (occurs_search (hlt.trans_le hlen)) (hbefore _ hlt)
  · exact heq
  · exact absurd hi (not_occurs_of_lt_search hgt)

theorem search_eq_length_iff (hp : p ≠ []) : search p l = l.length ↔ ∀ i, ¬ Occurs p l i := by
  have hpos := List.length_pos_iff.2 hp
  constructor
  · intro h i hi
    have hlen := hi.length_le hp
    exact not_occurs_of_lt_search (by omega) hi
  · intro h
    refine Nat.le_antisymm (search_le p l) (Nat.le_of_not_lt fun hlt => ?_)
    exact h _ (occurs_search hlt)

theorem search_lt_iff (hp : p ≠ []) : search p l < l.length ↔ ∃ i, Occurs p l i := by
  constructor
  · exact fun h => ⟨_, occurs_search h⟩
  · rintro ⟨i, hi⟩
    refine Nat.lt_of_le_of_ne (search_le p l) fun heq => ?_
    exact (search_eq_length_iff hp).1 heq i hi

/-- An occurrence that was found stays the first. -/
theorem search_append_of_found (h : search p l < l.length) (r : List α) (hp : p ≠ []) :
    search p (l ++ r) = search p l := by
  have hfound := occurs_search h
  refine search_eq (hfound.append r) (by rw [List.length_append]; omega) fun j hj hocc => ?_
  have hlen := hfound.length_le hp
  exact not_occurs_of_lt_search hj (hocc.of_append (by omega))

/-- No occurrence begins before the last `p.length - 1` elements of a list without one. -/
theorem search_drop_append (h : search p l = l.length) (hp : p ≠ [])
    (hk : k + p.length ≤ l.length + 1) (r : List α) :
    search p (l ++ r) = k + search p (l.drop k ++ r) := by
  have hpos := List.length_pos_iff.2 hp
  have hnone := (search_eq_length_iff hp).1 h
  have hkl : k ≤ l.length := by omega
  have hearly : ∀ j < k, ¬ Occurs p (l ++ r) j := fun j hj hocc =>
    hnone j (hocc.of_append (by omega))
  have hshift : ∀ j, Occurs p (l.drop k ++ r) j ↔ Occurs p (l ++ r) (k + j) := by
    intro j
    rw [← occurs_drop, List.drop_append_of_le_length hkl]
  by_cases hfound : ∃ i, Occurs p (l.drop k ++ r) i
  · have hlt := (search_lt_iff hp).2 hfound
    have hocc := (hshift _).1 (occurs_search hlt)
    refine search_eq hocc ?_ fun j hj => ?_
    · rw [List.length_append, List.length_drop] at hlt
      rw [List.length_append]
      omega
    · by_cases hjk : j < k
      · exact hearly j hjk
      · obtain ⟨d, rfl⟩ := Nat.exists_eq_add_of_le (Nat.le_of_not_lt hjk)
        rw [← hshift]
        exact not_occurs_of_lt_search (by omega)
  · have hright := (search_eq_length_iff hp).2 (not_exists.1 hfound)
    have hleft : search p (l ++ r) = (l ++ r).length := by
      refine (search_eq_length_iff hp).2 fun j hocc => ?_
      by_cases hjk : j < k
      · exact hearly j hjk hocc
      · obtain ⟨d, rfl⟩ := Nat.exists_eq_add_of_le (Nat.le_of_not_lt hjk)
        exact hfound ⟨d, (hshift d).2 hocc⟩
    rw [hright, hleft, List.length_append, List.length_append, List.length_drop]
    omega

end Search
