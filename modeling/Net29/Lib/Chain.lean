import Mathlib.Data.List.Nodup

/-!
# Chains of links

`Chain next a l b`: starting at `a` and following the links `next`, the cells visited are exactly
`l`, in order, and the walk ends at `b`. A chain only depends on the links of the cells it visits.
-/

namespace Links

variable {α : Type*}

/-- Following `next` from `a` visits the cells `l` and ends at `b`. -/
inductive Chain (next : α → Option α) : α → List α → α → Prop
  | nil (a : α) : Chain next a [] a
  | cons {a a' b : α} {l : List α} (h : next a = some a') (hl : Chain next a' l b) :
      Chain next a (a :: l) b

variable {next next' : α → Option α} {a b : α} {l : List α}

/-- Cells outside the chain may be relinked. -/
theorem Chain.congr (h : Chain next a l b) (heq : ∀ x ∈ l, next' x = next x) :
    Chain next' a l b := by
  induction h with
  | nil a => exact .nil a
  | cons hn _ ih =>
    refine .cons ?_ (ih fun x hx => heq x (List.mem_cons_of_mem _ hx))
    rw [heq _ List.mem_cons_self, hn]

/-- A chain that does not start at its end visits its start first. -/
theorem Chain.uncons (h : Chain next a l b) (hne : a ≠ b) :
    ∃ a' l', l = a :: l' ∧ next a = some a' ∧ Chain next a' l' b := by
  cases h with
  | nil => exact absurd rfl hne
  | cons hn hl => exact ⟨_, _, rfl, hn, hl⟩

end Links
