import Mathlib.Algebra.BigOperators.Group.Finset.Basic
import Mathlib.Algebra.Order.BigOperators.Group.Finset
import Mathlib.Data.Fintype.BigOperators

/-!
# Counting the parties of a protocol

A counter that parties in phases `β` share is the sum of what their phases count, `w : β → ℕ`.

* `tally w f`: the sum over the phases `f` of all parties;
* `tally_update`: one party moves on;
* `tally_eq_card_iff`: a counter that has reached the number of parties has been counted up by all.
-/

namespace Tally

variable {ι β : Type*} [Fintype ι] {w : β → ℕ} {f : ι → β}

/-- What the phases of all parties count. -/
def tally (w : β → ℕ) (f : ι → β) : ℕ := ∑ i, w (f i)

theorem tally_eq_zero_iff : tally w f = 0 ↔ ∀ i, w (f i) = 0 := by
  simp [tally]

theorem tally_const {b : β} (hb : w b = 0) : tally w (fun _ : ι => b) = 0 :=
  tally_eq_zero_iff.2 fun _ => hb

/-- A party moves from one phase to another. -/
theorem tally_update [DecidableEq ι] (w : β → ℕ) (f : ι → β) (i : ι) (b : β) :
    tally w (Function.update f i b) + w (f i) = tally w f + w b := by
  have hnew := Finset.add_sum_erase Finset.univ (fun j => w (Function.update f i b j))
    (Finset.mem_univ i)
  have hold := Finset.add_sum_erase Finset.univ (fun j => w (f j)) (Finset.mem_univ i)
  have hrest : ∑ j ∈ Finset.univ.erase i, w (Function.update f i b j) =
      ∑ j ∈ Finset.univ.erase i, w (f j) := by
    refine Finset.sum_congr rfl fun j hj => ?_
    rw [Function.update_of_ne (Finset.ne_of_mem_erase hj)]
  simp only [Function.update_self] at hnew
  unfold tally
  omega

/-- Every party has counted. -/
theorem tally_eq_card_iff (hw : ∀ b, w b ≤ 1) :
    tally w f = Fintype.card ι ↔ ∀ i, w (f i) = 1 := by
  constructor
  · intro h i
    by_contra hi
    have hlt : ∑ i, w (f i) < ∑ _i : ι, 1 :=
      Finset.sum_lt_sum (fun j _ => hw (f j)) ⟨i, Finset.mem_univ i, by have := hw (f i); omega⟩
    rw [← Finset.card_eq_sum_ones, Finset.card_univ] at hlt
    exact absurd h (Nat.ne_of_lt hlt)
  · intro h
    simp [tally, h]

end Tally
