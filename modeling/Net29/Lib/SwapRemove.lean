import Mathlib.Data.List.Perm.Basic
import Mathlib.Data.List.Zip
import Mathlib.Tactic.Ring

/-!
# Removing an entry by moving the last one into its place

Removal in constant time from an unordered vector: the last entry overwrites the one at `i`, then
the vector is shortened by one. The order of the others changes, their multiset does not, and two
parallel vectors stay parallel when both are treated alike.
-/

namespace SwapRemove

variable {α β : Type*}

/-- Entry `i` overwritten by the last entry. -/
def overwrite (l : List α) (i : ℕ) : List α :=
  match l.getLast? with
  | some b => l.set i b
  | none => l

/-- Entry `i` removed by overwriting it with the last entry and dropping that one. -/
def swapRemove (l : List α) (i : ℕ) : List α := (overwrite l i).dropLast

@[simp] theorem length_overwrite (l : List α) (i : ℕ) : (overwrite l i).length = l.length := by
  unfold overwrite; split <;> simp

@[simp] theorem length_swapRemove (l : List α) (i : ℕ) :
    (swapRemove l i).length = l.length - 1 := by simp [swapRemove]

/-- Overwriting the last entry by itself changes nothing. -/
theorem overwrite_last (l : List α) {i : ℕ} (hi : i + 1 = l.length) : overwrite l i = l := by
  unfold overwrite
  split
  · next b hb =>
    apply List.ext_getElem (by simp)
    intro j h₁ h₂
    rw [List.getElem_set]
    split_ifs with hij
    · subst hij
      rw [List.getLast?_eq_getElem?, show l.length - 1 = i by omega,
        List.getElem?_eq_getElem h₂] at hb
      exact (Option.some.inj hb).symm
    · rfl
  · rfl

/-- The removed entry and the remaining ones are the entries there were. -/
theorem perm_cons_swapRemove (l : List α) {i : ℕ} (hi : i < l.length) :
    l.Perm (l[i] :: swapRemove l i) := by
  obtain ⟨init, b, rfl⟩ : ∃ init b, l = init ++ [b] :=
    ⟨l.dropLast, l.getLast (by rintro rfl; simp at hi), (List.dropLast_append_getLast _).symm⟩
  simp only [swapRemove, overwrite, List.getLast?_concat]
  rcases Nat.lt_or_ge i init.length with hlt | hge
  · rw [List.set_append_left _ _ hlt, List.dropLast_concat, List.getElem_append_left hlt]
    have hset : (init.set i b).Perm (b :: init.eraseIdx i) := List.set_perm_cons_eraseIdx hlt b
    have hget : (init[i] :: init.eraseIdx i).Perm init := List.getElem_cons_eraseIdx_perm hlt
    refine (List.perm_append_singleton b init).trans ?_
    refine (hget.symm.cons b).trans ?_
    exact (List.Perm.swap _ _ _).trans (hset.symm.cons _)
  · have hlen : i = init.length := by simp at hi; omega
    subst hlen
    simp [List.set_append_right, List.perm_append_singleton]

theorem mem_of_mem_swapRemove {l : List α} {i : ℕ} {a : α} (h : a ∈ swapRemove l i) : a ∈ l := by
  rcases Nat.lt_or_ge i l.length with hi | hi
  · exact (perm_cons_swapRemove l hi).mem_iff.2 (List.mem_cons_of_mem _ h)
  · have hover : overwrite l i = l := by
      unfold overwrite; split
      · exact List.set_eq_of_length_le hi
      · rfl
    rw [swapRemove, hover] at h
    exact List.dropLast_subset l h

/-- What stands before the entry removed stays where it is. -/
theorem take_swapRemove {l : List α} {i k : ℕ} (hk : k ≤ i) (hi : i < l.length) :
    (swapRemove l i).take k = l.take k := by
  have hover : (overwrite l i).take k = l.take k := by
    unfold overwrite
    split
    · exact List.take_set_of_le hk
    · rfl
  rw [swapRemove, List.dropLast_eq_take, List.take_take, length_overwrite,
    Nat.min_eq_left (by omega), hover]

/-- What stands behind is what stands there afterwards, and the entry removed. -/
theorem perm_drop_swapRemove {l : List α} {i k : ℕ} (hk : k ≤ i) (hi : i < l.length) :
    (l.drop k).Perm (l[i] :: (swapRemove l i).drop k) := by
  have hrest : swapRemove l i = l.take k ++ (swapRemove l i).drop k := by
    rw [← take_swapRemove hk hi, List.take_append_drop]
  have hperm : (l.take k ++ l.drop k).Perm (l.take k ++ l[i] :: (swapRemove l i).drop k) := by
    rw [List.take_append_drop]
    refine (perm_cons_swapRemove l hi).trans ?_
    exact (List.Perm.of_eq (congrArg (l[i] :: ·) hrest)).trans List.perm_middle.symm
  exact (List.perm_append_left_iff _).1 hperm

theorem map_overwrite (f : α → β) (l : List α) (i : ℕ) :
    (overwrite l i).map f = overwrite (l.map f) i := by
  unfold overwrite
  cases h : l.getLast? with
  | none => simp [List.getLast?_map, h]
  | some b => simp [List.getLast?_map, h, List.map_set]

theorem map_swapRemove (f : α → β) (l : List α) (i : ℕ) :
    (swapRemove l i).map f = swapRemove (l.map f) i := by
  rw [swapRemove, List.map_dropLast, map_overwrite, swapRemove]

/-- Two parallel vectors stay parallel: removing in both is removing the pair. -/
theorem zip_swapRemove (l : List α) (k : List β) (h : l.length = k.length) (i : ℕ) :
    (swapRemove l i).zip (swapRemove k i) = swapRemove (l.zip k) i := by
  have hl : (l.zip k).map Prod.fst = l := List.map_fst_zip h.le
  have hk : (l.zip k).map Prod.snd = k := List.map_snd_zip h.ge
  calc (swapRemove l i).zip (swapRemove k i)
      = ((swapRemove (l.zip k) i).map Prod.fst).zip ((swapRemove (l.zip k) i).map Prod.snd) := by
        rw [map_swapRemove, map_swapRemove, hl, hk]
    _ = swapRemove (l.zip k) i := by
        rw [← List.unzip_fst, ← List.unzip_snd, List.zip_unzip]

/-- What holds of the pairs of two parallel vectors holds after a pair was removed. -/
theorem forall₂_swapRemove {R : α → β → Prop} {l : List α} {k : List β} (h : List.Forall₂ R l k)
    (i : ℕ) : List.Forall₂ R (swapRemove l i) (swapRemove k i) := by
  obtain ⟨hlen, hR⟩ := List.forall₂_iff_zip.1 h
  refine List.forall₂_iff_zip.2 ⟨by rw [length_swapRemove, length_swapRemove, hlen], ?_⟩
  intro a b hab
  rw [zip_swapRemove l k hlen i] at hab
  exact hR (mem_of_mem_swapRemove hab)

end SwapRemove
