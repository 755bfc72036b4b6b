import Net29.Repeat.State
import Mathlib.Data.List.Nodup

/-!
# `merge_completion_signatures`

A list of completion signatures is the list of its template arguments. The list is merged into
another one signature after the other, and lists are merged from the left.

* `mergeCompletionSignatures` with the recursions it uses;
* `IsUnion`: the union without duplicates, in the order of first occurrence;
* `getCompletionSignatures` of `repeat_effect_until`;
* `merged_once_iff`: the merged list is that union only when there is nothing to leave out.
-/

namespace Net29
namespace RepeatEffectUntil

section Merge

variable {σ : Type}

/-- The specialisation of `merge_completion_signatures_unique` for one signature. Its condition is
the constant `false`. -/
def mergeCompletionSignaturesUniqueOne (s₀ : List σ) (s₁ : σ) : List σ :=
  if false then s₀ else s₀ ++ [s₁]

/-- `merge_completion_signatures_unique`. -/
def mergeCompletionSignaturesUnique (s₀ : List σ) : List σ → List σ
  | [] => s₀
  | s₁ :: s₂ => mergeCompletionSignaturesUnique (mergeCompletionSignaturesUniqueOne s₀ s₁) s₂

/-- `merge_completion_signatures_helper`: the first two lists are merged, and the result with the
next one. -/
def mergeCompletionSignaturesHelper (s₀ s₁ : List σ) : List (List σ) → List σ
  | [] => mergeCompletionSignaturesUnique s₀ s₁
  | s₂ :: sigs => mergeCompletionSignaturesHelper (mergeCompletionSignaturesUnique s₀ s₁) s₂ sigs

/-- `merge_completion_signatures`, which is ill-formed for less than two lists. -/
def mergeCompletionSignatures : List (List σ) → Option (List σ)
  | s₀ :: s₁ :: sigs => some (mergeCompletionSignaturesHelper s₀ s₁ sigs)
  | _ => none

/-- The merged list has the signatures that occur in an input, each once, in the order of their
first occurrences. -/
structure IsUnion [DecidableEq σ] (sigs : List (List σ)) (merged : List σ) : Prop where
  mem_iff : ∀ s, s ∈ merged ↔ ∃ l ∈ sigs, s ∈ l
  nodup : merged.Nodup
  order : ∀ s ∈ merged, ∀ t ∈ merged,
    merged.idxOf s < merged.idxOf t → sigs.flatten.idxOf s < sigs.flatten.idxOf t

@[simp] theorem mergeCompletionSignaturesUnique_eq (s₀ s₁ : List σ) :
    mergeCompletionSignaturesUnique s₀ s₁ = s₀ ++ s₁ := by
  induction s₁ generalizing s₀ with
  | nil => simp [mergeCompletionSignaturesUnique]
  | cons s s₁ ih => simp [mergeCompletionSignaturesUnique, mergeCompletionSignaturesUniqueOne, ih]

@[simp] theorem mergeCompletionSignaturesHelper_eq (s₀ s₁ : List σ) (sigs : List (List σ)) :
    mergeCompletionSignaturesHelper s₀ s₁ sigs = (s₀ :: s₁ :: sigs).flatten := by
  induction sigs generalizing s₀ s₁ with
  | nil => simp [mergeCompletionSignaturesHelper]
  | cons s₂ sigs ih => simp [mergeCompletionSignaturesHelper, ih]

theorem mergeCompletionSignatures_eq (s₀ s₁ : List σ) (sigs : List (List σ)) :
    mergeCompletionSignatures (s₀ :: s₁ :: sigs) = some (s₀ :: s₁ :: sigs).flatten := by
  rw [mergeCompletionSignatures, mergeCompletionSignaturesHelper_eq]

/-- One list after the other is the union only when no signature occurs twice. -/
theorem isUnion_flatten_iff [DecidableEq σ] {sigs : List (List σ)} :
    IsUnion sigs sigs.flatten ↔ sigs.flatten.Nodup := by
  constructor
  · exact IsUnion.nodup
  · intro hnodup
    exact ⟨fun s => List.mem_flatten, hnodup, fun s _ t _ hlt => hlt⟩

end Merge

/-- Signatures: completions, told apart by the types of their errors. -/
abbrev Signature (T : Type) := Completion T

/-- `get_completion_signatures` of the sender, for the error types of the body and of the upstream
sender, whether one of them sends `set_stopped`, and whether the predicate is `noexcept`. -/
def getCompletionSignatures {T : Type} (exceptionPtr : T) (body upstream : List T)
    (sendsStopped nothrow : Bool) : Option (List (Signature T)) :=
  mergeCompletionSignatures
    [[.value],
      body.map .error,
      upstream.map .error,
      if sendsStopped then [.stopped] else [],
      if nothrow then [] else [.error exceptionPtr]]

section Signatures

variable {T : Type} {exceptionPtr : T} {body upstream : List T} {sendsStopped nothrow : Bool}

/-- The error types in the order in which they are merged. -/
def errorTypes (exceptionPtr : T) (body upstream : List T) (nothrow : Bool) : List T :=
  body ++ upstream ++ if nothrow then [] else [exceptionPtr]

/-- What is declared: `set_value`, possibly `set_stopped`, and the errors. -/
theorem getCompletionSignatures_eq_some {sigs : List (Signature T)}
    (h : getCompletionSignatures exceptionPtr body upstream sendsStopped nothrow = some sigs) :
    sigs.Perm (.value :: (if sendsStopped then [.stopped] else []) ++
      (errorTypes exceptionPtr body upstream nothrow).map .error) := by
  rw [getCompletionSignatures, mergeCompletionSignatures_eq, Option.some.injEq] at h
  subst h
  have hptr : (if nothrow then [] else [.error exceptionPtr] : List (Signature T)) =
      (if nothrow then [] else [exceptionPtr]).map .error := by
    cases nothrow <;> rfl
  simp only [List.flatten_cons, List.flatten_nil, List.append_nil, List.nil_append, hptr,
    errorTypes, List.map_append, List.append_assoc, List.cons_append]
  refine List.Perm.cons _ ?_
  have hstopped := List.perm_append_comm_assoc (upstream.map .error)
    (if sendsStopped then [.stopped] else [] : List (Signature T))
    ((if nothrow then [] else [exceptionPtr]).map .error)
  exact (hstopped.append_left _).trans (List.perm_append_comm_assoc ..)

/-- Each completion is declared once exactly when the error types are different. -/
theorem getCompletionSignatures_nodup_iff {sigs : List (Signature T)}
    (h : getCompletionSignatures exceptionPtr body upstream sendsStopped nothrow = some sigs) :
    sigs.Nodup ↔ (errorTypes exceptionPtr body upstream nothrow).Nodup := by
  have hinj : Function.Injective (Completion.error : T → Signature T) := by
    intro a b hab
    cases hab
    rfl
  rw [(getCompletionSignatures_eq_some h).nodup_iff,
    ← List.nodup_map_iff (l := errorTypes exceptionPtr body upstream nothrow) hinj]
  cases sendsStopped <;> simp

end Signatures

/-- **The merged list is a union without duplicates exactly when no signature occurs twice in the
inputs.** A signature is added even when it is there already. So `repeat_effect_until` declares each
completion once exactly when the error types of the body, of the upstream sender and of a predicate
that may throw are all different. -/
theorem merged_once_iff {σ T : Type} [DecidableEq σ] (s₀ s₁ : List σ) (sigs : List (List σ))
    (exceptionPtr : T) (body upstream : List T) (sendsStopped nothrow : Bool) :
    ((∃ merged, mergeCompletionSignatures (s₀ :: s₁ :: sigs) = some merged ∧
        IsUnion (s₀ :: s₁ :: sigs) merged) ↔ (s₀ :: s₁ :: sigs).flatten.Nodup) ∧
    ((∃ declared,
        getCompletionSignatures exceptionPtr body upstream sendsStopped nothrow = some declared ∧
        declared.Nodup) ↔ (errorTypes exceptionPtr body upstream nothrow).Nodup) := by
  constructor
  · rw [mergeCompletionSignatures_eq]
    simp only [Option.some.injEq, exists_eq_left']
    exact isUnion_flatten_iff
  · have hsome : getCompletionSignatures exceptionPtr body upstream sendsStopped nothrow =
        some _ := mergeCompletionSignatures_eq ..
    rw [← getCompletionSignatures_nodup_iff hsome, hsome]
    simp only [Option.some.injEq, exists_eq_left']

/-- Two lists that share a signature, and a body and an upstream sender that share an error type. -/
theorem not_merged_once :
    (¬ ∀ (sigs : List (List (Signature ℕ))), 2 ≤ sigs.length →
      ∃ merged, mergeCompletionSignatures sigs = some merged ∧ IsUnion sigs merged) ∧
    ¬ ∃ declared, getCompletionSignatures 0 [1] [1] false true = some declared ∧
      declared.Nodup := by
  constructor
  · intro h
    obtain ⟨merged, hmerged, hunion⟩ := h [[.error 1], [.error 1]] (by decide)
    cases hmerged
    exact absurd hunion.nodup (by decide)
  · rintro ⟨declared, hdeclared, hnodup⟩
    cases hdeclared
    exact absurd hnodup (by decide)

end RepeatEffectUntil
end Net29
