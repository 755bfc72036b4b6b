import Mathlib.Logic.Function.Basic
import Mathlib.Data.Option.Basic

/-!
# Exclusive ownership

Some resources are live, and every owner holds at most one resource. `Exact live holder` says that
the live resources are exactly those that are held, each by one owner; it is kept when a new
resource is acquired, a held one released or moved, and broken when an owner drops a live one.
-/

namespace Ownership

variable {ι κ χ : Type*} {live live' : ι → Prop} {holder holder' : χ → Option ι} {x y : χ} {i : ι}

/-- The live resources are exactly those that are held, each by one owner. -/
structure Exact (live : ι → Prop) (holder : χ → Option ι) : Prop where
  live_iff : ∀ i, live i ↔ ∃ x, holder x = some i
  once : ∀ {x y : χ} {i : ι}, holder x = some i → holder y = some i → x = y

theorem Exact.empty : Exact (fun _ : ι => False) fun _ : χ => none :=
  ⟨fun i => by simp, fun h => by cases h⟩

theorem Exact.congr (h : Exact live holder) (hlive : ∀ i, live' i ↔ live i)
    (hholder : holder' = holder) : Exact live' holder' := by
  subst hholder
  exact ⟨fun i => (hlive i).trans (h.live_iff i), h.once⟩

/-- Resources of another kind, each that of one live resource. -/
theorem Exact.bind {f : ι → Option κ} {used : κ → Prop} (h : Exact live holder)
    (hused : ∀ k, used k ↔ ∃ i, live i ∧ f i = some k)
    (hinj : ∀ {i j k}, live i → live j → f i = some k → f j = some k → i = j) :
    Exact used fun x => (holder x).bind f := by
  refine ⟨fun k => ?_, fun {x y k} hx hy => ?_⟩
  · rw [hused]
    constructor
    · rintro ⟨i, hi, hk⟩
      obtain ⟨x, hx⟩ := (h.live_iff i).1 hi
      exact ⟨x, Option.bind_eq_some_iff.2 ⟨i, hx, hk⟩⟩
    · rintro ⟨x, hx⟩
      obtain ⟨i, hi, hk⟩ := Option.bind_eq_some_iff.1 hx
      exact ⟨i, (h.live_iff i).2 ⟨x, hi⟩, hk⟩
  · obtain ⟨i, hi, hk⟩ := Option.bind_eq_some_iff.1 hx
    obtain ⟨j, hj, hk'⟩ := Option.bind_eq_some_iff.1 hy
    obtain rfl := hinj ((h.live_iff i).2 ⟨x, hi⟩) ((h.live_iff j).2 ⟨y, hj⟩) hk hk'
    exact h.once hi hj

variable [DecidableEq χ]

/-- What an owner holds after one of them was given something else. -/
theorem update_eq_some {k : Option ι} :
    Function.update holder x k y = some i ↔ y = x ∧ k = some i ∨ y ≠ x ∧ holder y = some i := by
  by_cases hyx : y = x
  · subst hyx
    simp
  · simp [hyx]

/-- An owner that holds nothing gets a resource that was not live. -/
theorem Exact.acquire (h : Exact live holder) (hx : holder x = none) (hi : ¬ live i)
    (hlive : ∀ j, live' j ↔ j = i ∨ live j) :
    Exact live' (Function.update holder x (some i)) := by
  have hfree : ∀ y, holder y ≠ some i := fun y hy => hi ((h.live_iff i).2 ⟨y, hy⟩)
  refine ⟨fun j => ?_, fun {y z j} hy hz => ?_⟩
  · rw [hlive, h.live_iff]
    constructor
    · rintro (rfl | ⟨y, hy⟩)
      · exact ⟨x, update_eq_some.2 (.inl ⟨rfl, rfl⟩)⟩
      · refine ⟨y, update_eq_some.2 (.inr ⟨?_, hy⟩)⟩
        rintro rfl
        rw [hx] at hy
        cases hy
    · rintro ⟨y, hy⟩
      rcases update_eq_some.1 hy with ⟨-, hj⟩ | ⟨-, hy⟩
      · exact .inl (Option.some.inj hj).symm
      · exact .inr ⟨y, hy⟩
  · rcases update_eq_some.1 hy with ⟨hyx, hj⟩ | ⟨-, hy'⟩ <;>
      rcases update_eq_some.1 hz with ⟨hzx, hj'⟩ | ⟨-, hz'⟩
    · rw [hyx, hzx]
    · exact absurd (hz'.trans hj.symm) (hfree z)
    · exact absurd (hy'.trans hj'.symm) (hfree y)
    · exact h.once hy' hz'

/-- An owner releases its resource. -/
theorem Exact.release (h : Exact live holder) (hx : holder x = some i)
    (hlive : ∀ j, live' j ↔ live j ∧ j ≠ i) : Exact live' (Function.update holder x none) := by
  have hkeep : ∀ {y j}, Function.update holder x none y = some j → y ≠ x ∧ holder y = some j := by
    intro y j hy
    rcases update_eq_some.1 hy with ⟨-, hj⟩ | hy
    · cases hj
    · exact hy
  refine ⟨fun j => ?_, fun hy hz => h.once (hkeep hy).2 (hkeep hz).2⟩
  rw [hlive, h.live_iff]
  constructor
  · rintro ⟨⟨y, hy⟩, hne⟩
    refine ⟨y, update_eq_some.2 (.inr ⟨?_, hy⟩)⟩
    rintro rfl
    exact hne (Option.some.inj (hy.symm.trans hx))
  · rintro ⟨y, hy⟩
    obtain ⟨hyx, hy⟩ := hkeep hy
    refine ⟨⟨y, hy⟩, ?_⟩
    rintro rfl
    exact hyx (h.once hy hx)

/-- An owner that holds nothing takes over what another one holds. -/
theorem Exact.move (h : Exact live holder) (hy : holder y = none) (hne : x ≠ y) :
    Exact live (Function.update (Function.update holder y (holder x)) x none) := by
  cases hx : holder x with
  | none =>
    refine h.congr (fun _ => Iff.rfl) ?_
    have hy' : Function.update holder y none = holder := Function.update_eq_self_iff.2 hy.symm
    rw [hy', Function.update_eq_self_iff.2 hx.symm]
  | some i =>
    -- released by one and acquired by the other
    have hrel : Exact (fun j => live j ∧ j ≠ i) (Function.update holder x none) :=
      h.release hx fun _ => Iff.rfl
    have hy' : Function.update holder x none y = none := by
      rw [Function.update_of_ne (Ne.symm hne), hy]
    have hlive : ∀ j, live j ↔ j = i ∨ live j ∧ j ≠ i := by
      intro j
      constructor
      · intro hj
        by_cases hji : j = i
        · exact .inl hji
        · exact .inr ⟨hj, hji⟩
      · rintro (rfl | hj)
        · exact (h.live_iff j).2 ⟨x, hx⟩
        · exact hj.1
    have hacq := hrel.acquire hy' (fun hi => hi.2 rfl) hlive
    rwa [Function.update_comm hne] at hacq

/-- An owner that gives up a resource which stays live: nobody holds that any more. -/
theorem Exact.dropped (h : Exact live holder) (hx : holder x = some i) (hi : live' i)
    {j : Option ι} (hj : j ≠ some i) : ¬ Exact live' (Function.update holder x j) := by
  intro h'
  obtain ⟨y, hy⟩ := (h'.live_iff i).1 hi
  rcases update_eq_some.1 hy with ⟨-, hj'⟩ | ⟨hyx, hy⟩
  · exact hj hj'
  · exact hyx (h.once hy hx)

end Ownership
