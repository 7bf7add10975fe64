import Mathlib

/-! Places that each hold at most one occupant, such that exactly the active ones have a place. -/

namespace Xv6.Lib

open Function (update update_self update_of_ne)

variable {κ π : Type}

/-- Every place is empty or holds an active occupant, and every active one has just one place. -/
structure Occupied (place : κ → Option π) (active : π → Prop) : Prop where
  busy : ∀ c p, place c = some p → active p
  apart : ∀ c d p, place c = some p → place d = some p → c = d
  placed : ∀ p, active p → ∃ c, place c = some p

namespace Occupied

variable {place : κ → Option π} {active after : π → Prop} {c : κ} {p : π}

theorem congr (occupied : Occupied place active) (same : ∀ q, after q ↔ active q)
    : Occupied place after :=
  ⟨fun c p holds => (same p).mpr (occupied.busy c p holds), occupied.apart,
    fun p isActive => occupied.placed p ((same p).mp isActive)⟩

variable [DecidableEq κ]

/-- One that was not active takes an empty place. -/
theorem enter (occupied : Occupied place active) (empty : place c = none) (inactive : ¬ active p)
    (same : ∀ q, after q ↔ q = p ∨ active q)
    : Occupied (update place c (some p)) after := by
  have elsewhere : ∀ d, place d ≠ some p := fun d holds => inactive (occupied.busy d p holds)
  refine ⟨fun d q holds => (same q).mpr ?_, fun d e q first second => ?_, fun q isActive => ?_⟩
  · by_cases here : d = c
    · subst here
      rw [update_self] at holds
      exact .inl (Option.some.inj holds).symm
    · rw [update_of_ne here] at holds
      exact .inr (occupied.busy d q holds)
  · by_cases here : d = c
    · by_cases there : e = c
      · rw [here, there]
      · rw [here, update_self] at first
        rw [update_of_ne there, ← first] at second
        exact absurd second (elsewhere e)
    · rw [update_of_ne here] at first
      by_cases there : e = c
      · rw [there, update_self, ← first] at second
        exact absurd second.symm (elsewhere d)
      · rw [update_of_ne there] at second
        exact occupied.apart d e q first second
  · rcases (same q).mp isActive with rfl | before
    · exact ⟨c, update_self ..⟩
    · obtain ⟨d, holds⟩ := occupied.placed q before
      have other : d ≠ c := fun here => by
        rw [here, empty] at holds
        cases holds
      exact ⟨d, by rw [update_of_ne other, holds]⟩

/-- The occupant of a place leaves it and is active no more. -/
theorem leave (occupied : Occupied place active) (holds : place c = some p)
    (same : ∀ q, after q ↔ q ≠ p ∧ active q)
    : Occupied (update place c none) after := by
  have kept : ∀ d q, update place c none d = some q → d ≠ c ∧ place d = some q := by
    intro d q there
    by_cases here : d = c
    · rw [here, update_self] at there
      cases there
    · exact ⟨here, by rwa [update_of_ne here] at there⟩
  refine ⟨fun d q there => (same q).mpr ?_, fun d e q first second => ?_, fun q isActive => ?_⟩
  · obtain ⟨other, before⟩ := kept d q there
    refine ⟨fun isSelf => other ?_, occupied.busy d q before⟩
    exact occupied.apart d c p (isSelf ▸ before) holds
  · exact occupied.apart d e q (kept d q first).2 (kept e q second).2
  · obtain ⟨different, before⟩ := (same q).mp isActive
    obtain ⟨d, there⟩ := occupied.placed q before
    have other : d ≠ c := fun here => by
      rw [here, holds] at there
      exact different (Option.some.inj there).symm
    exact ⟨d, by rw [update_of_ne other, there]⟩

end Occupied

end Xv6.Lib
