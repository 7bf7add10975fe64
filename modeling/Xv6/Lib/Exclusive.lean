import Mathlib

/-! Places that hold resources, and a register of the resources in use.
A place holds at most one resource, `0` when it is empty; the register is exact when it lists
what the places hold and no resource is held twice.
-/

namespace Xv6.Lib

variable {ι β : Type} [Zero β]

/-- No resource is held at two places, and the used resources are the held ones. -/
structure Exclusive (holds : ι → β) (used : β → Prop) : Prop where
  unique : ∀ i j, holds i ≠ 0 → holds i = holds j → i = j
  used_iff : ∀ b, used b ↔ b ≠ 0 ∧ ∃ i, holds i = b

namespace Exclusive

variable {holds holds' : ι → β} {used used' : β → Prop}

theorem used_of_holds (exclusive : Exclusive holds used) {i : ι} (full : holds i ≠ 0)
    : used (holds i) :=
  (exclusive.used_iff _).mpr ⟨full, i, rfl⟩

theorem congr (exclusive : Exclusive holds used) (sameHolds : ∀ i, holds' i = holds i)
    (sameUsed : ∀ b, used' b ↔ used b)
    : Exclusive holds' used' := by
  refine ⟨fun i j => ?_, fun b => ?_⟩
  · rw [sameHolds, sameHolds]
    exact exclusive.unique i j
  · simp only [sameHolds, sameUsed]
    exact exclusive.used_iff b

/-- Putting an unused resource into an empty place. -/
theorem assign (exclusive : Exclusive holds used) {i : ι} {b : β} (empty : holds i = 0)
    (nonzero : b ≠ 0) (unused : ¬used b)
    (there : holds' i = b) (elsewhere : ∀ j, j ≠ i → holds' j = holds j)
    (register : ∀ c, used' c ↔ c = b ∨ used c)
    : Exclusive holds' used' := by
  have away : ∀ j, j ≠ i → holds' j ≠ b := by
    intro j other same
    rw [elsewhere j other] at same
    exact unused (same ▸ exclusive.used_of_holds (same ▸ nonzero))
  constructor
  · intro j k full same
    rcases eq_or_ne j i with rfl | left <;> rcases eq_or_ne k j with rfl | right
    · rfl
    · exact absurd (same.symm.trans there) (away k right)
    · rfl
    · rcases eq_or_ne k i with rfl | farther
      · exact absurd (same.trans there) (away j left)
      · rw [elsewhere j left] at full same
        exact exclusive.unique j k full (same.trans (elsewhere k farther))
  · intro c
    rw [register, exclusive.used_iff]
    constructor
    · rintro (rfl | ⟨full, j, held⟩)
      · exact ⟨nonzero, i, there⟩
      · have other : j ≠ i := fun same => full (held ▸ same ▸ empty)
        exact ⟨full, j, (elsewhere j other).trans held⟩
    · rintro ⟨full, j, held⟩
      rcases eq_or_ne j i with rfl | other
      · exact .inl (held.symm.trans there)
      · exact .inr ⟨full, j, (elsewhere j other).symm.trans held⟩

/-- Emptying the places in `gone` and dropping what they held from the register. -/
theorem release (exclusive : Exclusive holds used) {gone : ι → Prop}
    (emptied : ∀ i, gone i → holds' i = 0) (kept : ∀ i, ¬gone i → holds' i = holds i)
    (register : ∀ b, used' b ↔ used b ∧ ∀ i, gone i → holds i ≠ b)
    : Exclusive holds' used' := by
  have stays : ∀ i, holds' i ≠ 0 → ¬gone i := fun i full left => full (emptied i left)
  constructor
  · intro i j full same
    have first := stays i full
    have second := stays j (same ▸ full)
    rw [kept i first] at full same
    exact exclusive.unique i j full (same.trans (kept j second))
  · intro b
    rw [register, exclusive.used_iff]
    constructor
    · rintro ⟨⟨full, i, held⟩, away⟩
      exact ⟨full, i, (kept i fun left => away i left held).trans held⟩
    · rintro ⟨full, i, held⟩
      have stay := stays i (held ▸ full)
      rw [kept i stay] at held
      refine ⟨⟨full, i, held⟩, fun j left same => stay ?_⟩
      exact exclusive.unique i j (held ▸ full) (held.trans same.symm) ▸ left

end Exclusive

end Xv6.Lib
