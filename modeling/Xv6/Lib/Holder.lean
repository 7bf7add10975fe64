import Mathlib

/-! A lock of processes that move from phase to phase, where the phase of a process says whether
it holds the lock.
-/

namespace Xv6.Lib

variable {π φ : Type}

/-- The holder of the lock, if any, is the one process in a phase with the lock. -/
def HeldBy (holds : φ → Bool) (phase : π → φ) (lock : Option π) : Prop :=
  ∀ p, holds (phase p) = true ↔ lock = some p

namespace HeldBy

variable {holds : φ → Bool} {phase : π → φ} {lock : Option π} {p q : π} {next : φ}

/-- Two processes in phases with the lock are the same. -/
theorem unique (held : HeldBy holds phase lock) (first : holds (phase p) = true)
    (second : holds (phase q) = true)
    : p = q :=
  Option.some.inj (((held p).mp first).symm.trans ((held q).mp second))

theorem not_holds (held : HeldBy holds phase none) (p : π) : holds (phase p) ≠ true :=
  fun has => by cases (held p).mp has

variable [DecidableEq π]

/-- A move between two phases with the lock, or between two without it. -/
theorem move (held : HeldBy holds phase lock) (same : holds next = holds (phase p))
    : HeldBy holds (Function.update phase p next) lock := by
  intro q
  rcases eq_or_ne q p with rfl | other
  · rw [Function.update_self, same]
    exact held q
  · rw [Function.update_of_ne other]
    exact held q

theorem acquire (held : HeldBy holds phase none) (has : holds next = true)
    : HeldBy holds (Function.update phase p next) (some p) := by
  intro q
  rcases eq_or_ne q p with rfl | other
  · simp [has]
  · rw [Function.update_of_ne other]
    exact iff_of_false (held.not_holds q) fun same => other (Option.some.inj same).symm

theorem release (held : HeldBy holds phase lock) (had : holds (phase p) = true)
    (without : holds next = false)
    : HeldBy holds (Function.update phase p next) none := by
  intro q
  rcases eq_or_ne q p with rfl | other
  · simp [without]
  · rw [Function.update_of_ne other]
    exact iff_of_false (fun has => other (held.unique has had)) (by simp)

end HeldBy

end Xv6.Lib
