import Mathlib

/-! Sums of a local quantity over finitely many processes, one of which takes a step. -/

namespace Xv6.Lib

variable {ι κ : Type} [Fintype ι]

/-- The total of a local quantity over all processes. -/
def total (weight : κ → Nat) (state : ι → κ) : Nat := ∑ p, weight (state p)

/-- Changing one process exchanges its old share of the total for its new one. -/
theorem total_update [DecidableEq ι] (weight : κ → Nat) (state : ι → κ) (p : ι) (next : κ)
    : total weight (Function.update state p next) + weight (state p)
      = total weight state + weight next := by
  have new : total weight (Function.update state p next)
      = weight next + ∑ q ∈ Finset.univ.erase p, weight (state q) := by
    rw [total, ← Finset.add_sum_erase _ _ (Finset.mem_univ p), Function.update_self]
    congr 1
    apply Finset.sum_congr rfl
    intro q member
    rw [Function.update_of_ne (Finset.ne_of_mem_erase member)]
  have old : total weight state
      = weight (state p) + ∑ q ∈ Finset.univ.erase p, weight (state q) :=
    (Finset.add_sum_erase _ _ (Finset.mem_univ p)).symm
  omega

theorem le_total (weight : κ → Nat) (state : ι → κ) (p : ι)
    : weight (state p) ≤ total weight state :=
  Finset.single_le_sum (f := fun q => weight (state q)) (fun _ _ => Nat.zero_le _)
    (Finset.mem_univ p)

/-- Two processes have no more than the total between them. -/
theorem add_le_total [DecidableEq ι] (weight : κ → Nat) (state : ι → κ) {p q : ι} (apart : p ≠ q)
    : weight (state p) + weight (state q) ≤ total weight state := by
  have rest : weight (state q) ≤ ∑ r ∈ Finset.univ.erase p, weight (state r) :=
    Finset.single_le_sum (f := fun r => weight (state r)) (fun _ _ => Nat.zero_le _)
      (Finset.mem_erase.mpr ⟨apart.symm, Finset.mem_univ q⟩)
  have split : total weight state
      = weight (state p) + ∑ r ∈ Finset.univ.erase p, weight (state r) :=
    (Finset.add_sum_erase _ _ (Finset.mem_univ p)).symm
  omega

theorem total_mono {left right : κ → Nat} (le : ∀ value, left value ≤ right value)
    (state : ι → κ)
    : total left state ≤ total right state :=
  Finset.sum_le_sum (fun p _ => le (state p))

theorem total_mul (factor : Nat) (weight : κ → Nat) (state : ι → κ)
    : total (fun value => factor * weight value) state = factor * total weight state :=
  Finset.mul_sum _ _ _ |>.symm

theorem total_eq_zero {weight : κ → Nat} {state : ι → κ} (zero : total weight state = 0)
    (p : ι)
    : weight (state p) = 0 := by
  have bound := le_total weight state p
  omega

end Xv6.Lib
