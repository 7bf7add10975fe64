import Xv6.Sched.Policy

/-! The generator behind `random`: no component runs dry, although its shift to the right is
arithmetic and copies the sign.
-/

namespace Xv6.Sched

/-- The initial values of the components. -/
def Lfsr.start : Lfsr := ⟨12345, 12345, 12345, 12345⟩

/-- Some bit from bit `low` on is set. -/
def Above (low : Nat) (z : Int32) : Prop := ∃ k, low ≤ k ∧ z.toBitVec.getLsbD k = true

/-- Each component has a bit set among those that the next value depends on. -/
structure Lfsr.Alive (z : Lfsr) : Prop where
  z1 : Above 1 z.z1
  z2 : Above 3 z.z2
  z3 : Above 4 z.z3
  z4 : Above 7 z.z4

/-- The next value of a component with these constants; `m` has the bits from `low` on. -/
theorem above_next {z next : Int32} {m : BitVec 32} {low up down keep : Nat}
    (masks : ∀ j < 32, m.getLsbD j = decide (low ≤ j))
    (same
      : next.toBitVec
        = ((z.toBitVec &&& m) <<< keep)
          ^^^ ((z.toBitVec <<< up) ^^^ z.toBitVec).sshiftRight down)
    (width : low + keep + down = 32) (sizes : 0 < keep ∧ 0 < up ∧ up ≤ down) (alive : Above low z)
    : Above low next := by
  by_contra dry
  obtain ⟨k, high, set⟩ := alive
  have bound : k < 32 := BitVec.lt_of_getLsbD set
  have zero : ∀ k, low ≤ k → next.toBitVec.getLsbD k = false := fun k le =>
    Bool.eq_false_iff.mpr fun set => dry ⟨k, le, set⟩
  simp only [same, BitVec.getLsbD_xor, BitVec.getLsbD_shiftLeft, BitVec.getLsbD_and,
    BitVec.getLsbD_sshiftRight, BitVec.msb_eq_getLsbD_last] at zero
  generalize z.toBitVec.getLsbD = bit at *
  -- the low part of the next value compares each high bit with the one `up` places below it
  have repeats : ∀ j, 32 - keep ≤ j → j < 32 → bit (j - up) = bit j := by
    intro j high bound
    have compared := zero (j - down) (by omega)
    have here : down + (j - down) = j := by omega
    have unmasked : ¬ j - down < keep → m.getLsbD (j - down - keep) = false := by
      intro le
      rw [masks _ (by omega), decide_eq_false_iff_not]
      omega
    have small : ¬ j < up := by omega
    rw [here, if_pos bound] at compared
    have below : j - down < 32 := Nat.lt_of_le_of_lt (Nat.sub_le j down) bound
    by_cases le : j - down < keep
    · simpa [le, below, bound, small] using compared
    · simpa [unmasked le, below, bound, small] using compared
  have clear : ∀ j, low ≤ j → j < 32 - keep → bit j = false := by
    intro j high bound
    have copied := zero (j + keep) (by omega)
    have last := repeats 31 (by omega) (by omega)
    have beyond : ¬ down + (j + keep) < 32 := by omega
    have inside : j + keep < 32 := by omega
    have small : ¬ 31 < up := by omega
    rw [if_neg beyond] at copied
    simpa [inside, masks j (by omega), high, last, small] using copied
  induction k using Nat.strongRecOn with
  | ind k ih =>
    by_cases kept : k < 32 - keep
    · rw [clear k high kept] at set
      cases set
    · have lower := repeats k (by omega) bound
      exact ih (k - up) (by omega) (by omega) (by omega) (lower.trans set)

/-- One call of `random` keeps the components alive. -/
theorem random_alive {z : Lfsr} (alive : z.Alive) (max : Int32) : (random z max).1.Alive := by
  unfold random
  split
  · exact alive
  · exact
      {
        z1 := above_next (m := 0xFFFFFFFE) (by decide) rfl rfl (by decide) alive.z1,
        z2 := above_next (m := 0xFFFFFFF8) (by decide) rfl rfl (by decide) alive.z2,
        z3 := above_next (m := 0xFFFFFFF0) (by decide) rfl rfl (by decide) alive.z3,
        z4 := above_next (m := 0xFFFFFF80) (by decide) rfl rfl (by decide) alive.z4
      }

/-- No component of the generator ever runs dry. -/
theorem randoms_alive (calls : List Int32)
    : (calls.foldl (fun z max => (random z max).1) .start).Alive := by
  have initial : Lfsr.start.Alive :=
    ⟨⟨13, by decide, by decide⟩, ⟨13, by decide, by decide⟩, ⟨13, by decide, by decide⟩,
      ⟨13, by decide, by decide⟩⟩
  generalize Lfsr.start = z at initial
  induction calls generalizing z with
  | nil => exact initial
  | cons max calls ih => exact ih _ (random_alive initial max)

end Xv6.Sched
