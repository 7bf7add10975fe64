import Xv6.Paging.Kernel

/-! The translations that `mappages` installs, for a range that need not be page-aligned. -/

namespace Xv6.Paging

open Lib

variable {M : Machine} {s : State} {d : Nat} {o : Nat → Use}

theorem mappages_range {va size pa : Nat} {perm : BitVec 12} (some : 0 < size)
    (fits : va + size ≤ 2 ^ 32)
    : mappages d va size pa perm
      = mapLoop d ((va + size - 1) / pgsize * pgsize) perm (2 ^ 20) (va / pgsize * pgsize) pa := by
  rw [mappages, pgrounddown, pgrounddown, show (va + size + (2 ^ 32 - 1)) % 2 ^ 32 = va + size - 1 by
    omega]

/-- `mappages` maps the pages of the range in order until `kalloc` fails, and nothing else; and the
ranges of `setupkvm` are apart, so that it finds no page mapped.
-/
theorem mappages_translates {va size p : Nat} (perm : BitVec 12) (tables : Tables M s d o)
    (some : 0 < size) (fits : va + size ≤ 2 ^ 32) (frame : p < 2 ^ 20)
    (absent : ∀ w, va / pgsize ≤ w → w ≤ (va + size - 1) / pgsize → (s.pte d w).present = false)
    : (∃ r t m, Returns (mappages d va size (p * pgsize) perm) s r t
        ∧ va / pgsize + m ≤ (va + size - 1) / pgsize + 1
        ∧ (r = true ↔ va / pgsize + m = (va + size - 1) / pgsize + 1)
        ∧ (r = false → t.freelist = [])
        ∧ ∀ w, Inside w → t.pte d w
            = if va / pgsize ≤ w ∧ w < va / pgsize + m then
                ⟨(p + (w - va / pgsize)) % 2 ^ 20, perm ||| pteP⟩
              else s.pte d w)
      ∧ kmap M = (kernelRows M).map Row.entry
      ∧ ((kernelRows M).Pairwise fun a b => ∀ w, a.Holds w → ¬ b.Holds w)
      ∧ ∀ s o, Free M s o → (∀ f, o f = .free ∨ o f = .other) → ∃ r t, Returns (setupkvm M) s r t := by
  refine ⟨?_, kmap_eq, kernelRows_apart, fun s o free bare => ?_⟩
  · obtain ⟨n, last⟩ := Nat.exists_eq_add_of_le
      (Nat.div_le_div_right (c := pgsize) (show va ≤ va + size - 1 by omega))
    have inside : Inside (va / pgsize + n) := by
      rw [← last]
      simp only [Inside, npdentries, pgsize]
      omega
    rw [mappages_range some fits, last]
    rw [last] at absent
    generalize va / pgsize = v at *
    have enough : n < 2 ^ 20 := by
      simp only [Inside, npdentries] at inside
      omega
    obtain ⟨r, t, o', m, ran, bound, all, failed, maps⟩ :=
      mapLoop_spec tables inside enough frame fun k le => absent _ (by omega) (by omega)
    exact ⟨r, t, m, ran, by omega, by rw [all]; omega, fun no => (failed no).1, maps.entries⟩
  · obtain ⟨r, t, ran, -⟩ := setupkvm_spec free bare
    exact ⟨r, t, ran⟩

/-- A range that ends in page 2 is mapped where only page 0 is. -/
theorem onePage_translates
    : ∃ t, Returns (mappages 512 (pgsize + 5) pgsize (600 * pgsize) pteW) (onePage []) true t
        ∧ ∀ w, Inside w → t.pte 512 w
            = if 1 ≤ w ∧ w < 3 then ⟨(600 + (w - 1)) % 2 ^ 20, pteW ||| pteP⟩
              else (onePage []).pte 512 w := by
  have tables := (@onePage_space [] (by decide) (by decide)).toTables
  obtain ⟨⟨r, t, m, ran, -, all, -, entries⟩, -⟩ := @mappages_translates smallMachine (onePage []) 512
    _ (pgsize + 5) pgsize 600 pteW tables (by decide) (by decide) (by decide) fun w low high => by
      rw [onePage_pte, if_neg (by simp only [pgsize] at low; omega)]
      rfl
  have maps : ∃ t, Returns (mappages 512 (pgsize + 5) pgsize (600 * pgsize) pteW) (onePage []) true
      t := ⟨_, rfl⟩
  obtain ⟨t', maps⟩ := maps
  obtain ⟨rfl, rfl⟩ := ran.unique maps
  obtain rfl : m = 2 := Nat.add_left_cancel (n := 1) (all.mp rfl)
  exact ⟨t, ran, entries⟩

end Xv6.Paging
