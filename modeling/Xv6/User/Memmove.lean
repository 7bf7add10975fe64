import Mathlib

/-! The `memmove` of `ulib.c` and that of `string.c`. The first copies upwards, also when the
destination overlaps the source from above.
-/

namespace Xv6.User

open Function (update update_apply)

/-- `while(n-- > 0) *dst++ = *src++;` -/
def copyForward : (n dst src : Nat) → (Nat → UInt8) → Nat → UInt8
  | 0, _, _, mem => mem
  | n + 1, dst, src, mem => copyForward n (dst + 1) (src + 1) (update mem dst (mem src))

/-- `while(n-- > 0) *--d = *--s;` -/
def copyBackward : (n d s : Nat) → (Nat → UInt8) → Nat → UInt8
  | 0, _, _, mem => mem
  | n + 1, d, s, mem => copyBackward n (d - 1) (s - 1) (update mem (d - 1) (mem (s - 1)))

/-- `memmove` of `ulib.c`. -/
def userMemmove (mem : Nat → UInt8) (dst src n : Nat) : Nat → UInt8 := copyForward n dst src mem

/-- `memmove` of `string.c`. -/
def kernelMemmove (mem : Nat → UInt8) (dst src n : Nat) : Nat → UInt8 :=
  if src < dst ∧ dst < (src + n) % 2 ^ 32 then copyBackward n (dst + n) (src + n) mem
  else copyForward n dst src mem

/-- A copy through a temporary buffer. -/
def moved (mem : Nat → UInt8) (dst src n : Nat) (a : Nat) : UInt8 :=
  if dst ≤ a ∧ a < dst + n then mem (src + (a - dst)) else mem a

variable {mem : Nat → UInt8} {dst src n a : Nat}

theorem succ_mod_eq (k period : Nat) (some : 0 < period)
    : (k + 1) % period = if k % period + 1 = period then 0 else k % period + 1 := by
  have bound := Nat.mod_lt k some
  rw [← Nat.mod_add_mod k period 1]
  split
  next wraps => rw [wraps, Nat.mod_self]
  next => rw [Nat.mod_eq_of_lt (by omega)]

/-- Copying upwards repeats the bytes below an overlapping destination. -/
theorem copyForward_eq
    : copyForward n dst src mem a
      = if dst ≤ a ∧ a < dst + n then mem (src + (a - dst) % (dst - src)) else mem a := by
  induction n generalizing dst src mem with
  | zero => rw [copyForward, if_neg (by omega)]
  | succ n ih =>
    rw [copyForward, ih, Nat.add_sub_add_right]
    simp only [update_apply]
    by_cases first : a = dst
    · rw [if_neg (by omega), if_pos first, if_pos (by omega), first]
      simp
    by_cases inside : dst ≤ a ∧ a < dst + (n + 1)
    · obtain ⟨k, rfl⟩ : ∃ k, a = dst + (k + 1) := ⟨a - (dst + 1), by omega⟩
      rw [if_pos inside, if_pos (by omega), Nat.add_sub_cancel_left,
        show dst + (k + 1) - (dst + 1) = k by omega]
      by_cases overlaps : src < dst
      · rw [succ_mod_eq k _ (Nat.sub_pos_of_lt overlaps)]
        split <;> split <;> first | rfl | omega | (congr 1; omega)
      · rw [Nat.sub_eq_zero_of_le (Nat.not_lt.mp overlaps), Nat.mod_zero, Nat.mod_zero,
          if_neg (by omega), Nat.add_assoc, Nat.add_comm 1 k]
    · rw [if_neg inside, if_neg (by omega), if_neg first]

theorem copyBackward_eq (above : src < dst)
    : copyBackward n (dst + n) (src + n) mem = moved mem dst src n := by
  induction n generalizing mem with
  | zero =>
    funext a
    rw [copyBackward, moved, if_neg (by omega)]
  | succ n ih =>
    rw [copyBackward, Nat.add_succ_sub_one, Nat.add_succ_sub_one, ih]
    funext a
    simp only [moved, update_apply]
    by_cases inside : dst ≤ a ∧ a < dst + n
    · rw [if_pos inside, if_neg (by omega), if_pos (by omega)]
    · rw [if_neg inside]
      by_cases last : a = dst + n
      · rw [if_pos last, if_pos (by omega), last, Nat.add_sub_cancel_left]
      · rw [if_neg last, if_neg (by omega)]

/-- The `memmove` of `string.c` copies as through a buffer. -/
theorem kernelMemmove_eq (destination : dst + n ≤ 2 ^ 32)
    : kernelMemmove mem dst src n = moved mem dst src n := by
  rw [kernelMemmove]
  split
  next overlaps => exact copyBackward_eq overlaps.1
  next apart =>
    funext a
    rw [copyForward_eq, moved]
    split
    next inside =>
      by_cases above : src < dst
      · rw [Nat.mod_eq_of_lt (a := src + n) (by omega)] at apart
        rw [Nat.mod_eq_of_lt (by omega)]
      · rw [Nat.sub_eq_zero_of_le (Nat.not_lt.mp above), Nat.mod_zero]
    next => rfl

/-- The `memmove` of `ulib.c` does so too if the destination is not above the source or the source
repeats itself from there on, as it does when the destination is behind it.
-/
theorem memmoves_agree_iff (destination : dst + n ≤ 2 ^ 32)
    : (userMemmove mem dst src n = moved mem dst src n
        ∧ kernelMemmove mem dst src n = moved mem dst src n)
      ↔ dst ≤ src ∨ ∀ i < n, mem (src + i) = mem (src + i % (dst - src)) := by
  have kernel := @kernelMemmove_eq mem dst src n destination
  rw [and_iff_left kernel]
  constructor
  · intro same
    refine .inr fun i bound => ?_
    have byte := congrFun same (dst + i)
    rw [userMemmove, copyForward_eq, moved, if_pos (by omega), if_pos (by omega),
      Nat.add_sub_cancel_left] at byte
    exact byte.symm
  · intro fits
    funext a
    rw [userMemmove, copyForward_eq, moved]
    split
    next inside =>
      rcases fits with below | repeats
      · rw [Nat.sub_eq_zero_of_le below, Nat.mod_zero]
      · exact (repeats (a - dst) (by omega)).symm
    next => rfl

/-- The bytes 1, 2, 3, ... -/
def counting (a : Nat) : UInt8 := UInt8.ofNat (a + 1)

theorem counting_down
    : userMemmove counting 0 1 2 = moved counting 0 1 2
      ∧ kernelMemmove counting 0 1 2 = moved counting 0 1 2 :=
  (memmoves_agree_iff (by decide)).mpr (.inl (by decide))

/-- Moved up by one place, the first of two bytes comes twice. -/
theorem counting_up
    : userMemmove counting 1 0 2 2 = 1
      ∧ kernelMemmove counting 1 0 2 2 = 2
      ∧ moved counting 1 0 2 2 = 2 := by
  decide

end Xv6.User
