import Mathlib

/-! Sequences of fixed-size records, and overwriting a part of a sequence. -/

namespace Xv6.Lib

variable {α : Type}

/-- Overwrite `l` with `src` from position `off` on. -/
def splice (l : List α) (off : Nat) (src : List α) : List α :=
  l.take off ++ src ++ l.drop (off + src.length)

/-- The record in position `k` of records of length `size`. -/
def record (size : Nat) (l : List α) (k : Nat) : List α :=
  (l.drop (size * k)).take size

section Splice

variable {l src : List α} {off size k j : Nat}

theorem length_splice (low : off ≤ l.length)
    : (splice l off src).length = max l.length (off + src.length) := by
  simp only [splice, List.length_append, List.length_take, List.length_drop]
  omega

@[simp] theorem splice_nil (l : List α) (off : Nat) : splice l off [] = l := by
  simp [splice]

/-- Two writes side by side are one write. -/
theorem splice_append (low : off ≤ l.length) (src more : List α)
    : splice (splice l off src) (off + src.length) more = splice l off (src ++ more) := by
  have before : (l.take off ++ src).length = off + src.length := by
    rw [List.length_append, List.length_take_of_le low]
  have head : (splice l off src).take (off + src.length) = l.take off ++ src := by
    rw [splice, ← before, List.take_left]
  have tail : (splice l off src).drop (off + src.length + more.length)
      = l.drop (off + (src ++ more).length) := by
    rw [splice, ← List.drop_drop, ← before, List.drop_left, before, List.drop_drop,
      List.length_append, Nat.add_assoc]
  rw [splice, head, tail, splice]
  simp only [List.append_assoc]

theorem getElem?_splice_inside (low : off ≤ l.length) (i : Nat) (inside : i < src.length)
    : (splice l off src)[off + i]? = src[i]? := by
  have before : (l.take off).length = off := List.length_take_of_le low
  rw [splice, List.append_assoc, List.getElem?_append_right (by omega),
    List.getElem?_append_left (by omega), before, Nat.add_sub_cancel_left]

theorem getElem?_splice_outside (low : off ≤ l.length) (i : Nat)
    (outside : i < off ∨ off + src.length ≤ i)
    : (splice l off src)[i]? = l[i]? := by
  rw [splice, List.append_assoc]
  rcases Nat.lt_or_ge i off with before | after
  · rw [List.getElem?_append_left (by simp; omega), List.getElem?_take_of_lt before]
  · rw [List.getElem?_append_right (by simp; omega),
      List.getElem?_append_right (by simp; omega), List.getElem?_drop]
    congr 1
    simp
    omega

theorem length_record_le : (record size l k).length ≤ size := by
  rw [record, List.length_take]
  exact Nat.min_le_left ..

theorem getElem?_record (i : Nat) (inside : i < size)
    : (record size l k)[i]? = l[size * k + i]? := by
  rw [record, List.getElem?_take_of_lt inside, List.getElem?_drop]

theorem record_ext {l' : List α} {k' : Nat}
    (same : ∀ i, i < size → l[size * k + i]? = l'[size * k' + i]?)
    : record size l k = record size l' k' := by
  apply List.ext_getElem?
  intro i
  rcases Nat.lt_or_ge i size with inside | outside
  · rw [getElem?_record i inside, getElem?_record i inside]
    exact same i inside
  · rw [List.getElem?_eq_none (Nat.le_trans length_record_le outside),
      List.getElem?_eq_none (Nat.le_trans length_record_le outside)]

theorem record_splice_same (low : size * k ≤ l.length) (whole : src.length = size)
    : record size (splice l (size * k) src) k = src := by
  apply List.ext_getElem?
  intro i
  rcases Nat.lt_or_ge i size with inside | outside
  · rw [getElem?_record i inside, getElem?_splice_inside low i (by omega)]
  · rw [List.getElem?_eq_none (Nat.le_trans length_record_le outside),
      List.getElem?_eq_none (by omega)]

/-- Records at different positions do not overlap. -/
theorem record_splice_ne (low : size * k ≤ l.length) (whole : src.length = size) (ne : j ≠ k)
    : record size (splice l (size * k) src) j = record size l j := by
  apply record_ext
  intro i inside
  apply getElem?_splice_outside low
  rcases Nat.lt_or_gt_of_ne ne with before | after
  · have next : size * (j + 1) ≤ size * k := Nat.mul_le_mul_left size before
    rw [Nat.mul_add] at next
    omega
  · have next : size * (k + 1) ≤ size * j := Nat.mul_le_mul_left size after
    rw [Nat.mul_add] at next
    omega

end Splice

end Xv6.Lib
