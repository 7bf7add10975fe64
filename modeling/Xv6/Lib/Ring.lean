import Mathlib

/-! Ring buffers with two 32-bit counters that wrap.
The counters say how much was ever put in and taken out; an element's slot is its counter
modulo the size. As long as the size divides 2 ^ 32 the slots go on in order when a counter
wraps.
-/

namespace Xv6.Lib

structure Ring (α : Type) (size : Nat) where
  data : Fin size → α
  nread : UInt32
  nwrite : UInt32

namespace Ring

variable {α : Type} {size : Nat} [NeZero size]
variable {r : Ring α size}

/-- The slot of the element with this number. -/
def slot (size : Nat) [NeZero size] (number : Nat) : Fin size := Fin.ofNat size number

/-- How many elements are in the buffer. -/
def count (r : Ring α size) : Nat := (r.nwrite - r.nread).toNat

/-- The test for a full buffer. -/
def isFull (r : Ring α size) : Bool := r.nwrite == r.nread + UInt32.ofNat size

/-- The test for an empty buffer. -/
def isEmpty (r : Ring α size) : Bool := r.nread == r.nwrite

/-- `data[nwrite++ % size] = a`. -/
def put (r : Ring α size) (a : α) : Ring α size :=
  { r with
    data := Function.update r.data (slot size r.nwrite.toNat) a
    nwrite := r.nwrite + 1 }

/-- `data[nread % size]`. -/
def front (r : Ring α size) : α := r.data (slot size r.nread.toNat)

def drop (r : Ring α size) : Ring α size := { r with nread := r.nread + 1 }

/-- The elements between the two counters, oldest first. -/
def contents (r : Ring α size) : List α :=
  (List.range r.count).map fun k => r.data (slot size (r.nread.toNat + k))

omit [NeZero size] in
theorem isEmpty_iff (r : Ring α size) : r.isEmpty = true ↔ r.count = 0 := by
  simp only [isEmpty, beq_iff_eq, count, ← UInt32.toNat_inj, UInt32.toNat_sub]
  have read := r.nread.toNat_lt
  have write := r.nwrite.toNat_lt
  omega

omit [NeZero size] in
theorem isFull_iff (small : size < 2 ^ 32) (r : Ring α size)
    : r.isFull = true ↔ r.count = size := by
  simp only [isFull, beq_iff_eq, count, ← UInt32.toNat_inj, UInt32.toNat_sub, UInt32.toNat_add,
    UInt32.toNat_ofNat']
  have read := r.nread.toNat_lt
  have write := r.nwrite.toNat_lt
  omega

@[simp] theorem length_contents (r : Ring α size) : r.contents.length = r.count := by
  simp [contents]

theorem count_put (room : r.count + 1 < 2 ^ 32) (a : α)
    : (r.put a).count = r.count + 1 := by
  simp only [count, put, UInt32.toNat_sub, UInt32.toNat_add, UInt32.toNat_one] at room ⊢
  have read := r.nread.toNat_lt
  have write := r.nwrite.toNat_lt
  omega

omit [NeZero size] in
theorem count_drop (some : r.count ≠ 0) : r.drop.count + 1 = r.count := by
  simp only [count, drop, UInt32.toNat_sub, UInt32.toNat_add, UInt32.toNat_one] at some ⊢
  have read := r.nread.toNat_lt
  have write := r.nwrite.toNat_lt
  omega

/-- Numbers that agree modulo 2 ^ 32 have the same slot. -/
theorem slot_congr (divides : size ∣ 2 ^ 32) {first second : Nat}
    (same : first % 2 ^ 32 = second % 2 ^ 32)
    : slot size first = slot size second := by
  apply Fin.ext
  simp only [slot, Fin.ofNat_eq_cast, Fin.val_natCast]
  rw [← Nat.mod_mod_of_dvd first divides, ← Nat.mod_mod_of_dvd second divides, same]

/-- The next element goes behind the last one. -/
theorem slot_nwrite (divides : size ∣ 2 ^ 32) (r : Ring α size)
    : slot size r.nwrite.toNat = slot size (r.nread.toNat + r.count) := by
  apply slot_congr divides
  simp only [count, UInt32.toNat_sub]
  have read := r.nread.toNat_lt
  have write := r.nwrite.toNat_lt
  omega

/-- Two elements less than a full round apart have different slots. -/
theorem slot_ne {base near far : Nat} (order : near < far) (close : far - near < size)
    : slot size (base + near) ≠ slot size (base + far) := by
  intro same
  have remainders : (base + near) % size = (base + far) % size := by
    simpa [slot, Fin.ext_iff] using same
  have multiple : size ∣ (base + far) - (base + near) :=
    Nat.dvd_of_mod_eq_zero (Nat.sub_mod_eq_zero_of_mod_eq remainders.symm)
  have least := Nat.le_of_dvd (by omega) multiple
  omega

theorem contents_put (divides : size ∣ 2 ^ 32) (small : size < 2 ^ 32) (room : r.count < size)
    (a : α)
    : (r.put a).contents = r.contents ++ [a] := by
  have behind := slot_nwrite divides r
  unfold contents
  rw [count_put (by omega), List.range_succ, List.map_append]
  congr 1
  · apply List.map_congr_left
    intro k member
    have inside : k < r.count := List.mem_range.mp member
    simp only [put, behind]
    rw [Function.update_of_ne (slot_ne inside (by omega))]
  · simp [put, behind]

theorem contents_drop (divides : size ∣ 2 ^ 32) (some : r.count ≠ 0)
    : r.contents = r.front :: r.drop.contents := by
  unfold contents
  rw [← count_drop some, List.range_succ_eq_map, List.map_cons, List.map_map]
  congr 1
  apply List.map_congr_left
  intro k _
  simp only [Function.comp, drop, UInt32.toNat_add, UInt32.toNat_one]
  congr 1
  apply slot_congr divides
  omega

end Ring

end Xv6.Lib
