import Mathlib

/-! Byte buffers with little-endian fields.
A buffer is a total map from offsets to bytes; records occupy disjoint offset ranges.
-/

namespace Xv6.Lib

/-- The contents of a memory buffer, byte by byte. -/
abbrev Bytes := Nat → UInt8

namespace Bytes

variable {buf other : Bytes} {off i k : Nat} {data : List UInt8} {w : UInt32} {ws : List UInt32}

/-- Copy `data` into the buffer at `off` and keep every other byte. -/
def poke (buf : Bytes) (off : Nat) (data : List UInt8) : Bytes :=
  fun i => if off ≤ i then (data[i - off]?).getD (buf i) else buf i

/-- The `len` bytes of the buffer that start at `off`. -/
def peek (buf : Bytes) (off len : Nat) : List UInt8 :=
  (List.range len).map (fun i => buf (off + i))

theorem poke_outside (outside : i < off ∨ off + data.length ≤ i)
    : buf.poke off data i = buf i := by
  unfold poke
  split
  · have beyond : data.length ≤ i - off := by omega
    simp [List.getElem?_eq_none beyond]
  · rfl

theorem poke_inside (inside : k < data.length)
    : buf.poke off data (off + k) = data[k] := by
  simp [poke, List.getElem?_eq_getElem inside]

def ofWord (w : UInt32) : List UInt8 :=
  [UInt8.ofNat w.toNat, UInt8.ofNat (w.toNat / 256),
    UInt8.ofNat (w.toNat / 65536), UInt8.ofNat (w.toNat / 16777216)]

@[simp] theorem length_ofWord (w : UInt32) : (ofWord w).length = 4 := rfl

def word (buf : Bytes) (off : Nat) : UInt32 :=
  UInt32.ofNat ((buf off).toNat + 256 * (buf (off + 1)).toNat
    + 65536 * (buf (off + 2)).toNat + 16777216 * (buf (off + 3)).toNat)

def setWord (buf : Bytes) (off : Nat) (w : UInt32) : Bytes :=
  buf.poke off (ofWord w)

/-- A stored word reads back, by recombining its four base-256 digits. -/
@[simp] theorem word_setWord_same (buf : Bytes) (off : Nat) (w : UInt32)
    : (buf.setWord off w).word off = w := by
  have digit (k : Nat) (inside : k < (ofWord w).length)
      : (buf.setWord off w) (off + k) = (ofWord w)[k] := poke_inside inside
  have first := digit 0 (by simp)
  have second := digit 1 (by simp)
  have third := digit 2 (by simp)
  have fourth := digit 3 (by simp)
  simp only [Nat.add_zero, ofWord, List.getElem_cons_zero, List.getElem_cons_succ]
    at first second third fourth
  have bound := w.toNat_lt
  simp only [word, first, second, third, fourth, UInt8.toNat_ofNat']
  apply UInt32.toNat_inj.mp
  simp only [UInt32.toNat_ofNat']
  omega

theorem setWord_outside (outside : i < off ∨ off + 4 ≤ i)
    : buf.setWord off w i = buf i :=
  poke_outside outside

/-- A word is read from its four bytes only. -/
theorem word_congr (same : ∀ i, off ≤ i → i < off + 4 → buf i = other i)
    : buf.word off = other.word off := by
  simp only [word, same off (by omega) (by omega), same (off + 1) (by omega) (by omega),
    same (off + 2) (by omega) (by omega), same (off + 3) (by omega) (by omega)]

theorem word_setWord_disjoint {other : Nat} (disjoint : other + 4 ≤ off ∨ off + 4 ≤ other)
    : (buf.setWord off w).word other = buf.word other :=
  word_congr fun _ low high => setWord_outside (by omega)

def ofShort (h : UInt16) : List UInt8 :=
  [UInt8.ofNat h.toNat, UInt8.ofNat (h.toNat / 256)]

def short (buf : Bytes) (off : Nat) : UInt16 :=
  UInt16.ofNat ((buf off).toNat + 256 * (buf (off + 1)).toNat)

def setShort (buf : Bytes) (off : Nat) (h : UInt16) : Bytes :=
  buf.poke off (ofShort h)

@[simp] theorem length_ofShort (h : UInt16) : (ofShort h).length = 2 := rfl

@[simp] theorem short_setShort_same (buf : Bytes) (off : Nat) (h : UInt16)
    : (buf.setShort off h).short off = h := by
  have first : buf.setShort off h (off + 0) = (ofShort h)[0] := poke_inside (by simp)
  have second : buf.setShort off h (off + 1) = (ofShort h)[1] := poke_inside (by simp)
  simp only [Nat.add_zero, ofShort, List.getElem_cons_zero, List.getElem_cons_succ]
    at first second
  have bound := h.toNat_lt
  simp only [short, first, second, UInt8.toNat_ofNat']
  apply UInt16.toNat_inj.mp
  simp only [UInt16.toNat_ofNat']
  omega

theorem setShort_outside {h : UInt16} (outside : i < off ∨ off + 2 ≤ i)
    : buf.setShort off h i = buf i :=
  poke_outside outside

theorem short_congr (same : ∀ i, off ≤ i → i < off + 2 → buf i = other i)
    : buf.short off = other.short off := by
  simp only [short, same off (by omega) (by omega), same (off + 1) (by omega) (by omega)]

/-- Store consecutive words, as a `memmove` of a word array does. -/
def setWords (buf : Bytes) (off : Nat) : List UInt32 → Bytes
  | [] => buf
  | w :: ws => (setWords buf (off + 4) ws).setWord off w

theorem setWords_outside (outside : i < off ∨ off + 4 * ws.length ≤ i)
    : buf.setWords off ws i = buf i := by
  induction ws generalizing off with
  | nil => rfl
  | cons w ws ih =>
    simp only [List.length_cons] at outside
    exact (setWord_outside (by omega)).trans (ih (by omega))

theorem word_setWords (inside : k < ws.length)
    : (buf.setWords off ws).word (off + 4 * k) = ws[k] := by
  induction ws generalizing off k with
  | nil => cases inside
  | cons w ws ih =>
    cases k with
    | zero => exact word_setWord_same _ off w
    | succ k =>
      have later := @ih (off + 4) k (Nat.lt_of_succ_lt_succ inside)
      have place : off + 4 * (k + 1) = off + 4 + 4 * k := by omega
      rw [place]
      exact (word_setWord_disjoint (by omega)).trans later

end Bytes

end Xv6.Lib
