import Mathlib

/-! The loops of `head.c`: what `head` prints does not depend on the pieces in which `read` returns
the input.
-/

namespace Xv6.User

/-- What is counted up to `n`: the bytes if `moden` is 2, and else the lines. -/
def headCount (moden : Int) (c : UInt8) (l : Nat) : Nat :=
  if c = '\n'.toUInt8 ∧ moden ≠ 2 then l + 1 else if moden = 2 then l + 1 else l

/-- The inner loop of `head`: the bytes it prints, and the counter after it. -/
def headPiece (n : Nat) (moden : Int) : (l : Nat) → List UInt8 → List UInt8 × Nat
  | l, [] => ([], l)
  | l, c :: buf =>
      if l < n then
        let (printed, l) := headPiece n moden (headCount moden c l) buf
        (c :: printed, l)
      else ([], l)

/-- The outer loop of `head`, with the pieces that `read` returns. -/
def headLoop (n : Nat) (moden : Int) : (l : Nat) → List (List UInt8) → List UInt8
  | _, [] => []
  | l, piece :: pieces =>
      if l < n then
        let (printed, l) := headPiece n moden l piece
        printed ++ headLoop n moden l pieces
      else []

/-- The data bytes that `head` prints. -/
def head (n : Nat) (moden : Int) (pieces : List (List UInt8)) : List UInt8 :=
  headLoop n moden 0 pieces

section Head

variable {n l : Nat} {moden : Int}

theorem headPiece_done (done : ¬ l < n) (input : List UInt8)
    : headPiece n moden l input = ([], l) := by
  cases input with
  | nil => rfl
  | cons c rest => rw [headPiece, if_neg done]

theorem headPiece_append (first rest : List UInt8)
    : (headPiece n moden l (first ++ rest)).1
      = (headPiece n moden l first).1 ++ (headPiece n moden (headPiece n moden l first).2 rest).1 := by
  induction first generalizing l with
  | nil => rfl
  | cons c first ih =>
    by_cases more : l < n
    · simp only [List.cons_append, headPiece, if_pos more, ih]
    · simp only [List.cons_append, headPiece, if_neg more, headPiece_done more, List.append_nil]

/-- The pieces do not matter. -/
theorem headLoop_eq (pieces : List (List UInt8))
    : headLoop n moden l pieces = (headPiece n moden l pieces.flatten).1 := by
  induction pieces generalizing l with
  | nil => rfl
  | cons piece pieces ih =>
    rw [headLoop, List.flatten_cons]
    split_ifs with more
    · rw [headPiece_append]
      exact congrArg _ ih
    · rw [headPiece_done more]

theorem headPiece_cons (more : l < n) (c : UInt8) (buf : List UInt8)
    : (headPiece n moden l (c :: buf)).1 = c :: (headPiece n moden (headCount moden c l) buf).1 := by
  rw [headPiece, if_pos more]

theorem headPiece_bytes (input : List UInt8) : (headPiece n 2 l input).1 = input.take (n - l) := by
  induction input generalizing l with
  | nil => rw [List.take_nil, headPiece]
  | cons c input ih =>
    by_cases more : l < n
    · obtain ⟨k, left⟩ : ∃ k, n - l = k + 1 := ⟨n - (l + 1), by omega⟩
      have next : n - headCount 2 c l = k := by
        simp only [headCount, ne_eq, not_true_eq_false, and_false, if_false, if_true]
        omega
      rw [headPiece_cons more, ih, next, left, List.take_succ_cons]
    · rw [headPiece_done more, Nat.sub_eq_zero_of_le (by omega), List.take_zero]

/-- `out` is the shortest prefix with `k` newlines, or everything if there are fewer. -/
structure FirstLines (k : Nat) (input out : List UInt8) : Prop where
  start : out <+: input
  enough : k ≤ input.count '\n'.toUInt8 → out.count '\n'.toUInt8 = k
  shortest : ∀ other, other <+: input → k ≤ other.count '\n'.toUInt8 → out.length ≤ other.length
  whole : input.count '\n'.toUInt8 < k → out = input

theorem headPiece_lines (lines : moden ≠ 2) (input : List UInt8)
    : FirstLines (n - l) input (headPiece n moden l input).1 := by
  induction input generalizing l with
  | nil =>
    rw [headPiece]
    refine ⟨List.nil_prefix, fun few => ?_, fun _ _ _ => Nat.zero_le _, fun _ => rfl⟩
    exact (Nat.le_zero.mp few).symm
  | cons c input ih =>
    by_cases more : l < n
    · obtain ⟨d, low, next, count⟩ : ∃ d ≤ 1, headCount moden c l = l + d
          ∧ ∀ out : List UInt8, (c :: out).count '\n'.toUInt8 = out.count '\n'.toUInt8 + d := by
        by_cases newline : c = '\n'.toUInt8
        · exact ⟨1, by simp, by simp [headCount, newline, lines], by simp [newline]⟩
        · exact ⟨0, by simp, by simp [headCount, newline, lines], by simp [newline]⟩
      have rest := ih (l := l + d)
      rw [headPiece_cons more, next]
      refine ⟨List.cons_prefix_cons.mpr ⟨rfl, rest.start⟩, ?_, ?_, ?_⟩
      · intro many
        rw [count] at many ⊢
        rw [rest.enough (by omega)]
        omega
      · intro other start many
        cases other with
        | nil => exact absurd (Nat.le_zero.mp many) (by omega)
        | cons x other =>
          obtain ⟨rfl, later⟩ := List.cons_prefix_cons.mp start
          rw [count] at many
          exact Nat.succ_le_succ (rest.shortest other later (by omega))
      · intro few
        rw [count] at few
        rw [rest.whole (by omega)]
    · have none : n - l = 0 := by omega
      rw [headPiece_done more, none]
      exact ⟨List.nil_prefix, fun _ => rfl, fun _ _ _ => Nat.zero_le _, nofun⟩

/-- `head` prints the first bytes, or the first lines, of its input. -/
theorem head_prints (n : Nat) (moden : Int) (pieces : List (List UInt8))
    : if moden = 2 then head n moden pieces = pieces.flatten.take n
      else FirstLines n pieces.flatten (head n moden pieces) := by
  rw [head, headLoop_eq]
  split_ifs with bytes
  · rw [bytes]
    exact headPiece_bytes _
  · exact @headPiece_lines n 0 moden bytes _

end Head

end Xv6.User
