import Xv6.User.Match

/-! The buffer of `grep.c`. A read that brings no newline makes `grep` drop what it has. -/

namespace Xv6.User

def newline : UInt8 := '\n'.toUInt8

/-- `strchr(p, '\n')`: what stands before and what stands behind the newline. -/
def strchrLine : List UInt8 → Option (List UInt8 × List UInt8)
  | [] => none
  | x :: rest =>
      if x = 0 then none
      else if x = newline then some ([], rest)
      else (strchrLine rest).map fun (line, after) => (x :: line, after)

theorem strchrLine_some {p line after : List UInt8} (found : strchrLine p = some (line, after))
    : p = line ++ newline :: after := by
  fun_induction strchrLine p generalizing line with
  | case1 | case2 => cases found
  | case3 =>
    cases found
    rfl
  | case4 x rest _ _ ih =>
    obtain ⟨_, later, same⟩ := Option.map_eq_some_iff.mp found
    cases same
    exact congrArg (x :: ·) (ih later)

/-- The inner loop of `grep`: the bytes it writes, and what is left from `p` on. -/
def grepLines (pattern p : List UInt8) : List UInt8 × List UInt8 :=
  match _found : strchrLine p with
  | none => ([], p)
  | some (line, after) =>
      let (out, rest) := grepLines pattern after
      (if matchRe pattern line then line ++ newline :: out else out, rest)
termination_by p.length
decreasing_by
  rw [strchrLine_some _found]
  grind

/-- The outer loop of `grep`; `buf` is what it has kept, and `read` returns the pieces, each of
them no longer than there is room behind `buf`.
-/
def grepLoop (pattern : List UInt8) : (buf : List UInt8) → List (List UInt8) → List UInt8
  | _, [] => []
  | buf, piece :: pieces =>
      if 1024 - buf.length - 1 = 0 then []
      else
        let (out, p) := grepLines pattern (buf ++ piece)
        out ++ grepLoop pattern (if p.length = (buf ++ piece).length then [] else p) pieces

def grep (pattern : List UInt8) (pieces : List (List UInt8)) : List UInt8 :=
  grepLoop pattern [] pieces

/-- A text of newline-terminated lines. -/
def textOf (lines : List (List UInt8)) : List UInt8 := (lines.map (· ++ [newline])).flatten

section Lines

variable {line tail u v p : List UInt8} {lines : List (List UInt8)}

@[simp] theorem textOf_cons : textOf (line :: lines) = line ++ newline :: textOf lines := by
  simp [textOf]

theorem strchrLine_line (noNul : 0 ∉ line) (whole : newline ∉ line) (after : List UInt8)
    : strchrLine (line ++ newline :: after) = some (line, after) := by
  induction line with
  | nil => rfl
  | cons x line ih =>
    simp only [List.mem_cons, not_or] at noNul whole
    rw [List.cons_append, strchrLine, if_neg (Ne.symm noNul.1), if_neg (Ne.symm whole.1),
      ih noNul.2 whole.2]
    rfl

theorem grepLines_line (pattern : List UInt8) (noNul : 0 ∉ line) (whole : newline ∉ line)
    (after : List UInt8)
    : grepLines pattern (line ++ newline :: after)
      = (if matchRe pattern line then line ++ newline :: (grepLines pattern after).1
          else (grepLines pattern after).1, (grepLines pattern after).2) := by
  rw [grepLines]
  split
  · rename_i found
    cases (strchrLine_line noNul whole after).symm.trans found
  · rename_i found
    cases (strchrLine_line noNul whole after).symm.trans found
    rfl

theorem grepLines_tail (pattern : List UInt8) (unended : newline ∉ tail)
    : grepLines pattern tail = ([], tail) := by
  rw [grepLines]
  split
  · rfl
  · rename_i found
    rw [strchrLine_some found] at unended
    simp at unended

/-- The inner loop writes the lines that match. -/
theorem grepLines_text (pattern : List UInt8) (clean : ∀ line ∈ lines, 0 ∉ line ∧ newline ∉ line)
    (unended : newline ∉ tail)
    : grepLines pattern (textOf lines ++ tail) = (textOf (lines.filter (matchRe pattern)), tail) := by
  induction lines with
  | nil => exact grepLines_tail pattern unended
  | cons line lines ih =>
    obtain ⟨⟨noNul, whole⟩, clean⟩ := List.forall_mem_cons.mp clean
    rw [textOf_cons, List.append_assoc, List.cons_append, grepLines_line pattern noNul whole,
      ih clean, List.filter_cons]
    split <;> simp

/-- A cut of a text falls into some line. -/
theorem textOf_cut (whole : ∀ line ∈ lines, newline ∉ line) (cut : u ++ v = textOf lines)
    : ∃ before after tail, lines = before ++ after ∧ u = textOf before ++ tail ∧ newline ∉ tail
      ∧ tail ++ v = textOf after ∧ (tail = [] ∨ ∃ line ∈ after, tail.length ≤ line.length) := by
  induction lines generalizing u with
  | nil =>
    obtain ⟨rfl, rfl⟩ := List.append_eq_nil_iff.mp cut
    exact ⟨[], [], [], rfl, rfl, by simp, rfl, .inl rfl⟩
  | cons line lines ih =>
    obtain ⟨first, whole⟩ := List.forall_mem_cons.mp whole
    rw [textOf_cons] at cut
    rcases List.append_eq_append_iff.mp cut with ⟨rest, rfl, rfl⟩ | ⟨rest, rfl, split⟩
    · refine ⟨[], _, u, rfl, rfl, fun member => first (by simp [member]), by simp, .inr ?_⟩
      exact ⟨u ++ rest, by simp, by simp⟩
    · cases rest with
      | nil =>
        refine ⟨[], _, line, rfl, by simp [textOf], first, by simpa using split.symm, .inr ?_⟩
        exact ⟨line, by simp, Nat.le_refl _⟩
      | cons x rest =>
        simp only [List.cons_append, List.cons.injEq] at split
        obtain ⟨rfl, split⟩ := split
        obtain ⟨before, after, tail, rfl, rfl, ends⟩ := ih whole split.symm
        exact ⟨line :: before, after, tail, rfl, by simp, ends⟩

end Lines

section Reads

variable {pattern buf : List UInt8} {lines pieces : List (List UInt8)}

theorem grepLines_length (pattern p : List UInt8)
    : (grepLines pattern p).1.length + (grepLines pattern p).2.length ≤ p.length := by
  fun_induction grepLines pattern p with
  | case1 => simp
  | case2 p line after found out rest same ih =>
    rw [strchrLine_some found]
    simp only [same] at ih
    grind

theorem grepLoop_length (pattern buf : List UInt8) (pieces : List (List UInt8))
    : (grepLoop pattern buf pieces).length ≤ buf.length + pieces.flatten.length := by
  induction pieces generalizing buf with
  | nil => simp [grepLoop]
  | cons piece pieces ih =>
    have pass := grepLines_length pattern (buf ++ piece)
    have rest := ih (grepLines pattern (buf ++ piece)).2
    have none := ih []
    rw [grepLoop]
    grind

/-- If every piece brings a newline, no part of a line is lost. A piece without one is dropped,
with what was kept before it.
-/
theorem grepLoop_spec (clean : ∀ line ∈ lines, 0 ∉ line ∧ newline ∉ line ∧ line.length < 1023)
    (nonempty : [] ∉ pieces) (unended : newline ∉ buf) (room : buf.length < 1023)
    (cut : buf ++ pieces.flatten = textOf lines)
    : if ∀ piece ∈ pieces, newline ∈ piece then
        grepLoop pattern buf pieces = textOf (lines.filter (matchRe pattern))
      else (grepLoop pattern buf pieces).length < (textOf lines).length := by
  induction pieces generalizing buf lines with
  | nil =>
    cases lines with
    | nil => rfl
    | cons line lines => simp_all
  | cons piece pieces ih =>
    have total := congrArg List.length cut
    have pass : grepLoop pattern buf (piece :: pieces) = _ :=
      grepLoop.eq_2 .. |>.trans (if_neg (by omega))
    rw [List.flatten_cons, ← List.append_assoc] at cut
    by_cases brings : newline ∈ piece
    · obtain ⟨before, after, tail, rfl, split, last, ends, short⟩ :=
        textOf_cut (fun line member => (clean line member).2.1) cut
      obtain ⟨cleanBefore, cleanAfter⟩ := List.forall_mem_append.mp clean
      have shorter : tail.length ≠ (textOf before ++ tail).length := by
        cases before with
        | nil => exact absurd (List.mem_append_right buf brings) (by rw [split]; exact last)
        | cons line before =>
          simp only [textOf_cons, List.length_append, List.length_cons]
          omega
      have small : tail.length < 1023 := by
        rcases short with rfl | ⟨line, member, short⟩
        · decide
        · exact Nat.lt_of_le_of_lt short (cleanAfter line member).2.2
      have scanned := grepLines_text pattern
        (fun line member => (cleanBefore line member).imp_right And.left) last
      have written := grepLines_length pattern (textOf before ++ tail)
      have rest := ih cleanAfter (fun member => nonempty (.tail _ member)) last small ends
      rw [split, scanned] at pass
      simp only [if_neg shorter] at pass
      rw [scanned] at written
      simp only [pass, List.forall_mem_cons, brings, true_and]
      split_ifs at rest ⊢
      · rw [rest]
        simp [textOf]
      · simp only [textOf, List.map_append, List.flatten_append, List.length_append] at *
        omega
    · have some : piece.length ≠ 0 := fun none =>
        nonempty (List.mem_cons.mpr (.inl (List.length_eq_zero_iff.mp none).symm))
      have rest := grepLoop_length pattern [] pieces
      rw [grepLines_tail pattern (by simp [unended, brings])] at pass
      rw [if_neg (fun all => brings (all piece (by simp))), pass]
      simp only [if_true, List.nil_append, List.length_append, List.flatten_cons, List.length_nil] at *
      omega

/-- The empty pattern matches every line. -/
theorem filter_matchRe_nil (lines : List (List UInt8)) : lines.filter (matchRe []) = lines := by
  refine List.filter_eq_self.mpr fun line _ => ?_
  cases line <;> simp [matchRe, matchLoop, matchhere]

/-- `grep` writes the lines that match, whatever the pattern, if and only if every piece that
`read` returns has a newline in it.
-/
theorem grep_lines_iff
    (clean : ∀ line ∈ lines, 0 ∉ line ∧ newline ∉ line ∧ line.length < 1023)
    (nonempty : [] ∉ pieces) (cut : pieces.flatten = textOf lines)
    : (∀ pattern, grep pattern pieces = textOf (lines.filter (matchRe pattern)))
      ↔ ∀ piece ∈ pieces, newline ∈ piece := by
  have spec := fun pattern =>
    @grepLoop_spec pattern [] lines pieces clean nonempty (by simp) (by decide) cut
  constructor
  · intro correct
    by_contra drops
    have shorter := spec []
    rw [if_neg drops, ← grep, correct, filter_matchRe_nil] at shorter
    exact absurd shorter (Nat.lt_irrefl _)
  · intro newlines pattern
    have whole := spec pattern
    rwa [if_pos newlines] at whole

/-- The second line is cut after its first letter. -/
theorem grep_lines_iff_twoPieces
    : grep [97] [[98, newline, 97], [98, newline]]
      = textOf ([[98], [97, 98]].filter (matchRe [97])) :=
  (grep_lines_iff (by decide) (by decide) (by decide)).mpr (by decide) [97]

/-- The line `ab`, cut after its first letter. -/
theorem cutLine_grep
    : [[97], [98, newline]].flatten = textOf [[97, 98]]
      ∧ grep [] [[97], [98, newline]] ≠ textOf ([[97, 98]].filter (matchRe [])) := by
  have drops := @grepLoop_spec [] [] [[97, 98]] [[97], [98, newline]] (by decide) (by decide)
    (by decide) (by decide) rfl
  rw [if_neg (by decide), ← grep] at drops
  refine ⟨rfl, fun correct => ?_⟩
  rw [correct, filter_matchRe_nil] at drops
  exact absurd drops (Nat.lt_irrefl _)

end Reads

end Xv6.User
