import Mathlib

/-! The regular expressions of `grep.c`.
A string is the list of its characters before the NUL.
-/

namespace Xv6.User

mutual

def matchhere (re text : List UInt8) : Bool :=
  match re with
  | [] => true
  | c :: rest =>
      if rest.head? = '*'.toUInt8 then matchstar c rest.tail text
      else if c = '$'.toUInt8 ∧ rest = [] then text.isEmpty
      else
        match text with
        | [] => false
        | x :: text => if c = '.'.toUInt8 ∨ c = x then matchhere rest text else false
termination_by (re.length, 0)
decreasing_by all_goals simp_wf; grind

def matchstar (c : UInt8) (re text : List UInt8) : Bool :=
  if matchhere re text then true
  else
    match text with
    | [] => false
    | x :: text => if x = c ∨ c = '.'.toUInt8 then matchstar c re text else false
termination_by (re.length, text.length + 1)

end

/-- The loop of `match`. -/
def matchLoop (re : List UInt8) : List UInt8 → Bool
  | [] => matchhere re []
  | x :: text => if matchhere re (x :: text) then true else matchLoop re text

/-- `match`. -/
def matchRe (re text : List UInt8) : Bool :=
  if re.head? = '^'.toUInt8 then matchhere re.tail text else matchLoop re text

/-! The language of an expression. -/

inductive Item where
  | single (c : UInt8)
  | star (c : UInt8)
  | finish

/-- The items of an expression, from left to right. -/
def items : List UInt8 → List Item
  | [] => []
  | [c] => if c = '$'.toUInt8 then [.finish] else [.single c]
  | c :: d :: re => if d = '*'.toUInt8 then .star c :: items re else .single c :: items (d :: re)

def Fits (c x : UInt8) : Prop := c = '.'.toUInt8 ∨ c = x

/-- The word is in the language of the items, where the text goes on with `after`. -/
def Denotes (after : List UInt8) : List Item → List UInt8 → Prop
  | [], word => word = []
  | .single c :: rest, word => ∃ x tail, word = x :: tail ∧ Fits c x ∧ Denotes after rest tail
  | .star c :: rest, word =>
      ∃ run tail, word = run ++ tail ∧ (∀ x ∈ run, Fits c x) ∧ Denotes after rest tail
  | .finish :: rest, word => after = [] ∧ word = [] ∧ Denotes after rest word

/-- Some prefix of the text is in the language of the items. -/
def Starts (rest : List Item) (text : List UInt8) : Prop :=
  ∃ word after, text = word ++ after ∧ Denotes after rest word

/-- Some substring of the text, or some prefix after a `^`, is in the language. -/
def Found (re text : List UInt8) : Prop :=
  if re.head? = '^'.toUInt8 then Starts (items re.tail) text
  else ∃ before word after, text = before ++ word ++ after ∧ Denotes after (items re) word

section Starts

variable {c : UInt8} {rest : List Item} {text : List UInt8}

theorem starts_nil : Starts [] text := ⟨[], text, rfl, rfl⟩

theorem starts_finish : Starts [.finish] text ↔ text = [] := by
  constructor
  · rintro ⟨_, _, rfl, rfl, rfl, _⟩
    rfl
  · rintro rfl
    exact ⟨[], [], rfl, rfl, rfl, rfl⟩

theorem starts_single
    : Starts (.single c :: rest) text ↔ ∃ x tail, text = x :: tail ∧ Fits c x ∧ Starts rest tail := by
  constructor
  · rintro ⟨_, after, rfl, x, tail, rfl, fits, denotes⟩
    exact ⟨x, tail ++ after, rfl, fits, tail, after, rfl, denotes⟩
  · rintro ⟨x, _, rfl, fits, tail, after, rfl, denotes⟩
    exact ⟨x :: tail, after, rfl, x, tail, rfl, fits, denotes⟩

theorem starts_star
    : Starts (.star c :: rest) text
      ↔ Starts rest text
        ∨ ∃ x tail, text = x :: tail ∧ Fits c x ∧ Starts (.star c :: rest) tail := by
  constructor
  · rintro ⟨_, after, rfl, run, tail, rfl, fits, denotes⟩
    cases run with
    | nil => exact .inl ⟨tail, after, rfl, denotes⟩
    | cons x run =>
      refine .inr ⟨x, run ++ tail ++ after, by simp, fits x (by simp), run ++ tail, after, rfl, ?_⟩
      exact ⟨run, tail, rfl, fun y member => fits y (by simp [member]), denotes⟩
  · rintro (⟨word, after, rfl, denotes⟩ | ⟨x, _, rfl, fits, _, after, rfl, run, tail, rfl, all, denotes⟩)
    · exact ⟨word, after, rfl, [], word, rfl, by simp, denotes⟩
    · refine ⟨x :: run ++ tail, after, by simp, x :: run, tail, by simp, ?_, denotes⟩
      simpa using ⟨fits, all⟩

end Starts

/-- `matchstar` tries the rest after every run. -/
theorem matchstar_iff (c : UInt8) (re text : List UInt8)
    (rest : ∀ text, matchhere re text = true ↔ Starts (items re) text)
    : matchstar c re text = true ↔ Starts (.star c :: items re) text := by
  induction text with
  | nil =>
    rw [matchstar, starts_star, ← rest]
    simp
  | cons x text ih =>
    rw [matchstar, starts_star, ← rest]
    have again : (x = c ∨ c = '.'.toUInt8) ↔ Fits c x := by
      rw [Fits, or_comm, eq_comm (a := x)]
    cases matchhere re (x :: text) <;> simp [again, ih]

theorem matchhere_iff (re text : List UInt8)
    : matchhere re text = true ↔ Starts (items re) text := by
  fun_induction items re generalizing text with
  | case1 => simp [matchhere, starts_nil]
  | case2 => simp [matchhere.eq_def, starts_finish]
  | case3 c other =>
    rw [starts_single, matchhere.eq_def]
    cases text <;> simp [other, Fits, matchhere, starts_nil]
  | case4 c re ih => simp [matchhere.eq_def, matchstar_iff c re text ih]
  | case5 c d re other ih =>
    rw [starts_single, matchhere.eq_def]
    cases text <;> simp [other, Fits, ih]

theorem matchLoop_iff (re text : List UInt8)
    : matchLoop re text = true
      ↔ ∃ before word after, text = before ++ word ++ after ∧ Denotes after (items re) word := by
  induction text with
  | nil => simp [matchLoop, matchhere_iff, Starts]
  | cons x text ih =>
    have here : matchhere re (x :: text) = true ↔ _ := matchhere_iff ..
    cases found : matchhere re (x :: text) with
    | true =>
      obtain ⟨word, after, split, denotes⟩ := here.mp found
      simp only [matchLoop, found, if_true, true_iff]
      exact ⟨[], word, after, split, denotes⟩
    | false =>
      simp only [matchLoop, found, Bool.false_eq_true, if_false, ih]
      constructor
      · rintro ⟨before, word, after, rfl, denotes⟩
        exact ⟨x :: before, word, after, rfl, denotes⟩
      · rintro ⟨before, word, after, split, denotes⟩
        cases before with
        | nil => exact nomatch found.symm.trans (here.mpr ⟨word, after, split, denotes⟩)
        | cons y before =>
          obtain ⟨_, rfl⟩ := List.cons.inj split
          exact ⟨before, word, after, rfl, denotes⟩

/-- `match` decides the language. -/
theorem matchRe_iff (re text : List UInt8) : matchRe re text = true ↔ Found re text := by
  unfold matchRe Found
  split
  · exact matchhere_iff ..
  · exact matchLoop_iff ..

end Xv6.User
