import Mathlib

/-! Lists in the order of last use, searched from the front.
Moving an element to the front keeps what a search finds, unless it looks for that element.
-/

namespace Xv6.Lib

variable {β : Type} [DecidableEq β] {order : List β} {x y : β} {p q : β → Bool}

/-- Move an element to the front. -/
def touch (x : β) (order : List β) : List β := x :: order.erase x

theorem mem_touch (all : ∀ z, z ∈ order) (z : β) : z ∈ touch x order := by
  by_cases same : z = x
  · simp [touch, same]
  · exact List.mem_cons_of_mem _ ((List.mem_erase_of_ne same).mpr (all z))

theorem nodup_touch (nodup : order.Nodup) : (touch x order).Nodup :=
  List.nodup_cons.mpr ⟨nodup.not_mem_erase, nodup.erase x⟩

theorem find?_touch_self (holds : p x = true) : (touch x order).find? p = some x := by
  simp [touch, holds]

theorem find?_touch_of_not (fails : p x = false) : (touch x order).find? p = order.find? p := by
  have erased : (order.erase x).find? p = order.find? p := by
    induction order with
    | nil => rfl
    | cons head rest ih =>
      by_cases same : head = x
      · subst same
        simp [fails]
      · rw [List.erase_cons_tail (by simpa using same), List.find?_cons, List.find?_cons, ih]
  simp [touch, fails, erased]

omit [DecidableEq β] in
/-- A narrower search still finds what the wider one found first. -/
theorem find?_of_wider (found : order.find? p = some y) (wider : ∀ z, q z = true → p z = true)
    (holds : q y = true)
    : order.find? q = some y := by
  induction order with
  | nil => cases found
  | cons head rest ih =>
    rw [List.find?_cons] at found ⊢
    cases first : p head with
    | true =>
      simp only [first] at found
      cases found
      simp [holds]
    | false =>
      simp only [first] at found
      have skipped : q head = false := by
        refine Bool.eq_false_iff.mpr fun narrow => ?_
        rw [wider head narrow] at first
        cases first
      simp only [skipped]
      exact ih found

omit [DecidableEq β] in
theorem find?_of_unique (member : x ∈ order) (holds : p x = true)
    (unique : ∀ z, p z = true → z = x)
    : order.find? p = some x := by
  cases found : order.find? p with
  | none => exact absurd holds (by simpa using List.find?_eq_none.mp found x member)
  | some y => rw [unique y (List.find?_some found)]

end Xv6.Lib
