import Mathlib

/-! Sequences of atomic writes to a store, and the stores a crash can leave behind.
A crash keeps a prefix of the sequence; nothing is reordered and no write is torn.
-/

namespace Xv6.Lib

open Function (update update_self update_of_ne)

variable {α β : Type} [DecidableEq α]
variable {addr : α} {value : β} {inv : (α → β) → Prop} {store : α → β}

/-- Carry out the writes in order, oldest first. -/
def applyWrites (writes : List (α × β)) (store : α → β) : α → β :=
  writes.foldl (fun current write => update current write.1 write.2) store

/-- The store left by a crash that lets only the first `cut` writes through. -/
def crashAt (cut : Nat) (writes : List (α × β)) (store : α → β) : α → β :=
  applyWrites (writes.take cut) store

/-- Every store that a crash during `writes` can leave satisfies `inv`. -/
def CutsSatisfy (inv : (α → β) → Prop) (writes : List (α × β)) (store : α → β) : Prop :=
  ∀ cut, inv (crashAt cut writes store)

@[simp] theorem applyWrites_nil (store : α → β) : applyWrites [] store = store := rfl

@[simp] theorem applyWrites_cons (write : α × β) (rest : List (α × β)) (store : α → β)
    : applyWrites (write :: rest) store
      = applyWrites rest (update store write.1 write.2) := rfl

theorem applyWrites_append (left right : List (α × β)) (store : α → β)
    : applyWrites (left ++ right) store = applyWrites right (applyWrites left store) :=
  List.foldl_append

/-- An address that is never written keeps its value, by induction over the writes. -/
theorem applyWrites_untouched (writes : List (α × β)) (store : α → β)
    (untouched : ∀ write ∈ writes, write.1 ≠ addr)
    : applyWrites writes store addr = store addr := by
  induction writes generalizing store with
  | nil => rfl
  | cons write rest ih =>
    have later := ih (update store write.1 write.2)
      (fun next member => untouched next (List.mem_cons_of_mem _ member))
    rw [applyWrites_cons, later]
    exact update_of_ne (untouched write List.mem_cons_self).symm _ _

theorem applyWrites_written (writes : List (α × β)) (store : α → β)
    (distinct : (writes.map Prod.fst).Nodup) (member : (addr, value) ∈ writes)
    : applyWrites writes store addr = value := by
  induction writes generalizing store with
  | nil => cases member
  | cons write rest ih =>
    obtain ⟨absent, restDistinct⟩ := List.nodup_cons.mp distinct
    rcases List.mem_cons.mp member with same | later
    · subst same
      rw [applyWrites_cons, applyWrites_untouched]
      · exact update_self _ _ _
      · intro next nextMember equal
        exact absent (List.mem_map.mpr ⟨next, nextMember, equal⟩)
    · exact ih _ restDistinct later

theorem crashAt_append (cut : Nat) (left right : List (α × β)) (store : α → β)
    : crashAt cut (left ++ right) store
      = crashAt (cut - left.length) right (crashAt cut left store) := by
  simp only [crashAt, List.take_append, applyWrites_append]

theorem crashAt_singleton_succ (cut : Nat) (addr : α) (value : β) (store : α → β)
    : crashAt (cut + 1) [(addr, value)] store = update store addr value := by
  simp [crashAt]

/-- Each stage of a sequence may be checked separately. -/
theorem CutsSatisfy.append {left right : List (α × β)} (first : CutsSatisfy inv left store)
    (second : CutsSatisfy inv right (applyWrites left store))
    : CutsSatisfy inv (left ++ right) store := by
  intro cut
  rw [crashAt_append]
  by_cases inLeft : cut ≤ left.length
  · have none : cut - left.length = 0 := by omega
    rw [none]
    exact first cut
  · have whole : left.take cut = left := List.take_of_length_le (by omega)
    have done : crashAt cut left store = applyWrites left store := by
      rw [crashAt, whole]
    rw [done]
    exact second _

/-- One write is atomic: a crash leaves the store before it or the store after it. -/
theorem CutsSatisfy.singleton (before : inv store) (after : inv (update store addr value))
    : CutsSatisfy inv [(addr, value)] store := by
  intro cut
  cases cut with
  | zero => exact before
  | succ cut =>
    rw [crashAt_singleton_succ]
    exact after

/-- An invariant that every single write keeps survives a crash anywhere, and holds at
the end. Witness: induction over the prefix that reached the store.
-/
theorem CutsSatisfy.of_preserved {writes : List (α × β)} (start : inv store)
    (preserved
      : ∀ write ∈ writes, ∀ current,
          inv current → inv (update current write.1 write.2))
    : CutsSatisfy inv writes store ∧ inv (applyWrites writes store) := by
  have foldKeeps (done : List (α × β)) (subset : ∀ write ∈ done, write ∈ writes)
      : ∀ current, inv current → inv (applyWrites done current) := by
    induction done with
    | nil => intro current holds; exact holds
    | cons write rest ih =>
      intro current holds
      refine ih (fun next member => subset next (List.mem_cons_of_mem _ member)) _ ?_
      exact preserved write (subset write List.mem_cons_self) current holds
  exact ⟨fun cut => foldKeeps _ (fun _ member => List.mem_of_mem_take member) store start,
    foldKeeps writes (fun _ member => member) store start⟩

end Xv6.Lib
