import Xv6.Paging.Growth

/-! The kernel part of an address space: `setupkvm` maps four ranges in 64 page tables. -/

namespace Xv6.Paging

open Lib

/-- A row of `kmap` in pages. -/
structure Row where
  first : Nat
  count : Nat
  frame : Nat
  perm : BitVec 12

def Row.entry (r : Row) : Nat × Nat × Nat × BitVec 12 :=
  (r.first * pgsize, r.frame * pgsize, (r.frame + r.count) * pgsize % 2 ^ 32, r.perm)

def Row.Holds (r : Row) (w : Nat) : Prop := r.first ≤ w ∧ w < r.first + r.count

instance (r : Row) (w : Nat) : Decidable (r.Holds w) := inferInstanceAs (Decidable (_ ∧ _))

/-- Rows that can be mapped one after the other. -/
structure Row.Fits (r : Row) : Prop where
  some : 0 < r.count
  small : r.count < 2 ^ 20
  pages : r.first + r.count ≤ 2 ^ 20
  frames : r.frame + r.count ≤ 2 ^ 20

/-- The entries after the rows are mapped. -/
def mapped (base : Nat → Pte) : List Row → Nat → Pte
  | [], w => base w
  | r :: rest, w =>
      if r.Holds w then ⟨r.frame + (w - r.first), r.perm ||| pteP⟩ else mapped base rest w

def kernelRows (M : Machine) : List Row :=
  [⟨0x80000, 0x100, 0, pteW⟩, ⟨0x80100, M.data - 0x100, 0x100, 0⟩,
    ⟨0x80000 + M.data, 0xE000 - M.data, M.data, pteW⟩, ⟨0xFE000, 0x2000, 0xFE000, pteW⟩]

/-- The entries that `setupkvm` makes. -/
def kernelPte (M : Machine) : Nat → Pte := mapped (fun _ => .zero) (kernelRows M)

variable {M : Machine} {s t : State} {d w : Nat} {o o' : Nat → Use} {rows : List Row}

theorem kmap_eq : kmap M = (kernelRows M).map Row.entry := by
  have low := M.low
  have high := M.high
  simp only [extmem, phystop, pgsize] at low high
  simp only [kmap, kernelRows, List.map_cons, List.map_nil, Row.entry, List.cons.injEq,
    Prod.mk.injEq, extmem, phystop, pgsize, kernbase, devspace, and_true, true_and]
  omega

theorem mapped_congr {base base' : Nat → Pte} (same : base w = base' w)
    : mapped base rows w = mapped base' rows w := by
  induction rows with
  | nil => exact same
  | cons r rest ih => rw [mapped, mapped, ih]

theorem mapped_outside {base : Nat → Pte} (outside : ∀ r ∈ rows, ¬r.Holds w)
    : mapped base rows w = base w := by
  induction rows with
  | nil => rfl
  | cons r rest ih =>
    rw [mapped, if_neg (outside r (by simp))]
    exact ih fun r' member => outside r' (by simp [member])

/-- `mappages` of one row. -/
theorem Row.Fits.mappages_spec {r : Row} (fits : r.Fits) (tables : Tables M s d o)
    (absent : ∀ w, r.Holds w → (s.pte d w).present = false)
    : ∃ b t o', Returns (mappages d (r.first * pgsize)
          (((r.frame + r.count) * pgsize % 2 ^ 32 + 2 ^ 32 - r.frame * pgsize) % 2 ^ 32)
          (r.frame * pgsize) r.perm) s b t
        ∧ (b = false → t.freelist = []) ∧ Maps M d s o t o' (t.pte d)
        ∧ (∀ w, Inside w → ¬r.Holds w → t.pte d w = s.pte d w)
        ∧ (b = true → ∀ w, r.Holds w → t.pte d w = ⟨r.frame + (w - r.first), r.perm ||| pteP⟩) := by
  have some := fits.some
  have small := fits.small
  have pages := fits.pages
  have frames := fits.frames
  obtain ⟨n, count⟩ : ∃ n, r.count = n + 1 := ⟨r.count - 1, by omega⟩
  rw [count] at pages frames
  have size : ((r.frame + r.count) * pgsize % 2 ^ 32 + 2 ^ 32 - r.frame * pgsize) % 2 ^ 32
      = (n + 1) * pgsize := by
    simp only [pgsize]
    omega
  have inside : Inside (r.first + n) := by
    simp only [Inside, npdentries]
    omega
  obtain ⟨b, t, o', m, ran, le, all, empty, maps⟩ :=
    @mapLoop_spec M s d r.first o (2 ^ 20) n r.frame r.perm tables inside (by omega) (by omega)
      fun k le => absent _ ⟨by omega, by omega⟩
  rw [← mappages_eq inside, ← size] at ran
  refine ⟨b, t, o', ran, fun no => (empty no).1, { maps with entries := fun _ _ => rfl },
    fun w within outside => ?_, fun yes w holds => ?_⟩
  · rw [maps.entries w within, if_neg]
    intro range
    exact outside ⟨range.1, by omega⟩
  · obtain ⟨low, high⟩ := holds
    rw [maps.entries w (by simp only [Inside, npdentries]; omega), all.mp yes,
      if_pos ⟨low, by omega⟩, Nat.mod_eq_of_lt (by omega)]

/-- The loop of `setupkvm`. -/
theorem mapRows_spec (fits : ∀ r ∈ rows, r.Fits)
    (apart : rows.Pairwise fun a b => ∀ w, a.Holds w → ¬b.Holds w) (tables : Tables M s d o)
    (absent : ∀ r ∈ rows, ∀ w, r.Holds w → (s.pte d w).present = false)
    : ∃ b t o', Returns (mapKernel d (rows.map Row.entry)) s b t ∧ (b = false → t.freelist = [])
        ∧ Maps M d s o t o' (t.pte d)
        ∧ (∀ w, Inside w → (∀ r ∈ rows, ¬r.Holds w) → t.pte d w = s.pte d w)
        ∧ (b = true → ∀ w, Inside w → t.pte d w = mapped (s.pte d) rows w) := by
  induction rows generalizing s o with
  | nil =>
    exact ⟨true, s, o, rfl, nofun, ⟨.refl s o, tables, rfl, fun _ _ => Iff.rfl, fun _ _ => rfl,
      rfl, id⟩, fun _ _ _ => rfl, fun _ _ _ => rfl⟩
  | cons r rest ih =>
    obtain ⟨b, t, o', ran, empty, maps, outside, holds⟩ :=
      (fits r (by simp)).mappages_spec tables (absent r (by simp))
    obtain ⟨first, apart⟩ := List.pairwise_cons.mp apart
    cases b with
    | false =>
      exact ⟨false, t, o', ran.bind rfl, empty, maps, fun w within none =>
        outside w within (none r (by simp)), nofun⟩
    | true =>
      have range : ∀ r' ∈ rest, ∀ w, r'.Holds w → Inside w := fun r' member w holds => by
        have := (fits r' (by simp [member])).pages
        have := holds.2
        simp only [Inside, npdentries]
        omega
      obtain ⟨b, u, p, ran', empty', maps', outside', holds'⟩ := ih
        (fun r' member => fits r' (by simp [member])) apart maps.tables
        fun r' member w inRow => by
        rw [outside w (range r' member w inRow) fun mine => first r' member w mine inRow]
        exact absent r' (by simp [member]) w inRow
      refine ⟨b, u, p, ran.bind ran', empty', maps.trans maps', fun w within none => ?_,
        fun yes w within => ?_⟩
      · rw [outside' w within fun r' member => none r' (by simp [member]),
          outside w within (none r (by simp))]
      · rw [holds' yes w within, mapped]
        split
        next mine =>
          rw [mapped_outside fun r' member => first r' member w mine, holds rfl w mine]
        next other => exact mapped_congr (outside w within other)

theorem kernelRows_fit : ∀ r ∈ kernelRows M, r.Fits := by
  have low := M.low
  have high := M.high
  simp only [extmem, phystop, pgsize] at low high
  simp only [kernelRows, List.forall_mem_cons, List.not_mem_nil, false_imp_iff, implies_true,
    and_true]
  refine ⟨⟨?_, ?_, ?_, ?_⟩, ⟨?_, ?_, ?_, ?_⟩, ⟨?_, ?_, ?_, ?_⟩, ⟨?_, ?_, ?_, ?_⟩⟩ <;> simp only <;>
    omega

theorem kernelRows_apart
    : (kernelRows M).Pairwise fun a b => ∀ w, a.Holds w → ¬b.Holds w := by
  have low := M.low
  have high := M.high
  simp only [extmem, phystop, pgsize] at low high
  simp only [kernelRows, List.pairwise_cons, List.forall_mem_cons, List.not_mem_nil, false_imp_iff,
    implies_true, and_true, Row.Holds, List.Pairwise.nil]
  refine ⟨⟨?_, ?_, ?_⟩, ⟨?_, ?_⟩, ?_⟩ <;> intros <;> omega

theorem kernelPte_present : (kernelPte M w).present = true ↔ ∃ r ∈ kernelRows M, r.Holds w := by
  rw [kernelPte]
  generalize kernelRows M = rows
  induction rows with
  | nil => simp [mapped, present_zero]
  | cons r rest ih =>
    rw [mapped]
    split
    next holds => exact iff_of_true (present_or ..) ⟨r, by simp, holds⟩
    next other => simp [ih, other]

/-- Which pages the kernel part has does not depend on where `data` is. -/
theorem kernelRows_hold
    : (∃ r ∈ kernelRows M, r.Holds w)
      ↔ (0x80000 ≤ w ∧ w < 0x8E000) ∨ (0xFE000 ≤ w ∧ w < 2 ^ 20) := by
  have low := M.low
  have high := M.high
  simp only [extmem, phystop, pgsize] at low high
  simp only [kernelRows, List.mem_cons, List.not_mem_nil, or_false, exists_eq_or_imp,
    exists_eq_left, Row.Holds]
  omega

/-- The indices of the page tables of the kernel part and of `v` user pages. -/
def indices (v : Nat) : Finset Nat :=
  Finset.range ((v + (npdentries - 1)) / npdentries)
    ∪ (Finset.range npdentries).filter fun i => (512 ≤ i ∧ i < 568) ∨ 1016 ≤ i

theorem mem_indices {v i : Nat} (le : v ≤ userPages)
    : i ∈ indices v ↔ i < npdentries
        ∧ (i < (v + (npdentries - 1)) / npdentries ∨ (512 ≤ i ∧ i < 568) ∨ 1016 ≤ i) := by
  rw [indices, Finset.mem_union, Finset.mem_filter, Finset.mem_range, Finset.mem_range]
  simp only [userPages, kernbase, pgsize, npdentries] at *
  omega

theorem card_indices {v : Nat} (le : v ≤ userPages)
    : (indices v).card = 64 + (v + (npdentries - 1)) / npdentries := by
  have kernel : ((Finset.range npdentries).filter fun i =>
      (512 ≤ i ∧ i < 568) ∨ 1016 ≤ i).card = 64 := by
    decide +kernel
  rw [indices, Finset.card_union_of_disjoint, Finset.card_range, kernel, Nat.add_comm]
  rw [Finset.disjoint_left]
  intro i low high
  simp only [Finset.mem_filter, Finset.mem_range, userPages, kernbase, pgsize, npdentries] at *
  omega

/-- The page tables of a directory with at most the kernel part and `v` user pages. -/
theorem State.tables_le {v : Nat} (tight : Tight t d) (le : v ≤ userPages)
    (entries : ∀ w, Inside w → (t.pte d w).present = true
      → w < v ∨ (kernelPte M w).present = true)
    : t.tables d ≤ 64 + (v + (npdentries - 1)) / npdentries := by
  rw [← card_indices le, State.tables]
  refine Finset.card_le_card fun i member => ?_
  obtain ⟨bound, linked⟩ := Finset.mem_filter.mp member
  have bound := Finset.mem_range.mp bound
  obtain ⟨w, index, here⟩ := tight i bound linked
  have cases := entries w (by rwa [Inside, index]) here
  rw [kernelPte_present, kernelRows_hold] at cases
  refine (mem_indices le).mpr ⟨bound, ?_⟩
  clear entries here tight
  simp only [npdentries] at *
  omega

/-- Such a directory with all of these pages. -/
theorem State.tables_eq {v : Nat} (tight : Tight t d) (le : v ≤ userPages)
    (entries : ∀ w, Inside w
      → ((t.pte d w).present = true ↔ w < v ∨ (kernelPte M w).present = true))
    : t.tables d = 64 + (v + (npdentries - 1)) / npdentries := by
  refine Nat.le_antisymm (State.tables_le tight le fun w within => (entries w within).mp) ?_
  rw [← card_indices le, State.tables]
  refine Finset.card_le_card fun i member => ?_
  obtain ⟨bound, cases⟩ := (mem_indices le).mp member
  refine Finset.mem_filter.mpr ⟨Finset.mem_range.mpr bound, ?_⟩
  have here : (t.pte d (i * npdentries)).present = true := by
    rw [entries _ (by simp only [Inside, npdentries] at *; omega), kernelPte_present,
      kernelRows_hold]
    simp only [npdentries] at *
    omega
  rw [← Nat.mul_div_cancel i (by decide : 0 < npdentries)]
  exact State.linked_of_present here

/-- Memory that others use is as it was. -/
def Aside (s : State) (o : Nat → Use) (t : State) : Prop :=
  ∀ f, o f = .other → t.mem f = s.mem f ∧ t.table f = s.table f

/-- A frame that `kalloc` returned is cleared for a page directory. -/
theorem Free.makeRoot {rest : List Nat} (free : Free M s o) (bare : ∀ f, o f = .free ∨ o f = .other)
    (head : s.freelist = d :: rest)
    : ∃ t, t = { s with freelist := rest, table := Function.update s.table d fun _ => .zero }
        ∧ Space M t d (Function.update o d .root) ∧ (∀ w, t.pte d w = .zero) ∧ Tight t d
        ∧ t.spare d = rest.length ∧ o d = .free := by
  obtain ⟨alloc, first⟩ := free.alloc head
  refine ⟨_, rfl, ?_⟩
  generalize made : ({ s with freelist := rest, table := _ } : State) = t
  have empty : ∀ i, t.table d i = .zero := fun i => by simp [← made]
  have list : t.freelist = rest := by rw [← made]
  have entries : ∀ w, t.pte d w = .zero := fun w => by
    rw [State.pte, empty, present_zero, if_neg Bool.false_ne_true]
  have gone := present_zero
  refine ⟨⟨⟨⟨fun f => ?_, list ▸ alloc.nodup, fun f used => ?_⟩, fun f => ?_, fun f i => ?_⟩,
    fun f w => ?_⟩, entries, fun i _ linked => ?_, ?_, first⟩
  · have := alloc.free f
    rw [list]
    grind
  · have := alloc.valid f
    grind
  · have := bare f
    grind
  · have := bare f
    grind
  · have := bare f
    grind
  · rw [empty, gone] at linked
    cases linked
  · simp [State.spare, State.tables, list, empty, gone]

/-- `setupkvm` makes a page directory of 65 frames with the kernel part, or changes nothing. -/
theorem setupkvm_spec (free : Free M s o) (bare : ∀ f, o f = .free ∨ o f = .other)
    : ∃ r t, Returns (setupkvm M) s r t ∧ Aside s o t
        ∧ ((r = none ∧ Free M t o ∧ s.freelist.length ≤ 65)
          ∨ ∃ d o', r = some d ∧ Space M t d o' ∧ o d = .free
            ∧ (∀ f, o f = .other → o' f = .other)
            ∧ (∀ f, o f = .free → o' f ≠ .other ∧ o' f ≠ .hand)
            ∧ (∀ w, Inside w → t.pte d w = kernelPte M w) ∧ Tight t d
            ∧ s.freelist.length = t.freelist.length + 65) := by
  cases head : s.freelist with
  | nil =>
    refine ⟨none, s, ?_, fun _ _ => ⟨rfl, rfl⟩, .inl ⟨rfl, free, by simp⟩⟩
    simp [setupkvm, kalloc, returns_bind, head]
  | cons d rest =>
    obtain ⟨s', isMade, made, blank, tight, count, first⟩ := free.makeRoot bare head
    obtain ⟨b, t, o', ran, empty, maps, outside, entries⟩ := mapRows_spec kernelRows_fit
      kernelRows_apart made.toTables fun _ _ w _ => by rw [blank, present_zero]
    have pass : ∀ {r : Option Nat} {u : State},
        Returns (if b = true then pure (some d) else do freevm M d; pure none) t r u
        → Returns (setupkvm M) s r u := by
      intro r u last
      rw [setupkvm]
      refine returns_bind.mpr ⟨some d, { s with freelist := rest }, ?_,
        returns_bind.mpr ⟨(), s', returns_modify.mpr isMade.symm, ?_⟩⟩
      · simp [kalloc, returns_bind, returns_comp, head]
      · rw [kmap_eq]
        exact ran.bind last
    have user : ∀ w, w < userPages → t.pte d w = .zero := fun w small => by
      rw [outside w (inside_of_user small), blank]
      intro r member holds
      have := kernelRows_hold.mp ⟨r, member, holds⟩
      simp only [userPages, kernbase, pgsize] at small
      omega
    have space : Space M t d o' :=
      made.of_tables maps.tables maps.pages fun w small => by rw [user w small, blank]
    have others : ∀ f, o f = .other → Function.update o d .root f = .other := fun f isOther => by
      grind
    have aside : Aside s o t := fun f isOther => by
      have apart : f ≠ d := by grind
      rw [(maps.kept f (by simp [others f isOther])).2, maps.table f (others f isOther), isMade]
      exact ⟨rfl, Function.update_of_ne apart ..⟩
    have taken : ∀ f, o f = .free → o' f = .root ∨ o' f = .free ∨ (∃ i, o' f = .table i)
        ∨ ∃ w, o' f = .page w := fun f isFree => by
      have := maps.taken f
      have := maps.kept d
      grind
    have kept : ∀ f, o f = .other → o' f = .other := fun f isOther => by
      have := (maps.kept f (by simp [others f isOther])).1
      rw [this, others f isOther]
    have pages : t.spare d = rest.length := maps.spare.trans count
    have none : 0 ≤ userPages := Nat.zero_le _
    cases b with
    | true =>
      have kernel : ∀ w, Inside w → t.pte d w = kernelPte M w := fun w within => by
        rw [entries rfl w within, kernelPte]
        exact mapped_congr (blank w)
      refine ⟨some d, t, pass rfl, aside, .inr ⟨d, o', rfl, space, first, kept,
        fun f isFree => ?_, kernel, maps.tight tight, ?_⟩⟩
      · have := taken f isFree
        grind
      · rw [State.spare, State.tables_eq (M := M) (maps.tight tight) none fun w within => by
          rw [kernel w within]
          simp] at pages
        simp only [npdentries] at pages
        simp only [List.length_cons]
        omega
    | false =>
      obtain ⟨u, freed, free', mem, table⟩ := freevm_spec space
      have uses : unowned o' = o := by
        funext f
        have := taken f
        have := kept f
        have := bare f
        simp only [unowned]
        grind
      refine ⟨Option.none, u, pass (freed.bind rfl), fun f isOther => ?_,
        .inl ⟨rfl, uses ▸ free', ?_⟩⟩
      · have untouched := aside f isOther
        rw [mem f (by simp [uses, isOther]), table f (kept f isOther)]
        exact untouched
      · have bound := State.tables_le (M := M) (maps.tight tight) none fun w within here => by
          rw [kernelPte_present]
          by_contra beyond
          rw [outside w within (by simpa using beyond), blank] at here
          cases here
        rw [State.spare, empty rfl] at pages
        simp only [npdentries, List.length_nil, List.length_cons] at *
        omega

end Xv6.Paging
