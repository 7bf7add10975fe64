import Xv6.Paging.Frames

/-! `deallocuvm` skips the rest of a page table that is not there. It does the same as a loop that
visits every page. `kfree` fills a frame in `mem` only, so no page of the range is a page table that
is read later.
-/

namespace Xv6.Paging

open Lib
open Function (update update_self update_of_ne)

variable {M : Machine} {s t : State} {d f v sz oldsz newsz : Nat} {pages : List Nat}

/-- The number of pages of a process of size `sz`. -/
def pagesOf (sz : Nat) : Nat := (sz + (pgsize - 1)) / pgsize

theorem lt_pagesOf : v * pgsize < sz ↔ v < pagesOf sz := by
  simp only [pagesOf, pgsize]
  omega

theorem pgroundup_eq (le : sz ≤ kernbase) : pgroundup sz = pagesOf sz * pgsize := by
  simp only [pgroundup, pagesOf, kernbase, pgsize] at *
  omega

theorem pagesOf_le (le : sz ≤ kernbase) : pagesOf sz ≤ userPages := by
  simp only [pagesOf, userPages, kernbase, pgsize] at *
  omega

/-- What `deallocuvm` does at page `v`. -/
def visitPage (M : Machine) (d v : Nat) : PagingM Unit := do
  match ← walkpgdir d (v * pgsize) false with
  | none => pure ()
  | some (pgtab, i) => do
      let s ← get
      if (s.table pgtab i).present then do
        kfree M (s.table pgtab i).frame
        setEntry pgtab i .zero

def visitPages (M : Machine) (d : Nat) : List Nat → PagingM Unit
  | [] => pure ()
  | v :: rest => do
      visitPage M d v
      visitPages M d rest

/-- The pages in `[PGROUNDUP(newsz), oldsz)`. -/
def pagesFrom (newsz oldsz : Nat) : List Nat :=
  List.range' (pagesOf newsz) (pagesOf oldsz - pagesOf newsz)

/-- `deallocuvm` without the skip. -/
def visitRange (M : Machine) (d oldsz newsz : Nat) : PagingM Nat :=
  if newsz < oldsz then do
    visitPages M d (pagesFrom newsz oldsz)
    pure newsz
  else pure oldsz

/-- What the visits do: each page that is present is passed to `kfree` once, in order, and its
entry is cleared.
-/
structure Visited (d : Nat) (pages : List Nat) (s t : State) : Prop where
  freed
    : t.freelist = ((pages.filter fun v => (s.pte d v).present).map fun v => (s.pte d v).frame).reverse
        ++ s.freelist
  directory : t.table d = s.table d
  entries
    : ∀ w, Inside w → t.pte d w
        = if w ∈ pages ∧ (s.pte d w).present = true then .zero else s.pte d w
  others
    : ∀ f, (∀ v ∈ pages, (s.pte d v).present = true → (s.table d (v / npdentries)).frame ≠ f)
      → t.table f = s.table f
  mem
    : ∀ f, (∀ v ∈ pages, (s.pte d v).present = true → (s.pte d v).frame ≠ f) → t.mem f = s.mem f

/-- If the entry is present, `kfree` takes its page. -/
abbrev Accepted (M : Machine) (e : Pte) : Prop :=
  e.present = true → M.endFrame ≤ e.frame ∧ e.frame * pgsize < phystop

theorem kfree_returns (valid : M.endFrame ≤ f ∧ f * pgsize < phystop)
    : Returns (kfree M f) s ()
        { s with freelist := f :: s.freelist, mem := update s.mem f fun _ => 1 } := by
  have passes : ¬(f < M.endFrame ∨ f * pgsize ≥ phystop) := by omega
  simp [kfree, memset, passes]

theorem walkpgdir_absent (inside : Inside v) (absent : ¬(s.table d (v / npdentries)).present = true)
    : Returns (walkpgdir d (v * pgsize) false) s none s := by
  simp [walkpgdir, returns_bind, pdx_page inside, absent]

theorem visitPages_absent (inside : ∀ v ∈ pages, Inside v)
    (absent : ∀ v ∈ pages, ¬(s.table d (v / npdentries)).present = true) (rest : List Nat)
    : visitPages M d (pages ++ rest) s = visitPages M d rest s := by
  induction pages with
  | nil => rfl
  | cons v pages ih =>
    simp only [List.forall_mem_cons] at inside absent
    rw [List.cons_append, visitPages, visitPage, bind_assoc,
      (walkpgdir_absent inside.1 absent.1).bind_eq, pure_bind, ih inside.2 absent.2]

theorem range'_skip {m n : Nat} (le : v ≤ m)
    : List.range' v (n - v) = List.range' v (min m n - v) ++ List.range' m (n - m) := by
  rcases Nat.le_total m n with below | above
  · have split : n - v = (m - v) + (n - m) := by omega
    rw [Nat.min_eq_left below, split, ← List.range'_append_1, Nat.add_sub_cancel' le]
  · rw [Nat.min_eq_right above, Nat.sub_eq_zero_of_le above, List.range'_zero, List.append_nil]

/-- The passes of `deallocuvm` from page `v`; the induction is on the passes. -/
theorem deallocLoop_eq {fuel : Nat} (le : oldsz ≤ kernbase) (enough : pagesOf oldsz - v < fuel)
    : deallocLoop M d oldsz fuel (v * pgsize)
      = visitPages M d (List.range' v (pagesOf oldsz - v)) := by
  have bound := pagesOf_le le
  induction fuel generalizing v with
  | zero => exact absurd enough (Nat.not_lt_zero _)
  | succ fuel ih =>
    by_cases more : v < pagesOf oldsz
    case neg =>
      rw [deallocLoop, if_neg (mt lt_pagesOf.mp more), Nat.sub_eq_zero_of_le (by omega)]
      rfl
    have user := Nat.lt_of_lt_of_le more bound
    have inside := inside_of_user user
    funext s
    rw [deallocLoop, if_pos (lt_pagesOf.mpr more), pdx_page inside]
    by_cases linked : (s.table d (v / npdentries)).present = true
    · have split : pagesOf oldsz - v = pagesOf oldsz - (v + 1) + 1 := by omega
      have walked := walkpgdir_linked inside linked
      have got : Returns (get : PagingM State) s s s := returns_get.mpr ⟨rfl, rfl⟩
      rw [split, List.range'_succ, visitPages, visitPage, bind_assoc, walked.bind_eq,
        walked.bind_eq, next_page user, ih (by omega)]
      simp only [bind_assoc]
      rw [got.bind_eq, got.bind_eq]
      by_cases here : (s.table (s.table d (v / npdentries)).frame (v % npdentries)).present = true
      · simp only [here, if_true, bind_assoc]
      · simp only [here, if_false, pure_bind, Bool.false_eq_true]
    · -- The pages up to the next page table are not there.
      obtain ⟨m, target, above, table⟩ : ∃ m, (v / npdentries + 1) * 2 ^ 22 % 2 ^ 32 = m * pgsize
          ∧ v < m ∧ ∀ w, v ≤ w → w < m → w / npdentries = v / npdentries := by
        refine ⟨(v / npdentries + 1) * npdentries, ?_, ?_, fun w _ _ => ?_⟩ <;>
          simp only [pgsize, npdentries, userPages, kernbase] at * <;> omega
      have skipped : ∀ w ∈ List.range' v (min m (pagesOf oldsz) - v),
          w / npdentries = v / npdentries := by
        intro w mem
        rw [List.mem_range'_1] at mem
        exact table w mem.1 (by omega)
      rw [(walkpgdir_absent inside linked).bind_eq, target, ih (by omega), range'_skip above.le,
        visitPages_absent (fun w mem => by rwa [Inside, skipped w mem])
          fun w mem => by rwa [skipped w mem]]

theorem Visited.nil : Visited d [] s s :=
  ⟨rfl, rfl, by simp, fun _ _ => rfl, fun _ _ => rfl⟩

/-- Visits of different pages. -/
theorem Visited.cons {u : State} (first : Visited d [v] s t) (rest : Visited d pages t u)
    (fresh : v ∉ pages) (inside : ∀ w ∈ pages, Inside w)
    : Visited d (v :: pages) s u := by
  have same : ∀ w ∈ pages, t.pte d w = s.pte d w := by
    intro w mem
    have other : w ≠ v := fun same => fresh (same ▸ mem)
    rw [first.entries w (inside w mem), if_neg (by simp [other])]
  refine ⟨?_, rest.directory.trans first.directory, fun w within => ?_, fun f others => ?_,
    fun f others => ?_⟩
  · have later : pages.filter (fun w => (t.pte d w).present)
        = pages.filter fun w => (s.pte d w).present :=
      List.filter_congr fun w mem => by rw [same w mem]
    have frames : (pages.filter fun w => (s.pte d w).present).map (fun w => (t.pte d w).frame)
        = (pages.filter fun w => (s.pte d w).present).map fun w => (s.pte d w).frame :=
      List.map_congr_left fun w mem => by rw [same w (List.mem_of_mem_filter mem)]
    rw [rest.freed, first.freed, later, frames]
    by_cases here : (s.pte d v).present = true <;> simp [here]
  · have before := first.entries w within
    rw [rest.entries w within]
    grind [present_zero]
  · rw [rest.others f fun w mem => ?_, first.others f fun w mem => others w (by simp_all)]
    rw [same w mem, first.directory]
    exact others w (.tail _ mem)
  · rw [rest.mem f fun w mem => ?_, first.mem f fun w mem => others w (by simp_all)]
    rw [same w mem]
    exact others w (.tail _ mem)

theorem visitPage_spec (tree : Tree s d) (inside : Inside v) (accepted : Accepted M (s.pte d v))
    : ∃ t, Returns (visitPage M d v) s () t ∧ Visited d [v] s t := by
  by_cases here : (s.pte d v).present = true
  case neg =>
    refine ⟨s, ?_, by simp [here], rfl, fun w _ => by grind, fun _ _ => rfl, fun _ _ => rfl⟩
    by_cases linked : (s.table d (v / npdentries)).present = true
    · rw [State.pte, if_pos linked] at here
      refine (walkpgdir_linked inside linked).bind (returns_get_bind.mpr ?_)
      rw [if_neg here]
      rfl
    · exact (walkpgdir_absent inside linked).bind rfl
  have linked := State.linked_of_present here
  have entry : s.table (s.table d (v / npdentries)).frame (v % npdentries) = s.pte d v := by
    rw [State.pte, if_pos linked]
  have freed := kfree_returns (s := s) (accepted here)
  generalize after : ({ s with freelist := _ :: s.freelist, mem := _ } : State) = u at freed
  have tables : u.table = s.table := after ▸ rfl
  refine ⟨u.set (s.table d (v / npdentries)).frame (v % npdentries) .zero,
    (walkpgdir_linked inside linked).bind (returns_get_bind.mpr ?_), ?_, ?_, fun w within => ?_,
    fun f others => ?_, fun f others => ?_⟩
  · rw [entry, if_pos here]
    exact freed.bind (returns_modify.mpr rfl)
  · simp [← after, State.set, here]
  · rw [State.set_table_ne (tree.root _ inside linked).symm, tables]
  · have set := Tree.pte_set (s := u) (e := .zero) ⟨tables ▸ tree.apart, tables ▸ tree.root⟩ inside
      (tables ▸ linked) within
    rw [tables] at set
    rw [set, State.pte_congr tables]
    grind
  · rw [State.set_table_ne (others v (by simp) here).symm, tables]
  · rw [← after]
    exact update_of_ne (others v (by simp) here).symm ..

theorem visitPage_stops (inside : Inside v) (refused : ¬Accepted M (s.pte d v))
    : Stops (visitPage M d v) s .kfree := by
  obtain ⟨here, invalid⟩ := Classical.not_imp.mp refused
  obtain ⟨pgtab, -, -, walked, entry⟩ := walkpgdir_finds inside here
  refine stops_bind.mpr (.inr ⟨_, s, walked, stops_bind.mpr (.inr ⟨s, s, ?_, ?_⟩)⟩)
  · exact returns_get.mpr ⟨rfl, rfl⟩
  rw [entry, if_pos here]
  refine stops_bind.mpr (.inl ?_)
  rw [kfree, if_pos (by omega)]
  rfl

theorem visitPages_spec (tree : Tree s d) (nodup : pages.Nodup) (inside : ∀ v ∈ pages, Inside v)
    : if ∀ v ∈ pages, Accepted M (s.pte d v) then
        ∃ t, Returns (visitPages M d pages) s () t ∧ Visited d pages s t
      else Stops (visitPages M d pages) s .kfree := by
  induction pages generalizing s with
  | nil => simpa [visitPages] using Visited.nil
  | cons v pages ih =>
    obtain ⟨fresh, nodup⟩ := List.nodup_cons.mp nodup
    simp only [List.forall_mem_cons] at inside ⊢
    by_cases accepted : Accepted M (s.pte d v)
    case neg =>
      rw [if_neg fun all => accepted all.1]
      exact stops_bind.mpr (.inl (visitPage_stops inside.1 accepted))
    obtain ⟨t, ran, first⟩ := visitPage_spec tree inside.1 accepted
    have same : (∀ w ∈ pages, Accepted M (t.pte d w)) ↔ ∀ w ∈ pages, Accepted M (s.pte d w) :=
      forall₂_congr fun w mem => by
        have other : w ≠ v := fun same => fresh (same ▸ mem)
        rw [first.entries w (inside.2 w mem), if_neg (by simp [other])]
    have later := ih (s := t) ⟨first.directory ▸ tree.apart, first.directory ▸ tree.root⟩ nodup
      inside.2
    by_cases all : ∀ w ∈ pages, Accepted M (s.pte d w)
    · rw [if_pos (same.mpr all)] at later
      obtain ⟨u, ran', rest⟩ := later
      rw [if_pos ⟨accepted, all⟩]
      exact ⟨u, ran.bind ran', first.cons rest fresh inside.2⟩
    · rw [if_neg (mt same.mp all)] at later
      rw [if_neg fun both => all both.2]
      exact stops_bind.mpr (.inr ⟨(), t, ran, later⟩)

theorem deallocuvm_eq (le : oldsz ≤ kernbase)
    : deallocuvm M d oldsz newsz = visitRange M d oldsz newsz := by
  have bound := pagesOf_le le
  by_cases shrinks : newsz < oldsz
  · have enough : pagesOf oldsz - pagesOf newsz < 2 ^ 20 + 1 := by
      simp only [userPages, kernbase, pgsize] at bound
      omega
    rw [deallocuvm, if_neg (by omega), pgroundup_eq (by omega), deallocLoop_eq le enough, visitRange,
      if_pos shrinks, pagesFrom]
  · rw [deallocuvm, if_pos (by omega), visitRange, if_neg shrinks]

/-- `deallocuvm` does in every state what the loop over all pages of the range does. With page
tables that are different frames, it passes each page of the range to `kfree` once and clears its
entry, unless `kfree` refuses one.
-/
theorem deallocuvm_visits (le : oldsz ≤ kernbase)
    : deallocuvm M d oldsz newsz = visitRange M d oldsz newsz
      ∧ ∀ s, Tree s d
          → if ∀ v ∈ pagesFrom newsz oldsz, Accepted M (s.pte d v) then
              ∃ t, Returns (deallocuvm M d oldsz newsz) s (if newsz < oldsz then newsz else oldsz) t
                ∧ Visited d (pagesFrom newsz oldsz) s t
            else Stops (deallocuvm M d oldsz newsz) s .kfree := by
  have bound := pagesOf_le le
  refine ⟨deallocuvm_eq le, fun s tree => ?_⟩
  have inside : ∀ v ∈ pagesFrom newsz oldsz, Inside v := by
    intro v mem
    rw [pagesFrom, List.mem_range'_1] at mem
    exact inside_of_user (by omega)
  have visits := visitPages_spec (M := M) tree List.nodup_range' inside
  rw [deallocuvm_eq le, visitRange]
  by_cases shrinks : newsz < oldsz
  · simp only [if_pos shrinks]
    split
    next all =>
      obtain ⟨t, ran, visited⟩ := (if_pos all ▸ visits :)
      exact ⟨t, ran.bind rfl, visited⟩
    next refused => exact stops_bind.mpr (.inl (if_neg refused ▸ visits :))
  · have none : pagesFrom newsz oldsz = [] := by
      simp only [pagesFrom, pagesOf, pgsize, List.range'_eq_nil_iff]
      omega
    simpa [shrinks, none] using Visited.nil

/-- All pages of a process with one page and one page table. -/
theorem onePage_visits
    : ∃ t, Returns (deallocuvm smallMachine 512 kernbase 0) (onePage []) 0 t
        ∧ Visited 512 (pagesFrom 0 kernbase) (onePage []) t := by
  have tree := (@onePage_space [] (by decide) (by decide)).toTables.tree
  have accepted : ∀ v, Accepted smallMachine ((onePage []).pte 512 v) := fun v => by
    rw [onePage_pte]
    split <;> decide
  have visits : ∀ {sz}, sz ≤ kernbase
      → ∃ t, Returns (deallocuvm smallMachine 512 sz 0) (onePage []) (if 0 < sz then 0 else sz) t
        ∧ Visited 512 (pagesFrom 0 sz) (onePage []) t := fun le => by
    have visits := (@deallocuvm_visits smallMachine 512 _ 0 le).2 (onePage []) tree
    rwa [if_pos fun v _ => accepted v] at visits
  exact visits (Nat.le_refl _)

end Xv6.Paging
