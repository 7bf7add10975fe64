import Xv6.Paging.Skipping

/-! Freeing: `deallocuvm` returns the user pages of a range, and `freevm` every frame of a page
directory. What the other frames hold is kept.
-/

namespace Xv6.Paging

open Lib
open Function (update update_self update_of_ne)

variable {M : Machine}

variable {s t : State} {d f v lo hi : Nat} {o : Nat → Use}
variable {mid sz oldsz : Nat}

/-- The uses after the pages from `lo` to `hi` are freed. -/
def released (o : Nat → Use) (lo hi f : Nat) : Use :=
  match o f with
  | .page w => if lo ≤ w ∧ w < hi then .free else .page w
  | u => u

theorem Free.free_frame (free : Free M s o) (used : o f ≠ .other) (taken : o f ≠ .free)
    : Free M { s with freelist := f :: s.freelist, mem := update s.mem f fun _ => 1 }
        (update o f .free) := by
  have absent : f ∉ s.freelist := fun member => taken ((free.free f).mpr member)
  refine ⟨fun g => ?_, List.nodup_cons.mpr ⟨absent, free.nodup⟩, fun g inUse => ?_⟩
  · have member := free.free g
    simp only [List.mem_cons]
    grind
  · have valid := free.valid g
    have valid' := free.valid f used
    grind

/-- What freeing the pages from `lo` to `hi` does. -/
structure Releases (M : Machine) (d : Nat) (s : State) (o : Nat → Use) (t : State) (lo hi : Nat)
    : Prop where
  space : Space M t d (released o lo hi)
  directory : t.table d = s.table d
  entries
    : ∀ w, Inside w → t.pte d w
        = if (lo ≤ w ∧ w < hi) ∧ (s.pte d w).present = true then .zero else s.pte d w
  mem : ∀ f, released o lo hi f ≠ .free → t.mem f = s.mem f
  table : ∀ f, o f = .other → t.table f = s.table f

theorem released_other (others : o f = .other) : released o lo hi f = .other := by
  simp [released, others]

theorem Releases.refl (space : Space M s d o) (le : hi ≤ lo) : Releases M d s o s lo hi := by
  have same : released o lo hi = o := by
    funext f
    simp only [released]
    split
    next w isPage => rw [if_neg (by omega), isPage]
    next => rfl
  refine ⟨?_, rfl, fun w _ => by rw [if_neg (by omega)], fun _ _ => rfl, fun _ _ => rfl⟩
  rwa [same]

theorem Releases.trans {u : State} (first : Releases M d s o t lo mid)
    (second : Releases M d t (released o lo mid) u mid hi) (le : lo ≤ mid) (le' : mid ≤ hi)
    : Releases M d s o u lo hi := by
  have uses : released (released o lo mid) mid hi = released o lo hi := by
    funext f
    simp only [released]
    cases o f <;> grind
  refine ⟨uses ▸ second.space, second.directory.trans first.directory, fun w within => ?_,
    fun f used => ?_, fun f others => ?_⟩
  · rw [second.entries w within, first.entries w within]
    have gone := present_zero
    grind
  · rw [← uses] at used
    rw [second.mem f used, first.mem f fun free => used (by rw [released, free])]
  · rw [second.table f (released_other others), first.table f others]

/-- The visit of a page. -/
theorem Space.visit (space : Space M s d o) (user : v < userPages)
    : ∃ t, Returns (visitPage M d v) s () t ∧ Releases M d s o t v (v + 1) := by
  have inside := inside_of_user user
  have mine := fun f => space.page f v
  obtain ⟨t, ran, visited⟩ := visitPage_spec space.tree inside fun here =>
    space.valid _ (by simp [(mine _).mpr ⟨user, here, rfl⟩])
  have uses : ∀ f, released o v (v + 1) f = if o f = .page v then .free else o f := by
    intro f
    simp only [released]
    cases isUse : o f <;> grind
  have entries : ∀ w, Inside w → t.pte d w
      = if w = v ∧ (s.pte d w).present = true then .zero else s.pte d w := fun w within => by
    simp only [visited.entries w within, List.mem_singleton]
  have freed : t.freelist
      = (if (s.pte d v).present then [(s.pte d v).frame] else []) ++ s.freelist := by
    rw [visited.freed]
    split <;> simp [*]
  refine ⟨t, ran, ⟨⟨⟨⟨fun f => ?_, ?_, fun f used => ?_⟩, fun f => ?_, fun f i => ?_⟩, fun f w => ?_⟩,
    visited.directory, fun w within => ?_, fun f kept => ?_, fun f others => ?_⟩⟩
  · have := mine f
    have := space.free f
    rw [uses, freed]
    grind
  · have := mine (s.pte d v).frame
    have := space.free (s.pte d v).frame
    have := space.nodup
    rw [freed]
    grind
  · exact space.valid f (by grind)
  · have := space.root f
    grind
  · have := space.table f i
    rw [visited.directory]
    grind
  · have := space.page f w
    have := entries w
    have := @inside_of_user w
    have := present_zero
    grind
  · rw [entries w within]
    grind
  · have := mine f
    refine visited.mem f fun w mem here => ?_
    grind
  · refine visited.others f fun w mem here same => ?_
    obtain rfl := List.mem_singleton.mp mem
    have table := (space.toTables.use inside (State.linked_of_present here)).1
    rw [same, others] at table
    cases table

/-- The visits of the pages of a range. -/
theorem Space.visitAll (lo n : Nat) (space : Space M s d o) (bound : lo + n ≤ userPages)
    : ∃ t, Returns (visitPages M d (List.range' lo n)) s () t ∧ Releases M d s o t lo (lo + n) := by
  induction n generalizing s o lo with
  | zero => exact ⟨s, rfl, .refl space (Nat.le_refl lo)⟩
  | succ n ih =>
    obtain ⟨t, ran, first⟩ := space.visit (v := lo) (by omega)
    obtain ⟨u, ran', rest⟩ := ih (lo + 1) first.space (by omega)
    rw [Nat.add_right_comm] at rest
    exact ⟨u, List.range'_succ .. ▸ ran.bind ran', first.trans rest (by omega) (by omega)⟩

theorem deallocuvm_spec {newsz : Nat} (space : Space M s d o) (le : oldsz ≤ kernbase)
    (lt : newsz < oldsz)
    : ∃ t, Returns (deallocuvm M d oldsz newsz) s newsz t
        ∧ Releases M d s o t (pagesOf newsz) (pagesOf oldsz) := by
  have bound := pagesOf_le le
  have order : pagesOf newsz ≤ pagesOf oldsz := by
    simp only [pagesOf, pgsize]
    omega
  obtain ⟨t, ran, released⟩ := space.visitAll (pagesOf newsz)
    (pagesOf oldsz - pagesOf newsz) (by omega)
  rw [Nat.add_sub_cancel' order] at released
  rw [deallocuvm_eq le, visitRange, if_pos lt]
  exact ⟨t, ran.bind rfl, released⟩

/-- The uses after the page tables in `indices` are freed. -/
def untabled (o : Nat → Use) (indices : List Nat) (f : Nat) : Use :=
  match o f with
  | .table i => if i ∈ indices then .free else .table i
  | u => u

/-- `freevm` frees each present page table once. -/
theorem freeTables_spec {indices : List Nat} (free : Free M s o) (nodup : indices.Nodup)
    (tables : ∀ i ∈ indices, ∀ f, o f = .table i
      ↔ (s.table d i).present = true ∧ (s.table d i).frame = f)
    : ∃ t, Returns (freeTables M d indices) s () t ∧ Free M t (untabled o indices)
        ∧ t.table = s.table ∧ ∀ f, untabled o indices f ≠ .free → t.mem f = s.mem f := by
  induction indices generalizing s o with
  | nil =>
    have same : untabled o [] = o := by
      funext f
      simp only [untabled]
      cases o f <;> simp
    refine ⟨s, rfl, ?_, rfl, fun _ _ => rfl⟩
    rwa [same]
  | cons i rest ih =>
    obtain ⟨fresh, nodup⟩ := List.nodup_cons.mp nodup
    have mine := tables i (by simp)
    by_cases here : (s.table d i).present = true
    · generalize frame : (s.table d i).frame = f at mine
      have used : o f = .table i := (mine f).mpr ⟨here, rfl⟩
      have uses : untabled (update o f .free) rest = untabled o (i :: rest) := by
        funext g
        simp only [untabled]
        have only := mine g
        by_cases same : g = f
        · simp [same, used]
        · rw [update_of_ne same]
          cases isUse : o g <;> grind
      have freed := free.free_frame (f := f) (by simp [used]) (by simp [used])
      obtain ⟨t, ran, free', same, mem⟩ := ih freed nodup fun j member g => by
        have := tables j (by simp [member]) g
        grind
      refine ⟨t, ?_, uses ▸ free', same, fun g kept => ?_⟩
      · have freed := kfree_returns (s := s) (free.valid f (by simp [used]))
        refine returns_bind.mpr ⟨s, s, returns_get.mpr ⟨rfl, rfl⟩, ?_⟩
        rw [if_pos here, frame]
        exact freed.bind ran
      · have taken : g ≠ f := fun isSelf => kept (by simp [untabled, isSelf, used])
        rw [mem g (uses ▸ kept)]
        exact update_of_ne taken ..
    · have uses : untabled o rest = untabled o (i :: rest) := by
        funext g
        simp only [untabled]
        have only := mine g
        cases isUse : o g <;> grind
      obtain ⟨t, ran, rest⟩ := ih free nodup fun j member => tables j (by simp [member])
      exact ⟨t, by simpa [freeTables, returns_bind, here] using ran, uses ▸ rest⟩

/-- The uses after the page directory is freed. -/
def unowned (o : Nat → Use) (f : Nat) : Use :=
  match o f with
  | .root | .table _ | .page _ => .free
  | u => u

/-- `freevm` puts every frame of the page directory on the free list. -/
theorem freevm_spec (space : Space M s d o)
    : ∃ t, Returns (freevm M d) s () t ∧ Free M t (unowned o)
        ∧ (∀ f, unowned o f ≠ .free → t.mem f = s.mem f)
        ∧ ∀ f, o f = .other → t.table f = s.table f := by
  obtain ⟨t, pages, released⟩ :=
    deallocuvm_spec space (Nat.le_refl kernbase) (by decide : 0 < kernbase)
  obtain ⟨u, tables, free, same, mem⟩ := freeTables_spec (d := d) released.space.toFree
    (@List.nodup_range npdentries) fun i member f => by
    rw [released.space.table, and_iff_right (List.mem_range.mp member)]
  have root : o d = .root := (space.root d).mpr rfl
  have uses : update (untabled (Paging.released o (pagesOf 0) (pagesOf kernbase))
      (List.range npdentries)) d .free = unowned o := by
    funext f
    simp only [unowned]
    by_cases isRoot : f = d
    · simp [isRoot, root]
    · rw [update_of_ne isRoot, untabled, Paging.released]
      cases isUse : o f with
      | root => exact absurd ((space.root f).mp isUse) isRoot
      | table i => simp [((space.table f i).mp isUse).1]
      | page w =>
        have user := ((space.page f w).mp isUse).1
        have all : pagesOf 0 ≤ w ∧ w < pagesOf kernbase := ⟨Nat.zero_le w, user⟩
        simp [all]
      | _ => rfl
  have held : untabled (Paging.released o (pagesOf 0) (pagesOf kernbase))
      (List.range npdentries) d = .root := by
    simp [untabled, Paging.released, root]
  refine ⟨_, pages.bind (tables.bind (kfree_returns (free.valid d (by simp [held])))),
    uses ▸ free.free_frame (by simp [held]) (by simp [held]), fun f kept => ?_, fun f others => ?_⟩
  · rw [← uses] at kept
    have apart : f ≠ d := fun same => kept (by rw [same, update_self])
    rw [update_of_ne apart] at kept
    have before : Paging.released o (pagesOf 0) (pagesOf kernbase) f ≠ .free := fun isFree =>
      kept (by rw [untabled, isFree])
    exact (update_of_ne apart ..).trans ((mem f kept).trans (released.mem f before))
  · exact (congrFun same f).trans (released.table f others)

end Xv6.Paging
