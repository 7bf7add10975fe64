import Xv6.Param

/-! Which pages of an address space are present, from `vm.c`.
Addresses are page numbers. `memory` is the number of calls of `kalloc` that succeed before one
fails; whoever else takes and frees pages meanwhile, a call makes no use of `kalloc` after that.
-/

namespace Xv6.Vm

open Function (update update_self update_of_ne)

/-- The user part of a page directory: the entries that are present point to a page table, of
which some entries are present.
-/
abbrev Space := Nat → Option (Nat → Bool)

variable {space parent : Space} {v count : Nat} {table : Nat → Bool} {sz newsz oldsz : UInt32}

/-- The panics of `vm.c` and `userinit`; `nullPointer` is a use of a page that `kalloc` did not
give.
-/
inductive Panic where
  | remap
  | pteShouldExist
  | pageNotPresent
  | addressShouldExist
  | clearpteu
  | outOfMemory
  | nullPointer
  deriving DecidableEq

/-- What `walkpgdir` without allocation finds for page `v`. -/
def Space.present (space : Space) (v : Nat) : Bool :=
  match space (v / npdentries) with
  | none => false
  | some table => table (v % npdentries)

/-- A store to the entry of page `v` in its page table. -/
def Space.store (space : Space) (v : Nat) (table : Nat → Bool) (here : Bool) : Space :=
  update space (v / npdentries) (some (update table (v % npdentries) here))

/-- The pages below a size: `PGROUNDUP(sz) / PGSIZE`. -/
def pages (sz : UInt32) : Nat := (sz.toNat + (pgsize - 1)) / pgsize

/-- The pages below `KERNBASE`. -/
abbrev userPages : Nat := kernbase / pgsize

inductive Mapping where
  | mapped (space : Space) (memory : Nat)
  | noMemory
  | remap

/-- `mappages` for one page. -/
def mappages (space : Space) (v memory : Nat) : Mapping :=
  match space (v / npdentries) with
  | none =>
      match memory with
      | 0 => .noMemory
      | rest + 1 => .mapped (space.store v (fun _ => false) true) rest
  | some table =>
      if table (v % npdentries) then .remap else .mapped (space.store v table true) memory

/-- The loop of `deallocuvm` from page `v`. Where there is no page table it goes on behind it. -/
def deallocLoop (stop : Nat) : Nat → Nat → Space → Space
  | 0, _, space => space
  | fuel + 1, v, space =>
      if v < stop then
        match space (v / npdentries) with
        | none => deallocLoop stop fuel ((v / npdentries + 1) * npdentries) space
        | some table =>
            deallocLoop stop fuel (v + 1)
              (if table (v % npdentries) then space.store v table false else space)
      else space

def deallocuvm (space : Space) (oldsz newsz : UInt32) : Space × UInt32 :=
  if newsz ≥ oldsz then (space, oldsz)
  else (deallocLoop (pages oldsz) (pages oldsz - pages newsz) (pages newsz) space, newsz)

/-- The loop of `allocuvm`, for `left` pages from `v`. When memory runs out it takes back what it
has mapped.
-/
def allocLoop (oldsz newsz : UInt32) : Nat → Nat → Nat → Space → Except Panic (Space × Bool)
  | 0, _, _, space => .ok (space, true)
  | _ + 1, _, 0, space => .ok ((deallocuvm space newsz oldsz).1, false)
  | left + 1, v, memory + 1, space =>
      match mappages space v memory with
      | .mapped space memory => allocLoop oldsz newsz left (v + 1) memory space
      | .noMemory => .ok ((deallocuvm space newsz oldsz).1, false)
      | .remap => .error .remap

/-- The new size, or 0 if it fails. -/
def allocuvm (space : Space) (oldsz newsz : UInt32) (memory : Nat)
    : Except Panic (Space × UInt32) :=
  if newsz.toNat ≥ kernbase then .ok (space, 0)
  else if newsz < oldsz then .ok (space, oldsz)
  else do
    let (space, done) ← allocLoop oldsz newsz (pages newsz - pages oldsz) (pages oldsz) memory space
    return (space, if done then newsz else 0)

/-- The pages that `setupkvm` takes: the directory and the tables of the kernel part. -/
abbrev kernelPages : Nat := 65

/-- The loop of `copyuvm` for `left` pages from `v`. -/
def copyLoop (parent : Space) : Nat → Nat → Nat → Space → Except Panic (Option Space)
  | 0, _, _, space => .ok (some space)
  | left + 1, v, memory, space =>
      match parent (v / npdentries) with
      | none => .error .pteShouldExist
      | some table =>
          if table (v % npdentries) then
            match memory with
            | 0 => .ok none
            | memory + 1 =>
                match mappages space v memory with
                | .mapped space memory => copyLoop parent left (v + 1) memory space
                | .noMemory => .ok none
                | .remap => .error .remap
          else .error .pageNotPresent

def copyuvm (parent : Space) (sz : UInt32) (memory : Nat) : Except Panic (Option Space) :=
  if memory < kernelPages then .ok none
  else copyLoop parent (pages sz) 0 (memory - kernelPages) (fun _ => none)

/-! The present pages. -/

theorem present_of_table (found : space (v / npdentries) = some table)
    : space.present v = table (v % npdentries) := by
  simp [Space.present, found]

theorem present_of_none (absent : space (v / npdentries) = none)
    : space.present v = false := by
  simp [Space.present, absent]

/-- A store changes the entry of one page, whether the page table has been there or is new. -/
theorem present_store (space : Space) (v : Nat) (here : Bool)
    (agrees : ∀ u, u / npdentries = v / npdentries → table (u % npdentries) = space.present u)
    (u : Nat)
    : (space.store v table here).present u = if u = v then here else space.present u := by
  unfold Space.store
  by_cases same : u / npdentries = v / npdentries
  · have found : update space (v / npdentries)
        (some (update table (v % npdentries) here)) (u / npdentries)
        = some (update table (v % npdentries) here) := by
      rw [same, update_self]
    rw [present_of_table found, ← agrees u same]
    by_cases equal : u = v
    · simp [equal]
    · have other : u % npdentries ≠ v % npdentries := by
        simp only [npdentries] at same ⊢
        omega
      rw [update_of_ne other, if_neg equal]
  · have other : u ≠ v := fun equal => same (equal ▸ rfl)
    rw [if_neg other]
    simp only [Space.present, update_of_ne same]

/-- Mapping a page that is not present never panics. -/
theorem mappages_spec (absent : space.present v = false) (memory : Nat)
    : mappages space v memory = .noMemory
      ∨ ∃ next rest, mappages space v memory = .mapped next rest
          ∧ ∀ u, next.present u = if u = v then true else space.present u := by
  unfold mappages
  split
  · rename_i none
    split
    · exact .inl rfl
    · refine .inr ⟨_, _, rfl, present_store space v true fun u same => ?_⟩
      rw [present_of_none (same ▸ none)]
  · rename_i table found
    rw [present_of_table found] at absent
    rw [absent]
    refine .inr ⟨_, _, rfl, present_store space v true fun u same => ?_⟩
    rw [present_of_table (same ▸ found)]

/-- The body of the loop of `deallocuvm`, where there is a page table. -/
theorem present_clear (found : space (v / npdentries) = some table) (u : Nat)
    : (if table (v % npdentries) then space.store v table false else space).present u
      = if u = v then false else space.present u := by
  split
  · exact present_store space v false (fun w same => (present_of_table (same ▸ found)).symm) u
  · rename_i absent
    split
    · rename_i equal
      rw [equal, present_of_table found]
      exact Bool.eq_false_iff.mpr absent
    · rfl

/-- The loop removes the pages from `v` up to `stop` and no others. -/
theorem present_deallocLoop {stop fuel : Nat} (enough : stop ≤ v + fuel) (space : Space) (u : Nat)
    : (deallocLoop stop fuel v space).present u
      = if v ≤ u ∧ u < stop then false else space.present u := by
  induction fuel generalizing v space with
  | zero => rw [if_neg (by omega), deallocLoop]
  | succ fuel ih =>
    unfold deallocLoop
    split
    · split
      · -- The pages of a missing table are not present.
        rename_i absent
        have skipped : v ≤ u → u < (v / npdentries + 1) * npdentries
            → space.present u = false := by
          intro low high
          refine present_of_none ?_
          have same : u / npdentries = v / npdentries := by
            simp only [npdentries] at high ⊢
            omega
          rw [same]
          exact absent
        have further : v < (v / npdentries + 1) * npdentries := by
          simp only [npdentries]
          omega
        rw [ih (by omega) space]
        by_cases beyond : (v / npdentries + 1) * npdentries ≤ u
        · simp only [beyond, true_and, show v ≤ u by omega]
        · rw [if_neg (fun inside => beyond inside.1)]
          split
          · exact skipped (by omega) (by omega)
          · rfl
      · rename_i table found
        rw [ih (by omega), present_clear found]
        rcases Nat.lt_trichotomy u v with below | rfl | above
        · rw [if_neg (by omega), if_neg (by omega), if_neg (by omega)]
        · rw [if_neg (by omega), if_pos rfl, if_pos (by omega)]
        · rw [if_neg (c := u = v) (by omega)]
          exact if_congr (by omega) rfl rfl
    · rw [if_neg (by omega)]

/-- The pages below a number, and no others, are present in the user part. -/
def Space.Holds (space : Space) (count : Nat) : Prop :=
  ∀ u < userPages, space.present u = decide (u < count)

theorem pages_mono (le : sz ≤ newsz) : pages sz ≤ pages newsz := by
  have le : sz.toNat ≤ newsz.toNat := UInt32.le_iff_toNat_le.mp le
  simp only [pages, pgsize]
  omega

theorem pages_le_userPages (user : sz.toNat < kernbase) : pages sz ≤ userPages := by
  simp only [pages, userPages, pgsize, kernbase] at *
  omega

/-- A page below a size. -/
theorem lt_pages_iff (v : Nat) (sz : UInt32) : v < pages sz ↔ v * pgsize < sz.toNat := by
  simp only [pages, pgsize]
  omega

theorem deallocuvm_holds (le : newsz ≤ oldsz) (low : pages newsz ≤ count)
    (high : count ≤ pages oldsz) (holds : space.Holds count)
    : (deallocuvm space oldsz newsz).1.Holds (pages newsz) := by
  intro u user
  have order := pages_mono le
  unfold deallocuvm
  split
  · rename_i ge
    obtain rfl := UInt32.le_antisymm le ge
    rw [holds u user, show count = pages newsz by omega]
  · rw [present_deallocLoop (by omega), holds u user]
    by_cases below : u < pages newsz
    · rw [if_neg (by omega)]
      simp [below, show u < count by omega]
    · split
      · simp [below]
      · simp [below, show ¬ u < count by omega]

/-- The page behind those that are present is mapped, if there is memory for it. -/
theorem mappages_holds (holds : space.Holds v) (user : v < userPages) (memory : Nat)
    : mappages space v memory = .noMemory
      ∨ ∃ next rest, mappages space v memory = .mapped next rest ∧ next.Holds (v + 1) := by
  have absent : space.present v = false := by
    rw [holds v user]
    simp
  refine (mappages_spec absent memory).imp id fun ⟨next, rest, mapped, present⟩ =>
    ⟨next, rest, mapped, fun u below => ?_⟩
  rw [present, holds u below]
  by_cases same : u = v
  · simp [same]
  · rw [if_neg same]
    exact decide_eq_decide.mpr (by omega)

/-- The loop never panics: it maps all pages, or takes back those it has mapped. -/
theorem allocLoop_spec (le : oldsz ≤ newsz) (user : newsz.toNat < kernbase) (left v memory : Nat)
    (space : Space) (low : pages oldsz ≤ v) (rest : v + left = pages newsz) (holds : space.Holds v)
    : ∃ next done, allocLoop oldsz newsz left v memory space = .ok (next, done)
        ∧ next.Holds (if done then pages newsz else pages oldsz) := by
  have bound := pages_le_userPages user
  have undone : ∀ {count space}, pages oldsz ≤ count → count ≤ pages newsz → Space.Holds space count
      → (deallocuvm space newsz oldsz).1.Holds (pages oldsz) := fun low high holds =>
    deallocuvm_holds le low high holds
  induction left generalizing v memory space with
  | zero => exact ⟨space, true, rfl, by rwa [if_pos rfl, ← rest]⟩
  | succ left ih =>
    cases memory with
    | zero => exact ⟨_, false, rfl, undone low (by omega) holds⟩
    | succ memory =>
      rcases mappages_holds holds (by omega) memory with full | ⟨next, less, mapped, more⟩
      · exact ⟨_, false, by rw [allocLoop, full], undone low (by omega) holds⟩
      · obtain ⟨final, done, looped, result⟩ := ih (v + 1) less next (by omega) (by omega) more
        exact ⟨final, done, by rw [allocLoop, mapped]; exact looped, result⟩

/-- `allocuvm` of a space that has the pages below `oldsz`. -/
theorem allocuvm_spec (small : oldsz.toNat < kernbase) (holds : space.Holds (pages oldsz))
    (newsz : UInt32) (memory : Nat)
    : ∃ next sz, allocuvm space oldsz newsz memory = .ok (next, sz)
        ∧ ((sz = 0 ∧ next.Holds (pages oldsz))
          ∨ (oldsz ≤ sz ∧ newsz ≤ sz ∧ sz.toNat < kernbase ∧ next.Holds (pages sz))) := by
  unfold allocuvm
  split
  · exact ⟨space, 0, rfl, .inl ⟨rfl, holds⟩⟩
  · rename_i user
    split
    · rename_i less
      exact ⟨space, oldsz, rfl, .inr ⟨UInt32.le_refl _, UInt32.le_of_lt less, small, holds⟩⟩
    · rename_i le
      have le : oldsz ≤ newsz := UInt32.not_lt.mp le
      have order := pages_mono le
      obtain ⟨next, done, looped, result⟩ := allocLoop_spec le (Nat.not_le.mp user)
        (pages newsz - pages oldsz) (pages oldsz) memory space (Nat.le_refl _) (by omega) holds
      rw [looped]
      cases done with
      | true => exact ⟨next, newsz, rfl, .inr ⟨le, UInt32.le_refl _, Nat.not_le.mp user, result⟩⟩
      | false => exact ⟨next, 0, rfl, .inl ⟨rfl, result⟩⟩

/-- The loop of `copyuvm` finds all pages of the parent and copies them, or runs out of memory. -/
theorem copyLoop_spec (bound : count ≤ userPages) (source : parent.Holds count)
    (left v memory : Nat) (space : Space) (rest : v + left = count) (holds : space.Holds v)
    : copyLoop parent left v memory space = .ok none
      ∨ ∃ next, copyLoop parent left v memory space = .ok (some next) ∧ next.Holds count := by
  induction left generalizing v memory space with
  | zero => exact .inr ⟨space, rfl, by rwa [← rest]⟩
  | succ left ih =>
    have there : parent.present v = true := by
      rw [source v (by omega)]
      simp
      omega
    unfold copyLoop
    cases found : parent (v / npdentries) with
    | none => exact absurd ((present_of_none found).symm.trans there) (by decide)
    | some table =>
      rw [present_of_table found] at there
      simp only [there, if_true]
      cases memory with
      | zero => exact .inl rfl
      | succ memory =>
        rcases mappages_holds holds (by omega) memory with full | ⟨next, less, mapped, more⟩
        · exact .inl (by simp only [full])
        · simp only [mapped]
          exact ih (v + 1) less next (by omega) more

theorem copyuvm_spec (small : sz.toNat < kernbase) (holds : parent.Holds (pages sz)) (memory : Nat)
    : copyuvm parent sz memory = .ok none
      ∨ ∃ next, copyuvm parent sz memory = .ok (some next) ∧ next.Holds (pages sz) := by
  unfold copyuvm
  split
  · exact .inl rfl
  · exact copyLoop_spec (pages_le_userPages small) holds _ 0 _ _ (by omega)
      fun u _ => by simp [Space.present]

end Xv6.Vm
