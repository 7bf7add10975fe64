import Xv6.Paging.Freeing

/-! Growing and shrinking a process: `allocuvm`, `growproc` and `sys_sbrk`. -/

namespace Xv6.Paging

open Lib

variable {M : Machine} {s t : State} {d f v lo hi oldsz newsz : Nat} {o o' : Nat → Use}
  {perm : Nat → BitVec 12} {bytes : Nat → Bytes}
variable {u : State} {p : Nat → Use}

/-- The pages from `lo` to `hi` are new, with the permissions and bytes that are given. -/
structure Grown (M : Machine) (d : Nat) (perm : Nat → BitVec 12) (bytes : Nat → Bytes) (s : State)
    (o : Nat → Use) (t : State) (o' : Nat → Use) (lo hi : Nat) : Prop extends Extends s o t o' where
  space : Space M t d o'
  old : ∀ w, Inside w → ¬(lo ≤ w ∧ w < hi) → t.pte d w = s.pte d w
  new
    : ∀ w, lo ≤ w → w < hi → ∃ f, o f = .free ∧ o' f = .page w
        ∧ t.pte d w = ⟨f, perm w ||| pteP⟩ ∧ t.mem f = bytes w

/-- What is left when it has failed: page tables. A frame in `hand` is still to be freed. -/
structure Undone (M : Machine) (d : Nat) (hand : Option Nat) (s : State) (o : Nat → Use)
    (t : State) (o' : Nat → Use) : Prop where
  space : Space M t d o'
  kept : ∀ f, o f ≠ .free → o' f = o f ∧ t.mem f = s.mem f
  taken
    : ∀ f, o f = .free → o' f = .free ∨ (∃ i, o' f = .table i) ∨ (hand = some f ∧ o' f = .hand)
  entries
    : ∀ w, w < userPages → (s.pte d w).present = true ∨ (t.pte d w).present = true
        → t.pte d w = s.pte d w

theorem Grown.refl (space : Space M s d o) : Grown M d perm bytes s o s o lo lo where
  toExtends := .refl s o
  space := space
  old := fun _ _ _ => rfl
  new := fun w above below => absurd below (by omega)

theorem Undone.refl (space : Space M s d o) : Undone M d none s o s o :=
  ⟨space, fun _ _ => ⟨rfl, rfl⟩, fun _ free => .inl free, fun _ _ _ => rfl⟩

/-- One more page. -/
theorem Grown.add (grown : Grown M d perm bytes s o t o' lo v) (space : Space M u d p)
    (ext : Extends t o' u p) (free : o' f = .free)
    (entries : ∀ w, Inside w → u.pte d w = if w = v then ⟨f, perm v ||| pteP⟩ else t.pte d w)
    (filled : u.mem f = bytes v) (page : p f = .page v) (inside : Inside v) (le : lo ≤ v)
    : Grown M d perm bytes s o u p lo (v + 1) where
  toExtends := grown.toExtends.trans ext
  space := space
  old := fun w within outside => by
    rw [entries w within, if_neg (by omega)]
    exact grown.old w within (by omega)
  new := fun w above below => by
    by_cases last : w = v
    · have wasFree : o f = .free := by
        by_contra used
        exact used ((grown.kept f used).1.symm.trans free)
      exact ⟨f, wasFree, last ▸ page, by rw [last, entries v inside, if_pos rfl], last ▸ filled⟩
    · obtain ⟨g, wasFree, isPage, entry, same⟩ := grown.new w above (by omega)
      have kept := ext.kept g (by simp [isPage])
      have within : Inside w := by
        simp only [Inside, npdentries] at *
        omega
      exact ⟨g, wasFree, kept.1.trans isPage, by rw [entries w within, if_neg last, entry],
        kept.2.trans same⟩

/-- `deallocuvm` of the new pages, after an allocation that took one more frame or none. -/
theorem Undone.of_release {hand : Option Nat} (space : Space M s d o)
    (absent : ∀ w, lo ≤ w → w < userPages → (s.pte d w).present = false)
    (kept : ∀ g, o g ≠ .free → p g = o g ∧ t.mem g = s.mem g)
    (taken : ∀ g, o g = .free
      → p g = .free ∨ (∃ i, p g = .table i) ∨ (∃ w, p g = .page w) ∨ (hand = some g ∧ p g = .hand))
    (entries : ∀ w, Inside w → ¬(lo ≤ w ∧ w < hi) → t.pte d w = s.pte d w)
    (released : Releases M d t p u lo hi) (inUse : Space M t d p)
    : Undone M d hand s o u (Paging.released p lo hi) := by
  have pages : ∀ g w, p g = .page w → ¬(lo ≤ w ∧ w < hi) → o g = .page w := by
    intro g w isPage outside
    obtain ⟨user, here, frame⟩ := (inUse.page g w).mp isPage
    rw [entries w (inside_of_user user) outside] at here frame
    exact (space.page g w).mpr ⟨user, here, frame⟩
  have old : ∀ g w, o g = .page w → w < lo := by
    intro g w isPage
    obtain ⟨user, here, _⟩ := (space.page g w).mp isPage
    by_contra above
    rw [absent w (by omega) user] at here
    cases here
  refine ⟨released.space, fun g used => ?_, fun g free => ?_, fun w user here => ?_⟩
  · obtain ⟨same, bytes⟩ := kept g used
    have unchanged : Paging.released p lo hi g = o g := by
      rw [Paging.released, same]
      cases isUse : o g with
      | page w => simp [Nat.not_le.mpr (old g w isUse)]
      | _ => rfl
    exact ⟨unchanged, (released.mem g (unchanged ▸ used)).trans bytes⟩
  · rw [Paging.released]
    have := pages g
    have := taken g free
    grind
  · have inside := inside_of_user user
    have := released.entries w inside
    have := entries w inside
    have := absent w
    have gone := present_zero
    grind

/-- `kfree` of the frame in hand. -/
theorem Undone.free (undone : Undone M d (some f) s o t o') (hand : o' f = .hand)
    (wasFree : o f = .free)
    : ∃ u, Returns (kfree M f) t () u ∧ Undone M d none s o u (Function.update o' f .free) := by
  have free := undone.space.toFree.free_frame (f := f) (by simp [hand]) (by simp [hand])
  refine ⟨_, kfree_returns (undone.space.valid f (by simp [hand])), ?_, fun g used => ?_,
    fun g isFree => ?_, undone.entries⟩
  · exact undone.space.of_tables (undone.space.toTables.reuse free rfl fun g => by grind)
      (fun g w => by grind) fun w _ => rfl
  · have apart : g ≠ f := fun same => used (same ▸ wasFree)
    obtain ⟨same, bytes⟩ := undone.kept g used
    exact ⟨(Function.update_of_ne apart ..).trans same,
      (Function.update_of_ne apart ..).trans bytes⟩
  · have := undone.taken g isFree
    grind

/-- The new pages of `allocuvm`. -/
abbrev Zeroed (M : Machine) (d : Nat) :=
  Grown M d (fun _ => pteW ||| pteU) (fun _ _ => 0)

/-- The passes of `allocuvm` from page `v`. -/
theorem allocLoop_spec {fuel : Nat} (space : Space M s d o) (small : newsz < kernbase)
    (absent : ∀ w, pagesOf oldsz ≤ w → w < userPages → (s.pte d w).present = false)
    (grown : Zeroed M d s o t o' (pagesOf oldsz) v) (le : pagesOf oldsz ≤ v)
    (le' : v ≤ pagesOf newsz) (enough : pagesOf newsz - v < fuel)
    : ∃ r u p, Returns (allocLoop M d oldsz newsz fuel (v * pgsize)) t r u
        ∧ ((r = newsz ∧ Zeroed M d s o u p (pagesOf oldsz) (pagesOf newsz))
          ∨ (r = 0 ∧ 0 < newsz ∧ Undone M d none s o u p)) := by
  have bound := pagesOf_le (Nat.le_of_lt small)
  induction fuel generalizing t o' v with
  | zero => exact absurd enough (Nat.not_lt_zero _)
  | succ fuel ih =>
    by_cases more : v < pagesOf newsz
    case neg =>
      obtain rfl : v = pagesOf newsz := by omega
      exact ⟨newsz, t, o', returns_ite.mpr (.inr ⟨by rwa [lt_pagesOf], rfl⟩), .inl ⟨rfl, grown⟩⟩
    have user := Nat.lt_of_lt_of_le more bound
    have positive : oldsz < newsz := by
      simp only [pagesOf, pgsize] at *
      omega
    have free : (t.pte d v).present = false := by
      rw [grown.old v (inside_of_user user) (by omega)]
      exact absent v le user
    have outside : ∀ w, Inside w → ¬(pagesOf oldsz ≤ w ∧ w < pagesOf newsz)
        → t.pte d w = s.pte d w := fun w within beyond => grown.old w within (by omega)
    cases head : t.freelist with
    | nil =>
      obtain ⟨u, freed, released⟩ := deallocuvm_spec grown.space (Nat.le_of_lt small) positive
      refine ⟨0, u, _, ?_, .inr ⟨rfl, by omega, .of_release space absent grown.kept
        (fun g free => ?_) outside released grown.space⟩⟩
      · rw [allocLoop, if_pos (lt_pagesOf.mpr more)]
        refine returns_bind.mpr ⟨none, t, by simp [kalloc, returns_bind, head], ?_⟩
        exact freed.bind rfl
      · have := grown.taken g free
        grind
    | cons f rest =>
      obtain ⟨r, u, p, mapped, space', first, -, -, entries, done, failed⟩ :=
        addPage_spec (fun _ => 0) (pteW ||| pteU) grown.space user free head
      have pass : ∀ {x : Nat} {q : State}, Returns (if r = true then
              allocLoop M d oldsz newsz fuel ((v * pgsize + pgsize) % 2 ^ 32)
            else do let _ ← deallocuvm M d newsz oldsz; kfree M f; pure 0) u x q
          → Returns (allocLoop M d oldsz newsz (fuel + 1) (v * pgsize)) t x q := by
        intro x q later
        rw [allocLoop, if_pos (lt_pagesOf.mpr more)]
        refine returns_bind.mpr ⟨some f, { t with freelist := rest }, ?_,
          returns_bind.mpr ⟨(), _, returns_modify.mpr rfl, mapped.bind later⟩⟩
        simp [kalloc, returns_bind, returns_comp, head]
      cases r with
      | true =>
        obtain ⟨ext, zero, page⟩ := done rfl
        have more' := grown.add space' ext first (by simpa using entries) zero page
          (inside_of_user user) le
        obtain ⟨x, q, p', ran, result⟩ := ih more' (by omega) (by omega) (by omega)
        rw [← next_page user] at ran
        exact ⟨x, q, p', pass (returns_ite.mpr (.inl ⟨rfl, ran⟩)), result⟩
      | false =>
        obtain ⟨-, -, ext⟩ := failed rfl
        have wasFree : o f = .free := by
          by_contra used
          exact used ((grown.kept f used).1.symm.trans first)
        have held : p f = .hand := (ext.kept f (by simp)).1.trans (Function.update_self ..)
        obtain ⟨q, freed, released⟩ := deallocuvm_spec space' (Nat.le_of_lt small) positive
        have undone : Undone M d (some f) s o q _ :=
          .of_release space absent (fun g used => ?_) (fun g isFree => ?_)
            (fun w within beyond => (entries w within).trans
              (by simpa using outside w within beyond)) released space'
        · obtain ⟨q', freed', undone⟩ := undone.free (by rw [Paging.released, held]) wasFree
          exact ⟨0, q', _, pass (freed.bind (freed'.bind rfl)), .inr ⟨rfl, by omega, undone⟩⟩
        · have := grown.kept g used
          have := ext.kept g
          grind
        · have := grown.taken g isFree
          have := ext.kept g
          have := ext.taken g
          grind

theorem allocuvm_spec (space : Space M s d o) (le : oldsz ≤ newsz)
    (absent : newsz < kernbase → ∀ w, pagesOf oldsz ≤ w → w < userPages
      → (s.pte d w).present = false)
    : ∃ r t o', Returns (allocuvm M d oldsz newsz) s r t
        ∧ ((r = newsz ∧ newsz < kernbase ∧ Zeroed M d s o t o' (pagesOf oldsz) (pagesOf newsz))
          ∨ (r = 0 ∧ 0 < newsz ∧ Undone M d none s o t o')) := by
  by_cases small : newsz < kernbase
  case neg =>
    refine ⟨0, s, o, returns_ite.mpr (.inl ⟨by omega, rfl⟩), .inr ⟨rfl, ?_, .refl space⟩⟩
    exact Nat.lt_of_lt_of_le (by decide) (Nat.not_lt.mp small)
  have bound := pagesOf_le (Nat.le_of_lt small)
  have enough : pagesOf newsz - pagesOf oldsz < 2 ^ 20 + 1 := by
    simp only [userPages, kernbase, pgsize] at bound
    omega
  have mono : pagesOf oldsz ≤ pagesOf newsz := by
    simp only [pagesOf, pgsize]
    omega
  obtain ⟨r, t, p, ran, result⟩ := allocLoop_spec space small (absent small) (.refl space)
    (Nat.le_refl _) mono enough
  refine ⟨r, t, p, ?_, result.imp_left fun done => ⟨done.1, small, done.2⟩⟩
  rw [allocuvm, if_neg (by omega), if_neg (by omega), pgroundup_eq (by omega)]
  exact ran

/-- Frame `f` is a page table of `d`. -/
def Linked (s : State) (d f : Nat) : Prop :=
  ∃ i, i < npdentries ∧ (s.table d i).present = true ∧ (s.table d i).frame = f

/-- Frame `f` is a user page of `d`. -/
def Mapped (s : State) (d f : Nat) : Prop :=
  ∃ v, v < userPages ∧ (s.pte d v).present = true ∧ (s.pte d v).frame = f

theorem Tables.linked_iff (tables : Tables M s d o) : Linked s d f ↔ ∃ i, o f = .table i :=
  exists_congr fun i => (tables.table f i).symm

theorem Space.mapped_iff (space : Space M s d o) : Mapped s d f ↔ ∃ w, o f = .page w :=
  exists_congr fun w => (space.page f w).symm

/-- A failure takes only frames that are page tables now. -/
theorem Undone.free_iff (undone : Undone M d none s o t o') (space : Space M s d o)
    : f ∈ s.freelist ↔ f ∈ t.freelist ∨ (Linked t d f ∧ ¬Linked s d f) := by
  rw [space.toTables.linked_iff, undone.space.toTables.linked_iff, ← space.free,
    ← undone.space.free]
  have := undone.taken f
  have := undone.kept f
  grind

/-- `freevm` then frees them with the rest. -/
theorem Undone.freevm (undone : Undone M d none s o t o') (space : Space M s d o)
    : ∃ u, Returns (freevm M d) t () u
        ∧ ∀ f, f ∈ u.freelist ↔ f ∈ s.freelist ∨ f = d ∨ Linked s d f ∨ Mapped s d f := by
  obtain ⟨u, ran, free, -⟩ := freevm_spec undone.space
  refine ⟨u, ran, fun f => ?_⟩
  rw [← free.free, space.toTables.linked_iff, space.mapped_iff, ← space.free, ← space.root]
  have := undone.taken f
  have := undone.kept f
  simp only [unowned]
  grind

/-- `allocuvm` maps a fresh zeroed page at every new page, or leaves the user mappings as they were
and only page tables that `freevm` frees.
-/
theorem allocuvm_all_or_nothing (space : Space M s d o) (le : oldsz ≤ newsz)
    (absent : ∀ v, pgroundup oldsz ≤ v * pgsize → v < userPages → (s.pte d v).present = false)
    : ∃ r t, Returns (allocuvm M d oldsz newsz) s r t
        ∧ ((r = 0 ∧ 0 < newsz
            ∧ (∀ v, v < userPages
              → (s.pte d v).present = true ∨ (t.pte d v).present = true → t.pte d v = s.pte d v)
            ∧ (∀ f, f ∈ s.freelist ↔ f ∈ t.freelist ∨ (Linked t d f ∧ ¬Linked s d f))
            ∧ ∃ u, Returns (freevm M d) t () u
              ∧ ∀ f, f ∈ u.freelist ↔ f ∈ s.freelist ∨ f = d ∨ Linked s d f ∨ Mapped s d f)
          ∨ (r = newsz
            ∧ (∀ v, pgroundup oldsz ≤ v * pgsize → v * pgsize < newsz
              → ∃ f ∈ s.freelist, t.pte d v = ⟨f, pteW ||| pteU ||| pteP⟩ ∧ t.mem f = fun _ => 0)
            ∧ (∀ v w, v < userPages → w < userPages → (t.pte d v).present = true
              → (t.pte d w).present = true → (t.pte d v).frame = (t.pte d w).frame → v = w)
            ∧ ∀ v, v < userPages → (s.pte d v).present = true
              → t.pte d v = s.pte d v ∧ t.mem (s.pte d v).frame = s.mem (s.pte d v).frame)) := by
  have pages : newsz < kernbase → pgroundup oldsz = pagesOf oldsz * pgsize := fun small =>
    pgroundup_eq (by omega)
  obtain ⟨r, t, o', ran, result⟩ := allocuvm_spec space le fun small w above user =>
    absent w (by rw [pages small]; exact Nat.mul_le_mul_right _ above) user
  refine ⟨r, t, ran, result.symm.imp ?_ ?_⟩
  · rintro ⟨rfl, positive, undone⟩
    exact ⟨rfl, positive, undone.entries, fun f => undone.free_iff space, undone.freevm space⟩
  · rintro ⟨rfl, small, grown⟩
    refine ⟨rfl, fun v above below => ?_, fun v w user user' here here' same => ?_,
      fun v user here => ?_⟩
    · rw [pages small, Nat.mul_le_mul_right_iff (by decide)] at above
      obtain ⟨f, free, -, entry, zero⟩ := grown.new v above (lt_pagesOf.mp below)
      exact ⟨f, (space.free f).mp free, entry, zero⟩
    · have first := (grown.space.page _ v).mpr ⟨user, here, rfl⟩
      have second := (grown.space.page _ w).mpr ⟨user', here', same.symm⟩
      exact Use.page.inj (first.symm.trans second)
    · have used := (space.page _ v).mpr ⟨user, here, rfl⟩
      have outside : ¬(pagesOf oldsz ≤ v ∧ v < pagesOf r) := fun range => by
        rw [absent v (by rw [pages small]; exact Nat.mul_le_mul_right _ range.1) user] at here
        cases here
      exact ⟨grown.old v (inside_of_user user) outside, (grown.kept _ (by simp [used])).2⟩

/-- A process of one page grows by the page that the free list has, or not when it has none. -/
theorem allocuvm_all_or_nothing_onePage
    : (∃ t, Returns (allocuvm smallMachine 512 pgsize (2 * pgsize)) (onePage [515]) (2 * pgsize) t
        ∧ ∃ f ∈ [515], t.pte 512 1 = ⟨f, pteW ||| pteU ||| pteP⟩)
      ∧ ∃ t, Returns (allocuvm smallMachine 512 pgsize (2 * pgsize)) (onePage []) 0 t
        ∧ ((t.pte 512 1).present = true → t.pte 512 1 = (onePage []).pte 512 1) := by
  have grows := fun free nodup user => allocuvm_all_or_nothing (M := smallMachine)
    (@onePage_space free nodup user) (show pgsize ≤ 2 * pgsize by decide) fun v above _ => by
      have later : v ≠ 0 := by
        rintro rfl
        exact absurd above (by decide)
      rw [onePage_pte, if_neg later, present_zero]
  constructor
  · obtain ⟨r, t, ran, ⟨rfl, -⟩ | ⟨rfl, new, -⟩⟩ := grows [515] (by decide) (by decide)
    · exact nomatch (ran.unique rfl).1
    · obtain ⟨f, free, entry, -⟩ := new 1 (by decide) (by decide)
      exact ⟨t, ran, f, free, entry⟩
  · obtain ⟨r, t, ran, ⟨rfl, -, old, -⟩ | ⟨rfl, -⟩⟩ := grows [] (by decide) (by decide)
    · exact ⟨t, ran, fun here => old 1 (by decide) (.inr here)⟩
    · exact nomatch (ran.unique rfl).1

/-- `growproc`: the new `curproc->sz`; `none` is `-1`. -/
def growproc (M : Machine) (pgdir sz : Nat) (n : Int) : PagingM (Option Nat) := do
  let newsz := ((sz + n) % 2 ^ 32).toNat
  if 0 < n then do
    let new ← allocuvm M pgdir sz newsz
    pure (if new = 0 then none else some new)
  else if n < 0 then do
    let new ← deallocuvm M pgdir sz newsz
    pure (if new = 0 then none else some new)
  else pure (some sz)

/-- A `uint` as an `int`. -/
def toInt (u : Nat) : Int := (u : Int).bmod (2 ^ 32)

theorem toInt_eq {u : Nat} (small : u < kernbase) : toInt u = u := by
  simp only [kernbase] at small
  exact Int.bmod_eq_of_le_mul_two (by omega) (by omega)

/-- `sys_sbrk`: the result and the size of the process after the call. -/
def sysSbrk (M : Machine) (pgdir sz : Nat) (n : Int) : PagingM (Int × Nat) := do
  match ← growproc M pgdir sz n with
  | none => pure (-1, sz)
  | some new => pure (toInt sz, new)

/-- A process of size `sz`: its user pages are those below `sz`. -/
structure Fits (M : Machine) (s : State) (d sz : Nat) (o : Nat → Use) : Prop
    extends Space M s d o where
  small : sz < kernbase
  pages : ∀ v, v < userPages → ((s.pte d v).present = true ↔ v * pgsize < sz)

/-- Page `v` has the same entry and the same bytes. -/
def SamePage (s t : State) (d v : Nat) : Prop :=
  t.pte d v = s.pte d v ∧ t.mem (s.pte d v).frame = s.mem (s.pte d v).frame

/-- `sbrk(n)` does what its result says. -/
def SbrkReports (M : Machine) (s : State) (d sz : Nat) (n : Int) : Prop :=
  ∃ r new t, Returns (sysSbrk M d sz n) s (r, new) t
    ∧ (r ≠ -1 → r = sz ∧ (new : Int) = sz + n
      ∧ (∀ v, v * pgsize < min sz new → SamePage s t d v)
      ∧ ∀ v, sz ≤ v * pgsize → v * pgsize < new
        → (t.pte d v).present = true ∧ t.mem (t.pte d v).frame = fun _ => 0)
    ∧ (r = -1 → new = sz ∧ ∀ v, v < userPages
      → (s.pte d v).present = true ∨ (t.pte d v).present = true → SamePage s t d v)
    ∧ (sz + n < 0 ∨ kernbase ≤ sz + n → r = -1)

section Sbrk

variable {sz : Nat} {n : Int}

theorem sysSbrk_returns {x : Option Nat} (fits : Fits M s d sz o)
    (ran : Returns (growproc M d sz n) s x t)
    : Returns (sysSbrk M d sz n) s (if x.isSome then sz else -1, x.getD sz) t := by
  refine ran.bind ?_
  cases x <;> simp [toInt_eq fits.small]

theorem sysSbrk_grows (fits : Fits M s d sz o) (positive : 0 < n) (range : n < 2 ^ 31)
    : SbrkReports M s d sz n := by
  have small := fits.small
  obtain ⟨newsz, new⟩ : ∃ newsz : Nat, (newsz : Int) = sz + n := ⟨(sz + n).toNat, by omega⟩
  have wrapped : ((sz + n) % 2 ^ 32).toNat = newsz := by
    simp only [kernbase] at small
    omega
  obtain ⟨r, t, o', ran, result⟩ := @allocuvm_spec M s d sz newsz o fits.toSpace (by omega)
    fun _ w above user => by
    rw [← Bool.not_eq_true, fits.pages w user, lt_pagesOf]
    omega
  have grows : Returns (growproc M d sz n) s (if r = 0 then none else some r) t := by
    rw [growproc, if_pos positive, wrapped]
    exact ran.bind rfl
  obtain ⟨rfl, inside, grown⟩ | ⟨rfl, _, undone⟩ := result
  · rw [if_neg (by omega)] at grows
    refine ⟨sz, r, t, sysSbrk_returns fits grows, fun _ => ⟨rfl, new, fun v below => ?_,
      fun v above below => ?_⟩, fun wrong => by omega, fun out => by omega⟩
    · have below' : v < pagesOf sz := lt_pagesOf.mp (by omega)
      have user := Nat.lt_of_lt_of_le below' (pagesOf_le (Nat.le_of_lt small))
      have used := (fits.page _ v).mpr ⟨user, (fits.pages v user).mpr (by omega), rfl⟩
      exact ⟨grown.old v (inside_of_user user) (by omega), (grown.kept _ (by simp [used])).2⟩
    · obtain ⟨f, -, -, entry, zero⟩ := grown.new v (by rw [← Nat.not_lt, ← lt_pagesOf]; omega)
        (lt_pagesOf.mp below)
      rw [entry]
      exact ⟨present_or f _, zero⟩
  · refine ⟨-1, sz, t, sysSbrk_returns fits grows, fun wrong => absurd rfl wrong, fun _ => ⟨rfl,
      fun v user here => ?_⟩, fun _ => rfl⟩
    have entry := undone.entries v user here
    have used := (fits.page _ v).mpr ⟨user, here.elim id (entry ▸ id), rfl⟩
    exact ⟨entry, (undone.kept _ (by simp [used])).2⟩

theorem sysSbrk_shrinks (fits : Fits M s d sz o) (negative : n < 0) (left : 0 ≤ sz + n)
    : ∃ t, Returns (sysSbrk M d sz n) s (if sz + n = 0 then (-1, sz) else (sz, (sz + n).toNat)) t
        ∧ Releases M d s o t (pagesOf (sz + n).toNat) (pagesOf sz) := by
  have small := fits.small
  have wrapped : ((sz + n) % 2 ^ 32).toNat = (sz + n).toNat := by
    simp only [kernbase] at small
    omega
  obtain ⟨t, ran, released⟩ := @deallocuvm_spec M s d o sz (sz + n).toNat fits.toSpace
    (Nat.le_of_lt small) (by omega)
  have shrinks : Returns (growproc M d sz n) s
      (if (sz + n).toNat = 0 then none else some (sz + n).toNat) t := by
    rw [growproc, if_neg (by omega), if_pos negative, wrapped]
    exact ran.bind rfl
  refine ⟨t, ?_, released⟩
  by_cases nothing : sz + n = 0
  · rw [if_pos (by omega)] at shrinks
    rw [if_pos nothing]
    exact sysSbrk_returns fits shrinks
  · rw [if_neg (by omega)] at shrinks
    rw [if_neg nothing]
    exact sysSbrk_returns fits shrinks

/-- A shrink below nothing wraps around, and `deallocuvm` has nothing to do. -/
theorem sysSbrk_wraps (fits : Fits M s d sz o) (range : -(2 ^ 31) ≤ n) (left : sz + n < 0)
    : Returns (sysSbrk M d sz n) s (if sz = 0 then -1 else sz, sz) s := by
  have small := fits.small
  have shrinks : Returns (growproc M d sz n) s (if sz = 0 then none else some sz) s := by
    rw [growproc, if_neg (by omega), if_pos (by omega)]
    refine returns_bind.mpr ⟨sz, s, returns_ite.mpr (.inl ⟨?_, rfl⟩), rfl⟩
    simp only [kernbase] at small
    omega
  have result := sysSbrk_returns fits shrinks
  by_cases nothing : sz = 0
  · simpa [nothing] using result
  · simpa [nothing] using result

/-- A shrink to nothing frees the pages and returns `-1`, and one below nothing returns the size. -/
theorem sysSbrk_misreports (fits : Fits M s d sz o) (low : -(2 ^ 31) ≤ n) (negative : n < 0)
    (left : sz + n ≤ 0) (nonzero : sz ≠ 0)
    : ¬SbrkReports M s d sz n := by
  rintro ⟨r, new, t, ran, accepted, refused, out⟩
  by_cases wraps : sz + n < 0
  · have other := sysSbrk_wraps fits low wraps
    rw [if_neg nonzero] at other
    have same := (ran.unique other).1
    have wrong := out (.inl wraps)
    grind
  · obtain ⟨u, other, released⟩ := sysSbrk_shrinks fits negative (by omega)
    obtain ⟨same, rfl⟩ := ran.unique other
    rw [if_pos (show sz + n = 0 by omega), Prod.mk.injEq] at same
    have first : 0 * pgsize < sz := (Nat.zero_mul _).symm ▸ Nat.pos_of_ne_zero nonzero
    have user : 0 < userPages := by decide
    have here := (fits.pages 0 user).mpr first
    have nothing : pagesOf (sz + n).toNat = 0 := by
      rw [show (sz + n).toNat = 0 by omega]
      decide
    have kept := ((refused same.1).2 0 user (.inl here)).1
    rw [released.entries 0 (inside_of_user user), nothing,
      if_pos ⟨⟨Nat.le_refl 0, lt_pagesOf.mp first⟩, here⟩] at kept
    rw [← kept, present_zero] at here
    cases here

theorem onePage_fits {free : List Nat} (nodup : free.Nodup)
    (range : ∀ f ∈ free, 514 < f ∧ f < 57344)
    : Fits smallMachine (onePage free) 512 pgsize (onePageUses free) where
  toSpace := onePage_space nodup range
  small := by decide
  pages := fun v _ => by
    have here : (Pte.mk 514 7).present = true := by decide
    rw [onePage_pte]
    by_cases zero : v = 0
    · rw [if_pos zero, zero]
      exact iff_of_true here (by decide)
    · simp only [zero, if_false, present_zero, pgsize, Bool.false_eq_true, false_iff]
      omega

end Sbrk

end Xv6.Paging
