import Xv6.Paging.Model

/-! Which frame is used for what.
A page directory owns its own frame, its page tables and the pages of its user part. The use of
every frame is a function, so no frame has two uses, and it is exact, so none is lost.
-/

namespace Xv6.Paging

open Lib
open Function (update update_self update_of_ne)

/-- What a frame is used for, from the point of view of one page directory; `hand` is a frame that
`kalloc` returned and that is not linked yet.
-/
inductive Use where
  | other
  | free
  | hand
  | root
  | table (i : Nat)
  | page (v : Nat)
  deriving DecidableEq

/-- The pages below `KERNBASE`. -/
abbrev userPages : Nat := kernbase / pgsize

/-- The entry of page `v`, zero when there is no page table. -/
def State.pte (s : State) (d v : Nat) : Pte :=
  if (s.table d (v / npdentries)).present then
    s.table (s.table d (v / npdentries)).frame (v % npdentries)
  else .zero

/-- The number of page tables, and with them the frames that page tables can still take. -/
def State.tables (s : State) (d : Nat) : Nat :=
  ((Finset.range npdentries).filter fun i => (s.table d i).present = true).card

def State.spare (s : State) (d : Nat) : Nat := s.freelist.length + s.tables d

/-- Every page table has a page. -/
def Tight (s : State) (d : Nat) : Prop :=
  ∀ i, i < npdentries → (s.table d i).present = true
    → ∃ w, w / npdentries = i ∧ (s.pte d w).present = true

variable {M : Machine}

/-- The free list is the set of the free frames, and `kfree` takes all frames in use here. -/
structure Free (M : Machine) (s : State) (o : Nat → Use) : Prop where
  free : ∀ f, o f = .free ↔ f ∈ s.freelist
  nodup : s.freelist.Nodup
  valid : ∀ f, o f ≠ .other → M.endFrame ≤ f ∧ f * pgsize < phystop

/-- Page directory `d` and its page tables have the frames that `o` says. -/
structure Tables (M : Machine) (s : State) (d : Nat) (o : Nat → Use) : Prop extends Free M s o where
  root : ∀ f, o f = .root ↔ f = d
  table
    : ∀ f i, o f = .table i
        ↔ i < npdentries ∧ (s.table d i).present = true ∧ (s.table d i).frame = f

/-- So have the pages of its user part. -/
structure Space (M : Machine) (s : State) (d : Nat) (o : Nat → Use) : Prop
    extends Tables M s d o where
  page
    : ∀ f v, o f = .page v ↔ v < userPages ∧ (s.pte d v).present = true ∧ (s.pte d v).frame = f

/-- Frames in use keep their use and their bytes, and frames of others their entries; free frames
become page tables or pages.
-/
structure Extends (s : State) (o : Nat → Use) (s' : State) (o' : Nat → Use) : Prop where
  kept : ∀ f, o f ≠ .free → o' f = o f ∧ s'.mem f = s.mem f
  taken : ∀ f, o f = .free → o' f = .free ∨ (∃ i, o' f = .table i) ∨ ∃ v, o' f = .page v
  table : ∀ f, o f = .other → s'.table f = s.table f

theorem Extends.refl (s : State) (o : Nat → Use) : Extends s o s o :=
  ⟨fun _ _ => ⟨rfl, rfl⟩, fun _ free => .inl free, fun _ _ => rfl⟩

theorem Extends.trans {s m t : State} {o p q : Nat → Use} (first : Extends s o m p)
    (second : Extends m p t q)
    : Extends s o t q := by
  refine ⟨fun f used => ?_, fun f free => ?_, fun f others => ?_⟩
  · obtain ⟨same, bytes⟩ := first.kept f used
    obtain ⟨same', bytes'⟩ := second.kept f (same ▸ used)
    exact ⟨same'.trans same, bytes'.trans bytes⟩
  · by_cases still : p f = .free
    · exact second.taken f still
    · rw [(second.kept f still).1]
      exact first.taken f free
  · have same := (first.kept f (by simp [others])).1
    exact (second.table f (same.trans others)).trans (first.table f others)

theorem present_zero : Pte.zero.present = false := rfl

theorem present_or (f : Nat) (perm : BitVec 12) : (Pte.mk f (perm ||| pteP)).present = true := by
  simp [Pte.present]

theorem present_flags {e : Pte} (here : e.present = true) : e.flags ||| pteP = e.flags := by
  refine BitVec.eq_of_getLsbD_eq fun i _ => ?_
  rw [BitVec.getLsbD_or]
  cases i with
  | zero => simp [show e.flags.getLsbD 0 = true from here]
  | succ i => simp

/-- The entry of a page directory that `walkpgdir` makes. -/
theorem present_link (f : Nat) : (Pte.mk f (pteP ||| pteW ||| pteU)).present = true :=
  (by decide : (pteP ||| pteW ||| pteU).getLsbD 0 = true)

section Entries

variable {s t : State} {d f i v w : Nat} {o o' : Nat → Use} {e : Pte} {rest : List Nat}

/-- The page has its entry in one of the page tables. -/
abbrev Inside (v : Nat) : Prop := v / npdentries < npdentries

theorem inside_of_user (user : v < userPages) : Inside v := by
  simp only [Inside, userPages, kernbase, pgsize, npdentries] at *
  omega

def State.set (s : State) (f i : Nat) (e : Pte) : State :=
  { s with table := update s.table f (update (s.table f) i e) }

/-- A page that is present has a page table. -/
theorem State.linked_of_present (here : (s.pte d v).present = true)
    : (s.table d (v / npdentries)).present = true := by
  by_contra absent
  rw [State.pte, if_neg absent] at here
  cases here

theorem State.pte_congr (same : t.table = s.table) : t.pte d v = s.pte d v := by
  rw [State.pte, State.pte, same]

theorem State.set_table_ne {g : Nat} (ne : g ≠ f) : (s.set f i e).table g = s.table g :=
  update_of_ne ne ..

theorem State.set_table_self : (s.set f i e).table f = update (s.table f) i e :=
  update_self ..

/-- The page tables of `d` are different frames, and none of them is `d`. -/
structure Tree (s : State) (d : Nat) : Prop where
  apart
    : ∀ i j, i < npdentries → j < npdentries → (s.table d i).present = true
      → (s.table d j).present = true → (s.table d i).frame = (s.table d j).frame → i = j
  root : ∀ i, i < npdentries → (s.table d i).present = true → (s.table d i).frame ≠ d

/-- A store to the entry of page `v` in its page table changes that entry only. -/
theorem Tree.pte_set (tree : Tree s d) (inside : Inside v)
    (here : (s.table d (v / npdentries)).present = true) (other : Inside w)
    : (s.set (s.table d (v / npdentries)).frame (v % npdentries) e).pte d w
      = if w = v then e else s.pte d w := by
  simp only [State.pte, State.set_table_ne (tree.root _ inside here).symm]
  by_cases there : (s.table d (w / npdentries)).present = true
  · simp only [there, if_true]
    by_cases same : (s.table d (w / npdentries)).frame = (s.table d (v / npdentries)).frame
    · have indices := tree.apart _ _ other inside there here same
      rw [same, State.set_table_self]
      by_cases position : w % npdentries = v % npdentries
      · rw [position, update_self, if_pos (by simp only [npdentries] at *; omega)]
      · rw [update_of_ne position, if_neg (by rintro rfl; exact position rfl)]
    · rw [State.set_table_ne same, if_neg (by rintro rfl; exact same rfl)]
  · rw [if_neg there, if_neg (by rintro rfl; exact there here), if_neg there]

section

variable (tables : Tables M s d o) (inside : Inside v)
  (here : (s.table d (v / npdentries)).present = true)
include tables

/-- A frame is the page table of one entry. -/
theorem Tables.tree : Tree s d := by
  refine ⟨fun i j first second here there same => ?_, fun i bound here root => ?_⟩
  · have one := (tables.table _ i).mpr ⟨first, here, rfl⟩
    rw [same, (tables.table _ j).mpr ⟨second, there, rfl⟩] at one
    injection one with indices
    exact indices.symm
  · have table := (tables.table _ i).mpr ⟨bound, here, rfl⟩
    rw [(tables.root _).mpr root] at table
    cases table

include inside here

theorem Tables.use
    : o (s.table d (v / npdentries)).frame = .table (v / npdentries)
      ∧ (s.table d (v / npdentries)).frame ≠ d :=
  ⟨(tables.table _ _).mpr ⟨inside, here, rfl⟩, tables.tree.root _ inside here⟩

/-- Such a store keeps the tables. -/
theorem Tables.set
    : Tables M (s.set (s.table d (v / npdentries)).frame (v % npdentries) e) d o
      ∧ Extends s o (s.set (s.table d (v / npdentries)).frame (v % npdentries) e) o := by
  obtain ⟨table, apart⟩ := tables.use inside here
  refine ⟨{ tables with table := fun f i => ?_ }, fun _ _ => ⟨rfl, rfl⟩,
    fun f free => .inl free, fun f others => State.set_table_ne ?_⟩
  · rw [State.set_table_ne apart.symm]
    exact tables.table f i
  · rintro rfl
    rw [table] at others
    cases others

end

/-- The free list may change without the page directory. -/
theorem Tables.reuse (tables : Tables M s d o) (free : Free M t o') (same : t.table = s.table)
    (uses : ∀ f, (o' f = .root ↔ o f = .root) ∧ ∀ i, o' f = .table i ↔ o f = .table i)
    : Tables M t d o' :=
  { free with
    root := fun f => (uses f).1.trans (tables.root f)
    table := fun f i => by rw [(uses f).2, tables.table, same] }

/-- Pages that keep their entries keep their frames. -/
theorem Space.of_tables (space : Space M s d o) (tables : Tables M t d o')
    (uses : ∀ f w, o' f = .page w ↔ o f = .page w)
    (same : ∀ w, w < userPages → t.pte d w = s.pte d w)
    : Space M t d o' where
  toTables := tables
  page := fun f w => by
    rw [uses, space.page]
    exact and_congr_right fun user => by rw [same w user]

/-- `kalloc` takes the first frame of the list. -/
theorem Free.alloc (free : Free M s o) (head : s.freelist = f :: rest)
    : Free M { s with freelist := rest } (update o f .hand) ∧ o f = .free := by
  have nodup := List.nodup_cons.mp (head ▸ free.nodup)
  have first : o f = .free := (free.free f).mpr (by simp [head])
  refine ⟨⟨fun g => ?_, nodup.2, fun g used => free.valid g (by grind)⟩, first⟩
  have member := free.free g
  rw [head, List.mem_cons] at member
  grind

/-- `s` after frame `f` was made a page table of `d` in `walkpgdir`. -/
def State.link (s : State) (d i f : Nat) (rest : List Nat) : State :=
  { s with
    freelist := rest
    table := update (update s.table f fun _ => .zero) d
      (update (s.table d) i ⟨f, pteP ||| pteW ||| pteU⟩) }

/-- Linking a cleared page table changes no entry. -/
theorem Tables.link (tables : Tables M s d o) (inside : Inside v)
    (absent : (s.table d (v / npdentries)).present = false) (head : s.freelist = f :: rest)
    : Tables M (s.link d (v / npdentries) f rest) d (update o f (.table (v / npdentries)))
      ∧ (∀ w, Inside w → (s.link d (v / npdentries) f rest).pte d w = s.pte d w)
      ∧ Extends s o (s.link d (v / npdentries) f rest)
          (update o f (.table (v / npdentries))) := by
  obtain ⟨free, first⟩ := tables.toFree.alloc head
  have notRoot : f ≠ d := fun same => by simpa [first] using (tables.root f).mpr same
  generalize linked : s.link d (v / npdentries) f rest = t
  have directory : t.table d
      = update (s.table d) (v / npdentries) ⟨f, pteP ||| pteW ||| pteU⟩ := by
    simp [← linked, State.link]
  have others : ∀ g, g ≠ d → g ≠ f → t.table g = s.table g := by
    intro g other fresh
    simp [← linked, State.link, other, fresh]
  have cleared : t.table f = fun _ => .zero := by
    simp [← linked, State.link, notRoot]
  have rest : t.mem = s.mem ∧ t.freelist = rest := by simp [← linked, State.link]
  refine ⟨⟨⟨fun g => ?_, ?_, fun g used => tables.valid g (by grind)⟩, fun g => ?_, fun g i => ?_⟩,
    fun w within => ?_, ⟨fun g used => ⟨by grind, by rw [rest.1]⟩, fun g _ => by grind,
      fun g isOther => ?_⟩⟩
  · have member := free.free g
    rw [rest.2]
    grind
  · rw [rest.2]
    exact free.nodup
  · have root := tables.root g
    grind
  · have table := tables.table g i
    rw [directory]
    by_cases same : i = v / npdentries
    · have here := present_link f
      rw [same, update_self]
      grind
    · rw [update_of_ne same]
      grind
  · rw [State.pte, State.pte, directory]
    by_cases same : w / npdentries = v / npdentries
    · rw [same, update_self, absent, cleared, ite_self, if_neg Bool.false_ne_true]
    · rw [update_of_ne same]
      split
      next there =>
        obtain ⟨table, apart⟩ := tables.use within there
        rw [others _ apart (by rintro rfl; rw [first] at table; cases table)]
      next => rfl
  · refine others g (fun root => ?_) (by grind)
    rw [(tables.root g).mpr root] at isOther
    cases isOther

theorem State.link_spare (inside : Inside v)
    (absent : (s.table d (v / npdentries)).present = false) (head : s.freelist = f :: rest)
    : (s.link d (v / npdentries) f rest).spare d = s.spare d := by
  have tables : (Finset.range npdentries).filter (fun i =>
      ((s.link d (v / npdentries) f rest).table d i).present = true)
      = insert (v / npdentries)
          ((Finset.range npdentries).filter fun i => (s.table d i).present = true) := by
    ext i
    by_cases same : i = v / npdentries
    · simpa [State.link, same, inside] using present_link f
    · simp [State.link, same]
  rw [State.spare, State.spare, State.tables, State.tables, tables,
    Finset.card_insert_of_notMem (by simp [absent]), head]
  simp only [State.link, List.length_cons]
  omega

end Entries

section Walking

variable {s : State} {d v : Nat} {o : Nat → Use}

theorem pdx_page (inside : Inside v) : pdx (v * pgsize) = v / npdentries := by
  simp only [pdx, Inside, pgsize, npdentries] at *
  omega

theorem next_page (user : v < userPages) : (v * pgsize + pgsize) % 2 ^ 32 = (v + 1) * pgsize := by
  simp only [pgsize, userPages, kernbase] at *
  omega

theorem ptx_page (v : Nat) : ptx (v * pgsize) = v % npdentries := by
  simp only [ptx, pgsize, npdentries]
  omega

theorem walkpgdir_linked (inside : Inside v)
    (linked : (s.table d (v / npdentries)).present = true)
    : Returns (walkpgdir d (v * pgsize) false) s
        (some ((s.table d (v / npdentries)).frame, v % npdentries)) s := by
  simp [walkpgdir, returns_bind, pdx_page inside, linked, ptx_page]

/-- `walkpgdir` finds the entry of a page. -/
theorem walkpgdir_finds (inside : Inside v) (here : (s.pte d v).present = true)
    : ∃ pgtab, pgtab = (s.table d (v / npdentries)).frame
        ∧ (s.table d (v / npdentries)).present = true
        ∧ Returns (walkpgdir d (v * pgsize) false) s (some (pgtab, v % npdentries)) s
        ∧ s.table pgtab (v % npdentries) = s.pte d v := by
  have linked := State.linked_of_present here
  exact ⟨_, rfl, linked, walkpgdir_linked inside linked, by rw [State.pte, if_pos linked]⟩

/-- `walkpgdir` with allocation finds the entry, unless the free list is empty. -/
theorem walk_spec (tables : Tables M s d o) (inside : Inside v)
    : (s.freelist = [] ∧ (s.table d (v / npdentries)).present = false
        ∧ Returns (walkpgdir d (v * pgsize) true) s none s)
      ∨ ∃ t o', Returns (walkpgdir d (v * pgsize) true) s
            (some ((t.table d (v / npdentries)).frame, v % npdentries)) t
          ∧ (t.table d (v / npdentries)).present = true ∧ Tables M t d o' ∧ Extends s o t o'
          ∧ t.mem = s.mem ∧ (∀ f w, o' f = .page w ↔ o f = .page w)
          ∧ (∀ w, Inside w → t.pte d w = s.pte d w) ∧ t.spare d = s.spare d
          ∧ ∀ i, i ≠ v / npdentries → t.table d i = s.table d i := by
  have index := pdx_page inside
  by_cases here : (s.table d (v / npdentries)).present = true
  · refine .inr ⟨s, o, ?_, here, tables, .refl s o, rfl, fun _ _ => Iff.rfl, fun _ _ => rfl, rfl,
      fun _ _ => rfl⟩
    simp [walkpgdir, returns_bind, index, here, ptx_page]
  cases head : s.freelist with
  | nil =>
    refine .inl ⟨rfl, by simpa using here, ?_⟩
    simp [walkpgdir, kalloc, returns_bind, index, here, head]
  | cons f rest =>
    obtain ⟨linked, entries, ext⟩ := tables.link inside (by simpa using here) head
    have first := (tables.toFree.alloc head).2
    have directory : (s.link d (v / npdentries) f rest).table d (v / npdentries)
        = ⟨f, pteP ||| pteW ||| pteU⟩ := by
      simp [State.link]
    refine .inr ⟨_, _, ?_, ?_, linked, ext, rfl, fun g w => by grind, entries,
      State.link_spare inside (by simpa using here) head,
      fun i other => by simp [State.link, other]⟩
    · have apart : d ≠ f := fun same => by simpa [first] using (tables.root f).mpr same.symm
      rw [directory]
      simp [walkpgdir, kalloc, clearTable, setEntry, returns_bind, returns_comp, index, here, head,
        State.link, ptx_page, apart]
    · rw [directory]
      exact present_link f

/-- What mapping some pages does to a page directory: it takes frames for page tables only, and
changes the entries as said.
-/
structure Maps (M : Machine) (d : Nat) (s : State) (o : Nat → Use) (t : State) (o' : Nat → Use)
    (entries : Nat → Pte) : Prop extends Extends s o t o' where
  tables : Tables M t d o'
  mem : t.mem = s.mem
  pages : ∀ f w, o' f = .page w ↔ o f = .page w
  entries : ∀ w, Inside w → t.pte d w = entries w
  spare : t.spare d = s.spare d
  tight : Tight s d → Tight t d

theorem Maps.trans {t u : State} {o' o'' : Nat → Use} {entries entries' : Nat → Pte}
    (first : Maps M d s o t o' entries) (second : Maps M d t o' u o'' entries')
    : Maps M d s o u o'' entries' where
  toExtends := first.toExtends.trans second.toExtends
  tables := second.tables
  mem := second.mem.trans first.mem
  pages := fun f w => (second.pages f w).trans (first.pages f w)
  entries := second.entries
  spare := second.spare.trans first.spare
  tight := second.tight ∘ first.tight

/-- The first half of a pass of `mappages`. -/
theorem mapPass_spec {e : Pte} (present : e.present = true) (tables : Tables M s d o)
    (inside : Inside v) (absent : (s.pte d v).present = false)
    : (s.freelist = [] ∧ (s.table d (v / npdentries)).present = false
        ∧ Returns (walkpgdir d (v * pgsize) true) s none s)
      ∨ ∃ pgtab t o', Returns (walkpgdir d (v * pgsize) true) s (some (pgtab, v % npdentries)) t
          ∧ (t.table pgtab (v % npdentries)).present = false
          ∧ Maps M d s o (t.set pgtab (v % npdentries) e) o'
              fun w => if w = v then e else s.pte d w := by
  rcases walk_spec tables inside with none
    | ⟨t, o', walked, here, tables', ext, mem, pages, same, spare, directory⟩
  · exact .inl none
  obtain ⟨stored, ext'⟩ := tables'.set (e := e) inside here
  have root := State.set_table_ne (s := t) (i := v % npdentries) (e := e)
    (tables'.use inside here).2.symm
  have entries : ∀ w, Inside w
      → (t.set (t.table d (v / npdentries)).frame (v % npdentries) e).pte d w
        = if w = v then e else s.pte d w := fun w within => by
    rw [tables'.tree.pte_set inside here within, same w within]
  refine .inr ⟨_, t, o', walked, ?_, ?_⟩
  · rw [← same v inside, State.pte, if_pos here] at absent
    exact absent
  · refine { toExtends := ext.trans ext', tables := stored, mem, pages, entries, spare := ?_,
             tight := fun tight i bound linked => ?_ }
    · rw [← spare, State.spare, State.spare, State.tables, State.tables, root]
      rfl
    · by_cases mine : i = v / npdentries
      · exact ⟨v, mine.symm, by rw [entries v inside, if_pos rfl, present]⟩
      · rw [root, directory i mine] at linked
        obtain ⟨w, index, there⟩ := tight i bound linked
        refine ⟨w, index, ?_⟩
        rwa [entries w (by rwa [Inside, index]), if_neg (by rintro rfl; exact mine index.symm)]

/-- `mappages` maps the range, or a part from its start when `kalloc` fails. -/
theorem mapLoop_spec {fuel n p : Nat} {perm : BitVec 12} (tables : Tables M s d o)
    (inside : Inside (v + n)) (enough : n < fuel) (small : p < 2 ^ 20)
    (absent : ∀ k, k ≤ n → (s.pte d (v + k)).present = false)
    : ∃ r t o' m, Returns (mapLoop d ((v + n) * pgsize) perm fuel (v * pgsize) (p * pgsize)) s r t
        ∧ m ≤ n + 1 ∧ (r = true ↔ m = n + 1)
        ∧ (r = false → t.freelist = [] ∧ (t.table d ((v + m) / npdentries)).present = false)
        ∧ Maps M d s o t o' fun w =>
            if v ≤ w ∧ w < v + m then ⟨(p + (w - v)) % 2 ^ 20, perm ||| pteP⟩ else s.pte d w := by
  induction fuel generalizing s o v p n with
  | zero => exact absurd enough (Nat.not_lt_zero n)
  | succ fuel ih =>
    have first : Inside v := by
      simp only [Inside, npdentries] at *
      omega
    rcases mapPass_spec (present_or p perm) tables first (absent 0 (Nat.zero_le n)) with
      ⟨empty, unlinked, none⟩ | ⟨pgtab, t, o', walked, unmapped, maps⟩
    · refine ⟨false, s, o, 0, none.bind (by simp), by omega, by simp, fun _ => ⟨empty, unlinked⟩,
        { toExtends := .refl s o, tables, mem := rfl, pages := fun _ _ => Iff.rfl, spare := rfl
          tight := id, entries := fun w _ => by rw [if_neg (by omega)] }⟩
    have stored : ∀ {r : Bool} {u : State}, Returns (if v * pgsize = (v + n) * pgsize then pure true
          else mapLoop d ((v + n) * pgsize) perm fuel ((v * pgsize + pgsize) % 2 ^ 32)
            ((p * pgsize + pgsize) % 2 ^ 32))
          (t.set pgtab (v % npdentries) ⟨p, perm ||| pteP⟩) r u
        → Returns (mapLoop d ((v + n) * pgsize) perm (fuel + 1) (v * pgsize) (p * pgsize))
            s r u := by
      intro r u rest
      refine walked.bind (returns_bind.mpr ⟨t, t, returns_get.mpr ⟨rfl, rfl⟩, ?_⟩)
      refine returns_ite.mpr (.inr ⟨by simp [unmapped], ?_⟩)
      refine returns_bind.mpr ⟨(), _, returns_modify.mpr rfl, ?_⟩
      rwa [Nat.mul_div_cancel p (by decide)]
    cases n with
    | zero =>
      refine ⟨true, _, o', 1, stored (returns_ite.mpr (.inl ⟨rfl, rfl⟩)), by omega, by simp,
        by simp, { maps with entries := fun w within => ?_ }⟩
      rw [maps.entries w within]
      by_cases same : w = v
      · rw [if_pos same, if_pos (by omega), same, Nat.sub_self, Nat.add_zero,
          Nat.mod_eq_of_lt small]
      · rw [if_neg same, if_neg (by omega)]
    | succ n =>
      have unequal : v * pgsize ≠ (v + (n + 1)) * pgsize := by
        simp only [pgsize]
        omega
      have advance : ∀ {x : Nat}, x < 2 ^ 20
          → (x * pgsize + pgsize) % 2 ^ 32 = (x + 1) % 2 ^ 20 * pgsize := by
        intro x _
        simp only [pgsize]
        omega
      have below : v + 1 < 2 ^ 20 := by
        simp only [Inside, npdentries] at inside
        omega
      have later : v + (n + 1) = v + 1 + n := by omega
      rw [advance (by omega), advance small, Nat.mod_eq_of_lt below, later] at stored
      obtain ⟨r, u, o'', m, ran, bound, done, empty, more⟩ :=
        @ih (t.set pgtab (v % npdentries) ⟨p, perm ||| pteP⟩) (v + 1) o' n ((p + 1) % 2 ^ 20)
          maps.tables (by rwa [← later]) (by omega) (Nat.mod_lt _ (by decide)) fun k le => by
          rw [maps.entries _ (by simp only [Inside, npdentries] at *; omega),
            if_neg (by omega), Nat.add_assoc, Nat.add_comm 1 k]
          exact absent (k + 1) (by omega)
      refine ⟨r, u, o'', m + 1, ?_, by omega, by rw [done]; omega, ?_,
        { maps.trans more with entries := fun w within => ?_ }⟩
      · rw [later]
        exact stored (returns_ite.mpr (.inr ⟨later ▸ unequal, ran⟩))
      · rwa [← Nat.add_assoc, Nat.add_right_comm]
      · rw [more.entries w within, maps.entries w within]
        by_cases same : w = v
        · rw [if_neg (by omega), if_pos same, if_pos (by omega), same, Nat.sub_self,
            Nat.add_zero, Nat.mod_eq_of_lt small]
        · by_cases range : v + 1 ≤ w ∧ w < v + 1 + m
          · rw [if_pos range, if_pos (by omega), Nat.mod_add_mod]
            congr 2
            omega
          · rw [if_neg range, if_neg same, if_neg (by omega)]

theorem mappages_eq {n p : Nat} {perm : BitVec 12} (inside : Inside (v + n))
    : mappages d (v * pgsize) ((n + 1) * pgsize) (p * pgsize) perm
      = mapLoop d ((v + n) * pgsize) perm (2 ^ 20) (v * pgsize) (p * pgsize) := by
  have last : pgrounddown ((v * pgsize + (n + 1) * pgsize + (2 ^ 32 - 1)) % 2 ^ 32)
      = (v + n) * pgsize := by
    simp only [pgrounddown, Inside, pgsize, npdentries] at *
    omega
  have first : pgrounddown (v * pgsize) = v * pgsize := by simp [pgrounddown]
  rw [mappages, last, first]

/-- A frame that `kalloc` returned is filled and mapped at user page `v`. -/
theorem addPage_spec {f : Nat} {rest : List Nat} (bytes : Bytes) (perm : BitVec 12)
    (space : Space M s d o) (user : v < userPages) (absent : (s.pte d v).present = false)
    (head : s.freelist = f :: rest)
    : ∃ r t o', Returns (mappages d (v * pgsize) pgsize (f * pgsize) perm)
          { s with freelist := rest, mem := update s.mem f bytes } r t
        ∧ Space M t d o' ∧ o f = .free ∧ t.spare d + 1 = s.spare d ∧ (Tight s d → Tight t d)
        ∧ (∀ w, Inside w → t.pte d w
            = if r = true ∧ w = v then ⟨f, perm ||| pteP⟩ else s.pte d w)
        ∧ (r = true → Extends s o t o' ∧ t.mem f = bytes ∧ o' f = .page v)
        ∧ (r = false → t.freelist = [] ∧ (t.table d (v / npdentries)).present = false
            ∧ Extends { s with freelist := rest, mem := update s.mem f bytes }
                (update o f .hand) t o') := by
  obtain ⟨free, first⟩ := space.toFree.alloc head
  have bound := (space.valid f (by simp [first])).2
  have inside := inside_of_user user
  have tables : Tables M { s with freelist := rest, mem := update s.mem f bytes } d
      (update o f .hand) :=
    space.toTables.reuse { free with } rfl fun g => by grind
  obtain ⟨r, t, o', m, ran, le, done, empty, maps⟩ :=
    @mapLoop_spec M _ d v _ (2 ^ 20) 0 f perm tables inside (by decide)
      (by simp only [phystop, pgsize] at bound; omega) fun k le => by
      obtain rfl := Nat.le_zero.mp le
      exact absent
  rw [← mappages_eq inside, Nat.zero_add, Nat.one_mul] at ran
  have count : m = if r = true then 1 else 0 := by
    split
    next yes => exact done.mp yes
    next no => exact Nat.lt_one_iff.mp (Nat.lt_of_le_of_ne le fun all => no (done.mpr all))
  have entries : ∀ w, Inside w → t.pte d w
      = if r = true ∧ w = v then ⟨f, perm ||| pteP⟩ else s.pte d w := by
    intro w within
    rw [maps.entries w within, count]
    by_cases same : r = true ∧ w = v
    · rw [if_pos same, if_pos same.1, if_pos (by omega), same.2, Nat.sub_self, Nat.add_zero,
        Nat.mod_eq_of_lt (by simp only [phystop, pgsize] at bound; omega)]
    · rw [if_neg same, if_neg (by split <;> grind)]
      rfl
  have spare : t.spare d + 1 = s.spare d := by
    rw [maps.spare]
    simp only [State.spare, State.tables, head, List.length_cons]
    omega
  have held : o' f = .hand := by
    rw [(maps.kept f (by simp)).1, update_self]
  have pages : ∀ g w, g ≠ f → (o' g = .page w ↔ o g = .page w) := fun g w other => by
    rw [maps.pages, update_of_ne other]
  cases r with
  | false =>
    refine ⟨false, t, o', ran, { maps.tables with page := fun g w => ?_ }, first, spare,
      maps.tight, entries, nofun,
      fun _ => ⟨(empty rfl).1, by simpa [count] using (empty rfl).2, maps.toExtends⟩⟩
    have page := space.page g w
    have entry := entries w
    have user := @inside_of_user w
    grind
  | true =>
    have free' : Free M t (update o' f (.page v)) :=
      ⟨fun g => by have := maps.tables.free g; grind, maps.tables.nodup,
        fun g used => by have := maps.tables.valid g; grind⟩
    refine ⟨true, t, update o' f (.page v), ran,
      { maps.tables.reuse free' rfl fun g => by grind with page := fun g w => ?_ }, first, spare,
      maps.tight, entries,
      fun _ => ⟨⟨fun g used => ?_, fun g isFree => ?_, fun g others => ?_⟩, ?_, by simp⟩, nofun⟩
    · have page := space.page g w
      have entry := entries w
      have user := @inside_of_user w
      have here := present_or f perm
      grind
    · have other : g ≠ f := fun same => used (same ▸ first)
      have same : update o f .hand g = o g := update_of_ne other ..
      rw [update_of_ne other, maps.mem]
      exact ⟨(maps.kept g (same ▸ used)).1.trans same, update_of_ne other ..⟩
    · have taken := maps.taken g
      grind
    · exact maps.table g (by grind)
    · rw [maps.mem]
      exact update_self ..

end Walking

/-- A process of one page: its page directory, page table and page are frames 512, 513 and 514. -/
def onePage (free : List Nat) : State where
  freelist := free
  mem := fun _ _ => 0
  table := fun f i =>
    if i = 0 ∧ f = 512 then ⟨513, 7⟩ else if i = 0 ∧ f = 513 then ⟨514, 7⟩ else .zero

def onePageUses (free : List Nat) (f : Nat) : Use :=
  if f = 512 then .root
  else if f = 513 then .table 0
  else if f = 514 then .page 0
  else if f ∈ free then .free
  else .other

def smallMachine : Machine := ⟨257, 257, by decide, by decide, by decide⟩

theorem onePage_pte (free : List Nat) (v : Nat)
    : (onePage free).pte 512 v = if v = 0 then ⟨514, 7⟩ else .zero := by
  simp only [State.pte, onePage, npdentries]
  by_cases first : v / 1024 = 0
  · by_cases zero : v = 0
    · simp [zero, Pte.present]
    · simp [first, zero, Pte.present, show v % 1024 ≠ 0 by omega]
  · simp [first, show v ≠ 0 by omega, present_zero]

theorem onePage_space {free : List Nat} (nodup : free.Nodup)
    (range : ∀ f ∈ free, 514 < f ∧ f < 57344)
    : Space smallMachine (onePage free) 512 (onePageUses free) where
  free := fun f => by
    have := range f
    simp only [onePageUses, onePage]
    grind
  nodup := nodup
  valid := fun f used => by
    have := range f
    simp only [onePageUses] at used
    simp only [smallMachine, phystop, pgsize]
    grind
  root := fun f => by
    simp only [onePageUses]
    grind
  table := fun f i => by
    have here : (Pte.mk 513 7).present = true := by decide
    have gone := present_zero
    simp only [onePageUses, onePage]
    grind
  page := fun f v => by
    have here : (Pte.mk 514 7).present = true := by decide
    have gone := present_zero
    have some : 0 < userPages := by decide
    rw [onePage_pte]
    simp only [onePageUses]
    grind

end Xv6.Paging
