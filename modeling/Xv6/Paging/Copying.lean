import Xv6.Paging.Kernel

/-! `copyuvm` and `fork`: the child has copies of the pages of its parent in frames that were free,
and the parent is as it was.
-/

namespace Xv6.Paging

open Lib

variable {M : Machine} {s s' t : State} {d p v w sz : Nat} {o o' own : Nat → Use}

/-- The frames of one address space, from the point of view of another. -/
def hide (o : Nat → Use) (f : Nat) : Use := if o f = .free then .free else .other

theorem hide_bare (f : Nat) : hide o f = .free ∨ hide o f = .other := by
  simp only [hide]
  split <;> simp

theorem hide_other {f : Nat} : hide o f = .other ↔ o f ≠ .free := by
  simp only [hide]
  split <;> simp_all

theorem Free.hide (free : Free M s o) : Free M s (hide o) where
  free := fun f => by
    rw [← free.free, Paging.hide]
    split <;> simp_all
  nodup := free.nodup
  valid := fun f used => free.valid f fun others => used (by simp [Paging.hide, others])

theorem Aside.trans {u : State} (first : Aside s o t) (second : Aside t o' u)
    (others : ∀ f, o f = .other → o' f = .other)
    : Aside s o u := fun f isOther =>
  have before := first f isOther
  have after := second f (others f isOther)
  ⟨after.1.trans before.1, after.2.trans before.2⟩

theorem Extends.aside (ext : Extends s o t o') : Aside s o t := fun f others =>
  ⟨(ext.kept f (by simp [others])).2, ext.table f others⟩

/-- An address space that is aside keeps its entries and its pages. -/
theorem Space.pte_aside (parent : Space M s p own) (aside : Aside s (hide own) t)
    (inside : Inside w)
    : t.pte p w = s.pte p w := by
  have root : t.table p = s.table p :=
    (aside p (hide_other.mpr (by simp [(parent.root p).mpr rfl]))).2
  rw [State.pte, State.pte, root]
  split
  next here =>
    have table := (parent.toTables.use inside here).1
    rw [(aside _ (hide_other.mpr (by simp [table]))).2]
  next => rfl

theorem Space.mem_aside (parent : Space M s p own) (aside : Aside s (hide own) t)
    (user : v < userPages) (here : (s.pte p v).present = true)
    : t.mem (s.pte p v).frame = s.mem (s.pte p v).frame := by
  have page := (parent.page _ v).mpr ⟨user, here, rfl⟩
  exact (aside _ (hide_other.mpr (by simp [page]))).1

/-- The length of the free list when `copyuvm` gets a frame for a page and none for its page table:
65 frames are the kernel part, and each full page table is 1025 frames.
-/
def Short (sz frames : Nat) : Prop := ∃ k, k * 2 ^ 22 < sz ∧ frames = 66 + 1025 * k

/-- `copyuvm` at page `v`: the pages below are copied. -/
structure Copying (M : Machine) (p d : Nat) (s : State) (own : Nat → Use) (s' : State)
    (o : Nat → Use) (t : State) (o' : Nat → Use) (v : Nat) : Prop extends
    Grown M d (fun w => (s.pte p w).flags) (fun w => s.mem (s.pte p w).frame) s' o t o' 0 v where
  parent : Space M s p own
  aside : Aside s (hide own) s'
  hidden : ∀ f, o f = .other ↔ hide own f = .other
  kernel : ∀ w, Inside w → s'.pte d w = kernelPte M w
  tight : Tight t d
  count : t.spare d + v = s'.freelist.length + 64
  clean : ∀ f, o f ≠ .hand

section

variable (copying : Copying M p d s own s' o t o' v)
include copying

theorem Copying.present (inside : Inside w)
    : (t.pte d w).present = true ↔ w < v ∨ (kernelPte M w).present = true := by
  by_cases below : w < v
  · obtain ⟨f, -, -, entry, -⟩ := copying.new w (Nat.zero_le w) below
    rw [entry]
    exact iff_of_true (present_or ..) (.inl below)
  · rw [copying.old w inside (by omega), copying.kernel w inside]
    simp [below]

theorem Copying.absent (above : v ≤ w) (user : w < userPages)
    : (t.pte d w).present = false := by
  rw [← Bool.not_eq_true, copying.present (inside_of_user user), kernelPte_present, kernelRows_hold]
  simp only [userPages, kernbase, pgsize] at user
  omega

/-- Each page takes a frame, and each page table. -/
theorem Copying.length (le : v ≤ userPages)
    : t.freelist.length + (v + (npdentries - 1)) / npdentries + v = s'.freelist.length := by
  have tables := State.tables_eq copying.tight le fun w within => copying.present within
  have count := copying.count
  rw [State.spare, tables] at count
  omega

/-- The frames of others, and no frame in hand. -/
theorem Copying.uses (f : Nat)
    : (o' f = .other ↔ o f = .other) ∧ o' f ≠ .hand := by
  have := copying.kept f
  have := copying.taken f
  have := copying.clean f
  grind

theorem Copying.nearby : Aside s (hide own) t :=
  copying.aside.trans copying.toExtends.aside fun f => (copying.hidden f).mpr

/-- One more page is copied. -/
theorem Copying.add {f : Nat} {rest : List Nat} (user : v < userPages)
    (head : t.freelist = f :: rest)
    : ∃ r u q, Returns (mappages d (v * pgsize) pgsize (f * pgsize) (s.pte p v).flags)
          { t with
            freelist := rest
            mem := Function.update t.mem f (s.mem (s.pte p v).frame) } r u
        ∧ ((r = true ∧ Copying M p d s own s' o u q (v + 1))
          ∨ (r = false ∧ Space M u d q ∧ Aside s' o u ∧ (∀ f, q f = .other ↔ o f = .other)
            ∧ (∃ f, q f = .hand)
            ∧ ∃ k, v = 1024 * k ∧ s'.freelist.length + 65 = 66 + 1025 * k)) := by
  obtain ⟨r, u, q, ran, space, first, spare, tight, entries, done, failed⟩ :=
    addPage_spec (s.mem (s.pte p v).frame) (s.pte p v).flags copying.space user
      (copying.absent (Nat.le_refl v) user) head
  have count := copying.count
  have inside := inside_of_user user
  refine ⟨r, u, q, ran, ?_⟩
  cases r with
  | true =>
    obtain ⟨ext, filled, page⟩ := done rfl
    exact .inl ⟨rfl, { copying with
      toGrown := copying.toGrown.add space ext first (by simpa using entries) filled page inside
        (Nat.zero_le v)
      tight := tight copying.tight
      count := by omega }⟩
  | false =>
    obtain ⟨empty, unlinked, ext⟩ := failed rfl
    have same : ∀ w, Inside w → u.pte d w = t.pte d w := by simpa using entries
    have uses := copying.uses
    refine .inr ⟨rfl, space, fun g others => ?_, fun g => ?_, ⟨f, ?_⟩, v / 1024, ?_⟩
    · have aside := copying.toExtends.aside g others
      have apart : g ≠ f := by grind
      have others' : Function.update o' f .hand g = .other := by grind
      rw [(ext.kept g (by simp [others'])).2, ext.table g others', ← aside.1, ← aside.2]
      exact ⟨Function.update_of_ne apart .., rfl⟩
    · have := ext.kept g
      have := ext.taken g
      grind
    · exact (ext.kept f (by simp)).1.trans (Function.update_self ..)
    · have aligned : v % 1024 = 0 := by
        by_contra middle
        have index : (v - 1) / npdentries = v / npdentries := by
          simp only [npdentries]
          omega
        have within : Inside (v - 1) := by rwa [Inside, index]
        have before := (copying.present within).mpr (.inl (by omega))
        rw [← same _ within] at before
        have linked := State.linked_of_present before
        rw [index, unlinked] at linked
        cases linked
      have tables := State.tables_eq (tight copying.tight) (Nat.le_of_lt user) fun w within => by
        rw [same w within]
        exact copying.present within
      rw [State.spare, empty, tables] at spare
      simp only [List.length_nil, npdentries] at spare
      omega

theorem copyLoop_spec {fuel : Nat} (le : sz ≤ kernbase)
    (below : ∀ w, w * pgsize < sz → (s.pte p w).present = true) (le' : v ≤ pagesOf sz)
    (enough : pagesOf sz - v < fuel)
    : ∃ r u q, Returns (copyLoop p d sz fuel (v * pgsize)) t r u
        ∧ ((r = true ∧ Copying M p d s own s' o u q (pagesOf sz))
          ∨ (r = false ∧ Space M u d q ∧ Aside s' o u ∧ (∀ f, q f = .other ↔ o f = .other)
            ∧ ((∃ f, q f = .hand) ↔ Short sz (s'.freelist.length + 65))
            ∧ s'.freelist.length < pagesOf sz + (pagesOf sz + 1023) / 1024)) := by
  have bound := pagesOf_le le
  induction fuel generalizing t o' v with
  | zero => exact absurd enough (Nat.not_lt_zero _)
  | succ fuel ih =>
    by_cases more : v < pagesOf sz
    case neg =>
      obtain rfl : v = pagesOf sz := by omega
      exact ⟨true, t, o', returns_ite.mpr (.inr ⟨by rwa [lt_pagesOf], rfl⟩), .inl ⟨rfl, copying⟩⟩
    have user := Nat.lt_of_lt_of_le more bound
    have inside := inside_of_user user
    have here := below v (lt_pagesOf.mpr more)
    have entry := copying.parent.pte_aside copying.nearby inside
    have bytes := copying.parent.mem_aside copying.nearby user here
    obtain ⟨pgtab, -, -, walked, loaded⟩ := walkpgdir_finds inside (by rwa [entry])
    rw [entry] at loaded
    have pass : ∀ {y : Option Nat} {t' u : State} {x : Bool}, Returns kalloc t y t'
        → Returns (y.elim (pure false) fun mem => do
            modify fun t' =>
              { t' with mem := Function.update t'.mem mem (t'.mem (s.pte p v).frame) }
            if ← mappages d (v * pgsize) pgsize (mem * pgsize) (s.pte p v).flags then
              copyLoop p d sz fuel ((v * pgsize + pgsize) % 2 ^ 32)
            else pure false) t' x u
        → Returns (copyLoop p d sz (fuel + 1) (v * pgsize)) t x u := by
      intro y t' u x taken rest
      rw [copyLoop, if_pos (lt_pagesOf.mpr more)]
      refine walked.bind (returns_bind.mpr ⟨t, t, returns_get.mpr ⟨rfl, rfl⟩, ?_⟩)
      simp only [loaded]
      rw [if_pos here]
      refine taken.bind ?_
      cases y <;> exact rest
    cases head : t.freelist with
    | nil =>
      refine ⟨false, t, o', pass (y := none) (u := t) ?_ rfl, .inr ⟨rfl, copying.space,
        copying.toExtends.aside, fun f => (copying.uses f).1, ?_⟩⟩
      · simp [kalloc, returns_bind, head]
      · have length := copying.length (Nat.le_of_lt user)
        rw [head] at length
        simp only [List.length_nil, npdentries] at length
        refine ⟨iff_of_false (not_exists.mpr fun f => (copying.uses f).2) ?_, by omega⟩
        rintro ⟨k, small, short⟩
        omega
    | cons f rest =>
      obtain ⟨r, u, q, mapped, result⟩ := copying.add user head
      have pass' : ∀ {x : Bool} {u' : State},
          Returns (if r = true then copyLoop p d sz fuel ((v * pgsize + pgsize) % 2 ^ 32)
            else pure false) u x u'
          → Returns (copyLoop p d sz (fuel + 1) (v * pgsize)) t x u' := by
        intro x u' later
        have taken : Returns kalloc t (some f) { t with freelist := rest } := by
          simp [kalloc, returns_bind, returns_comp, head]
        refine pass taken
          (returns_bind.mpr ⟨(), _, returns_modify.mpr rfl, Returns.bind ?_ later⟩)
        simp only [bytes]
        exact mapped
      obtain ⟨rfl, more'⟩ | ⟨rfl, space, aside, others, hand, k, isMultiple, short⟩ := result
      · obtain ⟨x, u', q', ran, result⟩ := ih more' (by omega) (by omega)
        rw [← next_page user] at ran
        exact ⟨x, u', q', pass' (returns_ite.mpr (.inl ⟨rfl, ran⟩)), result⟩
      · refine ⟨false, u, q, pass' rfl, .inr ⟨rfl, space, aside, others,
          iff_of_true hand ⟨k, ?_, short⟩, by omega⟩⟩
        have size : v * pgsize = k * 2 ^ 22 := by
          simp only [pgsize]
          omega
        exact size ▸ lt_pagesOf.mpr more

end

/-- `copyuvm` copies the pages below `sz`, or frees what it took but for a page in hand. -/
theorem copyuvm_spec (parent : Space M s p own) (le : sz ≤ kernbase)
    (below : ∀ w, w * pgsize < sz → (s.pte p w).present = true)
    : ∃ r t, Returns (copyuvm M p sz) s r t ∧ Aside s (hide own) t
        ∧ ((r = none ∧ ∃ q, Free M t q ∧ (∀ f, q f = .other ↔ hide own f = .other)
            ∧ (∀ f, q f = .other ∨ q f = .free ∨ q f = .hand)
            ∧ ((∃ f, q f = .hand) ↔ Short sz s.freelist.length)
            ∧ s.freelist.length ≤ 65 + pagesOf sz + (pagesOf sz + 1023) / 1024)
          ∨ (¬Short sz s.freelist.length
            ∧ ∃ d s' o o', r = some d ∧ Copying M p d s own s' o t o' (pagesOf sz))) := by
  have bound := pagesOf_le le
  obtain ⟨r, s', made, aside, none | some⟩ := setupkvm_spec parent.toFree.hide hide_bare
  · obtain ⟨rfl, free, few⟩ := none
    have bare := fun f => @hide_bare own f
    refine ⟨none, s', made.bind rfl, aside, .inl ⟨rfl, hide own, free, fun _ => Iff.rfl,
      fun f => by grind, iff_of_false ?_ ?_, by omega⟩⟩
    · rintro ⟨f, hand⟩
      have := bare f
      grind
    · rintro ⟨k, -, length⟩
      omega
  · obtain ⟨d, o, rfl, space, first, others, taken, kernel, tight, length⟩ := some
    have bare := fun f => @hide_bare own f
    have start : Copying M p d s own s' o s' o 0 :=
      { toGrown := .refl space, parent, aside, kernel, tight
        hidden := fun f => by grind
        count := by
          rw [State.spare, State.tables_eq (M := M) tight (Nat.zero_le _) fun w within => by
            rw [kernel w within]
            simp]
          simp [npdentries]
        clean := fun f => by grind }
    have enough : pagesOf sz - 0 < 2 ^ 20 + 1 := by
      simp only [userPages, kernbase, pgsize] at bound
      omega
    obtain ⟨x, t, q, ran, result⟩ := copyLoop_spec start le below (Nat.zero_le _) enough
    rw [Nat.zero_mul] at ran
    rw [← length] at result
    obtain ⟨rfl, copying⟩ | ⟨rfl, space', aside', others', hand, few⟩ := result
    · refine ⟨some d, t, made.bind (ran.bind rfl), copying.nearby,
        .inr ⟨?_, d, s', o, q, rfl, copying⟩⟩
      rintro ⟨k, small, short⟩
      have taken := copying.length bound
      simp only [pagesOf, pgsize, npdentries] at taken
      omega
    · obtain ⟨u, freed, free, mem, table⟩ := freevm_spec space'
      have uses : ∀ f, (unowned q f = .other ↔ q f = .other) ∧ (unowned q f = .hand ↔ q f = .hand)
          ∧ (unowned q f = .other ∨ unowned q f = .free ∨ unowned q f = .hand) := by
        intro f
        simp only [unowned]
        cases q f <;> simp
      refine ⟨Option.none, u, made.bind (ran.bind (freed.bind rfl)), fun f isOther => ?_,
        .inl ⟨rfl, unowned q, free, fun f => ?_, fun f => (uses f).2.2, ?_, by omega⟩⟩
      · have here : q f = .other := (others' f).mpr ((start.hidden f).mpr isOther)
        rw [mem f (by simp [(uses f).1.mpr here]), table f here]
        exact (aside.trans aside' fun g => (start.hidden g).mpr) f isOther
      · rw [(uses f).1, others', start.hidden]
      · rw [← hand]
        exact exists_congr fun f => (uses f).2.1

/-- A store of a user process through `d`. -/
def State.write (s : State) (d v : Nat) (bytes : Bytes) : State :=
  { s with mem := Function.update s.mem (s.pte d v).frame bytes }

/-- The page that a process with page directory `d` sees at page `v`. -/
def State.view (s : State) (d v : Nat) : Pte × Bytes := (s.pte d v, s.mem (s.pte d v).frame)

/-- Frame `f` is used by `d`. -/
def Owned (s : State) (d f : Nat) : Prop := f = d ∨ Linked s d f ∨ Mapped s d f

theorem Space.owned_iff {f : Nat} (space : Space M s d o)
    : Owned s d f ↔ o f = .root ∨ (∃ i, o f = .table i) ∨ ∃ w, o f = .page w := by
  rw [Owned, space.toTables.linked_iff, space.mapped_iff, space.root]

theorem view_write {d' : Nat} {bytes : Bytes} (apart : (s.pte d' w).frame ≠ (s.pte d v).frame)
    : (s.write d v bytes).view d' w = s.view d' w :=
  Prod.ext rfl (Function.update_of_ne apart ..)

/-- `copyuvm` copies the address space below `sz` into frames that were free and leaves the parent
as it was, so that no store through one directory is seen through the other.
-/
theorem copyuvm_isolates (parent : Space M s p own) (le : sz ≤ kernbase)
    (below : ∀ v, v * pgsize < sz → (s.pte p v).present = true)
    : ∃ r t, Returns (copyuvm M p sz) s r t
        ∧ ∀ d, r = some d
          → (∀ v, v * pgsize < sz → (t.pte d v).present = true
              ∧ (t.pte d v).flags = (s.pte p v).flags ∧ (t.view d v).2 = (s.view p v).2)
            ∧ (∀ v, pgroundup sz ≤ v * pgsize → v < userPages → (t.pte d v).present = false)
            ∧ (∀ v, userPages ≤ v → Inside v → t.pte d v = kernelPte M v)
            ∧ (∀ f, Owned t d f → f ∈ s.freelist)
            ∧ (∀ v, Inside v → t.pte p v = s.pte p v)
            ∧ (∀ v, v < userPages → (s.pte p v).present = true → t.view p v = s.view p v)
            ∧ ∀ v w bytes, v < userPages → w < userPages → (t.pte d v).present = true
              → (t.pte p w).present = true
              → (t.write d v bytes).view p w = t.view p w
                ∧ (t.write p w bytes).view d v = t.view d v := by
  obtain ⟨r, t, ran, aside, result⟩ := copyuvm_spec parent le below
  refine ⟨r, t, ran, fun d isSome => ?_⟩
  obtain ⟨rfl, -⟩ | ⟨-, d', s', o, o', rfl, copying⟩ := result
  · cases isSome
  obtain rfl := Option.some.inj isSome
  have bound := pagesOf_le le
  have fresh : ∀ f, Owned t d' f → own f = .free := fun f owned => by
    have := copying.space.owned_iff.mp owned
    have := (copying.uses f).1
    rw [copying.hidden, hide_other] at this
    grind
  have entries := fun w => @Space.pte_aside M s t p w own parent aside
  refine ⟨fun v inRange => ?_, fun v beyond user => ?_, fun v above inside => ?_, fun f owned => ?_,
    entries, fun v user here => ?_, fun v w bytes user user' here here' => ?_⟩
  · obtain ⟨f, -, -, entry, bytes⟩ := copying.new v (Nat.zero_le v) (lt_pagesOf.mp inRange)
    have flags : (s.pte p v).flags ||| pteP = (s.pte p v).flags := present_flags (below v inRange)
    rw [State.view, entry, flags]
    exact ⟨flags ▸ present_or f _, rfl, bytes⟩
  · rw [pgroundup_eq le, Nat.mul_le_mul_right_iff (by decide)] at beyond
    exact copying.absent beyond user
  · rw [copying.old v inside (by omega), copying.kernel v inside]
  · exact (parent.free f).mp (fresh f owned)
  · rw [State.view, entries v (inside_of_user user), parent.mem_aside aside user here]
    rfl
  · have apart : (t.pte d' v).frame ≠ (t.pte p w).frame := fun same => by
      have free := fresh _ (.inr (.inr ⟨v, user, here, same⟩))
      rw [entries w (inside_of_user user')] at here' free
      rw [(parent.page _ w).mpr ⟨user', here', rfl⟩] at free
      cases free
    exact ⟨view_write apart.symm, view_write apart⟩

/-- The process of one page is copied with 68 free frames. -/
theorem copyuvm_isolates_onePage
    : ∃ d t, Returns (copyuvm smallMachine 512 pgsize) (onePage (List.range' 515 68)) (some d) t
        ∧ (t.pte d 0).present = true ∧ t.pte 512 0 = ⟨514, 7⟩ := by
  have space := @onePage_space (List.range' 515 68) (by decide) (by decide)
  have below : ∀ v, v * pgsize < pgsize
      → ((onePage (List.range' 515 68)).pte 512 v).present = true := fun v below => by
    obtain rfl : v = 0 := by
      simp only [pgsize] at below
      omega
    rw [onePage_pte]
    decide
  obtain ⟨r, t, ran, result⟩ := copyuvm_isolates space (by decide) below
  obtain ⟨r', t', ran', -, ⟨-, -, -, -, -, -, few⟩ | ⟨-, d, -, -, -, isSome, -⟩⟩ :=
    copyuvm_spec space (by decide) below
  · exact absurd few (by decide)
  obtain ⟨rfl, -⟩ := ran.unique ran'
  obtain ⟨copied, -, -, -, kept, -⟩ := result d isSome
  exact ⟨d, t, isSome ▸ ran, (copied 0 (by decide)).1, by rw [kept 0 (by decide), onePage_pte]; rfl⟩

end Xv6.Paging
