import Xv6.Kalloc.Directory
import Xv6.Vm.AddressSpaces

/-! The pages of a page directory, and what each function of `vm.c` does with them. -/

namespace Xv6.Kalloc

open Xv6.Lib
open Xv6.Vm (pages userPages)

variable {v left : Nat} {d : Dir} {oldsz sz : UInt32}

/-- A page that may be there. -/
def held (x : Option Frame) : Multiset Frame := x.elim 0 ({·})

@[simp] theorem held_none : held none = 0 := rfl

@[simp] theorem held_some (f : Frame) : held (some f) = {f} := rfl

def Table.frames (t : Table) : Multiset Frame :=
  {t.page} + upTo npdentries fun j => held (t.entry j)

def tableFrames (x : Option Table) : Multiset Frame := x.elim 0 Table.frames

@[simp] theorem tableFrames_none : tableFrames none = 0 := rfl

@[simp] theorem tableFrames_some (t : Table) : tableFrames (some t) = t.frames := rfl

def Dir.frames (d : Dir) : Multiset Frame :=
  {d.page} + upTo halfTables (fun i => tableFrames (d.user i))
    + upTo halfTables fun i => held (d.kernel i)

theorem table_index (user : v < userPages) : v / npdentries < halfTables := by
  simp only [userPages, kernbase, pgsize, halfTables, npdentries] at *
  omega

theorem Dir.frames_newTable (user : v < userPages) (absent : d.user (v / npdentries) = none)
    (page : Frame)
    : (d.newTable v page).frames = d.frames + {page} := by
  have sums := upTo_update (table_index user) d.user (some ⟨page, fun _ => none⟩) tableFrames
  have single : Table.frames ⟨page, fun _ => none⟩ = {page} := by simp [Table.frames]
  rw [absent, tableFrames_none, tableFrames_some, single, add_zero] at sums
  simp only [frames, newTable, sums]
  abel

/-- A store to an entry replaces the page that was there. -/
theorem Dir.frames_setEntry (user : v < userPages) {t : Table}
    (found : d.user (v / npdentries) = some t) (x : Option Frame)
    : (d.setEntry v t x).frames + held (t.entry (v % npdentries)) = d.frames + held x := by
  have entries := upTo_update (Nat.mod_lt v (by decide : 0 < npdentries)) t.entry x held
  have sums := upTo_update (table_index user) d.user
    (some ⟨t.page, Function.update t.entry (v % npdentries) x⟩) tableFrames
  rw [found, tableFrames_some, tableFrames_some] at sums
  simp only [Table.frames] at sums
  simp only [frames, setEntry]
  generalize upTo halfTables (fun i => tableFrames (Function.update d.user _ _ i)) = after at *
  generalize upTo halfTables (fun i => tableFrames (d.user i)) = before at *
  generalize upTo npdentries (fun j => held (Function.update t.entry _ x j)) = new at *
  generalize upTo npdentries (fun j => held (t.entry j)) = old at *
  -- The table and what does not change cancel out.
  have tables : after + old = before + new := by
    refine add_right_cancel (b := ({t.page} : Multiset Frame)) ?_
    calc after + old + {t.page} = after + ({t.page} + old) := by abel
      _ = before + ({t.page} + new) := sums
      _ = before + new + {t.page} := by abel
  refine add_right_cancel (b := old) ?_
  calc _ = after + old + ({d.page} + upTo halfTables (fun i => held (d.kernel i))
          + held (t.entry (v % npdentries))) := by abel
    _ = before + (new + held (t.entry (v % npdentries)))
          + ({d.page} + upTo halfTables fun i => held (d.kernel i)) := by
        rw [tables]
        abel
    _ = _ := by
        rw [entries]
        abel

theorem Dir.frames_setKernel {i : Nat} (kernel : i < halfTables) (page : Frame)
    : (d.setKernel i page).frames ≤ d.frames + {page} := by
  have sums := upTo_update kernel d.kernel (some page) held
  rw [held_some] at sums
  have le : upTo halfTables (fun j => held (Function.update d.kernel i (some page) j))
      ≤ upTo halfTables (fun j => held (d.kernel j)) + {page} := by
    rw [← sums]
    exact Multiset.le_add_right ..
  simp only [frames, setKernel]
  rw [add_assoc _ _ ({page} : Multiset Frame)]
  exact add_le_add le_rfl le

/-- The tables of a directory, and its own page. -/
theorem Dir.tables_le (d : Dir) : {d.page} + (d.tables : Multiset Frame) ≤ d.frames := by
  have users : ((List.range halfTables).filterMap (fun i => (d.user i).map Table.page)
        : Multiset Frame)
      ≤ upTo halfTables fun i => tableFrames (d.user i) := by
    rw [coe_filterMap]
    refine upTo_mono fun i => ?_
    cases d.user i with
    | none => exact le_rfl
    | some t => exact Multiset.le_add_right ..
  have kernels : ((List.range halfTables).filterMap d.kernel : Multiset Frame)
      = upTo halfTables fun i => held (d.kernel i) := coe_filterMap d.kernel
  unfold tables frames
  rw [← Multiset.coe_add, kernels]
  calc _ = {d.page} + _ + (upTo halfTables fun i => held (d.kernel i)) := by abel
    _ ≤ _ := add_le_add (add_le_add le_rfl users) le_rfl

/-! The functions of vm.c. -/

/-- The pages of a directory that may be there. -/
def dirFrames (x : Option Dir) : Multiset Frame := x.elim 0 Dir.frames

@[simp] theorem dirFrames_none : dirFrames none = 0 := rfl

@[simp] theorem dirFrames_some (d : Dir) : dirFrames (some d) = d.frames := rfl

def Piece.frames : Piece → Multiset Frame
  | .directory d => d.frames
  | .page f => {f}

@[simp] theorem Piece.frames_directory (d : Dir) : (Piece.directory d).frames = d.frames := rfl

@[simp] theorem Piece.frames_page (f : Frame) : (Piece.page f).frames = {f} := rfl

/-- A directory shows itself. -/
theorem shows_directory (d : Dir) : sizes Piece.frames [.directory d] ≤ d.frames := by simp

/-- Code that runs while there is something else. -/
theorem keeps_beside {α : Type} {holds : α → Multiset Frame} {good : α → Prop} {code : Code α}
    {part : Multiset Frame} (keeps : Keeps Piece.frames holds good code part) (x : Piece)
    : Keeps Piece.frames (fun r => holds r + x.frames) good (code.within [x])
        (part + x.frames) := by
  have single : sizes Piece.frames [x] = x.frames := by simp
  simpa only [single, add_comm x.frames] using keeps.within [x]

/-- The table that `walkpgdir` returns is in the directory. -/
theorem walkpgdir_keeps (user : v < userPages)
    : Keeps Piece.frames (fun r => r.elim d.frames fun found => found.1.frames)
        (fun r => ∀ found ∈ r, found.1.user (v / npdentries) = some found.2)
        (walkpgdir d v) d.frames := by
  unfold walkpgdir
  split
  · rename_i t there
    exact .done le_rfl (by simpa using there)
  · rename_i absent
    refine .take (shows_directory d) (.done le_rfl (by simp)) fun page => .done ?_ ?_
    · exact (Dir.frames_newTable user absent page).le
    · simp [Dir.newTable]

/-- `mappages` puts the page into the directory, or fails and leaves both as they are. -/
theorem mappages_keeps (user : v < userPages) (mem : Frame)
    : Keeps Piece.frames (fun r => r.elim (d.frames + {mem}) Dir.frames) (fun _ => True)
        (mappages d v mem) (d.frames + {mem}) := by
  refine (keeps_beside (walkpgdir_keeps user) (.page mem)).bind fun r found => ?_
  cases r with
  | none => exact .done le_rfl trivial
  | some r =>
    obtain ⟨d', t⟩ := r
    dsimp only
    split
    · exact .stop
    · rename_i empty
      have same := Dir.frames_setEntry user (found _ rfl) (some mem)
      rw [Option.not_isSome_iff_eq_none.mp empty, held_none, add_zero, held_some] at same
      exact .done same.le trivial

theorem deallocLoop_keeps {stop : Nat} (user : stop ≤ userPages) (fuel v : Nat) (d : Dir)
    : Keeps Piece.frames Dir.frames (fun _ => True) (deallocLoop stop fuel v d) d.frames := by
  induction fuel generalizing v d with
  | zero => exact .done le_rfl trivial
  | succ fuel ih =>
    unfold deallocLoop
    split
    · split
      · exact ih _ d
      · rename_i t found
        split
        · exact ih _ d
        · rename_i f there
          have same := Dir.frames_setEntry (v := v) (by omega) found none
          rw [there, held_some, held_none, add_zero] at same
          rw [← same]
          exact .give (shows_directory _) (ih (v + 1) (d.setEntry v t none))
    · exact .done le_rfl trivial

theorem deallocuvm_keeps (small : oldsz.toNat < kernbase) (newsz : UInt32) (d : Dir)
    : Keeps Piece.frames (fun r => r.1.frames) (fun r => r.2.toNat < kernbase)
        (deallocuvm d oldsz newsz) d.frames := by
  unfold deallocuvm
  split
  · exact .done le_rfl small
  · rename_i less
    have shrinks := UInt32.lt_iff_toNat_lt.mp (UInt32.not_le.mp less)
    exact (deallocLoop_keeps (Vm.pages_le_userPages small) _ _ d).bind fun d _ =>
      .done le_rfl (Nat.lt_trans shrinks small)

theorem freeTables_keeps (page : Frame) (tables : List Frame)
    : Keeps Piece.frames (fun _ => 0) (fun _ => True) (freeTables page tables)
        ({page} + tables) := by
  induction tables with
  | nil =>
    rw [Multiset.coe_nil, add_comm]
    exact .give le_rfl (.done le_rfl trivial)
  | cons table rest ih =>
    rw [← Multiset.cons_coe, ← Multiset.singleton_add, add_comm ({table} : Multiset Frame),
      ← add_assoc]
    refine .give (le_of_eq ?_) ih
    simp only [sizes, List.map_cons, List.map_map, List.sum_cons, Piece.frames_page]
    congr 1
    exact Multiset.sum_map_singleton (rest : Multiset Frame)

/-- `freevm` gives back the directory with all that belongs to it. -/
theorem freevm_keeps (d : Dir)
    : Keeps Piece.frames (fun _ => 0) (fun _ => True) (freevm d) d.frames :=
  (deallocLoop_keeps (le_refl userPages) _ 0 d).bind fun d _ =>
    (freeTables_keeps d.page d.tables).mono d.tables_le

theorem setupLoop_keeps {indices : List Nat} (kernel : ∀ i ∈ indices, i < halfTables) (d : Dir)
    : Keeps Piece.frames dirFrames (fun _ => True) (setupLoop indices d) d.frames := by
  induction indices generalizing d with
  | nil => exact .done le_rfl trivial
  | cons i rest ih =>
    refine .take (shows_directory d) ((freevm_keeps d).bind fun _ _ => .done le_rfl trivial)
      fun page => ?_
    refine (ih (fun j member => kernel j (by simp [member])) (d.setKernel i page)).mono ?_
    exact Dir.frames_setKernel (kernel i (by simp)) page

theorem setupkvm_keeps : Keeps Piece.frames dirFrames (fun _ => True) setupkvm 0 := by
  refine .take le_rfl (.done le_rfl trivial) fun page => ?_
  refine (setupLoop_keeps (by decide) _).mono ?_
  simp [Dir.frames]

theorem allocLoop_keeps (oldsz : UInt32) {newsz : UInt32} (small : newsz.toNat < kernbase)
    (user : v + left ≤ userPages) (d : Dir)
    : Keeps Piece.frames (fun r => r.1.frames) (fun _ => True)
        (allocLoop oldsz newsz left v d) d.frames := by
  have shrinks := fun d => deallocuvm_keeps small oldsz d
  induction left generalizing v d with
  | zero => exact .done le_rfl trivial
  | succ left ih =>
    refine .take (shows_directory d) ((shrinks d).bind fun _ _ => .done le_rfl trivial)
      fun mem => ?_
    refine (mappages_keeps (v := v) (by omega) mem).bind fun r _ => ?_
    cases r with
    | some d => exact ih (by omega) d
    | none =>
      refine (keeps_beside (shrinks d) (.page mem)).bind fun r _ => ?_
      exact .give (shows_directory r.1) (.done le_rfl trivial)

theorem zero_small : (0 : UInt32).toNat < kernbase := by decide

theorem allocuvm_keeps (small : oldsz.toNat < kernbase) (newsz : UInt32) (d : Dir)
    : Keeps Piece.frames (fun r => r.1.frames) (fun r => r.2.toNat < kernbase)
        (allocuvm d oldsz newsz) d.frames := by
  unfold allocuvm
  split
  · exact .done le_rfl zero_small
  · rename_i large
    split
    · exact .done le_rfl small
    · rename_i grows
      have fits := Vm.pages_le_userPages (Nat.lt_of_not_le large)
      have more := UInt32.le_iff_toNat_le.mp (UInt32.not_lt.mp grows)
      have order : pages oldsz ≤ pages newsz := Nat.div_le_div_right (by omega)
      refine (allocLoop_keeps oldsz (Nat.lt_of_not_le large) (by omega) d).bind fun r _ => ?_
      refine .done le_rfl ?_
      dsimp only
      split
      · exact Nat.lt_of_not_le large
      · exact zero_small

theorem growproc_keeps (small : sz.toNat < kernbase) (n : Int32) (d : Dir)
    : Keeps Piece.frames (fun r => r.1.frames) (fun r => r.2.toNat < kernbase)
        (growproc d sz n) d.frames := by
  -- A result of 0 keeps the size.
  have sizes : ∀ new : UInt32, new.toNat < kernbase
      → (if new = 0 then sz else new).toNat < kernbase := fun new newSmall => by
    split
    · exact small
    · exact newSmall
  unfold growproc
  split
  · exact (allocuvm_keeps small _ d).bind fun r newSmall => .done le_rfl (sizes r.2 newSmall)
  · split
    · exact (deallocuvm_keeps small _ d).bind fun r newSmall => .done le_rfl (sizes r.2 newSmall)
    · exact .done le_rfl small

theorem copyLoop_keeps (parent : Dir) (user : v + left ≤ userPages) (d : Dir)
    : Keeps Piece.frames dirFrames (fun _ => True) (copyLoop parent left v d) d.frames := by
  have frees : ∀ d : Dir, Keeps Piece.frames dirFrames (fun _ => True)
      ((freevm d).bind fun _ => .done none) d.frames := fun d =>
    (freevm_keeps d).bind fun _ _ => .done le_rfl trivial
  induction left generalizing v d with
  | zero => exact .done le_rfl trivial
  | succ left ih =>
    unfold copyLoop
    split
    · exact .stop
    · split
      · exact .stop
      · refine .take (shows_directory d) (frees d) fun mem => ?_
        refine (mappages_keeps (v := v) (by omega) mem).bind fun r _ => ?_
        cases r with
        | some d => exact ih (by omega) d
        | none => exact (frees d).mono (Multiset.le_add_right ..)

theorem copyuvm_keeps (parent : Dir) (small : sz.toNat < kernbase)
    : Keeps Piece.frames dirFrames (fun _ => True) (copyuvm parent sz) 0 := by
  refine setupkvm_keeps.bind fun r _ => ?_
  cases r with
  | none => exact .done le_rfl trivial
  | some d =>
    have fits := Vm.pages_le_userPages small
    exact copyLoop_keeps parent (by omega) d

theorem loadHeaders_keeps (headers : List (Option Header)) (small : sz.toNat < kernbase) (d : Dir)
    : Keeps Piece.frames (fun r => r.1.frames) (fun r => ∀ new ∈ r.2, new.toNat < kernbase)
        (loadHeaders headers d sz) d.frames := by
  induction headers generalizing d sz with
  | nil => exact .done le_rfl (by simpa using small)
  | cons header rest ih =>
    cases header with
    | none => exact .done le_rfl (by simp)
    | some ph =>
      unfold loadHeaders
      split
      · exact ih small d
      · split
        · exact .done le_rfl (by simp)
        · refine (allocuvm_keeps small _ d).bind fun r newSmall => ?_
          split
          · exact .done le_rfl (by simp)
          · split
            · exact .stop
            · split
              · exact .done le_rfl (by simp)
              · exact ih newSmall r.1

theorem allocStack_keeps (small : sz.toNat < kernbase) (d : Dir)
    : Keeps Piece.frames (fun r => r.1.frames) (fun r => ∀ new ∈ r.2, new.toNat < kernbase)
        (allocStack d sz) d.frames := by
  have grows : Keeps Piece.frames (fun r => r.1.frames) (fun r => r.2.toNat < kernbase)
      (allocuvm d (Syscall.pgRoundDown (sz + 4095)) (Syscall.pgRoundDown (sz + 4095) + 8192))
      d.frames := by
    have round := Vm.pages_pgRoundUp small
    have bound := Vm.pages_le_userPages small
    generalize Syscall.pgRoundDown (sz + 4095) = top at *
    by_cases fits : top.toNat < kernbase
    · exact allocuvm_keeps fits _ d
    · -- The size rounds up to `KERNBASE`, and nothing is allocated above it.
      have above : (top + 8192).toNat ≥ kernbase := by
        rw [UInt32.toNat_add]
        simp only [userPages, kernbase, pgsize, UInt32.toNat_ofNat] at *
        omega
      rw [allocuvm, if_pos above]
      exact .done le_rfl zero_small
  unfold allocStack
  dsimp only
  refine grows.bind fun r newSmall => ?_
  split
  · exact .done le_rfl (by simp)
  · split
    · exact .stop
    · exact .done le_rfl (by simpa using newSmall)

theorem execBad_keeps (old : Dir) (small : oldsz.toNat < kernbase) (d : Dir)
    : Keeps Piece.frames (fun r => r.1.frames) (fun r => r.2.toNat < kernbase)
        (execBad old oldsz d) (d.frames + old.frames) :=
  (keeps_beside (freevm_keeps d) (.directory old)).bind fun _ _ => .done (by simp) small

theorem exec_keeps (old : Dir) (small : oldsz.toNat < kernbase) (program : Program)
    : Keeps Piece.frames (fun r => r.1.frames) (fun r => r.2.toNat < kernbase)
        (exec old oldsz program) old.frames := by
  unfold exec
  split
  · exact .done le_rfl small
  · have start := keeps_beside setupkvm_keeps (.directory old)
    rw [zero_add] at start
    refine start.bind fun r _ => ?_
    cases r with
    | none => exact .done (by simp) small
    | some d =>
      have loads := loadHeaders_keeps program.headers zero_small d
      refine (keeps_beside loads (.directory old)).bind ?_
      intro (d, loaded) loadedSmall
      cases loaded with
      | none => exact execBad_keeps old small d
      | some sz =>
        have grows := allocStack_keeps (loadedSmall sz rfl) d
        refine (keeps_beside grows (.directory old)).bind ?_
        intro (d, stack) stackSmall
        cases stack with
        | none => exact execBad_keeps old small d
        | some sz =>
          dsimp only
          split
          · rw [add_comm]
            refine (keeps_beside (freevm_keeps old) (.directory d)).bind fun _ _ => ?_
            exact .done (by simp) (stackSmall sz rfl)
          · exact execBad_keeps old small d

end Xv6.Kalloc
