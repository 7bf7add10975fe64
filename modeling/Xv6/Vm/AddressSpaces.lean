import Xv6.Vm.Sizes

/-! The address spaces of processes without threads: `userinit`, `exec`, `fork`, `exit` and `sbrk`.
A process alone has its page directory, so what happens between the steps of its calls does not
matter to it.
-/

namespace Xv6.Vm

open Xv6.Lib
open Xv6.Proc (ProcState)
open Function (update_self update_of_ne)

/-- What a pass of the loop of `exec` finds: the program header, how many calls of `kalloc`
succeed in `allocuvm`, and how many pages of the segment can be read.
-/
structure Segment where
  load : Bool
  vaddr : UInt32
  filesz : UInt32
  memsz : UInt32
  memory : Nat
  readable : Nat

/-- What `exec` finds. `setup` says that the ELF header is right and `setupkvm` succeeds, `none`
stands for a program header that cannot be read, and `argsFit` says that the arguments fit on the
stack.
-/
structure Image where
  setup : Bool
  segments : List (Option Segment)
  memory : Nat
  argsFit : Bool

/-- The loop of `loaduvm`, for `left` pages from `v`. -/
def loadLoop (space : Space) : Nat → Nat → Nat → Except Panic Bool
  | 0, _, _ => .ok true
  | left + 1, v, readable =>
      match space (v / npdentries) with
      | none => .error .addressShouldExist
      | some _ =>
          match readable with
          | 0 => .ok false
          | readable + 1 => loadLoop space left (v + 1) readable

def loaduvm (space : Space) (addr sz : UInt32) (readable : Nat) : Except Panic Bool :=
  loadLoop space (pages sz) (addr.toNat / pgsize) readable

/-- The loop of `exec` over the program headers; `none` is its failure. -/
def loadHeaders : List (Option Segment) → Space → UInt32 → Except Panic (Option (Space × UInt32))
  | [], space, sz => .ok (some (space, sz))
  | none :: _, _, _ => .ok none
  | some ph :: rest, space, sz =>
      if ph.load = false then loadHeaders rest space sz
      else if ph.memsz < ph.filesz ∨ ph.vaddr + ph.memsz < ph.vaddr then .ok none
      else
        match allocuvm space sz (ph.vaddr + ph.memsz) ph.memory with
        | .error panic => .error panic
        | .ok (space, sz) =>
            if sz = 0 ∨ ph.vaddr % 4096 ≠ 0 then .ok none
            else
              match loaduvm space ph.vaddr ph.filesz ph.readable with
              | .error panic => .error panic
              | .ok false => .ok none
              | .ok true => loadHeaders rest space sz

/-- `clearpteu`, which does not change whether the page is present. -/
def clearpteu (space : Space) (uva : UInt32) : Except Panic Unit :=
  match space (uva.toNat / pgsize / npdentries) with
  | none => .error .clearpteu
  | some _ => .ok ()

/-- The two pages for the stack. -/
def allocStack (space : Space) (sz : UInt32) (memory : Nat)
    : Except Panic (Option (Space × UInt32)) :=
  let sz := Syscall.pgRoundDown (sz + 4095)
  match allocuvm space sz (sz + 8192) memory with
  | .error panic => .error panic
  | .ok (space, sz) =>
      if sz = 0 then .ok none
      else (clearpteu space (sz - 8192)).map fun _ => some (space, sz)

/-- The new space and size, or `none` if `exec` fails. -/
def exec (image : Image) : Except Panic (Option (Space × UInt32)) :=
  if image.setup = false then .ok none
  else
    match loadHeaders image.segments (fun _ => none) 0 with
    | .error panic => .error panic
    | .ok none => .ok none
    | .ok (some (space, sz)) =>
        match allocStack space sz image.memory with
        | .error panic => .error panic
        | .ok none => .ok none
        | .ok (some result) => if image.argsFit then .ok (some result) else .ok none

namespace State

/-- `exec` with the new page directory `d`. -/
def exec (s : State) (p : Slot) (d : Nat) (image : Image) : State :=
  match Vm.exec image with
  | .error panic => { s with panic := some panic }
  | .ok none => s
  | .ok (some (space, sz)) => (s.setSpace d space).setProc p { s.proc p with pgdir := d, sz := sz }

/-- `userinit` takes a kernel stack, the kernel part and a page, and maps it without looking
whether that succeeds.
-/
def userinit (memory : Nat) : State :=
  let start : State := ⟨fun _ => ⟨.unused, 0, 0⟩, fun _ _ => none, none⟩
  if memory = 0 then { start with panic := some .nullPointer }
  else if memory < 1 + kernelPages then { start with panic := some .outOfMemory }
  else if memory < 2 + kernelPages then { start with panic := some .nullPointer }
  else
    let made := start.setProc 0 ⟨.runnable, 0, 4096⟩
    match mappages (fun _ => none) 0 (memory - (2 + kernelPages)) with
    | .mapped space _ => made.setSpace 0 space
    | .noMemory => made
    | .remap => { made with panic := some .remap }

end State

variable {space : Space} {sz : UInt32} {s t : State} {p : Slot} {d : Nat}

inductive SpaceCall where
  | sbrk (n : Int32) (memory : Nat)
  | fork (kstack : Bool) (d memory : Nat)
  | exec (d : Nat) (image : Image)
  | exit

structure SpaceLabel where
  caller : Slot
  call : SpaceCall

def State.advance (s : State) (label : SpaceLabel) : Option State :=
  if s.panic = none ∧ (s.proc label.caller).state.live = true then
    match label.call with
    | .sbrk n memory => some (s.sbrk label.caller n memory)
    | .fork kstack d memory =>
        if s.Fresh d then some (s.fork label.caller kstack d memory) else none
    | .exec d image => if s.Fresh d then some (s.exec label.caller d image) else none
    | .exit => some (s.exit label.caller)
  else none

/-! exec. -/

/-- A new space fits the size 0. -/
theorem empty_fits : Fits (fun _ => none) 0 :=
  ⟨by decide, fun u _ => by simp [Space.present, pages, pgsize]⟩

theorem Fits.table (fits : Fits space sz) {v : Nat} (below : v < pages sz)
    : ∃ table, space (v / npdentries) = some table := by
  have present := fits.holds v (Nat.lt_of_lt_of_le below (pages_le_userPages fits.small))
  cases found : space (v / npdentries) with
  | some table => exact ⟨table, rfl⟩
  | none =>
    rw [present_of_none found] at present
    exact absurd below (of_decide_eq_false present.symm)

/-- A segment below the size is loaded, or cannot be read. -/
theorem loadLoop_spec (fits : Fits space sz) (left v readable : Nat) (below : v + left ≤ pages sz)
    : ∃ done, loadLoop space left v readable = .ok done := by
  induction left generalizing v readable with
  | zero => exact ⟨true, rfl⟩
  | succ left ih =>
    obtain ⟨table, found⟩ := fits.table (v := v) (by omega)
    unfold loadLoop
    rw [found]
    cases readable with
    | zero => exact ⟨false, rfl⟩
    | succ readable => exact ih (v + 1) readable (by omega)

theorem loaduvm_spec {addr filesz memsz : UInt32} (fits : Fits space sz) (aligned : addr % 4096 = 0)
    (short : filesz ≤ memsz) (whole : ¬ addr + memsz < addr) (inside : addr + memsz ≤ sz)
    (readable : Nat)
    : ∃ done, loaduvm space addr filesz readable = .ok done := by
  refine loadLoop_spec fits _ _ readable ?_
  have noWrap : (addr + memsz).toNat = addr.toNat + memsz.toNat := by
    have sum := UInt32.toNat_add addr memsz
    have wraps := mt UInt32.lt_iff_toNat_lt.mpr whole
    have first := addr.toNat_lt
    have second := memsz.toNat_lt
    omega
  have aligned := congrArg UInt32.toNat aligned
  have short := UInt32.le_iff_toNat_le.mp short
  have inside := UInt32.le_iff_toNat_le.mp inside
  simp only [UInt32.toNat_mod] at aligned
  have page : (4096 : UInt32).toNat = 4096 := rfl
  have zero : (0 : UInt32).toNat = 0 := rfl
  rw [page, zero] at aligned
  simp only [pages, pgsize]
  omega

/-- The loop over the program headers fails, or gives a space that fits its size. -/
theorem loadHeaders_spec (segments : List (Option Segment)) (fits : Fits space sz)
    : loadHeaders segments space sz = .ok none
      ∨ ∃ next new, loadHeaders segments space sz = .ok (some (next, new)) ∧ Fits next new := by
  induction segments generalizing space sz with
  | nil => exact .inr ⟨space, sz, rfl, fits⟩
  | cons segment rest ih =>
    cases segment with
    | none => exact .inl rfl
    | some ph =>
      unfold loadHeaders
      split
      · exact ih fits
      · split
        · exact .inl rfl
        · rename_i sizes
          obtain ⟨short, whole⟩ := not_or.mp sizes
          obtain ⟨next, new, grown, result⟩ :=
            allocuvm_spec fits.small fits.holds (ph.vaddr + ph.memsz) ph.memory
          rw [grown]
          dsimp only
          split
          · exact .inl rfl
          · rename_i good
            obtain ⟨nonzero, aligned⟩ := not_or.mp good
            rcases result with ⟨zero, -⟩ | ⟨-, inside, small, holds⟩
            · exact absurd zero nonzero
            · have fits : Fits next new := ⟨small, holds⟩
              obtain ⟨done, loaded⟩ := loaduvm_spec fits (not_not.mp aligned)
                (UInt32.not_lt.mp short) whole inside ph.readable
              rw [loaded]
              cases done with
              | false => exact .inl rfl
              | true => exact ih fits

theorem pages_pgRoundUp (small : sz.toNat < kernbase)
    : (Syscall.pgRoundDown (sz + 4095)).toNat = pages sz * pgsize := by
  rw [Syscall.toNat_pgRoundDown, UInt32.toNat_add]
  simp only [kernbase] at small
  simp only [pages, pgsize, UInt32.toNat_ofNat]
  omega

/-- The guard page of a stack that has been allocated has a page table. -/
theorem clearpteu_spec (fits : Fits space sz) (room : 8192 ≤ sz.toNat)
    : clearpteu space (sz - 8192) = .ok () := by
  have guard : (sz - 8192).toNat = sz.toNat - 8192 :=
    UInt32.toNat_sub_of_le _ _ (UInt32.le_iff_toNat_le.mpr room)
  obtain ⟨table, found⟩ := fits.table (v := (sz - 8192).toNat / pgsize) (by
    rw [guard]
    simp only [pages, pgsize]
    omega)
  rw [clearpteu, found]

theorem allocStack_spec (fits : Fits space sz) (memory : Nat)
    : allocStack space sz memory = .ok none
      ∨ ∃ next new, allocStack space sz memory = .ok (some (next, new)) ∧ Fits next new := by
  have round := pages_pgRoundUp fits.small
  have bound := pages_le_userPages fits.small
  unfold allocStack
  generalize Syscall.pgRoundDown (sz + 4095) = top at round
  have top_le : top.toNat ≤ kernbase := by
    simp only [userPages, kernbase, pgsize] at *
    omega
  have raised : (top + 8192).toNat = top.toNat + 8192 := by
    rw [UInt32.toNat_add]
    simp only [kernbase, UInt32.toNat_ofNat] at *
    omega
  dsimp only
  by_cases small : top.toNat < kernbase
  · have holds : space.Holds (pages top) := by
      have same : pages top = pages sz := by
        simp only [pages, pgsize] at *
        omega
      rw [same]
      exact fits.holds
    obtain ⟨next, new, grown, result⟩ := allocuvm_spec small holds (top + 8192) memory
    rw [grown]
    dsimp only
    split
    · exact .inl rfl
    · rename_i nonzero
      rcases result with ⟨zero, -⟩ | ⟨-, above, less, holds⟩
      · exact absurd zero nonzero
      · have fits : Fits next new := ⟨less, holds⟩
        have above := UInt32.le_iff_toNat_le.mp above
        rw [clearpteu_spec fits (by omega)]
        exact .inr ⟨next, new, rfl, fits⟩
  · have refused : allocuvm space top (top + 8192) memory = .ok (space, 0) :=
      if_pos (by omega)
    rw [refused]
    exact .inl rfl

theorem exec_spec (image : Image)
    : exec image = .ok none
      ∨ ∃ space sz, exec image = .ok (some (space, sz)) ∧ Fits space sz := by
  unfold exec
  split
  · exact .inl rfl
  · rcases loadHeaders_spec image.segments empty_fits with failed | ⟨space, sz, loaded, fits⟩
    · rw [failed]
      exact .inl rfl
    · rw [loaded]
      dsimp only
      rcases allocStack_spec fits image.memory with failed | ⟨next, new, stacked, result⟩
      · rw [failed]
        exact .inl rfl
      · rw [stacked]
        dsimp only
        split
        · exact .inr ⟨next, new, rfl, result⟩
        · exact .inl rfl

/-! Runs. -/

/-- No two live processes have one page directory. -/
def State.Apart (s : State) : Prop :=
  ∀ p q, (s.proc p).state.live = true → (s.proc q).state.live = true
    → (s.proc p).pgdir = (s.proc q).pgdir → p = q

/-- Slot `p` changes and then has a page directory that no other live process has. -/
theorem State.Apart.replace (apart : s.Apart) (others : ∀ q, q ≠ p → t.proc q = s.proc q)
    (own : (t.proc p).state.live = true → ∀ q, q ≠ p → (s.proc q).state.live = true
      → (s.proc q).pgdir ≠ (t.proc p).pgdir)
    : t.Apart := by
  intro q r qLive rLive shared
  by_cases first : q = p
  · by_cases second : r = p
    · rw [first, second]
    · rw [first] at qLive shared
      rw [others r second] at rLive shared
      exact absurd shared.symm (own qLive r second rLive)
  · rw [others q first] at qLive shared
    by_cases second : r = p
    · rw [second] at rLive shared
      exact absurd shared (own rLive q first qLive)
    · rw [others r second] at rLive shared
      exact apart q r qLive rLive shared

/-- `sbrk` changes only the size of its slot. -/
theorem State.Apart.sbrk (apart : s.Apart) (live : (s.proc p).state.live = true) (n : Int32)
    (memory : Nat)
    : (s.sbrk p n memory).Apart := by
  unfold State.sbrk
  split
  · exact apart
  · refine apart.replace (p := p) (fun q other => update_of_ne other ..) ?_
    intro _ q other qLive shared
    refine other (apart q p qLive live (shared.trans ?_))
    simp [State.setProc]

theorem State.Fresh.alone (fresh : s.Fresh d) {q : Slot} (live : (s.proc q).state.live = true)
    : (s.proc q).pgdir ≠ d :=
  fresh q fun unused => by simp [unused, ProcState.live] at live

theorem State.Apart.fork (apart : s.Apart) (p : Slot) (kstack : Bool) (fresh : s.Fresh d)
    (memory : Nat)
    : (s.fork p kstack d memory).Apart := by
  unfold State.fork
  split
  · exact apart
  · split
    · exact apart
    · exact apart
    · unfold State.make
      split
      · rename_i np _ _
        refine apart.replace (p := np) (fun q other => update_of_ne other ..) ?_
        intro _ q other live
        simpa [State.setProc] using fresh.alone live
      · exact apart

theorem State.Apart.exec (apart : s.Apart) (p : Slot) (fresh : s.Fresh d) (image : Image)
    : (s.exec p d image).Apart := by
  unfold State.exec
  split
  · exact apart
  · exact apart
  · refine apart.replace (p := p) (fun q other => update_of_ne other ..) ?_
    intro _ q other live
    simpa [State.setProc] using fresh.alone live

theorem State.Apart.exit (apart : s.Apart) (p : Slot) : (s.exit p).Apart := by
  refine apart.replace (p := p) (fun q other => update_of_ne other ..) ?_
  intro live
  simp [State.exit, State.setProc, ProcState.live] at live

/-- `exec` gives the process a space that fits its size and is its own. -/
theorem State.Consistent.exec (consistent : s.Consistent) (p : Slot) (fresh : s.Fresh d)
    (image : Image)
    : (s.exec p d image).Consistent := by
  unfold State.exec
  rcases exec_spec image with failed | ⟨space, sz, made, fits⟩
  · rw [failed]
    exact consistent
  · rw [made]
    dsimp only
    have new : ((s.setSpace d space).setProc p ⟨(s.proc p).state, d, sz⟩).proc p
        = ⟨(s.proc p).state, d, sz⟩ := update_self ..
    have own : ((s.setSpace d space).setProc p ⟨(s.proc p).state, d, sz⟩).space d = space :=
      update_self ..
    refine consistent.replace (p := p) (fun q other => update_of_ne other ..)
      (fun q _ live => update_of_ne (fresh.alone live) ..) rfl ?_ ?_
    · rw [new, own]
      exact fun _ => fits
    · rw [new]
      exact fun _ q _ live shared => absurd shared (fresh.alone live)

/-- A process does not give up all its memory. -/
def State.KeepsMemory (s : State) (label : SpaceLabel) : Prop :=
  match label.call with
  | .sbrk n _ => ¬ (n < 0 ∧ (s.proc label.caller).sz + n.toUInt32 = 0)
  | .fork .. | .exec .. | .exit => True

instance (s : State) (label : SpaceLabel) : Decidable (s.KeepsMemory label) := by
  dsimp only [State.KeepsMemory]
  cases label.call <;> infer_instance

theorem State.Consistent.advance (consistent : s.Consistent) (apart : s.Apart) {label : SpaceLabel}
    (keeps : s.KeepsMemory label) (stepped : s.advance label = some t)
    : t.Consistent ∧ t.Apart := by
  obtain ⟨⟨-, live⟩, made⟩ := Option.ite_none_right_eq_some.mp stepped
  obtain ⟨p, call⟩ := label
  cases call with
  | sbrk n memory =>
    cases made
    have alone : s.GrowsAlone ⟨p, .sbrk n memory⟩ := fun _ =>
      ⟨fun q qLive shared => apart q p qLive live shared, keeps⟩
    exact ⟨consistent.sbrk live alone, apart.sbrk live n memory⟩
  | fork kstack d memory =>
    obtain ⟨fresh, ⟨⟩⟩ := Option.ite_none_right_eq_some.mp made
    exact ⟨consistent.fork live kstack fresh memory, apart.fork p kstack fresh memory⟩
  | exec d image =>
    obtain ⟨fresh, ⟨⟩⟩ := Option.ite_none_right_eq_some.mp made
    exact ⟨consistent.exec p fresh image, apart.exec p fresh image⟩
  | exit =>
    cases made
    exact ⟨consistent.exit p, apart.exit p⟩

/-- With memory for all that it takes, `userinit` leaves one process of one page. -/
theorem userinit_spec {memory : Nat} (enough : 3 + kernelPages ≤ memory)
    : (State.userinit memory).Consistent ∧ (State.userinit memory).Apart := by
  have empty : Space.Holds (fun _ => none) 0 := fun u _ => by simp [Space.present]
  obtain ⟨rest, more⟩ : ∃ rest, memory - (2 + kernelPages) = rest + 1 :=
    ⟨memory - (3 + kernelPages), by omega⟩
  obtain ⟨space, less, mapped, holds⟩ : ∃ space less,
      mappages (fun _ => none) 0 (rest + 1) = .mapped space less ∧ space.Holds 1 := by
    rcases mappages_holds empty (by decide) (rest + 1) with full | found
    · cases full
    · exact found
  have result : State.userinit memory
      = (State.setProc ⟨fun _ => ⟨.unused, 0, 0⟩, fun _ _ => none, none⟩ 0
          ⟨.runnable, 0, 4096⟩).setSpace 0 space := by
    unfold State.userinit
    rw [if_neg (by omega), if_neg (by omega), if_neg (by omega), more, mapped]
  have only : ∀ p : Slot, ((State.userinit memory).proc p).state.live = true → p = 0 := by
    intro p live
    by_contra other
    simp [result, State.setProc, State.setSpace, other, ProcState.live] at live
  have first : (State.userinit memory).proc 0 = ⟨.runnable, 0, 4096⟩ := by
    simp [result, State.setProc, State.setSpace]
  have own : (State.userinit memory).space 0 = space := by
    simp [result, State.setSpace]
  have calm : (State.userinit memory).panic = none := by
    rw [result]
    rfl
  refine ⟨⟨fun p q pLive qLive _ => ?_, fun p live => ?_, calm⟩, fun p q pLive qLive _ => ?_⟩
  · rw [only p pLive, only q qLive]
  · rw [only p live, first, own]
    exact ⟨by decide, holds⟩
  · rw [only p pLive, only q qLive]

/-- Every process has the pages below its size and no others below `KERNBASE`. -/
def State.Spaced (s : State) : Prop :=
  ∀ p, (s.proc p).state.live = true
    → (∀ v, v * pgsize < (s.proc p).sz.toNat → (s.space (s.proc p).pgdir).present v = true)
      ∧ ∀ v, pages (s.proc p).sz ≤ v → v < userPages
          → (s.space (s.proc p).pgdir).present v = false

theorem State.Consistent.spaced (consistent : s.Consistent) : s.Spaced := by
  refine fun p live => ⟨consistent.agrees.mapped p live, fun v above user => ?_⟩
  rw [(consistent.fits p live).holds v user]
  exact decide_eq_false (Nat.not_lt.mpr above)

/-- The size and the page directory of every process agree, and no panic is reached, as long as
`userinit` finds the memory that it needs and no process gives up all its memory.
-/
theorem spaces_match_sizes {memory : Nat} (enough : 3 + kernelPages ≤ memory)
    {labels : List SpaceLabel} {s : State}
    (reached : run State.advance labels (.userinit memory) = some s)
    (keeps : Along State.advance State.KeepsMemory labels (.userinit memory))
    : s.Spaced ∧ s.panic = none := by
  obtain ⟨consistent, -⟩ := along_induction
    (motive := fun _ state => state.Consistent ∧ state.Apart) (userinit_spec enough)
    (fun _ _ _ _ ⟨consistent, apart⟩ keeps stepped => consistent.advance apart keeps stepped)
    reached keeps
  exact ⟨consistent.spaced, consistent.calm⟩

/-- `sbrk(-4096)` of the first process fails and takes its page away; then `fork` panics. If
`userinit` finds no memory for a page table, its process has no page at all.
-/
theorem shrinkToZero_unmaps
    : (∃ s, run State.advance [⟨0, .sbrk (-4096) 0⟩] (.userinit 100) = some s
        ∧ (s.proc 0).sz = 4096
        ∧ (s.space (s.proc 0).pgdir).present 0 = false)
      ∧ (∃ s, run State.advance [⟨0, .sbrk (-4096) 0⟩, ⟨0, .fork true 1 100⟩] (.userinit 100)
            = some s
        ∧ s.panic = some .pageNotPresent)
      ∧ ((State.userinit 67).proc 0).sz = 4096
      ∧ ((State.userinit 67).space ((State.userinit 67).proc 0).pgdir).present 0 = false
      ∧ (State.userinit 67).panic = none := by
  decide +kernel

/-- A program of one page of text, for which there is memory. -/
def onePage : Image := ⟨true, [some ⟨true, 0, 100, 200, 10, 10⟩], 10, true⟩

/-- The first process forks; the child executes a program, and the parent grows. -/
def forksAndExecs : List SpaceLabel :=
  [⟨0, .fork true 1 100⟩, ⟨1, .exec 2 onePage⟩, ⟨0, .sbrk 5000 10⟩, ⟨0, .sbrk (-100) 0⟩]

theorem forksAndExecs_spaced
    : ∃ s, run State.advance forksAndExecs (.userinit 100) = some s
        ∧ (s.proc 0).sz = 8996
        ∧ (s.proc 1).sz = 12288
        ∧ s.Spaced
        ∧ s.panic = none := by
  have keeps : Along State.advance State.KeepsMemory forksAndExecs (.userinit 100) := by
    decide +kernel
  obtain ⟨s, reached, parent, child⟩ : ∃ s ∈ run State.advance forksAndExecs (.userinit 100),
      (s.proc 0).sz = 8996 ∧ (s.proc 1).sz = 12288 := by
    decide +kernel
  exact ⟨s, reached, parent, child, spaces_match_sizes (by decide) reached keeps⟩

end Xv6.Vm
