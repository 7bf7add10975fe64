import Xv6.Lib.Ledger
import Xv6.Syscall.Args
import Xv6.Vm.Space

/-! The functions of `vm.c` as programs that take and give physical pages.
A page directory is a tree of pages here. It belongs to one process, so between two calls of
`kalloc` and `kfree` by that process nobody else looks at it.
-/

namespace Xv6.Kalloc

open Xv6.Lib
open Xv6.Vm (pages userPages)

/-- A physical page. -/
abbrev Frame := Nat

/-- A page table with the pages of its present entries. -/
structure Table where
  page : Frame
  entry : Nat → Option Frame

/-- The page tables below `KERNBASE`, and as many above it. -/
abbrev halfTables : Nat := npdentries / 2

/-- A page directory. The entries of the page tables of the kernel part map pages that belong to
nobody.
-/
structure Dir where
  page : Frame
  user : Nat → Option Table
  kernel : Nat → Option Frame

namespace Dir

def newTable (d : Dir) (v : Nat) (page : Frame) : Dir :=
  { d with user := Function.update d.user (v / npdentries) (some ⟨page, fun _ => none⟩) }

/-- A store to the entry of page `v` in its table `t`. -/
def setEntry (d : Dir) (v : Nat) (t : Table) (x : Option Frame) : Dir :=
  { d with
    user := Function.update d.user (v / npdentries)
      (some ⟨t.page, Function.update t.entry (v % npdentries) x⟩) }

def setKernel (d : Dir) (i : Nat) (page : Frame) : Dir :=
  { d with kernel := Function.update d.kernel i (some page) }

/-- The pages of the tables, in the order of the directory. -/
@[irreducible] def tables (d : Dir) : List Frame :=
  (List.range halfTables).filterMap (fun i => (d.user i).map Table.page)
  ++ (List.range halfTables).filterMap d.kernel

end Dir

/-- What a program works on: a page directory, or a page that is not in one. -/
inductive Piece where
  | directory (d : Dir)
  | page (f : Frame)

/-- Code that calls `kalloc` and `kfree`. It shows at each call what it works on. A page that is
given to `kfree` is not shown any more; the code that clears a page table entry after `kfree` is
part of the step, because nobody looks at the entry in between.
-/
abbrev Code := Prog Frame Piece

/-- `walkpgdir` with allocation. -/
def walkpgdir (d : Dir) (v : Nat) : Code (Option (Dir × Table)) :=
  match d.user (v / npdentries) with
  | some t => .done (some (d, t))
  | none =>
      .take [.directory d] fun
        | none => .done none
        | some page => .done (some (d.newTable v page, ⟨page, fun _ => none⟩))

/-- `mappages` for one page; `none` if there is no memory. -/
def mappages (d : Dir) (v : Nat) (mem : Frame) : Code (Option Dir) :=
  ((walkpgdir d v).within [.page mem]).bind fun
    | none => .done none
    | some (d, t) =>
        if (t.entry (v % npdentries)).isSome then .stop
        else .done (some (d.setEntry v t (some mem)))

/-- The loop of `deallocuvm` from page `v`. -/
def deallocLoop (stop : Nat) : Nat → Nat → Dir → Code Dir
  | 0, _, d => .done d
  | fuel + 1, v, d =>
      if v < stop then
        match d.user (v / npdentries) with
        | none => deallocLoop stop fuel ((v / npdentries + 1) * npdentries) d
        | some t =>
            match t.entry (v % npdentries) with
            | none => deallocLoop stop fuel (v + 1) d
            | some f =>
                let d := d.setEntry v t none
                .give [.directory d] f (deallocLoop stop fuel (v + 1) d)
      else .done d

def deallocuvm (d : Dir) (oldsz newsz : UInt32) : Code (Dir × UInt32) :=
  if newsz ≥ oldsz then .done (d, oldsz)
  else
    (deallocLoop (pages oldsz) (pages oldsz - pages newsz) (pages newsz) d).bind fun d =>
      .done (d, newsz)

/-- The end of `freevm`: the page tables, and the page of the directory. -/
def freeTables (page : Frame) : List Frame → Code Unit
  | [] => .give [] page (.done ())
  | table :: rest => .give (.page page :: rest.map .page) table (freeTables page rest)

def freevm (d : Dir) : Code Unit :=
  (deallocLoop userPages userPages 0 d).bind fun d => freeTables d.page d.tables

/-- The page tables of `kmap`: below `PHYSTOP`, and for the devices. -/
def kernelTables : List Nat := List.range 56 ++ (List.range 8).map (504 + ·)

def setupLoop : List Nat → Dir → Code (Option Dir)
  | [], d => .done (some d)
  | i :: rest, d =>
      .take [.directory d] fun
        | none => (freevm d).bind fun _ => .done none
        | some page => setupLoop rest (d.setKernel i page)

def setupkvm : Code (Option Dir) :=
  .take [] fun
    | none => .done none
    | some page => setupLoop kernelTables ⟨page, fun _ => none, fun _ => none⟩

/-- The loop of `allocuvm`, for `left` pages from `v`, with whether it succeeds. -/
def allocLoop (oldsz newsz : UInt32) : Nat → Nat → Dir → Code (Dir × Bool)
  | 0, _, d => .done (d, true)
  | left + 1, v, d =>
      .take [.directory d] fun
        | none => (deallocuvm d newsz oldsz).bind fun r => .done (r.1, false)
        | some mem =>
            (mappages d v mem).bind fun
              | some d => allocLoop oldsz newsz left (v + 1) d
              | none =>
                  ((deallocuvm d newsz oldsz).within [.page mem]).bind fun r =>
                    .give [.directory r.1] mem (.done (r.1, false))

/-- The new size, or 0 if it fails. -/
def allocuvm (d : Dir) (oldsz newsz : UInt32) : Code (Dir × UInt32) :=
  if newsz.toNat ≥ kernbase then .done (d, 0)
  else if newsz < oldsz then .done (d, oldsz)
  else
    (allocLoop oldsz newsz (pages newsz - pages oldsz) (pages oldsz) d).bind fun r =>
      .done (r.1, if r.2 then newsz else 0)

/-- `growproc` of a process with this directory and size; an error keeps the size. -/
def growproc (d : Dir) (sz : UInt32) (n : Int32) : Code (Dir × UInt32) :=
  if n > 0 then
    (allocuvm d sz (sz + n.toUInt32)).bind fun r => .done (r.1, if r.2 = 0 then sz else r.2)
  else if n < 0 then
    (deallocuvm d sz (sz + n.toUInt32)).bind fun r => .done (r.1, if r.2 = 0 then sz else r.2)
  else .done (d, sz)

/-- The loop of `copyuvm`. If there is no memory for a page table, nobody gives the page back that
should be mapped.
-/
def copyLoop (parent : Dir) : Nat → Nat → Dir → Code (Option Dir)
  | 0, _, d => .done (some d)
  | left + 1, v, d =>
      match parent.user (v / npdentries) with
      | none => .stop
      | some t =>
          match t.entry (v % npdentries) with
          | none => .stop
          | some _ =>
              .take [.directory d] fun
                | none => (freevm d).bind fun _ => .done none
                | some mem =>
                    (mappages d v mem).bind fun
                      | some d => copyLoop parent left (v + 1) d
                      | none => (freevm d).bind fun _ => .done none

def copyuvm (parent : Dir) (sz : UInt32) : Code (Option Dir) :=
  setupkvm.bind fun
    | none => .done none
    | some d => copyLoop parent (pages sz) 0 d

/-- What the loop of `exec` finds: a program header, and whether its segment can be read. -/
structure Header where
  load : Bool
  vaddr : UInt32
  filesz : UInt32
  memsz : UInt32
  readable : Bool

/-- What `exec` finds: whether the ELF header is right, the program headers, of which some cannot
be read, and whether the arguments fit on the stack.
-/
structure Program where
  valid : Bool
  headers : List (Option Header)
  argsFit : Bool

/-- The tables that `loaduvm` walks through are there. -/
def Dir.hasTables (d : Dir) (addr sz : UInt32) : Bool :=
  (List.range (pages sz)).all fun k => (d.user ((addr.toNat / pgsize + k) / npdentries)).isSome

/-- The loop of `exec` over the program headers, with the size unless it fails. -/
def loadHeaders : List (Option Header) → Dir → UInt32 → Code (Dir × Option UInt32)
  | [], d, sz => .done (d, some sz)
  | none :: _, d, _ => .done (d, none)
  | some ph :: rest, d, sz =>
      if ph.load = false then loadHeaders rest d sz
      else if ph.memsz < ph.filesz ∨ ph.vaddr + ph.memsz < ph.vaddr then .done (d, none)
      else
        (allocuvm d sz (ph.vaddr + ph.memsz)).bind fun r =>
          if r.2 = 0 ∨ ph.vaddr % 4096 ≠ 0 then .done (r.1, none)
          else if r.1.hasTables ph.vaddr ph.filesz = false then .stop
          else if ph.readable = false then .done (r.1, none)
          else loadHeaders rest r.1 r.2

/-- The two pages for the stack. -/
def allocStack (d : Dir) (sz : UInt32) : Code (Dir × Option UInt32) :=
  let sz := Syscall.pgRoundDown (sz + 4095)
  (allocuvm d sz (sz + 8192)).bind fun r =>
    if r.2 = 0 then .done (r.1, none)
    else if r.1.hasTables (r.2 - 8192) 4096 = false then .stop
    else .done (r.1, some r.2)

/-- The end of an `exec` that fails. -/
def execBad (old : Dir) (oldsz : UInt32) (d : Dir) : Code (Dir × UInt32) :=
  ((freevm d).within [.directory old]).bind fun _ => .done (old, oldsz)

/-- `exec` of a process with the directory `old`, which is freed in the end if it succeeds. -/
def exec (old : Dir) (oldsz : UInt32) (program : Program) : Code (Dir × UInt32) :=
  if program.valid = false then .done (old, oldsz)
  else
    (setupkvm.within [.directory old]).bind fun
      | none => .done (old, oldsz)
      | some d =>
          ((loadHeaders program.headers d 0).within [.directory old]).bind fun
            | (d, none) => execBad old oldsz d
            | (d, some sz) =>
                ((allocStack d sz).within [.directory old]).bind fun
                  | (d, none) => execBad old oldsz d
                  | (d, some sz) =>
                      if program.argsFit then
                        ((freevm old).within [.directory d]).bind fun _ => .done (d, sz)
                      else execBad old oldsz d

end Xv6.Kalloc
