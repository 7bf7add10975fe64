import Xv6.Lib.Exec
import Xv6.Param

/-! Page tables in physical memory: `vm.c` over the free list of `kalloc.c`.
A frame is a physical page, by its number, and stands also for its kernel address. The bytes of a
frame are in `mem`; a frame that is used as a page directory or a page table is seen as entries, in
`table`. The two views are kept apart: a store to `mem` does not change `table`, so nothing is said
of a page directory that gives a user access to a page directory or page table. User and kernel
virtual addresses are `uint`s.
-/

namespace Xv6.Paging

open Lib
open Function (update)

/-- `EXTMEM`, `PHYSTOP` and `DEVSPACE`. -/
abbrev extmem : Nat := 0x100000

abbrev phystop : Nat := 0xE000000

abbrev devspace : Nat := 0xFE000000

/-- What the linker decides: the frame of `data`, which is page-aligned, and the first frame that
is not below `end`.
-/
structure Machine where
  data : Nat
  endFrame : Nat
  low : extmem < data * pgsize
  high : data * pgsize < phystop
  order : data ≤ endFrame

/-- A page-table entry: `PTE_ADDR`, as a frame, and `PTE_FLAGS`. -/
structure Pte where
  frame : Nat
  flags : BitVec 12
  deriving DecidableEq

abbrev pteP : BitVec 12 := 1

abbrev pteW : BitVec 12 := 2

abbrev pteU : BitVec 12 := 4

/-- `PTE_P` and `PTE_U`. -/
def Pte.present (e : Pte) : Bool := e.flags.getLsbD 0

def Pte.user (e : Pte) : Bool := e.flags.getLsbD 2

def Pte.zero : Pte := ⟨0, 0⟩

structure State where
  freelist : List Nat
  mem : Nat → Bytes
  table : Nat → Nat → Pte

/-- The panics of these functions; `nullPointer` is a load through the null pointer, and `fuel`
the end of the passes that a loop is given.
-/
inductive Stop where
  | remap
  | kfree
  | pteShouldExist
  | pageNotPresent
  | addressShouldExist
  | notAligned
  | clearpteu
  | filedup
  | nullPointer
  | fuel
  deriving DecidableEq

abbrev PagingM := Exec Stop State

def kalloc : PagingM (Option Nat) := do
  let s ← get
  match s.freelist with
  | [] => pure none
  | r :: next => do
      modify fun s => { s with freelist := next }
      pure (some r)

def memset (f : Nat) (byte : UInt8) : PagingM Unit :=
  modify fun s => { s with mem := update s.mem f fun _ => byte }

/-- `memset(pgtab, 0, PGSIZE)` of a page directory or page table. -/
def clearTable (f : Nat) : PagingM Unit :=
  modify fun s => { s with table := update s.table f fun _ => .zero }

/-- A store to entry `i` of a table. -/
def setEntry (f i : Nat) (e : Pte) : PagingM Unit :=
  modify fun s => { s with table := update s.table f (update (s.table f) i e) }

/-- `PDX` and `PTX`. -/
def pdx (va : Nat) : Nat := va / 2 ^ 22 % npdentries

def ptx (va : Nat) : Nat := va / 2 ^ 12 % npdentries

def pgroundup (sz : Nat) : Nat := (sz + (pgsize - 1)) % 2 ^ 32 / pgsize * pgsize

def pgrounddown (a : Nat) : Nat := a / pgsize * pgsize

/-- `walkpgdir`: the table and the index of the entry. -/
def walkpgdir (pgdir va : Nat) (alloc : Bool) : PagingM (Option (Nat × Nat)) := do
  let s ← get
  if (s.table pgdir (pdx va)).present then pure (some ((s.table pgdir (pdx va)).frame, ptx va))
  else if !alloc then pure none
  else do
    match ← kalloc with
    | none => pure none
    | some pgtab => do
        clearTable pgtab
        setEntry pgdir (pdx va) ⟨pgtab, pteP ||| pteW ||| pteU⟩
        pure (some (pgtab, ptx va))

/-- The loop of `mappages`; there are `2 ^ 20` pages. -/
def mapLoop (pgdir last : Nat) (perm : BitVec 12) : (fuel : Nat) → (a pa : Nat) → PagingM Bool
  | 0, _, _ => throw .fuel
  | fuel + 1, a, pa => do
      match ← walkpgdir pgdir a true with
      | none => pure false
      | some (pgtab, i) => do
          let s ← get
          if (s.table pgtab i).present then throw .remap
          else do
            setEntry pgtab i ⟨pa / pgsize, perm ||| pteP⟩
            if a = last then pure true
            else mapLoop pgdir last perm fuel ((a + pgsize) % 2 ^ 32) ((pa + pgsize) % 2 ^ 32)

/-- `mappages`; the result `false` is `-1`. -/
def mappages (pgdir va size pa : Nat) (perm : BitVec 12) : PagingM Bool :=
  mapLoop pgdir (pgrounddown ((va + size + (2 ^ 32 - 1)) % 2 ^ 32)) perm (2 ^ 20)
    (pgrounddown va) pa

section Machine

variable (M : Machine)

def kfree (f : Nat) : PagingM Unit :=
  if f < M.endFrame ∨ f * pgsize ≥ phystop then throw .kfree
  else do
    memset f 1
    modify fun s => { s with freelist := f :: s.freelist }

/-- The loop of `deallocuvm`. -/
def deallocLoop (pgdir oldsz : Nat) : (fuel : Nat) → (a : Nat) → PagingM Unit
  | 0, _ => throw .fuel
  | fuel + 1, a =>
      if a < oldsz then do
        match ← walkpgdir pgdir a false with
        | none => deallocLoop pgdir oldsz fuel ((pdx a + 1) * 2 ^ 22 % 2 ^ 32)
        | some (pgtab, i) => do
            let s ← get
            if (s.table pgtab i).present then do
              kfree M (s.table pgtab i).frame
              setEntry pgtab i .zero
            deallocLoop pgdir oldsz fuel ((a + pgsize) % 2 ^ 32)
      else pure ()

def deallocuvm (pgdir oldsz newsz : Nat) : PagingM Nat :=
  if newsz ≥ oldsz then pure oldsz
  else do
    deallocLoop M pgdir oldsz (2 ^ 20 + 1) (pgroundup newsz)
    pure newsz

/-- The loop of `freevm` over the page directory. -/
def freeTables (pgdir : Nat) : List Nat → PagingM Unit
  | [] => pure ()
  | i :: rest => do
      let s ← get
      if (s.table pgdir i).present then kfree M (s.table pgdir i).frame
      freeTables pgdir rest

def freevm (pgdir : Nat) : PagingM Unit := do
  let _ ← deallocuvm M pgdir kernbase 0
  freeTables M pgdir (List.range npdentries)
  kfree M pgdir

/-- `kmap`: virtual address, physical start and end, and permissions. -/
def kmap : List (Nat × Nat × Nat × BitVec 12) :=
  [(kernbase, 0, extmem, pteW), (kernbase + extmem, extmem, M.data * pgsize, 0),
    (kernbase + M.data * pgsize, M.data * pgsize, phystop, pteW), (devspace, devspace, 0, pteW)]

/-- The loop of `setupkvm`. -/
def mapKernel (pgdir : Nat) : List (Nat × Nat × Nat × BitVec 12) → PagingM Bool
  | [] => pure true
  | (virt, start, finish, perm) :: rest => do
      if ← mappages pgdir virt ((finish + 2 ^ 32 - start) % 2 ^ 32) start perm then
        mapKernel pgdir rest
      else pure false

/-- `setupkvm`; `PHYSTOP` is not too high. -/
def setupkvm : PagingM (Option Nat) := do
  match ← kalloc with
  | none => pure none
  | some pgdir => do
      clearTable pgdir
      if ← mapKernel pgdir (kmap M) then pure (some pgdir)
      else do
        freevm M pgdir
        pure none

/-- The loop of `allocuvm`. -/
def allocLoop (pgdir oldsz newsz : Nat) : (fuel : Nat) → (a : Nat) → PagingM Nat
  | 0, _ => throw .fuel
  | fuel + 1, a =>
      if a < newsz then do
        match ← kalloc with
        | none => do
            let _ ← deallocuvm M pgdir newsz oldsz
            pure 0
        | some mem => do
            memset mem 0
            if ← mappages pgdir a pgsize (mem * pgsize) (pteW ||| pteU) then
              allocLoop pgdir oldsz newsz fuel ((a + pgsize) % 2 ^ 32)
            else do
              let _ ← deallocuvm M pgdir newsz oldsz
              kfree M mem
              pure 0
      else pure newsz

def allocuvm (pgdir oldsz newsz : Nat) : PagingM Nat :=
  if newsz ≥ kernbase then pure 0
  else if newsz < oldsz then pure oldsz
  else allocLoop M pgdir oldsz newsz (2 ^ 20 + 1) (pgroundup oldsz)

/-- The loop of `copyuvm`; the result `false` is the jump to `bad`. -/
def copyLoop (pgdir d sz : Nat) : (fuel : Nat) → (i : Nat) → PagingM Bool
  | 0, _ => throw .fuel
  | fuel + 1, i =>
      if i < sz then do
        match ← walkpgdir pgdir i false with
        | none => throw .pteShouldExist
        | some (pgtab, k) => do
            let s ← get
            if (s.table pgtab k).present then do
              match ← kalloc with
              | none => pure false
              | some mem => do
                  modify fun t =>
                    { t with mem := update t.mem mem (t.mem (s.table pgtab k).frame) }
                  if ← mappages d i pgsize (mem * pgsize) (s.table pgtab k).flags then
                    copyLoop pgdir d sz fuel ((i + pgsize) % 2 ^ 32)
                  else pure false
            else throw .pageNotPresent
      else pure true

def copyuvm (pgdir sz : Nat) : PagingM (Option Nat) := do
  match ← setupkvm M with
  | none => pure none
  | some d => do
      if ← copyLoop pgdir d sz (2 ^ 20 + 1) 0 then pure (some d)
      else do
        freevm M d
        pure none

end Machine

def clearpteu (pgdir uva : Nat) : PagingM Unit := do
  match ← walkpgdir pgdir uva false with
  | none => throw .clearpteu
  | some (pgtab, i) => do
      let s ← get
      setEntry pgtab i { s.table pgtab i with flags := (s.table pgtab i).flags &&& ~~~pteU }

/-- `uva2ka`: the frame; it loads `*pte` without a test of `pte`. -/
def uva2ka (pgdir uva : Nat) : PagingM (Option Nat) := do
  match ← walkpgdir pgdir uva false with
  | none => throw .nullPointer
  | some (pgtab, i) => do
      let s ← get
      if ¬(s.table pgtab i).present then pure none
      else if ¬(s.table pgtab i).user then pure none
      else pure (some (s.table pgtab i).frame)

/-- The loop of `copyout` over what is left of the source; each pass copies at least one byte. -/
def copyoutLoop (pgdir : Nat) : (fuel : Nat) → (va : Nat) → (buf : List UInt8) → PagingM Bool
  | 0, _, _ => throw .fuel
  | fuel + 1, va, buf =>
      if buf = [] then pure true
      else do
        match ← uva2ka pgdir (pgrounddown va) with
        | none => pure false
        | some pa0 => do
            let n := min (pgsize - (va - pgrounddown va)) buf.length
            modify fun s =>
              { s with
                mem := update s.mem pa0
                  ((s.mem pa0).poke (va - pgrounddown va) (buf.take n)) }
            copyoutLoop pgdir fuel ((pgrounddown va + pgsize) % 2 ^ 32) (buf.drop n)

/-- `copyout`; the result `false` is `-1`. -/
def copyout (pgdir va : Nat) (p : List UInt8) : PagingM Bool :=
  copyoutLoop pgdir (p.length + 1) va p

end Xv6.Paging
