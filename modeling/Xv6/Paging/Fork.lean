import Xv6.Paging.Copying
import Xv6.Proc.Table

/-! `fork` over page tables: what a failure leaves behind. -/

namespace Xv6.Paging

open Lib
open Function (update)

/-- The fields of `struct proc` that `fork` reads or writes, but for what lies in the stack. -/
structure Process where
  state : Proc.ProcState
  priority : Int
  pid : Int32
  semHeld : Fin 32 → Int
  kstack : Option Nat
  pgdir : Option Nat
  sz : Nat
  parent : Option (Fin nproc)
  ofile : Fin nofile → Option Nat
  cwd : Nat
  name : List UInt8

structure Kernel where
  paging : State
  proc : Fin nproc → Process
  nextpid : Int32
  fileRef : Nat → Nat
  inodeRef : Nat → Nat

abbrev KernelM := Exec Stop Kernel

def onPaging {α : Type} (m : PagingM α) : KernelM α := fun k =>
  (m k.paging).map fun r => (r.1, { k with paging := r.2 })

def updateProc (i : Fin nproc) (f : Process → Process) : KernelM Unit :=
  modify fun k => { k with proc := update k.proc i (f (k.proc i)) }

def allocproc : KernelM (Option (Fin nproc)) := do
  let k ← get
  match (List.finRange nproc).find? fun i => (k.proc i).state = .unused with
  | none => pure none
  | some np => do
      updateProc np fun q =>
        { q with state := .embryo, priority := 10, pid := k.nextpid, semHeld := fun _ => 0 }
      modify fun k => { k with nextpid := k.nextpid + 1 }
      let kstack ← onPaging kalloc
      updateProc np fun q => { q with kstack }
      if kstack = none then do
        updateProc np fun q => { q with state := .unused }
        pure none
      else pure (some np)

def filedup (f : Nat) : KernelM Unit := do
  let k ← get
  if k.fileRef f < 1 then throw .filedup
  else modify fun k => { k with fileRef := update k.fileRef f (k.fileRef f + 1) }

def idup (ip : Nat) : KernelM Unit :=
  modify fun k => { k with inodeRef := update k.inodeRef ip (k.inodeRef ip + 1) }

/-- The loop over `ofile` in `fork`. -/
def copyFiles (ofile : Fin nofile → Option Nat) (np : Fin nproc) : List (Fin nofile) → KernelM Unit
  | [] => pure ()
  | i :: rest => do
      match ofile i with
      | none => pure ()
      | some f => do
          filedup f
          updateProc np fun q => { q with ofile := update q.ofile i (some f) }
      copyFiles ofile np rest

/-- `fork` in process `p`; `none` is `-1`. -/
def fork (M : Machine) (p : Fin nproc) : KernelM (Option Int32) := do
  match ← allocproc with
  | none => pure none
  | some np => do
      let k ← get
      match (k.proc p).pgdir, (k.proc np).kstack with
      | some pgdir, some kstack => do
          match ← onPaging (copyuvm M pgdir (k.proc p).sz) with
          | none => do
              onPaging (kfree M kstack)
              updateProc np fun q => { q with pgdir := none, kstack := none, state := .unused }
              pure none
          | some d => do
              updateProc np fun q =>
                { q with pgdir := some d, sz := (k.proc p).sz, parent := some p }
              copyFiles (k.proc p).ofile np (List.finRange nofile)
              idup (k.proc p).cwd
              updateProc np fun q =>
                { q with cwd := (k.proc p).cwd, name := (k.proc p).name, state := .runnable }
              pure (some (k.proc np).pid)
      | _, _ => throw .nullPointer

variable {M : Machine} {k k' : Kernel} {p np : Fin nproc} {d : Nat} {own : Nat → Use} {α : Type}

theorem returns_onPaging {m : PagingM α} {a : α}
    : Returns (onPaging m) k a k'
      ↔ ∃ s, Returns m k.paging a s ∧ k' = { k with paging := s } := by
  simp only [Returns, onPaging]
  cases ran : m k.paging with
  | error e => simp [Except.map]
  | ok r =>
    simp only [Except.map, Except.ok.injEq, Prod.mk.injEq]
    constructor
    · rintro ⟨rfl, rfl⟩
      exact ⟨r.2, rfl, rfl⟩
    · rintro ⟨s, same, rfl⟩
      simp [same]

/-- No page, slot or reference is lost between two states. -/
structure NoLeak (k k' : Kernel) : Prop where
  pages : ∀ f, f ∈ k'.paging.freelist ↔ f ∈ k.paging.freelist
  slots : ∀ i, (k'.proc i).state ≠ .unused ↔ (k.proc i).state ≠ .unused
  contents : ∀ i, (k.proc i).state ≠ .unused → k'.proc i = k.proc i
  files : k'.fileRef = k.fileRef
  inodes : k'.inodeRef = k.inodeRef

/-- Only slot `np` and memory may differ. -/
structure Beside (np : Fin nproc) (k k' : Kernel) : Prop where
  proc : ∀ i, i ≠ np → k'.proc i = k.proc i
  files : k'.fileRef = k.fileRef
  inodes : k'.inodeRef = k.inodeRef

/-- A slot that was unused and is unused again. -/
theorem Beside.noLeak_iff (beside : Beside np k k') (before : (k.proc np).state = .unused)
    (after : (k'.proc np).state = .unused)
    : NoLeak k k' ↔ ∀ f, f ∈ k'.paging.freelist ↔ f ∈ k.paging.freelist := by
  refine ⟨NoLeak.pages, fun pages => ⟨pages, fun i => ?_, fun i used => ?_, beside.files,
    beside.inodes⟩⟩
  · by_cases same : i = np
    · rw [same, before, after]
    · rw [beside.proc i same]
  · exact beside.proc i fun same => used (same ▸ before)

/-- Slot `np` while `allocproc` works on it. -/
def Kernel.embryo (k : Kernel) (np : Fin nproc) (state : Proc.ProcState) (kstack : Option Nat)
    (paging : State) : Kernel :=
  { k with
    paging
    nextpid := k.nextpid + 1
    proc := update k.proc np
      { k.proc np with state, priority := 10, pid := k.nextpid, semHeld := fun _ => 0, kstack } }

theorem allocproc_spec (found : (List.finRange nproc).find?
      (fun i => (k.proc i).state = .unused) = some np)
    : (k.paging.freelist = [] ∧ Returns allocproc k none (k.embryo np .unused none k.paging))
      ∨ ∃ f rest, k.paging.freelist = f :: rest ∧ Returns allocproc k (some np)
          (k.embryo np .embryo (some f) { k.paging with freelist := rest }) := by
  cases head : k.paging.freelist with
  | nil =>
    refine .inl ⟨rfl, ?_⟩
    simp [allocproc, found, updateProc, kalloc, returns_bind, returns_comp, returns_onPaging,
      head, Kernel.embryo]
  | cons f rest =>
    refine .inr ⟨f, rest, rfl, ?_⟩
    simp [allocproc, found, updateProc, kalloc, returns_bind, returns_comp, returns_onPaging,
      head, Kernel.embryo]

section Forking

variable (space : Space M k.paging d own) (running : (k.proc p).state ≠ .unused)
  (pgdir : (k.proc p).pgdir = some d) (le : (k.proc p).sz ≤ kernbase)
  (below : ∀ v, v * pgsize < (k.proc p).sz → (k.paging.pte d v).present = true)

include space running pgdir le below

/-- `fork` after `allocproc`: `copyuvm` has one frame less. -/
theorem fork_spec {f : Nat} {rest : List Nat} (isUnused : (k.proc np).state = .unused)
    (head : k.paging.freelist = f :: rest)
    (allocated : Returns allocproc k (some np)
      (k.embryo np .embryo (some f) { k.paging with freelist := rest }))
    : (¬Short (k.proc p).sz rest.length ∧ ∀ k', ¬Returns (fork M p) k none k')
      ∨ ∃ k', Returns (fork M p) k none k' ∧ Beside np k k' ∧ (k'.proc np).state = .unused
          ∧ ((∀ g, g ∈ k'.paging.freelist ↔ g ∈ k.paging.freelist)
            ↔ ¬Short (k.proc p).sz rest.length) := by
  have other : p ≠ np := fun same => running (same ▸ isUnused)
  obtain ⟨free, wasFree⟩ := space.toFree.alloc head
  have parent : Space M { k.paging with freelist := rest } d (update own f .hand) :=
    space.of_tables (space.toTables.reuse free rfl fun g => by grind) (fun g w => by grind)
      fun _ _ => rfl
  obtain ⟨r, t, copied, -, result⟩ := copyuvm_spec parent le below
  generalize embryo : k.embryo np .embryo (some f) { k.paging with freelist := rest } = e
    at allocated
  have self : (e.proc p) = k.proc p := by simp [← embryo, Kernel.embryo, other]
  have stack : (e.proc np).kstack = some f := by simp [← embryo, Kernel.embryo]
  have memory : e.paging = { k.paging with freelist := rest } := by rw [← embryo, Kernel.embryo]
  have beside : Beside np k e :=
    ⟨fun i apart => by simp [← embryo, Kernel.embryo, apart], by rw [← embryo, Kernel.embryo],
      by rw [← embryo, Kernel.embryo]⟩
  obtain ⟨rfl, q, free', others, uses, hand, -⟩ | ⟨enough, d', s', o, o', rfl, -⟩ := result
  · refine .inr ⟨{ e with
        paging := { t with freelist := f :: t.freelist, mem := update t.mem f fun _ => 1 }
        proc := update e.proc np
          { e.proc np with pgdir := none, kstack := none, state := .unused } }, ?_, ?_, ?_, ?_⟩
    · refine allocated.bind (returns_bind.mpr ⟨e, e, returns_get.mpr ⟨rfl, rfl⟩, ?_⟩)
      rw [self, pgdir, stack]
      refine (returns_onPaging.mpr ⟨t, memory ▸ copied, rfl⟩).bind ?_
      refine (returns_onPaging.mpr ⟨_, kfree_returns (free.valid f (by simp)), rfl⟩).bind ?_
      exact returns_bind.mpr ⟨(), _, returns_modify.mpr rfl, rfl⟩
    · exact ⟨fun i apart => by simp [apart, beside.proc], beside.files, beside.inodes⟩
    · simp
    · rw [← hand, head]
      have unlisted : f ∉ rest := (List.nodup_cons.mp (head ▸ space.nodup)).1
      have member : ∀ g, (g ∈ t.freelist ↔ q g = .free) ∧ (g ∈ rest ↔ q g ≠ .other) := fun g => by
        refine ⟨(free'.free g).symm, ?_⟩
        rw [Ne, others, hide_other, not_not]
        exact (free.free g).symm
      simp only [List.mem_cons, member]
      constructor
      · rintro same ⟨g, isHand⟩
        have := same g
        have := member f
        grind
      · intro none g
        have := uses g
        grind
  · refine .inl ⟨enough, fun k' ran => ?_⟩
    obtain ⟨_, _, first, ran⟩ := returns_bind.mp ran
    obtain ⟨rfl, rfl⟩ := allocated.unique first
    have ran := returns_get_bind.mp ran
    rw [self, pgdir, stack] at ran
    obtain ⟨_, _, copies, ran⟩ := returns_bind.mp ran
    obtain ⟨t', copied', rfl⟩ := returns_onPaging.mp copies
    obtain ⟨rfl, rfl⟩ := copied.unique (memory ▸ copied')
    simp only [returns_bind, returns_pure] at ran
    obtain ⟨_, _, -, _, _, -, _, _, -, _, _, -, none, -⟩ := ran
    cases none

/-- A failed `fork` leaks nothing, unless the free list ends at a page table of `copyuvm`. -/
theorem fork_noLeak_iff
    : (∀ k', Returns (fork M p) k none k' → NoLeak k k')
      ↔ (∀ i, (k.proc i).state ≠ .unused)
        ∨ ∀ j, j * 2 ^ 22 < (k.proc p).sz → k.paging.freelist.length ≠ 67 + 1025 * j := by
  have short : ∀ {f rest}, k.paging.freelist = f :: rest → (¬Short (k.proc p).sz rest.length
      ↔ ∀ j, j * 2 ^ 22 < (k.proc p).sz → k.paging.freelist.length ≠ 67 + 1025 * j) := by
    intro f rest head
    rw [head, List.length_cons]
    refine ⟨fun enough j inside length => enough ⟨j, inside, by omega⟩, ?_⟩
    rintro enough ⟨j, inside, length⟩
    exact enough j inside (by omega)
  cases found : (List.finRange nproc).find? fun i => (k.proc i).state = .unused with
  | none =>
      have used : ∀ i, (k.proc i).state ≠ .unused := by simpa using found
      have allocated : Returns allocproc k none k := by simp [allocproc, returns_bind, found]
      refine iff_of_true (fun k' ran => ?_) (.inl used)
      obtain ⟨-, rfl⟩ := ran.unique (allocated.bind rfl)
      exact ⟨fun _ => Iff.rfl, fun _ => Iff.rfl, fun _ _ => rfl, rfl, rfl⟩
  | some np =>
      have isUnused : (k.proc np).state = .unused := by simpa using List.find?_some found
      have slot : ¬∀ i, (k.proc i).state ≠ .unused := fun used => used np isUnused
      rw [or_iff_right slot]
      obtain ⟨empty, allocated⟩ | ⟨f, rest, head, allocated⟩ := allocproc_spec found
      · refine iff_of_true (fun k' ran => ?_) (fun j _ => by rw [empty, List.length_nil]; omega)
        obtain ⟨-, rfl⟩ := ran.unique (allocated.bind rfl)
        have beside : Beside np k (k.embryo np .unused none k.paging) :=
          ⟨fun i apart => by simp [Kernel.embryo, apart], rfl, rfl⟩
        exact (beside.noLeak_iff isUnused (by simp [Kernel.embryo])).mpr fun _ => Iff.rfl
      · rw [← short head]
        obtain ⟨enough, never⟩ | ⟨k', ran, beside, after, pages⟩ :=
          fork_spec space running pgdir le below isUnused head allocated
        · exact iff_of_true (fun k' ran => absurd ran (never k')) enough
        · rw [← pages, ← beside.noLeak_iff isUnused after]
          refine ⟨fun all => all k' ran, fun noLeak k'' ran' => ?_⟩
          obtain ⟨-, rfl⟩ := ran'.unique ran
          exact noLeak

end Forking

/-- The process of one page is the only one, and has `n` free frames. -/
def onlyProcess (n : Nat) : Kernel where
  paging := onePage (List.range' 515 n)
  proc := fun i =>
    { state := if i = 0 then .running else .unused, priority := 10, pid := 1, semHeld := fun _ => 0,
      kstack := none, pgdir := some 512, sz := pgsize, parent := none, ofile := fun _ => none,
      cwd := 0, name := [] }
  nextpid := 2
  fileRef := fun _ => 0
  inodeRef := fun _ => 1

theorem onlyProcess_space {n : Nat} (small : n < 1000)
    : Space smallMachine (onlyProcess n).paging 512 (onePageUses (List.range' 515 n)) :=
  onePage_space List.nodup_range' fun f member => by
    rw [List.mem_range'_1] at member
    omega

theorem onlyProcess_below {n v : Nat} (below : v * pgsize < ((onlyProcess n).proc 0).sz)
    : ((onlyProcess n).paging.pte 512 v).present = true := by
  have zero : v = 0 := by
    simp only [onlyProcess, pgsize] at below
    omega
  rw [onlyProcess, onePage_pte, if_pos zero]
  decide

/-- With 66 free frames `fork` leaks nothing. -/
theorem fork_noLeak_iff_onlyProcess
    : ((onlyProcess 66).proc 0).sz = pgsize
      ∧ ∀ k', Returns (fork smallMachine 0) (onlyProcess 66) none k' → NoLeak (onlyProcess 66) k' :=
  ⟨rfl, (fork_noLeak_iff (onlyProcess_space (by decide)) (by decide) rfl (by decide)
    fun _ => onlyProcess_below).mpr (.inr fun j _ => by
      simp only [onlyProcess, onePage, List.length_range']
      omega)⟩

/-- With 67 it fails at the page table of page 0, and the page is lost. -/
theorem onlyProcess_fork_leaks
    : ∃ k', Returns (fork smallMachine 0) (onlyProcess 67) none k'
        ∧ ¬NoLeak (onlyProcess 67) k' := by
  have isUnused : ((onlyProcess 67).proc 1).state = .unused := by decide
  have short : Short pgsize (List.range' 516 66).length := ⟨0, by decide, by simp⟩
  have allocated := @allocproc_spec (onlyProcess 67) 1 (by decide)
  obtain ⟨empty, -⟩ | ⟨f, rest, head, allocated⟩ := allocated
  · cases empty
  · obtain ⟨rfl, rfl⟩ := List.cons.inj (head.symm : _ = 515 :: List.range' 516 66)
    obtain ⟨enough, -⟩ | ⟨k', ran, beside, after, pages⟩ :=
      fork_spec (onlyProcess_space (by decide)) (by decide) rfl (by decide)
        (fun _ => onlyProcess_below) isUnused head allocated
    · exact absurd short enough
    · refine ⟨k', ran, fun noLeak => pages.mp ?_ short⟩
      exact noLeak.pages

end Xv6.Paging
