import Xv6.Proc.Table
import Xv6.Syscall.Args
import Xv6.Vm.Space

/-! The sizes of processes that share page directories: `growproc`, `clone`, `fork` and `exit` of
`proc.c`. Between two system calls nothing else changes a size or a page directory.
-/

namespace Xv6.Vm

open Xv6.Lib
open Xv6.Proc (ProcState)
open Function (update update_self update_of_ne)

abbrev Slot := Fin nproc

structure Process where
  state : ProcState
  pgdir : Nat
  sz : UInt32

/-- `space d` is the user part of the page directory at address `d`. -/
structure State where
  proc : Slot → Process
  space : Nat → Space
  panic : Option Panic

/-- The new space and size, and the result. -/
def growproc (space : Space) (sz : UInt32) (n : Int32) (memory : Nat)
    : Except Panic (Space × UInt32 × Int32) := do
  if n > 0 then
    let (space, new) ← allocuvm space sz (sz + n.toUInt32) memory
    if new = 0 then return (space, sz, -1) else return (space, new, 0)
  else if n < 0 then
    let (space, new) := deallocuvm space sz (sz + n.toUInt32)
    if new = 0 then return (space, sz, -1) else return (space, new, 0)
  else return (space, sz, 0)

namespace State

def setProc (s : State) (p : Slot) (proc : Process) : State :=
  { s with proc := update s.proc p proc }

def setSpace (s : State) (d : Nat) (space : Space) : State :=
  { s with space := update s.space d space }

/-- The slot that `allocproc` finds. -/
def unused (s : State) : Option Slot :=
  (List.finRange nproc).find? fun q => (s.proc q).state = .unused

/-- `allocproc` and what `fork` and `clone` make of its slot; without a kernel stack the slot is
given back.
-/
def make (s : State) (kstack : Bool) (d : Nat) (sz : UInt32) : State :=
  match s.unused, kstack with
  | some np, true => s.setProc np ⟨.runnable, d, sz⟩
  | _, _ => s

def sbrk (s : State) (p : Slot) (n : Int32) (memory : Nat) : State :=
  match growproc (s.space (s.proc p).pgdir) (s.proc p).sz n memory with
  | .error panic => { s with panic := some panic }
  | .ok (space, sz, _) =>
      (s.setSpace (s.proc p).pgdir space).setProc p { s.proc p with sz := sz }

def clone (s : State) (p : Slot) (kstack : Bool) : State :=
  s.make kstack (s.proc p).pgdir (s.proc p).sz

/-- `fork` with the page directory `d` for the child. -/
def fork (s : State) (p : Slot) (kstack : Bool) (d memory : Nat) : State :=
  if s.unused = none ∨ kstack = false then s
  else
    match copyuvm (s.space (s.proc p).pgdir) (s.proc p).sz memory with
    | .error panic => { s with panic := some panic }
    | .ok none => s
    | .ok (some space) => (s.setSpace d space).make kstack d (s.proc p).sz

def exit (s : State) (p : Slot) : State :=
  s.setProc p { s.proc p with state := .zombie }

end State

variable {space : Space} {sz : UInt32} {n : Int32} {s t : State} {p : Slot} {d memory : Nat}

/-- The system calls of process `p`. -/
inductive Call where
  | sbrk (n : Int32) (memory : Nat)
  | clone (kstack : Bool)
  | fork (kstack : Bool) (d memory : Nat)
  | exit

structure Label where
  caller : Slot
  call : Call

variable {label : Label} {labels : List Label}

/-- No process has `d` as its page directory. -/
def State.Fresh (s : State) (d : Nat) : Prop :=
  ∀ q, (s.proc q).state ≠ .unused → (s.proc q).pgdir ≠ d

instance (s : State) (d : Nat) : Decidable (s.Fresh d) :=
  inferInstanceAs (Decidable (∀ _, _))

def State.step (s : State) (label : Label) : Option State :=
  if s.panic = none ∧ (s.proc label.caller).state.live = true then
    match label.call with
    | .sbrk n memory => some (s.sbrk label.caller n memory)
    | .clone kstack => some (s.clone label.caller kstack)
    | .fork kstack d memory =>
        if s.Fresh d then some (s.fork label.caller kstack d memory) else none
    | .exit => some (s.exit label.caller)
  else none

/-- A process of the given size is the only one. -/
def State.start (sz : UInt32) : State where
  proc := fun p => if p = 0 then ⟨.runnable, 0, sz⟩ else ⟨.unused, 0, 0⟩
  space := fun _ i =>
    if i * npdentries < pages sz then
      some fun j => decide (i * npdentries + j < pages sz)
    else none
  panic := none

/-! One process. -/

/-- A process has the pages below its size and no others, all of them below `KERNBASE`. -/
structure Fits (space : Space) (sz : UInt32) : Prop where
  small : sz.toNat < kernbase
  holds : space.Holds (pages sz)

/-- The end of `growproc`: a new size of 0 is an error, and the old one stays. -/
theorem adopts_fits {new : UInt32} (failed : new = 0 → Fits space sz)
    (done : new ≠ 0 → Fits space new)
    : ∃ next size ret,
        (if new = 0 then pure (space, sz, -1) else pure (space, new, 0)
          : Except Panic (Space × UInt32 × Int32)) = .ok (next, size, ret)
        ∧ Fits next size := by
  by_cases zero : new = 0
  · exact ⟨space, sz, -1, if_pos zero, failed zero⟩
  · exact ⟨space, new, 0, if_neg zero, done zero⟩

/-- `growproc` keeps the space and the size in step, unless the process gives up all its memory:
then `deallocuvm` returns 0, which is taken for an error.
-/
theorem growproc_fits (fits : Fits space sz) (keeps : ¬ (n < 0 ∧ sz + n.toUInt32 = 0))
    (memory : Nat)
    : ∃ next new ret, growproc space sz n memory = .ok (next, new, ret) ∧ Fits next new := by
  unfold growproc
  split
  · obtain ⟨next, new, grown, result⟩ :=
      allocuvm_spec fits.small fits.holds (sz + n.toUInt32) memory
    rw [grown]
    refine adopts_fits (fun zero => ⟨fits.small, ?_⟩) fun nonzero => ?_
    · rcases result with ⟨-, same⟩ | ⟨le, -, -, holds⟩
      · exact same
      · have none : sz = new := UInt32.le_antisymm le (zero ▸ UInt32.zero_le)
        rwa [none]
    · rcases result with ⟨zero, -⟩ | ⟨-, -, small, holds⟩
      · exact absurd zero nonzero
      · exact ⟨small, holds⟩
  · split
    · rename_i negative
      by_cases grows : sz + n.toUInt32 ≥ sz
      · have same : deallocuvm space sz (sz + n.toUInt32) = (space, sz) := if_pos grows
        rw [same]
        exact adopts_fits (fun _ => fits) fun _ => fits
      · have shrinks : sz + n.toUInt32 < sz := UInt32.not_le.mp grows
        have le : sz + n.toUInt32 ≤ sz := UInt32.le_of_lt shrinks
        have holds := deallocuvm_holds le (pages_mono le) (Nat.le_refl _) fits.holds
        have size : (deallocuvm space sz (sz + n.toUInt32)).2 = sz + n.toUInt32 := by
          rw [deallocuvm, if_neg grows]
        have bound := UInt32.lt_iff_toNat_lt.mp shrinks
        cases result : deallocuvm space sz (sz + n.toUInt32) with
        | mk next new =>
          rw [result] at holds size
          obtain rfl : new = sz + n.toUInt32 := size
          exact adopts_fits (fun zero => absurd ⟨negative, zero⟩ keeps) fun _ =>
            ⟨Nat.lt_trans bound fits.small, holds⟩
    · exact ⟨space, sz, 0, rfl, fits⟩

/-! All processes. -/

/-- Live processes with one page directory have one size, and the pages below it are present. -/
structure State.Agrees (s : State) : Prop where
  same : ∀ p q, (s.proc p).state.live = true → (s.proc q).state.live = true
    → (s.proc p).pgdir = (s.proc q).pgdir → (s.proc p).sz = (s.proc q).sz
  mapped : ∀ p, (s.proc p).state.live = true
    → ∀ v, v * pgsize < (s.proc p).sz.toNat → (s.space (s.proc p).pgdir).present v = true

/-- A process whose size may change has its page directory for itself, and it keeps some memory.
-/
def State.GrowsAlone (s : State) (label : Label) : Prop :=
  match label.call with
  | .sbrk n _ =>
      n ≠ 0
      → (∀ q, (s.proc q).state.live = true
          → (s.proc q).pgdir = (s.proc label.caller).pgdir → q = label.caller)
        ∧ ¬ (n < 0 ∧ (s.proc label.caller).sz + n.toUInt32 = 0)
  | .clone _ | .fork .. | .exit => True

instance (s : State) (label : Label) : Decidable (s.GrowsAlone label) := by
  dsimp only [State.GrowsAlone]
  cases label.call <;> infer_instance

structure State.Consistent (s : State) : Prop where
  same : ∀ p q, (s.proc p).state.live = true → (s.proc q).state.live = true
    → (s.proc p).pgdir = (s.proc q).pgdir → (s.proc p).sz = (s.proc q).sz
  fits : ∀ p, (s.proc p).state.live = true → Fits (s.space (s.proc p).pgdir) (s.proc p).sz
  calm : s.panic = none

theorem State.Consistent.agrees (consistent : s.Consistent) : s.Agrees := by
  refine ⟨consistent.same, fun p live v below => ?_⟩
  have fits := consistent.fits p live
  have page := (lt_pages_iff v _).mpr below
  rw [fits.holds v (Nat.lt_of_lt_of_le page (pages_le_userPages fits.small))]
  simpa using page

theorem State.unused_spec {np : Slot} (found : s.unused = some np)
    : (s.proc np).state = .unused := by
  simpa using List.find?_some found

section

variable (consistent : s.Consistent)
include consistent

/-- Slot `p` changes, and perhaps a space that no other live process has. If `p` is live then, it
agrees with its space and with those that share it.
-/
theorem State.Consistent.replace (others : ∀ q, q ≠ p → t.proc q = s.proc q)
    (spaces : ∀ q, q ≠ p → (s.proc q).state.live = true
      → t.space (s.proc q).pgdir = s.space (s.proc q).pgdir) (calm : t.panic = s.panic)
    (fits : (t.proc p).state.live = true → Fits (t.space (t.proc p).pgdir) (t.proc p).sz)
    (same : (t.proc p).state.live = true → ∀ q, q ≠ p → (s.proc q).state.live = true
      → (s.proc q).pgdir = (t.proc p).pgdir → (s.proc q).sz = (t.proc p).sz)
    : t.Consistent := by
  refine ⟨fun q r qLive rLive shared => ?_, fun q live => ?_, calm.trans consistent.calm⟩
  · by_cases first : q = p
    · by_cases second : r = p
      · rw [first, second]
      · rw [first] at qLive shared ⊢
        rw [others r second] at rLive shared ⊢
        exact (same qLive r second rLive shared.symm).symm
    · rw [others q first] at qLive shared ⊢
      by_cases second : r = p
      · rw [second] at rLive shared ⊢
        exact same rLive q first qLive shared
      · rw [others r second] at rLive shared ⊢
        exact consistent.same q r qLive rLive shared
  · by_cases here : q = p
    · rw [here] at live ⊢
      exact fits live
    · rw [others q here] at live ⊢
      rw [spaces q here live]
      exact consistent.fits q live

/-- A space that no live process has changes. -/
theorem State.Consistent.setSpace (alone : ∀ q, (s.proc q).state.live = true → (s.proc q).pgdir ≠ d)
    (space : Space)
    : (s.setSpace d space).Consistent := by
  refine ⟨consistent.same, fun q live => ?_, consistent.calm⟩
  have kept : (s.setSpace d space).space (s.proc q).pgdir = s.space (s.proc q).pgdir :=
    update_of_ne (alone q live) ..
  exact kept ▸ consistent.fits q live

theorem State.Consistent.make (kstack : Bool) (fits : Fits (s.space d) sz)
    (same : ∀ q, (s.proc q).state.live = true → (s.proc q).pgdir = d → (s.proc q).sz = sz)
    : (s.make kstack d sz).Consistent := by
  unfold State.make
  split
  · rename_i np _
    have new : (s.setProc np ⟨.runnable, d, sz⟩).proc np = ⟨.runnable, d, sz⟩ :=
      update_self ..
    refine consistent.replace (p := np) (fun q other => update_of_ne other ..)
      (fun _ _ _ => rfl) rfl ?_ ?_
    · rw [new]
      exact fun _ => fits
    · rw [new]
      exact fun _ q _ live shared => same q live shared
  · exact consistent

theorem State.Consistent.clone (live : (s.proc p).state.live = true) (kstack : Bool)
    : (s.clone p kstack).Consistent :=
  consistent.make kstack (consistent.fits p live) fun q qLive shared =>
    consistent.same q p qLive live shared

theorem State.Consistent.fork (live : (s.proc p).state.live = true) (kstack : Bool)
    (fresh : s.Fresh d) (memory : Nat)
    : (s.fork p kstack d memory).Consistent := by
  have fits := consistent.fits p live
  have alone : ∀ q, (s.proc q).state.live = true → (s.proc q).pgdir ≠ d := fun q live =>
    fresh q fun unused => by simp [unused, ProcState.live] at live
  unfold State.fork
  split
  · exact consistent
  · rcases copyuvm_spec fits.small fits.holds memory with failed | ⟨space, copied, holds⟩
    · rw [failed]
      exact consistent
    · rw [copied]
      refine (consistent.setSpace alone space).make kstack ⟨fits.small, ?_⟩ fun q live shared =>
        absurd shared (alone q live)
      have new : (s.setSpace d space).space d = space := update_self ..
      rwa [new]

theorem State.Consistent.exit (p : Slot)
    : (s.exit p).Consistent := by
  have dead : ((s.exit p).proc p).state.live ≠ true := by
    simp [State.exit, State.setProc, ProcState.live]
  exact consistent.replace (fun q other => update_of_ne other ..) (fun _ _ _ => rfl) rfl
    (fun live => absurd live dead) fun live => absurd live dead

end

theorem State.sbrk_eq {ret : Int32}
    (grown : growproc (s.space (s.proc p).pgdir) (s.proc p).sz n memory = .ok (space, sz, ret))
    : s.sbrk p n memory
      = (s.setSpace (s.proc p).pgdir space).setProc p ⟨(s.proc p).state, (s.proc p).pgdir, sz⟩ := by
  rw [State.sbrk, grown]

/-- A process changes its size while no other has its page directory. -/
theorem State.Consistent.sbrk (consistent : s.Consistent) (live : (s.proc p).state.live = true)
    (alone : s.GrowsAlone ⟨p, .sbrk n memory⟩)
    : (s.sbrk p n memory).Consistent := by
  have fits := consistent.fits p live
  by_cases zero : n = 0
  · -- `sbrk(0)` changes nothing.
    subst zero
    have same : s.sbrk p 0 memory = s := by
      rw [State.sbrk_eq rfl]
      simp [State.setSpace, State.setProc]
    rw [same]
    exact consistent
  · obtain ⟨sole, keeps⟩ := alone zero
    obtain ⟨space, sz, ret, grown, result⟩ := growproc_fits fits keeps memory
    rw [State.sbrk_eq grown]
    have new : ((s.setSpace (s.proc p).pgdir space).setProc p
        ⟨(s.proc p).state, (s.proc p).pgdir, sz⟩).proc p
        = ⟨(s.proc p).state, (s.proc p).pgdir, sz⟩ := update_self ..
    have own : ((s.setSpace (s.proc p).pgdir space).setProc p
        ⟨(s.proc p).state, (s.proc p).pgdir, sz⟩).space (s.proc p).pgdir = space :=
      update_self ..
    refine consistent.replace (p := p) (fun q other => update_of_ne other ..)
      (fun q other live => update_of_ne (fun shared => other (sole q live shared)) ..) rfl
      ?_ ?_
    · rw [new, own]
      exact fun _ => result
    · rw [new]
      exact fun _ q other live shared => absurd (sole q live shared) other

theorem State.Consistent.step (consistent : s.Consistent) (alone : s.GrowsAlone label)
    (stepped : s.step label = some t)
    : t.Consistent := by
  obtain ⟨⟨-, live⟩, made⟩ := Option.ite_none_right_eq_some.mp stepped
  obtain ⟨p, call⟩ := label
  cases call with
  | sbrk n memory =>
    cases made
    exact consistent.sbrk live alone
  | clone kstack =>
    cases made
    exact consistent.clone live kstack
  | fork kstack d memory =>
    obtain ⟨fresh, ⟨⟩⟩ := Option.ite_none_right_eq_some.mp made
    exact consistent.fork live kstack fresh memory
  | exit =>
    cases made
    exact consistent.exit p

theorem start_consistent (small : sz.toNat < kernbase)
    : (State.start sz).Consistent := by
  have only : ∀ p : Slot, ((State.start sz).proc p).state.live = true → p = 0 := by
    intro p live
    by_contra other
    simp [State.start, other, ProcState.live] at live
  refine ⟨fun p q pLive qLive _ => ?_, fun p live => ?_, rfl⟩
  · rw [only p pLive, only q qLive]
  · have first : (State.start sz).proc 0 = ⟨.runnable, 0, sz⟩ := rfl
    rw [only p live, first]
    refine ⟨small, fun u _ => ?_⟩
    have split : u / npdentries * npdentries + u % npdentries = u := Nat.div_add_mod' u npdentries
    simp only [Space.present, State.start]
    by_cases table : u / npdentries * npdentries < pages sz
    · rw [if_pos table]
      simp only [split]
    · rw [if_neg table]
      exact (decide_eq_false (by omega)).symm

theorem run_consistent (consistent : s.Consistent) (reached : run State.step labels s = some t)
    (alone : Along State.step State.GrowsAlone labels s)
    : t.Consistent :=
  along_induction (motive := fun _ state => state.Consistent) consistent
    (fun _ _ _ _ before alone stepped => before.step alone stepped) reached alone

/-- The calls of others do not change the size or the page directory of a process. -/
theorem State.make_proc_other (used : (s.proc p).state ≠ .unused) (kstack : Bool) (d : Nat)
    (sz : UInt32)
    : (s.make kstack d sz).proc p = s.proc p := by
  unfold State.make
  split
  · rename_i np found
    have other : p ≠ np := by
      rintro rfl
      exact used (State.unused_spec found)
    exact update_of_ne other ..
  · rfl

theorem step_proc_other (used : (s.proc p).state ≠ .unused) (other : label.caller ≠ p)
    (stepped : s.step label = some t)
    : t.proc p = s.proc p := by
  obtain ⟨-, made⟩ := Option.ite_none_right_eq_some.mp stepped
  obtain ⟨q, call⟩ := label
  have different : p ≠ q := fun same => other same.symm
  cases call with
  | sbrk n memory =>
    cases made
    unfold State.sbrk
    split
    · rfl
    · exact update_of_ne different ..
  | clone kstack =>
    cases made
    exact State.make_proc_other used ..
  | fork kstack d memory =>
    obtain ⟨-, ⟨⟩⟩ := Option.ite_none_right_eq_some.mp made
    unfold State.fork
    split
    · rfl
    · split
      · rfl
      · rfl
      · exact State.make_proc_other (s := s.setSpace d _) used ..
  | exit =>
    cases made
    exact update_of_ne different ..

theorem run_proc_other (used : (s.proc p).state ≠ .unused)
    (others : ∀ label ∈ labels, label.caller ≠ p) (reached : run State.step labels s = some t)
    : t.proc p = s.proc p := by
  induction labels generalizing s with
  | nil =>
    cases reached
    rfl
  | cons label rest ih =>
    obtain ⟨next, stepped, ran⟩ := run_cons.mp reached
    have kept := step_proc_other used (others label (by simp)) stepped
    have later := ih (kept ▸ used) (fun label member => others label (by simp [member])) ran
    exact later.trans kept

/-- Threads agree on their size as long as a process grows or shrinks only while it has its page
directory for itself. Then `mappages` never finds a page twice, and what `argptr` has accepted in
one process stays mapped whatever others do.
-/
theorem threads_agree {sz : UInt32} (small : sz.toNat < kernbase) {labels : List Label} {s : State}
    (reached : run State.step labels (.start sz) = some s)
    (alone : Along State.step State.GrowsAlone labels (.start sz))
    : s.Agrees
      ∧ s.panic = none
      ∧ ∀ p, (s.proc p).state.live = true
          → ∀ c : Syscall.Caller, c.sz = (s.proc p).sz
          → ∀ n size i, Syscall.argptr c n size = some i
          → ∀ later t, run State.step later s = some t → Along State.step State.GrowsAlone later s
          → (∀ label ∈ later, label.caller ≠ p)
          → ∀ a ∈ Syscall.span i size.toUInt32.toNat,
              (t.space (t.proc p).pgdir).present (a.toNat / pgsize) = true := by
  have consistent := run_consistent (start_consistent small) reached alone
  refine ⟨consistent.agrees, consistent.calm, ?_⟩
  intro p live c size n bytes i accepted later t ran careful others a inside
  have kept : t.proc p = s.proc p :=
    run_proc_other (fun unused => by simp [unused, ProcState.live] at live) others ran
  have user : c.sz ≤ Syscall.kernbase := by
    rw [size, UInt32.le_iff_toNat_le]
    exact Nat.le_of_lt (consistent.fits p live).small
  have below : a < c.sz := (Syscall.argptr_fits user accepted).2 a inside
  refine (run_consistent consistent ran careful).agrees.mapped p (kept ▸ live) _ ?_
  rw [kept, ← size]
  exact Nat.lt_of_le_of_lt (Nat.div_mul_le_self ..) (UInt32.lt_iff_toNat_lt.mp below)

/-- A process makes a thread and grows by a page. -/
def growsShared : List Label := [⟨0, .clone true⟩, ⟨0, .sbrk 4096 10⟩]

/-- The thread still has the old size, and its own `sbrk` maps the same page again. A process that
gives up all its memory loses the pages and keeps the size.
-/
theorem growsShared_disagrees
    : (∃ s, run State.step growsShared (.start 4096) = some s
        ∧ (s.proc 0).state = .runnable
        ∧ (s.proc 1).state = .runnable
        ∧ (s.proc 0).pgdir = (s.proc 1).pgdir
        ∧ (s.proc 0).sz = 8192
        ∧ (s.proc 1).sz = 4096)
      ∧ (∃ s, run State.step (growsShared ++ [⟨1, .sbrk 4096 10⟩]) (.start 4096) = some s
        ∧ s.panic = some .remap)
      ∧ ∃ s, run State.step [⟨0, .sbrk (-4096) 0⟩] (.start 4096) = some s
          ∧ (s.proc 0).sz = 4096
          ∧ (s.space (s.proc 0).pgdir).present 0 = false := by
  decide +kernel

/-- A process makes a thread, which exits, and then grows and forks; the child shrinks. -/
def growsAlone : List Label :=
  [⟨0, .clone true⟩, ⟨1, .exit⟩, ⟨0, .sbrk 4096 10⟩, ⟨0, .fork true 1 100⟩, ⟨2, .sbrk (-4096) 0⟩]

theorem growsAlone_agrees
    : ∃ s, run State.step growsAlone (.start 4096) = some s
        ∧ (s.proc 0).sz = 8192
        ∧ (s.proc 2).sz = 4096
        ∧ s.Agrees
        ∧ s.panic = none := by
  have alone : Along State.step State.GrowsAlone growsAlone (.start 4096) := by
    decide +kernel
  obtain ⟨s, reached, first, second⟩ : ∃ s ∈ run State.step growsAlone (.start 4096),
      (s.proc 0).sz = 8192 ∧ (s.proc 2).sz = 4096 := by
    decide +kernel
  obtain ⟨agrees, calm, -⟩ := threads_agree (by decide) reached alone
  exact ⟨s, reached, first, second, agrees, calm⟩

end Xv6.Vm
