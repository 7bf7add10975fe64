import Xv6.Kalloc.Pages

/-! The free list and the owners of physical pages: kernel stacks, page directories with their
page tables and mappings, and pipes. System calls run as code that is interleaved at each `kalloc`
and `kfree`, and any `kalloc` may fail.
-/

namespace Xv6.Kalloc

open Xv6.Lib
open Xv6.Proc (ProcState)
open Xv6.Vm (userPages)
open Function (update update_self update_of_ne)

abbrev Slot := Fin nproc

/-- The fields of `struct proc` that own pages or decide about them. While a system call works on
the page directory, the directory is with the code of the call.
-/
structure Process where
  state : ProcState
  kstack : Option Frame
  pgdir : Option Dir
  sz : UInt32
  parent : Option Slot

/-- A pipe and the reference counts of its two files. It has no page while `pipealloc` is still
at work.
-/
structure Pipe where
  page : Option Frame
  readers : Nat
  writers : Nat

/-- What a system call leaves behind. -/
inductive Outcome where
  | space (d : Dir) (sz : UInt32)
  | child (np : Slot) (parent : Option Slot) (made : Option (Frame × Dir × UInt32))
  | reaped (q : Slot)
  | pipe (i : Fin nfile) (page : Option Frame)
  | closed

/-- The pipe whose file for reading is file `i` of the file table is `pipe i`. -/
structure State where
  freelist : List Frame
  proc : Slot → Process
  call : Slot → Option (Code Outcome)
  pipe : Fin nfile → Option Pipe

/-! The system calls. -/

/-- `fork` in a process with directory `d`. -/
def fork (d : Dir) (sz : UInt32) : Code (Option (Frame × Dir × UInt32)) :=
  .take [] fun
    | none => .done none
    | some kstack =>
        ((copyuvm d sz).within [.page kstack]).bind fun
          | none => .give [] kstack (.done none)
          | some d => .done (some (kstack, d, sz))

/-- What `wait` and `wait2` do with a zombie. -/
def reap (kstack : Frame) (d : Dir) : Code Unit :=
  .give [.directory d] kstack (freevm d)

/-- `userinit`. It does not look at the result of `mappages`. -/
def userinit : Code (Frame × Dir × UInt32) :=
  .take [] fun
    | none => .stop
    | some kstack =>
        (setupkvm.within [.page kstack]).bind fun
          | none => .stop
          | some d =>
              .take [.page kstack, .directory d] fun
                | none => .stop
                | some mem =>
                    ((mappages d 0 mem).within [.page kstack]).bind fun mapped =>
                      .done (kstack, mapped.getD d, 4096)

namespace State

def setProc (s : State) (p : Slot) (proc : Process) : State :=
  { s with proc := update s.proc p proc }

def setCall (s : State) (p : Slot) (call : Option (Code Outcome)) : State :=
  { s with call := update s.call p call }

def setPipe (s : State) (i : Fin nfile) (pipe : Option Pipe) : State :=
  { s with pipe := update s.pipe i pipe }

/-- A call that works on the page directory of the caller. -/
def resize (s : State) (p : Slot) (code : Dir → UInt32 → Code (Dir × UInt32)) : Option State :=
  match (s.proc p).pgdir with
  | none => none
  | some d =>
      some ((s.setProc p { s.proc p with pgdir := none }).setCall p
        (some ((code d (s.proc p).sz).bind fun r => .done (.space r.1 r.2))))

/-- The slot that `allocproc` finds. -/
def unused (s : State) : Option Slot :=
  (List.finRange nproc).find? fun q => (s.proc q).state = .unused

def startFork (s : State) (p : Slot) : Option State :=
  match s.unused, (s.proc p).pgdir with
  | none, _ => some s
  | some _, none => none
  | some np, some d =>
      some ((s.setProc np { s.proc np with state := .embryo }).setCall p
        (some ((fork d (s.proc p).sz).bind fun made => .done (.child np (some p) made))))

/-- The end of `exit`; the files are closed before. -/
def exit (s : State) (p : Slot) : Option State :=
  if p = 0 then none
  else
    some { s with
      proc := fun q =>
        { s.proc q with
          state := if q = p then .zombie else (s.proc q).state
          parent := if (s.proc q).parent = some p then some 0 else (s.proc q).parent } }

/-- The zombie that `wait` finds. -/
def zombie (s : State) (p : Slot) : Option Slot :=
  (List.finRange nproc).find? fun q => (s.proc q).parent = some p ∧ (s.proc q).state = .zombie

/-- `wait` and `wait2`; without a zombie nothing happens to any page. -/
def wait (s : State) (p : Slot) : Option State :=
  match s.zombie p with
  | none => some s
  | some q =>
      match (s.proc q).kstack, (s.proc q).pgdir with
      | some kstack, some d =>
          some ((s.setProc q { s.proc q with kstack := none, pgdir := none }).setCall p
            (some ((reap kstack d).bind fun _ => .done (.reaped q))))
      | _, _ => none

/-- `pipealloc` with the files it has found. -/
def pipealloc (s : State) (p : Slot) (i : Fin nfile) : Option State :=
  if (s.pipe i).isNone then
    some ((s.setPipe i (some ⟨none, 1, 1⟩)).setCall p
      (some (.take [] fun page => .done (.pipe i page))))
  else none

/-- `filedup`, from `fork` or `dup`. -/
def filedup (s : State) (i : Fin nfile) (writable : Bool) : Option State :=
  match s.pipe i with
  | some ⟨some page, readers, writers⟩ =>
      if writable then
        if writers < 1 then none else some (s.setPipe i (some ⟨some page, readers, writers + 1⟩))
      else
        if readers < 1 then none else some (s.setPipe i (some ⟨some page, readers + 1, writers⟩))
  | _ => none

/-- The reference counts after `fileclose`. -/
def released (readers writers : Nat) (writable : Bool) : Option (Nat × Nat) :=
  if writable then if writers < 1 then none else some (readers, writers - 1)
  else if readers < 1 then none else some (readers - 1, writers)

/-- `fileclose`, and `pipeclose` for the last reference to a file. -/
def fileclose (s : State) (p : Slot) (i : Fin nfile) (writable : Bool) : Option State :=
  match s.pipe i with
  | some ⟨some page, readers, writers⟩ =>
      match released readers writers writable with
      | none => none
      | some (0, 0) => some ((s.setPipe i none).setCall p (some (.give [] page (.done .closed))))
      | some (readers, writers) => some (s.setPipe i (some ⟨some page, readers, writers⟩))
  | _ => none

/-- The end of a system call. -/
def finish (s : State) (p : Slot) (outcome : Outcome) : State :=
  let s := s.setCall p none
  match outcome with
  | .space d sz => s.setProc p { s.proc p with pgdir := some d, sz := sz }
  | .child np _ none => s.setProc np { s.proc np with state := .unused }
  | .child np parent (some (kstack, d, sz)) =>
      s.setProc np ⟨.runnable, some kstack, some d, sz, parent⟩
  | .reaped q => s.setProc q { s.proc q with state := .unused, parent := none }
  | .pipe i none => s.setPipe i none
  | .pipe i (some page) => s.setPipe i (some ⟨some page, 1, 1⟩)
  | .closed => s

end State

inductive Call where
  | sbrk (n : Int32)
  | exec (program : Program)
  | fork
  | exit
  | wait
  | pipe (i : Fin nfile)
  | close (i : Fin nfile) (writable : Bool)

/-- Process `p` starts a system call, does one `kalloc` or `kfree`, or ends its call. A `filedup`
is a step of its own.
-/
inductive Label where
  | start (p : Slot) (call : Call)
  | tick (p : Slot) (fails : Bool)
  | finish (p : Slot)
  | dup (i : Fin nfile) (writable : Bool)

def State.start (s : State) (p : Slot) : Call → Option State
  | .sbrk n => s.resize p fun d sz => growproc d sz n
  | .exec program => s.resize p fun d sz => Kalloc.exec d sz program
  | .fork => s.startFork p
  | .exit => s.exit p
  | .wait => s.wait p
  | .pipe i => s.pipealloc p i
  | .close i writable => s.fileclose p i writable

def State.step (s : State) : Label → Option State
  | .start p call =>
      if (s.call p).isNone ∧ (s.proc p).state.live = true then s.start p call else none
  | .tick p fails =>
      match s.call p with
      | none => none
      | some code =>
          (code.tick fails s.freelist).map fun r =>
            { s.setCall p (some r.2) with freelist := r.1 }
  | .finish p =>
      match s.call p with
      | some (.done outcome) => some (s.finish p outcome)
      | _ => none
  | .dup i writable => s.filedup i writable

/-- The machine when `main` calls `userinit`. -/
def State.boot (freelist : List Frame) : State where
  freelist := freelist
  proc := fun p => ⟨if p = 0 then .embryo else .unused, none, none, 0, none⟩
  call := fun p =>
    if p = 0 then some (userinit.bind fun r => .done (.child 0 none (some r))) else none
  pipe := fun _ => none

/-! Who has which page. -/

/-- Where a page can be. -/
inductive Place where
  | free
  | proc (p : Slot)
  | call (p : Slot)
  | pipe (i : Fin nfile)
  deriving DecidableEq, Fintype

def Process.frames (proc : Process) : Multiset Frame := held proc.kstack + dirFrames proc.pgdir

def pipeFrames (pipe : Option Pipe) : Multiset Frame := pipe.elim 0 fun x => held x.page

def Outcome.frames : Outcome → Multiset Frame
  | .space d _ => d.frames
  | .child _ _ made => made.elim 0 fun r => {r.1} + r.2.1.frames
  | .reaped _ => 0
  | .pipe _ page => held page
  | .closed => 0

/-- The sizes that a system call leaves behind are below `KERNBASE`. -/
def Outcome.Small : Outcome → Prop
  | .space _ sz => sz.toNat < kernbase
  | .child _ _ made => ∀ r ∈ made, r.2.2.toNat < kernbase
  | _ => True

/-- What is where, if the code of process `p` has `part p`. -/
def State.holding (s : State) (part : Slot → Multiset Frame) : Place → Multiset Frame
  | .free => s.freelist
  | .proc p => (s.proc p).frames
  | .call p => part p
  | .pipe i => pipeFrames (s.pipe i)

abbrev Backed (code : Code Outcome) (part : Multiset Frame) : Prop :=
  Keeps Piece.frames Outcome.frames Outcome.Small code part

/-- No page is in two places, and all code is right about what it has. -/
structure State.Sound (s : State) (part : Slot → Multiset Frame) : Prop where
  small : ∀ p, (s.proc p).sz.toNat < kernbase
  once : (∑ x, s.holding part x).Nodup
  backed : ∀ p, ∀ code ∈ s.call p, Backed code (part p)

namespace State.Sound

variable {s t : State} {part : Slot → Multiset Frame}
variable {p : Slot} {call : Option (Code Outcome)}

/-- No place has more than before. -/
theorem less (sound : s.Sound part) (free : t.freelist = s.freelist) (calls : t.call = s.call)
    (small : ∀ q, (t.proc q).sz.toNat < kernbase)
    (procs : ∀ q, (t.proc q).frames ≤ (s.proc q).frames)
    (pipes : ∀ i, pipeFrames (t.pipe i) ≤ pipeFrames (s.pipe i)) : t.Sound part where
  small := small
  once := by
    refine Multiset.nodup_of_le (Finset.sum_le_sum fun x _ => ?_) sound.once
    cases x with
    | free => exact le_of_eq (by rw [holding, holding, free])
    | proc q => exact procs q
    | call q => exact le_rfl
    | pipe i => exact pipes i
  backed := by
    rw [calls]
    exact sound.backed

/-- Pages move between the code of process `p` and the place `x`. -/
theorem move (sound : s.Sound part) (now : Multiset Frame) {x : Place} (ne : x ≠ .call p)
    (small : ∀ q, (t.proc q).sz.toNat < kernbase) (free : x ≠ .free → t.freelist = s.freelist)
    (procs : ∀ q, x ≠ .proc q → t.proc q = s.proc q)
    (pipes : ∀ i, x ≠ .pipe i → t.pipe i = s.pipe i)
    (moved : t.holding part x + now ≤ s.holding part x + part p)
    (calls : ∀ q, q ≠ p → t.call q = s.call q) (own : ∀ code ∈ t.call p, Backed code now)
    : t.Sound (update part p now) where
  small := small
  once := by
    have away : ∀ q, q ≠ p → update part p now q = part q := fun q other =>
      update_of_ne other now part
    refine Multiset.nodup_of_le (sum_move ne (fun y different other => ?_) ?_) sound.once
    · cases y with
      | free => exact le_of_eq (by rw [holding, holding, free different.symm])
      | proc q => exact le_of_eq (by rw [holding, holding, procs q different.symm])
      | call q => exact le_of_eq (away q fun same => other (by rw [same]))
      | pipe i => exact le_of_eq (by rw [holding, holding, pipes i different.symm])
    · have whole : t.holding (update part p now) (.call p) = now := by
        rw [holding, update_self]
      have same : t.holding (update part p now) x = t.holding part x := by
        cases x with
        | call q => exact away q fun same => ne (by rw [same])
        | free | proc | pipe => rfl
      rw [whole, same]
      exact moved
  backed := by
    intro q code running
    by_cases same : q = p
    · subst same
      rw [update_self]
      exact own code running
    · rw [update_of_ne same]
      exact sound.backed q code (calls q same ▸ running)

/-- Pages move between code and a process. -/
theorem moveProc (sound : s.Sound part) {q : Slot} {proc : Process} (now : Multiset Frame)
    (small : proc.sz.toNat < kernbase) (moved : proc.frames + now ≤ (s.proc q).frames + part p)
    (own : ∀ code ∈ call, Backed code now)
    : ((s.setProc q proc).setCall p call).Sound (update part p now) := by
  refine sound.move now (x := .proc q) Place.noConfusion (fun r => ?_) (fun _ => rfl)
    (fun r other => ?_) (fun _ _ => rfl) ?_ (fun r other => update_of_ne other ..) ?_
  · by_cases same : r = q
    · subst same
      simpa [setProc, setCall] using small
    · simpa [setProc, setCall, update_of_ne same] using sound.small r
  · exact update_of_ne (fun same => other (by rw [same])) ..
  · simpa [holding, setProc, setCall] using moved
  · simpa [setCall] using own

/-- Pages move between code and a pipe. -/
theorem movePipe (sound : s.Sound part) {i : Fin nfile} {pipe : Option Pipe} (now : Multiset Frame)
    (moved : pipeFrames pipe + now ≤ pipeFrames (s.pipe i) + part p)
    (own : ∀ code ∈ call, Backed code now)
    : ((s.setPipe i pipe).setCall p call).Sound (update part p now) := by
  refine sound.move now (x := .pipe i) Place.noConfusion sound.small (fun _ => rfl) (fun _ _ => rfl)
    (fun j other => ?_) ?_ (fun r other => update_of_ne other ..) ?_
  · exact update_of_ne (fun same => other (by rw [same])) ..
  · simpa [holding, setPipe, setCall] using moved
  · simpa [setCall] using own

end State.Sound

/-! Steps. -/

theorem fork_keeps (d : Dir) {sz : UInt32} (small : sz.toNat < kernbase)
    : Keeps Piece.frames (fun made => made.elim 0 fun r => {r.1} + r.2.1.frames)
        (fun made => ∀ r ∈ made, r.2.2.toNat < kernbase) (fork d sz) 0 := by
  refine .take le_rfl (.done le_rfl (by simp)) fun kstack => ?_
  refine (keeps_beside (copyuvm_keeps d small) (.page kstack)).bind fun copy _ => ?_
  cases copy with
  | none => exact .give le_rfl (.done le_rfl (by simp))
  | some d => exact .done (le_of_eq (add_comm ..)) (by simpa using small)

theorem reap_keeps (kstack : Frame) (d : Dir)
    : Keeps Piece.frames (fun _ => 0) (fun _ => True) (reap kstack d) (d.frames + {kstack}) :=
  .give (shows_directory d) (freevm_keeps d)

theorem userinit_keeps
    : Keeps Piece.frames (fun r => {r.1} + r.2.1.frames) (fun r => r.2.2.toNat < kernbase)
        userinit 0 := by
  refine .take le_rfl .stop fun kstack => ?_
  refine (keeps_beside setupkvm_keeps (.page kstack)).bind fun made _ => ?_
  cases made with
  | none => exact .stop
  | some d =>
    refine .take (le_of_eq ?_) .stop fun mem => ?_
    · simp [add_comm]
    · have maps := keeps_beside (mappages_keeps (d := d) (v := 0) (by decide) mem) (.page kstack)
      refine (maps.mono (le_of_eq ?_)).bind fun mapped _ => ?_
      · simp only [dirFrames_some, Piece.frames_page]
        abel
      · refine .done ?_ (show (4096 : UInt32).toNat < kernbase by decide)
        cases mapped with
        | none =>
          rw [add_comm]
          exact add_le_add (Multiset.le_add_right ..) le_rfl
        | some d' => exact le_of_eq (add_comm ..)

namespace State.Sound

variable {s t : State} {part : Slot → Multiset Frame}
variable {p : Slot} {i : Fin nfile} {writable : Bool}

section

variable (sound : s.Sound part)
include sound

theorem resize {code : Dir → UInt32 → Code (Dir × UInt32)}
    (keeps : ∀ d sz, sz.toNat < kernbase
      → Keeps Piece.frames (fun r => r.1.frames) (fun r => r.2.toNat < kernbase) (code d sz)
          d.frames) (started : s.resize p code = some t) : ∃ now, t.Sound now := by
  unfold State.resize at started
  split at started
  · cases started
  · rename_i d there
    cases started
    refine ⟨_, sound.moveProc d.frames (sound.small p) ?_ ?_⟩
    · rw [Process.frames, Process.frames, there, dirFrames_none, dirFrames_some, add_zero]
      exact Multiset.le_add_right ..
    · rintro _ ⟨⟩
      exact (keeps d _ (sound.small p)).bind fun r small => .done le_rfl small

theorem startFork (started : s.startFork p = some t)
    : ∃ now, t.Sound now := by
  unfold State.startFork at started
  split at started
  · cases started
    exact ⟨part, sound⟩
  · cases started
  · rename_i np d _ _
    cases started
    refine ⟨_, sound.moveProc 0 (sound.small np) ?_ ?_⟩
    · exact add_le_add le_rfl (Multiset.zero_le _)
    · rintro _ ⟨⟩
      exact (fork_keeps d (sound.small p)).bind fun made small => .done le_rfl small

theorem exit (exited : s.exit p = some t) : t.Sound part := by
  unfold State.exit at exited
  split at exited
  · cases exited
  · cases exited
    exact sound.less rfl rfl sound.small (fun _ => le_rfl) (fun _ => le_rfl)

theorem wait (started : s.wait p = some t)
    : ∃ now, t.Sound now := by
  unfold State.wait at started
  split at started
  · cases started
    exact ⟨part, sound⟩
  · rename_i q _
    split at started
    · rename_i kstack d stack there
      cases started
      refine ⟨_, sound.moveProc (d.frames + {kstack}) (sound.small q) ?_ ?_⟩
      · rw [Process.frames, Process.frames, stack, there]
        simp only [held_none, held_some, dirFrames_none, dirFrames_some, zero_add]
        rw [add_comm d.frames]
        exact Multiset.le_add_right ..
      · rintro _ ⟨⟩
        exact (reap_keeps kstack d).bind fun _ _ => .done le_rfl trivial
    · cases started

theorem pipealloc (started : s.pipealloc p i = some t) : ∃ now, t.Sound now := by
  unfold State.pipealloc at started
  split at started
  · cases started
    refine ⟨_, sound.movePipe 0 (Multiset.zero_le _) ?_⟩
    rintro _ ⟨⟩
    exact .take le_rfl (.done le_rfl trivial) fun page => .done (by simp [Outcome.frames]) trivial
  · cases started

/-- The reference counts of a pipe change. -/
theorem setPipe {pipe : Option Pipe} (same : pipeFrames pipe = pipeFrames (s.pipe i))
    : (s.setPipe i pipe).Sound part := by
  refine sound.less rfl rfl sound.small (fun _ => le_rfl) fun j => ?_
  by_cases other : j = i
  · subst other
    simp [State.setPipe, same]
  · simp [State.setPipe, update_of_ne other]

theorem filedup (duplicated : s.filedup i writable = some t) : t.Sound part := by
  unfold State.filedup at duplicated
  split at duplicated
  · rename_i found
    have same : ∀ page readers writers, pipeFrames (some ⟨some page, readers, writers⟩) = {page} :=
      fun _ _ _ => rfl
    split at duplicated <;> obtain ⟨_, ⟨⟩⟩ := Option.ite_none_left_eq_some.mp duplicated
    · exact sound.setPipe (by rw [found, same, same])
    · exact sound.setPipe (by rw [found, same, same])
  · cases duplicated

theorem fileclose (closed : s.fileclose p i writable = some t) : ∃ now, t.Sound now := by
  unfold State.fileclose at closed
  split at closed
  · rename_i page _ _ found
    split at closed
    · cases closed
    · cases closed
      refine ⟨_, sound.movePipe {page} ?_ ?_⟩
      · rw [found]
        exact Multiset.le_add_right ..
      · rintro _ ⟨⟩
        have gives : Backed (.give [] page (.done .closed)) (0 + {page}) :=
          .give le_rfl (.done le_rfl trivial)
        rwa [zero_add] at gives
    · cases closed
      exact ⟨part, sound.setPipe (by rw [found]; rfl)⟩
  · cases closed

theorem tick {fails : Bool} {code after : Code Outcome} {left : List Frame}
    (running : s.call p = some code) (ticked : code.tick fails s.freelist = some (left, after))
    : ∃ now, { s.setCall p (some after) with freelist := left }.Sound now := by
  obtain ⟨now, backed, same⟩ := (sound.backed p code running).tick ticked
  refine ⟨_, sound.move now (x := .free) Place.noConfusion sound.small
    (fun other => absurd rfl other) (fun _ _ => rfl) (fun _ _ => rfl) same.le
    (fun q other => update_of_ne other ..) ?_⟩
  simpa [setCall] using backed

theorem finish {outcome : Outcome} (running : s.call p = some (.done outcome))
    : ∃ now, (s.finish p outcome).Sound now := by
  have backed := sound.backed p _ running
  obtain ⟨has, small⟩ | _ := backed
  have idle : ∀ code ∈ (none : Option (Code Outcome)), Backed code 0 := fun _ member => by
    cases member
  have unchanged : ∀ frames : Multiset Frame, frames + 0 ≤ frames + part p := fun _ =>
    add_le_add le_rfl (Multiset.zero_le _)
  cases outcome with
  | space d sz =>
    refine ⟨_, sound.moveProc 0 (q := p) small ?_ idle⟩
    rw [Process.frames, Process.frames, add_zero]
    exact add_le_add (Multiset.le_add_right ..) has
  | child np parent made =>
    cases made with
    | none => exact ⟨_, sound.moveProc 0 (q := np) (sound.small np) (unchanged _) idle⟩
    | some r =>
      refine ⟨_, sound.moveProc 0 (q := np) (small r rfl) ?_ idle⟩
      rw [add_zero]
      exact has.trans (Multiset.le_add_left ..)
  | reaped q => exact ⟨_, sound.moveProc 0 (q := q) (sound.small q) (unchanged _) idle⟩
  | pipe i page =>
    cases page with
    | none => exact ⟨_, sound.movePipe 0 (i := i) (Multiset.zero_le _) idle⟩
    | some page =>
      refine ⟨_, sound.movePipe 0 (i := i) ?_ idle⟩
      rw [add_zero]
      exact has.trans (Multiset.le_add_left ..)
  | closed =>
    refine ⟨_, sound.move 0 (x := .free) (p := p) Place.noConfusion sound.small
      (fun _ => rfl) (fun _ _ => rfl) (fun _ _ => rfl) (unchanged _)
      (fun q other => update_of_ne other ..) ?_⟩
    simp [State.finish, setCall]

theorem start {call : Call} (started : s.start p call = some t) : ∃ now, t.Sound now := by
  cases call with
  | sbrk n => exact sound.resize (fun d sz small => growproc_keeps small n d) started
  | exec program => exact sound.resize (fun d sz small => exec_keeps d small program) started
  | fork => exact sound.startFork started
  | exit => exact ⟨part, sound.exit started⟩
  | wait => exact sound.wait started
  | pipe i => exact sound.pipealloc started
  | close i writable => exact sound.fileclose started

theorem step {label : Label} (stepped : s.step label = some t)
    : ∃ now, t.Sound now := by
  cases label with
  | start p call =>
    obtain ⟨-, started⟩ := Option.ite_none_right_eq_some.mp stepped
    exact sound.start started
  | tick p fails =>
    simp only [State.step] at stepped
    split at stepped
    · cases stepped
    · rename_i code running
      obtain ⟨r, ticked, rfl⟩ := Option.map_eq_some_iff.mp stepped
      exact sound.tick running ticked
  | finish p =>
    simp only [State.step] at stepped
    split at stepped
    · rename_i outcome running
      cases stepped
      exact sound.finish running
    · cases stepped
  | dup i writable => exact ⟨part, sound.filedup stepped⟩

end

end State.Sound

variable {freelist : List Frame} {s : State}

theorem boot_sound (distinct : freelist.Nodup)
    : (State.boot freelist).Sound fun _ => 0 where
  small := fun _ => zero_small
  once := by
    rw [Finset.sum_eq_single Place.free]
    · exact Multiset.coe_nodup.mpr distinct
    · intro x _ other
      cases x with
      | free => exact absurd rfl other
      | proc | call | pipe => rfl
    · exact fun outside => absurd (Finset.mem_univ _) outside
  backed := by
    intro p code running
    obtain ⟨-, ⟨⟩⟩ := Option.ite_none_right_eq_some.mp running
    exact userinit_keeps.bind fun r small => .done le_rfl (by simpa [Outcome.Small] using small)

theorem run_sound (distinct : freelist.Nodup) {labels : List Label}
    (reached : run State.step labels (State.boot freelist) = some s)
    : ∃ part, s.Sound part :=
  run_invariant (motive := fun s => ∃ part, s.Sound part)
    (fun _ _ _ ⟨_, sound⟩ stepped => sound.step stepped) ⟨_, boot_sound distinct⟩ reached

/-! One owner. -/

/-- The pages in each place. A kernel stack, a page directory, each of its page tables, each
mapping and a pipe count once for each of them.
-/
def State.pagesAt (s : State) : Place → Multiset Frame
  | .free => s.freelist
  | .proc p => (s.proc p).frames
  | .call p => (s.call p).elim 0 (Prog.uses Piece.frames Outcome.frames)
  | .pipe i => pipeFrames (s.pipe i)

/-- The page that page `v` of the user part is mapped to. -/
def Dir.mapped (d : Dir) (v : Nat) : Option Frame :=
  (d.user (v / npdentries)).bind fun t => t.entry (v % npdentries)

/-- No page is free and in use or has two owners, no free page is freed, and two processes have
no page in common.
-/
structure State.OneOwner (s : State) : Prop where
  once : (∑ x, s.pagesAt x).Nodup
  freed : ∀ p shown page next, s.call p = some (.give shown page next) → page ∉ s.freelist
  apart : ∀ p q, p ≠ q → ∀ d ∈ (s.proc p).pgdir, ∀ e ∈ (s.proc q).pgdir,
    ∀ u < userPages, ∀ v < userPages, ∀ page ∈ d.mapped u, e.mapped v ≠ some page

theorem Dir.mem_frames {d : Dir} {v : Nat} (user : v < userPages) {page : Frame}
    (maps : page ∈ d.mapped v) : page ∈ d.frames := by
  obtain ⟨t, table, entry⟩ := Option.bind_eq_some_iff.mp maps
  have entries := le_upTo (Nat.mod_lt v (by decide : 0 < npdentries)) fun j => held (t.entry j)
  have tables := le_upTo (table_index user) fun i => tableFrames (d.user i)
  rw [entry, held_some, Multiset.singleton_le] at entries
  rw [table, tableFrames_some] at tables
  have inTable : page ∈ t.frames := Multiset.mem_add.mpr (.inr entries)
  exact Multiset.mem_add.mpr (.inl (Multiset.mem_add.mpr (.inr (Multiset.mem_of_le tables inTable))))

theorem State.Sound.pagesAt_le {part : Slot → Multiset Frame} (sound : s.Sound part) (x : Place)
    : s.pagesAt x ≤ s.holding part x := by
  cases x with
  | free | proc | pipe => exact le_rfl
  | call p =>
    cases running : s.call p with
    | none =>
      rw [State.pagesAt, running]
      exact Multiset.zero_le _
    | some code =>
      rw [State.pagesAt, running]
      exact (sound.backed p code running).uses_le

/-- In every run from a free list in which no page is twice, every page has one owner. -/
theorem pages_have_one_owner {freelist : List Frame} (distinct : freelist.Nodup)
    {labels : List Label} {s : State}
    (reached : run State.step labels (State.boot freelist) = some s) : s.OneOwner := by
  obtain ⟨part, sound⟩ := run_sound distinct reached
  have once : (∑ x, s.pagesAt x).Nodup :=
    Multiset.nodup_of_le (Finset.sum_le_sum fun x _ => sound.pagesAt_le x) sound.once
  refine ⟨once, ?_, ?_⟩
  · intro p shown page next frees
    have inUse : page ∈ s.pagesAt (.call p) := by
      rw [State.pagesAt, frees]
      exact Multiset.mem_add.mpr (.inr (Multiset.mem_singleton_self page))
    exact notMem_of_nodup_sum once Place.noConfusion inUse (b := .free)
  · intro p q other d first e second u inUser v inUser' page maps shared
    have mine : page ∈ s.pagesAt (.proc p) :=
      Multiset.mem_add.mpr (.inr (by rw [first]; exact Dir.mem_frames inUser maps))
    have theirs : page ∈ s.pagesAt (.proc q) :=
      Multiset.mem_add.mpr (.inr (by rw [second]; exact Dir.mem_frames inUser' shared))
    exact notMem_of_nodup_sum once (fun same => other (Place.proc.inj same)) mine theirs

/-- The first process grows and makes a pipe, and its `fork` finds too few pages for a page
directory.
-/
def failedFork : List Label :=
  List.replicate 68 (.tick 0 false)
  ++ [.finish 0, .start 0 (.sbrk 4096), .tick 0 false, .finish 0]
  ++ [.start 0 (.pipe 3), .tick 0 false, .finish 0, .dup 3 true, .start 0 .fork]
  ++ List.replicate 61 (.tick 0 false) ++ [.finish 0]

theorem failedFork_gives_back
    : ∃ s, run State.step failedFork (State.boot (List.range 100)) = some s
      ∧ s.freelist.length = 30 ∧ (s.proc 0).pgdir.bind (·.mapped 1) = some 68 ∧ s.OneOwner := by
  obtain ⟨s, reached, free, mapped⟩ :
      ∃ s ∈ run State.step failedFork (State.boot (List.range 100)),
        s.freelist.length = 30 ∧ (s.proc 0).pgdir.bind (·.mapped 1) = some 68 := by
    decide +kernel
  exact ⟨s, reached, free, mapped, pages_have_one_owner List.nodup_range reached⟩

end Xv6.Kalloc
