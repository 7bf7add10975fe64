import Xv6.Proc.Table

/-! Processes on several CPUs, from `proc.c`.
What runs with `ptable.lock` held is one step, up to and including the switch to or from the
scheduler. `fork` and `clone` hold the lock only while they look for a slot and while they make
it `RUNNABLE`, so they take several steps, between which other processes run.
-/

namespace Xv6.Sched

open Xv6.Proc (ProcState initproc)
open Function (update)

abbrev Slot := Fin nproc

/-- What a process sleeps on: a `struct proc`, or another address. -/
inductive Chan where
  | proc (p : Slot)
  | address (a : UInt32)
  deriving DecidableEq

/-- The fields of `struct proc` that are read here. -/
structure Proc where
  state : ProcState
  pid : Int32
  priority : Int32
  parent : Option Slot
  chan : Option Chan
  killed : Bool
  isthread : Bool
  kstack : Option Nat
  stime : Int32
  retime : Int32
  rutime : Int32
  deriving DecidableEq

inductive Reaper where
  | wait
  | wait2
  | join
  deriving DecidableEq

/-- How far `fork` or `clone` is with its slot: `allocproc` has found it, has a kernel stack for
it, or it needs only become `RUNNABLE`.
-/
inductive Stage where
  | found
  | stacked
  | filled
  deriving DecidableEq

/-- The calls in which a process can be between two steps: `fork` or, for a thread, `clone`, and
the calls that sleep until a child exits.
-/
inductive Call where
  | making (np : Slot) (thread : Bool) (stage : Stage)
  | reaping (reaper : Reaper)
  deriving DecidableEq

/-- Who has a page: the free list, a process as its kernel stack, or other parts of the kernel. -/
inductive PageUse where
  | free
  | stack
  | other
  deriving DecidableEq

variable {κ : Type}

/-- `cpu` has the field `proc` of every CPU. -/
structure State (κ : Type) where
  proc : Slot → Proc
  cpu : κ → Option Slot
  call : Slot → Option Call
  nextpid : Int32
  page : Nat → PageUse

namespace State

def edit (s : State κ) (p : Slot) (f : Proc → Proc) : State κ :=
  { s with proc := update s.proc p (f (s.proc p)) }

/-- A change of the whole process table. -/
def sweep (s : State κ) (f : Slot → Proc → Proc) : State κ :=
  { s with proc := fun q => f q (s.proc q) }

def setCall (s : State κ) (p : Slot) (call : Option Call) : State κ :=
  { s with call := update s.call p call }

def setCpu [DecidableEq κ] (s : State κ) (c : κ) (p : Option Slot) : State κ :=
  { s with cpu := update s.cpu c p }

def setPage (s : State κ) (k : Nat) (use : PageUse) : State κ :=
  { s with page := update s.page k use }

section Fields

variable (s : State κ) (p q : Slot) (c : κ) (k : Nat) (f : Proc → Proc)
  (g : Slot → Proc → Proc) (call : Option Call) (r : Option Slot) (use : PageUse)

@[simp, grind =] theorem edit_proc : (s.edit p f).proc q = if q = p then f (s.proc q) else s.proc q := by
  by_cases same : q = p
  · subst same
    simp [edit]
  · simp [edit, same]

@[simp] theorem edit_cpu : (s.edit p f).cpu = s.cpu := rfl
@[simp] theorem edit_call : (s.edit p f).call = s.call := rfl
@[simp] theorem edit_page : (s.edit p f).page = s.page := rfl

@[simp, grind =] theorem sweep_proc : (s.sweep g).proc q = g q (s.proc q) := rfl
@[simp] theorem sweep_cpu : (s.sweep g).cpu = s.cpu := rfl
@[simp] theorem sweep_call : (s.sweep g).call = s.call := rfl

@[simp, grind =] theorem setCall_proc : (s.setCall p call).proc q = s.proc q := rfl
@[simp] theorem setCall_cpu : (s.setCall p call).cpu = s.cpu := rfl
@[simp] theorem setCall_call : (s.setCall p call).call = update s.call p call := rfl
@[simp] theorem setCall_page : (s.setCall p call).page = s.page := rfl

@[simp, grind =] theorem setPage_proc : (s.setPage k use).proc q = s.proc q := rfl
@[simp] theorem setPage_cpu : (s.setPage k use).cpu = s.cpu := rfl
@[simp] theorem setPage_call : (s.setPage k use).call = s.call := rfl
@[simp] theorem setPage_page : (s.setPage k use).page = update s.page k use := rfl

variable [DecidableEq κ]

@[simp, grind =] theorem setCpu_proc : (s.setCpu c r).proc q = s.proc q := rfl
@[simp] theorem setCpu_cpu : (s.setCpu c r).cpu = update s.cpu c r := rfl
@[simp] theorem setCpu_call : (s.setCpu c r).call = s.call := rfl

end Fields

end State

/-! Creating processes. -/

/-- The search of `allocproc`. -/
def State.unused (s : State κ) : Option Slot :=
  (List.finRange nproc).find? fun q => (s.proc q).state = .unused

/-- `allocproc` from `found` to the release of the lock, for `p` that makes a process or thread. -/
def claim (s : State κ) (p np : Slot) (thread : Bool) : State κ :=
  let found := s.edit np fun proc =>
    { proc with state := .embryo, priority := 10, pid := s.nextpid }
  { found with nextpid := s.nextpid + 1 }.setCall p (some (.making np thread .found))

/-- `allocproc` up to the release of the lock; with no unused slot the call fails. -/
def allocproc (s : State κ) (p : Slot) (thread : Bool) : State κ :=
  match s.unused with
  | none => s
  | some np => claim s p np thread

/-- `kfree` of a kernel stack. -/
def State.kfree (s : State κ) : Option Nat → State κ
  | none => s
  | some k => s.setPage k .free

/-- `fork` or `clone` gives its slot back. -/
def giveBack (s : State κ) (p np : Slot) : State κ :=
  (s.edit np fun proc => { proc with kstack := none, state := .unused }).setCall p none

/-- The kernel stack of a new process. -/
def setStack (s : State κ) (p np : Slot) (thread : Bool) (k : Nat) : State κ :=
  ((s.edit np fun proc => { proc with kstack := some k }).setPage k .stack).setCall p
    (some (.making np thread .stacked))

/-- The `kalloc` of `allocproc`, which may give any free page. -/
def allocStack (s : State κ) (p np : Slot) (thread : Bool) : Option Nat → Option (State κ)
  | none => some (giveBack s p np)
  | some k => if s.page k = .free then some (setStack s p np thread k) else none

/-- `fork` after `copyuvm` has succeeded, until it takes the lock. -/
def fillFork (s : State κ) (p np : Slot) : State κ :=
  (s.edit np fun proc => { proc with parent := some p }).setCall p
    (some (.making np false .filled))

/-- `fork` after `copyuvm` has failed. -/
def abandon (s : State κ) (p np : Slot) : State κ := giveBack (s.kfree (s.proc np).kstack) p np

/-- `clone` after `allocproc` until it takes the lock. -/
def fillClone (s : State κ) (p np : Slot) : State κ :=
  (s.edit np fun proc => { proc with parent := some p, isthread := true }).setCall p
    (some (.making np true .filled))

/-- The last section of `fork` and `clone`. -/
def publish (s : State κ) (p np : Slot) : State κ :=
  (s.edit np fun proc => { proc with state := .runnable }).setCall p none

/-! Switching. -/

section Switching

variable [DecidableEq κ]

/-- A process changes and calls `sched`; the scheduler clears `c->proc`. -/
def sched (s : State κ) (c : κ) (p : Slot) (f : Proc → Proc) : State κ :=
  (s.edit p f).setCpu c none

def yield (s : State κ) (c : κ) (p : Slot) : State κ :=
  sched s c p fun proc => { proc with state := .runnable }

def sleep (s : State κ) (c : κ) (p : Slot) (chan : Chan) : State κ :=
  sched s c p fun proc => { proc with chan := some chan, state := .sleeping }

/-- A process that `wakeup1` looks at. -/
def Proc.wake (chan : Option Chan) (proc : Proc) : Proc :=
  { proc with
    state := if proc.state = .sleeping ∧ proc.chan = chan then .runnable else proc.state }

def wakeup1 (s : State κ) (chan : Option Chan) : State κ := s.sweep fun _ => Proc.wake chan

/-- One pass of the loop in which `exit` hands over the children of `p`. -/
def handOver (p : Slot) (s : State κ) (q : Slot) : State κ :=
  if (s.proc q).parent = some p then
    let given := s.edit q fun proc => { proc with parent := some initproc }
    if (s.proc q).state = .zombie then wakeup1 given (some (.proc initproc)) else given
  else s

/-- The last section of `exit`. -/
def exit (s : State κ) (c : κ) (p : Slot) : State κ :=
  let woken := wakeup1 s ((s.proc p).parent.map .proc)
  let given := (List.finRange nproc).foldl (handOver p) woken
  sched given c p fun proc => { proc with state := .zombie }

/-! Reaping. -/

/-- The slots that a reaper called by `p` looks at; `join` passes over all but threads. -/
def State.children (s : State κ) (reaper : Reaper) (p : Slot) : List Slot :=
  (List.finRange nproc).filter fun q =>
    (s.proc q).parent = some p ∧ (reaper = .join → (s.proc q).isthread = true)

def State.zombieChild (s : State κ) (reaper : Reaper) (p : Slot) : Option Slot :=
  (s.children reaper p).find? fun q => (s.proc q).state = .zombie

/-- What a reaper leaves in the slot; `wait2` clears the times and the priority also. -/
def Proc.cleared (proc : Proc) : Reaper → Proc
  | .wait | .join =>
      { proc with kstack := none, pid := 0, parent := none, killed := false, state := .unused }
  | .wait2 =>
      { proc with
        kstack := none, pid := 0, parent := none, killed := false, state := .unused
        retime := 0, rutime := 0, stime := 0, priority := 0 }

def reap (s : State κ) (reaper : Reaper) (q : Slot) : State κ :=
  (s.kfree (s.proc q).kstack).edit q fun proc => proc.cleared reaper

/-- One pass of the loop of `wait`, `wait2` and `join` by `p` on CPU `c`: it reaps the first
zombie, fails, or goes to sleep.
-/
def scan (s : State κ) (reaper : Reaper) (c : κ) (p : Slot) : State κ :=
  match s.zombieChild reaper p with
  | some q => (reap s reaper q).setCall p none
  | none =>
      if s.children reaper p = [] ∨ (s.proc p).killed then s.setCall p none
      else (sleep s c p (.proc p)).setCall p (some (.reaping reaper))

/-- What `wait2` called by `p` returns and stores in `*retime`, `*rutime` and `*stime` when its
loop finds a zombie.
-/
def wait2Result (s : State κ) (p : Slot) : Option (Int32 × Int32 × Int32 × Int32) :=
  (s.zombieChild .wait2 p).map fun q =>
    ((s.proc q).pid, (s.proc q).retime, (s.proc q).rutime, (s.proc q).stime)

/-- The scheduler's switch to `p`. One that resumes inside `sleep` clears `chan`, which otherwise
is 0 already.
-/
def resume (s : State κ) (c : κ) (p : Slot) : State κ :=
  (s.edit p fun proc => { proc with state := .running, chan := none }).setCpu c (some p)

/-- A process that resumes inside a reaper goes round its loop before it releases the lock. -/
def switch (s : State κ) (c : κ) (p : Slot) : State κ :=
  match s.call p with
  | some (.reaping reaper) => scan (resume s c p) reaper c p
  | some (.making ..) | none => resume s c p

end Switching

/-! Other calls. -/

/-- The loop of `kill` and `setpriority` over the table. -/
def State.named (s : State κ) (pid : Int32) : Option Slot :=
  (List.finRange nproc).find? fun q => (s.proc q).pid = pid

/-- The process that `kill` finds. -/
def Proc.hit (proc : Proc) : Proc :=
  { proc with
    killed := true
    state := if proc.state = .sleeping then .runnable else proc.state }

def kill (s : State κ) (pid : Int32) : State κ × Int32 :=
  match s.named pid with
  | none => (s, -1)
  | some q => (s.edit q Proc.hit, 0)

def setpriority (s : State κ) (pid priority : Int32) : State κ × Int32 :=
  if priority < 1 ∨ priority > 20 then (s, -1)
  else
    match s.named pid with
    | none => (s, -1)
    | some q => (s.edit q fun proc => { proc with priority }, 0)

/-- A process that `update_statistics` looks at. -/
def Proc.tick (proc : Proc) : Proc :=
  match proc.state with
  | .sleeping => { proc with stime := proc.stime + 1 }
  | .runnable => { proc with retime := proc.retime + 1 }
  | .running => { proc with rutime := proc.rutime + 1 }
  | .unused | .embryo | .zombie => proc

def updateStatistics (s : State κ) : State κ := s.sweep fun _ => Proc.tick

/-! Steps. -/

/-- `switch` is the choice of `ready_process`. `take` and `give` are `kalloc` and `kfree` by other
parts of the kernel, and `wakeup` may come from an interrupt.
-/
inductive Label (κ : Type) where
  | switch (c : κ) (p : Slot)
  | yield (c : κ)
  | sleep (c : κ) (a : UInt32)
  | wakeup (a : UInt32)
  | allocproc (c : κ) (thread : Bool)
  | allocStack (c : κ) (page : Option Nat)
  | fill (c : κ) (copied : Bool)
  | publish (c : κ)
  | exit (c : κ)
  | scan (c : κ) (reaper : Reaper)
  | kill (c : κ) (pid : Int32)
  | setpriority (c : κ) (pid priority : Int32)
  | tick
  | take (k : Nat)
  | give (k : Nat)

/-- A step of the process that runs on `c`, which depends on the call it is in. -/
def State.on (s : State κ) (c : κ) (f : Slot → Option Call → Option (State κ))
    : Option (State κ) :=
  match s.cpu c with
  | none => none
  | some p => f p (s.call p)

def State.step [DecidableEq κ] (s : State κ) : Label κ → Option (State κ)
  | .switch c p =>
      if s.cpu c = none ∧ (s.proc p).state = .runnable then some (Sched.switch s c p) else none
  | .yield c => s.on c fun p _ => some (Sched.yield s c p)
  | .sleep c a =>
      s.on c fun p call =>
        if call = none then some (Sched.sleep s c p (.address a)) else none
  | .wakeup a => some (wakeup1 s (some (.address a)))
  | .allocproc c thread =>
      s.on c fun p call => if call = none then some (Sched.allocproc s p thread) else none
  | .allocStack c page =>
      s.on c fun p call =>
        match call with
        | some (.making np thread .found) => Sched.allocStack s p np thread page
        | _ => none
  | .fill c copied =>
      s.on c fun p call =>
        match call with
        | some (.making np false .stacked) =>
            some (if copied then fillFork s p np else abandon s p np)
        | some (.making np true .stacked) => some (fillClone s p np)
        | _ => none
  | .publish c =>
      s.on c fun p call =>
        match call with
        | some (.making np _ .filled) => some (Sched.publish s p np)
        | _ => none
  | .exit c =>
      -- `exit` panics in `initproc`.
      s.on c fun p call =>
        if call = none ∧ p ≠ initproc then some (Sched.exit s c p) else none
  | .scan c reaper =>
      s.on c fun p call => if call = none then some (Sched.scan s reaper c p) else none
  | .kill c pid =>
      s.on c fun _ call => if call = none then some (Sched.kill s pid).1 else none
  | .setpriority c pid priority =>
      s.on c fun _ call =>
        if call = none then some (Sched.setpriority s pid priority).1 else none
  | .tick => some (updateStatistics s)
  | .take k => if s.page k = .free then some (s.setPage k .other) else none
  | .give k => if s.page k = .other then some (s.setPage k .free) else none

/-- After `userinit`, when no CPU has a process yet. -/
def State.boot (kstack : Nat) : State κ where
  proc := fun p =>
    { state := if p = initproc then .runnable else .unused
      pid := if p = initproc then 1 else 0
      priority := if p = initproc then 10 else 0
      parent := none
      chan := none
      killed := false
      isthread := false
      kstack := if p = initproc then some kstack else none
      stime := 0
      retime := 0
      rutime := 0 }
  cpu := fun _ => none
  call := fun _ => none
  nextpid := 2
  page := fun k => if k = kstack then .stack else .free

end Xv6.Sched
