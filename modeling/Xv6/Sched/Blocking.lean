import Xv6.Pipe.Model
import Xv6.Sched.Cpus
import Xv6.Sem.Model

/-! One process in the system calls that block, and `kill`.
A section of a call goes from where it has its lock to its next `sleep` or its end. Everything that
other processes and interrupts do in between is an arbitrary change of the data.
-/

namespace Xv6.Blocking

open Xv6.Lib
open Xv6.Sched (Slot Reaper)

abbrev inputBuf : Nat := 128

/-- The fields of `struct pipe` besides its lock. -/
structure PipeData where
  ring : Ring UInt8 Pipe.pipesize
  readopen : Bool
  writeopen : Bool

/-- The data that the calls look at: `ticks`, the pipes by their addresses, the console's input
between `r` and `w`, the semaphores and the process table.
-/
structure Kernel (κ : Type) where
  ticks : UInt32
  pipe : UInt32 → PipeData
  input : Ring UInt8 inputBuf
  sem : Sem.SemState Slot
  table : Sched.State κ

/-- A call that sleeps in its loop, with its variables. `consoleread` still wants `n` of its
`target` bytes.
-/
inductive Call where
  | sysSleep (ticks0 : UInt32) (n : Int32)
  | piperead (pipe : UInt32) (n : Int32)
  | pipewrite (pipe : UInt32) (i : Nat) (n : Int32)
  | consoleread (target n : Nat)
  | reap (reaper : Reaper)
  | semWait (sem : Fin 32) (count : Int32)
  deriving DecidableEq

/-- How a section ends: it goes to sleep, the call returns, or it takes the inode's lock again to
return.
-/
inductive Outcome where
  | sleeps (call : Call)
  | returns (ret : Int32)
  | ilocks (ret : Int32)
  deriving DecidableEq

/-! The loops. -/

/-- The loop of `sys_sleep`. The comparison is unsigned. -/
def sysSleep (ticks : UInt32) (killed : Bool) (ticks0 : UInt32) (n : Int32) : Outcome :=
  if ticks - ticks0 < n.toUInt32 then
    if killed then .returns (-1) else .sleeps (.sysSleep ticks0 n)
  else .returns 0

def piperead (pipe : PipeData) (killed : Bool) (addr : UInt32) (n : Int32)
    : PipeData × Outcome :=
  if pipe.ring.isEmpty && pipe.writeopen then
    (pipe, if killed then .returns (-1) else .sleeps (.piperead addr n))
  else
    let loop := Pipe.copyLoop n.toInt.toNat pipe.ring
    ({ pipe with ring := loop.1 }, .returns (Int32.ofNat loop.2.length))

def pipewrite (pipe : PipeData) (killed : Bool) (user : Nat → UInt8) (addr : UInt32) (i : Nat)
    (n : Int32)
    : PipeData × Outcome :=
  let loop := Pipe.storeLoop user (n.toInt - i).toNat i pipe.ring
  let next := if (loop.2.1 : Int) < n.toInt then
      if !pipe.readopen || killed then .returns (-1) else .sleeps (.pipewrite addr loop.2.1 n)
    else .returns n
  ({ pipe with ring := loop.1 }, next)

/-- The loop of `consoleread`, which ends at `^D` (4) and after a newline. -/
def consoleLoop (killed : Bool) (target : Nat)
    : Nat → Ring UInt8 inputBuf → Ring UInt8 inputBuf × Outcome
  | 0, input => (input, .ilocks (Int32.ofNat target))
  | n + 1, input =>
      if input.isEmpty then
        (input, if killed then .ilocks (-1) else .sleeps (.consoleread target (n + 1)))
      else if input.front = 4 then
        -- `^D` stays in the buffer unless it is the first byte.
        (if n + 1 < target then input else input.drop, .ilocks (Int32.ofNat (target - (n + 1))))
      else if input.front = 10 then (input.drop, .ilocks (Int32.ofNat (target - n)))
      else consoleLoop killed target n input.drop

variable {κ : Type}
variable {p : Slot} {k : Kernel κ}

/-- One pass of the loop of `wait`, `wait2` and `join` by `p`. -/
def reap (table : Sched.State κ) (p : Slot) (reaper : Reaper) : Sched.State κ × Outcome :=
  match table.zombieChild reaper p with
  | some q => (Sched.reap table reaper q, .returns (table.proc q).pid)
  | none =>
      if table.children reaper p = [] ∨ (table.proc p).killed then (table, .returns (-1))
      else (table, .sleeps (.reap reaper))

/-- `sem_wait` from its test of `active`. -/
def semWait (sem : Sem.SemState Slot) (p : Slot) (i : Fin 32) (count : Int32)
    : Sem.SemState Slot × Outcome :=
  let done := Sem.semResume sem p i count
  (done.1, match done.2 with | none => .sleeps (.semWait i count) | some ret => .returns ret)

/-- The section of a call of process `p`. -/
def Call.section (k : Kernel κ) (p : Slot) (user : Nat → UInt8) : Call → Kernel κ × Outcome
  | .sysSleep ticks0 n => (k, Blocking.sysSleep k.ticks (k.table.proc p).killed ticks0 n)
  | .piperead addr n =>
      let done := Blocking.piperead (k.pipe addr) (k.table.proc p).killed addr n
      ({ k with pipe := Function.update k.pipe addr done.1 }, done.2)
  | .pipewrite addr i n =>
      let done := Blocking.pipewrite (k.pipe addr) (k.table.proc p).killed user addr i n
      ({ k with pipe := Function.update k.pipe addr done.1 }, done.2)
  | .consoleread target n =>
      let done := consoleLoop (k.table.proc p).killed target n k.input
      ({ k with input := done.1 }, done.2)
  | .reap reaper =>
      let done := Blocking.reap k.table p reaper
      ({ k with table := done.1 }, done.2)
  | .semWait i count =>
      let done := Blocking.semWait k.sem p i count
      ({ k with sem := done.1 }, done.2)

/-! The process. -/

inductive Request where
  | sysSleep (n : Int32)
  | piperead (pipe : UInt32) (n : Int32)
  | pipewrite (pipe : UInt32) (n : Int32)
  | consoleread (n : Int32)
  | reap (reaper : Reaper)
  | semWait (sem count : Int32)

/-- The loop that a request starts; `sem_wait` fails before it for a bad number. -/
def Request.call (k : Kernel κ) : Request → Option Call
  | .sysSleep n => some (.sysSleep k.ticks n)
  | .piperead addr n => some (.piperead addr n)
  | .pipewrite addr n => some (.pipewrite addr 0 n)
  | .consoleread n => some (.consoleread n.toInt.toNat n.toInt.toNat)
  | .reap reaper => some (.reap reaper)
  | .semWait sem count => (Sem.index sem).map (.semWait · count)

/-- Where the process is. In `dozing` it has decided to sleep and still holds the lock of its call;
in `asleep` it is `SLEEPING` or `RUNNABLE`; in `woken` it has been switched to.
-/
inductive Status where
  | outside
  | dozing (call : Call)
  | asleep (call : Call)
  | woken (call : Call)
  | ilocking (ret : Int32)
  | returned (ret : Int32)
  | exited
  deriving DecidableEq

def Outcome.status : Outcome → Status
  | .sleeps call => .dozing call
  | .returns ret => .returned ret
  | .ilocks ret => .ilocking ret

/-- `warned` records that the process has been resumed in its call with `killed` set; no step
looks at it.
-/
structure Caller (κ : Type) where
  kernel : Kernel κ
  status : Status
  warned : Bool

inductive Label (κ : Type) where
  | enter (request : Request) (user : Nat → UInt8)
  | sleep
  | wakeup
  | kill (pid : Int32)
  | change (kernel : Kernel κ)
  | switch
  | resume (user : Nat → UInt8)
  | ilock
  | trapret

def Kernel.proc (k : Kernel κ) (p : Slot) : Sched.Proc := k.table.proc p

def Kernel.setState (k : Kernel κ) (p : Slot) (state : Proc.ProcState) : Kernel κ :=
  { k with table := k.table.edit p fun proc => { proc with state := state } }

/-- The process holds `ptable.lock`, and so nobody else changes the table. -/
def Status.holdsTable : Status → Bool
  | .dozing (.reap _) => true
  | _ => false

/-- Steps of process `p` and of what goes on around it. A change by others does not make `p` run or
sleep and keeps its `killed`; it may be woken at any time.
-/
def Caller.step (p : Slot) (s : Caller κ) : Label κ → Option (Caller κ)
  | .enter request user =>
      if s.status = .outside then
        match request.call s.kernel with
        | none => some { s with status := .returned (-1), warned := false }
        | some call =>
            let done := call.section s.kernel p user
            some ⟨done.1, done.2.status, false⟩
      else none
  | .sleep =>
      match s.status with
      | .dozing call =>
          some { s with kernel := s.kernel.setState p .sleeping, status := .asleep call }
      | _ => none
  | .wakeup =>
      if (s.kernel.proc p).state = .sleeping then
        some { s with kernel := s.kernel.setState p .runnable }
      else none
  | .kill pid =>
      if s.status.holdsTable then none
      else
        some { s with kernel := { s.kernel with table := (Sched.kill s.kernel.table pid).1 } }
  | .change kernel =>
      if (kernel.proc p).state = (s.kernel.proc p).state
          ∧ (kernel.proc p).killed = (s.kernel.proc p).killed then
        some { s with kernel := kernel }
      else none
  | .switch =>
      match s.status with
      | .asleep call =>
          if (s.kernel.proc p).state = .runnable then
            some
              ⟨s.kernel.setState p .running, .woken call, s.warned || (s.kernel.proc p).killed⟩
          else none
      | _ => none
  | .resume user =>
      match s.status with
      | .woken call =>
          let done := call.section s.kernel p user
          some { s with kernel := done.1, status := done.2.status }
      | _ => none
  | .ilock =>
      match s.status with
      | .ilocking ret => some { s with status := .returned ret }
      | _ => none
  | .trapret =>
      match s.status with
      | .returned _ =>
          some { s with status := if (s.kernel.proc p).killed then .exited else .outside }
      | _ => none

/-- The process is about to make a system call. -/
def Caller.start (kernel : Kernel κ) : Caller κ := ⟨kernel, .outside, false⟩

/-! When a killed process sleeps again. -/

/-- Asleep in its call, or about to be. -/
def Status.waits : Status → Bool
  | .dozing _ | .asleep _ => true
  | .outside | .woken _ | .ilocking _ | .returned _ | .exited => false

/-- `sem_wait` waits for more than the semaphore has. -/
def Call.Starves (k : Kernel κ) : Call → Prop
  | .semWait i count => (k.sem.sema i).active = true ∧ (k.sem.sema i).value < count
  | .sysSleep .. | .piperead .. | .pipewrite .. | .consoleread .. | .reap _ => False

instance (k : Kernel κ) (call : Call) : Decidable (call.Starves k) := by
  cases call <;> dsimp only [Call.Starves] <;> infer_instance

theorem sysSleep_killed (ticks ticks0 : UInt32) (n : Int32)
    : (sysSleep ticks true ticks0 n).status.waits = false := by
  unfold sysSleep
  split <;> rfl

theorem piperead_killed (pipe : PipeData) (addr : UInt32) (n : Int32)
    : (piperead pipe true addr n).2.status.waits = false := by
  unfold piperead
  split <;> rfl

theorem pipewrite_killed (pipe : PipeData) (user : Nat → UInt8) (addr : UInt32) (i : Nat)
    (n : Int32)
    : (pipewrite pipe true user addr i n).2.status.waits = false := by
  simp only [pipewrite, Bool.or_true, if_true]
  split <;> rfl

/-- The bytes that are there are read; then the loop looks at `killed`. -/
theorem consoleLoop_killed (target n : Nat) (input : Ring UInt8 inputBuf)
    : (consoleLoop true target n input).2.status.waits = false := by
  induction n generalizing input with
  | zero => rfl
  | succ n ih =>
    unfold consoleLoop
    split
    · rfl
    · split
      · rfl
      · split
        · rfl
        · exact ih input.drop

theorem reap_killed {table : Sched.State κ} (killed : (table.proc p).killed = true)
    (reaper : Reaper)
    : (reap table p reaper).2.status.waits = false := by
  unfold reap
  split
  · rfl
  · rw [if_pos (.inr killed)]
    rfl

/-- `sem_wait` does not look at `killed`. -/
theorem semWait_waits (k : Kernel κ) (p : Slot) (i : Fin 32) (count : Int32)
    : (semWait k.sem p i count).2.status.waits = true ↔ (Call.semWait i count).Starves k := by
  unfold semWait Sem.semResume Sem.waitLoop Call.Starves
  cases active : (k.sem.sema i).active with
  | false => simp [active, Outcome.status, Status.waits]
  | true =>
    by_cases short : (k.sem.sema i).value < count
    · simp [active, short, Outcome.status, Status.waits]
    · simp [active, short, Outcome.status, Status.waits]

/-- A call of a killed process goes back to sleep exactly if it is a `sem_wait` that starves. -/
theorem section_waits (killed : (k.proc p).killed = true) (user : Nat → UInt8) (call : Call)
    : (call.section k p user).2.status.waits = true ↔ call.Starves k := by
  have set : (k.table.proc p).killed = true := killed
  cases call with
  | sysSleep ticks0 n =>
    simp only [Call.section, Call.Starves, set, sysSleep_killed, Bool.false_eq_true]
  | piperead addr n =>
    simp only [Call.section, Call.Starves, set, piperead_killed, Bool.false_eq_true]
  | pipewrite addr i n =>
    simp only [Call.section, Call.Starves, set, pipewrite_killed, Bool.false_eq_true]
  | consoleread target n =>
    simp only [Call.section, Call.Starves, set, consoleLoop_killed, Bool.false_eq_true]
  | reap reaper =>
    simp only [Call.section, Call.Starves, reap_killed set, Bool.false_eq_true]
  | semWait i count => exact semWait_waits k p i count

/-! Runs. -/

/-- A process that is running is not among the zombies that it reaps. -/
theorem section_proc (running : (k.proc p).state = .running) (user : Nat → UInt8) (call : Call)
    : (call.section k p user).1.proc p = k.proc p := by
  cases call with
  | reap reaper =>
    have state : (k.table.proc p).state = .running := running
    simp only [Call.section, Kernel.proc, reap]
    split
    · rename_i q found
      have zombie := (Sched.State.zombieChild_spec found).1
      have other : p ≠ q := by
        rintro rfl
        exact absurd (state.symm.trans zombie) (by decide)
      rw [Sched.reap_proc, if_neg other]
    · split <;> rfl
  | sysSleep | piperead | pipewrite | consoleread | semWait => rfl

/-- The process runs unless it is asleep in its call, and once it has been warned `killed` stays
set.
-/
structure Sound (p : Slot) (s : Caller κ) : Prop where
  running : (∀ call, s.status ≠ .asleep call) → (s.kernel.proc p).state = .running
  killed : s.warned = true → (s.kernel.proc p).killed = true

variable {p : Slot} {s t : Caller κ}

@[simp] theorem Kernel.setState_proc (k : Kernel κ) (p : Slot) (state : Proc.ProcState)
    : (k.setState p state).proc p = { k.proc p with state := state } := by
  simp [setState, proc]

theorem kill_proc (table : Sched.State κ) (pid : Int32) (p : Slot)
    : ((table.proc p).state = .running → ((Sched.kill table pid).1.proc p).state = .running)
      ∧ ((table.proc p).killed = true → ((Sched.kill table pid).1.proc p).killed = true) := by
  unfold Sched.kill
  split
  · exact ⟨id, id⟩
  · simp only [Sched.State.edit_proc, Sched.Proc.hit]
    split
    · refine ⟨fun running => ?_, fun _ => rfl⟩
      simp [running]
    · exact ⟨id, id⟩

theorem Sound.step (sound : Sound p s) {label : Label κ} (stepped : s.step p label = some t)
    : Sound p t := by
  cases label with
  | enter request user =>
    obtain ⟨outside, entered⟩ := Option.ite_none_right_eq_some.mp stepped
    have running := sound.running (by simp [outside])
    split at entered
    · cases entered
      exact ⟨fun _ => running, by simp⟩
    · rename_i call _
      cases entered
      exact ⟨fun _ => (congrArg _ (section_proc running user call)).trans running, by simp⟩
  | sleep =>
    simp only [Caller.step] at stepped
    split at stepped
    · cases stepped
      exact ⟨fun awake => absurd rfl (awake _), by simpa using sound.killed⟩
    · cases stepped
  | wakeup =>
    obtain ⟨sleeping, ⟨⟩⟩ := Option.ite_none_right_eq_some.mp stepped
    refine ⟨fun awake => ?_, by simpa using sound.killed⟩
    exact absurd (sleeping.symm.trans (sound.running awake)) (by decide)
  | kill pid =>
    obtain ⟨-, ⟨⟩⟩ := Option.ite_none_left_eq_some.mp stepped
    obtain ⟨running, killed⟩ := kill_proc s.kernel.table pid p
    exact ⟨fun awake => running (sound.running awake), fun warned => killed (sound.killed warned)⟩
  | change kernel =>
    obtain ⟨⟨state, killed⟩, ⟨⟩⟩ := Option.ite_none_right_eq_some.mp stepped
    exact ⟨fun awake => state.trans (sound.running awake),
      fun warned => killed.trans (sound.killed warned)⟩
  | switch =>
    simp only [Caller.step] at stepped
    split at stepped
    · obtain ⟨-, ⟨⟩⟩ := Option.ite_none_right_eq_some.mp stepped
      refine ⟨fun _ => by simp, fun warned => ?_⟩
      simpa using (Bool.or_eq_true_iff.mp warned).elim sound.killed id
    · cases stepped
  | resume user =>
    simp only [Caller.step] at stepped
    split at stepped
    · rename_i call woken
      cases stepped
      have running := sound.running (by simp [woken])
      have same := section_proc running user call
      exact ⟨fun _ => (congrArg _ same).trans running,
        fun warned => (congrArg _ same).trans (sound.killed warned)⟩
    · cases stepped
  | ilock =>
    simp only [Caller.step] at stepped
    split at stepped
    · rename_i ret ilocking
      cases stepped
      exact ⟨fun _ => sound.running (by simp [ilocking]), sound.killed⟩
    · cases stepped
  | trapret =>
    simp only [Caller.step] at stepped
    split at stepped
    · rename_i ret returned
      cases stepped
      exact ⟨fun _ => sound.running (by simp [returned]), sound.killed⟩
    · cases stepped

/-- Once resumed with `killed` set, the process does not sleep in its call again. -/
def Caller.Leaves (s : Caller κ) : Prop := s.warned = true → s.status.waits = false

/-- The process resumes in a `sem_wait` that starves. -/
def Caller.Starves (s : Caller κ) : Prop :=
  match s.status with
  | .woken call => call.Starves s.kernel
  | _ => False

/-- A process that resumes with `killed` set is not in a `sem_wait` that starves. -/
def Spared (s : Caller κ) : Label κ → Prop
  | .resume _ => s.warned = true → ¬ s.Starves
  | .enter .. | .sleep | .wakeup | .kill _ | .change _ | .switch | .ilock | .trapret => True

instance (s : Caller κ) : Decidable s.Starves := by
  dsimp only [Caller.Starves]
  cases s.status <;> infer_instance

instance (s : Caller κ) (label : Label κ) : Decidable (Spared s label) := by
  cases label <;> dsimp only [Spared] <;> infer_instance

/-- The step that decides is the one that resumes. -/
theorem leaves_step_iff (sound : Sound p s) (leaves : s.Leaves) {label : Label κ}
    (stepped : s.step p label = some t)
    : t.Leaves ↔ Spared s label := by
  cases label with
  | enter request user =>
    obtain ⟨-, entered⟩ := Option.ite_none_right_eq_some.mp stepped
    split at entered
    all_goals
      cases entered
      simp [Caller.Leaves, Spared]
  | sleep =>
    simp only [Caller.step] at stepped
    split at stepped
    · rename_i call dozing
      cases stepped
      have fresh : s.warned ≠ true := fun warned => by
        simpa [dozing, Status.waits] using leaves warned
      exact iff_of_true (fun warned => absurd warned fresh) trivial
    · cases stepped
  | wakeup | change =>
    obtain ⟨-, ⟨⟩⟩ := Option.ite_none_right_eq_some.mp stepped
    exact iff_of_true leaves trivial
  | kill pid =>
    obtain ⟨-, ⟨⟩⟩ := Option.ite_none_left_eq_some.mp stepped
    exact iff_of_true leaves trivial
  | switch =>
    simp only [Caller.step] at stepped
    split at stepped
    · obtain ⟨-, ⟨⟩⟩ := Option.ite_none_right_eq_some.mp stepped
      exact iff_of_true (fun _ => rfl) trivial
    · cases stepped
  | resume user =>
    simp only [Caller.step] at stepped
    split at stepped
    · rename_i call woken
      cases stepped
      -- `killed` is still set, so the section waits only for a semaphore.
      refine forall_congr' fun warned => ?_
      rw [← Bool.not_eq_true, section_waits (sound.killed warned) user call]
      simp [Caller.Starves, woken]
    · cases stepped
  | ilock =>
    simp only [Caller.step] at stepped
    split at stepped
    · cases stepped
      exact iff_of_true (fun _ => rfl) trivial
    · cases stepped
  | trapret =>
    simp only [Caller.step] at stepped
    split at stepped
    · cases stepped
      refine iff_of_true (fun _ => ?_) trivial
      dsimp only
      split <;> rfl
    · cases stepped

theorem run_sound {kernel : Kernel κ} (running : (kernel.proc p).state = .running)
    {labels : List (Label κ)} (reached : run (Caller.step p) labels (.start kernel) = some s)
    : Sound p s :=
  run_invariant (motive := Sound p) (fun _ _ _ sound stepped => sound.step stepped)
    ⟨fun _ => running, by simp [Caller.start]⟩ reached

/-- A killed process gets out of every call but a `sem_wait` that starves: in each run it never
sleeps again in a call in which it has been resumed with `killed` set, and `trap` makes it exit
when the call has returned, exactly if no step resumes it in such a `sem_wait`.
-/
theorem killed_leaves_iff {kernel : Kernel κ} (running : (kernel.proc p).state = .running)
    {labels : List (Label κ)} (reached : run (Caller.step p) labels (.start kernel) = some s)
    : (∀ before middle, before <+: labels
          → run (Caller.step p) before (.start kernel) = some middle
          → middle.Leaves
            ∧ (middle.warned = true → ∀ ret, middle.status = .returned ret
                → ∃ next, middle.step p .trapret = some next ∧ next.status = .exited))
      ↔ Along (Caller.step p) Spared labels (.start kernel) := by
  have decided := throughout_iff_along (motive := fun _ middle => middle.Leaves)
    (fun warned => by cases warned)
    (fun _ _ _ _ _ _ ran stepped leaves => leaves_step_iff (run_sound running ran) leaves stepped)
    reached
  refine Iff.trans ?_ decided
  refine forall₄_congr fun before middle shorter ran => and_iff_left fun warned ret returned => ?_
  have killed := (run_sound running ran).killed warned
  exact ⟨_, by simp only [Caller.step, returned]; rfl, by simp [killed]⟩

/-- `initproc` runs, semaphore 0 has been made with the value 0, and all pipes are empty. -/
def quietKernel : Kernel Unit where
  ticks := 0
  pipe := fun _ => ⟨⟨fun _ => 0, 0, 0⟩, true, true⟩
  input := ⟨fun _ => 0, 0, 0⟩
  sem := (Sem.semInit (.boot Slot) 0 0).1
  table := Sched.switch (.boot 0) () 0

/-- A process waits, is killed and resumed. -/
def killedIn (request : Request) : List (Label Unit) :=
  [.enter request (fun _ => 0), .sleep, .kill 1, .switch, .resume (fun _ => 0)]

/-- In `sem_wait` it sleeps again with `killed` set. -/
theorem killedInSemWait_sleeps
    : ∃ s, run (Caller.step 0) (killedIn (.semWait 0 1) ++ [.sleep]) (.start quietKernel) = some s
        ∧ s.warned = true
        ∧ s.status = .asleep (.semWait 0 1)
        ∧ (s.kernel.proc 0).state = .sleeping
        ∧ (s.kernel.proc 0).killed = true := by
  decide +kernel

/-- In `piperead` it fails, and exits. -/
theorem killedInPiperead_leaves
    : ∃ s, run (Caller.step 0) (killedIn (.piperead 0 1)) (.start quietKernel) = some s
        ∧ s.warned = true
        ∧ s.status = .returned (-1)
        ∧ ∃ next, s.step 0 .trapret = some next ∧ next.status = .exited := by
  have spared : Along (Caller.step 0) Spared (killedIn (.piperead 0 1)) (.start quietKernel) := by
    decide +kernel
  obtain ⟨s, reached, warned, returned⟩ :
      ∃ s ∈ run (Caller.step 0) (killedIn (.piperead 0 1)) (.start quietKernel),
        s.warned = true ∧ s.status = .returned (-1) := by
    decide +kernel
  have leaves := (killed_leaves_iff (by decide +kernel) reached).mpr spared _ s (List.prefix_refl _)
    reached
  exact ⟨s, reached, warned, returned, leaves.2 warned (-1) returned⟩

end Xv6.Blocking
