import Xv6.Sem.Lifecycle

/-! The semaphore calls with their locks.
`sema[i].lock` is held over several steps, and every section of `ptable.lock` inside it, that
is `wakeup` and the first half of `sleep`, is a step of its own. `kill` takes only
`ptable.lock`, so it comes between any two of them. The sections of `Sem.Model` are what
remains when each section is completed at its first step.
-/

namespace Xv6.Sem

open Xv6.Lib
open Option (ite_none_right_eq_some map_eq_some_iff)
open Function (update update_self update_of_ne)

/-- What a process does next with the lock it holds. -/
inductive Phase where
  | free
  | waking (i : Fin 32)
  | dozing (i : Fin 32) (count : Int32)
  | releasing (i : Fin 32)
  deriving DecidableEq

/-- The process holds `sema[i].lock`. -/
def Phase.Holds (i : Fin 32) : Phase → Prop
  | .free => False
  | .waking j | .dozing j _ | .releasing j => j = i

/-- `lock i` is the holder of `sema[i].lock`; `life` has the processes as they are, asleep
only once `sleep` has been called and woken only once `wakeup` has.
-/
structure LockState (ι : Type) where
  life : LifeState ι
  lock : Fin 32 → Option ι
  phase : ι → Phase

inductive LockStep (ι : Type) where
  | enter (p : ι) (op : SemCall) (sem : Int32)
  | resume (p : ι)
  | wakeup (p : ι)
  | sleep (p : ι)
  | unlock (p : ι)
  | kill (p : ι)
  | fork (p child : ι)
  | exit (p : ι)
  | release (p : ι)
  | reap (p : ι)

variable {ι : Type}

section

variable [DecidableEq ι]

/-- The loop of `sem_wait` after its test, up to the call of `sleep` or `wakeup`. -/
def enterLoop (s : SemState ι) (p : ι) (i : Fin 32) (count : Int32) : SemState ι × Phase :=
  let caller := s.caller p
  if (s.sema i).value < count then (s, .dozing i count)
  else
    let taken := { s.sema i with value := (s.sema i).value - count }
    let next := { taken with value := taken.value + count }
    let held := update caller.semHeld i (settle (caller.semHeld i) count)
    ((s.setSema i next).setCaller p { caller with semHeld := held }, .waking i)

def enterSignal (s : SemState ι) (i : Fin 32) (count : Int32) : SemState ι × Phase :=
  if (s.sema i).active then
    (s.setSema i { s.sema i with value := (s.sema i).value + count }, .waking i)
  else (s, .releasing i)

/-- A call from the acquisition of the lock to the next use of `ptable.lock`. -/
def enterCall (s : SemState ι) (p : ι) (i : Fin 32) : SemCall → SemState ι × Phase
  | .init value =>
      if (s.sema i).active then (s, .releasing i)
      else (s.setSema i { value, active := true }, .releasing i)
  | .destroy =>
      if (s.sema i).active then (s.setSema i { value := 0, active := false }, .releasing i)
      else (s, .releasing i)
  | .wait count =>
      if (s.sema i).active then enterLoop s p i count else (s, .releasing i)
  | .signal count => enterSignal s i count

/-- `sem_wait` after `sleep` took the lock again. -/
def enterResume (s : SemState ι) (p : ι) (i : Fin 32) (count : Int32) : SemState ι × Phase :=
  let running := s.setCaller p { s.caller p with position := .running }
  if (s.sema i).active then enterLoop running p i count else (running, .releasing i)

/-- The process takes `sema[i].lock` and runs up to a phase. -/
def LockState.acquire (s : LockState ι) (p : ι) (i : Fin 32) (next : SemState ι × Phase)
    : Option (LockState ι) :=
  if s.lock i = none then
    some
      { life := { s.life with sem := next.1 }
        lock := update s.lock i (some p)
        phase := update s.phase p next.2 }
  else none

/-- The process gives up `sema[i].lock`. -/
def LockState.drop (s : LockState ι) (p : ι) (i : Fin 32) : LockState ι :=
  { s with lock := update s.lock i none, phase := update s.phase p .free }

def enter (s : LockState ι) (p : ι) (op : SemCall) (sem : Int32) : Option (LockState ι) :=
  if s.life.status p = .alive ∧ s.phase p = .free ∧ (s.life.sem.caller p).position = .running then
    match index sem with
    | none => some s
    | some i => s.acquire p i (enterCall s.life.sem p i op)
  else none

def resume (s : LockState ι) (p : ι) : Option (LockState ι) :=
  match (s.life.sem.caller p).position with
  | .woken i count =>
      if s.life.status p = .alive then s.acquire p i (enterResume s.life.sem p i count) else none
  | _ => none

/-- `wakeup(&sema[i])`, a section of `ptable.lock`. -/
def wakeup (s : LockState ι) (p : ι) : Option (LockState ι) :=
  match s.phase p with
  | .waking i =>
      some
        { s with
          life := { s.life with sem := s.life.sem.wakeup i }
          phase := update s.phase p (.releasing i) }
  | _ => none

/-- `sleep(&sema[i], &sema[i].lock)`: it holds `ptable.lock` when it gives up `sema[i].lock`,
until the process is asleep.
-/
def sleep (s : LockState ι) (p : ι) : Option (LockState ι) :=
  match s.phase p with
  | .dozing i count =>
      let sem := s.life.sem
      some
        { s.drop p i with
          life :=
            { s.life with
              sem := sem.setCaller p { sem.caller p with position := .sleeping i count } } }
  | _ => none

def unlock (s : LockState ι) (p : ι) : Option (LockState ι) :=
  match s.phase p with
  | .releasing i => some (s.drop p i)
  | _ => none

/-- One pass of the loop of `exit`; its `sem_signal` takes the lock like any other. -/
def lockRelease (s : LockState ι) (p : ι) : Option (LockState ι) :=
  match s.life.status p with
  | .exiting next =>
      if s.phase p = .free then
        if inside : next < 32 then
          let i : Fin 32 := ⟨next, inside⟩
          let caller := s.life.sem.caller p
          let after := { s.life with status := update s.life.status p (.exiting (next + 1)) }
          if caller.semHeld i > 0 then
            let cleared := s.life.sem.setCaller p
              { caller with semHeld := update caller.semHeld i 0 }
            ({ s with life := after } : LockState ι).acquire p i
              (enterSignal cleared i (caller.semHeld i))
          else some { s with life := after }
        else some { s with life := s.life.setStatus p .zombie }
      else none
  | _ => none

def lockStep (init : ι) (s : LockState ι) (label : LockStep ι) : Option (LockState ι) :=
  match label with
  | .enter p op sem => enter s p op sem
  | .resume p => resume s p
  | .wakeup p => wakeup s p
  | .sleep p => sleep s p
  | .unlock p => unlock s p
  | .kill p => some { s with life := { s.life with sem := kill s.life.sem p } }
  | .fork p child =>
      if s.phase p = .free then (fork s.life p child).map fun life => { s with life } else none
  | .exit p =>
      if s.phase p = .free then (exit init s.life p).map fun life => { s with life } else none
  | .release p => lockRelease s p
  | .reap p => (reap s.life p).map fun life => { s with life }

def LockState.boot (init : ι) : LockState ι where
  life := .boot init
  lock := fun _ => none
  phase := fun _ => .free

/-- How a section ends. -/
inductive Ending where
  | releases
  | wakes
  | sleeps (count : Int32)

def Ending.phase (i : Fin 32) : Ending → Phase
  | .releases => .releasing i
  | .wakes => .waking i
  | .sleeps count => .dozing i count

/-- What a section makes of its semaphore and of `sem_held` of its process. -/
structure Section where
  sema : Semaphore
  held : Fin 32 → Int32
  ending : Ending

/-- The loop of `sem_wait`. -/
def Section.loop (x : Semaphore) (held : Fin 32 → Int32) (i : Fin 32) (count : Int32) : Section :=
  if x.value < count then ⟨x, held, .sleeps count⟩
  else
    ⟨{ x with value := x.value - count + count }, update held i (settle (held i) count), .wakes⟩

def Section.signal (x : Semaphore) (held : Fin 32 → Int32) (count : Int32) : Section :=
  if x.active then ⟨{ x with value := x.value + count }, held, .wakes⟩ else ⟨x, held, .releases⟩

def SemCall.section (x : Semaphore) (held : Fin 32 → Int32) (i : Fin 32) : SemCall → Section
  | .init value => ⟨if x.active then x else { value, active := true }, held, .releases⟩
  | .destroy => ⟨if x.active then { value := 0, active := false } else x, held, .releases⟩
  | .wait count => if x.active then .loop x held i count else ⟨x, held, .releases⟩
  | .signal count => .signal x held count

/-- The state up to the next use of `ptable.lock`. -/
def Section.begun (d : Section) (s : SemState ι) (p : ι) (i : Fin 32) : SemState ι :=
  (s.setSema i d.sema).setCaller p { position := .running, semHeld := d.held }

/-- The section up to there, with the phase it leads to. -/
abbrev Section.entered (d : Section) (s : SemState ι) (p : ι) (i : Fin 32) : SemState ι × Phase :=
  (d.begun s p i, d.ending.phase i)

theorem Section.begun_other (d : Section) (s : SemState ι) (i : Fin 32) {p q : ι} (other : q ≠ p)
    : (d.begun s p i).caller q = s.caller q := update_of_ne other ..

/-- The state when the section is complete. -/
def Section.ended (d : Section) (s : SemState ι) (p : ι) (i : Fin 32) : SemState ι :=
  match d.ending with
  | .releases => d.begun s p i
  | .wakes => (d.begun s p i).wakeup i
  | .sleeps count =>
      (s.setSema i d.sema).setCaller p { position := .sleeping i count, semHeld := d.held }

/-- The holder of `sema[i].lock` is about to wake the sleepers on it. -/
def LockState.wakes (s : LockState ι) (i : Fin 32) : Bool :=
  match s.lock i with
  | some p => s.phase p == .waking i
  | none => false

/-- Where a process is once the sections in progress are complete. -/
def LockState.position (s : LockState ι) (q : ι) : Position :=
  match s.phase q with
  | .dozing i count => .sleeping i count
  | _ =>
      match (s.life.sem.caller q).position with
      | .sleeping i count => if s.wakes i then .woken i count else .sleeping i count
      | other => other

/-- The state with all sections in progress completed. -/
def LockState.completed (s : LockState ι) : LifeState ι where
  sem :=
    { sema := s.life.sem.sema
      caller := fun q => { s.life.sem.caller q with position := s.position q } }
  status := s.life.status

end

/-- A lock has its holder, a process in a section runs, and one in `sleep` is alive. -/
structure LockState.Ordered (s : LockState ι) : Prop where
  holder : ∀ p i, (s.phase p).Holds i ↔ s.lock i = some p
  running : ∀ p, s.phase p ≠ .free → (s.life.sem.caller p).position = .running
  live
    : ∀ p, s.phase p ≠ .free → s.life.status p = .alive
        ∨ (∃ k, s.life.status p = .exiting k) ∧ ∀ i count, s.phase p ≠ .dozing i count
  blocked : ∀ p, (s.life.sem.caller p).position ≠ .running → s.life.status p = .alive

variable {s t : LockState ι} {p q : ι} {i : Fin 32}
variable {next : SemState ι × Phase}

theorem LockState.Ordered.running_of_exiting (ordered : s.Ordered) {k : Nat}
    (exiting : s.life.status p = .exiting k)
    : (s.life.sem.caller p).position = .running := by
  by_contra blocked
  exact nomatch (ordered.blocked p blocked).symm.trans exiting

theorem completed_ext {life : LifeState ι} (sema : life.sem.sema = s.life.sem.sema)
    (status : life.status = s.life.status)
    (callers : ∀ q, life.sem.caller q = ⟨s.position q, (s.life.sem.caller q).semHeld⟩)
    : life = s.completed := by
  obtain ⟨⟨_, _⟩, _⟩ := life
  simp only at sema status callers
  subst sema status
  rw [funext callers]
  rfl

theorem LockState.wakes_of_free (free : s.lock i = none) : s.wakes i = false := by
  simp [LockState.wakes, free]

theorem LockState.position_of_not_dozing
    (awake : ∀ j count, s.phase q ≠ .dozing j count)
    (running : (s.life.sem.caller q).position = .running)
    : s.position q = .running := by
  unfold LockState.position
  split
  · rename_i j count dozing
    exact absurd dozing (awake j count)
  · rw [running]

theorem LockState.position_free (free : s.phase p = .free)
    (running : (s.life.sem.caller p).position = .running)
    : s.position p = .running :=
  LockState.position_of_not_dozing (by simp [free]) running

theorem LockState.position_congr (phase : s.phase q = t.phase q)
    (wakes : ∀ j, s.wakes j = t.wakes j)
    (position : (s.life.sem.caller q).position = (t.life.sem.caller q).position)
    : s.position q = t.position q := by
  unfold LockState.position
  simp only [phase, wakes, position]

/-- A process outside all sections holds no lock. -/
theorem LockState.Ordered.not_holder (ordered : s.Ordered) (free : s.phase p = .free)
    (j : Fin 32)
    : s.lock j ≠ some p := by
  intro held
  have holds := (ordered.holder p j).mpr held
  rw [free] at holds
  exact holds

/-- A process holds one lock at most. -/
theorem LockState.Ordered.lock_unique (ordered : s.Ordered) {j : Fin 32}
    (first : s.lock i = some p) (second : s.lock j = some p)
    : j = i := by
  rw [← ordered.holder] at first second
  cases phase : s.phase p <;> simp_all [Phase.Holds]

/-- A lock promises the same to its sleepers while its holder goes on as before. -/
theorem LockState.wakes_congr {j : Fin 32} (lock : t.lock j = s.lock j)
    (holder : ∀ q, s.lock j = some q → t.phase q = s.phase q)
    : t.wakes j = s.wakes j := by
  unfold LockState.wakes
  rw [lock]
  cases held : s.lock j with
  | none => rfl
  | some q => simp only [holder q held]

/-- A blocked process is outside all sections. -/
theorem LockState.Ordered.free_of_blocked (ordered : s.Ordered)
    (blocked : (s.life.sem.caller p).position ≠ .running)
    : s.phase p = .free := by
  by_contra busy
  exact blocked (ordered.running p busy)

/-- A slot that is not in use is outside all sections. -/
theorem LockState.Ordered.free_of_idle (ordered : s.Ordered)
    (idle : s.life.status p ≠ .alive ∧ ∀ k, s.life.status p ≠ .exiting k)
    : s.phase p = .free := by
  by_contra busy
  cases ordered.live p busy with
  | inl alive => exact idle.1 alive
  | inr exiting =>
    obtain ⟨⟨k, exiting⟩, _⟩ := exiting
    exact idle.2 k exiting

variable [DecidableEq ι]

/-- The order stays when one process moves and the others keep their locks. -/
theorem LockState.Ordered.move (ordered : s.Ordered) (p : ι)
    (others
      : ∀ q, q ≠ p → t.phase q = s.phase q ∧ t.life.status q = s.life.status q
          ∧ (t.life.sem.caller q).position = (s.life.sem.caller q).position
          ∧ ∀ j, t.lock j = some q ↔ s.lock j = some q)
    (holder : ∀ j, (t.phase p).Holds j ↔ t.lock j = some p)
    (running : t.phase p ≠ .free → (t.life.sem.caller p).position = .running)
    (live
      : t.phase p ≠ .free → t.life.status p = .alive
          ∨ (∃ k, t.life.status p = .exiting k) ∧ ∀ i count, t.phase p ≠ .dozing i count)
    (blocked : (t.life.sem.caller p).position ≠ .running → t.life.status p = .alive)
    : t.Ordered := by
  refine ⟨fun q => ?_, fun q => ?_, fun q => ?_, fun q => ?_⟩
  all_goals
    by_cases isSelf : q = p
    · subst isSelf
      assumption
    obtain ⟨phase, status, position, lock⟩ := others q isSelf
    simp only [phase, status, position, lock]
  · exact ordered.holder q
  · exact ordered.running q
  · exact ordered.live q
  · exact ordered.blocked q

/-- The parts of a state in which a lock was just taken. -/
theorem acquire_fields (acquired : s.acquire p i next = some t)
    : s.lock i = none ∧ t.life.sem = next.1 ∧ t.life.status = s.life.status
      ∧ t.lock = update s.lock i (some p)
      ∧ t.phase = update s.phase p next.2 := by
  obtain ⟨unlocked, taken⟩ := ite_none_right_eq_some.mp acquired
  cases taken
  exact ⟨unlocked, rfl, rfl, rfl, rfl⟩

section

variable (ordered : s.Ordered) (free : s.phase p = .free) (acquired : s.acquire p i next = some t)
include ordered free acquired

/-- Taking a lock changes what its own sleepers are about to see, and nothing else. -/
theorem acquire_wakes (j : Fin 32)
    : t.wakes j = if j = i then next.2 == .waking i else s.wakes j := by
  obtain ⟨_, _, _, lock, phase⟩ := acquire_fields acquired
  by_cases same : j = i
  · subst same
    simp [LockState.wakes, lock, phase]
  · rw [if_neg same]
    refine LockState.wakes_congr (by simp [lock, same]) fun q held => ?_
    have other : q ≠ p := fun isSelf => ordered.not_holder free j (isSelf ▸ held)
    simp [phase, other]

/-- The others are woken when the section ends in `wakeup`, and stay where they are if not.
-/
theorem acquire_position (other : q ≠ p)
    (caller : (next.1.caller q).position = (s.life.sem.caller q).position)
    : t.position q = if next.2 = .waking i then (s.position q).wake i else s.position q := by
  have wakes := acquire_wakes ordered free acquired
  obtain ⟨unlocked, sem, _, _, phase⟩ := acquire_fields acquired
  unfold LockState.position
  simp only [phase, sem, update_of_ne other, caller]
  split
  · rename_i j count dozing
    have apart : j ≠ i := by
      intro same
      have held := (ordered.holder q j).mp (by rw [dozing]; rfl)
      rw [same, unlocked] at held
      cases held
    simp [Position.wake, apart]
  · cases position : (s.life.sem.caller q).position with
    | running | woken => simp [Position.wake]
    | sleeping j count =>
      simp only [wakes]
      by_cases same : j = i
      · subst same
        simp only [if_true, LockState.wakes_of_free unlocked, Position.wake, beq_iff_eq]
        split <;> simp
      · simp only [same, if_false]
        split <;> simp [Position.wake, same]

end

section Begun

variable {d : Section} (ordered : s.Ordered) (free : s.phase p = .free)
  (acquired : s.acquire p i (d.entered s.life.sem p i) = some t)
include ordered free acquired

/-- Taking a lock keeps the order. -/
theorem acquire_ordered
    (live
      : s.life.status p = .alive
        ∨ (∃ k, s.life.status p = .exiting k) ∧ ∀ count, d.ending ≠ .sleeps count)
    : t.Ordered := by
  obtain ⟨unlocked, sem, status, lock, phase⟩ := acquire_fields acquired
  have self : (t.life.sem.caller p).position = .running := by
    simp [sem, Section.begun, SemState.setCaller]
  refine ordered.move p (fun q other => ?_) (fun j => ?_) (fun _ => self) (fun _ => ?_)
    (absurd self)
  · refine ⟨by simp [phase, other], by rw [status],
      by rw [sem, d.begun_other _ i other], fun j => ?_⟩
    by_cases same : j = i
    · simp [lock, same, unlocked, Ne.symm other]
    · simp [lock, same]
  · have holds : (d.ending.phase i).Holds j ↔ i = j := by cases d.ending <;> exact Iff.rfl
    rw [phase, lock, update_self, holds]
    by_cases same : j = i
    · simp [same]
    · simpa [same, Ne.symm same] using ordered.not_holder free j
  · rw [status, phase, update_self]
    refine live.imp_right fun leaving => ⟨leaving.1, fun j count => ?_⟩
    cases ending : d.ending with
    | sleeps count => exact absurd ending (leaving.2 count)
    | releases | wakes => simp [ending, Ending.phase]

/-- A section that has begun completes to its end. -/
theorem acquire_completed
    : { s.completed with sem := d.ended s.completed.sem p i } = t.completed := by
  obtain ⟨_, sem, status, _, phase⟩ := acquire_fields acquired
  refine completed_ext ?_ status.symm fun q => ?_
  · rw [sem]
    cases ending : d.ending <;> simp [Section.ended, Section.begun, ending, LockState.completed]
  by_cases isSelf : q = p
  · subst isSelf
    cases ending : d.ending <;>
      simp [Section.ended, Section.begun, ending, LockState.position, phase, sem, Ending.phase,
        SemState.setCaller, SemState.wakeup, Position.wake]
  · rw [acquire_position ordered free acquired isSelf (by rw [d.begun_other _ i isSelf]), sem]
    cases ending : d.ending <;>
      simp [Section.ended, Section.begun, ending, Ending.phase, SemState.setCaller, SemState.wakeup,
        isSelf, LockState.completed]

end Begun

/-! Each section, completed at its first step, is one step of `Sem.Model`. -/

section Sections

variable {life : LifeState ι} {count sem : Int32} {op : SemCall}

section

variable (s : SemState ι) (p : ι) (i : Fin 32)

/-- A section that changes nothing. -/
theorem begun_self (ending : Ending) (running : (s.caller p).position = .running)
    : (⟨s.sema i, (s.caller p).semHeld, ending⟩ : Section).begun s p i = s := by
  have caller : (⟨.running, (s.caller p).semHeld⟩ : Caller) = s.caller p := by rw [← running]
  simp [Section.begun, SemState.setSema, SemState.setCaller, caller]

theorem enterLoop_eq (count : Int32) (running : (s.caller p).position = .running)
    : enterLoop s p i count
      = (Section.loop (s.sema i) (s.caller p).semHeld i count).entered s p i := by
  unfold enterLoop Section.loop
  split
  · rw [Section.entered, begun_self s p i _ running]
    rfl
  · simp only [running]
    rfl

theorem enterSignal_eq (count : Int32) (running : (s.caller p).position = .running)
    : enterSignal s i count
      = (Section.signal (s.sema i) (s.caller p).semHeld count).entered s p i := by
  have caller : (⟨.running, (s.caller p).semHeld⟩ : Caller) = s.caller p := by rw [← running]
  unfold enterSignal Section.signal
  split
  · simp [Section.begun, SemState.setCaller, SemState.setSema, caller, Ending.phase]
  · rw [Section.entered, begun_self s p i _ running]
    rfl

/-- A call begins its section. -/
theorem enterCall_eq (op : SemCall) (running : (s.caller p).position = .running)
    : enterCall s p i op = (op.section (s.sema i) (s.caller p).semHeld i).entered s p i := by
  have caller : (⟨.running, (s.caller p).semHeld⟩ : Caller) = s.caller p := by rw [← running]
  cases op with
  | init | destroy =>
    simp only [enterCall, SemCall.section]
    split <;>
      simp [Section.begun, SemState.setCaller, SemState.setSema, caller, Ending.phase]
  | signal count => exact enterSignal_eq s p i count running
  | wait count =>
    simp only [enterCall, SemCall.section]
    split
    · exact enterLoop_eq s p i count running
    · rw [Section.entered, begun_self s p i _ running]
      rfl

/-- So does `sem_wait` after `sleep`. -/
theorem enterResume_eq (count : Int32)
    : enterResume s p i count
      = ((SemCall.wait count).section (s.sema i) (s.caller p).semHeld i).entered s p i := by
  simp only [enterResume, SemCall.section]
  split
  · rw [enterLoop_eq _ _ _ _ (by simp [SemState.setCaller])]
    simp [Section.begun, SemState.setCaller, SemState.setSema]
  · simp [Section.begun, SemState.setCaller, SemState.setSema, Ending.phase]

/-- And the `sem_signal` of `exit`, which also clears `sem_held`. -/
theorem enterSignal_setHeld (count : Int32) (held : Fin 32 → Int32)
    (running : (s.caller p).position = .running)
    : enterSignal (s.setCaller p { s.caller p with semHeld := held }) i count
      = (Section.signal (s.sema i) held count).entered s p i := by
  rw [enterSignal_eq _ p _ _ (by simpa [SemState.setCaller] using running)]
  simp [Section.begun, SemState.setCaller, SemState.setSema]

theorem waitLoop_eq (count : Int32)
    : (waitLoop s p i count).1
      = (Section.loop (s.sema i) (s.caller p).semHeld i count).ended s p i := by
  unfold waitLoop Section.loop
  split
  · simp [Section.ended, SemState.setSema]
  · rfl

/-- The section of `Sem.Model` is complete. -/
theorem call_eq {sem : Int32} (op : SemCall) (running : (s.caller p).position = .running)
    (named : index sem = some i)
    : (call s p op sem).1 = (op.section (s.sema i) (s.caller p).semHeld i).ended s p i := by
  have caller : (⟨.running, (s.caller p).semHeld⟩ : Caller) = s.caller p := by rw [← running]
  cases op with
  | init | destroy =>
    simp only [call, semInit, semDestroy, named, SemCall.section, Section.ended]
    split <;> simp [Section.begun, SemState.setCaller, SemState.setSema, caller]
  | signal count =>
    simp only [call, semSignal, named, SemCall.section, Section.signal, Section.ended]
    split
    · simp [Section.begun, SemState.setCaller, SemState.setSema, caller]
    · simp [begun_self s p i _ running]
  | wait count =>
    simp only [call, semWait, named, SemCall.section]
    split
    · exact waitLoop_eq s p i count
    · simp [Section.ended, begun_self s p i _ running]

theorem semResume_eq (count : Int32)
    : (semResume s p i count).1
      = ((SemCall.wait count).section (s.sema i) (s.caller p).semHeld i).ended s p i := by
  simp only [semResume, SemCall.section]
  split
  · exact waitLoop_eq s p i count
  · simp [Section.ended, Section.begun, SemState.setCaller, SemState.setSema]

end

theorem enter_simulates (ordered : s.Ordered) (entered : enter s p op sem = some t)
    : t.Ordered ∧ s.life.status p = .alive ∧ (s.completed.sem.caller p).position = .running
      ∧ { s.completed with sem := (call s.completed.sem p op sem).1 } = t.completed := by
  obtain ⟨⟨alive, free, running⟩, entered⟩ := ite_none_right_eq_some.mp entered
  have position : (s.completed.sem.caller p).position = .running :=
    LockState.position_free free running
  cases named : index sem with
  | none =>
    simp only [named] at entered
    cases entered
    have refused : (call s.completed.sem p op sem).1 = s.completed.sem := by
      cases op <;> simp [call, semInit, semDestroy, semWait, semSignal, named]
    rw [refused]
    exact ⟨ordered, alive, position, rfl⟩
  | some i =>
    simp only [named, enterCall_eq s.life.sem p i op running] at entered
    refine ⟨acquire_ordered ordered free entered (.inl alive), alive, position, ?_⟩
    rw [call_eq _ p i op position named]
    exact acquire_completed ordered free entered

section

variable (ordered : s.Ordered)
include ordered

theorem resume_simulates (resumed : resume s p = some t)
    : t.Ordered ∧ s.life.status p = .alive
      ∧ ∃ i count, (s.life.sem.caller p).position = .woken i count
        ∧ (s.completed.sem.caller p).position = .woken i count
        ∧ { s.completed with sem := (semResume s.completed.sem p i count).1 } = t.completed := by
  unfold resume at resumed
  split at resumed
  · rename_i i count woken
    obtain ⟨alive, resumed⟩ := ite_none_right_eq_some.mp resumed
    have free := ordered.free_of_blocked (p := p) (by simp [woken])
    rw [enterResume_eq] at resumed
    refine ⟨acquire_ordered ordered free resumed (.inl alive), alive, i, count, woken, ?_, ?_⟩
    · simp [LockState.completed, LockState.position, free, woken]
    · rw [semResume_eq]
      exact acquire_completed ordered free resumed
  · cases resumed

/-- Giving up a lock without waking anybody keeps the order and the completed state, also when
the process falls asleep.
-/
theorem drop_simulates (only : ∀ j, (s.phase p).Holds j ↔ j = i)
    (quiet : s.phase p ≠ .waking i)
    (sema : t.life.sem.sema = s.life.sem.sema) (status : t.life.status = s.life.status)
    (lock : t.lock = (s.drop p i).lock) (phase : t.phase = (s.drop p i).phase)
    (others : ∀ q, q ≠ p → t.life.sem.caller q = s.life.sem.caller q)
    (held : (t.life.sem.caller p).semHeld = (s.life.sem.caller p).semHeld)
    (position : s.position p = t.position p)
    (blocked : (t.life.sem.caller p).position ≠ .running → s.life.status p = .alive)
    : t.Ordered ∧ s.completed = t.completed := by
  have released : t.phase p = .free := phase ▸ update_self ..
  have phases : ∀ q, q ≠ p → t.phase q = s.phase q := fun q other =>
    phase ▸ update_of_ne other ..
  have locks : ∀ j, s.lock j = some p ↔ j = i := fun j =>
    (ordered.holder p j).symm.trans (only j)
  have wakes : ∀ j, s.wakes j = t.wakes j := by
    intro j
    by_cases same : j = i
    · simp [LockState.wakes, lock, LockState.drop, same, (locks i).mpr rfl, quiet]
    · refine (LockState.wakes_congr (lock ▸ update_of_ne same ..) fun q locked => ?_).symm
      exact phases q fun isSelf => same ((locks j).mp (isSelf ▸ locked))
  constructor
  · refine ordered.move p (fun q other => ⟨phases q other, by rw [status],
      by rw [others q other], fun j => ?_⟩) (fun j => ?_) (absurd released ·)
      (absurd released ·) (status ▸ blocked)
    all_goals
      rw [lock, LockState.drop]
      by_cases same : j = i
    · simp [same, (locks i).mpr rfl, Ne.symm other]
    · simp [same]
    · simp [released, Phase.Holds, same]
    · simp [released, Phase.Holds, same, locks]
  · refine completed_ext sema.symm status.symm fun q => ?_
    by_cases isSelf : q = p
    · rw [isSelf, held, ← position]
      rfl
    · rw [others q isSelf, ← LockState.position_congr (phases q isSelf).symm wakes
        (by rw [others q isSelf])]
      rfl

theorem unlock_simulates (unlocked : unlock s p = some t)
    : t.Ordered ∧ s.completed = t.completed := by
  unfold unlock at unlocked
  split at unlocked
  · rename_i i releasing
    cases unlocked
    have running := ordered.running p (by simp [releasing])
    refine drop_simulates ordered (i := i) (by simp [releasing, Phase.Holds, eq_comm])
      (by simp [releasing]) rfl rfl rfl rfl (fun _ _ => rfl) rfl ?_ (absurd running)
    have after : (s.drop p i).position p = .running :=
      LockState.position_free (update_self ..) running
    rw [after, LockState.position_of_not_dozing (by simp [releasing]) running]
  · cases unlocked

theorem sleep_simulates (slept : sleep s p = some t)
    : t.Ordered ∧ s.completed = t.completed := by
  unfold sleep at slept
  split at slept
  · rename_i i count dozing
    -- Only a process that runs its own program can be about to sleep.
    have alive : s.life.status p = .alive := by
      cases ordered.live p (by simp [dozing]) with
      | inl alive => exact alive
      | inr exiting => exact absurd dozing (exiting.2 i count)
    cases slept
    refine drop_simulates ordered (i := i) (by simp [dozing, Phase.Holds, eq_comm])
      (by simp [dozing]) rfl rfl rfl rfl (fun q other => ?_) ?_ ?_ fun _ => alive
    · simp [SemState.setCaller, other]
    · simp [SemState.setCaller]
    · simp [LockState.position, dozing, LockState.drop, SemState.setCaller, LockState.wakes]
  · cases slept

end

/-- The parts of a state after a `wakeup`. -/
theorem wakeup_fields (woke : wakeup s p = some t)
    : ∃ i, s.phase p = .waking i ∧ t.life.sem = s.life.sem.wakeup i
      ∧ t.life.status = s.life.status ∧ t.lock = s.lock
      ∧ t.phase = update s.phase p (.releasing i) := by
  unfold wakeup at woke
  split at woke
  · rename_i i waking
    cases woke
    exact ⟨i, waking, rfl, rfl, rfl, rfl⟩
  · cases woke

/-- After `wakeup` the holder of the lock has nobody left to wake. -/
theorem wakeup_wakes (ordered : s.Ordered) (waking : s.phase p = .waking i)
    (lock : t.lock = s.lock) (phase : t.phase = update s.phase p (.releasing i))
    (j : Fin 32)
    : t.wakes j = if j = i then false else s.wakes j := by
  have held := (ordered.holder p i).mp (by rw [waking]; rfl)
  by_cases same : j = i
  · simp [LockState.wakes, lock, phase, same, held]
  · rw [if_neg same]
    refine LockState.wakes_congr (by rw [lock]) fun q locked => phase ▸ update_of_ne ?_ ..
    exact fun isHolder => same (ordered.lock_unique held (isHolder ▸ locked))

theorem wakeup_position (ordered : s.Ordered) (waking : s.phase p = .waking i)
    (sem : t.life.sem = s.life.sem.wakeup i) (lock : t.lock = s.lock)
    (phase : t.phase = update s.phase p (.releasing i)) (q : ι)
    : s.position q = t.position q := by
  have wakes := wakeup_wakes ordered waking lock phase
  have held := (ordered.holder p i).mp (by rw [waking]; rfl)
  have running := ordered.running p (by simp [waking])
  have awake : s.wakes i = true := by simp [LockState.wakes, held, waking]
  unfold LockState.position
  simp only [wakes, sem, phase, SemState.wakeup]
  by_cases isSelf : q = p
  · subst isSelf
    simp [waking, running, Position.wake]
  · simp only [update_of_ne isSelf]
    split
    · rfl
    · cases position : (s.life.sem.caller q).position with
      | running | woken => rfl
      | sleeping j count =>
        by_cases same : j = i
        · simp [same, Position.wake, awake]
        · simp [same, Position.wake]

theorem wakeup_simulates (ordered : s.Ordered) (woke : wakeup s p = some t)
    : t.Ordered ∧ s.completed = t.completed := by
  obtain ⟨i, waking, sem, status, lock, phase⟩ := wakeup_fields woke
  -- The lock and its holder stay; only what the holder does next changes.
  have holds : ∀ q j, (t.phase q).Holds j ↔ (s.phase q).Holds j := by
    intro q j
    by_cases isSelf : q = p
    · simp [phase, isSelf, waking, Phase.Holds]
    · simp [phase, isSelf]
  have stillBusy : ∀ q, t.phase q ≠ .free → s.phase q ≠ .free := by
    intro q busy
    by_cases isSelf : q = p
    · simp [isSelf, waking]
    · simpa [phase, isSelf] using busy
  refine ⟨⟨fun q j => lock ▸ (holds q j).trans (ordered.holder q j), fun q busy => ?_,
    fun q busy => ?_, fun q blocked => ?_⟩, ?_⟩
  · simp [sem, SemState.wakeup, ordered.running q (stillBusy q busy), Position.wake]
  · rw [status]
    cases ordered.live q (stillBusy q busy) with
    | inl alive => exact .inl alive
    | inr exiting =>
      refine .inr ⟨exiting.1, fun j count => ?_⟩
      by_cases isSelf : q = p
      · simp [phase, isSelf]
      · simpa [phase, isSelf] using exiting.2 j count
  · rw [status]
    apply ordered.blocked q
    intro running
    exact blocked (by simp [sem, SemState.wakeup, running, Position.wake])
  · apply completed_ext
    · rw [sem]
      rfl
    · rw [status]
      rfl
    · intro q
      rw [← wakeup_position ordered waking sem lock phase, sem]
      rfl

/-- What `kill` makes of the place of the process it names. -/
def Position.rouse : Position → Position
  | .sleeping i count => .woken i count
  | other => other

theorem kill_sema (s : SemState ι) (p : ι) : (kill s p).sema = s.sema := by
  unfold kill
  split <;> rfl

theorem kill_caller (sem : SemState ι) (p q : ι)
    : (kill sem p).caller q
      = if q = p then { sem.caller q with position := (sem.caller q).position.rouse }
        else sem.caller q := by
  have kept : ∀ awake : Position, (sem.caller q).position = awake
      → { sem.caller q with position := awake } = sem.caller q := fun _ at_ => by rw [← at_]
  by_cases isSelf : q = p
  · subst isSelf
    rw [if_pos rfl]
    cases position : (sem.caller q).position with
    | running | woken => simp [kill, position, Position.rouse, kept]
    | sleeping i count => simp [kill, position, Position.rouse, SemState.setCaller]
  · cases position : (sem.caller p).position <;>
      simp [kill, position, SemState.setCaller, isSelf]

theorem kill_position_of_running {sem : SemState ι} {q : ι}
    (running : (sem.caller q).position = .running)
    : ((kill sem p).caller q).position = .running := by
  rw [kill_caller]
  split
  · simp [running, Position.rouse]
  · exact running

/-- `kill` comes between the steps of a section. It wakes the process if that is asleep in the
completed state, unless it has still to call `sleep`.
-/
theorem kill_simulates (ordered : s.Ordered)
    (sem : t.life.sem = kill s.life.sem p) (status : t.life.status = s.life.status)
    (lock : t.lock = s.lock) (phase : t.phase = s.phase)
    : t.Ordered
      ∧ ((∃ i count, s.phase p = .dozing i count) → s.completed = t.completed)
      ∧ ((∀ i count, s.phase p ≠ .dozing i count)
        → { s.completed with sem := kill s.completed.sem p } = t.completed) := by
  have sema : t.life.sem.sema = s.life.sem.sema := by rw [sem, kill_sema]
  have held : ∀ q, (t.life.sem.caller q).semHeld = (s.life.sem.caller q).semHeld := by
    intro q
    rw [sem, kill_caller]
    split <;> rfl
  have wakes : ∀ j, t.wakes j = s.wakes j := by simp [LockState.wakes, lock, phase]
  refine ⟨⟨?_, ?_, ?_, ?_⟩, ?_, ?_⟩
  · rw [lock, phase]
    exact ordered.holder
  · rw [sem, phase]
    exact fun q busy => kill_position_of_running (ordered.running q busy)
  · rw [status, phase]
    exact ordered.live
  · rw [sem, status]
    exact fun q blocked => ordered.blocked q fun running =>
      blocked (kill_position_of_running running)
  · intro ⟨i, count, dozing⟩
    have running := ordered.running p (by simp [dozing])
    refine completed_ext sema.symm status.symm fun q => ?_
    have same : s.position q = t.position q := by
      apply LockState.position_congr (by rw [phase]) fun j => (wakes j).symm
      rw [sem, kill_caller]
      split
      · rename_i isSelf
        simp [isSelf, running, Position.rouse]
      · rfl
    rw [held, ← same]
    rfl
  · intro awake
    refine completed_ext ((kill_sema ..).trans sema.symm) status.symm fun q => ?_
    simp only [kill_caller, LockState.position, phase, sem, wakes]
    by_cases isSelf : q = p
    · subst isSelf
      simp only [if_true, LockState.completed, LockState.position]
      cases position : (s.life.sem.caller q).position with
      | running | woken => rfl
      | sleeping i count => cases waking : s.wakes i <;> simp [waking, Position.rouse]
    · simp only [if_neg isSelf]
      rfl

theorem fork_simulates {child : ι} (ordered : s.Ordered) (free : s.phase p = .free)
    (forked : fork s.life p child = some life)
    : LockState.Ordered { s with life }
      ∧ fork s.completed p child = some (LockState.completed { s with life }) := by
  obtain ⟨⟨alive, running, unused⟩, made⟩ := ite_none_right_eq_some.mp forked
  cases made
  have idle : s.phase child = .free := ordered.free_of_idle (by simp [unused])
  have position : (s.completed.sem.caller p).position = .running :=
    LockState.position_free free running
  constructor
  · refine ordered.move child (fun q other => ?_) (ordered.holder child)
      (absurd idle ·) (absurd idle ·) fun _ => update_self ..
    simp [SemState.setCaller, other]
  · refine (if_pos ⟨alive, position, unused⟩).trans (congrArg some ?_)
    refine completed_ext rfl rfl fun q => ?_
    by_cases isChild : q = child
    · subst isChild
      simp [SemState.setCaller, LockState.position, idle]
    · simp only [SemState.setCaller, update_of_ne isChild, LockState.position]
      rfl

/-- A process without a lock that is not blocked may change its status. -/
theorem LockState.Ordered.setStatus (next : Status) (ordered : s.Ordered)
    (free : s.phase p = .free) (running : (s.life.sem.caller p).position = .running)
    : LockState.Ordered { s with life := s.life.setStatus p next } := by
  refine ordered.move p (fun q other => ?_) (ordered.holder p) (absurd free ·) (absurd free ·)
    (absurd running ·)
  simp [LifeState.setStatus, other]

theorem exit_simulates {init : ι} (ordered : s.Ordered) (free : s.phase p = .free)
    (exited : exit init s.life p = some life)
    : LockState.Ordered { s with life }
      ∧ exit init s.completed p = some (LockState.completed { s with life }) := by
  obtain ⟨⟨alive, running, other⟩, made⟩ := ite_none_right_eq_some.mp exited
  cases made
  have position : (s.completed.sem.caller p).position = .running :=
    LockState.position_free free running
  exact ⟨ordered.setStatus _ free running, if_pos ⟨alive, position, other⟩⟩

theorem reap_simulates (ordered : s.Ordered) (reaped : reap s.life p = some life)
    : LockState.Ordered { s with life }
      ∧ reap s.completed p = some (LockState.completed { s with life }) := by
  obtain ⟨zombie, made⟩ := ite_none_right_eq_some.mp reaped
  cases made
  have idle : s.phase p = .free := ordered.free_of_idle (by simp [zombie])
  have running : (s.life.sem.caller p).position = .running := by
    by_contra blocked
    exact nomatch (ordered.blocked p blocked).symm.trans zombie
  exact ⟨ordered.setStatus _ idle running, if_pos zombie⟩

/-- The loop of `exit` names semaphores by their index. -/
theorem index_ofNat (i : Fin 32) : index (Int32.ofNat i) = some i := by
  revert i
  decide

theorem releaseHeld_eq (s : SemState ι) (p : ι) (i : Fin 32)
    (running : (s.caller p).position = .running) (held : (s.caller p).semHeld i > 0)
    : releaseHeld s p i
      = (Section.signal (s.sema i) (update (s.caller p).semHeld i 0)
          ((s.caller p).semHeld i)).ended s p i := by
  have released : releaseHeld s p i = _ := if_pos held
  rw [released, Section.signal, semSignal, index_ofNat]
  simp only
  split
  · refine congrArg (SemState.mk _) (funext fun q => ?_)
    by_cases isSelf : q = p
    · simp [isSelf, running, SemState.setCaller, SemState.wakeup, Position.wake, Section.begun]
    · simp [isSelf, SemState.setCaller, SemState.wakeup, Section.begun]
  · simp [Section.ended, Section.begun, SemState.setCaller, SemState.setSema, running]

theorem release_simulates (ordered : s.Ordered) (released : lockRelease s p = some t)
    : t.Ordered ∧ release s.completed p = some t.completed := by
  unfold lockRelease at released
  split at released
  · rename_i next exiting
    obtain ⟨free, released⟩ := ite_none_right_eq_some.mp released
    have exitingAfter : s.completed.status p = .exiting next := exiting
    have running := ordered.running_of_exiting exiting
    have moved := ordered.setStatus (.exiting (next + 1)) free running
    simp only [release, exitingAfter]
    by_cases inside : next < 32
    · simp only [inside, dif_pos] at released ⊢
      by_cases held : (s.life.sem.caller p).semHeld ⟨next, inside⟩ > 0
      · simp only [held, if_true] at released
        rw [enterSignal_setHeld _ _ _ _ _ running] at released
        refine ⟨acquire_ordered moved free released (.inr ⟨⟨next + 1, update_self ..⟩, ?_⟩), ?_⟩
        · intro count
          unfold Section.signal
          split <;> simp
        · rw [releaseHeld_eq s.completed.sem p _ (LockState.position_free free running) held]
          exact congrArg some (acquire_completed moved free released)
      · have unheld : ¬ (s.completed.sem.caller p).semHeld ⟨next, inside⟩ > 0 := held
        simp only [held, if_false] at released
        cases released
        refine ⟨moved, congrArg some ?_⟩
        simp only [releaseHeld, unheld, if_false]
        rfl
    · simp only [inside, dif_neg, not_false_eq_true] at released ⊢
      cases released
      exact ⟨ordered.setStatus .zombie free running, rfl⟩
  · cases released

end Sections

/-- The step of `Sem.Lifecycle` that a step completes to, if any: a section counts as done at
its first step, and a `kill` that comes before the call of `sleep` wakes nobody.
-/
def LockState.completes (s : LockState ι) : LockStep ι → Option (LifeStep ι)
  | .enter p op sem => some (.sem (.call p op sem (call s.completed.sem p op sem).2))
  | .resume p =>
      match (s.life.sem.caller p).position with
      | .woken i count => some (.sem (.resume p i count (semResume s.completed.sem p i count).2))
      | _ => none
  | .kill p =>
      match s.phase p with
      | .dozing _ _ => none
      | _ => some (.sem (.kill p))
  | .fork p child => some (.fork p child)
  | .exit p => some (.exit p)
  | .release p => some (.release p)
  | .reap p => some (.reap p)
  | .wakeup _ | .sleep _ | .unlock _ => none

/-- Every step completes to the step it stands for, or changes nothing in the completed state.
-/
theorem lockStep_simulates {init : ι} {s t : LockState ι} {label : LockStep ι}
    (ordered : s.Ordered) (stepped : lockStep init s label = some t)
    : t.Ordered
      ∧ match s.completes label with
        | some coarse => lifeStep init s.completed coarse = some t.completed
        | none => s.completed = t.completed := by
  cases label with
  | enter p op sem =>
    obtain ⟨after, alive, running, done⟩ := enter_simulates ordered stepped
    refine ⟨after, ?_⟩
    have calls : s.completed.Calls (.call p op sem (call s.completed.sem p op sem).2) := alive
    simp only [LockState.completes, lifeStep, calls, if_true, semStep, running, and_self,
      Option.map_some, done]
  | resume p =>
    obtain ⟨after, alive, i, count, woken, position, done⟩ := resume_simulates ordered stepped
    refine ⟨after, ?_⟩
    have calls : s.completed.Calls
        (.resume p i count (semResume s.completed.sem p i count).2) := alive
    simp only [LockState.completes, woken, lifeStep, calls, if_true, semStep, position,
      and_self, Option.map_some, done]
  | wakeup p => exact wakeup_simulates ordered stepped
  | sleep p => exact sleep_simulates ordered stepped
  | unlock p => exact unlock_simulates ordered stepped
  | kill p =>
    cases stepped
    obtain ⟨after, still, woken⟩ := kill_simulates (p := p)
      (t := { s with life := { s.life with sem := kill s.life.sem p } }) ordered rfl rfl rfl rfl
    refine ⟨after, ?_⟩
    cases phase : s.phase p with
    | dozing i count =>
      simp only [LockState.completes, phase]
      exact still ⟨i, count, phase⟩
    | _ =>
      simp only [LockState.completes, phase]
      exact congrArg some (woken (by simp [phase]))
  | fork p child =>
    obtain ⟨free, forked⟩ := ite_none_right_eq_some.mp stepped
    obtain ⟨life, made, rfl⟩ := map_eq_some_iff.mp forked
    exact fork_simulates ordered free made
  | exit p =>
    obtain ⟨free, exited⟩ := ite_none_right_eq_some.mp stepped
    obtain ⟨life, made, rfl⟩ := map_eq_some_iff.mp exited
    exact exit_simulates ordered free made
  | release p => exact release_simulates ordered stepped
  | reap p =>
    obtain ⟨life, made, rfl⟩ := map_eq_some_iff.mp stepped
    exact reap_simulates ordered made

theorem boot_ordered (init : ι) : (LockState.boot init).Ordered := by
  refine ⟨fun p i => ?_, fun p busy => absurd rfl busy, fun p busy => absurd rfl busy,
    fun p blocked => absurd rfl blocked⟩
  simp [LockState.boot, Phase.Holds]

end Xv6.Sem
