import Xv6.Lib.Transition
import Xv6.Param

/-! The counting semaphores of `proc.c`: `sem_init`, `sem_destroy`, `sem_wait`, `sem_signal`.
A section under `sema[sem].lock` is one step; `sleep` and `wakeup` on the semaphore happen
inside such a section, so a sleeper is found by every later `wakeup`.
-/

namespace Xv6.Sem

/-- `struct semaphore`; its spinlock is what makes a section atomic. -/
structure Semaphore where
  value : Int32
  active : Bool
  deriving DecidableEq

/-- Where a process is: outside `sem_wait`, asleep in its loop, or woken and about to take
`sema[sem].lock` again.
-/
inductive Position where
  | running
  | sleeping (sem : Fin 32) (count : Int32)
  | woken (sem : Fin 32) (count : Int32)
  deriving DecidableEq

structure Caller where
  position : Position
  semHeld : Fin 32 → Int32

structure SemState (ι : Type) where
  sema : Fin 32 → Semaphore
  caller : ι → Caller

/-- The system calls, without their semaphore number. -/
inductive SemCall where
  | init (value : Int32)
  | destroy
  | wait (count : Int32)
  | signal (count : Int32)
  deriving DecidableEq

/-- One section under a semaphore's lock, with the value the call returns at its end;
`none` when the section ends in `sleep`.
-/
inductive SemStep (ι : Type) where
  | call (p : ι) (op : SemCall) (sem : Int32) (ret : Option Int32)
  | resume (p : ι) (sem : Fin 32) (count : Int32) (ret : Option Int32)
  | kill (p : ι)
  deriving DecidableEq

/-- The bounds test all four calls start with. -/
def index (sem : Int32) : Option (Fin 32) :=
  if outside : sem.toInt < 0 ∨ sem.toInt ≥ 32 then none
  else some ⟨sem.toInt.toNat, by omega⟩

variable {ι : Type}

/-- `wakeup(&sema[i])`. -/
def Position.wake (i : Fin 32) : Position → Position
  | .sleeping sem count => if sem = i then .woken sem count else .sleeping sem count
  | other => other

def SemState.wakeup (s : SemState ι) (i : Fin 32) : SemState ι :=
  { s with caller := fun p => { s.caller p with position := (s.caller p).position.wake i } }

def SemState.setSema (s : SemState ι) (i : Fin 32) (next : Semaphore) : SemState ι :=
  { s with sema := Function.update s.sema i next }

@[simp] theorem SemState.sema_wakeup (s : SemState ι) (i : Fin 32)
    : (s.wakeup i).sema = s.sema := rfl

@[simp] theorem SemState.sema_setSema (s : SemState ι) (i : Fin 32) (next : Semaphore)
    : (s.setSema i next).sema = Function.update s.sema i next := rfl

@[simp] theorem SemState.caller_setSema (s : SemState ι) (i : Fin 32) (next : Semaphore)
    : (s.setSema i next).caller = s.caller := rfl

def semInit (s : SemState ι) (sem value : Int32) : SemState ι × Option Int32 :=
  match index sem with
  | none => (s, some (-1))
  | some i =>
      if (s.sema i).active then (s, some (-1))
      else (s.setSema i { value, active := true }, some 0)

def semDestroy (s : SemState ι) (sem : Int32) : SemState ι × Option Int32 :=
  match index sem with
  | none => (s, some (-1))
  | some i =>
      if (s.sema i).active then (s.setSema i { value := 0, active := false }, some 0)
      else (s, some (-1))

def semSignal (s : SemState ι) (sem count : Int32) : SemState ι × Option Int32 :=
  match index sem with
  | none => (s, some (-1))
  | some i =>
      if (s.sema i).active then
        let next := { s.sema i with value := (s.sema i).value + count }
        ((s.setSema i next).wakeup i, some 0)
      else (s, some (-1))

variable [DecidableEq ι]

def SemState.setCaller (s : SemState ι) (p : ι) (next : Caller) : SemState ι :=
  { s with caller := Function.update s.caller p next }

@[simp] theorem SemState.sema_setCaller (s : SemState ι) (p : ι) (next : Caller)
    : (s.setCaller p next).sema = s.sema := rfl

/-- The bookkeeping of `sem_wait`: settle a debt in `sem_held`, or clear it. -/
def settle (held count : Int32) : Int32 := if held ≥ count then held - count else 0

/-- `sem_wait` from the test of its loop to its end or its next `sleep`. The consuming
subtraction is followed by an addition of the same count.
-/
def waitLoop (s : SemState ι) (p : ι) (i : Fin 32) (count : Int32)
    : SemState ι × Option Int32 :=
  let caller := s.caller p
  if (s.sema i).value < count then
    (s.setCaller p { caller with position := .sleeping i count }, none)
  else
    let taken := { s.sema i with value := (s.sema i).value - count }
    let next := { taken with value := taken.value + count }
    let held := Function.update caller.semHeld i (settle (caller.semHeld i) count)
    (((s.setSema i next).setCaller p { position := .running, semHeld := held }).wakeup i,
      some 0)

def semWait (s : SemState ι) (p : ι) (sem count : Int32) : SemState ι × Option Int32 :=
  match index sem with
  | none => (s, some (-1))
  | some i => if (s.sema i).active then waitLoop s p i count else (s, some (-1))

/-- `sem_wait` after `sleep` has returned. -/
def semResume (s : SemState ι) (p : ι) (i : Fin 32) (count : Int32)
    : SemState ι × Option Int32 :=
  if (s.sema i).active then waitLoop s p i count
  else (s.setCaller p { s.caller p with position := .running }, some (-1))

/-- `kill` makes a sleeping process runnable; `sem_wait` does not look at `killed`. -/
def kill (s : SemState ι) (p : ι) : SemState ι :=
  match (s.caller p).position with
  | .sleeping sem count => s.setCaller p { s.caller p with position := .woken sem count }
  | _ => s

def call (s : SemState ι) (p : ι) (op : SemCall) (sem : Int32)
    : SemState ι × Option Int32 :=
  match op with
  | .init value => semInit s sem value
  | .destroy => semDestroy s sem
  | .wait count => semWait s p sem count
  | .signal count => semSignal s sem count

/-- One step; the label's return value has to be the computed one. -/
def semStep (s : SemState ι) (label : SemStep ι) : Option (SemState ι) :=
  match label with
  | .call p op sem ret =>
      if (s.caller p).position = .running ∧ (call s p op sem).2 = ret then
        some (call s p op sem).1
      else none
  | .resume p i count ret =>
      if (s.caller p).position = .woken i count ∧ (semResume s p i count).2 = ret then
        some (semResume s p i count).1
      else none
  | .kill p => some (kill s p)

/-- The step is in the loop of `sem_wait`, for this count of semaphore `i`. -/
inductive Asks (s : SemState ι) (p : ι) (i : Fin 32) (count : Int32) (ret : Option Int32)
    : SemStep ι → Prop where
  | call (named : index sem = some i) : Asks s p i count ret (.call p (.wait count) sem ret)
  | resume (woken : (s.caller p).position = .woken i count)
    : Asks s p i count ret (.resume p i count ret)

/-- What a step does. -/
inductive Moves (s : SemState ι) : SemStep ι → SemState ι → Prop where
  | refused
      (failed : ∀ i, index sem = some i → ((s.sema i).active = true ↔ ∃ value, op = .init value))
    : Moves s (.call p op sem (some (-1))) s
  | inited (named : index sem = some i) (free : (s.sema i).active = false)
    : Moves s (.call p (.init value) sem (some 0)) (s.setSema i { value, active := true })
  | destroyed (named : index sem = some i) (active : (s.sema i).active = true)
    : Moves s (.call p .destroy sem (some 0)) (s.setSema i { value := 0, active := false })
  | signalled (named : index sem = some i) (active : (s.sema i).active = true)
    : Moves s (.call p (.signal count) sem (some 0))
        ((s.setSema i { s.sema i with value := (s.sema i).value + count }).wakeup i)
  | slept (asks : Asks s p i count none label) (active : (s.sema i).active = true)
      (short : (s.sema i).value < count)
    : Moves s label (s.setCaller p { s.caller p with position := .sleeping i count })
  | passed (asks : Asks s p i count (some 0) label) (active : (s.sema i).active = true)
      (enough : count ≤ (s.sema i).value)
    : Moves s label
        ((s.setCaller p
          { position := .running
            semHeld :=
              Function.update (s.caller p).semHeld i (settle ((s.caller p).semHeld i) count) }).wakeup
          i)
  | gone (woken : (s.caller p).position = .woken i count) (inactive : (s.sema i).active = false)
    : Moves s (.resume p i count (some (-1)))
        (s.setCaller p { s.caller p with position := .running })
  | roused (asleep : (s.caller p).position = .sleeping i count)
    : Moves s (.kill p) (s.setCaller p { s.caller p with position := .woken i count })
  | awake : Moves s (.kill p) s

variable {s t : SemState ι} {label : SemStep ι}

theorem waitLoop_moves {i : Fin 32} {count : Int32} {p : ι} (active : (s.sema i).active = true)
    (asks : Asks s p i count (waitLoop s p i count).2 label)
    : Moves s label (waitLoop s p i count).1 := by
  unfold waitLoop at asks ⊢
  split at asks
  · rename_i short
    rw [if_pos short]
    exact .slept asks active short
  · rename_i enough
    rw [if_neg enough]
    have same : s.setSema i { s.sema i with value := (s.sema i).value - count + count } = s := by
      simp [SemState.setSema, Int32.sub_add_cancel]
    simp only [same]
    exact .passed asks active (Int32.not_lt.mp enough)

theorem call_moves (s : SemState ι) (p : ι) (op : SemCall) (sem : Int32)
    : Moves s (.call p op sem (call s p op sem).2) (call s p op sem).1 := by
  cases named : index sem with
  | none =>
    have refused : call s p op sem = (s, some (-1)) := by
      cases op <;> simp [call, semInit, semDestroy, semWait, semSignal, named]
    rw [refused]
    exact .refused (by simp [named])
  | some i =>
    cases active : (s.sema i).active with
    | true =>
      cases op with
      | init value =>
        simp only [call, semInit, named, active, if_true]
        exact .refused (by simp [named, active])
      | destroy =>
        simp only [call, semDestroy, named, active, if_true]
        exact .destroyed named active
      | wait count =>
        simp only [call, semWait, named, active, if_true]
        exact waitLoop_moves active (.call named)
      | signal count =>
        simp only [call, semSignal, named, active, if_true]
        exact active ▸ .signalled named active
    | false =>
      cases op with
      | init value =>
        simp only [call, semInit, named, active, Bool.false_eq_true, if_false]
        exact .inited named active
      | destroy | wait | signal =>
        simp only [call, semDestroy, semWait, semSignal, named, active, Bool.false_eq_true,
          if_false]
        exact .refused (by simp [named, active])

theorem semStep_moves (stepped : semStep s label = some t)
    : Moves s label t := by
  cases label with
  | call p op sem ret =>
    obtain ⟨⟨_, rfl⟩, ⟨⟩⟩ := Option.ite_none_right_eq_some.mp stepped
    exact call_moves s p op sem
  | resume p i count ret =>
    obtain ⟨⟨woken, rfl⟩, ⟨⟩⟩ := Option.ite_none_right_eq_some.mp stepped
    unfold semResume
    cases active : (s.sema i).active with
    | true => exact waitLoop_moves active (.resume woken)
    | false => exact .gone woken active
  | kill p =>
    cases stepped
    unfold kill
    split
    · exact .roused ‹_›
    · exact .awake

/-- What holds of all callers after one of them was changed. -/
theorem SemState.forall_setCaller {P : Caller → Prop} {p : ι} {next : Caller} (self : P next)
    (others : ∀ q, q ≠ p → P (s.caller q)) (q : ι)
    : P ((s.setCaller p next).caller q) := by
  by_cases same : q = p
  · simpa [setCaller, same] using self
  · simpa [setCaller, same] using others q same

/-- After `pinit`: no semaphore is active and no process owes anything. -/
def SemState.boot (ι : Type) : SemState ι where
  sema := fun _ => { value := 0, active := false }
  caller := fun _ => { position := .running, semHeld := fun _ => 0 }

end Xv6.Sem
