import Xv6.Lib.Ring
import Xv6.Lib.ProcessSum
import Xv6.Lib.Transition
import Xv6.Param

/-! Pipes: `pipe.c` with the parts of `file.c` and `proc.c` it depends on.
`p->lock` is held over several steps. Each use of `ptable.lock` inside it, that is `wakeup` and
the first half of `sleep`, is a step of its own, and so is each look at `killed`, which `kill`
sets without `p->lock`.
-/

namespace Xv6.Pipe

open Xv6.Lib
open Function (update)

abbrev pipesize : Nat := 512

/-- The two ends of a pipe. Readers sleep on `&p->nread` and writers on `&p->nwrite`, so an end
also names the channel of its users.
-/
inductive End where
  | read
  | write
  deriving DecidableEq

def End.other : End → End
  | .read => .write
  | .write => .read

/-- A call inside its loop: `piperead(p, addr, n)`, or `pipewrite(p, addr, n)` with `i` bytes
stored.
-/
inductive Call where
  | read (n : Int32)
  | write (i : Nat) (n : Int32)
  deriving DecidableEq

def Call.side : Call → End
  | .read _ => .read
  | .write _ _ => .write

/-- How a section of `p->lock` ends. -/
inductive Exit where
  | returns (ret : Int32)
  | closes
  deriving DecidableEq

/-- What a process does next. In `checking`, `nudging`, `dozing`, `waking` and `releasing` it
holds the lock: it is about to look at `killed`, to wake the readers before it sleeps, to sleep,
to wake the users of an end, to release the lock. In `closing` it has dropped the last reference
to an end and is about to call `pipeclose`.
-/
inductive Phase where
  | idle
  | checking (c : Call)
  | nudging (i : Nat) (n : Int32)
  | dozing (c : Call)
  | asleep (c : Call)
  | woken (c : Call)
  | waking (side : End) (exit : Exit)
  | releasing (exit : Exit)
  | closing (side : End)
  deriving DecidableEq

/-- A pipe and its users: `fds p` counts the descriptors of process `p` for the file of each
end, and `ref` is that file's reference count. `stored` and `handed` are the bytes that went in
and out so far; no step looks at them.
-/
structure PipeState (ι : Type) where
  ring : Ring UInt8 pipesize
  opened : End → Bool
  freed : Bool
  lock : Option ι
  phase : ι → Phase
  killed : ι → Bool
  fds : ι → End → Nat
  ref : End → Nat
  stored : List UInt8
  handed : List UInt8

/-- Steps. `user` is the caller's memory as the section reads it: byte `addr[i]` is `user i`. -/
inductive PipeStep (ι : Type) where
  | write (p : ι) (n : Int32) (user : Nat → UInt8)
  | read (p : ι) (n : Int32)
  | resume (p : ι) (user : Nat → UInt8)
  | check (p : ι) (ret : Option Int32)
  | wakeup (p : ι)
  | sleep (p : ι)
  | unlock (p : ι) (exit : Exit)
  | kill (p : ι)
  | dup (p q : ι) (side : End)
  | close (p : ι) (side : End)
  | pipeclose (p : ι)
  | reuse (p : ι)

/-- The stores of `pipewrite`, up to the end of the data or until the pipe is full. -/
def storeLoop (user : Nat → UInt8)
    : Nat → Nat → Ring UInt8 pipesize → Ring UInt8 pipesize × Nat × List UInt8
  | 0, i, ring => (ring, i, [])
  | left + 1, i, ring =>
      if ring.isFull then (ring, i, [])
      else
        let rest := storeLoop user left (i + 1) (ring.put (user i))
        (rest.1, rest.2.1, user i :: rest.2.2)

/-- The copying loop of `piperead`. -/
def copyLoop : Nat → Ring UInt8 pipesize → Ring UInt8 pipesize × List UInt8
  | 0, ring => (ring, [])
  | left + 1, ring =>
      if ring.isEmpty then (ring, [])
      else
        let rest := copyLoop left ring.drop
        (rest.1, ring.front :: rest.2)

variable {ι : Type} [DecidableEq ι]

def PipeState.setPhase (s : PipeState ι) (p : ι) (next : Phase) : PipeState ι :=
  { s with phase := update s.phase p next }

/-- `pipewrite` from where it has the lock, until it is done or finds the pipe full. -/
def pipewrite (s : PipeState ι) (p : ι) (user : Nat → UInt8) (i : Nat) (n : Int32)
    : PipeState ι :=
  let loop := storeLoop user (n.toInt - i).toNat i s.ring
  let next := if (loop.2.1 : Int) < n.toInt then .checking (.write loop.2.1 n)
    else .waking .read (.returns n)
  { s.setPhase p next with ring := loop.1, stored := s.stored ++ loop.2.2, lock := some p }

/-- `piperead` from where it has the lock, until it is done or finds the pipe empty. -/
def piperead (s : PipeState ι) (p : ι) (n : Int32) : PipeState ι :=
  if s.ring.isEmpty && s.opened .write then
    { s.setPhase p (.checking (.read n)) with lock := some p }
  else
    let loop := copyLoop n.toInt.toNat s.ring
    { s.setPhase p (.waking .write (.returns (Int32.ofNat loop.2.length))) with
      ring := loop.1
      handed := s.handed ++ loop.2
      lock := some p }

/-- The section of a call, at its start or after `sleep` took the lock again. -/
def Call.run (s : PipeState ι) (p : ι) (user : Nat → UInt8) : Call → PipeState ι
  | .read n => piperead s p n
  | .write i n => pipewrite s p user i n

/-- A call takes the lock; its file is a descriptor of the caller. -/
def enter (s : PipeState ι) (p : ι) (user : Nat → UInt8) (c : Call) : Option (PipeState ι) :=
  if s.lock = none ∧ s.phase p = .idle ∧ 0 < s.fds p c.side then some (c.run s p user) else none

def resume (s : PipeState ι) (p : ι) (user : Nat → UInt8) : Option (PipeState ι) :=
  match s.phase p with
  | .woken c => if s.lock = none then some (c.run s p user) else none
  | _ => none

/-- Whether a call that cannot go on gives up: `pipewrite` looks at `readopen` and `killed`,
`piperead` at `killed` only.
-/
def givesUp (s : PipeState ι) (p : ι) : Call → Bool
  | .read _ => s.killed p
  | .write _ _ => !s.opened .read || s.killed p

/-- A call that goes on waiting; only `pipewrite` calls `wakeup` before `sleep`. -/
def Call.wait : Call → Phase
  | .read n => .dozing (.read n)
  | .write i n => .nudging i n

/-- The test of `killed`, with the release of the lock and the result -1 if it gives up. -/
def check (s : PipeState ι) (p : ι) (ret : Option Int32) : Option (PipeState ι) :=
  match s.phase p with
  | .checking c =>
      if givesUp s p c then
        if ret = some (-1) then some { s.setPhase p .idle with lock := none } else none
      else if ret = none then some (s.setPhase p c.wait) else none
  | _ => none

def Phase.wake (side : End) : Phase → Phase
  | .asleep c => if c.side = side then .woken c else .asleep c
  | other => other

/-- `wakeup` on the channel of an end. -/
def PipeState.wakeAll (s : PipeState ι) (side : End) : PipeState ι :=
  { s with phase := fun q => (s.phase q).wake side }

def wakeup (s : PipeState ι) (p : ι) : Option (PipeState ι) :=
  match s.phase p with
  | .nudging i n => some ((s.wakeAll .read).setPhase p (.dozing (.write i n)))
  | .waking side exit => some ((s.wakeAll side).setPhase p (.releasing exit))
  | _ => none

/-- `sleep` gives up `p->lock` under `ptable.lock`, until the process is asleep. -/
def sleep (s : PipeState ι) (p : ι) : Option (PipeState ι) :=
  match s.phase p with
  | .dozing c => some { s.setPhase p (.asleep c) with lock := none }
  | _ => none

/-- The last `release`; `pipeclose` frees a pipe with both ends closed. -/
def unlock (s : PipeState ι) (p : ι) (exit : Exit) : Option (PipeState ι) :=
  if s.phase p = .releasing exit then
    let both := exit = .closes ∧ s.opened .read = false ∧ s.opened .write = false
    some { s.setPhase p .idle with lock := none, freed := s.freed || decide both }
  else none

def kill (s : PipeState ι) (p : ι) : PipeState ι :=
  let next := match s.phase p with
    | .asleep c => .woken c
    | other => other
  { s.setPhase p next with killed := update s.killed p true }

/-- A descriptor of `p` is copied to `q`: `dup`, or `fork` with the child `q`. -/
def dup (s : PipeState ι) (p q : ι) (side : End) : Option (PipeState ι) :=
  if s.phase p = .idle ∧ s.phase q = .idle ∧ 0 < s.fds p side then
    let fds := update (s.fds q) side (s.fds q side + 1)
    some
      { s with
        fds := update s.fds q fds
        ref := update s.ref side (s.ref side + 1) }
  else none

/-- `fileclose` of a descriptor; the last reference to the file leads to `pipeclose`. -/
def close (s : PipeState ι) (p : ι) (side : End) : Option (PipeState ι) :=
  if s.phase p = .idle ∧ 0 < s.fds p side then
    let fds := update (s.fds p) side (s.fds p side - 1)
    let ref := s.ref side - 1
    let next := if ref > 0 then .idle else .closing side
    some
      { s.setPhase p next with
        fds := update s.fds p fds
        ref := update s.ref side ref }
  else none

/-- `pipeclose` up to its `wakeup`: the users of the other end are to see it. -/
def pipeclose (s : PipeState ι) (p : ι) : Option (PipeState ι) :=
  match s.phase p with
  | .closing side =>
      if s.lock = none then
        some
          { s.setPhase p (.waking side.other .closes) with
            opened := update s.opened side false
            lock := some p }
      else none
  | _ => none

/-- A process without descriptors for the pipe is gone, and its slot is used again. -/
def reuse (s : PipeState ι) (p : ι) : Option (PipeState ι) :=
  if s.phase p = .idle ∧ s.fds p .read = 0 ∧ s.fds p .write = 0 then
    some { s with killed := update s.killed p false }
  else none

def pipeStep (s : PipeState ι) : PipeStep ι → Option (PipeState ι)
  | .write p n user => enter s p user (.write 0 n)
  | .read p n => enter s p (fun _ => 0) (.read n)
  | .resume p user => resume s p user
  | .check p ret => check s p ret
  | .wakeup p => wakeup s p
  | .sleep p => sleep s p
  | .unlock p exit => unlock s p exit
  | .kill p => some (kill s p)
  | .dup p q side => dup s p q side
  | .close p side => close s p side
  | .pipeclose p => pipeclose s p
  | .reuse p => reuse s p

/-- After `sys_pipe` of process `p`, in a page with any contents. -/
def PipeState.pipealloc (data : Fin pipesize → UInt8) (p : ι) : PipeState ι where
  ring := { data, nread := 0, nwrite := 0 }
  opened := fun _ => true
  freed := false
  lock := none
  phase := fun _ => .idle
  killed := fun _ => false
  fds := fun q _ => if q = p then 1 else 0
  ref := fun _ => 1
  stored := []
  handed := []

/-! What a step does. -/

/-- The process holds `p->lock`. -/
def Phase.holds : Phase → Bool
  | .checking _ | .nudging _ _ | .dozing _ | .waking _ _ | .releasing _ => true
  | _ => false

/-- How the holder of the lock goes on from its phase, and the end whose users it wakes. -/
inductive Follows (s : PipeState ι) (p : ι) : Phase → Option End → Phase → Prop
  | gaveUp {c} (gives : givesUp s p c = true) : Follows s p (.checking c) none .idle
  | dozes {n} : Follows s p (.checking (.read n)) none (.dozing (.read n))
  | nudges {i n} (opens : s.opened .read = true)
    : Follows s p (.checking (.write i n)) none (.nudging i n)
  | nudged {i n} : Follows s p (.nudging i n) (some .read) (.dozing (.write i n))
  | woke {side exit} : Follows s p (.waking side exit) (some side) (.releasing exit)
  | slept {c} : Follows s p (.dozing c) none (.asleep c)
  | released {exit} : Follows s p (.releasing exit) none .idle

inductive Moves (s t : PipeState ι) : PipeStep ι → Prop
  | ran {label p user c} (unlocked : s.lock = none)
      (uses : 0 < s.fds p c.side ∨ s.phase p = .woken c) (made : Call.run s p user c = t)
    : Moves s t label
  | went {label p before woken next freed} (phase : s.phase p = before)
      (follows : Follows s p before woken next)
      (checks : ∀ c, before = .checking c → ∃ ret, label = .check p ret)
      (made
        : { s with
            phase := update (woken.elim s.phase fun side q => (s.phase q).wake side) p next
            lock := if next.holds then s.lock else none
            freed } = t)
    : Moves s t label
  | killed {p} (made : kill s p = t) : Moves s t (.kill p)
  | copied {p q side} (made : dup s p q side = some t) : Moves s t (.dup p q side)
  | closed {p side} (made : close s p side = some t) : Moves s t (.close p side)
  | closing {p side} (closing : s.phase p = .closing side) (unlocked : s.lock = none)
      (made
        : { s.setPhase p (.waking side.other .closes) with
            opened := update s.opened side false
            lock := some p } = t)
    : Moves s t (.pipeclose p)
  | reused {p} (made : { s with killed := update s.killed p false } = t) : Moves s t (.reuse p)

theorem pipeStep_moves {s t : PipeState ι} {label : PipeStep ι} (stepped : pipeStep s label = some t)
    : Moves s t label := by
  cases label with
  | write | read =>
    obtain ⟨⟨unlocked, _, opens⟩, ran⟩ := Option.ite_none_right_eq_some.mp stepped
    exact .ran unlocked (.inl opens) (Option.some.inj ran)
  | resume p user =>
    simp only [pipeStep, resume] at stepped
    split at stepped
    case h_2 => cases stepped
    rename_i c woken
    obtain ⟨unlocked, ran⟩ := Option.ite_none_right_eq_some.mp stepped
    exact .ran unlocked (.inr woken) (Option.some.inj ran)
  | check p ret =>
    simp only [pipeStep, check] at stepped
    split at stepped
    case h_2 => cases stepped
    rename_i c checking
    split at stepped
    · rename_i gives
      obtain ⟨_, ⟨⟩⟩ := Option.ite_none_right_eq_some.mp stepped
      exact .went checking (.gaveUp gives) (fun _ _ => ⟨ret, rfl⟩) rfl
    · rename_i goesOn
      obtain ⟨_, ⟨⟩⟩ := Option.ite_none_right_eq_some.mp stepped
      cases c with
      | read n => exact .went checking .dozes (fun _ _ => ⟨ret, rfl⟩) rfl
      | write i n =>
        have opens : s.opened .read = true := by
          simp only [givesUp, Bool.or_eq_true, Bool.not_eq_true', not_or] at goesOn
          simpa using goesOn.1
        exact .went checking (.nudges opens) (fun _ _ => ⟨ret, rfl⟩) rfl
  | wakeup p =>
    simp only [pipeStep, wakeup] at stepped
    split at stepped
    case h_3 => cases stepped
    all_goals
      rename_i before
      cases stepped
    · exact .went before .nudged nofun rfl
    · exact .went before .woke nofun rfl
  | sleep p =>
    simp only [pipeStep, sleep] at stepped
    split at stepped
    case h_2 => cases stepped
    rename_i before
    cases stepped
    exact .went before .slept nofun rfl
  | unlock p exit =>
    obtain ⟨before, ⟨⟩⟩ := Option.ite_none_right_eq_some.mp stepped
    exact .went before .released nofun rfl
  | kill => exact .killed (Option.some.inj stepped)
  | dup => exact .copied stepped
  | close => exact .closed stepped
  | pipeclose p =>
    simp only [pipeStep, pipeclose] at stepped
    split at stepped
    case h_2 => cases stepped
    rename_i side closing
    obtain ⟨unlocked, made⟩ := Option.ite_none_right_eq_some.mp stepped
    exact .closing closing unlocked (Option.some.inj made)
  | reuse p =>
    obtain ⟨_, made⟩ := Option.ite_none_right_eq_some.mp stepped
    exact .reused (Option.some.inj made)

end Xv6.Pipe
