import Xv6.Sched.Sleep

/-! The sleep locks of `sleeplock.c`. A section under `lk->lk` is one step, but a process that
finds the lock taken leaves its section inside `sleep`, with `ptable.lock`, and is asleep only
after another step.
-/

namespace Xv6.Lock

open Xv6.Lib
open Xv6.Proc (ProcState)

/-- `struct sleeplock`, without its spin lock and its name. -/
structure Sleeplock where
  locked : UInt32
  pid : Int32
  deriving DecidableEq

def initsleeplock : Sleeplock := ⟨0, 0⟩

/-- What `acquiresleep` stores after its loop. -/
def Sleeplock.take (lk : Sleeplock) (pid : Int32) : Sleeplock := { lk with locked := 1, pid }

/-- What `releasesleep` stores. -/
def Sleeplock.clear (lk : Sleeplock) : Sleeplock := { lk with locked := 0, pid := 0 }

/-- `holdingsleep` looks at `locked` only. -/
def holdingsleep (lk : Sleeplock) : UInt32 := lk.locked

/-- Where a process is in `acquiresleep`, or in some `sleep` of other code. -/
inductive Phase where
  | outside
  -- in `sleep`, with `ptable.lock`, after `release(lk)`
  | parking
  -- in `sched`, which this `sleep` has called
  | parked
  -- in `sleep`, before `acquire(lk)`
  | relocking
  -- in another `sleep`
  | elsewhere
  deriving DecidableEq

def Phase.holdsTable : Phase → Bool
  | .parking => true
  | _ => false

/-- One lock and the processes. `acquired p` says that `p` has come back from `acquiresleep` and
has not called `releasesleep` since; no function looks at it.
-/
structure State (π χ : Type) where
  lk : Sleeplock
  proc : π → Sleep.Proc χ
  phase : π → Phase
  acquired : π → Bool
  ptable : Option π

variable {π χ : Type} [DecidableEq π] [DecidableEq χ]

def State.edit (s : State π χ) (p : π) (proc : Sleep.Proc χ) (next : Phase) : State π χ :=
  { s with proc := Function.update s.proc p proc, phase := Function.update s.phase p next }

def State.mark (s : State π χ) (p : π) (has : Bool) : State π χ :=
  { s with acquired := Function.update s.acquired p has }

def wakeup1 (s : State π χ) (c : χ) : State π χ :=
  { s with proc := fun q => (s.proc q).wake c }

/-- The section of `acquiresleep`, from `acquire(&lk->lk)` or from the end of its `sleep`: the
lock is taken, or the process goes to `sleep`.
-/
def acquiresleep (s : State π χ) (p : π) (pid : Int32) : Option (State π χ) :=
  if s.lk.locked = 0 then
    some { (s.edit p (s.proc p) .outside).mark p true with lk := s.lk.take pid }
  else if s.ptable = none then
    some { s.edit p (s.proc p) .parking with ptable := some p }
  else none

/-- `sleep` from `p->chan = chan` to the switch in `sched`, after which the scheduler releases
`ptable.lock`.
-/
def park (s : State π χ) (p : π) (lk : χ) : State π χ :=
  { s.edit p ⟨.sleeping, some lk⟩ .parked with ptable := none }

/-- The section of `releasesleep`, which wakes up the processes that wait for the lock. -/
def releasesleep (s : State π χ) (p : π) (lk : χ) : State π χ :=
  { (wakeup1 s lk).mark p false with lk := s.lk.clear }

/-- What a process does when it is switched to: one that comes out of `sleep` clears `chan`. -/
def resume (s : State π χ) (p : π) : State π χ :=
  match s.phase p with
  | .parked => s.edit p ⟨.running, none⟩ .relocking
  | .elsewhere => s.edit p ⟨.running, none⟩ .outside
  | phase => s.edit p ⟨.running, (s.proc p).chan⟩ phase

/-- The effect of `kill` on a sleeping process. -/
def rouse (s : State π χ) (p : π) : State π χ :=
  if (s.proc p).state = .sleeping then s.edit p ⟨.runnable, (s.proc p).chan⟩ (s.phase p) else s

/-- `sleep` and `wakeup` are those of other code, on channels that are not the lock. -/
inductive Label (π χ : Type) where
  | acquiresleep (p : π)
  | park (p : π)
  | releasesleep (p : π)
  | schedule (p : π)
  | yield (p : π)
  | sleep (p : π) (c : χ)
  | wakeup (c : χ)
  | kill (p : π)

/-- One step; `lk` is the address of the lock, as a channel. -/
def step (pid : π → Int32) (lk : χ) (s : State π χ) : Label π χ → Option (State π χ)
  | .acquiresleep p =>
      if (s.proc p).state = .running ∧ (s.phase p = .outside ∨ s.phase p = .relocking) then
        acquiresleep s p (pid p)
      else none
  | .park p =>
      if (s.proc p).state = .running ∧ s.phase p = .parking then some (park s p lk) else none
  -- The `wakeup` in `releasesleep` waits for `ptable.lock`.
  | .releasesleep p =>
      if (s.proc p).state = .running ∧ s.phase p = .outside ∧ s.ptable = none then
        some (releasesleep s p lk)
      else none
  | .schedule p =>
      if (s.proc p).state = .runnable ∧ s.ptable = none then some (resume s p) else none
  | .yield p =>
      if (s.proc p).state = .running ∧ s.ptable = none then
        some (s.edit p ⟨.runnable, (s.proc p).chan⟩ (s.phase p))
      else none
  | .sleep p c =>
      if (s.proc p).state = .running ∧ s.phase p = .outside ∧ s.ptable = none ∧ c ≠ lk then
        some (s.edit p ⟨.sleeping, some c⟩ .elsewhere)
      else none
  | .wakeup c => if s.ptable = none then some (wakeup1 s c) else none
  | .kill p => if s.ptable = none then some (rouse s p) else none

/-- After `initsleeplock`, with all processes outside. -/
def State.start : State π χ where
  lk := initsleeplock
  proc := fun _ => ⟨.runnable, none⟩
  phase := fun _ => .outside
  acquired := fun _ => false
  ptable := none

/-! The functions that insist on a lock. -/

/-- The fields of `struct buf` that decide what becomes of a call. -/
structure Buf where
  valid : Bool
  dirty : Bool
  dev : UInt32
  lock : Sleeplock
  refcnt : UInt32
  deriving DecidableEq

/-- `iderw` of `ide.c`, up to the end of the request. -/
def iderw (b : Buf) (havedisk1 : Bool) : Except String Buf :=
  if holdingsleep b.lock = 0 then .error "iderw: buf not locked"
  else if b.valid && !b.dirty then .error "iderw: nothing to do"
  else if b.dev ≠ 0 ∧ havedisk1 = false then .error "iderw: ide disk 1 not present"
  else .ok { b with valid := true, dirty := false }

def bwrite (b : Buf) (havedisk1 : Bool) : Except String Buf :=
  if holdingsleep b.lock = 0 then .error "bwrite"
  else iderw { b with dirty := true } havedisk1

def brelse (b : Buf) : Except String Buf :=
  if holdingsleep b.lock = 0 then .error "brelse"
  else .ok { b with lock := b.lock.clear, refcnt := b.refcnt - 1 }

/-- The fields of `struct inode` that `iunlock` looks at. -/
structure Inode where
  ref : Int32
  lock : Sleeplock
  deriving DecidableEq

def iunlock : Option Inode → Except String Inode
  | none => .error "iunlock"
  | some ip =>
      if holdingsleep ip.lock = 0 ∨ ip.ref < 1 then .error "iunlock"
      else .ok { ip with lock := ip.lock.clear }

end Xv6.Lock
