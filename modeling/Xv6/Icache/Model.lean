import Xv6.Lib.Transition
import Xv6.Param

/-! One inode under the locks of `fs.c`: `iget`, `idup`, `ilock`, `iunlock`, `iput` and the
part of `sys_unlink` that drops a link. A section under `icache.lock` and an `acquiresleep`
or `releasesleep` of `ip->lock` are single steps; a panic is the absence of a step.
-/

namespace Xv6.Icache

/-- The fields that decide whether an inode is reclaimed; `blocks` are the data and indirect
blocks its `addrs` reach.
-/
structure Inode where
  type : Int16
  nlink : Int16
  blocks : Finset UInt32
  deriving DecidableEq

/-- Where a process is: outside, between `ilock` and `iunlock`, or inside `iput`, which has
taken the lock, read `ip->ref`, or released the lock and not yet dropped its reference.
-/
inductive Position where
  | out
  | locked
  | putLocked
  | putChecked (r : Nat)
  | dropping
  deriving DecidableEq

/-- A process and the references it owns; `iput` owns the one it is about to drop. -/
structure Proc where
  refs : Nat
  position : Position
  deriving DecidableEq

structure State (ι : Type) where
  disk : Inode
  bitmap : Finset UInt32
  cached : Inode
  valid : Bool
  ref : Nat
  lock : Option ι
  proc : ι → Proc

inductive Step (ι : Type) where
  | iget (p : ι)
  | idup (p q : ι)
  | ilock (p : ι)
  | unlink (p : ι)
  | iunlock (p : ι)
  | iputLock (p : ι)
  | iputReadRef (p : ι)
  | iputUnlock (p : ι)
  | iputDrop (p : ι)
  deriving DecidableEq

/-- Not in the middle of an `iput`. -/
def Position.free : Position → Bool
  | .out | .locked => true
  | _ => false

variable {ι : Type}

/-- The read from disk in `ilock`. -/
def State.load (s : State ι) : State ι :=
  if s.valid then s else { s with cached := s.disk, valid := true }

/-- `itrunc`, `type = 0`, `iupdate`, `valid = 0`. -/
def State.reclaim (s : State ι) : State ι :=
  let freed : Inode := { type := 0, nlink := s.cached.nlink, blocks := ∅ }
  { s with disk := freed, bitmap := s.bitmap \ s.cached.blocks, cached := freed, valid := false }

variable [DecidableEq ι]

def State.at (s : State ι) (p : ι) (next : Proc) : State ι :=
  { s with proc := Function.update s.proc p next }

@[simp] theorem State.at_ref (s : State ι) (p : ι) (next : Proc)
    : (s.at p next).ref = s.ref := rfl

def State.gain (s : State ι) (p : ι) : State ι :=
  s.at p { s.proc p with refs := (s.proc p).refs + 1 }

/-- `iget`: another reference, or a recycled cache entry. -/
def iget (s : State ι) (p : ι) : Option (State ι) :=
  if (s.proc p).position.free then
    if s.ref > 0 then some { s.gain p with ref := s.ref + 1 }
    else some { s.gain p with ref := 1, valid := false }
  else none

/-- `idup` by `p`; `fork` and `clone` give the new reference to another process. -/
def idup (s : State ι) (p q : ι) : Option (State ι) :=
  if (s.proc p).position.free ∧ 0 < (s.proc p).refs then
    some { s.gain q with ref := s.ref + 1 }
  else none

def ilock (s : State ι) (p : ι) : Option (State ι) :=
  if (s.proc p).position = .out ∧ 0 < (s.proc p).refs ∧ s.lock = none
      ∧ (s.valid ∨ s.disk.type ≠ 0) then
    some { s.load.at p { s.proc p with position := .locked } with lock := some p }
  else none

/-- `ip->nlink--; iupdate(ip)` of `sys_unlink`, behind its test of `nlink`. -/
def unlink (s : State ι) (p : ι) : Option (State ι) :=
  if (s.proc p).position = .locked ∧ 1 ≤ s.cached.nlink then
    let updated := { s.cached with nlink := s.cached.nlink - 1 }
    some { s with cached := updated, disk := updated }
  else none

def iunlock (s : State ι) (p : ι) : Option (State ι) :=
  if (s.proc p).position = .locked then
    some { s.at p { s.proc p with position := .out } with lock := none }
  else none

def iputLock (s : State ι) (p : ι) : Option (State ι) :=
  if (s.proc p).position = .out ∧ 0 < (s.proc p).refs ∧ s.lock = none then
    some { s.at p { refs := (s.proc p).refs - 1, position := .putLocked } with lock := some p }
  else none

/-- The section under `icache.lock` in which `iput` reads `ip->ref`. -/
def iputReadRef (s : State ι) (p : ι) : Option (State ι) :=
  if (s.proc p).position = .putLocked ∧ s.valid ∧ s.cached.nlink = 0 then
    some (s.at p { s.proc p with position := .putChecked s.ref })
  else none

/-- The rest of `iput` up to `releasesleep`. -/
def iputUnlock (s : State ι) (p : ι) : Option (State ι) :=
  let dropping : Proc := { s.proc p with position := .dropping }
  match (s.proc p).position with
  | .putLocked =>
      if s.valid ∧ s.cached.nlink = 0 then none else some { s.at p dropping with lock := none }
  | .putChecked r =>
      if r = 1 then some { s.reclaim.at p dropping with lock := none }
      else some { s.at p dropping with lock := none }
  | _ => none

def iputDrop (s : State ι) (p : ι) : Option (State ι) :=
  if (s.proc p).position = .dropping then
    some { s.at p { s.proc p with position := .out } with ref := s.ref - 1 }
  else none

def step (s : State ι) : Step ι → Option (State ι)
  | .iget p => iget s p
  | .idup p q => idup s p q
  | .ilock p => ilock s p
  | .unlink p => unlink s p
  | .iunlock p => iunlock s p
  | .iputLock p => iputLock s p
  | .iputReadRef p => iputReadRef s p
  | .iputUnlock p => iputUnlock s p
  | .iputDrop p => iputDrop s p

/-- An inode on disk that nobody uses. -/
def State.unused (ι : Type) (disk : Inode) (bitmap : Finset UInt32) : State ι where
  disk := disk
  bitmap := bitmap
  cached := disk
  valid := false
  ref := 0
  lock := none
  proc := fun _ => { refs := 0, position := .out }

end Xv6.Icache
