import Xv6.Param
import Xv6.Lib.Recency
import Xv6.Lib.ProcessSum
import Xv6.Lib.Transition

/-! The buffer cache of `bio.c` over the memory disk of `memide.c`.
A user is one use of the cache, from the call of `bread` to the end of `brelse`; a process with
two buffers is two users. Sections of `bcache.lock`, the sleep lock of a buffer and the accesses
of its holder are steps.
-/

namespace Xv6.Bio

open Xv6.Lib

/-- The panics of `bget` and `iderw`. -/
inductive Panic where
  | noBuffers
  | notLocked
  | nothingToDo
  | notForDisk1
  | outOfRange
  deriving DecidableEq

abbrev BufId := Fin nbuf

/-- `struct buf`; `lock` has the user that holds the sleep lock. -/
structure Buf (ι : Type) where
  valid : Bool
  dirty : Bool
  dev : UInt32
  blockno : UInt32
  refcnt : Nat
  lock : Option ι
  data : Block

/-- Where a user is: `bget` has found its buffer, it has the lock, `bread` has returned, it has
released the lock. `changed` says that the data were changed and not yet passed to `bwrite` or
`log_write`.
-/
inductive Use where
  | idle
  | waiting (x : BufId)
  | locked (x : BufId)
  | ready (x : BufId) (changed : Bool)
  | released (x : BufId)
  deriving DecidableEq

/-- The cache, most recently used buffer first, and the disk. `contents` records what was last
passed to `bwrite` or `log_write` for each block of disk 1; no function looks at it.
-/
structure Cache (ι : Type) where
  buf : BufId → Buf ι
  order : List BufId
  disk : UInt32 → Block
  disksize : UInt32
  use : ι → Use
  contents : UInt32 → Block
  panic : Option Panic

/-- The buffer caches this block. -/
def Buf.caches {ι : Type} (buf : Buf ι) (dev blockno : UInt32) : Bool :=
  buf.dev == dev && buf.blockno == blockno

/-- `b->refcnt == 0 && (b->flags & B_DIRTY) == 0`. -/
def Buf.unused {ι : Type} (buf : Buf ι) : Bool := buf.refcnt == 0 && !buf.dirty

variable {ι : Type}

def Cache.setBuf (s : Cache ι) (x : BufId) (buf : Buf ι) : Cache ι :=
  { s with buf := Function.update s.buf x buf }

/-- `iderw` of `memide.c`. -/
def iderw (s : Cache ι) (x : BufId) : Cache ι :=
  let b := s.buf x
  if b.lock.isNone then { s with panic := some .notLocked }
  else if b.valid && !b.dirty then { s with panic := some .nothingToDo }
  else if b.dev ≠ 1 then { s with panic := some .notForDisk1 }
  else if b.blockno ≥ s.disksize then { s with panic := some .outOfRange }
  else if b.dirty then
    { s.setBuf x { b with dirty := false, valid := true } with
      disk := Function.update s.disk b.blockno b.data }
  else s.setBuf x { b with data := s.disk b.blockno, valid := true }

/-- The contents of the buffer become those of its block. -/
def Cache.give (s : Cache ι) (x : BufId) : Cache ι :=
  { s with contents := Function.update s.contents (s.buf x).blockno (s.buf x).data }

variable [DecidableEq ι]

def Cache.setUse (s : Cache ι) (c : ι) (use : Use) : Cache ι :=
  { s with use := Function.update s.use c use }

/-- `bget` up to its release of `bcache.lock`. -/
def bget (s : Cache ι) (c : ι) (dev blockno : UInt32) : Option (Cache ι) :=
  if s.use c = .idle then
    match s.order.find? fun x => (s.buf x).caches dev blockno with
    | some x =>
        some ((s.setBuf x { s.buf x with refcnt := (s.buf x).refcnt + 1 }).setUse c (.waiting x))
    | none =>
        match s.order.reverse.find? fun x => (s.buf x).unused with
        | some x =>
            let next := { s.buf x with dev, blockno, valid := false, dirty := false, refcnt := 1 }
            some ((s.setBuf x next).setUse c (.waiting x))
        | none => some { s with panic := some .noBuffers }
  else none

/-- `acquiresleep(&b->lock)`, once it succeeds. -/
def acquiresleep (s : Cache ι) (c : ι) : Option (Cache ι) :=
  match s.use c with
  | .waiting x =>
      if (s.buf x).lock = none then
        some ((s.setBuf x { s.buf x with lock := some c }).setUse c (.locked x))
      else none
  | _ => none

/-- The rest of `bread`. -/
def bread (s : Cache ι) (c : ι) : Option (Cache ι) :=
  match s.use c with
  | .locked x =>
      if (s.buf x).valid then some (s.setUse c (.ready x false))
      else
        let after := iderw s x
        some (if after.panic.isSome then after else after.setUse c (.ready x false))
  | _ => none

/-- The holder changes the data. -/
def modify (s : Cache ι) (c : ι) (data : Block) : Option (Cache ι) :=
  match s.use c with
  | .ready x _ => some ((s.setBuf x { s.buf x with data }).setUse c (.ready x true))
  | _ => none

def bwrite (s : Cache ι) (c : ι) : Option (Cache ι) :=
  match s.use c with
  | .ready x _ =>
      let after := iderw (s.setBuf x { s.buf x with dirty := true }) x
      some (if after.panic.isSome then after else (after.give x).setUse c (.ready x false))
  | _ => none

/-- `b->flags |= B_DIRTY`, the part of `log_write` that concerns the cache. -/
def logDirty (s : Cache ι) (c : ι) : Option (Cache ι) :=
  match s.use c with
  | .ready x _ =>
      some (((s.setBuf x { s.buf x with dirty := true }).give x).setUse c (.ready x false))
  | _ => none

/-- `brelse` up to its `releasesleep`; the data were passed on before. -/
def releasesleep (s : Cache ι) (c : ι) : Option (Cache ι) :=
  match s.use c with
  | .ready x false =>
      some ((s.setBuf x { s.buf x with lock := none }).setUse c (.released x))
  | _ => none

/-- The rest of `brelse`: a buffer without users becomes the most recently used one. -/
def brelse (s : Cache ι) (c : ι) : Option (Cache ι) :=
  match s.use c with
  | .released x =>
      let left := (s.buf x).refcnt - 1
      let dropped := (s.setBuf x { s.buf x with refcnt := left }).setUse c .idle
      some (if left = 0 then { dropped with order := touch x s.order } else dropped)
  | _ => none

/-- What users do to the cache. -/
inductive Action where
  | bget (dev blockno : UInt32)
  | acquiresleep
  | bread
  | modify (data : Block)
  | bwrite
  | logDirty
  | releasesleep
  | brelse

/-- One step of a user; a panic stops the machine. -/
def act (s : Cache ι) (c : ι) (action : Action) : Option (Cache ι) :=
  if s.panic.isSome then none
  else
    match action with
    | .bget dev blockno => bget s c dev blockno
    | .acquiresleep => acquiresleep s c
    | .bread => bread s c
    | .modify data => modify s c data
    | .bwrite => bwrite s c
    | .logDirty => logDirty s c
    | .releasesleep => releasesleep s c
    | .brelse => brelse s c

/-- After `binit`: all buffers carry device 0 and block 0, and each was put in front. -/
def Cache.binit (ι : Type) (disk : UInt32 → Block) (disksize : UInt32) : Cache ι where
  buf := fun _ =>
    { valid := false, dirty := false, dev := 0, blockno := 0, refcnt := 0, lock := none
      data := fun _ => 0 }
  order := (List.finRange nbuf).reverse
  disk := disk
  disksize := disksize
  use := fun _ => .idle
  contents := disk
  panic := none

end Xv6.Bio
