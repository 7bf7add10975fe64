import Xv6.Fs.Path
import Xv6.Lib.Script

/-! The tables that processes share through references: `struct file`, the inode cache, pipes
and the open files of every process, with the operations of `file.c`, `fs.c`, `pipe.c` and
`proc.c` on them.

An operation is one section under a spin lock, or a use of data that only one process can reach.
The contents of files, user memory and page tables are not part of the state: what is read
from them comes as an input.
-/

namespace Xv6.Files

open Lib Fs
open Function (update)

/-- The field `type` of `struct file`, with the field that it says is in use. Pipes are numbered
in the order in which their pages were allocated.
-/
inductive FileType where
  | none
  | pipe (q : Nat)
  | inode (ip : Fin ninode)
  deriving DecidableEq

/-- `struct file`, without the offset. -/
structure File where
  ref : Nat
  type : FileType
  readable : Bool
  writable : Bool
  deriving DecidableEq

/-- A file that `pipealloc` has made an end of pipe `q`. -/
def File.ofPipe (ref q : Nat) (writable : Bool) : File where
  ref := ref
  type := .pipe q
  readable := !writable
  writable := writable

/-- `struct inode`: an entry of the inode cache, with its copy of the disk inode. -/
structure Inode where
  dev : Nat
  inum : Nat
  ref : Nat
  locked : Bool
  valid : Bool
  copy : Dinode
  deriving DecidableEq

/-- The fields of `struct pipe` that say which ends are open. `inits` and `kfrees` count how often
`pipealloc` has made the page a pipe and how often it was given to `kfree`; no step looks at them.
-/
structure Pipe where
  readopen : Bool
  writeopen : Bool
  inits : Nat
  kfrees : Nat
  deriving DecidableEq

/-- The field that `pipeclose` clears. -/
def Pipe.isOpen (pi : Pipe) (writable : Bool) : Bool :=
  if writable then pi.writeopen else pi.readopen

def Pipe.close (pi : Pipe) (writable : Bool) : Pipe :=
  if writable then { pi with writeopen := false } else { pi with readopen := false }

/-- Both ends are closed. -/
def Pipe.isShut (pi : Pipe) : Bool := !pi.readopen && !pi.writeopen

/-- The states of `struct proc`; `live` stands for `SLEEPING`, `RUNNABLE` and `RUNNING`. -/
inductive ProcState where
  | unused
  | embryo
  | live
  | zombie
  deriving DecidableEq

/-- The fields of `struct proc` that refer to files and inodes. -/
structure Proc where
  state : ProcState
  ofile : Fin nofile → Option (Fin nfile)
  cwd : Option (Fin ninode)
  deriving DecidableEq

/-- The kernel: `dinode dev inum` is the disk inode as the buffer cache has it, and `made` is
the number of pages that were allocated for pipes.
-/
structure State where
  ninodes : Nat
  proc : Fin nproc → Proc
  file : Fin nfile → File
  inode : Fin ninode → Inode
  dinode : Nat → Nat → Dinode
  outstanding : Nat
  pipe : Nat → Pipe
  made : Nat

/-- `ROOTDEV`. -/
abbrev rootdev : Nat := 1

/-- What an operation gets from outside the state. -/
structure Input where
  number : Nat
  data : List UInt8

/-- The operations. `choose` and `data` ask for an input, and `panic` never returns. -/
inductive Op where
  | choose
  | data (n : Nat)
  | panic
  | getOfile (p : Fin nproc) (fd : Fin nofile)
  | setOfile (p : Fin nproc) (fd : Fin nofile) (f : Option (Fin nfile))
  | fdalloc (p : Fin nproc) (f : Fin nfile)
  | getCwd (p : Fin nproc)
  | setCwd (p : Fin nproc) (ip : Option (Fin ninode))
  | allocproc
  | freeproc (p : Fin nproc)
  | reap (p : Fin nproc)
  | filealloc
  | filedup (f : Fin nfile)
  | filedrop (f : Fin nfile)
  | getFile (f : Fin nfile)
  | setInodeFile (f : Fin nfile) (ip : Fin ninode) (readable writable : Bool)
  | iget (dev inum : Nat)
  | idup (ip : Fin ninode)
  | getInode (ip : Fin ninode)
  | acquiresleep (ip : Fin ninode)
  | releasesleep (ip : Fin ninode)
  | load (ip : Fin ninode)
  | setValid (ip : Fin ninode) (valid : Bool)
  | setCopy (ip : Fin ninode) (copy : Dinode)
  | iupdate (ip : Fin ninode)
  | dropRef (ip : Fin ninode)
  | ninodes
  | tryAlloc (dev inum : Nat) (type : Int16)
  | balloc
  | beginOp
  | endOp
  | kalloc
  | initPipe (q : Nat) (f0 f1 : Fin nfile)
  | pipeSection (q : Nat)
  | closeEnd (q : Nat) (writable : Bool)
  | kfree (q : Nat)

abbrev Op.Res : Op → Type
  | .choose | .ninodes => Nat
  | .data _ => List UInt8
  | .panic => Empty
  | .getOfile .. | .filealloc => Option (Fin nfile)
  | .fdalloc .. => Option (Fin nofile)
  | .getCwd .. => Option (Fin ninode)
  | .allocproc => Option (Fin nproc)
  | .filedrop _ => Option File
  | .getFile _ => File
  | .iget .. => Fin ninode
  | .getInode _ => Inode
  | .reap _ | .tryAlloc .. | .closeEnd .. => Bool
  | .balloc => UInt32
  | .kalloc => Option Nat
  | _ => Unit

namespace State

@[simp] def setProc (s : State) (p : Fin nproc) (proc : Proc) : State :=
  { s with proc := update s.proc p proc }

@[simp] def setFile (s : State) (f : Fin nfile) (file : File) : State :=
  { s with file := update s.file f file }

@[simp] def setInode (s : State) (ip : Fin ninode) (inode : Inode) : State :=
  { s with inode := update s.inode ip inode }

@[simp] def setDinode (s : State) (dev inum : Nat) (d : Dinode) : State :=
  { s with dinode := update s.dinode dev (update (s.dinode dev) inum d) }

@[simp] def setPipe (s : State) (q : Nat) (pi : Pipe) : State :=
  { s with pipe := update s.pipe q pi }

/-- The disk inode that an entry of the inode cache stands for. -/
def onDisk (s : State) (ip : Fin ninode) : Dinode :=
  s.dinode (s.inode ip).dev (s.inode ip).inum

/-- `iget`: another reference to the entry of the inode, or the first entry without references;
if there is none the kernel panics.
-/
def iget (s : State) (dev inum : Nat) : Option (Fin ninode × State) :=
  match (List.finRange ninode).find? fun ip =>
      0 < (s.inode ip).ref ∧ (s.inode ip).dev = dev ∧ (s.inode ip).inum = inum with
  | some ip => some (ip, s.setInode ip { s.inode ip with ref := (s.inode ip).ref + 1 })
  | none =>
      match (List.finRange ninode).find? fun ip => (s.inode ip).ref = 0 with
      | some ip =>
          some (ip, s.setInode ip
            { s.inode ip with dev := dev, inum := inum, ref := 1, valid := false })
      | none => none

/-- The first section of `fileclose`: the file as it was if that was the last reference. -/
def filedrop (s : State) (f : Fin nfile) : Option (Option File × State) :=
  if (s.file f).ref < 1 then none
  else if 1 < (s.file f).ref then
    some (none, s.setFile f { s.file f with ref := (s.file f).ref - 1 })
  else some (some (s.file f), s.setFile f { s.file f with ref := 0, type := .none })

/-- The section of `pipeclose`; the result says whether both ends are closed. -/
def closeEnd (s : State) (q : Nat) (writable : Bool) : Bool × State :=
  (((s.pipe q).close writable).isShut, s.setPipe q ((s.pipe q).close writable))

end State

/-- An operation on the state, `none` where it panics or has to wait. -/
def exec : (o : Op) → Input → State → Option (o.Res × State)
  | .choose, input, s => some (input.number, s)
  | .data n, input, s => if input.data.length = n then some (input.data, s) else none
  | .panic, _, _ => none
  | .getOfile p fd, _, s => some ((s.proc p).ofile fd, s)
  | .setOfile p fd f, _, s =>
      some ((), s.setProc p { s.proc p with ofile := update (s.proc p).ofile fd f })
  | .fdalloc p f, _, s =>
      match (List.finRange nofile).find? fun fd => (s.proc p).ofile fd = none with
      | none => some (none, s)
      | some fd =>
          some (some fd, s.setProc p
            { s.proc p with ofile := update (s.proc p).ofile fd (some f) })
  | .getCwd p, _, s => some ((s.proc p).cwd, s)
  | .setCwd p ip, _, s => some ((), s.setProc p { s.proc p with cwd := ip })
  | .allocproc, _, s =>
      match (List.finRange nproc).find? fun p => (s.proc p).state = .unused with
      | none => some (none, s)
      | some p => some (some p, s.setProc p { s.proc p with state := .embryo })
  | .freeproc p, _, s => some ((), s.setProc p { s.proc p with state := .unused })
  | .reap p, _, s =>
      if (s.proc p).state = .zombie then
        some (true, s.setProc p { s.proc p with state := .unused })
      else some (false, s)
  | .filealloc, _, s =>
      match (List.finRange nfile).find? fun f => (s.file f).ref = 0 with
      | none => some (none, s)
      | some f => some (some f, s.setFile f { s.file f with ref := 1 })
  | .filedup f, _, s =>
      if (s.file f).ref < 1 then none
      else some ((), s.setFile f { s.file f with ref := (s.file f).ref + 1 })
  | .filedrop f, _, s => s.filedrop f
  | .getFile f, _, s => some (s.file f, s)
  | .setInodeFile f ip readable writable, _, s =>
      some ((), s.setFile f { ref := (s.file f).ref, type := .inode ip, readable, writable })
  | .iget dev inum, _, s => s.iget dev inum
  | .idup ip, _, s =>
      some ((), s.setInode ip { s.inode ip with ref := (s.inode ip).ref + 1 })
  | .getInode ip, _, s => some (s.inode ip, s)
  | .acquiresleep ip, _, s =>
      if (s.inode ip).locked then none
      else some ((), s.setInode ip { s.inode ip with locked := true })
  | .releasesleep ip, _, s => some ((), s.setInode ip { s.inode ip with locked := false })
  | .load ip, _, s => some ((), s.setInode ip { s.inode ip with copy := s.onDisk ip })
  | .setValid ip valid, _, s => some ((), s.setInode ip { s.inode ip with valid })
  | .setCopy ip copy, _, s => some ((), s.setInode ip { s.inode ip with copy })
  | .iupdate ip, _, s =>
      some ((), s.setDinode (s.inode ip).dev (s.inode ip).inum (s.inode ip).copy)
  | .dropRef ip, _, s =>
      some ((), s.setInode ip { s.inode ip with ref := (s.inode ip).ref - 1 })
  | .ninodes, _, s => some (s.ninodes, s)
  | .tryAlloc dev inum type, _, s =>
      if (s.dinode dev inum).type = 0 then some (true, s.setDinode dev inum (.blank type))
      else some (false, s)
  -- the bit of block 0 is set in the bitmap, so `balloc` never returns it
  | .balloc, input, s =>
      if UInt32.ofNat input.number = 0 then none else some (UInt32.ofNat input.number, s)
  | .beginOp, _, s => some ((), { s with outstanding := s.outstanding + 1 })
  | .endOp, _, s => some ((), { s with outstanding := s.outstanding - 1 })
  | .kalloc, input, s =>
      if input.number = 0 then some (none, s)
      else some (some s.made, { s with made := s.made + 1 })
  | .initPipe q f0 f1, _, s =>
      let s := s.setPipe q
        { s.pipe q with readopen := true, writeopen := true, inits := (s.pipe q).inits + 1 }
      let s := s.setFile f0 (.ofPipe (s.file f0).ref q false)
      some ((), s.setFile f1 (.ofPipe (s.file f1).ref q true))
  | .pipeSection _, _, s => some ((), s)
  | .closeEnd q writable, _, s => some (s.closeEnd q writable)
  | .kfree q, _, s => some ((), s.setPipe q { s.pipe q with kfrees := (s.pipe q).kfrees + 1 })

/-- `np->state = RUNNABLE`. -/
@[simp] def State.born (p : Fin nproc) (s : State) : State :=
  s.setProc p { s.proc p with state := .live }

/-- `curproc->state = ZOMBIE`. -/
@[simp] def State.dead (p : Fin nproc) (s : State) : State :=
  s.setProc p { s.proc p with state := .zombie }

end Xv6.Files
