import Xv6.Files.Scripts

/-! The system calls of `sysfile.c` and `proc.c` on files, pipes and processes as scripts of
operations, with `file.c`, `pipe.c` and `exec.c`.
-/

namespace Xv6.Files

open Lib Fs

section Pipes

/-- `pipeclose`; its argument `writable` selects the end. -/
def pipeclose (q : Nat) (writable : Bool) : Sys Unit := do
  let both ← perform (.closeEnd q writable)
  if both then perform (.kfree q) else pure ()

/-- The sections of `p->lock` of a call that sleeps `sleeps` times. -/
def pipeSections (q : Nat) : (sleeps : Nat) → Sys Unit
  | 0 => perform (.pipeSection q)
  | sleeps + 1 => do
      perform (.pipeSection q)
      pipeSections q sleeps

/-- `piperead` and `pipewrite`: how often they sleep and what they return depends on the bytes in
the pipe.
-/
def piperw (q : Nat) : Sys (Option Nat) := do
  let sleeps ← choose
  pipeSections q sleeps
  let r ← choose
  pure (if r = 0 then none else some (r - 1))

end Pipes

section OpenFiles

/-- `fileclose`. -/
def fileclose (f : Fin nfile) : Sys Unit := do
  let last ← perform (.filedrop f)
  match last with
  | none => pure ()
  | some ff =>
      match ff.type with
      | .pipe q => pipeclose q ff.writable
      | .inode ip => do
          beginOp
          iput ip
          endOp
      | .none => pure ()

/-- `pipealloc`: the files of the read end and the write end. -/
def pipealloc : Sys (Option (Fin nfile × Fin nfile)) := do
  let f0 ← perform .filealloc
  match f0 with
  | none => pure none
  | some f0 => do
      let f1 ← perform .filealloc
      match f1 with
      | none => do
          fileclose f0
          pure none
      | some f1 => do
          let page ← perform .kalloc
          match page with
          | none => do
              fileclose f0
              fileclose f1
              pure none
          | some q => do
              perform (.initPipe q f0 f1)
              pure (some (f0, f1))

/-- `fileread`; the offset of the file is an input. -/
def fileread (f : Fin nfile) (n : Nat) : Sys (Option Nat) := do
  let file ← perform (.getFile f)
  if !file.readable then pure none
  else
    match file.type with
    | .pipe q => piperw q
    | .inode ip => do
        ilock ip
        let off ← choose
        let r ← readi ip (off % 2 ^ 32) n
        iunlock ip
        pure (r.map List.length)
    | .none => panic

/-- The bytes of one transaction of `filewrite`. -/
def maxWrite : Nat := (logSize - 1 - 1 - 2) / 2 * 512

/-- The loop of `filewrite`, with `n` bytes to go; each pass writes at least one. -/
def writeChunks (ip : Fin ninode) : (fuel n : Nat) → Sys Bool
  | 0, _ => pure true
  | fuel + 1, n =>
      if n = 0 then pure true
      else do
        beginOp
        ilock ip
        let off ← choose
        let r ← writei ip (off % 2 ^ 32) (min n maxWrite)
        iunlock ip
        endOp
        match r with
        | none => pure false
        | some r => if r = min n maxWrite then writeChunks ip fuel (n - r) else panic

/-- `filewrite`. -/
def filewrite (f : Fin nfile) (n : Nat) : Sys (Option Nat) := do
  let file ← perform (.getFile f)
  if !file.writable then pure none
  else
    match file.type with
    | .pipe q => piperw q
    | .inode ip => do
        let written ← writeChunks ip n n
        pure (if written then some n else none)
    | .none => panic

end OpenFiles

section Descriptors

/-- `argfd`; the argument is `none` if it is not the number of a slot. -/
def argfd (p : Fin nproc) (fd : Option (Fin nofile)) : Sys (Option (Fin nofile × Fin nfile)) :=
  match fd with
  | none => pure none
  | some fd => do
      let f ← perform (.getOfile p fd)
      pure (f.map fun f => (fd, f))

def sysDup (p : Fin nproc) (fd : Option (Fin nofile)) : Sys (Option Nat) := do
  let found ← argfd p fd
  match found with
  | none => pure none
  | some (_, f) => do
      let fd ← perform (.fdalloc p f)
      match fd with
      | none => pure none
      | some fd => do
          perform (.filedup f)
          pure (some fd.val)

/-- `sys_read`; `n` is `none` if its arguments cannot be fetched. -/
def sysRead (p : Fin nproc) (fd : Option (Fin nofile)) (n : Option Nat) : Sys (Option Nat) := do
  let found ← argfd p fd
  match found, n with
  | some (_, f), some n => fileread f n
  | _, _ => pure none

def sysWrite (p : Fin nproc) (fd : Option (Fin nofile)) (n : Option Nat) : Sys (Option Nat) := do
  let found ← argfd p fd
  match found, n with
  | some (_, f), some n => filewrite f n
  | _, _ => pure none

def sysClose (p : Fin nproc) (fd : Option (Fin nofile)) : Sys (Option Nat) := do
  let found ← argfd p fd
  match found with
  | none => pure none
  | some (fd, f) => do
      perform (.setOfile p fd none)
      fileclose f
      pure (some 0)

/-- `sys_pipe`; `fds` says whether `argptr` accepts its argument. -/
def sysPipe (p : Fin nproc) (fds : Bool) : Sys (Option Nat) :=
  if !fds then pure none
  else do
    let made ← pipealloc
    match made with
    | none => pure none
    | some (rf, wf) => do
        let fd0 ← perform (.fdalloc p rf)
        match fd0 with
        | none => do
            fileclose rf
            fileclose wf
            pure none
        | some fd0 => do
            let fd1 ← perform (.fdalloc p wf)
            match fd1 with
            | none => do
                perform (.setOfile p fd0 none)
                fileclose rf
                fileclose wf
                pure none
            | some _ => pure (some 0)

end Descriptors

section Names

/-- The label `bad` of `sys_link`: take the link back. -/
def linkBad (ip : Fin ninode) : Sys (Option Nat) := do
  ilock ip
  assign ip fun d => { d with nlink := d.nlink - 1 }
  iupdate ip
  iunlockput ip
  endOp
  pure none

/-- `dp->dev != ip->dev || dirlink(dp, name, ip->inum) < 0`, negated. -/
def linkEntry (dp ip : Fin ninode) (name : List UInt8) : Sys Bool := do
  let d ← getInode dp
  let i ← getInode ip
  if d.dev ≠ i.dev then pure false else dirlink dp name

/-- The part of `sys_link` after the link count of `ip` has been raised. -/
def linkInto (p : Fin nproc) (ip : Fin ninode) (path : List UInt8) : Sys (Option Nat) := do
  let found ← nameiparent p path
  match found with
  | none => linkBad ip
  | some (dp, name) => do
      ilock dp
      let linked ← linkEntry dp ip name
      iunlockput dp
      if linked then do
        iput ip
        endOp
        pure (some 0)
      else linkBad ip

def sysLink (p : Fin nproc) (old new : List UInt8) : Sys (Option Nat) := do
  beginOp
  let found ← namei p old
  match found with
  | none => do
      endOp
      pure none
  | some ip => do
      ilock ip
      let i ← getInode ip
      if i.copy.type = tDir then do
        iunlockput ip
        endOp
        pure none
      else do
        assign ip fun d => { d with nlink := d.nlink + 1 }
        iupdate ip
        iunlock ip
        linkInto p ip new

/-- The loop of `isdirempty`. -/
def emptyFrom (dp : Fin ninode) : List Nat → Sys Bool
  | [] => pure true
  | off :: rest => do
      let de ← readDirent dp off
      if de.inum ≠ 0 then pure false else emptyFrom dp rest

/-- `isdirempty`: no entries but the first two, `.` and `..`. -/
def isdirempty (dp : Fin ninode) : Sys Bool := do
  let d ← getInode dp
  emptyFrom dp (direntOffsets 2 d.copy.size.toNat)

/-- `ip->type == T_DIR && !isdirempty(ip)`, negated. -/
def removable (ip : Fin ninode) : Sys Bool := do
  let i ← getInode ip
  if i.copy.type = tDir then isdirempty ip else pure true

/-- `if(ip->type == T_DIR){ dp->nlink--; iupdate(dp); }`. -/
def dropParentLink (dp ip : Fin ninode) : Sys Unit := do
  let i ← getInode ip
  if i.copy.type = tDir then do
    assign dp fun d => { d with nlink := d.nlink - 1 }
    iupdate dp
  else pure ()

/-- The part of `sys_unlink` that removes the entry of `dp` at `off`. -/
def removeEntry (dp ip : Fin ninode) (off : Nat) : Sys (Option Nat) := do
  let written ← writei dp off direntSize
  if written = some direntSize then do
    dropParentLink dp ip
    iunlockput dp
    assign ip fun d => { d with nlink := d.nlink - 1 }
    iupdate ip
    iunlockput ip
    endOp
    pure (some 0)
  else panic

/-- The label `bad` of `sys_unlink`. -/
def unlinkBad (dp : Fin ninode) : Sys (Option Nat) := do
  iunlockput dp
  endOp
  pure none

/-- The part of `sys_unlink` after the entry of `dp` at `off` was found to name `ip`. -/
def unlinkEntry (dp ip : Fin ninode) (off : Nat) : Sys (Option Nat) := do
  ilock ip
  let i ← getInode ip
  if i.copy.nlink < 1 then panic
  else do
    let empty ← removable ip
    if empty then removeEntry dp ip off
    else do
      iunlockput ip
      unlinkBad dp

def sysUnlink (p : Fin nproc) (path : List UInt8) : Sys (Option Nat) := do
  beginOp
  let found ← nameiparent p path
  match found with
  | none => do
      endOp
      pure none
  | some (dp, name) => do
      ilock dp
      if namecmp name dot = 0 ∨ namecmp name dotdot = 0 then unlinkBad dp
      else do
        let present ← dirlookup dp name
        match present with
        | none => unlinkBad dp
        | some (ip, off) => unlinkEntry dp ip off

/-- The `.` and `..` entries of a directory that `create` makes in `dp`. -/
def createDots (type : Int16) (dp ip : Fin ninode) : Sys Unit :=
  if type = tDir then do
    assign dp fun d => { d with nlink := d.nlink + 1 }
    iupdate dp
    let first ← dirlink ip dot
    if first then do
      let second ← dirlink ip dotdot
      if second then pure () else panic
    else panic
  else pure ()

/-- The part of `create` for a name that is not in `dp` yet. -/
def createIn (dp : Fin ninode) (name : List UInt8) (type major minor : Int16)
    : Sys (Fin ninode) := do
  let d ← getInode dp
  let ip ← ialloc d.dev type
  ilock ip
  assign ip fun d => { d with major := major, minor := minor, nlink := 1 }
  iupdate ip
  createDots type dp ip
  let linked ← dirlink dp name
  if linked then do
    iunlockput dp
    pure ip
  else panic

/-- The part of `create` for a name that `dp` has already. -/
def createOver (dp ip : Fin ninode) (type : Int16) : Sys (Option (Fin ninode)) := do
  iunlockput dp
  ilock ip
  let i ← getInode ip
  if type = tFile ∧ i.copy.type = tFile then pure (some ip)
  else do
    iunlockput ip
    pure none

/-- `create`: the inode, locked and with a reference, or `none` for the result `0`. -/
def create (p : Fin nproc) (path : List UInt8) (type major minor : Int16)
    : Sys (Option (Fin ninode)) := do
  let found ← nameiparent p path
  match found with
  | none => pure none
  | some (dp, name) => do
      ilock dp
      let present ← dirlookup dp name
      match present with
      | some (ip, _) => createOver dp ip type
      | none => do
          let ip ← createIn dp name type major minor
          pure (some ip)

/-- The first part of `sys_open`: the inode, locked and with a reference. -/
def openInode (p : Fin nproc) (path : List UInt8) (omode : UInt32)
    : Sys (Option (Fin ninode)) :=
  if omode &&& oCreate ≠ 0 then create p path tFile 0 0
  else do
    let found ← namei p path
    match found with
    | none => pure none
    | some ip => do
        ilock ip
        let i ← getInode ip
        if i.copy.type = tDir ∧ omode ≠ 0 then do
          iunlockput ip
          pure none
        else pure (some ip)

/-- The second part of `sys_open`: a file and a descriptor for the inode. -/
def openFile (p : Fin nproc) (ip : Fin ninode) (omode : UInt32) : Sys (Option Nat) := do
  let f ← perform .filealloc
  match f with
  | none => do
      iunlockput ip
      endOp
      pure none
  | some f => do
      let fd ← perform (.fdalloc p f)
      match fd with
      | none => do
          fileclose f
          iunlockput ip
          endOp
          pure none
      | some fd => do
          iunlock ip
          endOp
          perform (.setInodeFile f ip (omode &&& oWronly = 0)
            (omode &&& oWronly ≠ 0 ∨ omode &&& oRdwr ≠ 0))
          pure (some fd.val)

def sysOpen (p : Fin nproc) (path : List UInt8) (omode : UInt32) : Sys (Option Nat) := do
  beginOp
  let found ← openInode p path omode
  match found with
  | none => do
      endOp
      pure none
  | some ip => openFile p ip omode

/-- `sys_mkdir` and `sys_mknod`; the arguments are `none` if they cannot be fetched. -/
def make (p : Fin nproc) (type : Int16) (args : Option (List UInt8 × Int16 × Int16))
    : Sys (Option Nat) := do
  beginOp
  let made ← match args with
    | none => pure none
    | some (path, major, minor) => create p path type major minor
  match made with
  | none => do
      endOp
      pure none
  | some ip => do
      iunlockput ip
      endOp
      pure (some 0)

def sysMkdir (p : Fin nproc) (path : Option (List UInt8)) : Sys (Option Nat) :=
  make p tDir (path.map fun path => (path, 0, 0))

def sysMknod (p : Fin nproc) (args : Option (List UInt8 × Int16 × Int16)) : Sys (Option Nat) :=
  make p tDev args

def sysChdir (p : Fin nproc) (path : Option (List UInt8)) : Sys (Option Nat) := do
  beginOp
  let found ← match path with
    | none => pure none
    | some path => namei p path
  match found with
  | none => do
      endOp
      pure none
  | some ip => do
      ilock ip
      let i ← getInode ip
      if i.copy.type ≠ tDir then do
        iunlockput ip
        endOp
        pure none
      else do
        iunlock ip
        let cwd ← cwdOf p
        iput cwd
        endOp
        perform (.setCwd p (some ip))
        pure (some 0)

end Names

section Exec

/-- The bytes of a structure that `readi` has read. -/
def bytesOf (read : List UInt8) : Bytes := fun k => read.getD k 0

/-- `loaduvm`, with `sz` bytes to go: one page for each pass. -/
def loaduvm (ip : Fin ninode) : (fuel off sz : Nat) → Sys Bool
  | 0, _, _ => pure true
  | fuel + 1, off, sz =>
      if sz = 0 then pure true
      else do
        let read ← readi ip (off % 2 ^ 32) (min sz pgsize)
        if read.map List.length = some (min sz pgsize) then
          loaduvm ip fuel (off + pgsize) (sz - min sz pgsize)
        else pure false

/-- One pass of the loop of `exec` over the program headers. The tests on the header and
`allocuvm` depend on the address space too, so their outcome is an input.
-/
def loadHeader (ip : Fin ninode) (off : Nat) : Sys Bool := do
  let read ← readi ip (off % 2 ^ 32) 32
  match read with
  | none => pure false
  | some read =>
      if read.length ≠ 32 then pure false
      else if (bytesOf read).word 0 ≠ 1 then pure true
      else do
        let mapped ← choose
        if mapped = 0 then pure false
        else
          loaduvm ip ((bytesOf read).word 16).toNat ((bytesOf read).word 4).toNat
            ((bytesOf read).word 16).toNat

def loadHeaders (ip : Fin ninode) : (phnum off : Nat) → Sys Bool
  | 0, _ => pure true
  | phnum + 1, off => do
      let loaded ← loadHeader ip off
      if loaded then loadHeaders ip phnum (off + 32) else pure false

/-- The part of `exec` that reads the file; `setupkvm` may fail. -/
def loadImage (ip : Fin ninode) : Sys Bool := do
  let read ← readi ip 0 52
  match read with
  | none => pure false
  | some elf =>
      if elf.length ≠ 52 ∨ (bytesOf elf).word 0 ≠ 0x464C457F then pure false
      else do
        let pgdir ← choose
        if pgdir = 0 then pure false
        else loadHeaders ip ((bytesOf elf).short 44).toNat ((bytesOf elf).word 28).toNat

/-- `exec`. The file is given back before the stack and the arguments are set up, and by the label
`bad` only if it was not given back before. The path is `none` if `sys_exec` cannot fetch its
arguments.
-/
def sysExec (p : Fin nproc) (path : Option (List UInt8)) : Sys (Option Nat) :=
  match path with
  | none => pure none
  | some path => do
      beginOp
      let found ← namei p path
      match found with
      | none => do
          endOp
          pure none
      | some ip => do
          ilock ip
          let loaded ← loadImage ip
          iunlockput ip
          endOp
          if loaded then do
            let stack ← choose
            pure (if stack = 0 then none else some 0)
          else pure none

end Exec

section Processes

/-- `allocproc`; the allocation of the kernel stack may fail. -/
def allocproc : Sys (Option (Fin nproc)) := do
  let found ← perform .allocproc
  match found with
  | none => pure none
  | some np => do
      let kstack ← choose
      if kstack = 0 then do
        perform (.freeproc np)
        pure none
      else pure (some np)

/-- The loop over `ofile` in `fork` and `clone`. -/
def copyFiles (p np : Fin nproc) : List (Fin nofile) → Sys Unit
  | [] => pure ()
  | i :: rest => do
      let f ← perform (.getOfile p i)
      match f with
      | none => copyFiles p np rest
      | some f => do
          perform (.filedup f)
          perform (.setOfile np i (some f))
          copyFiles p np rest

/-- The end of `fork` and `clone`: the child gets the files and the directory of its parent. -/
def launch (p np : Fin nproc) : Sys (Option Nat) := do
  copyFiles p np (List.finRange nofile)
  let cwd ← cwdOf p
  idup cwd
  perform (.setCwd np (some cwd))
  .fork np (pure (some np.val))

/-- `fork`; `copyuvm` may fail. -/
def fork (p : Fin nproc) : Sys (Option Nat) := do
  let np ← allocproc
  match np with
  | none => pure none
  | some np => do
      let pgdir ← choose
      if pgdir = 0 then do
        perform (.freeproc np)
        pure none
      else launch p np

def clone (p : Fin nproc) : Sys (Option Nat) := do
  let np ← allocproc
  match np with
  | none => pure none
  | some np => launch p np

/-- `initproc`: the first slot of the process table. -/
def initproc : Fin nproc := 0

/-- The loop over `ofile` in `exit`. -/
def closeFiles (p : Fin nproc) : List (Fin nofile) → Sys Unit
  | [] => pure ()
  | fd :: rest => do
      let f ← perform (.getOfile p fd)
      match f with
      | none => closeFiles p rest
      | some f => do
          fileclose f
          perform (.setOfile p fd none)
          closeFiles p rest

def exit (p : Fin nproc) : Sys (Option Nat) :=
  if p = initproc then panic
  else do
    closeFiles p (List.finRange nofile)
    beginOp
    let cwd ← cwdOf p
    iput cwd
    endOp
    perform (.setCwd p none)
    .exit

/-- `wait`, `wait2` and `join`: the slot of a process that has ended becomes unused. Which one, and
whether it is a child, is an input.
-/
def wait : Sys (Option Nat) := do
  let child ← choose
  let found ← perform (.reap (Fin.ofNat nproc child))
  pure (if found then some child else none)

end Processes

/-- The calls; an argument is `none` if it cannot be fetched. -/
inductive Call where
  | «open» (args : Option (List UInt8 × UInt32))
  | close (fd : Option (Fin nofile))
  | dup (fd : Option (Fin nofile))
  | pipe (fds : Bool)
  | read (fd : Option (Fin nofile)) (n : Option Nat)
  | write (fd : Option (Fin nofile)) (n : Option Nat)
  | mkdir (path : Option (List UInt8))
  | mknod (args : Option (List UInt8 × Int16 × Int16))
  | link (paths : Option (List UInt8 × List UInt8))
  | unlink (path : Option (List UInt8))
  | chdir (path : Option (List UInt8))
  | exec (path : Option (List UInt8))
  | fork
  | clone
  | exit
  | wait

/-- The script of a call by process `p`; the result `none` is `-1`. -/
def syscall (p : Fin nproc) : Call → Sys (Option Nat)
  | .open none | .link none | .unlink none => pure none
  | .open (some (path, omode)) => sysOpen p path omode
  | .close fd => sysClose p fd
  | .dup fd => sysDup p fd
  | .pipe fds => sysPipe p fds
  | .read fd n => sysRead p fd n
  | .write fd n => sysWrite p fd n
  | .mkdir path => sysMkdir p path
  | .mknod args => sysMknod p args
  | .link (some (old, new)) => sysLink p old new
  | .unlink (some path) => sysUnlink p path
  | .chdir path => sysChdir p path
  | .exec path => sysExec p path
  | .fork => fork p
  | .clone => clone p
  | .exit => exit p
  | .wait => wait

/-- The kernel as processes see it: any process may make any call at any time. -/
def kernel : Machine (Fin nproc) Op Op.Res Call Input State where
  exec := exec
  born := State.born
  dead := State.dead
  script p call := do
    let _ ← syscall p call
    pure ()

abbrev Config := Lib.Config (Fin nproc) Op Op.Res State

abbrev Label := Lib.Label (Fin nproc) Call Input

/-- The kernel after `userinit`, with any disk: process `initproc` is alone, and its current
directory is the root directory, the only inode in the cache.
-/
def boot (ninodes : Nat) (dinode : Nat → Nat → Dinode) : Config where
  shared :=
    { ninodes
      dinode
      proc := fun p =>
        if p = initproc then { state := .live, ofile := fun _ => none, cwd := some 0 }
        else { state := .unused, ofile := fun _ => none, cwd := none }
      file := fun _ => { ref := 0, type := .none, readable := false, writable := false }
      inode := fun ip =>
        { dev := rootdev, inum := rootino, ref := if ip = 0 then 1 else 0, locked := false,
          valid := false, copy := .blank 0 }
      outstanding := 0
      pipe := fun _ => { readopen := false, writeopen := false, inits := 0, kfrees := 0 }
      made := 0 }
  pool := fun p => if p = initproc then some (.done ()) else none

end Xv6.Files
