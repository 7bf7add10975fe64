import Xv6.Files.Model

/-! The functions of `fs.c` on inodes, directories and paths as scripts of operations.

Contents of files are inputs: `readi` and the loops over directory entries work on any bytes.
-/

namespace Xv6.Files

open Lib Fs

abbrev Sys := Script (Fin nproc) Op Op.Res

/-- The script of one operation. -/
abbrev perform (o : Op) : Sys o.Res := Script.perform o

/-- The kernel stops. -/
def panic {α : Type} : Sys α := .op .panic nofun

section Operations

def choose : Sys Nat := perform .choose

def data (n : Nat) : Sys (List UInt8) := perform (.data n)

def iget (dev inum : Nat) : Sys (Fin ninode) := perform (.iget dev inum)

def idup (ip : Fin ninode) : Sys Unit := perform (.idup ip)

def getInode (ip : Fin ninode) : Sys Inode := perform (.getInode ip)

def acquiresleep (ip : Fin ninode) : Sys Unit := perform (.acquiresleep ip)

def releasesleep (ip : Fin ninode) : Sys Unit := perform (.releasesleep ip)

def load (ip : Fin ninode) : Sys Unit := perform (.load ip)

def setValid (ip : Fin ninode) (valid : Bool) : Sys Unit := perform (.setValid ip valid)

def setCopy (ip : Fin ninode) (copy : Dinode) : Sys Unit := perform (.setCopy ip copy)

def iupdate (ip : Fin ninode) : Sys Unit := perform (.iupdate ip)

def dropRef (ip : Fin ninode) : Sys Unit := perform (.dropRef ip)

def balloc : Sys UInt32 := perform .balloc

def beginOp : Sys Unit := perform .beginOp

def endOp : Sys Unit := perform .endOp

/-- Assign fields of a locked inode that live on disk. -/
def assign (ip : Fin ninode) (update : Dinode → Dinode) : Sys Unit := do
  let i ← getInode ip
  setCopy ip (update i.copy)

end Operations

/-- The part of `ilock` after `acquiresleep`. -/
def loadInode (ip : Fin ninode) : Sys Unit := do
  let i ← getInode ip
  if i.valid then pure ()
  else do
    load ip
    setValid ip true
    let i ← getInode ip
    if i.copy.type = 0 then panic else pure ()

def ilock (ip : Fin ninode) : Sys Unit := do
  let i ← getInode ip
  if i.ref < 1 then panic
  else do
    acquiresleep ip
    loadInode ip

def iunlock (ip : Fin ninode) : Sys Unit := do
  let i ← getInode ip
  if !i.locked || i.ref < 1 then panic else releasesleep ip

/-- The first loop of `itrunc`, over the direct addresses. -/
def freeAddrs (ip : Fin ninode) : List (Fin 13) → Sys Unit
  | [] => pure ()
  | k :: rest => do
      let i ← getInode ip
      if i.copy.addrs k = 0 then freeAddrs ip rest
      else do
        setCopy ip (i.copy.setAddr k 0)
        freeAddrs ip rest

/-- `itrunc`; the blocks it frees are not part of the state. -/
def itrunc (ip : Fin ninode) : Sys Unit := do
  freeAddrs ip ((List.range ndirect).map (Fin.ofNat 13))
  freeAddrs ip [12]
  assign ip fun d => { d with size := 0 }
  iupdate ip

/-- The part of `iput` under the sleep-lock. The references are counted in a section of
`icache.lock`, after `valid` and `nlink` have been looked at.
-/
def reclaim (ip : Fin ninode) : Sys Unit := do
  let i ← getInode ip
  if i.valid ∧ i.copy.nlink = 0 then do
    let r ← getInode ip
    if r.ref = 1 then do
      itrunc ip
      assign ip fun d => { d with type := 0 }
      iupdate ip
      setValid ip false
    else pure ()
  else pure ()

def iput (ip : Fin ninode) : Sys Unit := do
  acquiresleep ip
  reclaim ip
  releasesleep ip
  dropRef ip

def iunlockput (ip : Fin ninode) : Sys Unit := do
  iunlock ip
  iput ip

/-- The loop of `ialloc` over the inode numbers. -/
def allocLoop (dev : Nat) (type : Int16) : List Nat → Sys (Fin ninode)
  | [] => panic
  | inum :: rest => do
      let free ← perform (.tryAlloc dev inum type)
      if free then iget dev inum else allocLoop dev type rest

def ialloc (dev : Nat) (type : Int16) : Sys (Fin ninode) := do
  let n ← perform .ninodes
  allocLoop dev type (List.range' 1 (n - 1))

/-- `if((addr = ip->addrs[k]) == 0) ip->addrs[k] = addr = balloc(ip->dev)`. -/
def addrOrAlloc (ip : Fin ninode) (k : Fin 13) : Sys Unit := do
  let i ← getInode ip
  if i.copy.addrs k = 0 then do
    let addr ← balloc
    setCopy ip (i.copy.setAddr k addr)
  else pure ()

/-- `bmap`; the entries of the indirect block are contents of a block. -/
def bmap (ip : Fin ninode) (bn : Nat) : Sys Unit :=
  if bn < ndirect then addrOrAlloc ip (Fin.ofNat 13 bn)
  else if bn - ndirect < nindirect then addrOrAlloc ip 12
  else panic

/-- The copying loop of `readi`; `fuel` passes are enough for `fuel` bytes. -/
def readLoop (ip : Fin ninode) : (fuel off n : Nat) → Sys (List UInt8)
  | 0, _, _ => pure []
  | fuel + 1, off, n =>
      if n = 0 then pure []
      else do
        bmap ip (off / bsize)
        let bytes ← data (min n (bsize - off % bsize))
        let rest ← readLoop ip fuel (off + min n (bsize - off % bsize))
          (n - min n (bsize - off % bsize))
        pure (bytes ++ rest)

/-- `CONSOLE`: the major device number for which `devsw` has functions. -/
abbrev console : Int16 := 1

/-- `consoleread`, which waits for input with the inode unlocked; `none` if the process is
killed while it waits.
-/
def consoleread (ip : Fin ninode) (n : Nat) : Sys (Option (List UInt8)) := do
  iunlock ip
  let count ← choose
  if count ≤ n then do
    let bytes ← data count
    ilock ip
    pure (some bytes)
  else do
    ilock ip
    pure none

def consolewrite (ip : Fin ninode) (n : Nat) : Sys (Option Nat) := do
  iunlock ip
  ilock ip
  pure (some n)

/-- `readi`: the bytes read, `none` for the result `-1`. -/
def readi (ip : Fin ninode) (off n : Nat) : Sys (Option (List UInt8)) := do
  let i ← getInode ip
  if i.copy.type = tDev then
    if i.copy.major = console then consoleread ip n else pure none
  else if off > i.copy.size.toNat ∨ off + n ≥ 2 ^ 32 then pure none
  else do
    let bytes ← readLoop ip n off (min n (i.copy.size.toNat - off))
    pure (some bytes)

/-- The copying loop of `writei`; the result is the final `off`. -/
def writeLoop (ip : Fin ninode) : (fuel off n : Nat) → Sys Nat
  | 0, off, _ => pure off
  | fuel + 1, off, n =>
      if n = 0 then pure off
      else do
        bmap ip (off / bsize)
        writeLoop ip fuel (off + min n (bsize - off % bsize)) (n - min n (bsize - off % bsize))

/-- The end of `writei`: after `n` bytes, a file that grew to `off` is updated on disk. -/
def growTo (ip : Fin ninode) (n off : Nat) : Sys Unit := do
  let i ← getInode ip
  if n > 0 ∧ off > i.copy.size.toNat then do
    setCopy ip { i.copy with size := UInt32.ofNat off }
    iupdate ip
  else pure ()

/-- `writei`: the number of bytes written, `none` for the result `-1`. -/
def writei (ip : Fin ninode) (off n : Nat) : Sys (Option Nat) := do
  let i ← getInode ip
  if i.copy.type = tDev then
    if i.copy.major = console then consolewrite ip n else pure none
  else if off > i.copy.size.toNat ∨ off + n ≥ 2 ^ 32 then pure none
  else if off + n > maxfile * bsize then pure none
  else do
    let last ← writeLoop ip n off n
    growTo ip n last
    pure (some n)

/-- Read one directory entry, or panic when `readi` returns anything but its size. -/
def readDirent (dp : Fin ninode) (off : Nat) : Sys Dirent := do
  let bytes ← readi dp off direntSize
  match bytes with
  | none => panic
  | some bytes => if bytes.length = direntSize then pure (.ofBytes bytes) else panic

/-- The loop of `dirlookup`; the result is the inode and the offset of the entry. -/
def lookupLoop (dp : Fin ninode) (name : List UInt8)
    : List Nat → Sys (Option (Fin ninode × Nat))
  | [] => pure none
  | off :: rest => do
      let de ← readDirent dp off
      if de.inum ≠ 0 ∧ namecmp name de.name = 0 then do
        let d ← getInode dp
        let ip ← iget d.dev de.inum.toNat
        pure (some (ip, off))
      else lookupLoop dp name rest

def dirlookup (dp : Fin ninode) (name : List UInt8) : Sys (Option (Fin ninode × Nat)) := do
  let d ← getInode dp
  if d.copy.type ≠ tDir then panic
  else lookupLoop dp name (direntOffsets 0 d.copy.size.toNat)

/-- The second loop of `dirlink`: the offset of an empty entry, or the end `off`. -/
def emptyLoop (dp : Fin ninode) (last : Nat) : List Nat → Sys Nat
  | [] => pure last
  | off :: rest => do
      let de ← readDirent dp off
      if de.inum = 0 then pure off else emptyLoop dp last rest

/-- `dirlink`: `false` for the result `-1`. -/
def dirlink (dp : Fin ninode) (name : List UInt8) : Sys Bool := do
  let found ← dirlookup dp name
  match found with
  | some (ip, _) => do
      iput ip
      pure false
  | none => do
      let d ← getInode dp
      let size := d.copy.size.toNat
      let off ← emptyLoop dp (direntSize * ((size + 15) / direntSize)) (direntOffsets 0 size)
      let written ← writei dp off direntSize
      if written = some direntSize then pure true else panic

/-- The current directory of a process; a live process has one. -/
def cwdOf (p : Fin nproc) : Sys (Fin ninode) := do
  let cwd ← perform (.getCwd p)
  match cwd with
  | some ip => pure ip
  | none => panic

/-- The loop of `namex`; with `parent` the walk stops one level early. -/
def walk (parent : Bool) : List (List UInt8) → Fin ninode → Sys (Option (Fin ninode × List UInt8))
  | [], ip =>
      if parent then do
        iput ip
        pure none
      else pure (some (ip, []))
  | name :: rest, ip => do
      ilock ip
      let i ← getInode ip
      if i.copy.type ≠ tDir then do
        iunlockput ip
        pure none
      else if parent ∧ rest = [] then do
        iunlock ip
        pure (some (ip, name))
      else do
        let found ← dirlookup ip name
        iunlockput ip
        match found with
        | none => pure none
        | some (next, _) => walk parent rest next

/-- Where `namex` starts. -/
def startInode (p : Fin nproc) (path : List UInt8) : Sys (Fin ninode) :=
  if path.head? = some 47 then iget rootdev rootino
  else do
    let cwd ← cwdOf p
    idup cwd
    pure cwd

def namex (p : Fin nproc) (path : List UInt8) (parent : Bool)
    : Sys (Option (Fin ninode × List UInt8)) := do
  let ip ← startInode p path
  walk parent (elements path.length path) ip

def namei (p : Fin nproc) (path : List UInt8) : Sys (Option (Fin ninode)) := do
  let found ← namex p path false
  pure (found.map Prod.fst)

def nameiparent (p : Fin nproc) (path : List UInt8) : Sys (Option (Fin ninode × List UInt8)) :=
  namex p path true

end Xv6.Files
