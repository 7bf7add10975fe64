import Xv6.Fs.Model

/-! Directories, path names and the system calls on them: the upper half of `fs.c` and the
file-system calls of `sysfile.c`, without `begin_op` and `end_op`.
A C string is the list of its bytes up to the terminator.
-/

namespace Xv6.Fs

open Lib

/-- `strncmp`; reading past the end of the list finds the terminator. -/
def strncmp : (n : Nat) → (p q : List UInt8) → Int
  | 0, _, _ => 0
  | n + 1, p, q =>
      if p.headD 0 ≠ 0 ∧ p.headD 0 = q.headD 0 then strncmp n p.tail q.tail
      else (p.headD 0).toNat - (q.headD 0).toNat

/-- `strncpy`: the `n` bytes it writes. -/
def strncpy : (n : Nat) → (t : List UInt8) → List UInt8
  | 0, _ => []
  | n + 1, t =>
      if t.headD 0 = 0 then List.replicate (n + 1) 0 else t.headD 0 :: strncpy n t.tail

def namecmp (s t : List UInt8) : Int :=
  strncmp dirsiz s t

/-- `struct dirent`. -/
structure Dirent where
  inum : UInt16
  name : List UInt8
  deriving DecidableEq

/-- The entry in 16 bytes of a directory. -/
def Dirent.ofBytes (bytes : List UInt8) : Dirent where
  inum := UInt16.ofNat ((bytes.getD 0 0).toNat + 256 * (bytes.getD 1 0).toNat)
  name := bytes.drop 2

def Dirent.toBytes (de : Dirent) : List UInt8 :=
  Bytes.ofShort de.inum ++ de.name

/-- The offsets of a loop over the directory entries of a file of `size` bytes. -/
def direntOffsets (start size : Nat) : List Nat :=
  (List.range' start ((size + 15) / direntSize - start)).map (direntSize * ·)

/-- Read one directory entry, or panic when `readi` returns anything but its size. -/
def readDirent (site : Panic) (dp off : Nat) : FsM Dirent := do
  let bytes ← readi dp off direntSize
  match bytes with
  | none => panic site
  | some bytes =>
      if bytes.length = direntSize then pure (.ofBytes bytes) else panic site

/-- The loop of `dirlookup`; the result is the inode and the offset of the entry. -/
def lookupLoop (dp : Nat) (name : List UInt8) : List Nat → FsM (Option (Nat × Nat))
  | [] => pure none
  | off :: rest => do
      let de ← readDirent .dirlookupRead dp off
      if de.inum ≠ 0 ∧ namecmp name de.name = 0 then do
        let ip ← iget de.inum.toNat
        pure (some (ip, off))
      else lookupLoop dp name rest

def dirlookup (dp : Nat) (name : List UInt8) : FsM (Option (Nat × Nat)) := do
  let entry ← getInode dp
  if entry.copy.type ≠ tDir then panic .dirlookupNotDir
  else lookupLoop dp name (direntOffsets 0 entry.copy.size.toNat)

/-- The second loop of `dirlink`: the offset of an empty entry, or the end `off`. -/
def emptyLoop (dp last : Nat) : List Nat → FsM Nat
  | [] => pure last
  | off :: rest => do
      let de ← readDirent .dirlinkRead dp off
      if de.inum = 0 then pure off else emptyLoop dp last rest

/-- `dirlink`: `false` for the result `-1`. -/
def dirlink (dp : Nat) (name : List UInt8) (inum : Nat) : FsM Bool := do
  let found ← dirlookup dp name
  match found with
  | some (ip, _) => do
      iput ip
      pure false
  | none => do
      let entry ← getInode dp
      let size := entry.copy.size.toNat
      let off ← emptyLoop dp (direntSize * ((size + 15) / direntSize)) (direntOffsets 0 size)
      let de : Dirent := { inum := UInt16.ofNat inum, name := strncpy dirsiz name }
      let written ← writei dp de.toBytes off
      if written = some direntSize then pure true else panic .dirlink

/-- `skipelem`: the rest of the path and the element taken off its front. -/
def skipelem (path : List UInt8) : Option (List UInt8 × List UInt8) :=
  match path.dropWhile (· == 47) with
  | [] => none
  | s => some ((s.dropWhile (· != 47)).dropWhile (· == 47), (s.takeWhile (· != 47)).take dirsiz)

/-- The elements that repeated calls of `skipelem` take off; each call shortens the path. -/
def elements : (fuel : Nat) → (path : List UInt8) → List (List UInt8)
  | 0, _ => []
  | fuel + 1, path =>
      match skipelem path with
      | none => []
      | some (rest, name) => name :: elements fuel rest

/-- The loop of `namex`; with `parent` the walk stops one level early. -/
def walk (parent : Bool) : List (List UInt8) → Nat → FsM (Option (Nat × List UInt8))
  | [], ip =>
      if parent then do
        iput ip
        pure none
      else pure (some (ip, []))
  | name :: rest, ip => do
      ilock ip
      let entry ← getInode ip
      if entry.copy.type ≠ tDir then do
        iunlockput ip
        pure none
      else if parent ∧ rest = [] then do
        iunlock ip
        pure (some (ip, name))
      else do
        let found ← dirlookup ip name
        iunlockput ip
        match found with
        | none => pure none
        | some (next, _) => walk parent rest next

/-- Where `namex` starts, for a process whose current directory is `cwd`. -/
def startInode (cwd : Nat) (path : List UInt8) : FsM Nat :=
  if path.head? = some 47 then iget rootino else idup cwd

def namex (cwd : Nat) (path : List UInt8) (parent : Bool)
    : FsM (Option (Nat × List UInt8)) := do
  let ip ← startInode cwd path
  walk parent (elements path.length path) ip

def namei (cwd : Nat) (path : List UInt8) : FsM (Option Nat) := do
  let found ← namex cwd path false
  pure (found.map Prod.fst)

def nameiparent (cwd : Nat) (path : List UInt8) : FsM (Option (Nat × List UInt8)) :=
  namex cwd path true

/-- The path names `"."` and `".."`. -/
def dot : List UInt8 := [46]

def dotdot : List UInt8 := [46, 46]

/-- The bits of `omode`: `O_WRONLY`, `O_RDWR` and `O_CREATE`. -/
def oWronly : UInt32 := 0x001

def oRdwr : UInt32 := 0x002

def oCreate : UInt32 := 0x200

/-- The `.` and `..` entries of a directory that `create` makes in `dp`. -/
def createDots (type : Int16) (dp ip : Nat) : FsM Unit :=
  if type = tDir then do
    assign dp fun d => { d with nlink := d.nlink + 1 }
    iupdate dp
    let first ← dirlink ip dot ip
    if first then do
      let second ← dirlink ip dotdot dp
      if second then pure () else panic .createDots
    else panic .createDots
  else pure ()

/-- The part of `create` for a name that is not in `dp` yet. -/
def createIn (dp : Nat) (name : List UInt8) (type major minor : Int16) : FsM Nat := do
  let ip ← ialloc type
  ilock ip
  assign ip fun d => { d with major := major, minor := minor, nlink := 1 }
  iupdate ip
  createDots type dp ip
  let linked ← dirlink dp name ip
  if linked then do
    iunlockput dp
    pure ip
  else panic .createDirlink

/-- The part of `create` for a name that `dp` has already. -/
def createOver (dp ip : Nat) (type : Int16) : FsM (Option Nat) := do
  iunlockput dp
  ilock ip
  let entry ← getInode ip
  if type = tFile ∧ entry.copy.type = tFile then pure (some ip)
  else do
    iunlockput ip
    pure none

/-- `create`: the inode, locked and with a reference, or `none` for the result `0`. -/
def create (cwd : Nat) (path : List UInt8) (type major minor : Int16)
    : FsM (Option Nat) := do
  let found ← nameiparent cwd path
  match found with
  | none => pure none
  | some (dp, name) => do
      ilock dp
      let present ← dirlookup dp name
      match present with
      | some (ip, _) => createOver dp ip type
      | none => do
          let ip ← createIn dp name type major minor
          pure (some ip)

/-- The label `bad` of `sys_link`: take the link back. -/
def linkBad (ip : Nat) : FsM Bool := do
  ilock ip
  assign ip fun d => { d with nlink := d.nlink - 1 }
  iupdate ip
  iunlockput ip
  pure false

/-- The part of `sys_link` after the link count of `ip` has been raised. -/
def linkInto (cwd ip : Nat) (path : List UInt8) : FsM Bool := do
  let found ← nameiparent cwd path
  match found with
  | none => linkBad ip
  | some (dp, name) => do
      ilock dp
      let linked ← dirlink dp name ip
      iunlockput dp
      if linked then do
        iput ip
        pure true
      else linkBad ip

/-- `sys_link`: `false` for the result `-1`. -/
def link (cwd : Nat) (old new : List UInt8) : FsM Bool := do
  let found ← namei cwd old
  match found with
  | none => pure false
  | some ip => do
      ilock ip
      let entry ← getInode ip
      if entry.copy.type = tDir then do
        iunlockput ip
        pure false
      else do
        assign ip fun d => { d with nlink := d.nlink + 1 }
        iupdate ip
        iunlock ip
        linkInto cwd ip new

/-- The loop of `isdirempty`. -/
def emptyFrom (dp : Nat) : List Nat → FsM Bool
  | [] => pure true
  | off :: rest => do
      let de ← readDirent .isdiremptyReadi dp off
      if de.inum ≠ 0 then pure false else emptyFrom dp rest

/-- `isdirempty`: no entries but the first two, `.` and `..`. -/
def isdirempty (dp : Nat) : FsM Bool := do
  let entry ← getInode dp
  emptyFrom dp (direntOffsets 2 entry.copy.size.toNat)

/-- `ip->type == T_DIR && !isdirempty(ip)`, negated. -/
def removable (ip : Nat) : FsM Bool := do
  let entry ← getInode ip
  if entry.copy.type = tDir then isdirempty ip else pure true

/-- `if(ip->type == T_DIR){ dp->nlink--; iupdate(dp); }`. -/
def dropParentLink (dp ip : Nat) : FsM Unit := do
  let entry ← getInode ip
  if entry.copy.type = tDir then do
    assign dp fun d => { d with nlink := d.nlink - 1 }
    iupdate dp
  else pure ()

/-- The part of `sys_unlink` that removes the entry of `dp` at `off`. -/
def removeEntry (dp ip off : Nat) : FsM Bool := do
  let written ← writei dp (List.replicate direntSize 0) off
  if written = some direntSize then do
    dropParentLink dp ip
    iunlockput dp
    assign ip fun d => { d with nlink := d.nlink - 1 }
    iupdate ip
    iunlockput ip
    pure true
  else panic .unlinkWritei

/-- The part of `sys_unlink` after the entry of `dp` at `off` was found to name `ip`. -/
def unlinkEntry (dp ip off : Nat) : FsM Bool := do
  ilock ip
  let entry ← getInode ip
  if entry.copy.nlink < 1 then panic .unlinkNlink
  else do
    let empty ← removable ip
    if empty then removeEntry dp ip off
    else do
      iunlockput ip
      iunlockput dp
      pure false

/-- `sys_unlink`: `false` for the result `-1`. -/
def unlink (cwd : Nat) (path : List UInt8) : FsM Bool := do
  let found ← nameiparent cwd path
  match found with
  | none => pure false
  | some (dp, name) => do
      ilock dp
      if namecmp name dot = 0 ∨ namecmp name dotdot = 0 then do
        iunlockput dp
        pure false
      else do
        let present ← dirlookup dp name
        match present with
        | none => do
            iunlockput dp
            pure false
        | some (ip, off) => unlinkEntry dp ip off

end Xv6.Fs
