import Xv6.Fs.Layout
import Xv6.Lib.Exec

/-! Blocks, inodes and file contents: the lower half of `fs.c` as sequential code.
`disk` is what `bread` shows, which is the buffer cache over the device. The single device
`ROOTDEV` is left implicit, and the inode cache is indexed by inode number. A sleep-lock that
the caller itself holds is a deadlock.
-/

namespace Xv6.Fs

open Lib

/-- The calls of `panic` in `fs.c`, `file.c` and `sysfile.c`. -/
inductive Panic where
  | ballocOutOfBlocks
  | freeingFreeBlock
  | iallocNoInodes
  | igetNoInodes
  | ilock
  | ilockNoType
  | iunlock
  | bmapOutOfRange
  | dirlookupNotDir
  | dirlookupRead
  | dirlinkRead
  | dirlink
  | isdiremptyReadi
  | unlinkNlink
  | unlinkWritei
  | createDots
  | createDirlink
  | shortFilewrite
  deriving DecidableEq

/-- What ends a call without a result. -/
inductive Stop where
  | panic (site : Panic)
  | deadlock
  deriving DecidableEq

/-- `struct devsw`: what a device answers to `read` of `n` bytes and to `write`. -/
structure Device where
  read : Nat → Option (List UInt8)
  write : List UInt8 → Option Nat

/-- `struct inode`: an entry of the inode cache, with its copy of the disk inode. -/
structure Inode where
  ref : Nat
  locked : Bool
  valid : Bool
  copy : Dinode

/-- The file system; `inUse` counts the entries of `icache` with a reference. -/
structure State where
  disk : Nat → Block
  sb : Superblock
  icache : Nat → Inode
  inUse : Nat
  devsw : Nat → Option Device

abbrev FsM := Exec Stop State

def panic {α : Type} (site : Panic) : FsM α :=
  throw (.panic site)

/-- Inode `inum` on disk. -/
def State.dinode (s : State) (inum : Nat) : Dinode :=
  dinodeAt (s.disk (iblock s.sb inum)) (inum % ipb)

/-- The bit of block `b` in the free bitmap. -/
def State.bitmap (s : State) (b : Nat) : Bool :=
  bit (s.disk (bblock s.sb b)) (b % bpb)

def State.write (s : State) (b : Nat) (blk : Block) : State :=
  { s with disk := Function.update s.disk b blk }

def State.setInode (s : State) (ip : Nat) (entry : Inode) : State :=
  { s with icache := Function.update s.icache ip entry }

def bread (b : Nat) : FsM Block := do
  let s ← get
  pure (s.disk b)

/-- Modify a buffer and `log_write` it. -/
def logWrite (b : Nat) (blk : Block) : FsM Unit :=
  modify fun s => s.write b blk

def getInode (ip : Nat) : FsM Inode := do
  let s ← get
  pure (s.icache ip)

def setInode (ip : Nat) (entry : Inode) : FsM Unit :=
  modify fun s => s.setInode ip entry

/-- Assign fields of `ip` that live on disk. -/
def assign (ip : Nat) (update : Dinode → Dinode) : FsM Unit := do
  let entry ← getInode ip
  setInode ip { entry with copy := update entry.copy }

section Rules

variable {s s' : State} {e : Stop}
variable {b ip : Nat} {blk : Block} {u : Unit} {entry : Inode}

theorem returns_panic {α : Type} {a : α} {site : Panic}
    : Returns (panic site : FsM α) s a s' ↔ False :=
  returns_throw

theorem returns_assert {α : Type} {a : α} {site : Panic} {m : FsM α} {c : Prop} [Decidable c]
    : Returns (if c then m else panic site) s a s' ↔ c ∧ Returns m s a s' := by
  simp [returns_ite, returns_panic]

theorem returns_check {α : Type} {a : α} {site : Panic} {m : FsM α} {c : Prop} [Decidable c]
    : Returns (if c then panic site else m) s a s' ↔ ¬c ∧ Returns m s a s' := by
  simp [returns_ite, returns_panic]

theorem returns_bread
    : Returns (bread b) s blk s' ↔ s.disk b = blk ∧ s = s' :=
  returns_read

theorem returns_logWrite
    : Returns (logWrite b blk) s u s' ↔ s.write b blk = s' :=
  returns_modify

theorem returns_getInode
    : Returns (getInode ip) s entry s' ↔ s.icache ip = entry ∧ s = s' :=
  returns_read

theorem returns_setInode
    : Returns (setInode ip entry) s u s' ↔ s.setInode ip entry = s' :=
  returns_modify

theorem returns_assign {update : Dinode → Dinode}
    : Returns (assign ip update) s u s'
      ↔ s.setInode ip { s.icache ip with copy := update (s.icache ip).copy } = s' := by
  simp only [assign, returns_bind, returns_getInode, returns_setInode]
  constructor
  · rintro ⟨_, _, ⟨rfl, rfl⟩, rfl⟩
    rfl
  · rintro rfl
    exact ⟨_, _, ⟨rfl, rfl⟩, rfl⟩

/-! The same for a first statement. -/

variable {α : Type} {a : α} {f : Unit → FsM α}

theorem returns_bread_bind {f : Block → FsM α}
    : Returns (bread b >>= f) s a s' ↔ Returns (f (s.disk b)) s a s' :=
  Iff.rfl

theorem returns_logWrite_bind
    : Returns (logWrite b blk >>= f) s a s' ↔ Returns (f ()) (s.write b blk) a s' :=
  Iff.rfl

theorem returns_getInode_bind {f : Inode → FsM α}
    : Returns (getInode ip >>= f) s a s' ↔ Returns (f (s.icache ip)) s a s' :=
  Iff.rfl

theorem returns_setInode_bind
    : Returns (setInode ip entry >>= f) s a s' ↔ Returns (f ()) (s.setInode ip entry) a s' :=
  Iff.rfl

theorem returns_assign_bind {update : Dinode → Dinode}
    : Returns (assign ip update >>= f) s a s'
      ↔ Returns (f ()) (s.setInode ip { s.icache ip with copy := update (s.icache ip).copy }) a s' :=
  Iff.rfl

end Rules

def bzero (b : Nat) : FsM Unit :=
  logWrite b fun _ => 0

/-- `balloc`: the two loops visit the bits of the blocks below `sb.size` in order. -/
def balloc : FsM Nat := do
  let s ← get
  match (List.range s.sb.size).find? (fun b => !s.bitmap b) with
  | none => panic .ballocOutOfBlocks
  | some b => do
      logWrite (bblock s.sb b) (setBit (s.disk (bblock s.sb b)) (b % bpb))
      bzero b
      pure b

/-- `bfree`, which reads the superblock again. -/
def bfree (b : Nat) : FsM Unit := do
  modify fun s => { s with sb := readsb s.disk }
  let s ← get
  if s.bitmap b then logWrite (bblock s.sb b) (clearBit (s.disk (bblock s.sb b)) (b % bpb))
  else panic .freeingFreeBlock

/-- `iupdate`: copy the cached inode to disk. -/
def iupdate (ip : Nat) : FsM Unit := do
  let s ← get
  logWrite (iblock s.sb ip)
    (setDinode (s.disk (iblock s.sb ip)) (ip % ipb) (s.icache ip).copy)

/-- `iget`: another reference, or an unused entry of the cache. -/
def iget (inum : Nat) : FsM Nat := do
  let s ← get
  if 0 < (s.icache inum).ref then do
    setInode inum { s.icache inum with ref := (s.icache inum).ref + 1 }
    pure inum
  else if s.inUse < ninode then do
    setInode inum { s.icache inum with ref := 1, valid := false }
    modify fun s => { s with inUse := s.inUse + 1 }
    pure inum
  else panic .igetNoInodes

def idup (ip : Nat) : FsM Nat := do
  let entry ← getInode ip
  setInode ip { entry with ref := entry.ref + 1 }
  pure ip

/-- An inode as `ialloc` leaves it on disk. -/
def Dinode.blank (type : Int16) : Dinode where
  type := type
  major := 0
  minor := 0
  nlink := 0
  size := 0
  addrs := fun _ => 0

/-- `ialloc`: the first inode of type `0`, from inode 1 on. -/
def ialloc (type : Int16) : FsM Nat := do
  let s ← get
  match (List.range' 1 (s.sb.ninodes - 1)).find? (fun i => (s.dinode i).type == 0) with
  | none => panic .iallocNoInodes
  | some inum => do
      logWrite (iblock s.sb inum)
        (setDinode (s.disk (iblock s.sb inum)) (inum % ipb) (.blank type))
      iget inum

def acquiresleep (ip : Nat) : FsM Unit := do
  let entry ← getInode ip
  if entry.locked then throw .deadlock else setInode ip { entry with locked := true }

def releasesleep (ip : Nat) : FsM Unit := do
  let entry ← getInode ip
  setInode ip { entry with locked := false }

/-- The part of `ilock` that reads the inode from disk. -/
def loadInode (ip : Nat) : FsM Unit := do
  let s ← get
  if (s.icache ip).valid then pure ()
  else do
    setInode ip { s.icache ip with valid := true, copy := s.dinode ip }
    if (s.dinode ip).type = 0 then panic .ilockNoType else pure ()

def ilock (ip : Nat) : FsM Unit := do
  let entry ← getInode ip
  if entry.ref < 1 then panic .ilock
  else do
    acquiresleep ip
    loadInode ip

def iunlock (ip : Nat) : FsM Unit := do
  let entry ← getInode ip
  if !entry.locked || entry.ref < 1 then panic .iunlock else releasesleep ip

def Dinode.setAddr (d : Dinode) (i : Fin 13) (addr : UInt32) : Dinode :=
  { d with addrs := Function.update d.addrs i addr }

/-- `if((addr = ip->addrs[i]) == 0) ip->addrs[i] = addr = balloc(ip->dev)`. -/
def addrOrAlloc (ip : Nat) (i : Fin 13) : FsM Nat := do
  let entry ← getInode ip
  if entry.copy.addrs i = 0 then do
    let addr ← balloc
    assign ip fun d => d.setAddr i (UInt32.ofNat addr)
    pure addr
  else pure (entry.copy.addrs i).toNat

/-- `bmap`: the disk block of block `bn` of the file, allocated if there is none. -/
def bmap (ip bn : Nat) : FsM Nat := do
  if bn < ndirect then addrOrAlloc ip (Fin.ofNat 13 bn)
  else if bn - ndirect < nindirect then do
    let pointer ← addrOrAlloc ip 12
    let a ← bread pointer
    if a.word (4 * (bn - ndirect)) = 0 then do
      let addr ← balloc
      let a ← bread pointer
      logWrite pointer (a.setWord (4 * (bn - ndirect)) (UInt32.ofNat addr))
      pure addr
    else pure (a.word (4 * (bn - ndirect))).toNat
  else panic .bmapOutOfRange

/-- The first loop of `itrunc`, over the direct addresses. -/
def freeAddrs (ip : Nat) : List (Fin 13) → FsM Unit
  | [] => pure ()
  | i :: rest => do
      let entry ← getInode ip
      if entry.copy.addrs i = 0 then freeAddrs ip rest
      else do
        bfree (entry.copy.addrs i).toNat
        assign ip fun d => d.setAddr i 0
        freeAddrs ip rest

/-- The second loop of `itrunc`, over the entries of the indirect block. -/
def freeWords : List UInt32 → FsM Unit
  | [] => pure ()
  | a :: rest =>
      if a = 0 then freeWords rest
      else do
        bfree a.toNat
        freeWords rest

/-- The part of `itrunc` for the indirect block. -/
def freeIndirect (ip : Nat) : FsM Unit := do
  let entry ← getInode ip
  if entry.copy.addrs 12 = 0 then pure ()
  else do
    let a ← bread (entry.copy.addrs 12).toNat
    freeWords ((List.range nindirect).map fun j => a.word (4 * j))
    bfree (entry.copy.addrs 12).toNat
    assign ip fun d => d.setAddr 12 0

/-- `itrunc`: discard the contents of an inode. -/
def itrunc (ip : Nat) : FsM Unit := do
  freeAddrs ip ((List.range ndirect).map (Fin.ofNat 13))
  freeIndirect ip
  assign ip fun d => { d with size := 0 }
  iupdate ip

/-- The part of `iput` under the sleep-lock: free an inode that has no links and no other
references.
-/
def reclaim (ip : Nat) : FsM Unit := do
  let entry ← getInode ip
  if entry.valid ∧ entry.copy.nlink = 0 ∧ entry.ref = 1 then do
    itrunc ip
    assign ip fun d => { d with type := 0 }
    iupdate ip
    let entry ← getInode ip
    setInode ip { entry with valid := false }
  else pure ()

/-- The last section of `iput`. -/
def dropRef (ip : Nat) : FsM Unit := do
  let entry ← getInode ip
  setInode ip { entry with ref := entry.ref - 1 }
  modify fun s => { s with inUse := if entry.ref = 1 then s.inUse - 1 else s.inUse }

def iput (ip : Nat) : FsM Unit := do
  acquiresleep ip
  reclaim ip
  releasesleep ip
  dropRef ip

def iunlockput (ip : Nat) : FsM Unit := do
  iunlock ip
  iput ip

/-- The copying loop of `readi`. Each pass moves at least one byte, so `fuel` passes are
enough for `fuel` bytes.
-/
def readLoop (ip : Nat) : (fuel : Nat) → (off n : Nat) → FsM (List UInt8)
  | 0, _, _ => pure []
  | fuel + 1, off, n =>
      if n = 0 then pure []
      else do
        let addr ← bmap ip (off / bsize)
        let blk ← bread addr
        let rest ← readLoop ip fuel (off + min n (bsize - off % bsize))
          (n - min n (bsize - off % bsize))
        pure (blk.peek (off % bsize) (min n (bsize - off % bsize)) ++ rest)

/-- The entry of `devsw` a device inode refers to. -/
def State.device (s : State) (d : Dinode) : Option Device :=
  if d.major < 0 ∨ d.major.toInt ≥ ndev then none else s.devsw d.major.toInt.toNat

/-- `readi`: the bytes read, `none` for the result `-1`. -/
def readi (ip off n : Nat) : FsM (Option (List UInt8)) := do
  let s ← get
  let d := (s.icache ip).copy
  if d.type = tDev then pure ((s.device d).bind fun dev => dev.read n)
  else if off > d.size.toNat ∨ off + n ≥ 2 ^ 32 then pure none
  else do
    let bytes ← readLoop ip n off (min n (d.size.toNat - off))
    pure (some bytes)

/-- The copying loop of `writei`; the result is the final `off`. -/
def writeLoop (ip : Nat) : (fuel : Nat) → (src : List UInt8) → (off : Nat) → FsM Nat
  | 0, _, off => pure off
  | fuel + 1, src, off =>
      if src = [] then pure off
      else do
        let addr ← bmap ip (off / bsize)
        let blk ← bread addr
        logWrite addr
          (blk.poke (off % bsize) (src.take (min src.length (bsize - off % bsize))))
        writeLoop ip fuel (src.drop (min src.length (bsize - off % bsize)))
          (off + min src.length (bsize - off % bsize))

/-- The end of `writei`: after `n` bytes, a file that grew to `off` is updated on disk. -/
def growTo (ip n off : Nat) : FsM Unit := do
  let entry ← getInode ip
  if n > 0 ∧ off > entry.copy.size.toNat then do
    assign ip fun d => { d with size := UInt32.ofNat off }
    iupdate ip
  else pure ()

/-- `writei`: the number of bytes written, `none` for the result `-1`. -/
def writei (ip : Nat) (src : List UInt8) (off : Nat) : FsM (Option Nat) := do
  let s ← get
  let d := (s.icache ip).copy
  if d.type = tDev then pure ((s.device d).bind fun dev => dev.write src)
  else if off > d.size.toNat ∨ off + src.length ≥ 2 ^ 32 then pure none
  else if off + src.length > maxfile * bsize then pure none
  else do
    let last ← writeLoop ip src.length src off
    growTo ip src.length last
    pure (some src.length)

end Xv6.Fs
