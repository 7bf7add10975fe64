import Xv6.Lib.Bytes

/-! Compile-time constants of the kernel, from `param.h`, `fs.h`, `stat.h`, `mmu.h` and
`memlayout.h`.
-/

namespace Xv6

/-- `NPROC`: maximum number of processes. -/
abbrev nproc : Nat := 64

/-- `MAXOPBLOCKS`: the number of blocks a file-system operation may write. -/
def maxOpBlocks : Nat := 10

/-- `LOGSIZE`: data blocks in the on-disk log, and the value `mkfs` uses for `nlog`. -/
def logSize : Nat := maxOpBlocks * 3

/-- `PGSIZE`, and the entries of a page directory or a page table. -/
abbrev pgsize : Nat := 4096

abbrev npdentries : Nat := 1024

/-- `KERNBASE`: the first kernel virtual address. -/
abbrev kernbase : Nat := 0x80000000

/-- `NBUF`: size of the disk block cache. -/
abbrev nbuf : Nat := 30

/-- `NINODE`: maximum number of active inodes. -/
abbrev ninode : Nat := 50

/-- `NDEV`: maximum major device number. -/
abbrev ndev : Nat := 10

/-- `NOFILE` and `NFILE`: open files per process and per system. -/
abbrev nofile : Nat := 16

abbrev nfile : Nat := 100

/-- `BSIZE`: the block size in bytes. -/
abbrev bsize : Nat := 512

/-- `NDIRECT`, `NINDIRECT` and `MAXFILE`: the blocks of a file. -/
abbrev ndirect : Nat := 12

abbrev nindirect : Nat := 128

abbrev maxfile : Nat := 140

/-- `IPB` and `BPB`: inodes and bitmap bits in one block. -/
abbrev ipb : Nat := 8

abbrev bpb : Nat := 4096

/-- `DIRSIZ`, and the size of a `struct dirent`. -/
abbrev dirsiz : Nat := 14

abbrev direntSize : Nat := 16

/-- `ROOTINO`: the root inode. -/
abbrev rootino : Nat := 1

/-- `T_DIR`, `T_FILE` and `T_DEV`; type `0` is a free inode. -/
abbrev tDir : Int16 := 1

abbrev tFile : Int16 := 2

abbrev tDev : Int16 := 3

/-! Index types that are not empty, so that their elements have numerals: the tables, the
addresses of an inode, the entries of an indirect block, the semaphores, and a few processes.
-/

instance neZero_nproc : NeZero nproc := ⟨by decide⟩

instance neZero_ninode : NeZero ninode := ⟨by decide⟩

instance neZero_nofile : NeZero nofile := ⟨by decide⟩

instance neZero_nfile : NeZero nfile := ⟨by decide⟩

instance neZero_nindirect : NeZero nindirect := ⟨by decide⟩

instance neZero_addrs : NeZero 13 := ⟨by decide⟩

instance neZero_semaphores : NeZero 32 := ⟨by decide⟩

instance neZero_one : NeZero 1 := ⟨by decide⟩

instance neZero_two : NeZero 2 := ⟨by decide⟩

instance neZero_three : NeZero 3 := ⟨by decide⟩

/-- The contents of one disk block of `BSIZE` bytes. -/
abbrev Block := Lib.Bytes

end Xv6
