import Xv6.Param

/-! The on-disk format of `fs.h`: superblock, inodes, free bitmap and directory entries as
the bytes of disk blocks.
-/

namespace Xv6.Fs

open Lib

variable {blk : Block} {k other : Nat} {d : Dinode}

/-- `struct superblock`. -/
structure Superblock where
  size : Nat
  nblocks : Nat
  ninodes : Nat
  nlog : Nat
  logstart : Nat
  inodestart : Nat
  bmapstart : Nat
  deriving DecidableEq

/-- `readsb`: the superblock is block 1. -/
def readsb (disk : Nat → Block) : Superblock where
  size := ((disk 1).word 0).toNat
  nblocks := ((disk 1).word 4).toNat
  ninodes := ((disk 1).word 8).toNat
  nlog := ((disk 1).word 12).toNat
  logstart := ((disk 1).word 16).toNat
  inodestart := ((disk 1).word 20).toNat
  bmapstart := ((disk 1).word 24).toNat

/-- `IBLOCK`: the block that holds inode `i`. -/
def iblock (sb : Superblock) (i : Nat) : Nat :=
  i / ipb + sb.inodestart

/-- `BBLOCK`: the bitmap block that holds the bit of block `b`. -/
def bblock (sb : Superblock) (b : Nat) : Nat :=
  b / bpb + sb.bmapstart

/-- The blocks before this one hold the boot block, superblock, log, inodes and bitmap. -/
def Superblock.firstData (sb : Superblock) : Nat :=
  sb.size - sb.nblocks

/-- The regions of the disk are in the order of `fs.h` and do not overlap. -/
structure Superblock.Layout (sb : Superblock) : Prop where
  inodes : 2 ≤ sb.inodestart
  bitmap : sb.inodestart + sb.ninodes / ipb + 1 ≤ sb.bmapstart
  data : sb.bmapstart + sb.size / bpb + 1 ≤ sb.firstData
  root : rootino < sb.ninodes

/-- `struct dinode`: the part of an inode that lives on disk. -/
@[ext] structure Dinode where
  type : Int16
  major : Int16
  minor : Int16
  nlink : Int16
  size : UInt32
  addrs : Fin 13 → UInt32
  deriving DecidableEq

/-- The inode in position `k` of an inode block. -/
def dinodeAt (blk : Block) (k : Nat) : Dinode where
  type := (blk.short (64 * k)).toInt16
  major := (blk.short (64 * k + 2)).toInt16
  minor := (blk.short (64 * k + 4)).toInt16
  nlink := (blk.short (64 * k + 6)).toInt16
  size := blk.word (64 * k + 8)
  addrs := fun i => blk.word (64 * k + 12 + 4 * i)

/-- Store an inode in position `k` of an inode block. -/
def setDinode (blk : Block) (k : Nat) (d : Dinode) : Block :=
  ((((((blk.setShort (64 * k) d.type.toUInt16).setShort (64 * k + 2) d.major.toUInt16).setShort
    (64 * k + 4) d.minor.toUInt16).setShort (64 * k + 6) d.nlink.toUInt16).setWord
    (64 * k + 8) d.size).setWords (64 * k + 12) (List.ofFn d.addrs))

/-- An inode is read from its own 64 bytes only. -/
theorem dinodeAt_congr {other : Block} (same : ∀ i, 64 * k ≤ i → i < 64 * k + 64 → blk i = other i)
    : dinodeAt blk k = dinodeAt other k := by
  have short (off : Nat) (low : 64 * k ≤ off) (high : off + 2 ≤ 64 * k + 64)
      : blk.short off = other.short off :=
    Bytes.short_congr fun i _ _ => same i (by omega) (by omega)
  have word (off : Nat) (low : 64 * k ≤ off) (high : off + 4 ≤ 64 * k + 64)
      : blk.word off = other.word off :=
    Bytes.word_congr fun i _ _ => same i (by omega) (by omega)
  simp only [dinodeAt, Dinode.mk.injEq]
  refine ⟨congrArg _ (short _ ?_ ?_), congrArg _ (short _ ?_ ?_), congrArg _ (short _ ?_ ?_),
    congrArg _ (short _ ?_ ?_), word _ ?_ ?_, funext fun i => word _ ?_ ?_⟩ <;> omega

theorem setDinode_outside {i : Nat} (outside : i < 64 * k ∨ 64 * k + 64 ≤ i)
    : setDinode blk k d i = blk i := by
  unfold setDinode
  rw [Bytes.setWords_outside (by simp; omega), Bytes.setWord_outside (by omega),
    Bytes.setShort_outside (by omega), Bytes.setShort_outside (by omega),
    Bytes.setShort_outside (by omega), Bytes.setShort_outside (by omega)]

theorem dinodeAt_setDinode_ne (ne : other ≠ k)
    : dinodeAt (setDinode blk k d) other = dinodeAt blk other :=
  dinodeAt_congr fun _ _ _ => setDinode_outside (by omega)

/-- A stored inode reads back, field by field. -/
theorem dinodeAt_setDinode_same (blk : Block) (k : Nat) (d : Dinode)
    : dinodeAt (setDinode blk k d) k = d := by
  have words : ∀ buf : Block, ∀ off, off + 2 ≤ 64 * k + 12
      → (buf.setWords (64 * k + 12) (List.ofFn d.addrs)).short off = buf.short off := by
    intro buf off below
    exact Bytes.short_congr fun i _ _ => Bytes.setWords_outside (by omega)
  have word : ∀ buf : Block, ∀ off, off + 2 ≤ 64 * k + 8
      → (buf.setWord (64 * k + 8) d.size).short off = buf.short off := by
    intro buf off below
    exact Bytes.short_congr fun i _ _ => Bytes.setWord_outside (by omega)
  have later : ∀ buf : Block, ∀ off at' h, off + 2 ≤ at'
      → (buf.setShort at' h).short off = buf.short off := by
    intro buf off at' h below
    exact Bytes.short_congr fun i _ _ => Bytes.setShort_outside (by omega)
  have size : ∀ buf : Block, (buf.setWords (64 * k + 12) (List.ofFn d.addrs)).word (64 * k + 8)
        = buf.word (64 * k + 8) :=
    fun buf => Bytes.word_congr fun i _ _ => Bytes.setWords_outside (by omega)
  unfold dinodeAt setDinode
  ext
  case addrs i =>
    have inside : i.val < (List.ofFn d.addrs).length := by simp
    exact congrArg UInt32.toNat ((Bytes.word_setWords inside).trans (List.getElem_ofFn _))
  all_goals simp (disch := omega) only [words, word, later, size, Bytes.short_setShort_same,
    Bytes.word_setWord_same, Int16.toInt16_toUInt16]

/-- `1 << (bi % 8)`. -/
def bitMask (bi : Nat) : UInt8 :=
  1 <<< UInt8.ofNat (bi % 8)

/-- `bp->data[bi/8] & m` is non-zero: block `bi` of this bitmap block is in use. -/
def bit (blk : Block) (bi : Nat) : Bool :=
  blk (bi / 8) &&& bitMask bi != 0

/-- `bp->data[bi/8] |= m`. -/
def setBit (blk : Block) (bi : Nat) : Block :=
  Function.update blk (bi / 8) (blk (bi / 8) ||| bitMask bi)

/-- `bp->data[bi/8] &= ~m`. -/
def clearBit (blk : Block) (bi : Nat) : Block :=
  Function.update blk (bi / 8) (blk (bi / 8) &&& ~~~bitMask bi)

theorem bitMask_toNat (bi : Nat) : (bitMask bi).toNat = 2 ^ (bi % 8) := by
  have cases : ∀ k : Fin 8, (1 <<< UInt8.ofNat k : UInt8).toNat = 2 ^ k.val := by decide
  exact cases ⟨bi % 8, Nat.mod_lt _ (by decide)⟩

theorem bit_eq_testBit (blk : Block) (bi : Nat)
    : bit blk bi = (blk (bi / 8)).toNat.testBit (bi % 8) := by
  have value : (blk (bi / 8) &&& bitMask bi).toNat
      = ((blk (bi / 8)).toNat.testBit (bi % 8)).toNat * 2 ^ (bi % 8) := by
    rw [UInt8.toNat_and, bitMask_toNat, Nat.and_two_pow]
  cases set : (blk (bi / 8)).toNat.testBit (bi % 8) with
  | false =>
    rw [set, Bool.toNat_false, Nat.zero_mul] at value
    have zero : blk (bi / 8) &&& bitMask bi = 0 := UInt8.toNat_inj.mp value
    simp [bit, zero]
  | true =>
    rw [set, Bool.toNat_true, Nat.one_mul] at value
    have nonzero : blk (bi / 8) &&& bitMask bi ≠ 0 := by
      intro zero
      rw [zero] at value
      exact (Nat.two_pow_pos (bi % 8)).ne value
    simp [bit, nonzero]

/-- Two bits of a bitmap block in the same byte differ in their position in it. -/
theorem bit_position_ne {bi : Nat} (ne : other ≠ bi) (sameByte : other / 8 = bi / 8)
    : bi % 8 ≠ other % 8 := by
  omega

theorem bit_setBit (blk : Block) (bi other : Nat)
    : bit (setBit blk bi) other = (decide (other = bi) || bit blk other) := by
  simp only [bit_eq_testBit, setBit]
  rcases eq_or_ne (other / 8) (bi / 8) with sameByte | otherByte
  · simp only [sameByte, Function.update_self, UInt8.toNat_or, bitMask_toNat, Nat.testBit_or,
      Nat.testBit_two_pow]
    rcases eq_or_ne other bi with rfl | ne
    · simp
    · simp [ne, bit_position_ne ne sameByte]
  · have ne : other ≠ bi := fun same => otherByte (same ▸ rfl)
    simp [Function.update_of_ne otherByte, ne]

theorem bit_clearBit (blk : Block) (bi other : Nat)
    : bit (clearBit blk bi) other = (!decide (other = bi) && bit blk other) := by
  simp only [bit_eq_testBit, clearBit]
  rcases eq_or_ne (other / 8) (bi / 8) with sameByte | otherByte
  · have small : other % 8 < 8 := Nat.mod_lt _ (by decide)
    have mask : (~~~bitMask bi).toNat.testBit (other % 8) = !decide (bi % 8 = other % 8) := by
      have power : 2 ^ (bi % 8) < 2 ^ 8 := Nat.pow_lt_pow_right (by decide) (Nat.mod_lt _ (by decide))
      rw [UInt8.toNat_not, bitMask_toNat, ← Nat.testBit_two_pow (n := bi % 8)]
      have shape : UInt8.size - 1 - 2 ^ (bi % 8) = 2 ^ 8 - (2 ^ (bi % 8) + 1) := by
        change 256 - 1 - _ = 256 - _
        omega
      rw [shape, Nat.testBit_two_pow_sub_succ power]
      simp [small]
    simp only [sameByte, Function.update_self, UInt8.toNat_and, Nat.testBit_and, mask]
    rcases eq_or_ne other bi with rfl | ne
    · simp
    · simp [ne, bit_position_ne ne sameByte]
  · have ne : other ≠ bi := fun same => otherByte (same ▸ rfl)
    simp [Function.update_of_ne otherByte, ne]

end Xv6.Fs
