import Xv6.Param
import Xv6.Lib.WriteTrace

/-! The redo log of `log.c`, over a disk seen through the buffer cache.
Every `bwrite` is recorded, so that a crash can cut the sequence anywhere.
-/

namespace Xv6.Logging

open Xv6.Lib

/-- The disk, the cached blocks in front of it, and the `bwrite` calls made so far. -/
structure Device where
  disk : Nat → Block
  cache : Nat → Option Block
  writes : List (Nat × Block)

namespace Device

/-- `bread`: the cached contents of a block, else its contents on disk. -/
def bread (dev : Device) (b : Nat) : Block :=
  (dev.cache b).getD (dev.disk b)

/-- Fill the buffer of block `b` with `data` and `bwrite` it. -/
def bwrite (dev : Device) (b : Nat) (data : Block) : Device where
  disk := Function.update dev.disk b data
  cache := Function.update dev.cache b (some data)
  writes := dev.writes ++ [(b, data)]

/-- The machine after a reboot: the disk survives, every buffer is lost. -/
def boot (disk : Nat → Block) : Device where
  disk := disk
  cache := fun _ => none
  writes := []

/-- `bread` both blocks, `memmove` the source over the destination, `bwrite` it. -/
def copyBlock (dev : Device) (dst src : Nat) : Device :=
  dev.bwrite dst (dev.bread src)

def bwriteAll (dev : Device) (writes : List (Nat × Block)) : Device :=
  writes.foldl (fun current write => current.bwrite write.1 write.2) dev

@[simp] theorem bread_bwrite (dev : Device) (b : Nat) (data : Block)
    : (dev.bwrite b data).bread = Function.update dev.bread b data := by
  funext other
  by_cases same : other = b
  · subst same
    simp [bread, bwrite]
  · simp [bread, bwrite, same]

theorem bwriteAll_spec (dev : Device) (writes : List (Nat × Block))
    : (dev.bwriteAll writes).disk = applyWrites writes dev.disk
      ∧ (dev.bwriteAll writes).bread = applyWrites writes dev.bread
      ∧ (dev.bwriteAll writes).writes = dev.writes ++ writes := by
  induction writes generalizing dev with
  | nil => exact ⟨rfl, rfl, (List.append_nil _).symm⟩
  | cons write rest ih =>
    obtain ⟨disk, view, record⟩ := ih (dev.bwrite write.1 write.2)
    rw [bread_bwrite] at view
    exact ⟨disk, view, by simpa [bwriteAll, bwrite] using record⟩

/-- A copying loop whose sources are never overwritten makes the writes one expects.
Witness: induction over the loop, with the sources read from the initial contents.
-/
theorem copyLoop_eq {ι : Type} (dev : Device) (steps : List ι) (dst src : ι → Nat)
    (separate : ∀ i ∈ steps, ∀ j ∈ steps, dst i ≠ src j)
    : steps.foldl (fun current i => current.copyBlock (dst i) (src i)) dev
      = dev.bwriteAll (steps.map (fun i => (dst i, dev.bread (src i)))) := by
  induction steps generalizing dev with
  | nil => rfl
  | cons head rest ih =>
    have later := ih (dev.copyBlock (dst head) (src head))
      (fun i first j second =>
        separate i (List.mem_cons_of_mem _ first) j (List.mem_cons_of_mem _ second))
    rw [List.foldl_cons, later, List.map_cons]
    have unread : rest.map (fun i => (dst i, (dev.copyBlock (dst head) (src head)).bread (src i)))
        = rest.map (fun i => (dst i, dev.bread (src i))) := by
      apply List.map_congr_left
      intro i member
      have ne := separate head List.mem_cons_self i (List.mem_cons_of_mem _ member)
      simp [copyBlock, Function.update_of_ne ne.symm]
    rw [unread]
    rfl

end Device

/-- `struct logheader`: a count and the home block numbers of the logged blocks. -/
structure LogHeader where
  n : Nat
  block : Nat → UInt32

/-- The part of `struct log` that commit and recovery use. -/
structure Log where
  start : Nat
  size : Nat
  lh : LogHeader

def LogHeader.home (lh : LogHeader) (tail : Nat) : Nat := (lh.block tail).toNat

def LogHeader.blocks (lh : LogHeader) : List Nat := (List.range lh.n).map lh.home

/-- The header and log blocks `[log.start, log.start + log.size)`. -/
def Log.InArea (log : Log) (b : Nat) : Prop := log.start ≤ b ∧ b < log.start + log.size

instance (log : Log) (b : Nat) : Decidable (log.InArea b) :=
  inferInstanceAs (Decidable (_ ∧ _))

/-- The count in an on-disk header block, read as a C `int`. -/
def headerCount (blk : Block) : Nat := (blk.word 0).toInt32.toInt.toNat

def headerBlock (blk : Block) (i : Nat) : UInt32 := blk.word (4 + 4 * i)

/-- The assignments to `hb->n` and `hb->block[0..n)` that `write_head` makes. -/
def LogHeader.encode (lh : LogHeader) (hb : Block) : Block :=
  (List.range lh.n).foldl (fun buf i => buf.setWord (4 + 4 * i) (lh.block i))
    (hb.setWord 0 (UInt32.ofNat lh.n))

/-! Commit and recovery. -/

/-- `install_trans`: copy committed blocks from the log to their home locations. -/
def installTrans (log : Log) (dev : Device) : Device :=
  (List.range log.lh.n).foldl
    (fun current tail => current.copyBlock (log.lh.home tail) (log.start + tail + 1)) dev

/-- `read_head`: read the on-disk header into the in-memory header. -/
def readHead (log : Log) (dev : Device) : Log :=
  let lh := dev.bread log.start
  { log with
    lh := {
      n := headerCount lh
      block := fun i => if i < headerCount lh then headerBlock lh i else log.lh.block i } }

/-- `write_head`: write the in-memory header to disk, the true point of commit. -/
def writeHead (log : Log) (dev : Device) : Device :=
  dev.bwrite log.start (log.lh.encode (dev.bread log.start))

def Log.cleared (log : Log) : Log := { log with lh := { log.lh with n := 0 } }

/-- `recover_from_log`: install a committed transaction, then clear the log. -/
def recoverFromLog (log : Log) (dev : Device) : Device :=
  let log := readHead log dev
  writeHead log.cleared (installTrans log dev)

/-- `write_log`: copy modified blocks from the cache to the log. -/
def writeLog (log : Log) (dev : Device) : Device :=
  (List.range log.lh.n).foldl
    (fun current tail => current.copyBlock (log.start + tail + 1) (log.lh.home tail)) dev

/-- `commit`: write the log, write the header, install, and erase the transaction. -/
def commit (log : Log) (dev : Device) : Device :=
  if log.lh.n > 0 then
    writeHead log.cleared (installTrans log (writeHead log (writeLog log dev)))
  else
    dev

/-! Crashes. -/

/-- The sequence of `bwrite` calls that `commit` makes. -/
def commitWrites (log : Log) (dev : Device) : List (Nat × Block) :=
  (commit log { dev with writes := [] }).writes

/-- The disk after a crash that cuts `commit` behind its first `cut` writes. -/
def crashedCommit (cut : Nat) (log : Log) (dev : Device) : Nat → Block :=
  crashAt cut (commitWrites log dev) dev.disk

/-- The disk after a reboot whose recovery is cut behind its first `cut` writes. -/
def crashedRecovery (log : Log) (disk : Nat → Block) (cut : Nat) : Nat → Block :=
  crashAt cut (recoverFromLog log (.boot disk)).writes disk

/-- The disk after a reboot whose recovery runs to completion. -/
def recovered (log : Log) (disk : Nat → Block) : Nat → Block :=
  (recoverFromLog log (.boot disk)).disk

/-- The disk after any number of interrupted recoveries and one that completes. -/
def recoveredAfter (log : Log) (cuts : List Nat) (disk : Nat → Block) : Nat → Block :=
  recovered log (cuts.foldl (crashedRecovery log) disk)

/-- Disk `D` overlaid with the cached contents of the logged blocks. -/
def overlay (log : Log) (dev : Device) (b : Nat) : Block :=
  if b ∈ log.lh.blocks then dev.bread b else dev.disk b

end Xv6.Logging
