import Xv6.Files.CallRules
import Xv6.Files.Soundness

/-! All runs of the kernel follow the protocol: the tables agree with the references, locks and
transactions that the processes have, whatever the interleaving. The inode cache is therefore
write-through.
-/

namespace Xv6.Files

open Lib Fs

variable {I : Prop} {ninodes : Nat} {dinode : Nat → Nat → Dinode} {labels : List Label}
  {c : Config}

theorem kernel_obeys (I : Prop) : kernel.Obeys (protocol I) (Inv I) where
  op := exec_obeys
  fork := Inv.born
  exit := Inv.dead
  start _ call _ idle := (syscall_rule call idle).bind fun _ _ idle => idle

/-- What the first process has. -/
def bootTokens : Multiset Token :=
  {.me initproc} + ({.table initproc (fun _ => none) (some 0)} + {.ref 0})

section

variable (whole : I → ∀ dev inum, Whole (dinode dev inum))
include whole

theorem boot_inv
    : Inv I (boot ninodes dinode).shared bootTokens := by
  have closed : ∀ k, opened (boot ninodes dinode).shared.file k = 0 := fun k => by
    rw [opened_eq_card, Finset.card_eq_zero]
    exact Finset.filter_false_of_mem fun f _ both => Nat.lt_irrefl 0 both.1
  have files : FileInv (boot ninodes dinode).shared.file 0 :=
    ⟨fun _ => rfl, nofun, fun _ _ => rfl, fun _ _ => Nat.zero_le 1⟩
  have cache : CacheInv I (boot ninodes dinode).shared.inode (boot ninodes dinode).shared.dinode
      (fun _ => 0) {0} 0 := by
    refine ⟨fun ip => ?_, fun _ => rfl, nofun, fun _ _ _ _ => nofun, fun ip jp => ?_, whole⟩
    · rw [Multiset.count_singleton, Nat.add_zero]
      rfl
    · simp only [boot]
      grind
  have pipes : PipeInv (boot ninodes dinode).shared.pipe (boot ninodes dinode).shared.made
      (fun _ _ => 0) 0 0 0 :=
    ⟨fun _ w => by cases w <;> rfl, fun _ => rfl, fun _ => rfl⟩
  have procs : ProcInv (boot ninodes dinode).shared.proc {initproc} 0
      {(initproc, (fun _ => none), some 0)} := by
    refine ⟨fun p => ?_, fun p => ?_, fun p => ?_, fun p o c mem => ?_, fun p => ?_⟩
    · by_cases first : p = initproc <;> simp [boot, first]
    · by_cases first : p = initproc <;> simp [boot, first]
    · by_cases first : p = initproc <;> simp [boot, first]
    · obtain ⟨rfl, rfl, rfl⟩ : p = initproc ∧ o = (fun _ => none) ∧ c = some 0 := by
        simpa using mem
      exact ⟨rfl, rfl⟩
    · by_cases first : p = initproc <;> simp [boot, first]
  refine ⟨by simpa [bootTokens] using files, ?_, ?_, by simpa [bootTokens] using procs, rfl⟩
  · simpa [bootTokens, closed] using cache
  · simpa [bootTokens, closed] using pipes

theorem boot_custody
    : (boot ninodes dinode).Custody (protocol I) (Inv I) := by
  refine ⟨fun p => if p = initproc then bootTokens else 0, ?_, fun p => ?_⟩
  · rw [Finset.sum_ite_eq' Finset.univ initproc fun _ => bootTokens, if_pos (Finset.mem_univ _)]
    exact boot_inv whole
  · by_cases first : p = initproc
    · subst first
      have idle : Idle initproc ({.table initproc (fun _ => none) (some 0)} + {.ref 0}) :=
        ⟨fun _ => none, 0, fun _ => .inode 0, nofun, by simp [slots]⟩
      exact ⟨_, rfl, idle⟩
    · simp [boot, first, Protocol.Has]

theorem custody (reached : run kernel.step labels (boot ninodes dinode) = some c)
    : c.Custody (protocol I) (Inv I) :=
  (boot_custody whole).run (kernel_obeys I) reached

end

/-- The inode cache is write-through. In every run on a disk without holes, an entry that has a
reference and is valid, and that nobody has locked, has the fields of the disk inode, which is one
that is in use.
-/
theorem inodeCache_writeThrough (whole : ∀ dev inum, Whole (dinode dev inum))
    (reached : run kernel.step labels (boot ninodes dinode) = some c) (ip : Fin ninode)
    (used : 0 < (c.shared.inode ip).ref) (valid : (c.shared.inode ip).valid = true)
    (unlocked : (c.shared.inode ip).locked = false)
    : (c.shared.inode ip).copy = c.shared.onDisk ip ∧ (c.shared.onDisk ip).type ≠ 0 := by
  obtain ⟨has, inv, _⟩ := custody (I := True) (fun _ => whole) reached
  obtain ⟨same, type⟩ := inv.cache.sync trivial ip used unlocked valid
  exact ⟨same.symm, fun free => type (same ▸ free)⟩

/-- A disk with an empty root directory. -/
def rootOnly (_dev inum : Nat) : Dinode :=
  if inum = rootino then { Dinode.blank tDir with nlink := 1 } else .blank 0

theorem whole_rootOnly (dev inum : Nat) : Whole (rootOnly dev inum) := by
  refine whole_empty ?_
  unfold rootOnly
  split <;> rfl

/-- `initproc` makes a call and goes on for `n` operations, each with the input 1. -/
def solo (call : Call) (n : Nat) : List Label :=
  .start initproc call :: List.replicate n (.move initproc ⟨1, []⟩)

/-- After `open("a", O_CREATE)` the root directory has one entry. -/
theorem inodeCache_writeThrough_create
    : ∃ c, run kernel.step (solo (.open (some ([0x61], oCreate))) 51) (boot 200 rootOnly) = some c
        ∧ (c.shared.inode 0).copy = c.shared.onDisk 0 ∧ (c.shared.inode 0).copy.size = 16 := by
  obtain ⟨c, reached, used, valid, unlocked, size⟩ :
      ∃ c ∈ run kernel.step (solo (.open (some ([0x61], oCreate))) 51) (boot 200 rootOnly),
        0 < (c.shared.inode 0).ref ∧ (c.shared.inode 0).valid = true
        ∧ (c.shared.inode 0).locked = false ∧ (c.shared.inode 0).copy.size = 16 := by
    decide +kernel
  have same := inodeCache_writeThrough whole_rootOnly reached 0 used valid unlocked
  exact ⟨c, reached, same.1, size⟩

end Xv6.Files
