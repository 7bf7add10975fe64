import Xv6.Fs.Capacity

/-! When the operations on a directory return.
The panics and the self-deadlock that they can meet are ruled out by free blocks, room in the
inode cache and a lock that the caller does not hold itself.
-/

namespace Xv6.Fs

open Lib

/-- Two blocks are free, which is as many as one call of `bmap` takes. -/
def State.Spare (s : State) : Prop :=
  ∃ b c, b ≠ c ∧ s.Unused b ∧ s.Unused c

/-- `iget` finds the inode or an unused entry of the cache. -/
def State.Room (s : State) (inum : Nat) : Prop :=
  0 < (s.icache inum).ref ∨ s.inUse < ninode

section Transfer

variable {s s' : State} {ip off : Nat}
variable {n : Nat} {src : List UInt8}

/-- All slots of a block that exists are full. -/
theorem State.held_ne_zero_of_fileBlock {t : Nat → Dinode} {bn : Nat} {slot : Slot}
    (full : s.fileBlock t ip bn ≠ 0) (member : slot ∈ slotsOf bn)
    : s.held t (ip, slot) ≠ 0 := by
  have here := (State.fileBlock_of_ne_zero full).2 ▸ full
  unfold slotsOf fileSlot at member
  unfold fileSlot at here
  split at member
  · rename_i direct
    rw [if_pos direct] at here
    exact Finset.mem_singleton.mp member ▸ here
  · rename_i indirect
    rw [if_neg indirect] at here
    obtain rfl | same := Finset.mem_insert.mp member
    · exact mt State.held_entry_of_pointer here
    · exact Finset.mem_singleton.mp same ▸ here

/-- `writei` returns for bytes of one block, if the block exists or two are free. -/
theorem writei_completes (shown : s.Shows ip) (data : (s.node ip).type ≠ tDev)
    (fits : off % bsize + src.length ≤ bsize) (room : off < (s.node ip).contents.length ∨ s.Spare)
    : Completes (writei ip src off) s := by
  obtain ⟨_, _, size⟩ := shown.copy_fields
  refine writei_supplied shown data ?_
  rcases src.length.eq_zero_or_pos with zero | positive
  · simp [zero, touched, State.missing]
  rw [touched_block positive fits]
  rcases room with below | ⟨b, c, ne, first, second⟩
  · have full : s.fileBlock s.dinode ip (off / bsize) ≠ 0 :=
      shown.sound.present shown.inside shown.used (by rwa [← shown.copy, size])
    have none : s.missing s.dinode ip (slotsOf (off / bsize)) = ∅ :=
      Finset.filter_eq_empty_iff.mpr fun _ => State.held_ne_zero_of_fileBlock full
    simp [none]
  · have two : 1 < s.freeBlocks.card := Finset.one_lt_card.mpr
      ⟨b, State.mem_freeBlocks.mpr first, c, State.mem_freeBlocks.mpr second, ne⟩
    have few : (slotsOf (off / bsize)).card ≤ 2 := by
      unfold slotsOf
      split
      · simp
      · exact Finset.card_le_two
    exact (Finset.card_filter_le ..).trans (few.trans two)

end Transfer

section Directory

variable {s s' : State} {dp : Nat} {name : List UInt8}

theorem readDirent_completes {site : Panic} {k : Nat} (shown : s.Shows dp)
    (data : (s.node dp).type ≠ tDev) (inside : k < (s.node dp).entryCount)
    : Completes (readDirent site dp (direntSize * k)) s := by
  obtain ⟨_, _, size⟩ := shown.copy_fields
  have bound := (s.icache dp).copy.size.toNat_lt
  have room : direntSize * k + direntSize ≤ (s.node dp).contents.length := by
    simp only [Node.entryCount, direntSize] at *
    omega
  have read := readi_reads (direntSize * k) direntSize shown data
  rw [if_neg (by omega)] at read
  refine Completes.bind ⟨_, s, read⟩ fun bytes m ran => ?_
  obtain ⟨rfl, rfl⟩ := read.unique ran
  refine .ite (fun _ => completes_pure ..) fun short => ?_
  simp only [List.length_take, List.length_drop] at short
  omega

/-- `iget` returns when there is room. -/
theorem iget_completes {inum : Nat} (room : s.Room inum) : Completes (iget inum) s := by
  refine Completes.get (.ite (fun _ => ?_) fun unused => .ite (fun _ => ?_) fun full => ?_)
  · exact (completes_setInode ..).bind_pure
  · exact (completes_setInode ..).bind fun _ _ _ =>
      (completes_modify ..).bind_pure
  · exact (room.elim unused full).elim

/-- The loop of `dirlookup` returns on entries of the directory. -/
theorem lookupLoop_completes {i n : Nat} (shown : s.Shows dp)
    (data : (s.node dp).type ≠ tDev) (inside : i + n ≤ (s.node dp).entryCount)
    (room : ∀ x, (s.node dp).lookup name = some x → s.Room x)
    (first : ∀ j, j < i → ¬((s.node dp).entry j).Matches name)
    : Completes (lookupLoop dp name ((List.range' i n).map (direntSize * ·))) s := by
  induction n generalizing i with
  | zero => exact completes_pure ..
  | succ n ih =>
    rw [List.range'_succ, List.map_cons]
    refine (readDirent_completes shown data (by omega)).bind fun de m read => ?_
    obtain ⟨rfl, within, rfl⟩ := readDirent_returns shown data read
    refine .ite (fun found => ?_) fun other => ih (by omega) fun j below => ?_
    · have room := room _ (Node.lookup_of_first within found first)
      exact (iget_completes room).bind_pure
    · rcases Nat.eq_or_lt_of_le (Nat.le_of_lt_succ below) with rfl | earlier
      · exact other
      · exact first j earlier

/-- `dirlookup` returns on a directory of whole entries, if there is room for the inode that
it finds.
-/
theorem dirlookup_completes (shown : s.Shows dp) (directory : (s.node dp).type = tDir)
    (whole : (s.node dp).contents.length = direntSize * (s.node dp).entryCount)
    (room : ∀ x, (s.node dp).lookup name = some x → s.Room x)
    : Completes (dirlookup dp name) s := by
  obtain ⟨type, _, size⟩ := shown.copy_fields
  refine completes_getInode (.ite (fun other => absurd (type.trans directory) other) fun _ => ?_)
  rw [size, direntOffsets]
  refine lookupLoop_completes shown (by rw [directory]; decide) ?_ room fun j below => by omega
  simp only [direntSize] at *
  omega

/-- The second loop of `dirlink` returns on entries of the directory. -/
theorem emptyLoop_completes {i n last : Nat} (shown : s.Shows dp)
    (data : (s.node dp).type ≠ tDev) (inside : i + n ≤ (s.node dp).entryCount)
    : Completes (emptyLoop dp last ((List.range' i n).map (direntSize * ·))) s := by
  induction n generalizing i with
  | zero => exact completes_pure ..
  | succ n ih =>
    rw [List.range'_succ, List.map_cons]
    refine (readDirent_completes shown data (by omega)).bind fun de m read => ?_
    obtain ⟨rfl, _, _⟩ := readDirent_returns shown data read
    exact .ite (fun _ => completes_pure ..) fun _ => ih (by omega)

end Directory

section References

variable {s s' m : State} {ip inum : Nat}

theorem acquiresleep_completes (unlocked : (s.icache ip).locked = false)
    : Completes (acquiresleep ip) s :=
  completes_getInode (.ite (fun locked => nomatch unlocked.symm.trans locked)
    fun _ => completes_setInode ..)

/-- `ilock` returns for an inode in use that is allocated, if the caller does not hold it. -/
theorem ilock_completes (referenced : 0 < (s.icache ip).ref)
    (unlocked : (s.icache ip).locked = false) (used : (s.dinode ip).type ≠ 0)
    : Completes (ilock ip) s := by
  refine completes_getInode (.ite (fun unreferenced => ?_) fun _ => ?_)
  · omega
  · refine (acquiresleep_completes unlocked).bind fun _ m acquired => ?_
    obtain rfl := acquiresleep_returns acquired
    refine Completes.get (.ite (fun _ => completes_pure ..) fun _ => ?_)
    exact (completes_setInode ..).bind fun _ _ _ =>
      .ite (fun free => absurd free used) fun _ => completes_pure ..

theorem iunlock_completes (referenced : 0 < (s.icache ip).ref)
    (locked : (s.icache ip).locked = true)
    : Completes (iunlock ip) s := by
  refine completes_getInode (.ite (fun refused => ?_) fun _ =>
    completes_getInode (completes_setInode ..))
  simp only [locked, Bool.not_true, Bool.false_or, decide_eq_true_eq] at refused
  omega

/-- `iput` returns when the caller does not hold the lock and the inode is not freed. -/
theorem iput_completes (unlocked : (s.icache ip).locked = false)
    (kept
      : ¬((s.icache ip).valid = true ∧ (s.icache ip).copy.nlink = 0 ∧ (s.icache ip).ref = 1))
    : Completes (iput ip) s := by
  refine (acquiresleep_completes unlocked).bind fun _ m acquired => ?_
  obtain rfl := acquiresleep_returns acquired
  refine Completes.bind ?_ fun _ _ _ => Completes.bind (m := releasesleep ip) ?_ fun _ _ _ => ?_
  · refine completes_getInode (.ite (fun frees => ?_) fun _ => completes_pure ..)
    rw [State.setInode_icache_same] at frees
    exact absurd frees kept
  · exact completes_getInode (completes_setInode ..)
  · exact completes_getInode ((completes_setInode ..).bind fun _ _ _ => completes_modify ..)

/-- The inode of a name that `dirlink` finds is taken and dropped again, which frees nothing.
-/
theorem iget_iput_completes (got : Returns (iget inum) s inum m)
    (unlocked : (s.icache inum).locked = false)
    : Completes (iput inum) m := by
  obtain ⟨_, lock, second⟩ := iget_bookkept got
  exact iput_completes (lock.trans unlocked) fun frees => second frees.1 frees.2.2

theorem iget_iput_bookkept {u : Unit} (got : Returns (iget inum) s inum m)
    (put : Returns (iput inum) m u s')
    : Bookkept s s' := by
  obtain ⟨kept, _, second⟩ := iget_bookkept got
  exact kept.trans (iput_bookkept (fun frees => second frees.1 frees.2.2) put)

end References

section Linking

variable {s : State} {dp inum : Nat} {name : List UInt8}

/-- A file has no blocks beyond `maxfile`, so it is no longer than these. -/
theorem State.Shows.length_le (shown : s.Shows dp)
    : (s.node dp).contents.length ≤ maxfile * bsize := by
  by_contra long
  obtain ⟨_, _, size⟩ := shown.copy_fields
  rw [shown.copy] at size
  have full := shown.sound.covered dp shown.inside shown.used maxfile (by omega)
  exact Nat.lt_irrefl _ (State.fileBlock_of_ne_zero full).1

/-- `dirlink` returns if it may drop the inode of a name that is there, and if there is room
for an entry with a new name.
-/
theorem dirlink_completes (shown : s.Shows dp) (directory : (s.node dp).type = tDir)
    (whole : (s.node dp).contents.length = direntSize * (s.node dp).entryCount)
    (present
      : ∀ x, (s.node dp).lookup name = some x → s.Room x ∧ (s.icache x).locked = false)
    (absent
      : (s.node dp).lookup name = none
        → (∃ k, k < (s.node dp).entryCount ∧ ((s.node dp).entry k).inum = 0)
          ∨ (s.node dp).contents.length + direntSize ≤ maxfile * bsize ∧ s.Spare)
    : Completes (dirlink dp name inum) s := by
  have data : (s.node dp).type ≠ tDev := by
    rw [directory]
    decide
  refine (dirlookup_completes shown directory whole fun x found => (present x found).1).bind
    fun found m looked => ?_
  obtain ⟨_, ⟨rfl, rfl, _, none⟩ | ⟨k, within, found, first, rfl, got⟩⟩ :=
    dirlookup_returns shown looked
  · obtain ⟨_, _, size⟩ := shown.copy_fields
    refine completes_getInode ?_
    simp only [size, direntOffsets]
    refine (emptyLoop_completes shown data (by simp only [direntSize] at *; omega)).bind
      fun off m scanned => ?_
    obtain ⟨rfl, place⟩ := emptyLoop_returns shown data scanned
    have length : (Dirent.toBytes ⟨UInt16.ofNat inum, strncpy dirsiz name⟩).length = direntSize :=
      Dirent.length_toBytes (length_strncpy ..)
    -- the entry fits into its block and into the largest file
    have room : off % bsize + direntSize ≤ bsize ∧ off ≤ (m.node dp).contents.length
        ∧ off + direntSize ≤ maxfile * bsize
        ∧ (off < (m.node dp).contents.length ∨ m.Spare) := by
      have longest := shown.length_le
      rcases place with ⟨rfl, full⟩ | ⟨k, within, _, rfl⟩
      · rcases absent (Node.lookup_eq_none_iff.mpr none) with ⟨k, within, empty⟩ | ⟨small, spare⟩
        · refine absurd empty (full k (Nat.zero_le k) ?_)
          simp only [direntSize] at *
          omega
        · simp only [direntSize, bsize] at *
          exact ⟨by omega, by omega, by omega, .inr spare⟩
      · simp only [direntSize, bsize] at *
        exact ⟨by omega, by omega, by omega, .inl (by omega)⟩
    obtain ⟨fits, low, small, spare⟩ := room
    rw [← length] at fits small
    refine (writei_completes shown data fits spare).bind fun written last wrote => ?_
    obtain rfl := writei_written shown data low small wrote
    exact .ite (fun _ => completes_pure ..) fun short => absurd (congrArg some length) short
  · have unlocked := (present _ (Node.lookup_of_first within found first)).2
    exact (iget_iput_completes got unlocked).bind_pure

end Linking

end Xv6.Fs
