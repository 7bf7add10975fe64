import Xv6.Fs.Effects
import Xv6.Lib.Transition

/-! Disk blocks keep one owner along every sequence of operations.
An operation is a call with its locks; it is enabled while the inodes it is given have
references, and a sequence ends when a call panics or blocks.
-/

namespace Xv6.Fs

open Lib

/-- The machine after booting from a disk, with the root as the first working directory. -/
def boot (disk : Nat → Block) (devsw : Nat → Option Device) : State where
  disk := disk
  sb := readsb disk
  icache := fun inum =>
    { ref := if inum = rootino then 1 else 0, locked := false, valid := false, copy := .blank 0 }
  inUse := 1
  devsw := devsw

/-- The operations; `create` and `namei` keep the reference they return. -/
inductive FsOp where
  | create (cwd : Nat) (path : List UInt8)
  | mknod (cwd : Nat) (path : List UInt8) (major minor : Int16)
  | mkdir (cwd : Nat) (path : List UInt8)
  | link (cwd : Nat) (old new : List UInt8)
  | unlink (cwd : Nat) (path : List UInt8)
  | namei (cwd : Nat) (path : List UInt8)
  | readi (ip off n : Nat)
  | writei (ip : Nat) (src : List UInt8) (off : Nat)
  | iput (ip : Nat)

/-- What follows `create` in a system call that keeps its inode only when `keep` is set. -/
def finishCreate (keep : Bool) : Option Nat → FsM Unit
  | none => pure ()
  | some ip => if keep then iunlock ip else iunlockput ip

def FsOp.program : FsOp → FsM Unit
  | .create cwd path => do
      let made ← Fs.create cwd path tFile 0 0
      finishCreate true made
  | .mknod cwd path major minor => do
      let made ← Fs.create cwd path tDev major minor
      finishCreate false made
  | .mkdir cwd path => do
      let made ← Fs.create cwd path tDir 0 0
      finishCreate false made
  | .link cwd old new => do
      let _ ← Fs.link cwd old new
  | .unlink cwd path => do
      let _ ← Fs.unlink cwd path
  | .namei cwd path => do
      let _ ← Fs.namei cwd path
  | .readi ip off n => do
      ilock ip
      let _ ← Fs.readi ip off n
      iunlock ip
  | .writei ip src off => do
      ilock ip
      let _ ← Fs.writei ip src off
      iunlock ip
  | .iput ip => Fs.iput ip

/-- The inodes an operation is given are referenced, and data goes to files only: `sys_open`
refuses to open a directory for writing.
-/
def FsOp.Enabled (s : State) : FsOp → Prop
  | .create cwd _ | .mknod cwd _ _ _ | .mkdir cwd _ | .link cwd _ _ | .unlink cwd _
  | .namei cwd _ => 0 < s.refs cwd
  | .readi ip _ _ | .iput ip => 0 < s.refs ip
  | .writei ip _ _ => 0 < s.refs ip ∧ (s.node ip).type ≠ tDir

instance FsOp.decidableEnabled (s : State) (op : FsOp) : Decidable (op.Enabled s) := by
  cases op <;> dsimp only [FsOp.Enabled] <;> infer_instance

/-- One operation; `none` when it is not enabled or does not return. -/
def fsStep (s : State) (op : FsOp) : Option State :=
  if op.Enabled s then
    match op.program s with
    | .ok (_, s') => some s'
    | .error _ => none
  else none

theorem fsStep_iff {s s' : State} {op : FsOp}
    : fsStep s op = some s' ↔ op.Enabled s ∧ Returns op.program s () s' := by
  unfold fsStep Returns
  split
  · rename_i enabled
    cases op.program s with
    | error e => simp
    | ok result => simp [enabled, Prod.ext_iff]
  · rename_i disabled
    simp [disabled]

section Steps

variable {s s' : State} {ip : Nat}
variable {keep r : Bool} {u : Unit} {cwd off : Nat} {path : List UInt8}

theorem finishCreate_wf {made : Option Nat} (wf : s.Wf) (held : ∀ x, hitSome made x ≤ s.refs x)
    (ran : Returns (finishCreate keep made) s u s')
    : s'.Wf := by
  cases made with
  | none =>
    obtain ⟨_, rfl⟩ := returns_pure.mp ran
    exact wf
  | some ip =>
    rcases returns_ite.mp ran with ⟨_, ran⟩ | ⟨_, ran⟩
    · exact (iunlock_passing (fun _ => 0) wf ran).1.wf
    · have mine := held ip
      rw [hitSome_some, hit_self] at mine
      have put : Passing (fun _ => 0) s s' ∧ _ :=
        iunlockput_passing wf (counts_of_pos mine) (fun _ => Nat.zero_le _) ran
      exact put.1.wf

theorem create_wf {type major minor : Int16} (wf : s.Wf) (current : 0 < s.refs cwd)
    (typed : type ≠ 0)
    (ran
      : Returns
          (do
            let made ← Fs.create cwd path type major minor
            finishCreate keep made) s u s')
    : s'.Wf := by
  obtain ⟨made, m, created, ran⟩ := returns_bind.mp ran
  obtain ⟨refs, result⟩ :=
    create_returns s.refs wf (fun _ => Nat.le_refl _) current typed created
  have wf' : m.Wf := by
    rcases result with ⟨passing, _⟩ | ⟨_, _, _, _, _, _, _, _, _, _, _, _, passing⟩
    · exact passing.wf
    · exact passing.wf
  exact finishCreate_wf wf' (fun x => by rw [refs]; omega) ran

theorem link_wf {old new : List UInt8} (wf : s.Wf) (current : 0 < s.refs cwd)
    (ran : Returns (link cwd old new) s r s')
    : s'.Wf := by
  obtain ⟨_, ⟨_, passing⟩ | ⟨_, _, _, _, _, _, _, _, _, _, _, _, result⟩⟩ :=
    link_returns s.refs wf (fun _ => Nat.le_refl _) current ran
  · exact passing.wf
  · rcases result with ⟨_, _, _, _, _, _, _, passing⟩
      | ⟨_, _, _, _, _, _, _, _, _, _, _, _, _, passing⟩
    · exact passing.wf
    · exact passing.wf

theorem unlink_wf (wf : s.Wf) (current : 0 < s.refs cwd) (ran : Returns (unlink cwd path) s r s')
    : s'.Wf := by
  obtain ⟨_, ⟨_, passing⟩ | ⟨_, _, _, _, _, _, _, _, _, _, _, _, _, _, removed⟩⟩ :=
    unlink_returns s.refs wf (fun _ => Nat.le_refl _) current ran
  · exact passing.wf
  · obtain ⟨_, _, _, _, _, _, _, passing⟩ := removed
    exact passing.wf

/-- A device inode is read and written through `devsw`; the file system stays as it is. -/
theorem device_unchanged (wf : s.Wf) (loaded : s.Loaded ip) (device : (s.node ip).type = tDev)
    : (∀ n r, Returns (readi ip off n) s r s' → s' = s)
      ∧ ∀ src r, Returns (writei ip src off) s r s' → s' = s := by
  have type := (wf.quiet.shows loaded).copy_fields.1
  refine ⟨fun n r ran => ?_, fun src r ran => ?_⟩
  all_goals
    have ran := returns_get_bind.mp ran
    rcases returns_ite.mp ran with ⟨_, ran⟩ | ⟨other, _⟩
    · exact (returns_pure.mp ran).2.symm
    · exact absurd (type.trans device) other

theorem readi_wf {n : Nat} {r : Option (List UInt8)} (wf : s.Wf) (loaded : s.Loaded ip)
    (ran : Returns (readi ip off n) s r s')
    : s'.Wf := by
  by_cases device : (s.node ip).type = tDev
  · exact (device_unchanged wf loaded device).1 n r ran ▸ wf
  · exact (readi_returns (wf.quiet.shows loaded) device ran).1 ▸ wf

/-- Writing to a file changes no directory. -/
theorem writei_wf {src : List UInt8} {r : Option Nat} (wf : s.Wf) (loaded : s.Loaded ip)
    (file : (s.node ip).type ≠ tDir) (ran : Returns (writei ip src off) s r s')
    : s'.Wf := by
  by_cases device : (s.node ip).type = tDev
  · exact (device_unchanged wf loaded device).2 src r ran ▸ wf
  · rcases writei_leads wf.quiet loaded device ran with ⟨_, rfl⟩ | ⟨_, _, leads⟩
    · exact wf
    · exact leads.wf (wf.inRange.set fun directory => absurd directory file)

/-- Every operation that returns keeps the file system well formed. -/
theorem fsStep_wf {op : FsOp} (wf : s.Wf) (stepped : fsStep s op = some s') : s'.Wf := by
  obtain ⟨enabled, ran⟩ := fsStep_iff.mp stepped
  cases op with
  | create | mknod | mkdir => exact create_wf wf enabled (by decide) ran
  | link cwd old new =>
    obtain ⟨_, linked, _⟩ := returns_bind_pure.mp ran
    exact link_wf wf enabled linked
  | unlink cwd path =>
    obtain ⟨_, unlinked, _⟩ := returns_bind_pure.mp ran
    exact unlink_wf wf enabled unlinked
  | namei cwd path =>
    obtain ⟨_, walked, _⟩ := returns_bind_pure.mp ran
    exact (namei_returns s.refs wf (fun _ => Nat.le_refl _) enabled walked).1.wf
  | readi ip off n =>
    obtain ⟨_, m, locked, ran⟩ := returns_bind.mp ran
    obtain ⟨passing, _, loaded, _⟩ := ilock_passing (fun _ => 0) wf locked
    obtain ⟨_, m', read, ran⟩ := returns_bind.mp ran
    exact (iunlock_passing (fun _ => 0) (readi_wf passing.wf loaded read) ran).1.wf
  | writei ip src off =>
    obtain ⟨_, m, locked, ran⟩ := returns_bind.mp ran
    obtain ⟨passing, _, loaded, node, _⟩ := ilock_passing (fun _ => 0) wf locked
    obtain ⟨_, m', wrote, ran⟩ := returns_bind.mp ran
    have written := writei_wf passing.wf loaded (node ▸ enabled.2) wrote
    exact (iunlock_passing (fun _ => 0) written ran).1.wf
  | iput ip =>
    have put : Passing (fun _ => 0) s s' ∧ _ :=
      iput_passing wf (counts_of_pos enabled) (fun _ => Nat.zero_le _) ran
    exact put.1.wf

end Steps

/-- The image as it is usually described: every file has its blocks, no block is in two
places, and the bitmap marks the metadata and the blocks in places.
-/
structure State.Accounted (s : State) : Prop where
  layout : s.sb.Layout
  superblock : readsb s.disk = s.sb
  covered
    : ∀ inum, inum < s.sb.ninodes → (s.dinode inum).type ≠ 0
      → ∀ bn, bn * bsize < (s.dinode inum).size.toNat → s.fileBlock s.dinode inum bn ≠ 0
  unshared
    : ∀ place place', s.held s.dinode place ≠ 0
      → s.held s.dinode place = s.held s.dinode place' → place = place'
  bitmap
    : ∀ b, b < s.sb.size
      → (s.bitmap b = true ↔ b < s.sb.firstData ∨ ∃ place, s.held s.dinode place = b)

/-- An accounted image whose places hold data blocks and whose directories name inodes of
the inode table.
-/
structure State.WellFormed (s : State) : Prop extends State.Accounted s where
  range
    : ∀ place, s.held s.dinode place ≠ 0
      → s.sb.firstData ≤ s.held s.dinode place ∧ s.held s.dinode place < s.sb.size
  entries : InRange s.sb.ninodes s.node

/-- Every block has at most one place, places hold data blocks, and the bitmap is exact. -/
structure State.Ownership (s : State) : Prop where
  unique
    : ∀ place place', s.held s.dinode place ≠ 0
      → s.held s.dinode place = s.held s.dinode place' → place = place'
  range
    : ∀ place, s.held s.dinode place ≠ 0
      → s.sb.firstData ≤ s.held s.dinode place ∧ s.held s.dinode place < s.sb.size
  bitmap
    : ∀ b, b < s.sb.size
      → (s.bitmap b = true ↔ b < s.sb.firstData ∨ ∃ place, s.held s.dinode place = b)

section Ownership

variable {s : State}
variable {root b : Nat}

theorem State.WellFormed.sound (formed : s.WellFormed) : s.Sound s.dinode where
  layout := formed.layout
  superblock := formed.superblock
  metadata := fun b below => by
    have data : s.sb.firstData ≤ s.sb.size := Nat.sub_le ..
    exact (formed.bitmap b (by omega)).mpr (.inl below)
  owned := by
    have positive := formed.layout.firstData_pos
    refine ⟨formed.unshared, fun b => ⟨?_, ?_⟩⟩
    · rintro ⟨low, high, marked⟩
      rcases (formed.bitmap b high).mp marked with metadata | held
      · omega
      · exact ⟨by omega, held⟩
    · rintro ⟨nonzero, place, rfl⟩
      obtain ⟨low, high⟩ := formed.range place nonzero
      exact ⟨low, high, (formed.bitmap _ high).mpr (.inr ⟨place, rfl⟩)⟩
  covered := formed.covered

theorem State.Sound.ownership (sound : s.Sound s.dinode) : s.Ownership where
  unique := sound.owned.unique
  range := fun place full => by
    obtain ⟨low, high, _⟩ := sound.owned.used_of_holds full
    exact ⟨low, high⟩
  bitmap := fun b below => by
    have positive := sound.layout.firstData_pos
    constructor
    · intro marked
      by_cases metadata : b < s.sb.firstData
      · exact .inl metadata
      · exact .inr ((sound.owned.used_iff b).mp ⟨by omega, below, marked⟩).2
    · rintro (metadata | ⟨place, rfl⟩)
      · exact sound.metadata b metadata
      · rcases Nat.eq_zero_or_pos (s.held s.dinode place) with empty | full
        · exact sound.metadata _ (by omega)
        · exact (sound.owned.used_of_holds (Nat.ne_of_gt full)).2.2

/-- A freshly booted machine has nothing but the root in its inode cache. -/
theorem boot_wf {disk : Nat → Block} {devsw : Nat → Option Device}
    (formed : (boot disk devsw).WellFormed)
    : (boot disk devsw).Wf := by
  refine ⟨⟨formed.sound, fun inum used => ?_, fun inum _ valid => by cases valid⟩, formed.entries⟩
  have isRoot : inum = rootino := by
    by_contra other
    simp [State.flags, boot, other] at used
  exact isRoot ▸ formed.layout.root

/-- The only file is in inode `root` and has the one block `b`. -/
structure State.OneBlock (s : State) (root b : Nat) : Prop where
  layout : s.sb.Layout
  superblock : readsb s.disk = s.sb
  inside : root < s.sb.ninodes
  used : (s.dinode root).type ≠ 0
  only : ∀ inum, inum < s.sb.ninodes → (s.dinode inum).type ≠ 0 → inum = root
  addrs : ∀ i : Fin 13, (s.dinode root).addrs i = if i = 0 then UInt32.ofNat b else 0
  size : (s.dinode root).size.toNat ≤ bsize
  block : 0 < b ∧ b < 2 ^ 32
  bitmap : ∀ c, c < s.sb.size → (s.bitmap c = true ↔ c < s.sb.firstData ∨ c = b)

theorem State.OneBlock.held (one : s.OneBlock root b) (place : Nat × Slot)
    : s.held s.dinode place = if place = (root, .inl 0) then b else 0 := by
  obtain ⟨inum, slot⟩ := place
  unfold State.held
  by_cases allocated : inum < s.sb.ninodes ∧ (s.dinode inum).type ≠ 0
  · obtain rfl := one.only inum allocated.1 allocated.2
    rw [if_pos allocated]
    cases slot with
    | inl i =>
      rw [Dinode.block, one.addrs]
      by_cases first : i = 0
      · simpa [first] using one.block.2
      · simp [first]
    | inr j => simp [Dinode.block, one.addrs]
  · rw [if_neg allocated, if_neg]
    rintro ⟨⟩
    exact allocated ⟨one.inside, one.used⟩

theorem State.OneBlock.accounted (one : s.OneBlock root b) : s.Accounted where
  layout := one.layout
  superblock := one.superblock
  covered := by
    intro inum inside used bn below
    obtain rfl := one.only inum inside used
    have first : bn = 0 := by
      have small := one.size
      simp only [bsize] at *
      omega
    have slot : (inum, fileSlot 0) = (inum, .inl 0) := rfl
    rw [first, State.fileBlock, if_pos (by decide), one.held, if_pos slot]
    exact Nat.ne_of_gt one.block.1
  unshared := by
    intro place place' full same
    rw [one.held] at full
    rw [one.held, one.held] at same
    have first : place = (root, .inl 0) := by
      by_contra other
      exact full (if_neg other)
    have second : place' = (root, .inl 0) := by
      by_contra other
      rw [if_neg other] at same
      exact full same
    exact first.trans second.symm
  bitmap := by
    intro c below
    have positive := one.layout.firstData_pos
    rw [one.bitmap c below]
    simp only [one.held]
    constructor
    · rintro (metadata | rfl)
      · exact .inl metadata
      · exact .inr ⟨_, if_pos rfl⟩
    · rintro (metadata | ⟨place, isHeld⟩)
      · exact .inl metadata
      · split at isHeld
        · exact .inr isHeld.symm
        · omega

theorem State.OneBlock.wellFormed (one : s.OneBlock root b)
    (range : s.sb.firstData ≤ b ∧ b < s.sb.size)
    (entries
      : ∀ dp, dp < s.sb.ninodes → (s.node dp).type = tDir
        → ∀ k, k < (s.node dp).entryCount → ((s.node dp).entry k).inum.toNat < s.sb.ninodes)
    : s.WellFormed := by
  refine { one.accounted with range := fun place full => ?_, entries := fun dp directory => ?_ }
  · rw [one.held] at full ⊢
    split at full
    · rename_i isRoot
      rwa [if_pos isRoot]
    · exact absurd rfl full
  · by_cases inside : dp < s.sb.ninodes
    · exact entries dp inside directory
    · rw [State.node, State.nodeOf, if_neg fun allocated => inside allocated.1] at directory
      cases directory

/-- A disk of eight blocks whose only file is the root directory, in data block 4; a further
inode stands in position 3 of the inode block.
-/
def tinyDisk (ninodes : UInt32) (stray : Dinode) (entries : List Dirent) : Nat → Block
  | 1 => Bytes.setWords (fun _ => 0) 0 [8, 4, ninodes, 0, 2, 2, 3]
  | 2 =>
      setDinode
        (setDinode (fun _ => 0) 1
          { Dinode.blank tDir with
            nlink := 1
            size := UInt32.ofNat (direntSize * entries.length)
            addrs := fun i => if i = 0 then 4 else 0 })
        3 stray
  | 3 => fun i => if i = 0 then 0x1f else 0
  | 4 => Bytes.poke (fun _ => 0) 0 (entries.flatMap Dirent.toBytes)
  | _ => fun _ => 0

def rootEntries : List Dirent :=
  [⟨1, strncpy dirsiz dot⟩, ⟨1, strncpy dirsiz dotdot⟩]

/-- An image with an empty root. -/
def emptyImage : State :=
  boot (tinyDisk 4 (.blank 0) rootEntries) fun _ => none

theorem emptyImage_wellFormed : emptyImage.WellFormed := by
  have one : emptyImage.OneBlock 1 4 := by
    constructor
    · constructor <;> decide +kernel
    · rfl
    all_goals decide +kernel
  exact one.wellFormed (by decide +kernel) (by decide +kernel)

theorem run_wf {s s' : State} {ops : List FsOp} (wf : s.Wf) (reached : run fsStep ops s = some s')
    : s'.Wf :=
  run_invariant (fun _ _ _ wf stepped => fsStep_wf wf stepped) wf reached

/-- Every sequence of operations from a well-formed image leaves every block with at most one
owner and the bitmap exact.
-/
theorem run_ownership {disk : Nat → Block} {devsw : Nat → Option Device} {ops : List FsOp}
    {final : State} (formed : (boot disk devsw).WellFormed)
    (reached : run fsStep ops (boot disk devsw) = some final)
    : final.Ownership :=
  (run_wf (boot_wf formed) reached).quiet.sound.ownership

/-- A file is made in the empty root, written, removed and dropped. -/
theorem run_ownership_emptyImage
    : ∃ final,
        run fsStep
          [.create 1 [97], .writei 2 [7, 8, 9] 0, .unlink 1 [97], .iput 2] emptyImage
          = some final
        ∧ final.Ownership := by
  obtain ⟨final, reached⟩ : ∃ s, run fsStep
      [.create 1 [97], .writei 2 [7, 8, 9] 0, .unlink 1 [97], .iput 2] emptyImage = some s := by
    decide +kernel
  exact ⟨final, reached, run_ownership emptyImage_wellFormed reached⟩

/-- An image whose root names inode 3 although the inode table ends at 2; what stands there
claims the block of the root.
-/
def strayImage : State :=
  boot
    (tinyDisk 2
      { Dinode.blank tFile with nlink := 1, addrs := fun i => if i = 0 then 4 else 0 }
      (rootEntries ++ [⟨3, strncpy dirsiz [120]⟩])) fun _ => none

/-- Accounting alone is not enough: removing a name beyond the inode table frees a block of
the root.
-/
theorem strayImage_not_ownership
    : strayImage.Accounted
      ∧ ∃ final, run fsStep [.unlink 1 [47, 120]] strayImage = some final
        ∧ ¬final.Ownership := by
  have one : strayImage.OneBlock 1 4 := by
    constructor
    · constructor <;> decide +kernel
    · rfl
    all_goals decide +kernel
  obtain ⟨final, reached, clear, size, held⟩ :
      ∃ s, run fsStep [.unlink 1 [47, 120]] strayImage = some s ∧ s.bitmap 4 = false
        ∧ s.sb.size = 8 ∧ s.held s.dinode (1, .inl 0) = 4 := by
    decide +kernel
  refine ⟨one.accounted, final, reached, fun ownership => ?_⟩
  have marked := (ownership.bitmap 4 (by rw [size]; decide)).mpr (.inr ⟨_, held⟩)
  rw [clear] at marked
  cases marked

end Ownership

end Xv6.Fs
