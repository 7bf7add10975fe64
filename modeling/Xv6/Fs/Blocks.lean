import Xv6.Fs.Model
import Xv6.Lib.Exclusive

/-! Who owns which disk block.
A place is an address of an inode or an entry of its indirect block. The image is sound when
the bitmap is exact for the places of the allocated inodes. The inodes are given as a table,
which is the one on disk except while `bmap` has changed a cached copy.
-/

namespace Xv6.Fs

open Lib
open Function (update update_self update_of_ne update_idem update_eq_self)

/-- An entry of `addrs`, the last of which is the indirect pointer, or of the indirect block.
-/
abbrev Slot := Fin 13 ⊕ Fin 128

/-- The block number in a slot of an inode, `0` when there is none. -/
def Dinode.block (disk : Nat → Block) (d : Dinode) : Slot → Nat
  | .inl i => (d.addrs i).toNat
  | .inr j => if d.addrs 12 = 0 then 0 else ((disk (d.addrs 12).toNat).word (4 * j)).toNat

/-- The block number at a place; only allocated inodes hold blocks. -/
def State.held (s : State) (table : Nat → Dinode) (place : Nat × Slot) : Nat :=
  if place.1 < s.sb.ninodes ∧ (table place.1).type ≠ 0 then
    (table place.1).block s.disk place.2
  else 0

/-- Block `b` is a data block that the bitmap marks as used. -/
def State.Marked (s : State) (b : Nat) : Prop :=
  s.sb.firstData ≤ b ∧ b < s.sb.size ∧ s.bitmap b = true

/-- The slot of block `bn` of a file. -/
def fileSlot (bn : Nat) : Slot :=
  if bn < ndirect then .inl (Fin.ofNat 13 bn) else .inr (Fin.ofNat 128 (bn - ndirect))

/-- The disk block of block `bn` of a file, `0` when there is none. -/
def State.fileBlock (s : State) (table : Nat → Dinode) (inum bn : Nat) : Nat :=
  if bn < maxfile then s.held table (inum, fileSlot bn) else 0

/-- The blocks of the allocated inodes of `table` are theirs alone, the bitmap marks exactly
these and the metadata, and every file has its blocks.
-/
structure State.Sound (s : State) (table : Nat → Dinode) : Prop where
  layout : s.sb.Layout
  superblock : readsb s.disk = s.sb
  metadata : ∀ b, b < s.sb.firstData → s.bitmap b = true
  owned : Exclusive (s.held table) s.Marked
  covered
    : ∀ inum, inum < s.sb.ninodes → (table inum).type ≠ 0
      → ∀ bn, bn * bsize < (table inum).size.toNat → s.fileBlock table inum bn ≠ 0

/-! The regions of the disk. -/

section Regions

variable {sb : Superblock} (layout : sb.Layout)
include layout

theorem Superblock.Layout.iblock_region {inum : Nat} (inside : inum < sb.ninodes)
    : 1 < iblock sb inum ∧ iblock sb inum < sb.bmapstart := by
  have inodes := layout.inodes
  have bitmap := layout.bitmap
  simp only [iblock, ipb] at *
  omega

theorem Superblock.Layout.bblock_region {b : Nat} (inside : b < sb.size)
    : sb.bmapstart ≤ bblock sb b ∧ bblock sb b < sb.firstData := by
  have data := layout.data
  simp only [bblock, bpb] at *
  omega

theorem Superblock.Layout.iblock_ne_bblock {inum b : Nat} (inside : inum < sb.ninodes)
    : iblock sb inum ≠ bblock sb b := by
  have region := layout.iblock_region inside
  simp only [bblock, bpb] at *
  omega

theorem Superblock.Layout.bmapstart_lt : 1 < sb.bmapstart ∧ sb.bmapstart < sb.firstData := by
  have inodes := layout.inodes
  have bitmap := layout.bitmap
  have data := layout.data
  simp only [ipb, bpb] at *
  omega

theorem Superblock.Layout.firstData_pos : 0 < sb.firstData := by
  have data := layout.data
  simp only [bpb] at data
  omega

end Regions

/-! What a write to one block leaves alone. -/

section Writes

variable {s : State} {b : Nat} {blk : Block}

@[simp] theorem State.write_sb (s : State) (b : Nat) (blk : Block)
    : (s.write b blk).sb = s.sb := rfl

@[simp] theorem State.write_icache (s : State) (b : Nat) (blk : Block)
    : (s.write b blk).icache = s.icache := rfl

@[simp] theorem State.write_disk_same (s : State) (b : Nat) (blk : Block)
    : (s.write b blk).disk b = blk :=
  update_self ..

theorem State.write_disk_ne {c : Nat} (ne : c ≠ b) : (s.write b blk).disk c = s.disk c :=
  update_of_ne ne ..

theorem State.dinode_write_ne {inum : Nat} (ne : iblock s.sb inum ≠ b)
    : (s.write b blk).dinode inum = s.dinode inum := by
  simp only [State.dinode, State.write_sb, State.write_disk_ne ne]

theorem State.bitmap_write_ne {c : Nat} (ne : bblock s.sb c ≠ b)
    : (s.write b blk).bitmap c = s.bitmap c := by
  simp only [State.bitmap, State.write_sb, State.write_disk_ne ne]

theorem readsb_congr {disk disk' : Nat → Block} (same : disk' 1 = disk 1)
    : readsb disk' = readsb disk := by
  simp only [readsb, same]

/-- Marking a block changes its own bit only. -/
theorem State.bitmap_setBit (s : State) (b c : Nat)
    : (s.write (bblock s.sb b) (setBit (s.disk (bblock s.sb b)) (b % bpb))).bitmap c
      = (decide (c = b) || s.bitmap c) := by
  rcases eq_or_ne (bblock s.sb c) (bblock s.sb b) with same | other
  · have position : c % bpb = b % bpb ↔ c = b := by
      simp only [bblock, bpb] at *
      omega
    simp only [State.bitmap, State.write_sb, same, State.write_disk_same, bit_setBit, position]
  · have ne : c ≠ b := fun same => other (same ▸ rfl)
    simp [State.bitmap_write_ne other, ne]

theorem State.bitmap_clearBit (s : State) (b c : Nat)
    : (s.write (bblock s.sb b) (clearBit (s.disk (bblock s.sb b)) (b % bpb))).bitmap c
      = (!decide (c = b) && s.bitmap c) := by
  rcases eq_or_ne (bblock s.sb c) (bblock s.sb b) with same | other
  · have position : c % bpb = b % bpb ↔ c = b := by
      simp only [bblock, bpb] at *
      omega
    simp only [State.bitmap, State.write_sb, same, State.write_disk_same, bit_clearBit, position]
  · have ne : c ≠ b := fun same => other (same ▸ rfl)
    simp [State.bitmap_write_ne other, ne]

/-- Storing an inode changes that inode only. -/
theorem State.dinode_setDinode (s : State) (ip inum : Nat) (d : Dinode)
    : (s.write (iblock s.sb ip) (setDinode (s.disk (iblock s.sb ip)) (ip % ipb) d)).dinode inum
      = update s.dinode ip d inum := by
  rcases eq_or_ne inum ip with rfl | ne
  · simp only [State.dinode, State.write_sb, State.write_disk_same, dinodeAt_setDinode_same,
      update_self]
  · rw [update_of_ne ne]
    rcases eq_or_ne (iblock s.sb inum) (iblock s.sb ip) with same | other
    · have position : inum % ipb ≠ ip % ipb := by
        simp only [iblock, ipb] at *
        omega
      simp only [State.dinode, State.write_sb, same, State.write_disk_same,
        dinodeAt_setDinode_ne position]
    · exact State.dinode_write_ne other

end Writes

/-! Ownership under allocation and freeing. -/

section Ownership

variable {s s' : State} {t t' : Nat → Dinode} {ip b : Nat}
variable {slot : Slot} {inum addr bn : Nat} {place : Nat × Slot} {last : State} {i : Fin 13}
  {d : Dinode} {j : Fin 128}

theorem State.held_of_allocated (inside : ip < s.sb.ninodes) (used : (t ip).type ≠ 0)
    : s.held t (ip, slot) = (t ip).block s.disk slot :=
  if_pos ⟨inside, used⟩

/-- A place reads the inode and, behind the pointer, the indirect block. -/
theorem State.held_congr (sb : s'.sb = s.sb) (inode : t' inum = t inum)
    (indirect
      : s.held t (inum, .inl 12) ≠ 0
        → s'.disk (s.held t (inum, .inl 12)) = s.disk (s.held t (inum, .inl 12)))
    : s'.held t' (inum, slot) = s.held t (inum, slot) := by
  unfold State.held
  rw [sb, inode]
  split
  · rename_i allocated
    cases slot with
    | inl i => rfl
    | inr j =>
      rw [State.held_of_allocated allocated.1 allocated.2] at indirect
      simp only [Dinode.block]
      split
      · rfl
      · rename_i pointer
        have same : s'.disk ((t inum).addrs 12).toNat = s.disk ((t inum).addrs 12).toNat :=
          indirect fun zero => pointer (UInt32.toNat_inj.mp zero)
        rw [same]
  · rfl

theorem State.Sound.marked_of_held (sound : s.Sound t) (full : s.held t place ≠ 0)
    : s.Marked (s.held t place) :=
  sound.owned.used_of_holds full

theorem State.Sound.size_lt (sound : s.Sound t) : s.sb.size < 2 ^ 32 := by
  rw [← sound.superblock]
  exact UInt32.toNat_lt _

/-- The image is sound, and the allocated inode `ip` is in the cache as in the table. -/
structure State.Opened (s : State) (t : Nat → Dinode) (ip : Nat) : Prop extends s.Sound t where
  inside : ip < s.sb.ninodes
  used : (t ip).type ≠ 0
  copy : (s.icache ip).copy = t ip

theorem State.Opened.held (file : s.Opened t ip)
    : s.held t (ip, slot) = (t ip).block s.disk slot :=
  State.held_of_allocated file.inside file.used

theorem State.Opened.held_addr_eq_zero_iff (file : s.Opened t ip)
    : s.held t (ip, .inl i) = 0 ↔ (t ip).addrs i = 0 := by
  rw [file.held]
  exact UInt32.toNat_inj (b := 0)

/-- Without an indirect block there is nothing behind it. -/
theorem State.held_entry_of_pointer (zero : s.held t (ip, .inl 12) = 0)
    : s.held t (ip, .inr j) = 0 := by
  unfold State.held at *
  split
  · rename_i allocated
    rw [if_pos allocated] at zero
    have pointer : ((t ip).addrs 12).toNat = (0 : UInt32).toNat := zero
    exact if_pos (UInt32.toNat_inj.mp pointer)
  · rfl

/-- The slot of a block behind the indirect pointer. -/
theorem State.Opened.held_entry (file : s.Opened t ip) (pointer : (t ip).addrs 12 ≠ 0)
    (small : bn - ndirect < nindirect)
    : s.held t (ip, .inr (Fin.ofNat 128 (bn - ndirect)))
      = ((s.disk ((t ip).addrs 12).toNat).word (4 * (bn - ndirect))).toNat := by
  have position : (Fin.ofNat 128 (bn - ndirect)).val = bn - ndirect := Nat.mod_eq_of_lt small
  rw [file.held, Dinode.block, if_neg pointer, position]

/-- Soundness reads the superblock, the bitmap and the places. -/
theorem State.Sound.of_same (sound : s.Sound t) (sb : s'.sb = s.sb)
    (superblock : s'.disk 1 = s.disk 1)
    (bitmap : ∀ c, c < s.sb.size → s'.bitmap c = s.bitmap c)
    (held : ∀ place, s'.held t' place = s.held t place)
    (sizes : ∀ inum, (t' inum).type ≠ 0 → (t inum).type ≠ 0 ∧ (t' inum).size = (t inum).size)
    : s'.Sound t' where
  layout := sb ▸ sound.layout
  superblock := by rw [readsb_congr superblock, sound.superblock, sb]
  metadata := by
    intro c low
    rw [sb] at low
    rw [bitmap c (Nat.lt_of_lt_of_le low (Nat.sub_le ..))]
    exact sound.metadata c low
  owned := by
    refine sound.owned.congr held fun c => ?_
    simp only [State.Marked, sb]
    exact and_congr_right fun _ => and_congr_right fun inside => by rw [bitmap c inside]
  covered := by
    intro inum inside used bn below
    obtain ⟨before, same⟩ := sizes inum used
    have full := sound.covered inum (sb ▸ inside) before bn (same ▸ below)
    simpa only [State.fileBlock, held] using full

/-- What `balloc` does when it returns `b`: a free data block is marked and zeroed. -/
structure Allocated (s : State) (b : Nat) (s' : State) : Prop where
  fresh : s.bitmap b = false
  low : s.sb.firstData ≤ b
  high : b < s.sb.size
  rest : s' = { s with disk := s'.disk }
  superblock : s'.disk 1 = s.disk 1
  dinode : ∀ inum, inum < s.sb.ninodes → s'.dinode inum = s.dinode inum
  bitmap : ∀ c, c < s.sb.size → s'.bitmap c = (decide (c = b) || s.bitmap c)
  zero : s'.disk b = fun _ => 0
  data : ∀ c, s.sb.firstData ≤ c → c ≠ b → s'.disk c = s.disk c

theorem balloc_returns (sound : s.Sound t) (ran : Returns balloc s b s')
    : Allocated s b s' := by
  have ran := returns_get_bind.mp ran
  split at ran
  · exact (returns_throw.mp ran).elim
  · rename_i free found
    obtain ⟨_, middle, marked, ran⟩ := returns_bind.mp ran
    obtain ⟨_, zeroed, rfl⟩ := returns_bind_pure.mp ran
    have marked := returns_modify.mp marked
    have zeroed := returns_modify.mp zeroed
    have fresh : s.bitmap free = false := by simpa using List.find?_some found
    have high : free < s.sb.size := List.mem_range.mp (List.mem_of_find?_eq_some found)
    have low : s.sb.firstData ≤ free := by
      by_contra below
      rw [sound.metadata free (by omega)] at fresh
      cases fresh
    obtain ⟨above, below⟩ := sound.layout.bblock_region high
    have start := sound.layout.bmapstart_lt
    subst marked zeroed
    refine { fresh, low, high, rest := rfl, superblock := ?_, dinode := ?_, bitmap := ?_,
             zero := State.write_disk_same .., data := ?_ }
    · rw [State.write_disk_ne (by omega), State.write_disk_ne (by omega)]
    · intro inum inside
      have region := sound.layout.iblock_region inside
      rw [State.dinode_write_ne (by simp only [State.write_sb]; omega),
        State.dinode_write_ne (sound.layout.iblock_ne_bblock inside)]
    · intro c inside
      have region := sound.layout.bblock_region inside
      rw [State.bitmap_write_ne (by simp only [State.write_sb]; omega)]
      exact State.bitmap_setBit s free c
    · intro c data ne
      rw [State.write_disk_ne ne, State.write_disk_ne (by omega)]

section

variable (alloc : Allocated s b s')
include alloc

/-- Nothing holds a block that is free in the bitmap. -/
theorem Allocated.held_ne (sound : s.Sound t) (place : Nat × Slot)
    : s.held t place ≠ b := by
  intro same
  have full : s.held t place ≠ 0 := by
    have positive := sound.layout.firstData_pos
    have low := alloc.low
    omega
  have marked := (sound.marked_of_held full).2.2
  rw [same, alloc.fresh] at marked
  cases marked

theorem Allocated.sb : s'.sb = s.sb := by
  rw [alloc.rest]

theorem Allocated.disk_held (sound : s.Sound t) (full : s.held t place ≠ 0)
    : s'.disk (s.held t place) = s.disk (s.held t place) :=
  alloc.data _ (sound.marked_of_held full).1 (alloc.held_ne sound place)

theorem Allocated.toNat_ofNat (sound : s.Sound t)
    : (UInt32.ofNat b).toNat = b := by
  have bound := sound.size_lt
  have high := alloc.high
  exact Nat.mod_eq_of_lt (by omega)

theorem Allocated.ne_zero (sound : s.Sound t) : b ≠ 0 := by
  have positive := sound.layout.firstData_pos
  have low := alloc.low
  omega

/-- Storing the block just allocated in an empty place keeps the image sound. -/
theorem Allocated.sound (sound : s.Sound t) (empty : s.held t place = 0) (sb : last.sb = s.sb)
    (superblock : last.disk 1 = s'.disk 1)
    (bitmap : ∀ c, c < s.sb.size → last.bitmap c = s'.bitmap c) (there : last.held t' place = b)
    (elsewhere : ∀ other, other ≠ place → last.held t' other = s.held t other)
    (sizes : ∀ inum, (t' inum).type ≠ 0 → (t inum).type ≠ 0 ∧ (t' inum).size = (t inum).size)
    : last.Sound t' where
  layout := sb ▸ sound.layout
  superblock := by
    rw [readsb_congr (superblock.trans alloc.superblock), sound.superblock, sb]
  metadata := by
    intro c low
    rw [sb] at low
    have inside : c < s.sb.size := Nat.lt_of_lt_of_le low (Nat.sub_le ..)
    simp [bitmap c inside, alloc.bitmap c inside, sound.metadata c low]
  owned := by
    have unused : ¬s.Marked b := by
      intro marked
      have set := marked.2.2
      rw [alloc.fresh] at set
      cases set
    refine sound.owned.assign empty (alloc.ne_zero sound) unused there elsewhere fun c => ?_
    have low := alloc.low
    have high := alloc.high
    simp only [State.Marked, sb]
    constructor
    · rintro ⟨above, inside, set⟩
      rw [bitmap c inside, alloc.bitmap c inside] at set
      rcases Bool.or_eq_true_iff.mp set with same | set
      · exact .inl (of_decide_eq_true same)
      · exact .inr ⟨above, inside, set⟩
    · rintro (rfl | ⟨above, inside, set⟩)
      · exact ⟨low, high, by simp [bitmap c high, alloc.bitmap c high]⟩
      · exact ⟨above, inside, by simp [bitmap c inside, alloc.bitmap c inside, set]⟩
  covered := by
    intro inum inside used bn below
    obtain ⟨before, same⟩ := sizes inum used
    have full := sound.covered inum (sb ▸ inside) before bn (same ▸ below)
    unfold State.fileBlock at *
    split
    · rw [if_pos (by assumption)] at full
      rcases eq_or_ne (inum, fileSlot bn) place with here | other
      · rw [here, there]
        exact alloc.ne_zero sound
      · rwa [elsewhere _ other]
    · rwa [if_neg (by assumption)] at full

theorem Allocated.held_setAddr (file : s.Opened t ip) (empty : (t ip).addrs i = 0)
    (other : place ≠ (ip, .inl i))
    : s'.held (update t ip ((t ip).setAddr i (UInt32.ofNat b))) place = s.held t place := by
  have sound := file.toSound
  obtain ⟨inum, slot⟩ := place
  rcases eq_or_ne inum ip with rfl | ne
  · rw [file.held, State.held_of_allocated (alloc.sb ▸ file.inside)
      (by simpa [Dinode.setAddr] using file.used), update_self]
    cases slot with
    | inl k =>
      have ne : k ≠ i := fun same => other (same ▸ rfl)
      simp [Dinode.block, Dinode.setAddr, ne]
    | inr k =>
      rcases eq_or_ne i 12 with rfl | direct
      · have nonzero : UInt32.ofNat b ≠ 0 := by
          intro zero
          have value := alloc.toNat_ofNat sound
          rw [zero] at value
          exact alloc.ne_zero sound value.symm
        have word : Bytes.word (fun _ => 0) (4 * k.val) = 0 := rfl
        simp [Dinode.block, Dinode.setAddr, empty, nonzero, alloc.toNat_ofNat sound,
          alloc.zero, word]
      · have pointer : ((t inum).setAddr i (UInt32.ofNat b)).addrs 12 = (t inum).addrs 12 :=
          update_of_ne direct.symm ..
        simp only [Dinode.block, pointer]
        split
        · rfl
        · rename_i full
          have block := alloc.disk_held sound (mt file.held_addr_eq_zero_iff.mp full)
          rw [file.held, Dinode.block] at block
          rw [block]
  · exact State.held_congr alloc.sb (update_of_ne ne ..) (alloc.disk_held sound)

end

/-- Every data block of a file stays where it is, with its contents, and so do the inodes on
disk.
-/
structure Keeps (s : State) (t : Nat → Dinode) (s' : State) (t' : Nat → Dinode) : Prop where
  dinode : ∀ inum, inum < s.sb.ninodes → s'.dinode inum = s.dinode inum
  data
    : ∀ inum slot, slot ≠ .inl 12 → s.held t (inum, slot) ≠ 0
      → s'.held t' (inum, slot) = s.held t (inum, slot)
        ∧ s'.disk (s.held t (inum, slot)) = s.disk (s.held t (inum, slot))

/-- The cached inode `ip` got blocks, which changed its addresses from `t ip` to those of `d`,
and nothing else happened.
-/
structure Remapped (s : State) (t : Nat → Dinode) (ip : Nat) (d : Dinode) (s' : State)
    : Prop where
  sound : s'.Sound (update t ip d)
  keeps : Keeps s t s' (update t ip d)
  sb : s'.sb = s.sb
  icache : s'.icache = update s.icache ip { s.icache ip with copy := d }
  inUse : s'.inUse = s.inUse
  devsw : s'.devsw = s.devsw
  fields : d = { t ip with addrs := d.addrs }

theorem Keeps.refl (s : State) (t : Nat → Dinode) : Keeps s t s t :=
  ⟨fun _ _ => rfl, fun _ _ _ _ => ⟨rfl, rfl⟩⟩

theorem Keeps.trans {t'' : Nat → Dinode} (first : Keeps s t s' t') (second : Keeps s' t' last t'')
    (sb : s'.sb = s.sb)
    : Keeps s t last t'' := by
  constructor
  · intro inum inside
    exact (second.dinode inum (sb ▸ inside)).trans (first.dinode inum inside)
  · intro inum slot direct full
    obtain ⟨place, contents⟩ := first.data inum slot direct full
    obtain ⟨place', contents'⟩ := second.data inum slot direct (place ▸ full)
    rw [place] at place' contents'
    exact ⟨place', contents'.trans contents⟩

theorem Remapped.entry (mapped : Remapped s t ip d s')
    : s'.icache ip = { s.icache ip with copy := d } := by
  rw [mapped.icache]
  exact update_self ..

theorem Remapped.refl (sound : s.Sound t) (copy : (s.icache ip).copy = t ip)
    : Remapped s t ip (t ip) s where
  sound := by rwa [update_eq_self]
  keeps := by
    rw [update_eq_self]
    exact Keeps.refl s t
  sb := rfl
  icache := by
    rw [← copy]
    simp
  inUse := rfl
  devsw := rfl
  fields := rfl

theorem Remapped.trans {d' : Dinode} (first : Remapped s t ip d s')
    (second : Remapped s' (update t ip d) ip d' last)
    : Remapped s t ip d' last := by
  have table : update (update t ip d) ip d' = update t ip d' :=
    update_idem ..
  refine ⟨table ▸ second.sound, table ▸ first.keeps.trans second.keeps first.sb,
    second.sb.trans first.sb, ?_, second.inUse.trans first.inUse,
    second.devsw.trans first.devsw, ?_⟩
  · rw [second.icache, first.entry, first.icache, update_idem]
  · have fields := second.fields
    rw [update_self] at fields
    rw [fields, first.fields]

theorem Remapped.opened (mapped : Remapped s t ip d s') (file : s.Opened t ip)
    : s'.Opened (update t ip d) ip where
  toSound := mapped.sound
  inside := mapped.sb ▸ file.inside
  used := by
    rw [update_self, mapped.fields]
    exact file.used
  copy := by rw [mapped.entry, update_self]

/-- A slot of the cached inode `ip` has a block: its own, or a new one if there was none. -/
structure Slotted (s : State) (t : Nat → Dinode) (ip : Nat) (slot : Slot) (d : Dinode)
    (s' : State) : Prop extends Remapped s t ip d s' where
  stays : s.held t (ip, slot) ≠ 0 → s' = s ∧ d = t ip
  placed
    : s.held t (ip, slot) = 0
        → ∃ b m, Allocated s b m ∧ (∀ c, c < s.sb.size → s'.bitmap c = m.bitmap c)
          ∧ s'.held (update t ip d) (ip, slot) = b
          ∧ ∀ other, other ≠ (ip, slot) → s'.held (update t ip d) other = s.held t other

theorem Slotted.refl (file : s.Opened t ip) (full : s.held t (ip, slot) ≠ 0)
    : Slotted s t ip slot (t ip) s where
  toRemapped := .refl file.toSound file.copy
  stays := fun _ => ⟨rfl, rfl⟩
  placed := fun empty => absurd empty full

theorem Slotted.full (slotted : Slotted s t ip slot d s') (sound : s.Sound t)
    : s'.held (update t ip d) (ip, slot) ≠ 0 := by
  by_cases empty : s.held t (ip, slot) = 0
  · obtain ⟨b, m, alloc, _, there, _⟩ := slotted.placed empty
    exact there ▸ alloc.ne_zero sound
  · obtain ⟨rfl, rfl⟩ := slotted.stays empty
    rwa [update_eq_self]

/-- The block just allocated was put into an empty slot; this wrote neither to the metadata nor
to the data of a file.
-/
theorem Allocated.slotted (alloc : Allocated s b s') (file : s.Opened t ip)
    (fields : d = { t ip with addrs := d.addrs })
    (rest : last = { s' with disk := last.disk, icache := last.icache })
    (icache : last.icache = update s'.icache ip { s'.icache ip with copy := d })
    (low : ∀ c, c < s.sb.firstData → last.disk c = s'.disk c)
    (data
      : ∀ place, place.2 ≠ .inl 12 → s.held t place ≠ 0
          → last.disk (s.held t place) = s'.disk (s.held t place))
    (empty : s.held t (ip, slot) = 0) (there : last.held (update t ip d) (ip, slot) = b)
    (elsewhere
      : ∀ other, other ≠ (ip, slot) → last.held (update t ip d) other = s.held t other)
    : Slotted s t ip slot d last := by
  have sb : last.sb = s.sb := (congrArg State.sb rest).trans alloc.sb
  have start := file.layout.bmapstart_lt
  have bitmap : ∀ c, c < s.sb.size → last.bitmap c = s'.bitmap c := fun c inside => by
    simp only [State.bitmap, sb, alloc.sb, low _ (file.layout.bblock_region inside).2]
  refine ⟨⟨?_, ⟨fun inum inside => ?_, fun inum slot direct full => ?_⟩, sb, ?_, ?_, ?_, fields⟩,
    fun full => absurd empty full, fun _ => ⟨b, s', alloc, bitmap, there, elsewhere⟩⟩
  · refine alloc.sound file.toSound empty sb (low 1 (by omega)) bitmap there elsewhere
      fun inum used => ?_
    rcases eq_or_ne inum ip with rfl | ne
    · rw [update_self, fields] at used ⊢
      exact ⟨used, rfl⟩
    · rw [update_of_ne ne] at used ⊢
      exact ⟨used, rfl⟩
  · have region := file.layout.iblock_region inside
    rw [← alloc.dinode inum inside]
    simp only [State.dinode, sb, alloc.sb, low (iblock s.sb inum) (by omega)]
  · exact ⟨elsewhere _ fun same => full (same ▸ empty),
      (data _ direct full).trans (alloc.disk_held file.toSound full)⟩
  · rw [icache, congrArg State.icache alloc.rest]
  · rw [rest, congrArg State.inUse alloc.rest]
  · rw [rest, congrArg State.devsw alloc.rest]

theorem Allocated.copy (alloc : Allocated s b s') (file : s.Opened t ip)
    : (s'.icache ip).copy = t ip := by
  rw [alloc.rest]
  exact file.copy

/-- A new direct block or indirect pointer. -/
theorem Allocated.setAddr_slotted (alloc : Allocated s b s') (file : s.Opened t ip)
    (empty : (t ip).addrs i = 0)
    : Slotted s t ip (.inl i) ((t ip).setAddr i (UInt32.ofNat b))
        (s'.setInode ip
          { s'.icache ip with copy := (s'.icache ip).copy.setAddr i (UInt32.ofNat b) }) := by
  rw [alloc.copy file]
  refine alloc.slotted file rfl rfl rfl (fun _ _ => rfl) (fun _ _ _ => rfl)
    (file.held_addr_eq_zero_iff.mpr empty) ?_ fun _ => alloc.held_setAddr file empty
  have inside : ip < s'.sb.ninodes := alloc.sb ▸ file.inside
  rw [State.held_of_allocated (s := s'.setInode ip _) inside
    (by simpa [Dinode.setAddr] using file.used)]
  simp [Dinode.block, Dinode.setAddr, alloc.toNat_ofNat file.toSound]

/-- The block behind the indirect pointer is not a data block of any file. -/
theorem State.Sound.pointer_ne (sound : s.Sound t) (full : s.held t (ip, .inl 12) ≠ 0)
    (place : Nat × Slot) (ne : place ≠ (ip, .inl 12))
    : s.held t place ≠ s.held t (ip, .inl 12) :=
  fun same => ne (sound.owned.unique _ _ full same.symm).symm

theorem Allocated.held_setWord (alloc : Allocated s b s') (file : s.Opened t ip)
    (full : (t ip).addrs 12 ≠ 0) (other : place ≠ (ip, .inr j))
    : (s'.write ((t ip).addrs 12).toNat
          ((s'.disk ((t ip).addrs 12).toNat).setWord (4 * j) (UInt32.ofNat b))).held t place
      = s.held t place := by
  have sound := file.toSound
  have nonzero : s.held t (ip, .inl 12) ≠ 0 := mt file.held_addr_eq_zero_iff.mp full
  have same := alloc.disk_held sound nonzero
  rw [file.held, Dinode.block] at same
  obtain ⟨inum, slot⟩ := place
  rcases eq_or_ne inum ip with rfl | ne
  · rw [file.held, State.held_of_allocated (s := s'.write _ _) (alloc.sb ▸ file.inside) file.used]
    cases slot with
    | inl k => rfl
    | inr k =>
      have apart : k.val ≠ j.val := fun same => other (Fin.ext same ▸ rfl)
      simp only [Dinode.block, if_neg full, State.write_disk_same, same]
      rw [Bytes.word_setWord_disjoint (by omega)]
  · refine State.held_congr alloc.sb rfl fun held => ?_
    rw [State.write_disk_ne, alloc.disk_held sound held]
    have apart := sound.pointer_ne nonzero (inum, .inl 12) fun same =>
      ne (congrArg Prod.fst same)
    rwa [file.held] at apart

/-- A new block behind the indirect pointer. -/
theorem Allocated.setWord_slotted (alloc : Allocated s b s') (file : s.Opened t ip)
    (full : (t ip).addrs 12 ≠ 0) (empty : s.held t (ip, .inr j) = 0)
    : Slotted s t ip (.inr j) (t ip)
        (s'.write ((t ip).addrs 12).toNat
          ((s'.disk ((t ip).addrs 12).toNat).setWord (4 * j) (UInt32.ofNat b))) := by
  have nonzero : s.held t (ip, .inl 12) ≠ 0 := mt file.held_addr_eq_zero_iff.mp full
  have low := (file.marked_of_held nonzero).1
  have apart := file.pointer_ne nonzero
  simp only [file.held, Dinode.block] at low apart
  refine alloc.slotted file rfl rfl ?_ (fun c below => State.write_disk_ne (by omega))
    (fun place direct held => State.write_disk_ne ?_) empty ?_ fun other ne => ?_
  · rw [← alloc.copy file]
    simp
  · exact apart place fun same => direct (congrArg Prod.snd same)
  · have inside : ip < s'.sb.ninodes := alloc.sb ▸ file.inside
    rw [update_eq_self, State.held_of_allocated (s := s'.write _ _) inside file.used]
    simp [Dinode.block, full, alloc.toNat_ofNat file.toSound]
  · rw [update_eq_self]
    exact alloc.held_setWord file full ne

theorem addrOrAlloc_slotted (file : s.Opened t ip)
    (ran : Returns (addrOrAlloc ip i) s addr s')
    : ∃ d, Slotted s t ip (.inl i) d s' ∧ addr = (d.addrs i).toNat ∧ d.addrs i ≠ 0 := by
  have ran := returns_getInode_bind.mp ran
  rw [file.copy] at ran
  have nonzero {d} (slotted : Slotted s t ip (.inl i) d s') : d.addrs i ≠ 0 := fun zero =>
    slotted.full file.toSound
      ((slotted.opened file).held_addr_eq_zero_iff.mpr (by rwa [update_self]))
  rcases returns_ite.mp ran with ⟨empty, ran⟩ | ⟨full, ran⟩
  · obtain ⟨b, middle, allocated, ran⟩ := returns_bind.mp ran
    have alloc := balloc_returns file.toSound allocated
    obtain ⟨_, assigned, rfl⟩ := returns_bind_pure.mp ran
    cases returns_assign.mp assigned
    have slotted := alloc.setAddr_slotted file empty
    refine ⟨_, slotted, ?_, nonzero slotted⟩
    simp [Dinode.setAddr, alloc.toNat_ofNat file.toSound]
  · obtain ⟨rfl, rfl⟩ := returns_pure.mp ran
    exact ⟨t ip, .refl file (mt file.held_addr_eq_zero_iff.mp full), rfl, full⟩

/-- What `bmap` does when it returns: the slot of block `bn` has a block, and before it the
indirect pointer if the slot is behind that.
-/
theorem bmap_slotted (file : s.Opened t ip) (ran : Returns (bmap ip bn) s addr s')
    : bn < maxfile
      ∧ ∃ d, addr = s'.held (update t ip d) (ip, fileSlot bn)
        ∧ (bn < ndirect ∧ Slotted s t ip (fileSlot bn) d s'
          ∨ ¬bn < ndirect ∧ ∃ m, Slotted s t ip (.inl 12) d m
            ∧ Slotted m (update t ip d) ip (fileSlot bn) d s') := by
  rcases returns_ite.mp ran with ⟨direct, ran⟩ | ⟨indirect, ran⟩
  · obtain ⟨d, slotted, rfl, _⟩ := addrOrAlloc_slotted file ran
    rw [fileSlot, if_pos direct]
    refine ⟨?_, d, ?_, .inl ⟨direct, slotted⟩⟩
    · simp only [ndirect, maxfile] at *
      omega
    · rw [(slotted.opened file).held, update_self]
      rfl
  obtain ⟨small, ran⟩ := returns_assert.mp ran
  obtain ⟨_, middle, pointed, ran⟩ := returns_bind.mp ran
  obtain ⟨d, pointer, rfl, nonzero⟩ := addrOrAlloc_slotted file pointed
  have ran := returns_bread_bind.mp ran
  have file := pointer.opened file
  have value := file.held_entry (by rwa [update_self]) small
  have position : (Fin.ofNat 128 (bn - ndirect)).val = bn - ndirect := Nat.mod_eq_of_lt small
  rw [update_self] at value
  rw [fileSlot, if_neg indirect]
  refine ⟨by simp only [ndirect, nindirect, maxfile] at *; omega, d, ?_⟩
  rcases returns_ite.mp ran with ⟨empty, ran⟩ | ⟨full, ran⟩
  · obtain ⟨b, next, allocated, ran⟩ := returns_bind.mp ran
    have alloc := balloc_returns file.toSound allocated
    have ran := returns_bread_bind.mp ran
    obtain ⟨_, wrote, rfl⟩ := returns_bind_pure.mp ran
    cases returns_logWrite.mp wrote
    have entry := alloc.setWord_slotted file (j := Fin.ofNat 128 (bn - ndirect))
      (by rwa [update_self]) (value.trans (congrArg UInt32.toNat empty))
    rw [update_self, position] at entry
    refine ⟨?_, .inr ⟨indirect, middle, pointer, entry⟩⟩
    have opened := entry.opened file
    rw [update_idem] at opened
    rw [opened.held_entry (by rwa [update_self]) small, update_self, State.write_disk_same,
      Bytes.word_setWord_same, alloc.toNat_ofNat file.toSound]
  · obtain ⟨rfl, rfl⟩ := returns_pure.mp ran
    refine ⟨value.symm, .inr ⟨indirect, middle, pointer, ?_⟩⟩
    have entry := Slotted.refl file
      (value.trans_ne (mt (UInt32.toNat_inj (b := 0)).mp full))
    rwa [update_self] at entry

/-- Block `bn` of the file exists after `bmap`, and was added if there was none. -/
theorem bmap_returns (file : s.Opened t ip) (ran : Returns (bmap ip bn) s addr s')
    : ∃ d, Remapped s t ip d s' ∧ addr = s'.fileBlock (update t ip d) ip bn
      ∧ addr ≠ 0 ∧ (s.fileBlock t ip bn ≠ 0 → s' = s ∧ d = t ip) := by
  obtain ⟨small, d, rfl, ⟨_, slotted⟩ | ⟨indirect, m, pointer, entry⟩⟩ := bmap_slotted file ran
  all_goals simp only [State.fileBlock, if_pos small]
  · exact ⟨d, slotted.toRemapped, rfl, slotted.full file.toSound, slotted.stays⟩
  · have full := entry.full pointer.sound
    rw [update_idem] at full
    refine ⟨d, pointer.toRemapped.trans entry.toRemapped, rfl, full, fun before => ?_⟩
    rw [fileSlot, if_neg indirect] at before entry
    obtain ⟨rfl, rfl⟩ := pointer.stays (mt State.held_entry_of_pointer before)
    exact ⟨(entry.stays (by rwa [update_eq_self])).1, rfl⟩

end Ownership

end Xv6.Fs
