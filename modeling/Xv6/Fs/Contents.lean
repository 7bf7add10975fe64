import Xv6.Fs.Blocks

/-! The bytes of a file, and what the copying loops of `readi` and `writei` do to them. -/

namespace Xv6.Fs

open Lib
open Function (update update_self update_of_ne update_idem)

/-- Byte `x` of a file. -/
def State.byte (s : State) (t : Nat → Dinode) (inum x : Nat) : UInt8 :=
  s.disk (s.fileBlock t inum (x / bsize)) (x % bsize)

/-- Byte `x` of a file has a block on disk. -/
def State.Present (s : State) (t : Nat → Dinode) (inum x : Nat) : Prop :=
  s.fileBlock t inum (x / bsize) ≠ 0

section FileBlocks

variable {s s' : State} {t t' : Nat → Dinode} {ip : Nat}
variable {bn bm inum : Nat} {blk : Block}

theorem fileSlot_ne_pointer (bn : Nat) : fileSlot bn ≠ .inl 12 := by
  unfold fileSlot
  split
  · rename_i direct
    intro same
    have value := congrArg Fin.val (Sum.inl.inj same)
    simp only [Fin.val_ofNat] at value
    simp only [ndirect] at direct
    have literal : (12 : Fin 13).val = 12 := rfl
    omega
  · exact fun same => nomatch same

theorem fileSlot_inj (first : bn < maxfile) (second : bm < maxfile)
    (same : fileSlot bn = fileSlot bm)
    : bn = bm := by
  unfold fileSlot at same
  simp only [ndirect, maxfile] at *
  split at same <;> split at same
  · have value := congrArg Fin.val (Sum.inl.inj same)
    simp only [Fin.val_ofNat] at value
    omega
  · cases same
  · cases same
  · have value := congrArg Fin.val (Sum.inr.inj same)
    simp only [Fin.val_ofNat] at value
    omega

theorem State.fileBlock_of_ne_zero (full : s.fileBlock t inum bn ≠ 0)
    : bn < maxfile ∧ s.fileBlock t inum bn = s.held t (inum, fileSlot bn) := by
  unfold State.fileBlock at *
  split
  · exact ⟨by assumption, rfl⟩
  · rw [if_neg (by assumption)] at full
    exact absurd rfl full

/-- Two blocks of files that share a disk block are the same block of the same file. -/
theorem State.Sound.fileBlock_inj (sound : s.Sound t) {other : Nat}
    (full : s.fileBlock t inum bn ≠ 0) (same : s.fileBlock t inum bn = s.fileBlock t other bm)
    : inum = other ∧ bn = bm := by
  obtain ⟨small, first⟩ := State.fileBlock_of_ne_zero full
  obtain ⟨small', second⟩ := State.fileBlock_of_ne_zero (same ▸ full)
  have place := sound.owned.unique _ _ (first ▸ full) (first.symm.trans (same.trans second))
  exact ⟨congrArg Prod.fst place, fileSlot_inj small small' (congrArg Prod.snd place)⟩

theorem State.Sound.fileBlock_marked (sound : s.Sound t) (full : s.fileBlock t inum bn ≠ 0)
    : s.Marked (s.fileBlock t inum bn) := by
  have place := (State.fileBlock_of_ne_zero full).2
  rw [place]
  exact sound.marked_of_held (place ▸ full)

theorem Keeps.fileBlock (keeps : Keeps s t s' t') (full : s.fileBlock t inum bn ≠ 0)
    : s'.fileBlock t' inum bn = s.fileBlock t inum bn
      ∧ s'.disk (s.fileBlock t inum bn) = s.disk (s.fileBlock t inum bn) := by
  obtain ⟨small, place⟩ := State.fileBlock_of_ne_zero full
  rw [place] at full ⊢
  have data := keeps.data inum (fileSlot bn) (fileSlot_ne_pointer bn) full
  rwa [State.fileBlock, if_pos small]

section

variable (sound : s.Sound t) (full : s.fileBlock t ip bn ≠ 0)
include sound full

/-- Writing a block of a file changes no place. -/
theorem State.Sound.held_write (blk : Block) (place : Nat × Slot)
    : (s.write (s.fileBlock t ip bn) blk).held t place = s.held t place := by
  obtain ⟨_, same⟩ := State.fileBlock_of_ne_zero full
  obtain ⟨inum, slot⟩ := place
  refine State.held_congr rfl rfl fun pointed => ?_
  rw [State.write_disk_ne]
  rw [same]
  exact (sound.pointer_ne pointed _ fun here =>
    fileSlot_ne_pointer bn (congrArg Prod.snd here)).symm

theorem State.Sound.write_data
    : (s.write (s.fileBlock t ip bn) blk).Sound t := by
  have marked := (sound.fileBlock_marked full).1
  have start := sound.layout.bmapstart_lt
  refine sound.of_same rfl (State.write_disk_ne (by omega)) ?_ (sound.held_write full blk)
    fun _ used => ⟨used, rfl⟩
  intro c inside
  have region := sound.layout.bblock_region inside
  exact State.bitmap_write_ne (by omega)

theorem State.Sound.dinode_write_data (inside : inum < s.sb.ninodes)
    : (s.write (s.fileBlock t ip bn) blk).dinode inum = s.dinode inum := by
  have marked := (sound.fileBlock_marked full).1
  have start := sound.layout.bmapstart_lt
  have region := sound.layout.iblock_region inside
  exact State.dinode_write_ne (by omega)

theorem State.Sound.fileBlock_write (inum bm : Nat)
    : (s.write (s.fileBlock t ip bn) blk).fileBlock t inum bm = s.fileBlock t inum bm := by
  have held := sound.held_write full blk (inum, fileSlot bm)
  unfold State.fileBlock at held ⊢
  rw [held]

end

end FileBlocks

/-- The bytes `src` were written to file `ip` at `off`, with new blocks where there were
none; `d` is the cached inode afterwards. All other bytes of all files are kept.
-/
structure Wrote (s : State) (t : Nat → Dinode) (ip : Nat) (d : Dinode) (s' : State)
    (src : List UInt8) (off : Nat)
    : Prop where
  sound : s'.Sound (update t ip d)
  dinode : ∀ inum, inum < s.sb.ninodes → s'.dinode inum = s.dinode inum
  sb : s'.sb = s.sb
  icache : s'.icache = update s.icache ip { s.icache ip with copy := d }
  inUse : s'.inUse = s.inUse
  devsw : s'.devsw = s.devsw
  fields : d = { t ip with addrs := d.addrs }
  kept
    : ∀ inum x, s.Present t inum x → (inum = ip → x < off ∨ off + src.length ≤ x)
      → s'.Present (update t ip d) inum x
        ∧ s'.byte (update t ip d) inum x = s.byte t inum x
  written
    : ∀ k (inside : k < src.length),
        s'.Present (update t ip d) ip (off + k)
        ∧ s'.byte (update t ip d) ip (off + k) = src[k]

section Writing

variable {s s' : State} {t : Nat → Dinode} {ip : Nat} {d : Dinode}
variable {src : List UInt8} {off : Nat}

theorem Remapped.wrote_nil (mapped : Remapped s t ip d s') (off : Nat)
    : Wrote s t ip d s' [] off where
  sound := mapped.sound
  dinode := mapped.keeps.dinode
  sb := mapped.sb
  icache := mapped.icache
  inUse := mapped.inUse
  devsw := mapped.devsw
  fields := mapped.fields
  kept := by
    intro inum x present _
    obtain ⟨same, contents⟩ := mapped.keeps.fileBlock present
    unfold State.Present State.byte
    rw [same, contents]
    exact ⟨present, rfl⟩
  written := fun _ impossible => nomatch impossible

theorem Wrote.entry (wrote : Wrote s t ip d s' src off)
    : s'.icache ip = { s.icache ip with copy := d } := by
  rw [wrote.icache]
  exact update_self ..

/-- Two consecutive writes are one write of the concatenation. -/
theorem Wrote.append {d' : Dinode} {last : State} {first second : List UInt8}
    (wrote : Wrote s t ip d s' first off)
    (next : Wrote s' (update t ip d) ip d' last second (off + first.length))
    : Wrote s t ip d' last (first ++ second) off := by
  have table : update (update t ip d) ip d' = update t ip d' :=
    update_idem ..
  refine
    { sound := table ▸ next.sound
      dinode := fun inum inside =>
        (next.dinode inum (wrote.sb ▸ inside)).trans (wrote.dinode inum inside)
      sb := next.sb.trans wrote.sb
      icache := by rw [next.icache, wrote.entry, wrote.icache, update_idem]
      inUse := next.inUse.trans wrote.inUse
      devsw := next.devsw.trans wrote.devsw
      fields := ?_, kept := ?_, written := ?_ }
  · have fields := next.fields
    rw [update_self] at fields
    rw [fields, wrote.fields]
  · intro inum x present away
    rw [List.length_append] at away
    obtain ⟨present', same⟩ := wrote.kept inum x present fun here => by
      have := away here
      omega
    obtain ⟨present'', same'⟩ := next.kept inum x present' fun here => by
      have := away here
      omega
    rw [table] at present'' same'
    exact ⟨present'', same'.trans same⟩
  · intro k inside
    rcases Nat.lt_or_ge k first.length with low | high
    · obtain ⟨present, same⟩ := wrote.written k low
      obtain ⟨present', same'⟩ := next.kept ip (off + k) present fun _ => .inl (by omega)
      rw [table] at present' same'
      rw [List.getElem_append_left low]
      exact ⟨present', same'.trans same⟩
    · rw [List.length_append] at inside
      obtain ⟨present, same⟩ := next.written (k - first.length) (by omega)
      have position : off + first.length + (k - first.length) = off + k := by omega
      rw [table, position] at present same
      rw [List.getElem_append_right high]
      exact ⟨present, same⟩

/-- One pass of the copying loop: a run of bytes inside one block. -/
theorem Remapped.wrote_chunk (mapped : Remapped s t ip d s') (src : List UInt8)
    (full : s'.fileBlock (update t ip d) ip (off / bsize) ≠ 0)
    (fits : off % bsize + src.length ≤ bsize)
    : Wrote s t ip d
        (s'.write (s'.fileBlock (update t ip d) ip (off / bsize))
          ((s'.disk (s'.fileBlock (update t ip d) ip (off / bsize))).poke
            (off % bsize) src))
        src off := by
  have sound := mapped.sound
  have empty := mapped.wrote_nil off
  refine
    { sound := sound.write_data full
      dinode := fun inum inside =>
        (sound.dinode_write_data full (mapped.sb ▸ inside)).trans (empty.dinode inum inside)
      sb := mapped.sb
      icache := mapped.icache
      inUse := mapped.inUse
      devsw := mapped.devsw
      fields := mapped.fields, kept := ?_, written := ?_ }
  · intro inum x present away
    obtain ⟨present', same⟩ := empty.kept inum x present fun _ => by
      simp only [List.length_nil]
      omega
    unfold State.Present State.byte at *
    rw [sound.fileBlock_write full]
    refine ⟨present', ?_⟩
    rw [← same]
    rcases eq_or_ne (s'.fileBlock (update t ip d) inum (x / bsize))
      (s'.fileBlock (update t ip d) ip (off / bsize)) with shared | other
    · obtain ⟨rfl, sameBlock⟩ := sound.fileBlock_inj present' shared
      have outside := away rfl
      rw [shared, State.write_disk_same]
      apply Bytes.poke_outside
      simp only [bsize] at *
      omega
    · rw [State.write_disk_ne other]
  · intro k inside
    have block : (off + k) / bsize = off / bsize := by
      simp only [bsize] at *
      omega
    have position : (off + k) % bsize = off % bsize + k := by
      simp only [bsize] at *
      omega
    unfold State.Present State.byte
    rw [block, position, sound.fileBlock_write full, State.write_disk_same]
    exact ⟨full, Bytes.poke_inside inside⟩

/-- The copying loop of `writei` writes all of `src`; it changes the cached inode only if
some byte had no block.
-/
theorem writeLoop_returns {fuel last : Nat} (enough : src.length ≤ fuel) (file : s.Opened t ip)
    (ran : Returns (writeLoop ip fuel src off) s last s')
    : ∃ d, Wrote s t ip d s' src off ∧ last = off + src.length
      ∧ ((∀ k, k < src.length → s.Present t ip (off + k)) → d = t ip) := by
  induction fuel generalizing s t src off with
  | zero =>
    obtain rfl := List.eq_nil_of_length_eq_zero (Nat.le_zero.mp enough)
    obtain ⟨rfl, rfl⟩ := returns_pure.mp ran
    exact ⟨t ip, (Remapped.refl file.toSound file.copy).wrote_nil off, rfl, fun _ => rfl⟩
  | succ fuel ih =>
    rcases returns_ite.mp ran with ⟨rfl, ran⟩ | ⟨nonempty, ran⟩
    · obtain ⟨rfl, rfl⟩ := returns_pure.mp ran
      exact ⟨t ip, (Remapped.refl file.toSound file.copy).wrote_nil off, rfl, fun _ => rfl⟩
    obtain ⟨addr, middle, mapping, ran⟩ := returns_bind.mp ran
    obtain ⟨d, mapped, rfl, full, stays⟩ := bmap_returns file mapping
    have ran := returns_bread_bind.mp ran
    have ran := returns_logWrite_bind.mp ran
    -- the first pass moves `m` bytes, and the loop goes on with the rest of `src`
    generalize size : min src.length (bsize - off % bsize) = m at ran
    have positive : 0 < src.length := List.length_pos_of_ne_nil nonempty
    have room : off % bsize < bsize := Nat.mod_lt _ (by decide)
    have taken : (src.take m).length = m := by
      rw [List.length_take]
      omega
    have chunk := mapped.wrote_chunk (src.take m) full (by omega)
    obtain ⟨d', rest, rfl, unchanged⟩ := ih (by rw [List.length_drop]; omega)
      { mapped.opened file with toSound := chunk.sound } ran
    have whole := chunk.append (by rw [taken]; exact rest)
    rw [List.take_append_drop] at whole
    refine ⟨d', whole, by rw [List.length_drop]; omega, fun present => ?_⟩
    rw [update_self] at unchanged
    refine (unchanged fun k within => ?_).trans (stays (present 0 positive)).2
    have later := present (m + k) (by rw [List.length_drop] at within; omega)
    rw [← Nat.add_assoc] at later
    exact (chunk.kept ip (off + m + k) later fun _ => .inr (by omega)).1

end Writing

/-! Reading needs blocks only for the bytes that it reads. -/

section Reading

variable {s : State} {t : Nat → Dinode} {ip : Nat}

/-- `bmap` of a block that exists only looks it up. -/
theorem bmap_finds {bn : Nat} (file : s.Opened t ip) (full : s.fileBlock t ip bn ≠ 0)
    : Returns (bmap ip bn) s (s.fileBlock t ip bn) s := by
  have small := (State.fileBlock_of_ne_zero full).1
  have found : ∀ {i : Fin 13}, (t ip).addrs i ≠ 0
      → Returns (addrOrAlloc ip i) s ((t ip).addrs i).toNat s := by
    intro i nonzero
    rw [← file.copy] at nonzero ⊢
    exact returns_bind.mpr ⟨_, s, returns_getInode.mpr ⟨rfl, rfl⟩,
      returns_ite.mpr (.inr ⟨nonzero, returns_pure.mpr ⟨rfl, rfl⟩⟩)⟩
  rw [State.fileBlock, if_pos small] at full ⊢
  by_cases direct : bn < ndirect
  · rw [fileSlot, if_pos direct] at full ⊢
    rw [file.held]
    exact returns_ite.mpr (.inl ⟨direct, found (mt file.held_addr_eq_zero_iff.mpr full)⟩)
  · have within : bn - ndirect < nindirect := by
      simp only [maxfile, ndirect, nindirect] at *
      omega
    rw [fileSlot, if_neg direct] at full ⊢
    have pointer := mt file.held_addr_eq_zero_iff.mpr (mt State.held_entry_of_pointer full)
    rw [file.held_entry pointer within] at full ⊢
    exact returns_ite.mpr (.inr ⟨direct, returns_ite.mpr (.inl ⟨within,
      returns_bind.mpr ⟨_, s, found pointer, returns_bind.mpr ⟨_, s,
        returns_bread.mpr ⟨rfl, rfl⟩, returns_ite.mpr (.inr
          ⟨fun zero => full (congrArg UInt32.toNat zero), returns_pure.mpr ⟨rfl, rfl⟩⟩)⟩⟩⟩)⟩)

/-- The copying loop of `readi` returns the bytes of the file and changes nothing. -/
theorem readLoop_finds {fuel off n : Nat} (enough : n ≤ fuel) (file : s.Opened t ip)
    (present : ∀ k, k < n → s.Present t ip (off + k))
    : Returns (readLoop ip fuel off n) s ((List.range n).map fun k => s.byte t ip (off + k))
        s := by
  induction fuel generalizing off n with
  | zero =>
    obtain rfl := Nat.le_zero.mp enough
    exact returns_pure.mpr ⟨rfl, rfl⟩
  | succ fuel ih =>
    by_cases empty : n = 0
    · subst empty
      exact returns_ite.mpr (.inl ⟨rfl, returns_pure.mpr ⟨rfl, rfl⟩⟩)
    have room : off % bsize < bsize := Nat.mod_lt _ (by decide)
    generalize size : min n (bsize - off % bsize) = m
    have more := @ih (off + m) (n - m) (by omega) fun k within => by
      rw [Nat.add_assoc]
      exact present (m + k) (by omega)
    have mapped := bmap_finds file (present 0 (Nat.pos_of_ne_zero empty))
    refine returns_ite.mpr (.inr ⟨empty, returns_bind.mpr ⟨_, s, mapped, returns_bind.mpr ⟨_, s,
      returns_bread.mpr ⟨rfl, rfl⟩, returns_bind.mpr ⟨_, s, size.symm ▸ more,
        returns_pure.mpr ⟨?_, rfl⟩⟩⟩⟩⟩)
    have whole : n = m + (n - m) := by omega
    conv_rhs => rw [whole, List.range_add, List.map_append, List.map_map]
    rw [size]
    congr 1
    · apply List.map_congr_left
      intro k member
      have within := List.mem_range.mp member
      have block : (off + k) / bsize = off / bsize := by
        simp only [bsize] at *
        omega
      have position : (off + k) % bsize = off % bsize + k := by
        simp only [bsize] at *
        omega
      rw [State.byte, block, position]
      rfl
    · apply List.map_congr_left
      intro k _
      simp only [Function.comp, Nat.add_assoc]

end Reading

section Updating

variable {s : State} {t t' : Nat → Dinode} {ip : Nat} {d : Dinode}

theorem State.held_table_congr (same : ∀ inum, inum < s.sb.ninodes → t' inum = t inum)
    (place : Nat × Slot)
    : s.held t' place = s.held t place := by
  unfold State.held
  by_cases inside : place.1 < s.sb.ninodes
  · rw [same place.1 inside]
  · simp [inside]

theorem State.Sound.table_congr (sound : s.Sound t)
    (same : ∀ inum, inum < s.sb.ninodes → t' inum = t inum)
    : s.Sound t' where
  layout := sound.layout
  superblock := sound.superblock
  metadata := sound.metadata
  owned := sound.owned.congr (State.held_table_congr same) fun _ => Iff.rfl
  covered := by
    intro inum inside used bn below
    rw [same inum inside] at used below
    simp only [State.fileBlock, State.held_table_congr same]
    exact sound.covered inum inside used bn below

theorem State.held_set_fields (used : (t ip).type ≠ 0) (used' : d.type ≠ 0)
    (addrs : d.addrs = (t ip).addrs) (place : Nat × Slot)
    : s.held (update t ip d) place = s.held t place := by
  obtain ⟨inum, slot⟩ := place
  rcases eq_or_ne inum ip with rfl | ne
  · have block : d.block s.disk slot = (t inum).block s.disk slot := by
      cases slot <;> simp only [Dinode.block, addrs]
    simp only [State.held, update_self, block, used, used', ne_eq, not_false_eq_true, and_true]
  · simp only [State.held, update_of_ne ne]

/-- Changing fields of an inode other than its addresses, with a size that its blocks
cover.
-/
theorem State.Sound.set_fields (sound : s.Sound t) (used : (t ip).type ≠ 0)
    (used' : d.type ≠ 0) (addrs : d.addrs = (t ip).addrs)
    (covered : ∀ bn, bn * bsize < d.size.toNat → s.fileBlock t ip bn ≠ 0)
    : s.Sound (update t ip d) := by
  have held := State.held_set_fields (s := s) used used' addrs
  refine { sound with owned := sound.owned.congr held fun _ => Iff.rfl, covered := ?_ }
  intro inum inside usedHere bn below
  simp only [State.fileBlock, held]
  rcases eq_or_ne inum ip with rfl | ne
  · rw [update_self] at below
    exact covered bn below
  · rw [update_of_ne ne] at usedHere below
    exact sound.covered inum inside usedHere bn below

/-- Replacing an inode that owns no blocks by an empty one. -/
theorem State.Sound.set_empty (sound : s.Sound t) (before : ∀ slot, s.held t (ip, slot) = 0)
    (addrs : ∀ i, d.addrs i = 0) (size : d.size = 0)
    : (∀ place, s.held (update t ip d) place = s.held t place)
      ∧ s.Sound (update t ip d) := by
  have held : ∀ place, s.held (update t ip d) place = s.held t place := by
    rintro ⟨inum, slot⟩
    rcases eq_or_ne inum ip with rfl | ne
    · rw [before slot]
      cases slot <;> simp [State.held, Dinode.block, addrs]
    · simp only [State.held, update_of_ne ne]
  refine ⟨held, { sound with owned := sound.owned.congr held fun _ => Iff.rfl, covered := ?_ }⟩
  intro inum inside used bn below
  simp only [State.fileBlock, held]
  rcases eq_or_ne inum ip with rfl | ne
  · rw [update_self, size] at below
    exact absurd below (Nat.not_lt_zero _)
  · rw [update_of_ne ne] at used below
    exact sound.covered inum inside used bn below

/-- Storing an inode on disk moves no block. -/
theorem State.held_setDinode (layout : s.sb.Layout) (sound : s.Sound t)
    (inside : ip < s.sb.ninodes) (blk : Block) (place : Nat × Slot)
    : (s.write (iblock s.sb ip) blk).held t place = s.held t place := by
  obtain ⟨inum, slot⟩ := place
  refine State.held_congr rfl rfl fun pointed => State.write_disk_ne ?_
  have marked := (sound.marked_of_held pointed).1
  have region := layout.iblock_region inside
  have start := layout.bmapstart_lt
  omega

theorem State.Sound.write_inode (sound : s.Sound t) (inside : ip < s.sb.ninodes) (blk : Block)
    : (s.write (iblock s.sb ip) blk).Sound t := by
  have region := sound.layout.iblock_region inside
  refine sound.of_same rfl (State.write_disk_ne (by omega)) ?_
    (State.held_setDinode sound.layout sound inside blk) fun _ used => ⟨used, rfl⟩
  intro c _
  exact State.bitmap_write_ne (sound.layout.iblock_ne_bblock inside).symm

end Updating

end Xv6.Fs
