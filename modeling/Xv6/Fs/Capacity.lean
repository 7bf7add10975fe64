import Xv6.Fs.Ownership

/-! How many free blocks a write takes, and when `writei` and `readi` return.
`bmap` fills the slots of a block that are empty, so a write takes one free block for each empty
slot of its range.
-/

namespace Xv6.Fs

open Lib
open Function (update update_self update_idem update_eq_self)

/-- Block `b` is free in the bitmap. -/
def State.Unused (s : State) (b : Nat) : Prop :=
  b < s.sb.size ∧ s.bitmap b = false

/-- The blocks that are free in the bitmap. -/
def State.freeBlocks (s : State) : Finset Nat :=
  (Finset.range s.sb.size).filter fun b => s.bitmap b = false

/-- The slots that `bmap` looks at for block `bn` of a file. -/
def slotsOf (bn : Nat) : Finset Slot :=
  if bn < ndirect then {fileSlot bn} else {.inl 12, fileSlot bn}

/-- The slots behind the `n` bytes from `off` on. -/
def touched (off n : Nat) : Finset Slot :=
  (Finset.range n).biUnion fun k => slotsOf ((off + k) / bsize)

/-- The slots of a file that are empty. -/
def State.missing (s : State) (t : Nat → Dinode) (ip : Nat) (slots : Finset Slot)
    : Finset Slot :=
  slots.filter fun slot => s.held t (ip, slot) = 0

/-- The empty ones of the slots of `ip` were filled, each with a block that was free. -/
structure Filled (s : State) (t : Nat → Dinode) (ip : Nat) (slots : Finset Slot) (s' : State)
    (t' : Nat → Dinode)
    : Prop where
  empty : ∀ slot, s'.held t' (ip, slot) = 0 ↔ s.held t (ip, slot) = 0 ∧ slot ∉ slots
  kept : ∀ slot, s.held t (ip, slot) ≠ 0 → s'.held t' (ip, slot) = s.held t (ip, slot)
  free : s'.freeBlocks.card + (s.missing t ip slots).card = s.freeBlocks.card

section Primitives

variable {s : State}

theorem completes_bread (b : Nat) (s : State) : Completes (bread b) s :=
  ⟨_, s, returns_bread.mpr ⟨rfl, rfl⟩⟩

theorem completes_logWrite (b : Nat) (blk : Block) (s : State) : Completes (logWrite b blk) s :=
  completes_modify ..

theorem completes_setInode (ip : Nat) (entry : Inode) (s : State)
    : Completes (setInode ip entry) s :=
  completes_modify ..

theorem completes_assign (ip : Nat) (update : Dinode → Dinode) (s : State)
    : Completes (assign ip update) s :=
  ⟨(), _, returns_assign.mpr rfl⟩

theorem completes_iupdate (ip : Nat) (s : State) : Completes (iupdate ip) s :=
  .get (completes_logWrite ..)

/-- A computation that starts by reading an entry of the inode cache. -/
theorem completes_getInode {α : Type} {ip : Nat} {f : Inode → FsM α}
    (next : Completes (f (s.icache ip)) s)
    : Completes (do let entry ← getInode ip; f entry) s :=
  next

end Primitives

section Slots

theorem mem_touched {off n : Nat} {slot : Slot}
    : slot ∈ touched off n ↔ ∃ k, k < n ∧ slot ∈ slotsOf ((off + k) / bsize) := by
  simp only [touched, Finset.mem_biUnion, Finset.mem_range]

theorem fileSlot_mem_slotsOf (bn : Nat) : fileSlot bn ∈ slotsOf bn := by
  unfold slotsOf
  split <;> simp

/-- A range is the part before any point of it and the part after. -/
theorem touched_add (off m n : Nat)
    : touched off (m + n) = touched off m ∪ touched (off + m) n := by
  ext slot
  simp only [mem_touched, Finset.mem_union]
  constructor
  · rintro ⟨k, below, member⟩
    rcases Nat.lt_or_ge k m with early | late
    · exact .inl ⟨k, early, member⟩
    · refine .inr ⟨k - m, by omega, ?_⟩
      rwa [show off + m + (k - m) = off + k by omega]
  · rintro (⟨k, below, member⟩ | ⟨k, below, member⟩)
    · exact ⟨k, by omega, member⟩
    · exact ⟨m + k, by omega, by rwa [← Nat.add_assoc]⟩

/-- A range inside one block. -/
theorem touched_block {off n : Nat} (positive : 0 < n) (inside : off % bsize + n ≤ bsize)
    : touched off n = slotsOf (off / bsize) := by
  have block : ∀ k, k < n → (off + k) / bsize = off / bsize := by
    intro k below
    simp only [bsize] at *
    omega
  ext slot
  rw [mem_touched]
  constructor
  · rintro ⟨k, below, member⟩
    rwa [block k below] at member
  · exact fun member => ⟨0, positive, member⟩

end Slots

section Filling

variable {s s' last : State} {t t' t'' : Nat → Dinode} {ip b : Nat} {slots more : Finset Slot}
variable {slot : Slot}

theorem State.mem_missing
    : slot ∈ s.missing t ip slots ↔ slot ∈ slots ∧ s.held t (ip, slot) = 0 :=
  Finset.mem_filter

theorem State.mem_freeBlocks : b ∈ s.freeBlocks ↔ s.Unused b := by
  simp [State.freeBlocks, State.Unused]

theorem State.freeBlocks_congr (sb : s'.sb = s.sb)
    (bitmap : ∀ c, c < s.sb.size → s'.bitmap c = s.bitmap c)
    : s'.freeBlocks = s.freeBlocks := by
  unfold State.freeBlocks
  rw [sb]
  refine Finset.filter_congr fun c member => ?_
  rw [bitmap c (Finset.mem_range.mp member)]

theorem Filled.of_full (full : ∀ slot ∈ slots, s.held t (ip, slot) ≠ 0)
    : Filled s t ip slots s t where
  empty := fun slot => ⟨fun zero => ⟨zero, fun member => full slot member zero⟩, And.left⟩
  kept := fun _ _ => rfl
  free := by
    have none : s.missing t ip slots = ∅ :=
      Finset.filter_eq_empty_iff.mpr fun {slot} member => full slot member
    rw [none]
    rfl

/-- The slots still empty after a first part was filled are those of the second part. -/
theorem Filled.card_missing_union (first : Filled s t ip slots s' t') (more : Finset Slot)
    : (s.missing t ip (slots ∪ more)).card
      = (s.missing t ip slots).card + (s'.missing t' ip more).card := by
  have split : s.missing t ip (slots ∪ more)
      = s.missing t ip slots ∪ s'.missing t' ip more := by
    ext slot
    simp only [Finset.mem_union, State.mem_missing, first.empty]
    by_cases member : slot ∈ slots <;> simp [member]
  have disjoint : Disjoint (s.missing t ip slots) (s'.missing t' ip more) := by
    refine Finset.disjoint_left.mpr fun slot early late => ?_
    have zero := (State.mem_missing.mp late).2
    exact ((first.empty slot).mp zero).2 (State.mem_missing.mp early).1
  rw [split, Finset.card_union_of_disjoint disjoint]

theorem Filled.trans (first : Filled s t ip slots s' t') (second : Filled s' t' ip more last t'')
    : Filled s t ip (slots ∪ more) last t'' where
  empty := by
    intro slot
    rw [second.empty, first.empty, Finset.mem_union, not_or, and_assoc]
  kept := by
    intro slot full
    have same := first.kept slot full
    rw [second.kept slot (same ▸ full), same]
  free := by
    have before := first.free
    have after := second.free
    rw [first.card_missing_union]
    omega

/-- Enough free blocks for two parts are enough for the second after the first. -/
theorem Filled.supply (first : Filled s t ip slots s' t')
    (enough : (s.missing t ip (slots ∪ more)).card ≤ s.freeBlocks.card)
    : (s'.missing t' ip more).card ≤ s'.freeBlocks.card := by
  have before := first.free
  rw [first.card_missing_union] at enough
  omega

theorem State.card_missing_le_union (s : State) (t : Nat → Dinode) (ip : Nat)
    (slots more : Finset Slot)
    : (s.missing t ip slots).card ≤ (s.missing t ip (slots ∪ more)).card :=
  Finset.card_le_card (Finset.filter_subset_filter _ Finset.subset_union_left)

/-- A free block, if some slot is empty and there are enough free blocks. -/
theorem State.exists_unused (member : slot ∈ slots) (empty : s.held t (ip, slot) = 0)
    (enough : (s.missing t ip slots).card ≤ s.freeBlocks.card)
    : ∃ b, s.Unused b := by
  have positive : 0 < (s.missing t ip slots).card :=
    Finset.card_pos.mpr ⟨slot, State.mem_missing.mpr ⟨member, empty⟩⟩
  obtain ⟨b, free⟩ := Finset.card_pos.mp (Nat.lt_of_lt_of_le positive enough)
  exact ⟨b, State.mem_freeBlocks.mp free⟩

/-- What happens next to other blocks does not matter. -/
theorem Filled.congr (filled : Filled s t ip slots s' t')
    (held : ∀ slot, last.held t'' (ip, slot) = s'.held t' (ip, slot))
    (free : last.freeBlocks = s'.freeBlocks)
    : Filled s t ip slots last t'' where
  empty := fun slot => by rw [held, filled.empty]
  kept := fun slot full => by rw [held, filled.kept slot full]
  free := by rw [free, filled.free]

/-- The block that `balloc` found was put into an empty slot. -/
theorem Allocated.filled (alloc : Allocated s b s') (sound : s.Sound t)
    (empty : s.held t (ip, slot) = 0) (there : last.held t' (ip, slot) = b)
    (elsewhere : ∀ other, other ≠ slot → last.held t' (ip, other) = s.held t (ip, other))
    (sb : last.sb = s.sb) (bitmap : ∀ c, c < s.sb.size → last.bitmap c = s'.bitmap c)
    : Filled s t ip {slot} last t' where
  empty := by
    intro other
    rcases eq_or_ne other slot with rfl | ne
    · simp [there, alloc.ne_zero sound]
    · simp [elsewhere other ne, ne]
  kept := by
    intro other full
    exact elsewhere other fun same => full (same ▸ empty)
  free := by
    have taken : last.freeBlocks = s.freeBlocks.erase b := by
      ext c
      simp only [State.freeBlocks, Finset.mem_filter, Finset.mem_erase, Finset.mem_range, sb]
      rcases eq_or_ne c b with rfl | ne
      · simp [bitmap c alloc.high, alloc.bitmap c alloc.high]
      · by_cases inside : c < s.sb.size
        · simp [inside, ne, bitmap c inside, alloc.bitmap c inside]
        · simp [inside]
    have member : b ∈ s.freeBlocks := State.mem_freeBlocks.mpr ⟨alloc.high, alloc.fresh⟩
    have one : s.missing t ip {slot} = {slot} :=
      Finset.filter_eq_self.mpr fun _ same => by rwa [Finset.mem_singleton.mp same]
    rw [taken, one, Finset.card_singleton, Finset.card_erase_add_one member]

end Filling

section Mapping

variable {s s' : State} {t : Nat → Dinode} {ip : Nat}
variable {bn addr : Nat} {i : Fin 13}

/-- A slot that got a block is filled. -/
theorem Slotted.filled {slot : Slot} {d : Dinode} (slotted : Slotted s t ip slot d s')
    (sound : s.Sound t)
    : Filled s t ip {slot} s' (update t ip d) := by
  by_cases empty : s.held t (ip, slot) = 0
  · obtain ⟨b, m, alloc, bitmap, there, elsewhere⟩ := slotted.placed empty
    exact alloc.filled sound empty there
      (fun other ne => elsewhere (ip, other) fun same => ne (congrArg Prod.snd same))
      slotted.sb bitmap
  · obtain ⟨rfl, rfl⟩ := slotted.stays empty
    rw [update_eq_self]
    exact .of_full fun _ member => Finset.mem_singleton.mp member ▸ empty

/-- `bmap` fills the slots of its block. -/
theorem bmap_filled (file : s.Opened t ip) (ran : Returns (bmap ip bn) s addr s')
    : Filled s t ip (slotsOf bn) s' (update t ip (s'.icache ip).copy) := by
  obtain ⟨_, d, _, ⟨direct, slotted⟩ | ⟨indirect, m, pointer, entry⟩⟩ := bmap_slotted file ran
  · rw [slotted.entry, slotsOf, if_pos direct]
    exact slotted.filled file.toSound
  · have filled := (pointer.filled file.toSound).trans (entry.filled pointer.sound)
    rw [update_idem] at filled
    rwa [entry.entry, slotsOf, if_neg indirect, Finset.insert_eq]

theorem balloc_completes {b : Nat} (unused : s.Unused b) : Completes balloc s := by
  have search : ((List.range s.sb.size).find? fun b => !s.bitmap b).isSome :=
    List.find?_isSome.mpr ⟨b, List.mem_range.mpr unused.1, by rw [unused.2]; rfl⟩
  obtain ⟨c, found⟩ := Option.isSome_iff_exists.mp search
  refine Completes.get ?_
  simp only [found]
  exact (completes_logWrite ..).bind fun _ _ _ =>
    (completes_logWrite ..).bind_pure

theorem addrOrAlloc_completes {i : Fin 13}
    (room : (s.icache ip).copy.addrs i ≠ 0 ∨ ∃ b, s.Unused b)
    : Completes (addrOrAlloc ip i) s := by
  refine completes_getInode (.ite (fun empty => ?_) fun _ => completes_pure ..)
  obtain full | ⟨b, unused⟩ := room
  · exact absurd empty full
  · exact (balloc_completes unused).bind fun _ _ _ =>
      (completes_assign ..).bind_pure

theorem addrOrAlloc_supplied (file : s.Opened t ip)
    (enough : (s.missing t ip {.inl i}).card ≤ s.freeBlocks.card)
    : Completes (addrOrAlloc ip i) s := by
  refine addrOrAlloc_completes ?_
  rw [file.copy]
  by_cases empty : (t ip).addrs i = 0
  · exact .inr (State.exists_unused (Finset.mem_singleton_self _)
      (file.held_addr_eq_zero_iff.mpr empty) enough)
  · exact .inl empty

/-- `bmap` returns when there is a free block for each slot that it has to fill. -/
theorem bmap_supplied (file : s.Opened t ip) (small : bn < maxfile)
    (enough : (s.missing t ip (slotsOf bn)).card ≤ s.freeBlocks.card)
    : Completes (bmap ip bn) s := by
  refine .ite (fun direct => ?_) fun indirect => .ite (fun within => ?_) fun outside => ?_
  · rw [slotsOf, if_pos direct, fileSlot, if_pos direct] at enough
    exact addrOrAlloc_supplied file enough
  · rw [slotsOf, if_neg indirect, fileSlot, if_neg indirect, Finset.insert_eq] at enough
    refine (addrOrAlloc_supplied file
      ((s.card_missing_le_union t ip _ _).trans enough)).bind fun addr m ran => ?_
    obtain ⟨d, pointer, rfl, nonzero⟩ := addrOrAlloc_slotted file ran
    have rest := (pointer.filled file.toSound).supply enough
    refine (completes_bread ..).bind fun a u read => ?_
    obtain ⟨rfl, rfl⟩ := returns_bread.mp read
    refine .ite (fun empty => ?_) fun _ => completes_pure ..
    have value := (pointer.opened file).held_entry (by rwa [update_self]) within
    rw [update_self, empty] at value
    obtain ⟨b, unused⟩ := State.exists_unused (Finset.mem_singleton_self _) value rest
    exact (balloc_completes unused).bind fun _ _ _ => (completes_bread ..).bind fun _ _ _ =>
      (completes_logWrite ..).bind_pure
  · simp only [maxfile, ndirect, nindirect] at *
    omega

end Mapping

section Copying

variable {s s' : State} {t : Nat → Dinode} {ip : Nat}
variable {off fuel : Nat} {src : List UInt8}

/-- One pass of the copying loop of `writei`, on `m` bytes of one block. -/
theorem writePass_filled {addr m : Nat} {blk : Block} (file : s.Opened t ip)
    (positive : 0 < m) (fits : off % bsize + m ≤ bsize)
    (mapping : Returns (bmap ip (off / bsize)) s addr s')
    : ∃ d, (s'.write addr blk).Opened (update t ip d) ip
      ∧ Filled s t ip (touched off m) (s'.write addr blk) (update t ip d) := by
  obtain ⟨d, mapped, rfl, full, _⟩ := bmap_returns file mapping
  have filled := bmap_filled file mapping
  rw [mapped.entry] at filled
  refine ⟨d, { mapped.opened file with toSound := mapped.sound.write_data full }, ?_⟩
  rw [touched_block positive fits]
  refine filled.congr (fun slot => mapped.sound.held_write full blk _) ?_
  have low := (mapped.sound.fileBlock_marked full).1
  refine State.freeBlocks_congr rfl fun c within => State.bitmap_write_ne ?_
  have region := mapped.sound.layout.bblock_region within
  omega

theorem Filled.nothing (copy : (s.icache ip).copy = t ip) (off : Nat)
    : Filled s t ip (touched off 0) s (update t ip (s.icache ip).copy) := by
  rw [copy, update_eq_self]
  exact .of_full fun slot member => by simp [touched] at member

/-- The copying loop of `writei` fills the slots of its range. -/
theorem writeLoop_filled {last : Nat} (enough : src.length ≤ fuel) (file : s.Opened t ip)
    (ran : Returns (writeLoop ip fuel src off) s last s')
    : Filled s t ip (touched off src.length) s'
        (update t ip (s'.icache ip).copy) := by
  induction fuel generalizing s t src off with
  | zero =>
    obtain rfl := List.eq_nil_of_length_eq_zero (Nat.le_zero.mp enough)
    obtain ⟨rfl, rfl⟩ := returns_pure.mp ran
    exact .nothing file.copy off
  | succ fuel ih =>
    rcases returns_ite.mp ran with ⟨rfl, ran⟩ | ⟨nonempty, ran⟩
    · obtain ⟨rfl, rfl⟩ := returns_pure.mp ran
      exact .nothing file.copy off
    obtain ⟨addr, middle, mapping, ran⟩ := returns_bind.mp ran
    have ran := returns_bread_bind.mp ran
    have ran := returns_logWrite_bind.mp ran
    generalize size : min src.length (bsize - off % bsize) = m at ran
    have positive : 0 < src.length := List.length_pos_of_ne_nil nonempty
    have room : off % bsize < bsize := Nat.mod_lt _ (by decide)
    obtain ⟨d, file', filled⟩ := writePass_filled file (m := m) (by omega) (by omega) mapping
    have rest := ih (by rw [List.length_drop]; omega) file' ran
    rw [update_idem, List.length_drop] at rest
    have whole := filled.trans rest
    rwa [← touched_add, show m + (src.length - m) = src.length by omega] at whole

/-- The copying loop of `writei` returns when there is a free block for each slot that it has
to fill.
-/
theorem writeLoop_supplied (file : s.Opened t ip) (small : off + src.length ≤ maxfile * bsize)
    (enough : (s.missing t ip (touched off src.length)).card ≤ s.freeBlocks.card)
    : Completes (writeLoop ip fuel src off) s := by
  induction fuel generalizing s t src off with
  | zero => exact completes_pure ..
  | succ fuel ih =>
    refine .ite (fun _ => completes_pure ..) fun nonempty => ?_
    have positive : 0 < src.length := List.length_pos_of_ne_nil nonempty
    have room : off % bsize < bsize := Nat.mod_lt _ (by decide)
    have below : off / bsize < maxfile := by
      rw [Nat.div_lt_iff_lt_mul (by decide)]
      omega
    generalize size : min src.length (bsize - off % bsize) = n
    have split : touched off src.length
        = touched off n ∪ touched (off + n) (src.length - n) := by
      rw [← touched_add, show n + (src.length - n) = src.length by omega]
    rw [split] at enough
    have first : (s.missing t ip (slotsOf (off / bsize))).card ≤ s.freeBlocks.card := by
      rw [← touched_block (n := n) (by omega) (by omega)]
      exact (s.card_missing_le_union t ip _ _).trans enough
    refine (bmap_supplied file below first).bind fun addr m ran => ?_
    refine (completes_bread ..).bind fun blk m read => ?_
    obtain ⟨rfl, rfl⟩ := returns_bread.mp read
    refine (completes_logWrite ..).bind fun _ m wrote => ?_
    cases returns_logWrite.mp wrote
    obtain ⟨d, file', filled⟩ := writePass_filled file (m := n) (by omega) (by omega) ran
    refine ih file' (by rw [List.length_drop]; omega) ?_
    rw [List.length_drop]
    exact filled.supply enough

end Copying

section ByteArray

variable {s s' : State} {ip off : Nat} {src : List UInt8}

/-- The end of `writei` moves no block. -/
theorem growTo_keeps {n : Nat} {u : Unit} (layout : s.sb.Layout) (inside : ip < s.sb.ninodes)
    (ran : Returns (growTo ip n off) s u s')
    : s'.sb = s.sb ∧ (s'.icache ip).copy.addrs = (s.icache ip).copy.addrs
      ∧ (∀ c, s.sb.firstData ≤ c → s'.disk c = s.disk c)
      ∧ s'.freeBlocks = s.freeBlocks := by
  have ran := returns_getInode_bind.mp ran
  rcases returns_ite.mp ran with ⟨_, ran⟩ | ⟨_, ran⟩
  · have ran := returns_assign_bind.mp ran
    have ran := returns_get_bind.mp ran
    cases returns_logWrite.mp ran
    refine ⟨rfl, by rw [State.write_icache, State.setInode_icache_same], fun c low => ?_, ?_⟩
    · refine State.write_disk_ne ?_
      have region := layout.iblock_region inside
      have start := layout.bmapstart_lt
      rw [State.setInode_sb]
      omega
    · refine State.freeBlocks_congr rfl fun c _ => ?_
      exact State.bitmap_write_ne (layout.iblock_ne_bblock inside).symm
  · obtain ⟨_, rfl⟩ := returns_pure.mp ran
    exact ⟨rfl, rfl, fun _ _ => rfl, rfl⟩

section

variable (shown : s.Shows ip) (data : (s.node ip).type ≠ tDev)
include shown data

/-- A successful `writei` fills the slots of its range. -/
theorem writei_filled {r : Nat} (ran : Returns (writei ip src off) s (some r) s')
    : Filled s s.dinode ip (touched off src.length) s' s'.dinode := by
  obtain ⟨impossible, _⟩ | ⟨_, _, stored⟩ := writei_returns shown data ran
  · cases impossible
  rcases returns_ite.mp ((returns_writei shown data).mp ran) with ⟨_, ran⟩ | ⟨_, ran⟩
  · cases (returns_pure.mp ran).1
  obtain ⟨last, m, loop, ran⟩ := returns_bind.mp ran
  obtain ⟨d, wrote, rfl, _⟩ := writeLoop_returns (Nat.le_refl _) shown.opened loop
  have filled := writeLoop_filled (Nat.le_refl _) shown.opened loop
  obtain ⟨_, grown, _⟩ := returns_bind_pure.mp ran
  obtain ⟨sb, addrs, disk, free⟩ := growTo_keeps wrote.sound.layout (wrote.sb ▸ shown.inside) grown
  have cached : (m.icache ip).copy = d := by rw [wrote.entry]
  rw [stored.shows.copy, cached] at addrs
  rw [cached] at filled
  refine filled.congr (fun slot => ?_) free
  have used : (update s.dinode ip d ip).type ≠ 0 := by
    rw [update_self, wrote.fields]
    exact shown.used
  have inside : ip < m.sb.ninodes := wrote.sb ▸ shown.inside
  rw [State.held_of_allocated stored.shows.inside stored.shows.used,
    State.held_of_allocated inside used, update_self]
  cases slot with
  | inl i => simp only [Dinode.block, addrs]
  | inr j =>
    simp only [Dinode.block, addrs]
    split
    · rfl
    · rename_i pointer
      have there : m.held (update s.dinode ip d) (ip, .inl 12)
          = (d.addrs 12).toNat := by
        rw [State.held_of_allocated inside used, update_self]
        rfl
      have low := (wrote.sound.marked_of_held
        (there.symm ▸ fun zero => pointer (UInt32.toNat_inj.mp zero))).1
      rw [there] at low
      rw [disk _ low]

/-- `writei` returns when there is a free block for each slot that it has to fill. -/
theorem writei_supplied
    (enough : (s.missing s.dinode ip (touched off src.length)).card ≤ s.freeBlocks.card)
    : Completes (writei ip src off) s := by
  simp only [Completes, returns_writei shown data]
  refine Completes.ite (fun _ => completes_pure ..) fun fits => ?_
  refine (writeLoop_supplied shown.opened (by omega) enough).bind fun last m _ => ?_
  refine Completes.bind ?_ fun _ _ _ => completes_pure ..
  exact completes_getInode (.ite (fun _ => (completes_assign ..).bind fun _ _ _ =>
    completes_iupdate ..) fun _ => completes_pure ..)

/-- A write that does not fail, with a free block for each slot that it has to fill. -/
theorem writei_replaces (low : off ≤ (s.node ip).contents.length)
    (small : off + src.length ≤ maxfile * bsize)
    (enough : (s.missing s.dinode ip (touched off src.length)).card ≤ s.freeBlocks.card)
    : ∃ s', Returns (writei ip src off) s (some src.length) s'
      ∧ Stored s ip
          (update s.node ip
            { s.node ip with contents := splice (s.node ip).contents off src })
          s' := by
  obtain ⟨r, s', ran⟩ := writei_supplied shown data enough
  obtain rfl := writei_written shown data low small ran
  rcases writei_returns shown data ran with ⟨impossible, _⟩ | ⟨_, _, stored⟩
  · cases impossible
  · exact ⟨s', ran, stored⟩

end

/-- `readi` and `writei` treat a file or directory as an array of bytes. -/
theorem readi_writei_byteArray (off : Nat) (shown : s.Shows ip)
    (kind : (s.node ip).type = tFile ∨ (s.node ip).type = tDir)
    : (∀ src,
        ((s.node ip).contents.length < off ∨ maxfile * bsize < off + src.length
          → Returns (writei ip src off) s none s)
        ∧ (off ≤ (s.node ip).contents.length → off + src.length ≤ maxfile * bsize
          → (s.missing s.dinode ip (touched off src.length)).card ≤ s.freeBlocks.card
          → ∃ s', Returns (writei ip src off) s (some src.length) s'
            ∧ s'.Shows ip
            ∧ s'.node = update s.node ip
                { s.node ip with contents := splice (s.node ip).contents off src }
            ∧ (s'.node ip).contents.length
              = max (s.node ip).contents.length (off + src.length)))
      ∧ ∀ n,
        ((s.node ip).contents.length < off ∨ 2 ^ 32 ≤ off + n
          → Returns (readi ip off n) s none s)
        ∧ (off ≤ (s.node ip).contents.length → off + n < 2 ^ 32
          → ∃ bytes, Returns (readi ip off n) s (some bytes) s
            ∧ bytes = ((s.node ip).contents.drop off).take n
            ∧ bytes.length = min n ((s.node ip).contents.length - off)) := by
  have data : (s.node ip).type ≠ tDev := by
    rcases kind with file | directory
    · rw [file]
      decide
    · rw [directory]
      decide
  refine ⟨fun src => ⟨writei_fails shown data, fun low small enough => ?_⟩,
    fun n => ⟨fun outside => ?_, fun low small => ?_⟩⟩
  · obtain ⟨s', ran, stored⟩ := writei_replaces shown data low small enough
    refine ⟨s', ran, stored.shows, stored.node, ?_⟩
    rw [stored.node, update_self]
    exact length_splice low
  · have ran := readi_reads off n shown data
    rwa [if_pos outside] at ran
  · have ran := readi_reads off n shown data
    rw [if_neg (by omega)] at ran
    exact ⟨_, ran, rfl, by simp⟩

/-- The first bytes of a file that was made in an empty root. -/
theorem readi_writei_byteArray_created
    : ∃ s s', run fsStep [.create 1 [97]] emptyImage = some s
      ∧ Returns (writei 2 [1, 2, 3] 0) s (some 3) s'
      ∧ (s'.node 2).contents = [1, 2, 3]
      ∧ Returns (readi 2 0 5) s (some []) s := by
  obtain ⟨s, created, flags, node, enough⟩ :
      ∃ s, run fsStep [.create 1 [97]] emptyImage = some s
        ∧ s.flags 2 = ⟨1, false, true⟩ ∧ s.node 2 = ⟨tFile, 0, 0, 1, []⟩
        ∧ (s.missing s.dinode 2 (touched 0 3)).card ≤ s.freeBlocks.card := by
    decide +kernel
  have quiet := (run_wf (boot_wf emptyImage_wellFormed) created).quiet
  have loaded : s.Loaded 2 := ⟨by rw [flags]; decide, by rw [flags]⟩
  obtain ⟨writes, reads⟩ := readi_writei_byteArray 0 (quiet.shows loaded)
    (.inl (by rw [node]))
  obtain ⟨s', wrote, _, contents, _⟩ := (writes [1, 2, 3]).2 (Nat.zero_le _) (by decide) enough
  obtain ⟨bytes, read, rfl, _⟩ := (reads 5).2 (Nat.zero_le _) (by decide)
  rw [node] at contents read
  exact ⟨s, s', created, wrote, by rw [contents, update_self]; rfl, read⟩

end ByteArray

end Xv6.Fs
