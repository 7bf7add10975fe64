import Xv6.Fs.Contents

/-! Freeing blocks: `bfree`, `itrunc` and the reclaiming of an inode in `iput`. -/

namespace Xv6.Fs

open Lib
open Function (update update_self update_of_ne update_idem update_eq_self)

/-- The bits of `blocks` were cleared in the bitmap; inodes and data blocks are as before. -/
structure Unmarked (s : State) (blocks : List Nat) (s' : State) : Prop where
  sb : s'.sb = s.sb
  inUse : s'.inUse = s.inUse
  devsw : s'.devsw = s.devsw
  superblock : s'.disk 1 = s.disk 1
  dinode : ∀ inum, inum < s.sb.ninodes → s'.dinode inum = s.dinode inum
  data : ∀ c, s.sb.firstData ≤ c → s'.disk c = s.disk c
  bitmap : ∀ c, c < s.sb.size → s'.bitmap c = (s.bitmap c && !decide (c ∈ blocks))

/-- The cached inode without the addresses in `gone`. -/
def Dinode.dropAddrs (d : Dinode) (gone : List (Fin 13)) : Dinode :=
  { d with addrs := fun i => if i ∈ gone then 0 else d.addrs i }

theorem Dinode.dropAddrs_nil (d : Dinode) : d.dropAddrs [] = d := by
  simp [Dinode.dropAddrs]

theorem Dinode.dropAddrs_cons (d : Dinode) (i : Fin 13) (gone : List (Fin 13))
    : (d.setAddr i 0).dropAddrs gone = d.dropAddrs (i :: gone) := by
  simp only [Dinode.dropAddrs, Dinode.setAddr, Dinode.mk.injEq, true_and]
  funext j
  rcases eq_or_ne j i with rfl | ne
  · simp
  · simp [ne]

theorem Dinode.dropAddrs_cons_empty {d : Dinode} {i : Fin 13} (gone : List (Fin 13))
    (empty : d.addrs i = 0)
    : d.dropAddrs (i :: gone) = d.dropAddrs gone := by
  rw [← Dinode.dropAddrs_cons]
  congr 1
  rw [Dinode.setAddr, ← empty, update_eq_self]

section Freeing

variable {s s' : State} {t : Nat → Dinode} {ip : Nat}
variable {blocks : List Nat} {b : Nat} {u : Unit}

theorem Unmarked.refl (s : State) : Unmarked s [] s :=
  ⟨rfl, rfl, rfl, rfl, fun _ _ => rfl, fun _ _ => rfl, fun _ _ => by simp⟩

theorem Unmarked.trans {last : State} {first second : List Nat}
    (before : Unmarked s first s') (after : Unmarked s' second last)
    : Unmarked s (first ++ second) last where
  sb := after.sb.trans before.sb
  inUse := after.inUse.trans before.inUse
  devsw := after.devsw.trans before.devsw
  superblock := after.superblock.trans before.superblock
  dinode := fun inum inside =>
    (after.dinode inum (before.sb ▸ inside)).trans (before.dinode inum inside)
  data := fun c low => (after.data c (before.sb ▸ low)).trans (before.data c low)
  bitmap := by
    intro c inside
    rw [after.bitmap c (before.sb ▸ inside), before.bitmap c inside]
    simp [List.mem_append, Bool.and_assoc]

/-- Changing the inode cache touches neither bitmap nor disk. -/
theorem Unmarked.setInode (unmarked : Unmarked s blocks s') (ip : Nat) (entry : Inode)
    : Unmarked s blocks (s'.setInode ip entry) :=
  { unmarked with }

section

variable (layout : s.sb.Layout) (superblock : readsb s.disk = s.sb)
include layout superblock

/-- `bfree` panics unless the bit of the block is set, and clears it. -/
theorem bfree_returns (inside : b < s.sb.size) (ran : Returns (bfree b) s u s')
    : Unmarked s [b] s' ∧ s'.icache = s.icache := by
  obtain ⟨_, middle, reread, rest⟩ := returns_bind.mp ran
  have same : middle = s := by
    rw [← returns_modify.mp reread, superblock]
  rw [same] at rest
  have ran := returns_get_bind.mp rest
  obtain ⟨set, ran⟩ := returns_assert.mp ran
  cases returns_logWrite.mp ran
  have region := layout.bblock_region inside
  have start := layout.bmapstart_lt
  refine ⟨⟨rfl, rfl, rfl, State.write_disk_ne (by omega), ?_, ?_, ?_⟩, rfl⟩
  · exact fun inum within => State.dinode_write_ne (layout.iblock_ne_bblock within)
  · exact fun c low => State.write_disk_ne (by omega)
  · intro c _
    rw [State.bitmap_clearBit]
    simp [Bool.and_comm]

theorem freeWords_returns {words : List UInt32}
    (inside : ∀ w, w ∈ words → w ≠ 0 → w.toNat < s.sb.size) (ran : Returns (freeWords words) s u s')
    : Unmarked s ((words.filter (· ≠ 0)).map UInt32.toNat) s' ∧ s'.icache = s.icache := by
  induction words generalizing s with
  | nil =>
    obtain ⟨_, rfl⟩ := returns_pure.mp ran
    exact ⟨.refl s, rfl⟩
  | cons w words ih =>
    have later : ∀ w', w' ∈ words → w' ≠ 0 → w'.toNat < s.sb.size :=
      fun w' member => inside w' (List.mem_cons_of_mem _ member)
    rcases returns_ite.mp ran with ⟨rfl, ran⟩ | ⟨full, ran⟩
    · simpa using ih layout superblock later ran
    · obtain ⟨_, middle, freed, ran⟩ := returns_bind.mp ran
      obtain ⟨first, cache⟩ :=
        bfree_returns layout superblock (inside w List.mem_cons_self full) freed
      obtain ⟨rest, cache'⟩ := ih (first.sb ▸ layout)
        (by rw [readsb_congr first.superblock, superblock, first.sb])
        (first.sb ▸ later) ran
      refine ⟨?_, cache'.trans cache⟩
      have both := first.trans rest
      simpa [full] using both

/-- The first loop of `itrunc` over distinct addresses. -/
theorem freeAddrs_returns {slots : List (Fin 13)} (distinct : slots.Nodup)
    (inside
      : ∀ i, i ∈ slots → (s.icache ip).copy.addrs i ≠ 0
        → ((s.icache ip).copy.addrs i).toNat < s.sb.size)
    (ran : Returns (freeAddrs ip slots) s u s')
    : Unmarked s
        (((slots.map (s.icache ip).copy.addrs).filter (· ≠ 0)).map UInt32.toNat) s'
      ∧ s'.icache = update s.icache ip
          { s.icache ip with copy := (s.icache ip).copy.dropAddrs slots } := by
  induction slots generalizing s with
  | nil =>
    obtain ⟨_, rfl⟩ := returns_pure.mp ran
    exact ⟨.refl s, by simp [Dinode.dropAddrs_nil]⟩
  | cons i slots ih =>
    obtain ⟨notLater, distinct⟩ := List.nodup_cons.mp distinct
    have ran := returns_getInode_bind.mp ran
    rcases returns_ite.mp ran with ⟨empty, ran⟩ | ⟨full, ran⟩
    · obtain ⟨rest, cache⟩ := ih layout superblock distinct
        (fun j member => inside j (List.mem_cons_of_mem _ member)) ran
      exact ⟨by simpa [empty] using rest, by rw [cache, Dinode.dropAddrs_cons_empty _ empty]⟩
    · obtain ⟨_, middle, freed, ran⟩ := returns_bind.mp ran
      obtain ⟨first, cache⟩ :=
        bfree_returns layout superblock (inside i List.mem_cons_self full) freed
      have ran := returns_assign_bind.mp ran
      have first' := first.setInode ip
        { middle.icache ip with copy := (middle.icache ip).copy.setAddr i 0 }
      have entry : (middle.setInode ip
          { middle.icache ip with copy := (middle.icache ip).copy.setAddr i 0 }).icache ip
            = { s.icache ip with copy := (s.icache ip).copy.setAddr i 0 } := by
        simp [State.setInode, cache]
      have later : ∀ j, j ∈ slots
          → ((s.icache ip).copy.setAddr i 0).addrs j = (s.icache ip).copy.addrs j := by
        intro j member
        have ne : j ≠ i := fun same => notLater (same ▸ member)
        exact update_of_ne ne ..
      obtain ⟨rest, cache'⟩ := ih (first'.sb ▸ layout)
        (by rw [readsb_congr first'.superblock, superblock, first'.sb]) distinct
        (by
          intro j member
          rw [entry, first'.sb, later j member]
          exact inside j (List.mem_cons_of_mem _ member)) ran
      rw [entry] at rest cache'
      constructor
      · rw [List.map_congr_left later] at rest
        have both := first'.trans rest
        simpa [full] using both
      · rw [cache']
        simp only [State.setInode, cache, update_idem, Dinode.dropAddrs_cons]

end

/-- The blocks in the slots of an inode behind and including its indirect pointer. -/
def indirectBlocks (disk : Nat → Block) (d : Dinode) : List Nat :=
  if d.addrs 12 = 0 then []
  else
    (((List.range nindirect).map fun j => (disk (d.addrs 12).toNat).word (4 * j)).filter
      (· ≠ 0)).map UInt32.toNat ++ [(d.addrs 12).toNat]

theorem freeIndirect_returns (layout : s.sb.Layout) (superblock : readsb s.disk = s.sb)
    (inside : ∀ b, b ∈ indirectBlocks s.disk (s.icache ip).copy → b < s.sb.size)
    (ran : Returns (freeIndirect ip) s u s')
    : Unmarked s (indirectBlocks s.disk (s.icache ip).copy) s'
      ∧ s'.icache = update s.icache ip
          { s.icache ip with copy := (s.icache ip).copy.setAddr 12 0 } := by
  have ran := returns_getInode_bind.mp ran
  unfold indirectBlocks at *
  rcases returns_ite.mp ran with ⟨empty, ran⟩ | ⟨full, ran⟩
  · obtain ⟨_, rfl⟩ := returns_pure.mp ran
    have unchanged : (s.icache ip).copy.setAddr 12 0 = (s.icache ip).copy := by
      rw [Dinode.setAddr, ← empty, update_eq_self]
    rw [if_pos empty, unchanged]
    exact ⟨.refl s, by simp⟩
  · rw [if_neg full] at inside ⊢
    have ran := returns_bread_bind.mp ran
    obtain ⟨_, middle, words, ran⟩ := returns_bind.mp ran
    obtain ⟨first, cache⟩ := freeWords_returns layout superblock (by
      intro w member nonzero
      refine inside w.toNat (List.mem_append_left _ (List.mem_map_of_mem ?_))
      exact List.mem_filter.mpr ⟨member, decide_eq_true nonzero⟩) words
    obtain ⟨_, next, pointer, ran⟩ := returns_bind.mp ran
    obtain ⟨second, cache'⟩ := bfree_returns (first.sb ▸ layout)
      (by rw [readsb_congr first.superblock, superblock, first.sb])
      (first.sb ▸ inside _ (List.mem_append_right _ List.mem_cons_self)) pointer
    cases returns_assign.mp ran
    refine ⟨(first.trans second).setInode ip _, ?_⟩
    simp only [State.setInode, cache', cache]

/-- The direct addresses, in the order of the first loop of `itrunc`. -/
theorem mem_directSlots (i : Fin 13)
    : i ∈ (List.range ndirect).map (Fin.ofNat 13) ↔ i ≠ 12 := by
  revert i
  decide

/-- An inode without contents. -/
def Dinode.truncated (d : Dinode) : Dinode :=
  { d with size := 0, addrs := fun _ => 0 }

/-- The blocks that `itrunc` frees are those in the slots of the inode. -/
theorem mem_truncated_blocks {disk : Nat → Block} {d : Dinode}
    : b ∈ ((((List.range ndirect).map (Fin.ofNat 13)).map d.addrs).filter (· ≠ 0)).map
          UInt32.toNat ++ indirectBlocks disk d
      ↔ b ≠ 0 ∧ ∃ slot, d.block disk slot = b := by
  have nonzero : ∀ {w : UInt32}, w ≠ 0 → w.toNat ≠ 0 :=
    fun full zero => full (UInt32.toNat_inj.mp zero)
  constructor
  · intro member
    rcases List.mem_append.mp member with direct | indirect
    · obtain ⟨w, found, rfl⟩ := List.mem_map.mp direct
      obtain ⟨listed, full⟩ := List.mem_filter.mp found
      obtain ⟨i, _, rfl⟩ := List.mem_map.mp listed
      exact ⟨nonzero (of_decide_eq_true full), .inl i, rfl⟩
    · unfold indirectBlocks at indirect
      split at indirect
      · cases indirect
      · rename_i pointed
        rcases List.mem_append.mp indirect with word | pointer
        · obtain ⟨w, found, rfl⟩ := List.mem_map.mp word
          obtain ⟨listed, full⟩ := List.mem_filter.mp found
          obtain ⟨j, below, rfl⟩ := List.mem_map.mp listed
          refine ⟨nonzero (of_decide_eq_true full), .inr ⟨j, List.mem_range.mp below⟩, ?_⟩
          exact if_neg pointed
        · obtain rfl := List.mem_singleton.mp pointer
          exact ⟨nonzero pointed, .inl 12, rfl⟩
  · rintro ⟨full, slot, rfl⟩
    have listed : ∀ {w : UInt32}, w.toNat ≠ 0 → decide (w ≠ 0) = true :=
      fun full => decide_eq_true fun zero => full (congrArg UInt32.toNat zero)
    cases slot with
    | inl i =>
      rcases eq_or_ne i 12 with rfl | direct
      · have pointed : d.addrs 12 ≠ 0 := fun zero => full (congrArg UInt32.toNat zero)
        apply List.mem_append_right
        rw [indirectBlocks, if_neg pointed]
        exact List.mem_append_right _ (List.mem_singleton.mpr rfl)
      · apply List.mem_append_left
        refine List.mem_map_of_mem (List.mem_filter.mpr ⟨?_, listed full⟩)
        exact List.mem_map_of_mem ((mem_directSlots i).mpr direct)
    | inr j =>
      simp only [Dinode.block] at full ⊢
      split at full
      · exact absurd rfl full
      · rename_i pointed
        rw [if_neg pointed, indirectBlocks, if_neg pointed]
        apply List.mem_append_right
        apply List.mem_append_left
        refine List.mem_map_of_mem (List.mem_filter.mpr ⟨?_, listed full⟩)
        exact List.mem_map.mpr ⟨j, List.mem_range.mpr j.isLt, rfl⟩

/-- Inode `ip` lost its contents and became `d`, in the cache and on disk; the blocks of
other files are as before.
-/
structure Truncated (s : State) (t : Nat → Dinode) (ip : Nat) (d : Dinode) (s' : State)
    : Prop where
  sound : s'.Sound (update t ip d)
  dinode : ∀ inum, inum < s.sb.ninodes → s'.dinode inum = update s.dinode ip d inum
  sb : s'.sb = s.sb
  inUse : s'.inUse = s.inUse
  devsw : s'.devsw = s.devsw
  icache : s'.icache = update s.icache ip { s.icache ip with copy := d }
  data : ∀ c, s.sb.firstData ≤ c → s'.disk c = s.disk c

/-- Clearing the bits of all blocks of an inode together with its addresses. -/
theorem Unmarked.sound (unmarked : Unmarked s blocks s') (sound : s.Sound t)
    (inside : ip < s.sb.ninodes) (used : (t ip).type ≠ 0)
    (all : ∀ b, b ∈ blocks ↔ b ≠ 0 ∧ ∃ slot, (t ip).block s.disk slot = b)
    : s'.Sound (update t ip (t ip).truncated) := by
  have emptied : ∀ place : Nat × Slot, place.1 = ip
      → s'.held (update t ip (t ip).truncated) place = 0 := by
    rintro ⟨_, slot⟩ rfl
    unfold State.held
    rw [update_self]
    cases slot <;> simp [Dinode.truncated, Dinode.block]
  have kept : ∀ place : Nat × Slot, ¬place.1 = ip
      → s'.held (update t ip (t ip).truncated) place = s.held t place := by
    rintro ⟨inum, slot⟩ other
    refine State.held_congr unmarked.sb (update_of_ne other ..) fun pointed => ?_
    exact unmarked.data _ (sound.marked_of_held pointed).1
  have freed : ∀ b, b ∈ blocks ↔ b ≠ 0 ∧ ∃ place : Nat × Slot, place.1 = ip ∧ s.held t place = b := by
    intro b
    rw [all]
    refine and_congr_right fun _ => ⟨?_, ?_⟩
    · rintro ⟨slot, same⟩
      exact ⟨(ip, slot), rfl, (State.held_of_allocated inside used).trans same⟩
    · rintro ⟨⟨_, slot⟩, rfl, same⟩
      exact ⟨slot, (State.held_of_allocated inside used).symm.trans same⟩
  have positive := sound.layout.firstData_pos
  refine
    { layout := unmarked.sb ▸ sound.layout
      superblock := by
        rw [readsb_congr unmarked.superblock, sound.superblock, unmarked.sb]
      metadata := ?_
      owned := sound.owned.release emptied kept fun b => ?_
      covered := ?_ }
  · intro c low
    rw [unmarked.sb] at low
    have small : c < s.sb.size := Nat.lt_of_lt_of_le low (Nat.sub_le ..)
    have stays : c ∉ blocks := by
      intro member
      obtain ⟨full, place, _, same⟩ := (freed c).mp member
      have marked := (sound.marked_of_held (same ▸ full)).1
      omega
    simp [unmarked.bitmap c small, sound.metadata c low, stays]
  · simp only [State.Marked, unmarked.sb, and_assoc]
    refine and_congr_right fun low => and_congr_right fun high => ?_
    rw [unmarked.bitmap b high, Bool.and_eq_true, Bool.not_eq_true', decide_eq_false_iff_not]
    refine and_congr_right fun _ => ?_
    rw [freed]
    constructor
    · intro away place here same
      exact away ⟨by omega, place, here, same⟩
    · rintro away ⟨_, place, here, same⟩
      exact away place here same
  · intro inum within usedHere bn below
    rcases eq_or_ne inum ip with rfl | ne
    · simp [Dinode.truncated] at below
    · rw [update_of_ne ne] at usedHere below
      have full := sound.covered inum (unmarked.sb ▸ within) usedHere bn below
      simpa only [State.fileBlock, kept (inum, fileSlot bn) ne] using full

theorem itrunc_returns (sound : s.Sound t) (inside : ip < s.sb.ninodes) (used : (t ip).type ≠ 0)
    (copy : (s.icache ip).copy = t ip) (ran : Returns (itrunc ip) s u s')
    : Truncated s t ip (t ip).truncated s' := by
  have block : ∀ slot, (t ip).block s.disk slot ≠ 0
      → s.Marked ((t ip).block s.disk slot) := by
    intro slot full
    rw [← State.held_of_allocated (s := s) inside used] at full ⊢
    exact sound.marked_of_held full
  obtain ⟨_, s₁, direct, ran⟩ := returns_bind.mp ran
  obtain ⟨first, cache⟩ := freeAddrs_returns sound.layout sound.superblock (by decide) (by
    intro i _ full
    rw [copy] at full ⊢
    exact (block (.inl i) fun zero => full (UInt32.toNat_inj.mp zero)).2.1) direct
  rw [copy] at first cache
  have entry : (s₁.icache ip).copy
      = (t ip).dropAddrs ((List.range ndirect).map (Fin.ofNat 13)) := by
    rw [cache, update_self]
  have pointer : ((s₁.icache ip).copy).addrs 12 = (t ip).addrs 12 := by
    have notDirect : (12 : Fin 13) ∉ (List.range ndirect).map (Fin.ofNat 13) :=
      fun member => (mem_directSlots 12).mp member rfl
    simp only [entry, Dinode.dropAddrs, if_neg notDirect]
  have indirect : indirectBlocks s₁.disk (s₁.icache ip).copy = indirectBlocks s.disk (t ip) := by
    unfold indirectBlocks
    rw [pointer]
    split
    · rfl
    · rename_i full
      have low := (block (.inl 12) fun zero => full (UInt32.toNat_inj.mp zero)).1
      have same : s₁.disk ((t ip).addrs 12).toNat = s.disk ((t ip).addrs 12).toNat :=
        first.data _ low
      rw [same]
  obtain ⟨_, s₂, behind, ran⟩ := returns_bind.mp ran
  obtain ⟨second, cache'⟩ := freeIndirect_returns (first.sb ▸ sound.layout)
    (by rw [readsb_congr first.superblock, sound.superblock, first.sb]) (by
      intro b member
      rw [indirect] at member
      obtain ⟨full, slot, same⟩ := mem_truncated_blocks.mp (List.mem_append_right _ member)
      rw [first.sb]
      exact same ▸ (block slot (same ▸ full)).2.1) behind
  rw [indirect] at second
  rw [entry, cache, update_idem, update_self] at cache'
  have ran := returns_assign_bind.mp ran
  have cleared : ((t ip).dropAddrs ((List.range ndirect).map (Fin.ofNat 13))).setAddr 12 0
      = { t ip with addrs := fun _ => 0 } := by
    simp only [Dinode.setAddr, Dinode.dropAddrs, Dinode.mk.injEq, true_and]
    funext i
    rcases eq_or_ne i 12 with rfl | direct
    · simp
    · rw [update_of_ne direct]
      exact if_pos ((mem_directSlots i).mpr direct)
  have whole := (first.trans second).setInode ip
    { s₂.icache ip with copy := { (s₂.icache ip).copy with size := 0 } }
  have truncated := whole.sound sound inside used fun b => mem_truncated_blocks
  have cache₃ : (s₂.setInode ip
      { s₂.icache ip with copy := { (s₂.icache ip).copy with size := 0 } }).icache
        = update s.icache ip { s.icache ip with copy := (t ip).truncated } := by
    simp only [State.setInode, cache', update_idem, update_self, cleared]
    rfl
  have ran := returns_get_bind.mp ran
  cases returns_logWrite.mp ran
  refine ⟨truncated.write_inode (whole.sb ▸ inside) _, ?_, whole.sb, whole.inUse, whole.devsw,
    cache₃, ?_⟩
  · intro inum within
    rw [State.dinode_setDinode, cache₃, update_self]
    rcases eq_or_ne inum ip with rfl | ne
    · simp
    · simp only [update_of_ne ne]
      exact whole.dinode inum within
  · intro c low
    have region := sound.layout.iblock_region inside
    have start := sound.layout.bmapstart_lt
    rw [State.write_disk_ne (by rw [whole.sb]; omega)]
    exact whole.data c low

end Freeing

end Xv6.Fs
