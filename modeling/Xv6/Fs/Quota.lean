import Xv6.Fs.Filewrite
import Xv6.Lib.Recorded

/-! How many blocks one transaction of `filewrite` writes to the log.
The functions behind `writei` are stated again with a record of the blocks that they give to
`log_write`; without the record they are the functions of the model.
-/

namespace Xv6.Fs

open Lib
open Function (update update_self update_idem)

namespace Logged

/-- A computation with the blocks that it gives to `log_write`. -/
abbrev LogM := Recorded Stop State Nat

def logWrite (b : Nat) (blk : Block) : LogM Unit := do
  Recorded.note b
  Recorded.lift (Fs.logWrite b blk)

def bzero (b : Nat) : LogM Unit :=
  logWrite b fun _ => 0

def balloc : LogM Nat := do
  let s ← Recorded.lift get
  match (List.range s.sb.size).find? (fun b => !s.bitmap b) with
  | none => Recorded.lift (panic .ballocOutOfBlocks)
  | some b => do
      logWrite (bblock s.sb b) (setBit (s.disk (bblock s.sb b)) (b % bpb))
      bzero b
      pure b

def iupdate (ip : Nat) : LogM Unit := do
  let s ← Recorded.lift get
  logWrite (iblock s.sb ip)
    (setDinode (s.disk (iblock s.sb ip)) (ip % ipb) (s.icache ip).copy)

def addrOrAlloc (ip : Nat) (i : Fin 13) : LogM Nat := do
  let entry ← Recorded.lift (getInode ip)
  if entry.copy.addrs i = 0 then do
    let addr ← balloc
    Recorded.lift (assign ip fun d => d.setAddr i (UInt32.ofNat addr))
    pure addr
  else pure (entry.copy.addrs i).toNat

def bmap (ip bn : Nat) : LogM Nat := do
  if bn < ndirect then addrOrAlloc ip (Fin.ofNat 13 bn)
  else if bn - ndirect < nindirect then do
    let pointer ← addrOrAlloc ip 12
    let a ← Recorded.lift (bread pointer)
    if a.word (4 * (bn - ndirect)) = 0 then do
      let addr ← balloc
      let a ← Recorded.lift (bread pointer)
      logWrite pointer (a.setWord (4 * (bn - ndirect)) (UInt32.ofNat addr))
      pure addr
    else pure (a.word (4 * (bn - ndirect))).toNat
  else Recorded.lift (panic .bmapOutOfRange)

def writeLoop (ip : Nat) : (fuel : Nat) → (src : List UInt8) → (off : Nat) → LogM Nat
  | 0, _, off => pure off
  | fuel + 1, src, off =>
      if src = [] then pure off
      else do
        let addr ← bmap ip (off / bsize)
        let blk ← Recorded.lift (bread addr)
        logWrite addr
          (blk.poke (off % bsize) (src.take (min src.length (bsize - off % bsize))))
        writeLoop ip fuel (src.drop (min src.length (bsize - off % bsize)))
          (off + min src.length (bsize - off % bsize))

def growTo (ip n off : Nat) : LogM Unit := do
  let entry ← Recorded.lift (getInode ip)
  if n > 0 ∧ off > entry.copy.size.toNat then do
    Recorded.lift (assign ip fun d => { d with size := UInt32.ofNat off })
    iupdate ip
  else pure ()

def writei (ip : Nat) (src : List UInt8) (off : Nat) : LogM (Option Nat) := do
  let s ← Recorded.lift get
  let d := (s.icache ip).copy
  if d.type = tDev then pure ((s.device d).bind fun dev => dev.write src)
  else if off > d.size.toNat ∨ off + src.length ≥ 2 ^ 32 then pure none
  else if off + src.length > maxfile * bsize then pure none
  else do
    let last ← writeLoop ip src.length src off
    growTo ip src.length last
    pure (some src.length)

def writeSection (ip : Nat) (chunk : List UInt8) (off : Nat) : LogM (Option Nat) := do
  Recorded.lift (ilock ip)
  let r ← writei ip chunk off
  Recorded.lift (iunlock ip)
  pure r

/-- The loop of `filewrite` with the blocks of each of its transactions. -/
def filewriteLoop (ip : Nat) (src : List UInt8)
    : (fuel off i : Nat) → Recorded Stop State (List Nat) (Nat × Nat)
  | 0, off, i => pure (off, i)
  | fuel + 1, off, i =>
      if i < src.length then do
        -- `begin_op`, the section and `end_op`
        let r ← Recorded.collect (writeSection ip ((src.drop i).take maxChunk) off)
        match r with
        | none => pure (off, i)
        | some r =>
            if r ≠ min (src.length - i) maxChunk then Recorded.lift (panic .shortFilewrite)
            else filewriteLoop ip src fuel (off + r) (i + r)
      else pure (off, i)

/-- `filewrite` with the blocks of each of its transactions. -/
def filewrite (f : InodeFile) (src : List UInt8)
    : Recorded Stop State (List Nat) (InodeFile × Int) := do
  if f.writable = false then pure (f, -1)
  else do
    let last ← filewriteLoop f.ip src src.length f.off 0
    pure ({ f with off := last.1 }, if last.2 = src.length then src.length else -1)

/-! Without the record. -/

theorem logWrite_erases (b : Nat) (blk : Block)
    : Erases (logWrite b blk) (Fs.logWrite b blk) :=
  .note b (.lift _)

theorem balloc_erases : Erases balloc Fs.balloc := by
  refine .bind (.lift _) fun s => ?_
  cases (List.range s.sb.size).find? fun b => !s.bitmap b with
  | none => exact .lift _
  | some b =>
    exact .bind (logWrite_erases ..) fun _ => .bind (logWrite_erases ..) fun _ => .pure b

theorem iupdate_erases (ip : Nat) : Erases (iupdate ip) (Fs.iupdate ip) :=
  .bind (.lift _) fun _ => logWrite_erases ..

theorem addrOrAlloc_erases (ip : Nat) (i : Fin 13)
    : Erases (addrOrAlloc ip i) (Fs.addrOrAlloc ip i) :=
  .bind (.lift _) fun _ =>
    .ite (.bind balloc_erases fun _ => .bind (.lift _) fun _ => .pure _) (.pure _)

theorem bmap_erases (ip bn : Nat) : Erases (bmap ip bn) (Fs.bmap ip bn) := by
  refine .ite (addrOrAlloc_erases ..) (.ite (.bind (addrOrAlloc_erases ..) fun pointer => ?_)
    (.lift _))
  exact .bind (.lift _) fun a => .ite (.bind balloc_erases fun addr => .bind (.lift _) fun _ =>
    .bind (logWrite_erases ..) fun _ => .pure _) (.pure _)

theorem writeLoop_erases (ip fuel : Nat) (src : List UInt8) (off : Nat)
    : Erases (writeLoop ip fuel src off) (Fs.writeLoop ip fuel src off) := by
  induction fuel generalizing src off with
  | zero => exact .pure off
  | succ fuel ih =>
    exact .ite (.pure off) (.bind (bmap_erases ..) fun addr => .bind (.lift _) fun blk =>
      .bind (logWrite_erases ..) fun _ => ih _ _)

theorem growTo_erases (ip n off : Nat) : Erases (growTo ip n off) (Fs.growTo ip n off) :=
  .bind (.lift _) fun _ =>
    .ite (.bind (.lift _) fun _ => iupdate_erases ip) (.pure ())

theorem writei_erases (ip : Nat) (src : List UInt8) (off : Nat)
    : Erases (writei ip src off) (Fs.writei ip src off) :=
  .bind (.lift _) fun _ => .ite (.pure _) (.ite (.pure _) (.ite (.pure _)
    (.bind (writeLoop_erases ..) fun _ => .bind (growTo_erases ..) fun _ => .pure _)))

theorem writeSection_erases (ip : Nat) (chunk : List UInt8) (off : Nat)
    : Erases (writeSection ip chunk off) (Fs.writeSection ip chunk off) :=
  .bind (.lift _) fun _ => .bind (writei_erases ..) fun _ => .bind (.lift _) fun _ => .pure _

theorem filewriteLoop_erases (ip : Nat) (src : List UInt8) (fuel off i : Nat)
    : Erases (filewriteLoop ip src fuel off i) (Fs.filewriteLoop ip src fuel off i) := by
  induction fuel generalizing off i with
  | zero => exact .pure _
  | succ fuel ih =>
    refine .ite (.bind (.collect (writeSection_erases ..)) fun r => ?_) (.pure _)
    cases r with
    | none => exact .pure _
    | some r => exact .ite (.lift _) (ih _ _)

/-- Without the record the calls are those of the model. -/
theorem filewrite_erases (f : InodeFile) (src : List UInt8)
    : Erases (filewrite f src) (Fs.filewrite f src) :=
  .ite (.pure _) (.bind (filewriteLoop_erases ..) fun _ => .pure _)

end Logged

/-! The blocks of one write. -/

/-- The blocks of a file behind the `n` bytes from `off` on. -/
def spanned (off n : Nat) : Finset Nat :=
  (Finset.range n).image fun k => (off + k) / bsize

/-- One of these blocks, from block `low` of the file on, is not on disk. -/
def State.LacksBlock (s : State) (t : Nat → Dinode) (ip off n low : Nat) : Prop :=
  ∃ bn ∈ spanned off n, low ≤ bn ∧ s.fileBlock t ip bn = 0

instance (s : State) (t : Nat → Dinode) (ip off n low : Nat)
    : Decidable (s.LacksBlock t ip off n low) :=
  inferInstanceAs (Decidable (∃ bn ∈ spanned off n, low ≤ bn ∧ s.fileBlock t ip bn = 0))

/-- How many blocks a write of `n` bytes at `off` gives to `log_write`: data blocks, the bitmap
block, the indirect block and the block of the inode.
-/
def State.logCost (s : State) (ip off n : Nat) : Nat :=
  (spanned off n).card + (if s.LacksBlock s.dinode ip off n 0 then 1 else 0)
    + (if s.LacksBlock s.dinode ip off n ndirect then 1 else 0)
    + if (s.node ip).contents.length < off + n then 1 else 0

section Spans

variable {off n bn m : Nat}

theorem mem_spanned
    : bn ∈ spanned off n ↔ ∃ k, k < n ∧ (off + k) / bsize = bn := by
  simp only [spanned, Finset.mem_image, Finset.mem_range]

/-- The first block of a range and the rest of it. -/
theorem mem_spanned_add (positive : 0 < m) (inside : off % bsize + m ≤ bsize)
    : bn ∈ spanned off (m + n) ↔ bn = off / bsize ∨ bn ∈ spanned (off + m) n := by
  simp only [mem_spanned]
  constructor
  · rintro ⟨k, below, rfl⟩
    rcases Nat.lt_or_ge k m with early | late
    · left
      simp only [bsize] at *
      omega
    · exact .inr ⟨k - m, by omega, by rw [show off + m + (k - m) = off + k by omega]⟩
  · rintro (rfl | ⟨k, below, rfl⟩)
    · exact ⟨0, by omega, rfl⟩
    · exact ⟨m + k, by omega, by rw [← Nat.add_assoc]⟩

theorem spanned_mono (off : Nat) (le : m ≤ n) : spanned off m ⊆ spanned off n :=
  Finset.image_subset_image (Finset.range_subset_range.mpr le)

/-- A chunk of the largest size reaches into thirteen blocks at least. -/
theorem le_card_spanned_maxChunk (off : Nat) : 13 ≤ (spanned off maxChunk).card := by
  have blocks : (Finset.range 13).image (off / bsize + ·) ⊆ spanned off maxChunk := by
    intro bn member
    obtain ⟨j, below, rfl⟩ := Finset.mem_image.mp member
    have below := Finset.mem_range.mp below
    refine mem_spanned.mpr ⟨bsize * j, ?_, Nat.add_mul_div_left _ _ (by decide)⟩
    have size : maxChunk = bsize * 13 := rfl
    rw [size]
    exact Nat.mul_lt_mul_of_pos_left below (by decide)
  calc 13 = ((Finset.range 13).image (off / bsize + ·)).card := by
        rw [Finset.card_image_of_injective _ (add_right_injective _), Finset.card_range]
    _ ≤ _ := Finset.card_le_card blocks

theorem fileSlot_mem_slotsOf_iff {bm : Nat} (first : bn < maxfile) (second : bm < maxfile)
    : fileSlot bn ∈ slotsOf bm ↔ bn = bm := by
  have slot : fileSlot bn ∈ slotsOf bm ↔ fileSlot bn = fileSlot bm := by
    unfold slotsOf
    split
    · rw [Finset.mem_singleton]
    · rw [Finset.mem_insert, Finset.mem_singleton]
      exact or_iff_right (fileSlot_ne_pointer bn)
  rw [slot]
  exact ⟨fileSlot_inj first second, fun same => same ▸ rfl⟩

end Spans

section Mapping

open Logged

variable {s s' : State} {t : Nat → Dinode} {ip : Nat} {blocks : List Nat}

theorem logWrite_records {b : Nat} {blk : Block} {u : Unit}
    : Records (Logged.logWrite b blk) s u blocks s' ↔ blocks = [b] ∧ s.write b blk = s' := by
  simp only [Logged.logWrite, records_bind, records_note, records_lift, returns_logWrite]
  constructor
  · rintro ⟨_, _, _, _, ⟨rfl, rfl⟩, ⟨rfl, rfl⟩, rfl⟩
    exact ⟨rfl, rfl⟩
  · rintro ⟨rfl, rfl⟩
    exact ⟨(), _, s, [], ⟨rfl, rfl⟩, ⟨rfl, rfl⟩, rfl⟩

/-- With one bitmap block, `balloc` gives this block and the new one to the log. -/
theorem balloc_records {b : Nat} (sound : s.Sound t) (one : s.sb.size ≤ bpb)
    (ran : Records Logged.balloc s b blocks s')
    : blocks = [s.sb.bmapstart, b] := by
  have alloc := balloc_returns sound (balloc_erases.returns_iff.mpr ⟨_, ran⟩)
  obtain ⟨_, _, got, ran⟩ := records_lift_bind.mp ran
  obtain ⟨rfl, rfl⟩ := returns_get.mp got
  cases found : (List.range s.sb.size).find? fun b => !s.bitmap b with
  | none =>
    simp only [found] at ran
    exact (returns_panic.mp (records_lift.mp ran).1).elim
  | some c =>
    simp only [found] at ran
    obtain ⟨_, _, _, _, marked, zeroes, rfl⟩ := records_bind.mp ran
    obtain ⟨_, _, _, _, zeroed, returned, rfl⟩ := records_bind.mp zeroes
    obtain ⟨rfl, rfl, rfl⟩ := records_pure.mp returned
    obtain ⟨rfl, _⟩ := logWrite_records.mp marked
    obtain ⟨rfl, _⟩ := logWrite_records.mp zeroed
    have first : bblock s.sb c = s.sb.bmapstart := by
      rw [bblock, Nat.div_eq_of_lt (Nat.lt_of_lt_of_le alloc.high one), Nat.zero_add]
    rw [first]
    rfl

/-- `addrOrAlloc` gives blocks to the log when its slot is empty. -/
theorem addrOrAlloc_records {i : Fin 13} {addr : Nat} (file : s.Opened t ip)
    (one : s.sb.size ≤ bpb) (ran : Records (Logged.addrOrAlloc ip i) s addr blocks s') (b : Nat)
    : b ∈ blocks ↔ s.held t (ip, .inl i) = 0 ∧ (b = s.sb.bmapstart ∨ b = addr) := by
  rw [file.held_addr_eq_zero_iff]
  obtain ⟨_, _, got, ran⟩ := records_lift_bind.mp ran
  obtain ⟨rfl, rfl⟩ := returns_getInode.mp got
  rw [file.copy] at ran
  rcases records_ite.mp ran with ⟨empty, ran⟩ | ⟨full, ran⟩
  · obtain ⟨c, _, m, _, allocated, assigns, rfl⟩ := records_bind.mp ran
    obtain ⟨_, _, _, returned⟩ := records_lift_bind.mp assigns
    obtain ⟨rfl, rfl, rfl⟩ := records_pure.mp returned
    obtain rfl := balloc_records file.toSound one allocated
    simp [empty]
  · obtain ⟨rfl, rfl, rfl⟩ := records_pure.mp ran
    simp [full]

theorem State.fileBlock_eq_held {bn : Nat} (small : bn < maxfile)
    : s.fileBlock t ip bn = s.held t (ip, fileSlot bn) :=
  if_pos small

/-- `bmap` gives blocks to the log when its block is not on disk: the bitmap block and the new
block, and for a block behind the indirect pointer the indirect block.
-/
theorem bmap_records {bn addr : Nat} (file : s.Opened t ip) (one : s.sb.size ≤ bpb)
    (ran : Records (Logged.bmap ip bn) s addr blocks s') (b : Nat)
    : b ∈ blocks ∨ b = addr
      ↔ b = addr ∨ s.fileBlock t ip bn = 0 ∧ (b = s.sb.bmapstart
        ∨ ndirect ≤ bn ∧ b = s'.held (update t ip (s'.icache ip).copy) (ip, .inl 12)) := by
  rw [State.fileBlock_eq_held (bmap_slotted file ((bmap_erases ip bn).returns_iff.mpr ⟨_, ran⟩)).1,
    fileSlot]
  rcases records_ite.mp ran with ⟨direct, ran⟩ | ⟨indirect, ran⟩
  · have high : ¬ndirect ≤ bn := Nat.not_le.mpr direct
    rw [addrOrAlloc_records file one ran, if_pos direct]
    simp only [high, false_and, or_false]
    tauto
  rcases records_ite.mp ran with ⟨small, ran⟩ | ⟨_, ran⟩
  · obtain ⟨pointer, first, middle, rest, pointed, follows, rfl⟩ := records_bind.mp ran
    have plain := (addrOrAlloc_erases ip 12).returns_iff.mpr ⟨_, pointed⟩
    obtain ⟨d, slotted, rfl, nonzero⟩ := addrOrAlloc_slotted file plain
    have early := addrOrAlloc_records file one pointed b
    obtain ⟨_, _, read, ran⟩ := records_lift_bind.mp follows
    obtain ⟨rfl, rfl⟩ := returns_bread.mp read
    have high : ndirect ≤ bn := Nat.le_of_not_lt indirect
    have opened := slotted.opened file
    rw [if_neg indirect]
    -- the entry behind the pointer is empty before just when it is empty now
    have entry : (middle.disk (d.addrs 12).toNat).word (4 * (bn - ndirect)) = 0
        ↔ s.held t (ip, .inr (Fin.ofNat 128 (bn - ndirect))) = 0 := by
      have value := opened.held_entry (by rwa [update_self]) small
      have empty := (slotted.filled file.toSound).empty (.inr (Fin.ofNat 128 (bn - ndirect)))
      rw [value, update_self] at empty
      rw [← UInt32.toNat_inj]
      exact empty.trans (and_iff_left (by simp))
    rcases records_ite.mp ran with ⟨empty, ran⟩ | ⟨full, ran⟩
    · obtain ⟨c, _, next, _, allocated, reads, rfl⟩ := records_bind.mp ran
      have alloc := balloc_returns opened.toSound (balloc_erases.returns_iff.mpr ⟨_, allocated⟩)
      obtain rfl := balloc_records opened.toSound (slotted.sb ▸ one) allocated
      obtain ⟨_, _, read, writes⟩ := records_lift_bind.mp reads
      obtain ⟨rfl, rfl⟩ := returns_bread.mp read
      obtain ⟨_, _, last, _, wrote, returned, rfl⟩ := records_bind.mp writes
      obtain ⟨rfl, rfl, rfl⟩ := records_pure.mp returned
      obtain ⟨rfl, rfl⟩ := logWrite_records.mp wrote
      have pointer : (next.write (d.addrs 12).toNat
          ((next.disk (d.addrs 12).toNat).setWord (4 * (bn - ndirect)) (UInt32.ofNat c))).held
            (update t ip d) (ip, .inl 12) = (d.addrs 12).toNat := by
        rw [State.held_of_allocated (s := next.write _ _) (alloc.sb ▸ opened.inside) opened.used,
          update_self]
        rfl
      rw [State.write_icache, alloc.copy opened, update_self, pointer, slotted.sb]
      have zero := entry.mp empty
      simp only [zero, high, List.mem_append, List.mem_cons, List.not_mem_nil, early, true_and]
      constructor
      · rintro ((⟨_, rfl | rfl⟩ | (rfl | rfl | impossible) | (rfl | impossible) | impossible) | rfl)
          <;> simp_all
      · rintro (rfl | rfl | rfl) <;> simp
    · obtain ⟨rfl, rfl, rfl⟩ := records_pure.mp ran
      have present := mt entry.mpr full
      simp only [List.append_nil, early, present, mt State.held_entry_of_pointer present,
        false_and, false_or, or_false]
  · exact (returns_panic.mp (records_lift.mp ran).1).elim

end Mapping

section Copying

variable {s s' : State} {t t' : Nat → Dinode} {ip off n low : Nat} {blocks : List Nat}
variable {bn b : Nat} {slots : Finset Slot} {src : List UInt8}

theorem lt_maxfile_of_mem_spanned (small : off + n ≤ maxfile * bsize) (member : bn ∈ spanned off n)
    : bn < maxfile := by
  obtain ⟨k, below, rfl⟩ := mem_spanned.mp member
  rw [Nat.div_lt_iff_lt_mul (by decide)]
  omega

theorem Filled.fileBlock (filled : Filled s t ip slots s' t') (full : s.fileBlock t ip bn ≠ 0)
    : s'.fileBlock t' ip bn = s.fileBlock t ip bn := by
  obtain ⟨small, place⟩ := State.fileBlock_of_ne_zero full
  rw [State.fileBlock_eq_held small, place]
  exact filled.kept _ (place ▸ full)

/-- What a range lacks is its first block, or a block of the rest after the first one has been
put on disk.
-/
theorem Filled.lacksBlock_iff {m : Nat} (filled : Filled s t ip (slotsOf (off / bsize)) s' t')
    (positive : 0 < m) (inside : off % bsize + m ≤ bsize)
    (small : off + (m + n) ≤ maxfile * bsize)
    : s.LacksBlock t ip off (m + n) low
      ↔ low ≤ off / bsize ∧ s.fileBlock t ip (off / bsize) = 0
        ∨ s'.LacksBlock t' ip (off + m) n low := by
  have first : off / bsize ∈ spanned off (m + n) := (mem_spanned_add positive inside).mpr (.inl rfl)
  have bound := lt_maxfile_of_mem_spanned small first
  constructor
  · rintro ⟨bn, member, above, zero⟩
    have below := lt_maxfile_of_mem_spanned small member
    by_cases same : bn = off / bsize
    · exact .inl ⟨same ▸ above, same ▸ zero⟩
    · refine .inr ⟨bn, ((mem_spanned_add positive inside).mp member).resolve_left same, above, ?_⟩
      rw [State.fileBlock_eq_held below] at zero ⊢
      exact (filled.empty _).mpr ⟨zero, mt (fileSlot_mem_slotsOf_iff below bound).mp same⟩
  · rintro (⟨above, zero⟩ | ⟨bn, member, above, zero⟩)
    · exact ⟨_, first, above, zero⟩
    · have member := (mem_spanned_add positive inside).mpr (.inr member)
      have below := lt_maxfile_of_mem_spanned small member
      refine ⟨bn, member, above, ?_⟩
      rw [State.fileBlock_eq_held below] at zero ⊢
      exact ((filled.empty _).mp zero).1

/-- Block `b` is given to the log by a write that leads from `s` to `s'`: it is a block of the
range, the bitmap block when the range lacks a block, or the indirect block when it lacks one
behind the pointer.
-/
def Charged (s : State) (t : Nat → Dinode) (ip off n : Nat) (s' : State) (t' : Nat → Dinode)
    (b : Nat)
    : Prop :=
  (∃ bn ∈ spanned off n, s'.fileBlock t' ip bn = b)
    ∨ s.LacksBlock t ip off n 0 ∧ b = s.sb.bmapstart
    ∨ s.LacksBlock t ip off n ndirect ∧ b = s'.held t' (ip, .inl 12)

theorem not_charged_zero : ¬Charged s t ip off 0 s' t' b := by
  simp [Charged, spanned, State.LacksBlock]

/-- The blocks of a range are those of its first block and those of the rest. -/
theorem charged_cons {m : State} {t₁ : Nat → Dinode} {k : Nat}
    (first : Filled s t ip (slotsOf (off / bsize)) m t₁) (rest : Filled m t₁ ip slots s' t')
    (sb : m.sb = s.sb) (positive : 0 < k) (inside : off % bsize + k ≤ bsize)
    (small : off + (k + n) ≤ maxfile * bsize)
    : Charged s t ip off (k + n) s' t' b
      ↔ (b = m.fileBlock t₁ ip (off / bsize)
          ∨ s.fileBlock t ip (off / bsize) = 0 ∧ (b = s.sb.bmapstart
            ∨ ndirect ≤ off / bsize ∧ b = m.held t₁ (ip, .inl 12)))
        ∨ Charged m t₁ ip (off + k) n s' t' b := by
  have member : off / bsize ∈ spanned off (k + n) :=
    (mem_spanned_add positive inside).mpr (.inl rfl)
  have bound := lt_maxfile_of_mem_spanned small member
  have full : m.fileBlock t₁ ip (off / bsize) ≠ 0 := by
    rw [State.fileBlock_eq_held bound]
    exact fun zero => ((first.empty _).mp zero).2 (fileSlot_mem_slotsOf _)
  have span : (∃ bn ∈ spanned off (k + n), s'.fileBlock t' ip bn = b)
      ↔ b = m.fileBlock t₁ ip (off / bsize)
        ∨ ∃ bn ∈ spanned (off + k) n, s'.fileBlock t' ip bn = b := by
    simp only [mem_spanned_add positive inside, or_and_right, exists_or, exists_eq_left,
      rest.fileBlock full, @eq_comm _ b]
  have pointer : ndirect ≤ off / bsize → m.held t₁ (ip, .inl 12) = s'.held t' (ip, .inl 12) := by
    intro high
    refine (rest.kept _ fun zero => ((first.empty _).mp zero).2 ?_).symm
    rw [slotsOf, if_neg (Nat.not_lt.mpr high)]
    exact Finset.mem_insert_self ..
  simp only [Charged, span, first.lacksBlock_iff positive inside small, sb, Nat.zero_le, true_and]
  constructor
  · rintro ((new | old) | ⟨missing | lacks, rfl⟩ | ⟨⟨high, missing⟩ | lacks, rfl⟩)
    · exact .inl (.inl new)
    · exact .inr (.inl old)
    · exact .inl (.inr ⟨missing, .inl rfl⟩)
    · exact .inr (.inr (.inl ⟨lacks, rfl⟩))
    · exact .inl (.inr ⟨missing, .inr ⟨high, (pointer high).symm⟩⟩)
    · exact .inr (.inr (.inr ⟨lacks, rfl⟩))
  · rintro ((new | ⟨missing, rfl | ⟨high, rfl⟩⟩) | old | ⟨lacks, rfl⟩ | ⟨lacks, rfl⟩)
    · exact .inl (.inl new)
    · exact .inr (.inl ⟨.inl missing, rfl⟩)
    · exact .inr (.inr ⟨.inl ⟨high, missing⟩, pointer high⟩)
    · exact .inl (.inr old)
    · exact .inr (.inl ⟨.inr lacks, rfl⟩)
    · exact .inr (.inr ⟨.inr lacks, rfl⟩)

/-- The copying loop gives the blocks of its range to the log, and those that it needs to put
them on disk.
-/
theorem writeLoop_records {fuel last : Nat} (enough : src.length ≤ fuel)
    (small : off + src.length ≤ maxfile * bsize) (file : s.Opened t ip) (one : s.sb.size ≤ bpb)
    (ran : Records (Logged.writeLoop ip fuel src off) s last blocks s') (b : Nat)
    : b ∈ blocks
      ↔ Charged s t ip off src.length s' (update t ip (s'.icache ip).copy) b := by
  induction fuel generalizing s t src off blocks with
  | zero =>
    obtain rfl := List.eq_nil_of_length_eq_zero (Nat.le_zero.mp enough)
    obtain ⟨_, rfl, _⟩ := records_pure.mp ran
    exact iff_of_false (List.not_mem_nil) not_charged_zero
  | succ fuel ih =>
    rcases records_ite.mp ran with ⟨rfl, ran⟩ | ⟨nonempty, ran⟩
    · obtain ⟨_, rfl, _⟩ := records_pure.mp ran
      exact iff_of_false (List.not_mem_nil) not_charged_zero
    obtain ⟨addr, early, middle, _, mapping, reads, rfl⟩ := records_bind.mp ran
    have plain := (Logged.bmap_erases ip (off / bsize)).returns_iff.mpr ⟨_, mapping⟩
    have pass := bmap_records file one mapping b
    obtain ⟨d, mapped, rfl, full, _⟩ := bmap_returns file plain
    have cached : (middle.icache ip).copy = d := by rw [mapped.entry]
    obtain ⟨_, _, read, writes⟩ := records_lift_bind.mp reads
    obtain ⟨rfl, rfl⟩ := returns_bread.mp read
    obtain ⟨_, _, next, late, wrote, loops, rfl⟩ := records_bind.mp writes
    obtain ⟨rfl, rfl⟩ := logWrite_records.mp wrote
    generalize size : min src.length (bsize - off % bsize) = k at loops
    have positive : 0 < src.length := List.length_pos_of_ne_nil nonempty
    have room : off % bsize < bsize := Nat.mod_lt _ (by decide)
    have whole : k + (src.length - k) = src.length := by omega
    generalize (middle.disk _).poke (off % bsize) (src.take k) = blk at loops
    obtain ⟨d', file', filled⟩ := writePass_filled (m := k) file (by omega) (by omega) plain
    obtain rfl : d = d' := cached.symm.trans (file'.copy.trans (update_self ..))
    have loop := (Logged.writeLoop_erases ..).returns_iff.mpr ⟨_, loops⟩
    have rest := writeLoop_filled (by rw [List.length_drop]; omega) file' loop
    have tail := ih (by rw [List.length_drop]; omega) (by rw [List.length_drop]; omega) file'
      (mapped.sb ▸ one) loops
    rw [update_idem, List.length_drop] at rest tail
    rw [touched_block (by omega) (by omega)] at filled
    have cons := charged_cons (b := b) filled rest mapped.sb (k := k) (by omega) (by omega)
      (n := src.length - k) (by omega)
    rw [cached] at pass
    rw [whole, mapped.sound.fileBlock_write full, mapped.sound.held_write full, ← pass,
      ← tail] at cons
    rw [cons, List.mem_append, List.mem_append, List.mem_singleton, or_assoc]

/-- The blocks of a write are different from each other. -/
theorem card_charged {grows : Prop} [Decidable grows] (sound : s'.Sound t') (sb : s'.sb = s.sb)
    (inside : ip < s'.sb.ninodes)
    (present : ∀ bn ∈ spanned off n, s'.fileBlock t' ip bn ≠ 0)
    (pointer : s.LacksBlock t ip off n ndirect → s'.held t' (ip, .inl 12) ≠ 0)
    (mem
      : ∀ b, b ∈ blocks ↔ Charged s t ip off n s' t' b ∨ grows ∧ b = iblock s'.sb ip)
    : blocks.toFinset.card
      = (spanned off n).card + (if s.LacksBlock t ip off n 0 then 1 else 0)
        + (if s.LacksBlock t ip off n ndirect then 1 else 0) + if grows then 1 else 0 := by
  have memOne : ∀ (c : Prop) [Decidable c] (x b : Nat),
      b ∈ (if c then {x} else ∅ : Finset Nat) ↔ c ∧ b = x := by
    intro c _ x b
    split <;> simp [*]
  have cardOne : ∀ (c : Prop) [Decidable c] (x : Nat),
      (if c then {x} else ∅ : Finset Nat).card = if c then 1 else 0 := by
    intro c _ x
    split <;> rfl
  have start := sound.layout.bmapstart_lt
  have region := sound.layout.iblock_region inside
  have low : ∀ bn ∈ spanned off n, s'.sb.firstData ≤ s'.fileBlock t' ip bn := fun bn member =>
    (sound.fileBlock_marked (present bn member)).1
  have split : blocks.toFinset
      = (((spanned off n).image (s'.fileBlock t' ip)
          ∪ if s.LacksBlock t ip off n 0 then {s.sb.bmapstart} else ∅)
          ∪ if s.LacksBlock t ip off n ndirect then {s'.held t' (ip, .inl 12)} else ∅)
          ∪ if grows then {iblock s'.sb ip} else ∅ := by
    ext b
    simp only [List.mem_toFinset, mem, Charged, Finset.mem_union, Finset.mem_image, memOne,
      or_assoc]
  have data : ((spanned off n).image (s'.fileBlock t' ip)).card = (spanned off n).card :=
    Finset.card_image_of_injOn fun bn member bm _ same =>
      (sound.fileBlock_inj (present bn member) same).2
  rw [split, Finset.card_union_of_disjoint, Finset.card_union_of_disjoint,
    Finset.card_union_of_disjoint, data, cardOne, cardOne, cardOne]
  · refine Finset.disjoint_left.mpr fun b first second => ?_
    obtain ⟨bn, member, rfl⟩ := Finset.mem_image.mp first
    obtain ⟨_, same⟩ := (memOne ..).mp second
    have above := low bn member
    rw [← sb] at same
    omega
  · refine Finset.disjoint_left.mpr fun b first second => ?_
    obtain ⟨lacks, rfl⟩ := (memOne ..).mp second
    have full := pointer lacks
    rcases Finset.mem_union.mp first with first | first
    · obtain ⟨bn, member, same⟩ := Finset.mem_image.mp first
      obtain ⟨_, place⟩ := State.fileBlock_of_ne_zero (present bn member)
      refine sound.pointer_ne full _ ?_ (place.symm.trans same)
      exact fun pair => fileSlot_ne_pointer bn (congrArg Prod.snd pair)
    · obtain ⟨_, same⟩ := (memOne ..).mp first
      have above := (sound.marked_of_held full).1
      rw [← sb] at same
      omega
  · refine Finset.disjoint_left.mpr fun b first second => ?_
    obtain ⟨_, rfl⟩ := (memOne ..).mp second
    simp only [Finset.mem_union, Finset.mem_image, memOne] at first
    rcases first with (⟨bn, member, same⟩ | ⟨_, same⟩) | ⟨lacks, same⟩
    · have above := low bn member
      omega
    · rw [← sb] at same
      omega
    · have above := (sound.marked_of_held (pointer lacks)).1
      omega

theorem growTo_records {u : Unit} (ran : Records (Logged.growTo ip n off) s u blocks s') (b : Nat)
    : b ∈ blocks ↔ (n > 0 ∧ off > (s.icache ip).copy.size.toNat) ∧ b = iblock s.sb ip := by
  obtain ⟨_, _, got, ran⟩ := records_lift_bind.mp ran
  obtain ⟨rfl, rfl⟩ := returns_getInode.mp got
  rcases records_ite.mp ran with ⟨grows, ran⟩ | ⟨stays, ran⟩
  · obtain ⟨_, m, assigned, ran⟩ := records_lift_bind.mp ran
    cases returns_assign.mp assigned
    obtain ⟨_, _, got, ran⟩ := records_lift_bind.mp ran
    obtain ⟨rfl, rfl⟩ := returns_get.mp got
    obtain ⟨rfl, _⟩ := logWrite_records.mp ran
    simp only [List.mem_singleton, grows, and_self, true_and, State.setInode_sb]
  · obtain ⟨_, rfl, _⟩ := records_pure.mp ran
    simp only [List.not_mem_nil, stays, false_and]

/-- A successful `writei` gives as many blocks to the log as its cost says. -/
theorem writei_records {r : Nat} (shown : s.Shows ip) (data : (s.node ip).type ≠ tDev)
    (one : s.sb.size ≤ bpb) (ran : Records (Logged.writei ip src off) s (some r) blocks s')
    : blocks.toFinset.card = s.logCost ip off src.length := by
  obtain ⟨type, _, size⟩ := shown.copy_fields
  obtain ⟨_, _, got, ran⟩ := records_lift_bind.mp ran
  obtain ⟨rfl, rfl⟩ := returns_get.mp got
  rcases records_ite.mp ran with ⟨device, _⟩ | ⟨_, ran⟩
  · exact absurd (type ▸ device) data
  rcases records_ite.mp ran with ⟨_, ran⟩ | ⟨fits, ran⟩
  · cases (records_pure.mp ran).1
  rcases records_ite.mp ran with ⟨_, ran⟩ | ⟨small, ran⟩
  · cases (records_pure.mp ran).1
  obtain ⟨last, _, m, _, loop, ends, rfl⟩ := records_bind.mp ran
  obtain ⟨_, _, _, _, grown, returned, rfl⟩ := records_bind.mp ends
  obtain ⟨_, rfl, _⟩ := records_pure.mp returned
  have plain := (Logged.writeLoop_erases ..).returns_iff.mpr ⟨_, loop⟩
  obtain ⟨d, wrote, rfl, _⟩ := writeLoop_returns (Nat.le_refl _) shown.opened plain
  have filled := writeLoop_filled (Nat.le_refl _) shown.opened plain
  have charged := writeLoop_records (Nat.le_refl _) (Nat.le_of_not_lt small) shown.opened one loop
  have cached : (m.icache ip).copy = d := by rw [wrote.entry]
  have kept : (m.icache ip).copy.size = (s.icache ip).copy.size := by
    rw [cached, wrote.fields, shown.copy]
  rw [cached] at filled charged
  refine card_charged wrote.sound wrote.sb (wrote.sb ▸ shown.inside) (fun bn member => ?_)
    (fun ⟨bn, member, high, _⟩ zero => ?_) fun b => ?_
  · obtain ⟨k, below, rfl⟩ := mem_spanned.mp member
    exact (wrote.written k below).1
  · obtain ⟨k, below, rfl⟩ := mem_spanned.mp member
    refine ((filled.empty _).mp zero).2 (mem_touched.mpr ⟨k, below, ?_⟩)
    rw [slotsOf, if_neg (Nat.not_lt.mpr high)]
    exact Finset.mem_insert_self ..
  · rw [List.mem_append, List.append_nil, charged b, growTo_records grown b, kept, size]
    refine or_congr_right (and_congr_left fun _ => ?_)
    rw [size] at fits
    omega

end Copying

/-! The transactions of a call. -/

section Transactions

variable {s s' : State} {ip off : Nat}
variable {src : List UInt8} {fuel i : Nat} {last : Nat × Nat} {sections : List (List Nat)}

/-- The disk and the files decide the cost of a write. -/
theorem State.logCost_of_disk (disk : s'.disk = s.disk) (sb : s'.sb = s.sb)
    (node : s'.node = s.node) (ip off n : Nat)
    : s'.logCost ip off n = s.logCost ip off n := by
  have table : s'.dinode = s.dinode :=
    funext fun inum => by rw [State.dinode, State.dinode, disk, sb]
  have block : s'.fileBlock s'.dinode = s.fileBlock s.dinode := by
    funext inum bn
    rw [table, State.fileBlock, State.fileBlock, State.held, State.held, disk, sb]
  have lacks : ∀ low,
      s'.LacksBlock s'.dinode ip off n low ↔ s.LacksBlock s.dinode ip off n low := by
    intro low
    rw [State.LacksBlock, block]
    rfl
  simp only [State.logCost, lacks, node]

theorem writeSection_records {r : Nat} {chunk : List UInt8} {blocks : List Nat}
    (quiet : s.Quiet) (file : (s.node ip).type = tFile) (one : s.sb.size ≤ bpb)
    (ran : Records (Logged.writeSection ip chunk off) s (some r) blocks s')
    : blocks.toFinset.card = s.logCost ip off chunk.length := by
  obtain ⟨_, m, locked, ran⟩ := records_lift_bind.mp ran
  obtain ⟨_, taken⟩ := ilock_returns quiet locked
  have shown := taken.quiet.shows (ilock_loaded quiet locked)
  have data : (m.node ip).type ≠ tDev := by
    rw [taken.node, file]
    decide
  obtain ⟨_, _, _, _, wrote, ends, rfl⟩ := records_bind.mp ran
  obtain ⟨_, _, _, returned⟩ := records_lift_bind.mp ends
  obtain ⟨rfl, rfl, _⟩ := records_pure.mp returned
  rw [List.append_nil, writei_records shown data (taken.sb ▸ one) wrote]
  exact State.logCost_of_disk (ilock_disk locked) taken.sb taken.node ..

/-- One pass of the loop is one transaction. -/
theorem filewriteLoop_records (unfinished : i < src.length)
    (ran : Records (Logged.filewriteLoop ip src (fuel + 1) off i) s last sections s')
    : ∃ r m blocks rest,
        Records (Logged.writeSection ip ((src.drop i).take maxChunk) off) s r blocks m
      ∧ sections = blocks :: rest
      ∧ ∀ n, r = some n → n = min (src.length - i) maxChunk
        ∧ Records (Logged.filewriteLoop ip src fuel (off + n) (i + n)) m last rest s' := by
  rcases records_ite.mp ran with ⟨_, ran⟩ | ⟨finished, _⟩
  · obtain ⟨r, _, m, rest, collected, follows, rfl⟩ := records_bind.mp ran
    obtain ⟨blocks, wrote, rfl⟩ := records_collect.mp collected
    refine ⟨r, m, blocks, rest, wrote, rfl, ?_⟩
    rintro n rfl
    rcases records_ite.mp follows with ⟨_, stopped⟩ | ⟨whole, more⟩
    · exact (returns_panic.mp (records_lift.mp stopped).1).elim
    · exact ⟨of_not_not whole, more⟩
  · exact absurd unfinished finished

theorem filewriteLoop_records_done (done : src.length ≤ i)
    (ran : Records (Logged.filewriteLoop ip src fuel off i) s last sections s')
    : sections = [] := by
  cases fuel with
  | zero => exact (records_pure.mp ran).2.1
  | succ fuel =>
    rw [Logged.filewriteLoop, if_neg (Nat.not_lt.mpr done)] at ran
    exact (records_pure.mp ran).2.1

theorem maxOpBlocks_lt_logCost {n : Nat} (long : maxChunk ≤ n)
    : maxOpBlocks < s.logCost ip off n := by
  have most := Finset.card_le_card (spanned_mono off long)
  have thirteen := le_card_spanned_maxChunk off
  have quota : maxOpBlocks = 10 := rfl
  rw [State.logCost]
  omega

/-- The first transaction of a write that stays within the file's limits has the cost of its
chunk.
-/
theorem filewriteLoop_first (quiet : s.Quiet) (file : (s.node ip).type = tFile)
    (one : s.sb.size ≤ bpb) (low : off ≤ (s.node ip).contents.length)
    (small : off + src.length ≤ maxfile * bsize) (nonempty : 0 < src.length)
    (ran : Records (Logged.filewriteLoop ip src (fuel + 1) off 0) s last sections s')
    : ∃ blocks rest, sections = blocks :: rest
      ∧ blocks.toFinset.card = s.logCost ip off (min src.length maxChunk)
      ∧ (src.length ≤ maxChunk → rest = []) := by
  obtain ⟨r, m, blocks, rest, wrote, rfl, next⟩ := filewriteLoop_records nonempty ran
  have length : ((src.drop 0).take maxChunk).length = min src.length maxChunk := by
    rw [List.drop_zero, List.length_take, Nat.min_comm]
  have plain := (Logged.writeSection_erases ..).returns_iff.mpr ⟨_, wrote⟩
  obtain ⟨_, _, ⟨_, _, outside⟩ | ⟨rfl, _⟩⟩ := writeSection_spec quiet file plain
  · omega
  · refine ⟨blocks, rest, rfl, ?_, fun short => ?_⟩
    · rw [writeSection_records quiet file one wrote, length]
    · obtain ⟨_, more⟩ := next _ rfl
      exact filewriteLoop_records_done (by omega) more

/-- The transactions of a write stay within the quota just when the whole write does. -/
theorem filewrite_quota_iff {f : InodeFile} {src : List UInt8} {result : InodeFile × Int}
    {sections : List (List Nat)} (quiet : s.Quiet) (file : (s.node f.ip).type = tFile)
    (one : s.sb.size ≤ bpb) (low : f.off ≤ (s.node f.ip).contents.length)
    (small : f.off + src.length ≤ maxfile * bsize)
    (ran : Records (Logged.filewrite f src) s result sections s')
    : (∀ blocks ∈ sections, blocks.toFinset.card ≤ maxOpBlocks)
      ↔ f.writable = false ∨ s.logCost f.ip f.off src.length ≤ maxOpBlocks := by
  rcases records_ite.mp ran with ⟨readonly, ran⟩ | ⟨writable, ran⟩
  · obtain ⟨_, rfl, _⟩ := records_pure.mp ran
    exact iff_of_true (fun _ member => nomatch member) (.inl readonly)
  rw [or_iff_right writable]
  obtain ⟨last, _, m, _, loop, returned, rfl⟩ := records_bind.mp ran
  obtain ⟨_, rfl, _⟩ := records_pure.mp returned
  rw [List.append_nil]
  cases length : src.length with
  | zero =>
      rw [length] at loop
      obtain ⟨_, rfl, _⟩ := records_pure.mp loop
      have free : s.logCost f.ip f.off 0 = 0 := by
        simp [State.logCost, spanned, State.LacksBlock, low]
      exact iff_of_true (fun _ member => nomatch member) (by rw [free]; exact Nat.zero_le _)
  | succ fuel =>
      rw [length] at loop
      obtain ⟨blocks, rest, rfl, cost, alone⟩ := filewriteLoop_first quiet file one low small
        (by omega) loop
      rw [← length]
      rcases Nat.le_total src.length maxChunk with short | long
      · obtain rfl := alone short
        rw [Nat.min_eq_left short] at cost
        simp [cost]
      · refine iff_of_false (fun within => ?_) (Nat.not_le.mpr (maxOpBlocks_lt_logCost long))
        have first := within blocks (List.mem_cons_self ..)
        rw [cost, Nat.min_eq_right long] at first
        exact absurd first (Nat.not_le.mpr (maxOpBlocks_lt_logCost (Nat.le_refl _)))

/-- A write to a new file on the large disk, with the record of its transactions. -/
theorem roomyImage_filewrite (src : List UInt8)
    : ∃ s last s' sections, run fsStep [.create 1 [97]] roomyImage = some s ∧ s.Quiet
      ∧ s.node 2 = ⟨tFile, 0, 0, 1, []⟩ ∧ s.sb.size = 160
      ∧ Records (Logged.filewriteLoop 2 src src.length 0 0) s last sections s' := by
  obtain ⟨s, created, quiet, flags, node, size, supply⟩ := roomyImage_created
  obtain ⟨last, s', ran⟩ := filewriteLoop_supplied src src.length 0 0 quiet
    (by rw [State.refs, flags]; decide) (by rw [flags]) (by rw [node]) (supply _)
  obtain ⟨sections, recorded⟩ := (Logged.filewriteLoop_erases ..).returns_iff.mp ran
  exact ⟨s, last, s', sections, created, quiet, node, size, recorded⟩

theorem Logged.filewrite_of_loop (f : InodeFile) (writable : f.writable = true)
    (ran : Records (Logged.filewriteLoop f.ip src src.length f.off 0) s last sections s')
    : ∃ result, Records (Logged.filewrite f src) s result sections s' := by
  refine ⟨_, records_ite.mpr (.inr ⟨by simp [writable], records_bind.mpr
    ⟨last, sections, s', [], ran, records_pure.mpr ⟨rfl, rfl, rfl⟩, ?_⟩⟩)⟩
  rw [List.append_nil]

/-- Three bytes of a new file are within the quota. -/
theorem filewrite_quota_iff_small
    : ∃ s result s' sections, run fsStep [.create 1 [97]] roomyImage = some s
      ∧ Records (Logged.filewrite ⟨true, 2, 0⟩ [1, 2, 3]) s result sections s'
      ∧ ∀ blocks ∈ sections, blocks.toFinset.card ≤ maxOpBlocks := by
  obtain ⟨s, last, s', sections, created, quiet, node, size, loop⟩ :=
    roomyImage_filewrite [1, 2, 3]
  obtain ⟨result, ran⟩ := Logged.filewrite_of_loop ⟨true, 2, 0⟩ rfl loop
  have cost : s.logCost 2 0 3 ≤ maxOpBlocks := by
    have one : (spanned 0 3).card = 1 := by decide
    have quota : maxOpBlocks = 10 := rfl
    unfold State.logCost
    split_ifs <;> omega
  exact ⟨s, result, s', sections, created, ran,
    (filewrite_quota_iff quiet (by rw [node]) (by rw [size]; decide) (Nat.zero_le _)
      (by decide) ran).mpr (.inr cost)⟩

/-- One chunk of thirteen blocks is beyond the quota. -/
theorem filewrite_beyond_quota
    : ∃ s result s' sections, run fsStep [.create 1 [97]] roomyImage = some s
      ∧ s.sb.size ≤ bpb ∧ (s.node 2).type = tFile
      ∧ Records (Logged.filewrite ⟨true, 2, 0⟩ (List.replicate 6656 7)) s result sections s'
      ∧ ∃ blocks ∈ sections, maxOpBlocks < blocks.toFinset.card := by
  have length : (List.replicate 6656 (7 : UInt8)).length = 6656 := List.length_replicate
  generalize List.replicate 6656 (7 : UInt8) = src at length ⊢
  obtain ⟨s, last, s', sections, created, quiet, node, size, loop⟩ := roomyImage_filewrite src
  obtain ⟨result, ran⟩ := Logged.filewrite_of_loop ⟨true, 2, 0⟩ rfl loop
  have one : s.sb.size ≤ bpb := by
    rw [size]
    decide
  have file : (s.node 2).type = tFile := by rw [node]
  rw [length] at loop
  obtain ⟨blocks, rest, rfl, cost, _⟩ := filewriteLoop_first quiet file one (Nat.zero_le _)
    (by rw [length]; decide) (by omega) loop
  refine ⟨s, result, s', _, created, one, file, ran, blocks, List.mem_cons_self .., ?_⟩
  rw [cost, length]
  exact maxOpBlocks_lt_logCost (by decide)

end Transactions

end Xv6.Fs
