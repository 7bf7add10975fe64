import Xv6.Fs.Progress
import Xv6.Fs.SharedWrite

/-! `filewrite` by one process. The bytes are written in chunks, each in a section of its own:
when all chunks succeed this cannot be told from one `writei`, and when a later one fails the
earlier ones stay.
-/

namespace Xv6.Fs

open Lib
open Function (update update_self update_idem update_eq_self)

/-- `struct file` of an inode, that is with `type` `FD_INODE`. -/
structure InodeFile where
  writable : Bool
  ip : Nat
  off : Nat

/-- The loop of `filewrite`, with `f->off` and `i`. Each pass that does not leave the loop writes
at least one byte.
-/
def filewriteLoop (ip : Nat) (src : List UInt8) : (fuel off i : Nat) → FsM (Nat × Nat)
  | 0, off, i => pure (off, i)
  | fuel + 1, off, i =>
      if i < src.length then do
        let r ← writeSection ip ((src.drop i).take maxChunk) off
        match r with
        | none => pure (off, i)
        | some r =>
            if r ≠ min (src.length - i) maxChunk then panic .shortFilewrite
            else filewriteLoop ip src fuel (off + r) (i + r)
      else pure (off, i)

/-- `filewrite` on an inode: the file afterwards and the result. -/
def filewrite (f : InodeFile) (src : List UInt8) : FsM (InodeFile × Int) := do
  if f.writable = false then pure (f, -1)
  else do
    let (off, i) ← filewriteLoop f.ip src src.length f.off 0
    pure ({ f with off }, if i = src.length then src.length else -1)

/-- The same write in one piece: one `writei` of all bytes, followed by `f->off += n`. -/
def filewriteWhole (f : InodeFile) (src : List UInt8) : FsM (InodeFile × Int) := do
  let r ← writeSection f.ip src f.off
  match r with
  | none => pure (f, -1)
  | some r => pure ({ f with off := f.off + r }, r)

section Supply

variable {s s' : State} {ip off : Nat} {chunk : List UInt8}

/-- The disk decides which slots are empty and which blocks are free. -/
theorem Filled.of_disk (ip : Nat) (disk : s'.disk = s.disk) (sb : s'.sb = s.sb)
    : Filled s s.dinode ip ∅ s' s'.dinode := by
  have table : s'.dinode = s.dinode :=
    funext fun inum => by rw [State.dinode, State.dinode, disk, sb]
  have none : ∀ slot ∈ (∅ : Finset Slot), s.held s.dinode (ip, slot) ≠ 0 := by simp
  refine (Filled.of_full none).congr (fun slot => ?_) (State.freeBlocks_congr sb fun c _ => ?_)
  · rw [table, State.held, State.held, disk, sb]
  · rw [State.bitmap, State.bitmap, disk, sb]

/-- A section fills the slots of its range. -/
theorem writeSection_filled {r : Nat} (quiet : s.Quiet) (file : (s.node ip).type = tFile)
    (ran : Returns (writeSection ip chunk off) s (some r) s')
    : Filled s s.dinode ip (touched off chunk.length) s' s'.dinode := by
  obtain ⟨_, m, locked, ran⟩ := returns_bind.mp ran
  obtain ⟨_, taken⟩ := ilock_returns quiet locked
  have loaded := ilock_loaded quiet locked
  have data : (m.node ip).type ≠ tDev := by
    rw [taken.node, file]
    decide
  obtain ⟨written, n, wrote, ran⟩ := returns_bind.mp ran
  obtain ⟨_, unlocked, rfl⟩ := returns_bind_pure.mp ran
  have released := iunlock_bookkept unlocked
  have whole := ((Filled.of_disk ip (ilock_disk locked) taken.sb).trans
    (writei_filled (taken.quiet.shows loaded) data wrote)).trans
      (Filled.of_disk ip released.disk released.sb)
  rwa [Finset.empty_union, Finset.union_empty] at whole

/-- A section returns when the lock is free and there is a free block for each slot that it has
to fill.
-/
theorem writeSection_supplied (chunk : List UInt8) (off : Nat) (quiet : s.Quiet)
    (cached : 0 < s.refs ip)
    (unlocked : (s.flags ip).locked = false) (file : (s.node ip).type = tFile)
    (enough : (s.missing s.dinode ip (touched off chunk.length)).card ≤ s.freeBlocks.card)
    : Completes (writeSection ip chunk off) s := by
  have used : (s.dinode ip).type ≠ 0 := by
    rw [← s.node_type (quiet.inside ip cached), file]
    decide
  refine (ilock_completes cached unlocked used).bind fun _ m locked => ?_
  obtain ⟨_, taken⟩ := ilock_returns quiet locked
  have loaded := ilock_loaded quiet locked
  have data : (m.node ip).type ≠ tDev := by
    rw [taken.node, file]
    decide
  have supply : (m.missing m.dinode ip (touched off chunk.length)).card ≤ m.freeBlocks.card :=
    (Filled.of_disk ip (ilock_disk locked) taken.sb).supply (by rwa [Finset.empty_union])
  refine (writei_supplied (taken.quiet.shows loaded) data supply).bind fun r n wrote => ?_
  have kept : n.flags = m.flags := by
    rcases writei_leads taken.quiet loaded data wrote with ⟨_, rfl⟩ | ⟨_, _, leads⟩
    · rfl
    · exact leads.flags
  have held : n.flags ip = ⟨(s.flags ip).ref, true, true⟩ := by
    rw [kept, taken.flags, update_self]
  have referenced : (n.icache ip).ref = (s.flags ip).ref := congrArg Flags.ref held
  exact (iunlock_completes (referenced ▸ cached) (congrArg Flags.locked held)).bind_pure

end Supply

section Loop

variable {s s' : State} {ip off i fuel : Nat} {src : List UInt8}

/-- One pass of the loop: the section fails and the loop ends, or it writes its chunk and the
loop goes on.
-/
theorem filewriteLoop_pass {last : Nat × Nat} (unfinished : i < src.length)
    (ran : Returns (filewriteLoop ip src (fuel + 1) off i) s last s')
    : ∃ r m, Returns (writeSection ip ((src.drop i).take maxChunk) off) s r m
      ∧ (r = none ∧ last = (off, i) ∧ s' = m
        ∨ r = some (min (src.length - i) maxChunk)
          ∧ Returns
              (filewriteLoop ip src fuel (off + min (src.length - i) maxChunk)
                (i + min (src.length - i) maxChunk))
              m last s') := by
  rcases returns_ite.mp ran with ⟨_, ran⟩ | ⟨finished, _⟩
  · obtain ⟨r, m, wrote, ran⟩ := returns_bind.mp ran
    refine ⟨r, m, wrote, ?_⟩
    cases r with
    | none =>
      obtain ⟨rfl, rfl⟩ := returns_pure.mp ran
      exact .inl ⟨rfl, rfl, rfl⟩
    | some r =>
      obtain ⟨whole, ran⟩ := returns_check.mp ran
      obtain rfl := of_not_not whole
      exact .inr ⟨rfl, ran⟩
  · exact absurd unfinished finished

/-- The loop ends when all bytes are written. -/
theorem filewriteLoop_done (done : src.length ≤ i)
    : Returns (filewriteLoop ip src fuel off i) s (off, i) s := by
  cases fuel with
  | zero => exact returns_pure.mpr ⟨rfl, rfl⟩
  | succ fuel =>
    rw [filewriteLoop, if_neg (Nat.not_lt.mpr done)]
    exact returns_pure.mpr ⟨rfl, rfl⟩

/-- The loop started at byte `i` of `src` and at `off` has written `k` bytes: none, or a whole
chunk at least, and it has left bytes only because the next chunk was refused.
-/
structure WrittenChunks (ip : Nat) (src : List UInt8) (off i k : Nat) (s s' : State)
    : Prop where
  bound : k ≤ src.length - i
  node
    : s'.node = update s.node ip
        { s.node ip with contents := splice (s.node ip).contents off ((src.drop i).take k) }
  first
    : 0 < k → off ≤ (s.node ip).contents.length ∧ off + k ≤ maxfile * bsize
      ∧ min (src.length - i) maxChunk ≤ k
  refused
    : k < src.length - i
      → (s'.node ip).contents.length < off + k
        ∨ maxfile * bsize < off + k + min (src.length - (i + k)) maxChunk

theorem WrittenChunks.nothing (node : s'.node = s.node)
    (refused
      : 0 < src.length - i → (s.node ip).contents.length < off
        ∨ maxfile * bsize < off + min (src.length - i) maxChunk)
    : WrittenChunks ip src off i 0 s s' where
  bound := Nat.zero_le _
  node := by
    rw [node, List.take_zero, splice_nil]
    exact (update_eq_self ..).symm
  first := fun impossible => absurd impossible (Nat.lt_irrefl 0)
  refused := by rwa [node]

/-- A chunk and what the loop writes after it. -/
theorem WrittenChunks.cons {m : State} {k : Nat} (low : off ≤ (s.node ip).contents.length)
    (fits : off + min (src.length - i) maxChunk ≤ maxfile * bsize)
    (node
      : m.node = update s.node ip
          { s.node ip with
            contents := splice (s.node ip).contents off ((src.drop i).take maxChunk) })
    (rest
      : WrittenChunks ip src (off + min (src.length - i) maxChunk)
          (i + min (src.length - i) maxChunk) k m s')
    : WrittenChunks ip src off i (min (src.length - i) maxChunk + k) s s' := by
  have chunk : (src.drop i).take maxChunk
      = (src.drop i).take (min (src.length - i) maxChunk) := by
    rw [← List.length_drop, Nat.min_comm, ← List.take_take, List.take_length]
  generalize size : min (src.length - i) maxChunk = n at *
  have bound := rest.bound
  have length : ((src.drop i).take n).length = n := by
    rw [List.length_take, List.length_drop]
    omega
  rw [chunk] at node
  refine ⟨by omega, ?_, fun _ => ⟨low, ?_, by omega⟩, fun left => ?_⟩
  · have joined := splice_append low ((src.drop i).take n) ((src.drop (i + n)).take k)
    rw [length, ← List.drop_drop, ← List.take_add] at joined
    rw [rest.node, node, update_idem, update_self, ← List.drop_drop, joined]
  · rcases Nat.eq_zero_or_pos k with rfl | more
    · exact fits
    · have := (rest.first more).2.1
      omega
  · have refused := rest.refused (by omega)
    rwa [Nat.add_assoc, Nat.add_assoc i] at refused

/-- What the loop has written when it ends. -/
theorem filewriteLoop_returns {last : Nat × Nat} (enough : src.length ≤ i + fuel)
    (quiet : s.Quiet) (file : (s.node ip).type = tFile)
    (ran : Returns (filewriteLoop ip src fuel off i) s last s')
    : ∃ k, last = (off + k, i + k) ∧ WrittenChunks ip src off i k s s' := by
  induction fuel generalizing s off i with
  | zero =>
    obtain ⟨rfl, rfl⟩ := returns_pure.mp ran
    exact ⟨0, rfl, .nothing rfl fun _ => by omega⟩
  | succ fuel ih =>
    by_cases unfinished : i < src.length
    · obtain ⟨r, m, wrote, step⟩ := filewriteLoop_pass unfinished ran
      have length : ((src.drop i).take maxChunk).length = min (src.length - i) maxChunk := by
        rw [List.length_take, List.length_drop, Nat.min_comm]
      obtain ⟨quiet', _, ⟨rfl, node, outside⟩ | ⟨rfl, low, fits, node⟩⟩ :=
        writeSection_spec quiet file wrote
      · obtain ⟨_, rfl, rfl⟩ | ⟨impossible, _⟩ := step
        · exact ⟨0, rfl, .nothing node fun _ => by rwa [length] at outside⟩
        · cases impossible
      · obtain ⟨impossible, _⟩ | ⟨_, ran⟩ := step
        · cases impossible
        have positive : 0 < maxChunk := by decide
        obtain ⟨k, rfl, rest⟩ := ih (by omega) quiet'
          (by rw [node, update_self]; exact file) ran
        rw [length] at fits
        exact ⟨_, by rw [Nat.add_assoc, Nat.add_assoc], rest.cons low fits node⟩
    · obtain ⟨rfl, rfl⟩ := ran.unique (filewriteLoop_done (Nat.le_of_not_lt unfinished))
      exact ⟨0, rfl, .nothing rfl fun _ => by omega⟩

/-- The loop returns when the lock is free and there is a free block for each slot that it has to
fill.
-/
theorem filewriteLoop_supplied (src : List UInt8) (fuel off i : Nat) (quiet : s.Quiet)
    (cached : 0 < s.refs ip)
    (unlocked : (s.flags ip).locked = false) (file : (s.node ip).type = tFile)
    (supply
      : (s.missing s.dinode ip (touched off (src.length - i))).card ≤ s.freeBlocks.card)
    : Completes (filewriteLoop ip src fuel off i) s := by
  induction fuel generalizing s off i with
  | zero => exact completes_pure ..
  | succ fuel ih =>
    refine .ite (fun unfinished => ?_) fun _ => completes_pure ..
    have length : ((src.drop i).take maxChunk).length = min (src.length - i) maxChunk := by
      rw [List.length_take, List.length_drop, Nat.min_comm]
    generalize size : min (src.length - i) maxChunk = n at *
    have split : touched off (src.length - i)
        = touched off n ∪ touched (off + n) (src.length - (i + n)) := by
      rw [← touched_add, show n + (src.length - (i + n)) = src.length - i by omega]
    rw [split] at supply
    have first := (s.card_missing_le_union ..).trans supply
    rw [← length] at first
    refine (writeSection_supplied _ _ quiet cached unlocked file first).bind fun r m wrote => ?_
    obtain ⟨quiet', flags, ⟨rfl, _⟩ | ⟨rfl, _, _, node⟩⟩ := writeSection_spec quiet file wrote
    · exact completes_pure ..
    · have here : m.flags ip = ⟨(s.flags ip).ref, false, true⟩ := by
        rw [flags, update_self]
      have filled := writeSection_filled quiet file wrote
      rw [length] at filled ⊢
      refine .ite (fun short => absurd rfl short) fun _ => ?_
      exact ih _ _ quiet' (by rw [State.refs, here]; exact cached) (by rw [here])
        (by rw [node, update_self]; exact file) (filled.supply supply)

end Loop

/-- An image with an empty root on a disk of 160 blocks. -/
def roomyImage : State :=
  boot
    (update (tinyDisk 4 (.blank 0) rootEntries) 1
      (Bytes.setWords (fun _ => 0) 0 [160, 156, 4, 0, 2, 2, 3])) fun _ => none

theorem roomyImage_wellFormed : roomyImage.WellFormed := by
  have one : roomyImage.OneBlock 1 4 := by
    constructor
    · constructor <;> decide +kernel
    · rfl
    all_goals decide +kernel
  exact one.wellFormed (by decide +kernel) (by decide +kernel)

/-- A new file on the large disk has room to grow to its largest size. -/
theorem roomyImage_created
    : ∃ s, run fsStep [.create 1 [97]] roomyImage = some s ∧ s.Quiet
      ∧ s.flags 2 = ⟨1, false, true⟩ ∧ s.node 2 = ⟨tFile, 0, 0, 1, []⟩ ∧ s.sb.size = 160
      ∧ ∀ slots, (s.missing s.dinode 2 slots).card ≤ s.freeBlocks.card := by
  obtain ⟨s, created, flags, node, size, free⟩ :
      ∃ s, run fsStep [.create 1 [97]] roomyImage = some s ∧ s.flags 2 = ⟨1, false, true⟩
        ∧ s.node 2 = ⟨tFile, 0, 0, 1, []⟩ ∧ s.sb.size = 160 ∧ s.freeBlocks.card = 155 := by
    decide +kernel
  refine ⟨s, created, (run_wf (boot_wf roomyImage_wellFormed) created).quiet, flags, node, size,
    fun slots => ?_⟩
  have all : Fintype.card Slot = 141 := rfl
  have most := Finset.card_le_univ (s.missing s.dinode 2 slots)
  omega

section Calls

variable {s s' : State} {f f' : InodeFile} {src : List UInt8}

theorem filewrite_of_loop (f : InodeFile) {off i : Nat} (writable : f.writable = true)
    (ran : Returns (filewriteLoop f.ip src src.length f.off 0) s (off, i) s')
    : Returns (filewrite f src) s
        ({ f with off }, if i = src.length then src.length else -1) s' :=
  returns_ite.mpr (.inr ⟨by simp [writable],
    returns_bind.mpr ⟨_, s', ran, returns_pure.mpr ⟨rfl, rfl⟩⟩⟩)

/-- The pieces of a write cannot be told from one write of all bytes. -/
theorem filewrite_unsplit (f : InodeFile) (src : List UInt8) (quiet : s.Quiet)
    (cached : 0 < s.refs f.ip)
    (unlocked : (s.flags f.ip).locked = false) (writable : f.writable = true)
    (file : (s.node f.ip).type = tFile) (low : f.off ≤ (s.node f.ip).contents.length)
    (small : f.off + src.length ≤ maxfile * bsize)
    (supply : (s.missing s.dinode f.ip (touched f.off src.length)).card ≤ s.freeBlocks.card)
    : ∃ split whole,
        Returns (filewrite f src) s ({ f with off := f.off + src.length }, src.length) split
        ∧ Returns (filewriteWhole f src) s ({ f with off := f.off + src.length }, src.length)
            whole
        ∧ split.node = whole.node := by
  obtain ⟨last, split, ran⟩ := filewriteLoop_supplied src src.length f.off 0 quiet cached
    unlocked file supply
  obtain ⟨k, rfl, written⟩ := filewriteLoop_returns (Nat.le_of_eq (Nat.zero_add _).symm) quiet
    file ran
  obtain ⟨r, whole, wrote⟩ := writeSection_supplied _ _ quiet cached unlocked file supply
  obtain ⟨_, _, ⟨_, _, outside⟩ | ⟨rfl, _, _, node⟩⟩ := writeSection_spec quiet file wrote
  · omega
  have bound := written.bound
  -- no chunk is refused, because the file always reaches up to the offset
  have all : k = src.length := by
    by_contra left
    have refused := written.refused (by omega)
    have length : (split.node f.ip).contents.length
        = max (s.node f.ip).contents.length (f.off + k) := by
      rw [written.node, update_self, length_splice low, List.drop_zero,
        List.length_take_of_le (by omega)]
    omega
  subst all
  refine ⟨split, whole, ?_, ?_, ?_⟩
  · have returned := filewrite_of_loop f writable ran
    rwa [Nat.zero_add, if_pos rfl] at returned
  · exact returns_bind.mpr ⟨_, whole, wrote, returns_pure.mpr ⟨rfl, rfl⟩⟩
  · rw [written.node, node, List.drop_zero, List.take_length]

/-- A new file is written in two chunks. -/
theorem filewrite_unsplit_twoChunks
    : ∃ s split whole, run fsStep [.create 1 [97]] roomyImage = some s
      ∧ Returns (filewrite ⟨true, 2, 0⟩ (List.replicate 7000 7)) s (⟨true, 2, 7000⟩, 7000) split
      ∧ Returns (filewriteWhole ⟨true, 2, 0⟩ (List.replicate 7000 7)) s
          (⟨true, 2, 7000⟩, 7000) whole
      ∧ split.node = whole.node := by
  obtain ⟨s, created, quiet, flags, node, _, supply⟩ := roomyImage_created
  have length : (List.replicate 7000 (7 : UInt8)).length = 7000 := List.length_replicate
  obtain ⟨split, whole, first, second, same⟩ :=
    filewrite_unsplit ⟨true, 2, 0⟩ (List.replicate 7000 7) quiet
      (by rw [State.refs, flags]; decide) (by rw [flags]) rfl (by rw [node]) (Nat.zero_le _)
      (by rw [length]; decide) (supply _)
  rw [length] at first second
  exact ⟨s, split, whole, created, first, second, same⟩

/-- A write that returns `-1` left its loop early. -/
theorem filewrite_failed (quiet : s.Quiet) (file : (s.node f.ip).type = tFile)
    (failed : Returns (filewrite f src) s (f', -1) s')
    : f.writable = false ∧ f' = f ∧ s' = s
      ∨ f.writable = true ∧ ∃ k, k < src.length ∧ f'.off = f.off + k
        ∧ WrittenChunks f.ip src f.off 0 k s s' := by
  rcases returns_ite.mp failed with ⟨readonly, ran⟩ | ⟨writable, ran⟩
  · obtain ⟨result, rfl⟩ := returns_pure.mp ran
    exact .inl ⟨readonly, (Prod.mk.inj result).1.symm, rfl⟩
  obtain ⟨⟨off, i⟩, m, loop, ran⟩ := returns_bind.mp ran
  obtain ⟨result, rfl⟩ := returns_pure.mp ran
  obtain ⟨rfl, short⟩ := Prod.mk.inj result
  obtain ⟨k, last, written⟩ := filewriteLoop_returns (Nat.le_of_eq (Nat.zero_add _).symm) quiet
    file loop
  obtain ⟨rfl, rfl⟩ := Prod.mk.inj last
  have bound := written.bound
  refine .inr ⟨by simpa using writable, k, ?_, rfl, written⟩
  by_contra complete
  rw [if_pos (by omega)] at short
  omega

/-- A write that returns `-1` changed nothing just when its first chunk was already refused. -/
theorem filewrite_failed_iff (quiet : s.Quiet) (file : (s.node f.ip).type = tFile)
    (failed : Returns (filewrite f src) s (f', -1) s')
    : (s'.node f.ip).contents = (s.node f.ip).contents ∧ f'.off = f.off
      ↔ f.writable = false ∨ (s.node f.ip).contents.length < f.off
        ∨ maxfile * bsize < f.off + maxChunk := by
  obtain ⟨readonly, rfl, rfl⟩ | ⟨writable, k, left, off, written⟩ :=
    filewrite_failed quiet file failed
  · exact iff_of_true ⟨rfl, rfl⟩ (.inl readonly)
  rcases Nat.eq_zero_or_pos k with rfl | moved
  · have node : s'.node f.ip = s.node f.ip := by
      rw [written.node, List.take_zero, splice_nil, update_self]
    refine iff_of_true ⟨by rw [node], off⟩ (.inr ?_)
    have refused := written.refused (by omega)
    rw [node] at refused
    omega
  · obtain ⟨low, fits, first⟩ := written.first moved
    refine iff_of_false (fun unchanged => ?_) ?_
    · have same := unchanged.2
      omega
    · rintro (readonly | high | large)
      · exact nomatch writable.symm.trans readonly
      · omega
      · omega

/-- A write beyond the end of a new file fails and changes nothing. -/
theorem filewrite_failed_iff_beyond
    : ∃ s s', run fsStep [.create 1 [97]] roomyImage = some s
      ∧ Returns (filewrite ⟨true, 2, 5⟩ [1]) s (⟨true, 2, 5⟩, -1) s'
      ∧ (s'.node 2).contents = (s.node 2).contents := by
  obtain ⟨s, created, quiet, flags, node, _, supply⟩ := roomyImage_created
  have file : (s.node 2).type = tFile := by rw [node]
  obtain ⟨r, s', wrote⟩ := writeSection_supplied [1] 5 quiet
    (by rw [State.refs, flags]; decide) (by rw [flags]) file (supply _)
  obtain ⟨_, _, ⟨rfl, _⟩ | ⟨_, low, _⟩⟩ := writeSection_spec quiet file wrote
  · have refused : Returns (filewriteLoop 2 [1] 1 5 0) s (5, 0) s' :=
      returns_bind.mpr ⟨none, s', wrote, returns_pure.mpr ⟨rfl, rfl⟩⟩
    have failed : Returns (filewrite ⟨true, 2, 5⟩ [1]) s (⟨true, 2, 5⟩, -1) s' :=
      filewrite_of_loop ⟨true, 2, 5⟩ rfl refused
    have outside : (s.node 2).contents.length < 5 := by
      rw [node]
      decide
    exact ⟨s, s', created, failed,
      ((filewrite_failed_iff quiet file failed).mpr (.inr (.inl outside))).1⟩
  · rw [node] at low
    cases low

/-- Ten chunks of a new file are written before the eleventh is refused. -/
theorem filewrite_failed_partial
    : ∃ s s' f', run fsStep [.create 1 [97]] roomyImage = some s
      ∧ Returns (filewrite ⟨true, 2, 0⟩ (List.replicate 71681 7)) s (f', -1) s'
      ∧ (s'.node 2).contents ≠ (s.node 2).contents ∧ f'.off ≠ 0 := by
  obtain ⟨s, created, quiet, flags, node, _, supply⟩ := roomyImage_created
  have file : (s.node 2).type = tFile := by rw [node]
  have length : (List.replicate 71681 (7 : UInt8)).length = 71681 := List.length_replicate
  generalize List.replicate 71681 (7 : UInt8) = src at length ⊢
  obtain ⟨last, s', ran⟩ := filewriteLoop_supplied src src.length 0 0 quiet
    (by rw [State.refs, flags]; decide) (by rw [flags]) file (supply _)
  obtain ⟨k, rfl, written⟩ := filewriteLoop_returns (Nat.le_of_eq (Nat.zero_add _).symm) quiet
    file ran
  have largest : maxfile * bsize = 71680 := rfl
  have chunk : maxChunk = 6656 := rfl
  have moved : 0 < k := by
    by_contra still
    obtain rfl : k = 0 := by omega
    have refused := written.refused (by rw [length]; decide)
    rw [length] at refused
    omega
  have fits := (written.first moved).2.1
  refine ⟨s, s', ⟨true, 2, 0 + k⟩, created, ?_, ?_, by simp only; omega⟩
  · have returned := filewrite_of_loop ⟨true, 2, 0⟩ rfl ran
    rwa [if_neg (by omega)] at returned
  · rw [written.node, update_self, node]
    intro same
    have empty := congrArg List.length same
    rw [length_splice (Nat.zero_le _), List.drop_zero, List.length_take_of_le (by omega)] at empty
    simp only [List.length_nil] at empty
    omega

end Calls

end Xv6.Fs
