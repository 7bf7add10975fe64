import Xv6.Logging.Model

/-! Crash atomicity of `commit` and of interrupted recoveries.
A disk is clear, or holds a committed transaction whose home blocks may be half installed;
every crash point of commit and of recovery leaves one of these shapes.
-/

namespace Xv6.Logging

open Xv6.Lib
open Function (update update_self update_of_ne)

variable {hb : Block} {i b inner cut : Nat} {log : Log} {target disk before contents : Nat → Block}

theorem LogHeader.encodeLoop_word {lh : LogHeader} (slots : List Nat) {off : Nat}
    (outside : ∀ i ∈ slots, off + 4 ≤ 4 + 4 * i ∨ 4 + 4 * i + 4 ≤ off)
    : (slots.foldl (fun buf i => buf.setWord (4 + 4 * i) (lh.block i)) hb).word off
      = hb.word off := by
  induction slots generalizing hb with
  | nil => rfl
  | cons slot rest ih =>
    rw [List.foldl_cons, ih (fun i member => outside i (List.mem_cons_of_mem _ member))]
    exact Bytes.word_setWord_disjoint (outside slot List.mem_cons_self)

/-- The header block written by `write_head` holds the in-memory count. -/
theorem LogHeader.headerCount_encode (lh : LogHeader) (hb : Block)
    (fits : lh.n ≤ logSize)
    : headerCount (lh.encode hb) = lh.n := by
  have first : (lh.encode hb).word 0 = UInt32.ofNat lh.n := by
    rw [LogHeader.encode, LogHeader.encodeLoop_word _ (fun i _ => by omega)]
    exact Bytes.word_setWord_same _ _ _
  have small : lh.n < 2 ^ 31 := by
    simp only [logSize, maxOpBlocks] at fits
    omega
  have signed : (UInt32.ofNat lh.n).toInt32 = Int32.ofNat lh.n := by simp
  rw [headerCount, first, signed, Int32.toInt_ofNat_of_lt small, Int.toNat_natCast]

theorem LogHeader.headerBlock_encode (lh : LogHeader) (hb : Block) (inRange : i < lh.n)
    : headerBlock (lh.encode hb) i = lh.block i := by
  have loop (count : Nat) (below : i < count)
      : ((List.range count).foldl
          (fun buf j => buf.setWord (4 + 4 * j) (lh.block j))
          (hb.setWord 0 (UInt32.ofNat lh.n))).word (4 + 4 * i) = lh.block i := by
    induction count with
    | zero => omega
    | succ count ih =>
      rw [List.range_succ, List.foldl_append, List.foldl_cons, List.foldl_nil]
      by_cases last : i = count
      · subst last
        exact Bytes.word_setWord_same _ _ _
      · rw [Bytes.word_setWord_disjoint (by omega)]
        exact ih (by omega)
  exact loop lh.n inRange

theorem Log.headerCount_cleared (log : Log) (hb : Block)
    : headerCount (log.cleared.lh.encode hb) = 0 :=
  LogHeader.headerCount_encode _ _ (Nat.zero_le _)

/-- A transaction that the log can hold: its blocks are distinct and lie outside the log. -/
structure Log.Fits (log : Log) : Prop where
  room : log.lh.n + 1 ≤ log.size
  bound : log.lh.n ≤ logSize
  distinct : log.lh.blocks.Nodup
  outside : ∀ b ∈ log.lh.blocks, ¬log.InArea b

/-- No transaction is recorded, and the blocks outside the log are those of `target`. -/
structure Cleared (log : Log) (target disk : Nat → Block) : Prop where
  header : headerCount (disk log.start) = 0
  home : ∀ b, ¬log.InArea b → disk b = target b

/-- The transaction is recorded in the log; each of its home blocks may be installed. -/
structure Committed (log : Log) (before contents disk : Nat → Block) : Prop where
  count : headerCount (disk log.start) = log.lh.n
  names : ∀ i < log.lh.n, headerBlock (disk log.start) i = log.lh.block i
  copies : ∀ i < log.lh.n, disk (log.start + i + 1) = contents (log.lh.home i)
  home
    : ∀ b, ¬log.InArea b →
        disk b = before b ∨ b ∈ log.lh.blocks ∧ disk b = contents b
  rest : ∀ b, ¬log.InArea b → b ∉ log.lh.blocks → disk b = before b

def homeWrites (log : Log) (contents : Nat → Block) : List (Nat × Block) :=
  (List.range log.lh.n).map (fun i => (log.lh.home i, contents (log.lh.home i)))

/-- The blocks outside the log after the whole transaction. -/
def installed (log : Log) (before contents : Nat → Block) (b : Nat) : Block :=
  if b ∈ log.lh.blocks then contents b else before b

theorem LogHeader.home_mem (lh : LogHeader) (inRange : i < lh.n)
    : lh.home i ∈ lh.blocks :=
  List.mem_map.mpr ⟨i, List.mem_range.mpr inRange, rfl⟩

theorem Log.Fits.start_inArea (fits : log.Fits) : log.InArea log.start := by
  have room := fits.room
  exact ⟨Nat.le_refl _, by omega⟩

theorem Log.Fits.slot_inArea (fits : log.Fits) (inRange : i < log.lh.n)
    : log.InArea (log.start + i + 1) := by
  have room := fits.room
  exact ⟨by omega, by omega⟩

theorem Log.ne_of_inArea (outer : ¬log.InArea b) (inside : log.InArea inner)
    : b ≠ inner :=
  fun same => outer (same ▸ inside)

theorem Log.Fits.home_ne (fits : log.Fits) (inRange : i < log.lh.n) (inside : log.InArea inner)
    : log.lh.home i ≠ inner :=
  Log.ne_of_inArea (fits.outside _ (log.lh.home_mem inRange)) inside

/-! Recovery from each shape. -/

theorem Cleared.of_erased (area : log.InArea log.start)
    (home : ∀ b, ¬log.InArea b → disk b = target b)
    : Cleared log target (update disk log.start (log.cleared.lh.encode hb)) := by
  constructor
  · rw [update_self]
    exact log.headerCount_cleared hb
  · intro b outer
    rw [update_of_ne (Log.ne_of_inArea outer area)]
    exact home b outer

theorem Cleared.recovery (clear : Cleared log target disk)
    : ∃ hb, recoverFromLog log (.boot disk)
        = (Device.boot disk).bwrite log.start (log.cleared.lh.encode hb) := by
  have none : headerCount ((Device.boot disk).bread log.start) = 0 := clear.header
  refine ⟨disk log.start, ?_⟩
  simp only [recoverFromLog, readHead, installTrans, none, List.range_zero, List.foldl_nil,
    writeHead]
  rfl

/-- Recovery of a committed transaction installs it and erases the header.
Witness: the header read back is the transaction's, and no source is overwritten.
-/
theorem Committed.recovery (fits : log.Fits) (shape : Committed log before contents disk)
    : ∃ hb, recoverFromLog log (.boot disk)
        = ((Device.boot disk).bwriteAll (homeWrites log contents)).bwrite log.start
            (log.cleared.lh.encode hb) := by
  have count : headerCount ((Device.boot disk).bread log.start) = log.lh.n := shape.count
  have names {i : Nat} (inRange : i < log.lh.n)
      : (readHead log (.boot disk)).lh.home i = log.lh.home i := by
    have name := shape.names i inRange
    simp only [readHead, LogHeader.home, count, inRange, if_true]
    exact congrArg UInt32.toNat name
  have install : installTrans (readHead log (.boot disk)) (.boot disk)
      = (Device.boot disk).bwriteAll (homeWrites log contents) := by
    have size : (readHead log (.boot disk)).lh.n = log.lh.n := count
    rw [installTrans, Device.copyLoop_eq, size]
    · apply congrArg
      apply List.map_congr_left
      intro i member
      have inRange := List.mem_range.mp member
      rw [names inRange]
      exact congrArg _ (shape.copies i inRange)
    · rw [size]
      intro i first j second
      have inRange := List.mem_range.mp second
      rw [names (List.mem_range.mp first)]
      exact fits.home_ne (List.mem_range.mp first) (fits.slot_inArea inRange)
  refine ⟨((Device.boot disk).bwriteAll (homeWrites log contents)).bread log.start, ?_⟩
  simp only [recoverFromLog, install, writeHead]
  rfl

theorem Committed.install (fits : log.Fits) (write : Nat × Block)
    (member : write ∈ homeWrites log contents) (disk : Nat → Block)
    (shape : Committed log before contents disk)
    : Committed log before contents (update disk write.1 write.2) := by
  obtain ⟨i, inList, rfl⟩ := List.mem_map.mp member
  have inRange := List.mem_range.mp inList
  have header : update disk (log.lh.home i) (contents (log.lh.home i)) log.start
      = disk log.start :=
    update_of_ne (fits.home_ne inRange fits.start_inArea).symm _ _
  refine {
    count := by rw [header]; exact shape.count
    names := fun j below => by rw [header]; exact shape.names j below
    copies := ?_
    home := ?_
    rest := ?_
  }
  · intro j below
    rw [update_of_ne (fits.home_ne inRange (fits.slot_inArea below)).symm]
    exact shape.copies j below
  · intro b outer
    by_cases same : b = log.lh.home i
    · subst same
      exact Or.inr ⟨log.lh.home_mem inRange, update_self _ _ _⟩
    · rw [update_of_ne same]
      exact shape.home b outer
  · intro b outer absent
    have ne : b ≠ log.lh.home i := fun same => absent (same ▸ log.lh.home_mem inRange)
    rw [update_of_ne ne]
    exact shape.rest b outer absent

/-- Once every home block is written, the blocks outside the log are the overlay. -/
theorem Committed.allInstalled (fits : log.Fits) (shape : Committed log before contents disk)
    (outer : ¬log.InArea b)
    : applyWrites (homeWrites log contents) disk b = installed log before contents b := by
  have addresses : (homeWrites log contents).map Prod.fst = log.lh.blocks := by
    simp [homeWrites, LogHeader.blocks, List.map_map, Function.comp_def]
  by_cases logged : b ∈ log.lh.blocks
  · rw [installed, if_pos logged]
    apply applyWrites_written _ _ (by rw [addresses]; exact fits.distinct)
    obtain ⟨i, inRange, rfl⟩ := List.mem_map.mp logged
    exact List.mem_map.mpr ⟨i, inRange, rfl⟩
  · rw [installed, if_neg logged, applyWrites_untouched]
    · exact shape.rest b outer logged
    · intro write member same
      exact logged (addresses ▸ same ▸ List.mem_map_of_mem member)

/-- The transaction is durable: it is in the log, or installed with the log clear. -/
def Durable (log : Log) (before contents disk : Nat → Block) : Prop :=
  Committed log before contents disk ∨ Cleared log (installed log before contents) disk

theorem Committed.erase (fits : log.Fits) (shape : Committed log before contents disk) (hb : Block)
    : Cleared log (installed log before contents)
        (update (applyWrites (homeWrites log contents) disk) log.start
          (log.cleared.lh.encode hb)) :=
  Cleared.of_erased fits.start_inArea (fun _ outer => shape.allInstalled fits outer)

/-- Installing and erasing is durable at every cut.
Witness: each home write keeps the committed shape and the header write is atomic.
-/
theorem Committed.cuts (fits : log.Fits) (shape : Committed log before contents disk) (hb : Block)
    : CutsSatisfy (Durable log before contents)
        (homeWrites log contents ++ [(log.start, log.cleared.lh.encode hb)]) disk := by
  obtain ⟨during, done⟩ := CutsSatisfy.of_preserved shape (fun write member current holds =>
    Committed.install fits write member current holds)
  apply CutsSatisfy.append
  · exact fun cut => Or.inl (during cut)
  · exact CutsSatisfy.singleton (Or.inl done) (Or.inr (shape.erase fits hb))

theorem Cleared.crashedRecovery (area : log.InArea log.start) (clear : Cleared log target disk)
    (cut : Nat)
    : Cleared log target (crashedRecovery log disk cut) := by
  obtain ⟨hb, run⟩ := clear.recovery
  rw [Logging.crashedRecovery, run]
  exact CutsSatisfy.singleton clear (Cleared.of_erased area clear.home) cut

theorem Cleared.recovered (area : log.InArea log.start) (clear : Cleared log target disk)
    : Cleared log target (recovered log disk) := by
  obtain ⟨hb, run⟩ := clear.recovery
  rw [Logging.recovered, run]
  exact Cleared.of_erased area clear.home

/-- A crash during recovery leaves a durable transaction durable. -/
theorem Durable.crashedRecovery (fits : log.Fits) (durable : Durable log before contents disk)
    (cut : Nat)
    : Durable log before contents (crashedRecovery log disk cut) := by
  rcases durable with shape | clear
  · obtain ⟨hb, run⟩ := shape.recovery fits
    have record := (Device.bwriteAll_spec (.boot disk) (homeWrites log contents)).2.2
    have cuts := shape.cuts fits hb cut
    rw [Logging.crashedRecovery, run, Device.bwrite, record]
    exact cuts
  · exact Or.inr (clear.crashedRecovery fits.start_inArea cut)

theorem Durable.recovered (fits : log.Fits) (durable : Durable log before contents disk)
    : Cleared log (installed log before contents) (recovered log disk) := by
  rcases durable with shape | clear
  · obtain ⟨hb, run⟩ := shape.recovery fits
    have written := (Device.bwriteAll_spec (.boot disk) (homeWrites log contents)).1
    rw [Logging.recovered, run, Device.bwrite, written]
    exact shape.erase fits hb
  · exact clear.recovered fits.start_inArea

/-! Every crash point of commit. -/

def logWrites (log : Log) (contents : Nat → Block) : List (Nat × Block) :=
  (List.range log.lh.n).map (fun i => (log.start + i + 1, contents (log.lh.home i)))

@[simp] theorem length_logWrites (log : Log) (contents : Nat → Block)
    : (logWrites log contents).length = log.lh.n := by
  simp [logWrites]

theorem writeLog_eq (fits : log.Fits) (dev : Device)
    : writeLog log dev = dev.bwriteAll (logWrites log dev.bread) := by
  apply Device.copyLoop_eq
  intro i first j second
  have slot := fits.slot_inArea (List.mem_range.mp first)
  exact (fits.home_ne (List.mem_range.mp second) slot).symm

theorem applyWrites_logWrites (log : Log) (contents store : Nat → Block) (inRange : i < log.lh.n)
    : applyWrites (logWrites log contents) store (log.start + i + 1)
      = contents (log.lh.home i) := by
  apply applyWrites_written
  · rw [logWrites, List.map_map]
    apply List.Nodup.map _ List.nodup_range
    intro i j same
    simp only [Function.comp_apply] at same
    omega
  · exact List.mem_map.mpr ⟨i, List.mem_range.mpr inRange, rfl⟩

/-- `install_trans` inside `commit` installs the cached blocks.
Witness: the log slots it reads were filled by `write_log` and not touched since.
-/
theorem installTrans_eq (fits : log.Fits) (contents : Nat → Block) (dev : Device)
    (copies : ∀ i < log.lh.n, dev.bread (log.start + i + 1) = contents (log.lh.home i))
    : installTrans log dev = dev.bwriteAll (homeWrites log contents) := by
  rw [installTrans, Device.copyLoop_eq]
  · apply congrArg
    apply List.map_congr_left
    intro i member
    exact congrArg _ (copies i (List.mem_range.mp member))
  · intro i first j second
    exact fits.home_ne (List.mem_range.mp first) (fits.slot_inArea (List.mem_range.mp second))

theorem writes_writeHead (log : Log) (dev : Device)
    : (writeHead log dev).writes
      = dev.writes ++ [(log.start, log.lh.encode (dev.bread log.start))] := rfl

theorem commitWrites_eq (fits : log.Fits) (dev : Device) (nonempty : 0 < log.lh.n)
    : ∃ first last, commitWrites log dev
        = logWrites log dev.bread
          ++ ([(log.start, log.lh.encode first)]
            ++ (homeWrites log dev.bread ++ [(log.start, log.cleared.lh.encode last)])) := by
  let logged := writeLog log { dev with writes := [] }
  have loggedEq : logged = Device.bwriteAll { dev with writes := [] } (logWrites log dev.bread) :=
    writeLog_eq fits _
  obtain ⟨_, view, record⟩ :=
    Device.bwriteAll_spec { dev with writes := [] } (logWrites log dev.bread)
  rw [← loggedEq] at view record
  have install := installTrans_eq fits dev.bread (writeHead log logged) (by
    intro i inRange
    have ne : log.start + i + 1 ≠ log.start := by omega
    rw [writeHead, Device.bread_bwrite, update_of_ne ne, view]
    exact applyWrites_logWrites log dev.bread _ inRange)
  refine ⟨logged.bread log.start, (installTrans log (writeHead log logged)).bread log.start, ?_⟩
  have installRecord := (Device.bwriteAll_spec (writeHead log logged)
    (homeWrites log dev.bread)).2.2
  rw [← install] at installRecord
  have run : commit log { dev with writes := [] }
      = writeHead log.cleared (installTrans log (writeHead log logged)) := if_pos nonempty
  rw [commitWrites, run, writes_writeHead, installRecord, writes_writeHead, record]
  simp only [List.nil_append, List.append_assoc]
  rfl

/-- Until the header is written, the home blocks and the clear header are untouched. -/
theorem Cleared.logWrites (fits : log.Fits) (contents : Nat → Block)
    (clear : headerCount (disk log.start) = 0)
    : CutsSatisfy (Cleared log disk) (logWrites log contents) disk
      ∧ Cleared log disk (applyWrites (logWrites log contents) disk) := by
  apply CutsSatisfy.of_preserved ⟨clear, fun _ _ => rfl⟩
  intro write member current holds
  obtain ⟨i, inList, rfl⟩ := List.mem_map.mp member
  have slot := fits.slot_inArea (List.mem_range.mp inList)
  constructor
  · have ne : log.start ≠ log.start + i + 1 := by omega
    rw [update_of_ne ne]
    exact holds.header
  · intro b outer
    rw [update_of_ne (Log.ne_of_inArea outer slot)]
    exact holds.home b outer

theorem Committed.of_header (fits : log.Fits) (contents : Nat → Block) (hb : Block)
    : Committed log disk contents
        (update (applyWrites (Logging.logWrites log contents) disk) log.start
          (log.lh.encode hb)) := by
  have untouched {b : Nat} (outer : ¬log.InArea b)
      : applyWrites (Logging.logWrites log contents) disk b = disk b := by
    apply applyWrites_untouched
    intro write member
    obtain ⟨i, inList, rfl⟩ := List.mem_map.mp member
    have slot := fits.slot_inArea (List.mem_range.mp inList)
    exact (Log.ne_of_inArea outer slot).symm
  have home (b : Nat) (outer : ¬log.InArea b)
      : update (applyWrites (Logging.logWrites log contents) disk) log.start
          (log.lh.encode hb) b = disk b := by
    rw [update_of_ne (Log.ne_of_inArea outer fits.start_inArea)]
    exact untouched outer
  refine {
    count := by rw [update_self]; exact log.lh.headerCount_encode hb fits.bound
    names := fun i inRange => by
      rw [update_self]
      exact log.lh.headerBlock_encode hb inRange
    copies := ?_
    home := fun b outer => Or.inl (home b outer)
    rest := fun b outer _ => home b outer
  }
  intro i inRange
  have ne : log.start + i + 1 ≠ log.start := by omega
  rw [update_of_ne ne]
  exact applyWrites_logWrites log contents disk inRange

theorem crashedCommit_early (fits : log.Fits) (dev : Device)
    (clear : headerCount (dev.disk log.start) = 0) (early : cut ≤ log.lh.n)
    : Cleared log dev.disk (crashedCommit cut log dev) := by
  by_cases nonempty : 0 < log.lh.n
  · obtain ⟨first, last, writes⟩ := commitWrites_eq fits dev nonempty
    rw [crashedCommit, writes, crashAt_append]
    have none : cut - (logWrites log dev.bread).length = 0 := by
      rw [length_logWrites]
      omega
    rw [none]
    exact (Cleared.logWrites fits dev.bread clear).1 cut
  · have idle : commitWrites log dev = [] := by
      rw [commitWrites, commit, if_neg nonempty]
    rw [crashedCommit, idle, crashAt, List.take_nil]
    exact ⟨clear, fun _ _ => rfl⟩

/-- A crash behind the first header write leaves a durable transaction. -/
theorem crashedCommit_late (fits : log.Fits) (dev : Device)
    (clear : headerCount (dev.disk log.start) = 0) (late : log.lh.n < cut)
    : Durable log dev.disk dev.bread (crashedCommit cut log dev) := by
  by_cases nonempty : 0 < log.lh.n
  · obtain ⟨first, last, writes⟩ := commitWrites_eq fits dev nonempty
    have filled : crashAt cut (logWrites log dev.bread) dev.disk
        = applyWrites (logWrites log dev.bread) dev.disk := by
      rw [crashAt, List.take_of_length_le (by rw [length_logWrites]; omega)]
    obtain ⟨more, more_eq⟩ : ∃ more, cut - (logWrites log dev.bread).length = more + 1 :=
      ⟨cut - log.lh.n - 1, by rw [length_logWrites]; omega⟩
    rw [crashedCommit, writes, crashAt_append, filled, more_eq, crashAt_append,
      crashAt_singleton_succ]
    exact (Committed.of_header fits dev.bread first).cuts fits last _
  · have idle : commitWrites log dev = [] := by
      rw [commitWrites, commit, if_neg nonempty]
    rw [crashedCommit, idle, crashAt, List.take_nil]
    refine Or.inr ⟨clear, fun b _ => ?_⟩
    have empty : log.lh.n = 0 := by omega
    simp [installed, LogHeader.blocks, empty]

theorem Cleared.crashedRecoveries (area : log.InArea log.start) (clear : Cleared log target disk)
    (cuts : List Nat)
    : Cleared log target (cuts.foldl (Logging.crashedRecovery log) disk) := by
  induction cuts generalizing disk with
  | nil => exact clear
  | cons cut rest ih => exact ih (clear.crashedRecovery area cut)

theorem Durable.crashedRecoveries (fits : log.Fits) (durable : Durable log before contents disk)
    (cuts : List Nat)
    : Durable log before contents (cuts.foldl (Logging.crashedRecovery log) disk) := by
  induction cuts generalizing disk with
  | nil => exact durable
  | cons cut rest ih => exact ih (durable.crashedRecovery fits cut)

def Log.SameOutside (log : Log) (disk target : Nat → Block) : Prop :=
  ∀ b, ¬log.InArea b → disk b = target b

/-- The first completed recovery after a cut `commit` leaves all home blocks old or all of
them new, and new as soon as the first header write was let through.
-/
def CrashAtomic (log : Log) (dev : Device) (cut : Nat) (cuts : List Nat) : Prop :=
  let final := recoveredAfter log cuts (crashedCommit cut log dev)
  (log.SameOutside final dev.disk ∨ log.SameOutside final (overlay log dev))
  ∧ (log.lh.n < cut → log.SameOutside final (overlay log dev))

/-- Crash atomicity of a commit that starts with a clear on-disk header, as `initlog` and
every earlier commit leave it. Witness: the disk shapes at the cut, carried through the
interrupted recoveries.
-/
theorem commit_crashAtomic (log : Log) (dev : Device) (fits : log.Fits)
    (clear : headerCount (dev.disk log.start) = 0) (cut : Nat) (cuts : List Nat)
    : CrashAtomic log dev cut cuts := by
  have durable (late : log.lh.n < cut)
      : log.SameOutside (recoveredAfter log cuts (crashedCommit cut log dev))
          (overlay log dev) :=
    (((crashedCommit_late fits dev clear late).crashedRecoveries fits cuts).recovered fits).home
  refine ⟨?_, durable⟩
  by_cases early : cut ≤ log.lh.n
  · have kept := (crashedCommit_early fits dev clear early).crashedRecoveries
      fits.start_inArea cuts
    exact Or.inl (kept.recovered fits.start_inArea).home
  · exact Or.inr (durable (by omega))

def fillBlock (byte : UInt8) : Block := fun _ => byte

def oneBlockLog : Log := { start := 2, size := logSize, lh := { n := 1, block := fun _ => 100 } }

/-- The transaction's block is dirty in the cache; the disk behind it is `disk`. -/
def oneDevice (disk : Nat → Block) : Device :=
  { disk, cache := fun b => if b = 100 then some (fillBlock 2) else none, writes := [] }

/-- The commit of one block onto a zeroed disk, cut right behind the header write and
recovered after one interrupted recovery, reads back as the overlay.
-/
theorem commit_crashAtomic_oneBlock
    : oneBlockLog.SameOutside
        (recoveredAfter oneBlockLog [1]
          (crashedCommit 2 oneBlockLog (oneDevice (fun _ => fillBlock 0))))
        (overlay oneBlockLog (oneDevice (fun _ => fillBlock 0))) :=
  (commit_crashAtomic oneBlockLog (oneDevice (fun _ => fillBlock 0))
    (by constructor <;> decide) (by decide) 2 [1]).2 (by decide)

/-- A disk whose log still names block 200 with other contents. -/
def staleDisk (b : Nat) : Block :=
  if b = 2 then ((fillBlock 0).setWord 0 1).setWord 4 200
  else if b = 3 then fillBlock 1
  else fillBlock 0

/-- On a disk with a stale header, a crash before the first write of `commit` is not
atomic: recovery replays the stale log onto block 200.
-/
theorem commit_staleHeader_not_crashAtomic
    : ¬∀ (log : Log) (dev : Device), log.Fits →
        ∀ cut cuts, CrashAtomic log dev cut cuts := by
  intro claim
  have atomic := (claim oneBlockLog (oneDevice staleDisk) (by constructor <;> decide) 0 []).1
  have replayed : recoveredAfter oneBlockLog []
      (crashedCommit 0 oneBlockLog (oneDevice staleDisk)) 200 0 = 1 := by decide
  rcases atomic with old | new
  · rw [old 200 (by decide)] at replayed
    exact absurd replayed (by decide)
  · rw [new 200 (by decide)] at replayed
    exact absurd replayed (by decide)

end Xv6.Logging
