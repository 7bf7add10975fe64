import Xv6.Logging.Commit
import Xv6.Logging.Crash

/-! Crashes of the whole log: any interleaving of operations and commits, cut at any step.
A commit by steps has the device that the loops of `commit` have after as many passes. What
recovery gives changes at one of its steps, the first header write: up to there the blocks
outside of the log are those of the last commit, and from there on the log has the whole
transaction.
-/

namespace Xv6.Logging

open Xv6.Lib
open Option (ite_none_right_eq_some ite_none_left_eq_some map_eq_some_iff)
open Function (update update_of_ne)

/-- The loop of `write_log` or `install_trans` after `tail` passes. -/
def Device.passes (dev : Device) (dst src : Nat → Nat) (tail : Nat) : Device :=
  (List.range tail).foldl (fun current i => current.copyBlock (dst i) (src i)) dev

theorem Device.passes_succ (dev : Device) (dst src : Nat → Nat) (tail : Nat)
    : dev.passes dst src (tail + 1) = (dev.passes dst src tail).copyBlock (dst tail) (src tail) := by
  simp [passes, List.range_succ]

/-- The log block for slot `i`. -/
def Log.slot (log : Log) (i : Nat) : Nat := log.start + i + 1

/-- The device of `commit` behind its first header write. -/
def headed (log : Log) (dev : Device) : Device := writeHead log (writeLog log dev)

section Passes

variable {log : Log} (fits : log.Fits) {stable : Nat → Block} {dev : Device} {tail : Nat}
include fits

/-- The log blocks do not count before the header is written. -/
theorem Cleared.passes (clear : Cleared log stable dev.disk) (within : tail ≤ log.lh.n)
    : Cleared log stable (dev.passes log.slot log.lh.home tail).disk
      ∧ ∀ b, ¬log.InArea b → (dev.passes log.slot log.lh.home tail).bread b = dev.bread b := by
  induction tail with
  | zero => exact ⟨clear, fun _ _ => rfl⟩
  | succ tail ih =>
    obtain ⟨before, view⟩ := ih (by omega)
    have ne : log.start ≠ log.slot tail := by simp only [Log.slot]; omega
    have other {b : Nat} (outer : ¬log.InArea b) : b ≠ log.slot tail :=
      Log.ne_of_inArea outer (fits.slot_inArea within)
    rw [Device.passes_succ]
    exact ⟨⟨(congrArg headerCount (update_of_ne ne ..)).trans before.header, fun b outer =>
      (update_of_ne (other outer) ..).trans (before.home b outer)⟩, fun b outer =>
      (congrFun (Device.bread_bwrite ..) b).trans ((update_of_ne (other outer) ..).trans
        (view b outer))⟩

/-- The transaction is in the log from the header write on, while it is installed. -/
theorem Committed.passes (within : tail ≤ log.lh.n)
    : Committed log dev.disk dev.bread ((headed log dev).passes log.lh.home log.slot tail).disk
      ∧ ∀ i < log.lh.n,
          ((headed log dev).passes log.lh.home log.slot tail).bread (log.slot i)
          = dev.bread (log.lh.home i) := by
  induction tail with
  | zero =>
    obtain ⟨disk, view, -⟩ := dev.bwriteAll_spec (logWrites log dev.bread)
    rw [← writeLog_eq fits] at disk view
    refine ⟨?_, fun i inRange => ?_⟩
    · change Committed log _ _ (update (writeLog log dev).disk _ _)
      rw [disk]
      exact Committed.of_header fits dev.bread _
    · have ne : log.slot i ≠ log.start := by simp only [Log.slot]; omega
      change (writeHead log (writeLog log dev)).bread _ = _
      rw [writeHead, Device.bread_bwrite, update_of_ne ne, view]
      exact applyWrites_logWrites log dev.bread _ inRange
  | succ tail ih =>
    obtain ⟨shape, copies⟩ := ih (by omega)
    rw [Device.passes_succ]
    refine ⟨?_, fun i inRange => ?_⟩
    · exact shape.install fits (log.lh.home tail, _)
        (List.mem_map.mpr ⟨tail, List.mem_range.mpr within, by rw [← copies tail within]; rfl⟩) _
    · have ne := (fits.home_ne within (fits.slot_inArea inRange)).symm
      exact (congrFun (Device.bread_bwrite ..) _).trans ((update_of_ne ne ..).trans
        (copies i inRange))

/-- The second header write leaves the transaction installed. -/
theorem Cleared.erased
    : Cleared log (overlay log dev)
        (writeHead log.cleared (installTrans log (headed log dev))).disk := by
  obtain ⟨shape, copies⟩ := @Committed.passes log fits dev 0 (Nat.zero_le _)
  rw [installTrans_eq fits dev.bread (headed log dev) copies, writeHead, Device.bwrite,
    (Device.bwriteAll_spec ..).1]
  exact shape.erase fits _

end Passes

variable {ι : Type}

/-- The contents outside of the log that recovery gives after a step. -/
def CommitStep.durable (s : CommitState ι) (stable : Nat → Block) : CommitStep ι → Nat → Block
  | .writeHead _ => fun b => if b ∈ s.log.lh.blocks then s.dev.bread b else stable b
  | _ => stable

instance (log : Log) : Decidable log.Fits :=
  decidable_of_iff (_ ∧ _ ∧ _ ∧ _)
    ⟨fun fits => ⟨fits.1, fits.2.1, fits.2.2.1, fits.2.2.2⟩,
      fun fits => ⟨fits.room, fits.bound, fits.distinct, fits.outside⟩⟩

/-- The device of a commit is that of `commit` at its stage; `stable` is what recovery gives. -/
def Follows (stable : Nat → Block) (s : CommitState ι) : Prop :=
  match s.stage with
  | .idle | .done => Cleared s.log stable s.dev.disk
  | .writeLog tail =>
      tail ≤ s.log.lh.n
      ∧ ∃ dev : Device, Cleared s.log stable dev.disk
        ∧ s.dev = dev.passes s.log.slot s.log.lh.home tail
  | .install tail =>
      tail ≤ s.log.lh.n
      ∧ ∃ dev, s.log.SameOutside stable (overlay s.log dev)
        ∧ s.dev = (headed s.log dev).passes s.log.lh.home s.log.slot tail
  | .erase =>
      ∃ log dev, log.cleared = s.log ∧ log.Fits ∧ log.SameOutside stable (overlay log dev)
        ∧ s.dev = installTrans log (headed log dev)

/-- What holds along a run; unless the stage is idle, a process is inside its commit. -/
structure Safe [Fintype ι] (stable : Nat → Block) (s : CommitState ι) : Prop where
  grouped : Grouped s.group
  busy : s.stage ≠ .idle → ∃ p, (s.group.op p).inCommit = 1
  follows : Follows stable s

variable [Fintype ι] {quota : Nat} {s t : CommitState ι} {label : CommitStep ι}
  {stable : Nat → Block}

/-- What recovery gives, at whatever stage the crash comes. -/
theorem Safe.recovered (safe : Safe stable s) (fits : s.log.Fits) (cuts : List Nat)
    : s.log.SameOutside (recoveredAfter s.log cuts s.dev.disk) stable := by
  have cleared : Cleared s.log stable s.dev.disk
      → s.log.SameOutside (recoveredAfter s.log cuts s.dev.disk) stable := fun clear =>
    ((clear.crashedRecoveries fits.start_inArea cuts).recovered fits.start_inArea).home
  have committed : ∀ {log : Log} {dev tail}, log.Fits → tail ≤ log.lh.n
      → log.SameOutside (recoveredAfter log cuts
          ((headed log dev).passes log.lh.home log.slot tail).disk) (overlay log dev) :=
    fun fits within => ((Durable.crashedRecoveries fits
      (.inl (Committed.passes fits within).1) cuts).recovered fits).home
  have follows := safe.follows
  unfold Follows at follows
  split at follows
  · exact cleared follows
  · exact cleared follows
  · obtain ⟨within, dev, clear, same⟩ := follows
    exact cleared (same ▸ (clear.passes fits within).1)
  · obtain ⟨within, dev, whole, same⟩ := follows
    rw [same]
    exact fun b outer => (committed fits within b outer).trans (whole b outer).symm
  · obtain ⟨log, dev, same, fits, whole, installed⟩ := follows
    -- `read_head` overwrites the count that `commit` has cleared
    have reads : recoveredAfter log.cleared = recoveredAfter log := rfl
    have recovers := @committed log dev _ fits (Nat.le_refl _)
    rw [← same, reads, installed]
    exact fun b outer => (recovers b outer).trans (whole b outer).symm

theorem Safe.of_idle (grouped : Grouped s.group) (stage : s.stage = .idle)
    (clear : Cleared s.log stable s.dev.disk)
    : Safe stable s :=
  ⟨grouped, fun running => absurd stage running, by simpa only [Follows, stage] using clear⟩

variable [DecidableEq ι]

omit [Fintype ι] in
/-- A section of the lock changes nothing on the disk. -/
theorem Cleared.locked {group : GroupState ι} {locked : GroupStep ι}
    (moved : groupStep quota s.group locked = some group) (clear : Cleared s.log stable s.dev.disk)
    : Cleared (CommitState.log { s with group }) stable s.dev.disk :=
  ⟨clear.header, by
    simp only [Log.InArea, CommitState.log, (groupStep_lh moved).1]
    exact clear.home⟩

/-- Every step keeps the device at the stage of its commit. -/
theorem Safe.step (safe : Safe stable s) (fits : s.log.Fits)
    (stepped : commitStep quota s label = some t)
    : Safe (label.durable s stable) t := by
  have grouped := commitStep_grouped safe.grouped stepped
  -- a step that is no part of a commit comes while none is under way
  have idle : label.committer = none → s.stage = .idle := by
    intro silent
    by_contra running
    obtain ⟨p, inCommit⟩ := safe.busy running
    cases silent.symm.trans ((commitStep_moves stepped).own safe.grouped inCommit)
  have follows := safe.follows
  unfold Follows at follows
  obtain ⟨_, stepped⟩ := ite_none_left_eq_some.mp stepped
  cases label with
  | beginOp | logWriteCheck | logWriteAppend =>
    obtain ⟨group, moved, rfl⟩ := map_eq_some_iff.mp stepped
    rw [idle rfl] at follows
    exact .of_idle grouped (idle rfl) (follows.locked moved)
  | modify =>
    obtain ⟨-, ⟨⟩⟩ := ite_none_right_eq_some.mp stepped
    rw [idle rfl] at follows
    exact .of_idle grouped (idle rfl) follows
  | endOp p =>
    obtain ⟨group, moved, rfl⟩ := map_eq_some_iff.mp stepped
    rw [idle rfl] at follows
    have clear := follows.locked moved
    by_cases last : group.op p = .committing
    · refine ⟨grouped, fun _ => ⟨p, by rw [last]; rfl⟩, ?_⟩
      simp only [Follows, last]
      exact ⟨Nat.zero_le _, s.dev, clear, rfl⟩
    · exact .of_idle grouped ((if_neg last).trans (idle rfl)) clear
  | writeLog p =>
    simp only [writeLogBlock] at stepped
    split at stepped
    case h_2 => cases stepped
    rename_i tail stage
    obtain ⟨⟨committing, below⟩, ⟨⟩⟩ := ite_none_right_eq_some.mp stepped
    rw [stage] at follows
    obtain ⟨-, dev, clear, same⟩ := follows
    exact ⟨grouped, fun _ => ⟨p, by rw [committing]; rfl⟩, below, dev, clear,
      (congrArg (fun d : Device => d.copyBlock _ _) same).trans (dev.passes_succ ..).symm⟩
  | writeHead p =>
    obtain ⟨⟨committing, -, stage⟩, ⟨⟩⟩ := ite_none_right_eq_some.mp stepped
    rw [stage] at follows
    obtain ⟨-, dev, clear, same⟩ := follows
    refine ⟨grouped, fun _ => ⟨p, by rw [committing]; rfl⟩, Nat.zero_le _, dev, fun b outer => ?_,
      congrArg (writeHead s.log) same⟩
    have view := (clear.passes fits (Nat.le_refl _)).2 b outer
    simp only [CommitStep.durable, overlay, clear.home b outer]
    rw [(congrArg (fun d : Device => d.bread b) same).trans view]
    rfl
  | install p b =>
    simp only [installBlock] at stepped
    split at stepped
    case h_2 => cases stepped
    rename_i tail stage
    obtain ⟨⟨committing, below, rfl⟩, ⟨⟩⟩ := ite_none_right_eq_some.mp stepped
    rw [stage] at follows
    obtain ⟨-, dev, whole, same⟩ := follows
    exact ⟨grouped, fun _ => ⟨p, by rw [committing]; rfl⟩, below, dev, whole,
      (congrArg (fun d : Device => d.copyBlock _ _) same).trans (Device.passes_succ ..).symm⟩
  | clear p =>
    simp only [clearLog] at stepped
    split at stepped
    · rename_i empty
      obtain ⟨group, moved, rfl⟩ := map_eq_some_iff.mp stepped
      rw [empty.2] at follows
      obtain ⟨-, dev, clear, same⟩ := follows
      have committed := (groupClear_spec moved).2
      exact ⟨grouped, fun _ => ⟨p, by rw [committed]; rfl⟩, Cleared.locked moved (same ▸ clear)⟩
    · obtain ⟨full, mapped⟩ := ite_none_right_eq_some.mp stepped
      obtain ⟨group, moved, rfl⟩ := map_eq_some_iff.mp mapped
      rw [full.2] at follows
      obtain ⟨-, dev, whole, same⟩ := follows
      have committed := (groupClear_spec moved).2
      have header := groupStep_lh moved
      refine ⟨grouped, fun _ => ⟨p, by rw [committed]; rfl⟩, s.log, dev, ?_, fits, whole, same⟩
      simp only [CommitState.log, header, Log.cleared]
  | eraseHead p =>
    obtain ⟨⟨committed, stage⟩, ⟨⟩⟩ := ite_none_right_eq_some.mp stepped
    rw [stage] at follows
    obtain ⟨log, dev, same, fits, whole, installed⟩ := follows
    have erased := @Cleared.erased log fits dev
    have clear : Cleared log.cleared stable (writeHead log.cleared s.dev).disk :=
      ⟨installed ▸ erased.header, fun b outer =>
        (installed ▸ erased.home b outer).trans (whole b outer).symm⟩
    rw [same] at clear
    exact ⟨grouped, fun _ => ⟨p, by rw [committed]; rfl⟩, clear⟩
  | commitDone p =>
    obtain ⟨stage, mapped⟩ := ite_none_right_eq_some.mp stepped
    obtain ⟨group, moved, rfl⟩ := map_eq_some_iff.mp mapped
    rw [stage] at follows
    exact .of_idle grouped rfl (follows.locked moved)

/-- A step, next to what recovery gives. -/
def durableStep (quota : Nat) (x : CommitState ι × (Nat → Block)) (label : CommitStep ι)
    : Option (CommitState ι × (Nat → Block)) :=
  (commitStep quota x.1 label).map fun t => (t, label.durable x.1 x.2)

/-- A crash at any step of any interleaving, followed by any number of interrupted recoveries,
leaves outside of the log what `durableStep` says: every transaction whose header was written,
and nothing of the others.
-/
theorem crash_recovers {start size : Nat} {disk : Nat → Block} {labels : List (CommitStep ι)}
    (clear : headerCount (disk start) = 0)
    (reached : run (durableStep quota) labels (.init ι start size disk, disk) = some (s, stable))
    (along : Along (durableStep quota) (fun x _ => x.1.log.Fits) labels
      (.init ι start size disk, disk)) (fits : s.log.Fits) (cuts : List Nat)
    : s.log.SameOutside (recoveredAfter s.log cuts s.dev.disk) stable := by
  have initial : Safe disk (CommitState.init ι start size disk) :=
    .of_idle (.init ι size) rfl ⟨clear, fun _ _ => rfl⟩
  have safe : Safe stable s :=
    along_induction (motive := fun _ x => Safe x.2 x.1) initial (fun _ x label y safe fits stepped => by
      obtain ⟨t, moved, rfl⟩ := map_eq_some_iff.mp stepped
      exact safe.step fits moved) reached along
  exact safe.recovered fits cuts

/-- Two operations overlap; the power fails right behind the header write of their commit. -/
def headerOnly : List (CommitStep (Fin 2)) :=
  [.beginOp 0, .beginOp 1, .modify 0 40 (fillBlock 2), .logWriteCheck 0 40, .logWriteAppend 0 40,
    .endOp 0, .endOp 1, .writeLog 1, .writeHead 1]

/-- The block is in the log only; an interrupted recovery and a complete one install it. -/
theorem headerOnly_recovers
    : ∃ s stable,
        run (durableStep 10) headerOnly
          (.init (Fin 2) 2 30 fun _ => fillBlock 0, fun _ => fillBlock 0) = some (s, stable)
        ∧ s.dev.disk 40 0 = 0
        ∧ recoveredAfter s.log [1] s.dev.disk 40 0 = 2 := by
  obtain ⟨⟨s, stable⟩, reached, old, new, outside, fits⟩ : ∃ x ∈ run (durableStep 10) headerOnly
      (.init (Fin 2) 2 30 fun _ => fillBlock 0, fun _ => fillBlock 0),
      x.1.dev.disk 40 0 = 0 ∧ x.2 40 0 = 2 ∧ ¬x.1.log.InArea 40 ∧ x.1.log.Fits := by
    decide +kernel
  have recovers := crash_recovers (by decide) reached (by decide +kernel) fits [1] 40 outside
  exact ⟨s, stable, reached, old, by rw [recovers]; exact new⟩

end Xv6.Logging
