import Xv6.Logging.Reservation

/-! Group commit with the block writes of `commit` as steps.
The sections of `log.lock` are those of `Logging.Group`. The process whose `end_op` brings
`outstanding` to 0 writes the log, the header, the home blocks and the header again, one block
a step, without holding the lock; all other processes go on meanwhile.
-/

namespace Xv6.Logging

open Xv6.Lib
open Option (ite_none_right_eq_some ite_none_left_eq_some map_eq_some_iff)

/-- Where a commit is: about to write log block `tail`, to install home block `tail`, to erase
the header, or done but for the last section of `end_op`.
-/
inductive Stage where
  | idle
  | writeLog (tail : Nat)
  | install (tail : Nat)
  | erase
  | done
  deriving DecidableEq

structure CommitState (ι : Type) where
  group : GroupState ι
  start : Nat
  dev : Device
  stage : Stage

/-- The sections of the log, the change of a buffer inside an operation, and the writes of a
commit; `install` names the home block it writes.
-/
inductive CommitStep (ι : Type) where
  | beginOp (p : ι)
  | modify (p : ι) (b : UInt32) (data : Block)
  | logWriteCheck (p : ι) (b : UInt32)
  | logWriteAppend (p : ι) (b : UInt32)
  | endOp (p : ι)
  | writeLog (p : ι)
  | writeHead (p : ι)
  | install (p : ι) (b : UInt32)
  | clear (p : ι)
  | eraseHead (p : ι)
  | commitDone (p : ι)

variable {ι : Type}

/-- The part of `struct log` that commit uses. -/
def CommitState.log (s : CommitState ι) : Log where
  start := s.start
  size := s.group.size
  lh := s.group.lh

variable [DecidableEq ι]

/-- A section of the lock that is no part of a commit. -/
def CommitState.locked (quota : Nat) (s : CommitState ι) (label : GroupStep ι)
    : Option (CommitState ι) :=
  (groupStep quota s.group label).map fun group => { s with group }

/-- A client changes the data of a buffer. -/
def modify (s : CommitState ι) (p : ι) (b : UInt32) (data : Block) : Option (CommitState ι) :=
  if (s.group.op p).active = 1 then
    some { s with dev := { s.dev with cache := Function.update s.dev.cache b.toNat (some data) } }
  else none

/-- `end_op` up to its first release; the last operation starts the commit. -/
def endOpStart (quota : Nat) (s : CommitState ι) (p : ι) : Option (CommitState ι) :=
  (groupStep quota s.group (.endOp p)).map fun group =>
    { s with group, stage := if group.op p = .committing then .writeLog 0 else s.stage }

/-- One pass of the loop of `write_log`. -/
def writeLogBlock (s : CommitState ι) (p : ι) : Option (CommitState ι) :=
  match s.stage with
  | .writeLog tail =>
      if s.group.op p = .committing ∧ tail < s.group.lh.n then
        some
          { s with
            dev := s.dev.copyBlock (s.start + tail + 1) (s.group.lh.home tail)
            stage := .writeLog (tail + 1) }
      else none
  | _ => none

/-- The first `write_head`, the real commit. -/
def writeHeadBlock (s : CommitState ι) (p : ι) : Option (CommitState ι) :=
  if s.group.op p = .committing ∧ 0 < s.group.lh.n ∧ s.stage = .writeLog s.group.lh.n then
    some { s with dev := writeHead s.log s.dev, stage := .install 0 }
  else none

/-- One pass of the loop of `install_trans`. -/
def installBlock (s : CommitState ι) (p : ι) (b : UInt32) : Option (CommitState ι) :=
  match s.stage with
  | .install tail =>
      if s.group.op p = .committing ∧ tail < s.group.lh.n ∧ s.group.lh.block tail = b then
        some
          { s with
            dev := s.dev.copyBlock b.toNat (s.start + tail + 1)
            stage := .install (tail + 1) }
      else none
  | _ => none

/-- `log.lh.n = 0` after the last block; an empty transaction gets here at once, and has no
header to erase.
-/
def clearLog (quota : Nat) (s : CommitState ι) (p : ι) : Option (CommitState ι) :=
  if s.group.lh.n = 0 ∧ s.stage = .writeLog 0 then
    (groupStep quota s.group (.commitClear p)).map fun group => { s with group, stage := .done }
  else if 0 < s.group.lh.n ∧ s.stage = .install s.group.lh.n then
    (groupStep quota s.group (.commitClear p)).map fun group => { s with group, stage := .erase }
  else none

/-- The second `write_head`. -/
def eraseHeadBlock (s : CommitState ι) (p : ι) : Option (CommitState ι) :=
  if s.group.op p = .committed ∧ s.stage = .erase then
    some { s with dev := writeHead s.log s.dev, stage := .done }
  else none

/-- The last section of `end_op`. -/
def endOpDone (quota : Nat) (s : CommitState ι) (p : ι) : Option (CommitState ι) :=
  if s.stage = .done then
    (groupStep quota s.group (.commitDone p)).map fun group => { s with group, stage := .idle }
  else none

/-- One step; a panic stops the machine. -/
def commitStep (quota : Nat) (s : CommitState ι) (label : CommitStep ι)
    : Option (CommitState ι) :=
  if s.group.panic.isSome then none
  else
    match label with
    | .beginOp p => s.locked quota (.beginOp p)
    | .modify p b data => modify s p b data
    | .logWriteCheck p b => s.locked quota (.logWriteCheck p b)
    | .logWriteAppend p b => s.locked quota (.logWriteAppend p b)
    | .endOp p => endOpStart quota s p
    | .writeLog p => writeLogBlock s p
    | .writeHead p => writeHeadBlock s p
    | .install p b => installBlock s p b
    | .clear p => clearLog quota s p
    | .eraseHead p => eraseHeadBlock s p
    | .commitDone p => endOpDone quota s p

/-- The log after `initlog`, on a disk with any contents. -/
def CommitState.init (ι : Type) (start size : Nat) (disk : Nat → Block) : CommitState ι where
  group := .init ι size
  start := start
  dev := .boot disk
  stage := .idle

/-- The section of `Logging.Group` that a step is, if any. -/
def CommitStep.onLog : CommitStep ι → Option (GroupStep ι)
  | .beginOp p => some (.beginOp p)
  | .logWriteCheck p b => some (.logWriteCheck p b)
  | .logWriteAppend p b => some (.logWriteAppend p b)
  | .endOp p => some (.endOp p)
  | .clear p => some (.commitClear p)
  | .commitDone p => some (.commitDone p)
  | .modify _ _ _ | .writeLog _ | .writeHead _ | .install _ _ | .eraseHead _ => none

section Counters

variable {s t : GroupState ι} {p q : ι}
variable {quota : Nat} {label : GroupStep ι} {b : UInt32}

/-- An operation goes on until its own `end_op`. -/
theorem groupStep_active (stepped : groupStep quota s label = some t) (other : label ≠ .endOp p)
    (active : (s.op p).active = 1)
    : (t.op p).active = 1 := by
  obtain ⟨_, moves⟩ := groupStep_moves stepped
  -- A step of another process leaves this one alone; its own steps stay in the operation.
  have elsewhere : ∀ {q op}, ((s.op q).active = 0 ∨ op.active = 1)
      → (Function.update s.op q op p).active = 1 := by
    intro q op move
    by_cases isSelf : p = q
    · subst isSelf
      rw [Function.update_self]
      exact move.resolve_left fun none => by omega
    · rwa [Function.update_of_ne isSelf]
  cases moves with
  | begin | checked | append => exact elsewhere (.inr rfl)
  | tooBig | outside | endPanic => exact active
  | @endLast q _ _ _ _ =>
    have apart : p ≠ q := fun same => other (same ▸ rfl)
    simpa [GroupState.at, apart] using active
  | @endOther q _ _ _ _ =>
    have apart : p ≠ q := fun same => other (same ▸ rfl)
    simpa [GroupState.at, apart] using active
  | clear committing => exact elsewhere (.inl (by rw [committing]; rfl))
  | done committed => exact elsewhere (.inl (by rw [committed]; rfl))

/-- Blocks stay in the header until it is cleared. -/
theorem groupStep_logged (stepped : groupStep quota s label = some t)
    (kept : ∀ q, label ≠ .commitClear q) (logged : b ∈ s.lh.logged)
    : b ∈ t.lh.logged := by
  obtain ⟨_, moves⟩ := groupStep_moves stepped
  cases moves with
  | append _ => exact List.mem_toFinset.mp (LogHeader.mem_absorb.mpr (.inr (by simpa using logged)))
  | @clear q _ => exact absurd rfl (kept q)
  | _ => exact logged

/-- The header after a section of the lock. -/
theorem groupStep_lh (stepped : groupStep quota s label = some t)
    : t.size = s.size
      ∧ t.lh
        = match label with
          | .logWriteAppend _ b => s.lh.absorb b
          | .commitClear _ => { s.lh with n := 0 }
          | _ => s.lh := by
  obtain ⟨_, moves⟩ := groupStep_moves stepped
  cases moves <;> exact ⟨rfl, rfl⟩

theorem groupClear_spec (stepped : groupStep quota s (.commitClear p) = some t)
    : s.op p = .committing ∧ t.op p = .committed := by
  obtain ⟨_, moves⟩ := groupStep_moves stepped
  cases moves with
  | clear committing => exact ⟨committing, Function.update_self ..⟩

theorem groupDone_spec (stepped : groupStep quota s (.commitDone p) = some t)
    : s.op p = .committed ∧ t.committing = false := by
  obtain ⟨_, moves⟩ := groupStep_moves stepped
  cases moves with
  | done committed => exact ⟨committed, rfl⟩

/-- `end_op` is called in an operation; it starts a commit or leaves the log open. -/
theorem groupEnd_spec (stepped : groupStep quota s (.endOp p) = some t)
    (free : s.committing = false)
    : (s.op p).active = 1 ∧ (t.op p = .committing ∨ t.committing = false) ∧ t.lh = s.lh := by
  obtain ⟨_, moves⟩ := groupStep_moves stepped
  cases moves with
  | endPanic _ busy =>
    rw [free] at busy
    cases busy
  | endLast running _ _ => exact ⟨by rw [running]; rfl, .inl (Function.update_self ..), rfl⟩
  | endOther running free _ => exact ⟨by rw [running]; rfl, .inr free, rfl⟩

theorem groupAppend_logged (stepped : groupStep quota s (.logWriteAppend p b) = some t)
    : b ∈ t.lh.logged := by
  obtain ⟨_, moves⟩ := groupStep_moves stepped
  cases moves with
  | append _ => exact List.mem_toFinset.mp (LogHeader.mem_absorb.mpr (.inl rfl))

/-- Only `end_op` opens or closes the log. -/
theorem groupStep_committing (stepped : groupStep quota s label = some t)
    (notEnd : ∀ q, label ≠ .endOp q) (notDone : ∀ q, label ≠ .commitDone q)
    : t.committing = s.committing := by
  obtain ⟨_, moves⟩ := groupStep_moves stepped
  cases moves with
  | @endPanic q _ _ _ => exact absurd rfl (notEnd q)
  | @endLast q _ _ _ _ => exact absurd rfl (notEnd q)
  | @endOther q _ _ _ _ => exact absurd rfl (notEnd q)
  | @done q _ => exact absurd rfl (notDone q)
  | _ => rfl

theorem groupBegin_active (stepped : groupStep quota s (.beginOp p) = some t)
    : (t.op p).active = 1 := by
  obtain ⟨_, moves⟩ := groupStep_moves stepped
  cases moves with
  | begin _ _ _ => simp [GroupState.at, Op.active]

variable [Fintype ι]

/-- Only one process commits. -/
theorem Grouped.committer_unique (grouped : Grouped s) (first : (s.op p).inCommit = 1)
    (second : (s.op q).inCommit = 1)
    : p = q := by
  by_contra apart
  have both := add_le_total Op.inCommit s.op apart
  have committer := grouped.committer
  have bound := Bool.toNat_le s.committing
  omega

/-- With the log closed, the only sections are those of the commit. -/
theorem Grouped.commits_of_closed (grouped : Grouped s) (busy : s.committing = true)
    (stepped : groupStep quota s label = some t)
    : (∃ q, label = .commitClear q) ∨ ∃ q, label = .commitDone q := by
  have inactive : ∀ {q}, (s.op q).active ≠ 1 := by
    intro q active
    have free := (grouped.open_of_active active).2
    rw [busy] at free
    cases free
  obtain ⟨_, moves⟩ := groupStep_moves stepped
  cases moves with
  | begin _ free _ =>
    rw [busy] at free
    cases free
  | tooBig running _ _ => exact absurd (by rw [running]; rfl) inactive
  | outside running _ _ => exact absurd (by rw [running]; rfl) inactive
  | checked running _ _ => exact absurd (by rw [running]; rfl) inactive
  | append logging => exact absurd (by rw [logging]; rfl) inactive
  | endPanic running _ => exact absurd (by rw [running]; rfl) inactive
  | endLast running _ _ => exact absurd (by rw [running]; rfl) inactive
  | endOther running _ _ => exact absurd (by rw [running]; rfl) inactive
  | @clear q _ => exact .inl ⟨q, rfl⟩
  | @done q _ => exact .inr ⟨q, rfl⟩

end Counters

/-- The step is a `bwrite` of a commit. -/
def CommitStep.Writes : CommitStep ι → Prop
  | .writeLog _ | .writeHead _ | .install _ _ | .eraseHead _ => True
  | _ => False

/-- The process whose commit a step is part of. -/
def CommitStep.committer : CommitStep ι → Option ι
  | .writeLog p | .writeHead p | .install p _ | .clear p | .eraseHead p | .commitDone p => some p
  | .beginOp _ | .modify _ _ _ | .logWriteCheck _ _ | .logWriteAppend _ _ | .endOp _ => none

/-- What a step does to the group, and how far it brings a commit. -/
inductive CommitMoves (quota : Nat) (s t : CommitState ι) : CommitStep ι → Prop
  -- a section of the lock that neither begins nor ends a commit
  | locked {label locked} (onLog : label.onLog = some locked) (silent : label.committer = none)
      (plain : ∀ q, locked ≠ .endOp q ∧ locked ≠ .commitClear q ∧ locked ≠ .commitDone q)
      (moved : groupStep quota s.group locked = some t.group)
    : CommitMoves quota s t label
  | modified {p b data} (active : (s.group.op p).active = 1) (same : t.group = s.group)
    : CommitMoves quota s t (.modify p b data)
  | ended {p} (moved : groupStep quota s.group (.endOp p) = some t.group)
    : CommitMoves quota s t (.endOp p)
  -- a write before `log.lh.n = 0`; `install` writes the blocks in the order of the header
  | wrote {p label} (op : s.group.op p = .committing) (own : label.committer = some p)
      (same : t.group = s.group)
      (installs : ∀ tail, t.stage = .install tail → ∀ i, i < tail
        → label = .install p (s.group.lh.block i) ∨ ∃ before, s.stage = .install before ∧ i < before)
    : CommitMoves quota s t label
  | cleared {p} (op : s.group.op p = .committing) (committed : t.group.op p = .committed)
      (moved : groupStep quota s.group (.commitClear p) = some t.group)
      (complete : s.group.lh.n = 0 ∨ s.stage = .install s.group.lh.n)
    : CommitMoves quota s t (.clear p)
  | erased {p} (op : s.group.op p = .committed) (same : t.group = s.group)
    : CommitMoves quota s t (.eraseHead p)
  | finished {p} (op : s.group.op p = .committed)
      (moved : groupStep quota s.group (.commitDone p) = some t.group)
    : CommitMoves quota s t (.commitDone p)

section Operations

variable {quota : Nat} {s t : CommitState ι} {p q : ι} {label : CommitStep ι}
variable {blocks : UInt32 → Prop} {after start commit : List (CommitStep ι)}

theorem commitStep_moves (stepped : commitStep quota s label = some t)
    : CommitMoves quota s t label := by
  obtain ⟨_, stepped⟩ := ite_none_left_eq_some.mp stepped
  cases label with
  | beginOp | logWriteCheck | logWriteAppend =>
    obtain ⟨group, moved, rfl⟩ := map_eq_some_iff.mp stepped
    exact .locked rfl rfl (by simp) moved
  | modify p b data =>
    obtain ⟨active, ⟨⟩⟩ := ite_none_right_eq_some.mp stepped
    exact .modified active rfl
  | endOp p =>
    obtain ⟨group, moved, rfl⟩ := map_eq_some_iff.mp stepped
    exact .ended moved
  | writeLog p =>
    simp only [writeLogBlock] at stepped
    split at stepped
    · obtain ⟨⟨committing, _⟩, ⟨⟩⟩ := ite_none_right_eq_some.mp stepped
      exact .wrote committing rfl rfl fun _ installing => nomatch installing
    · cases stepped
  | writeHead p =>
    obtain ⟨⟨committing, _⟩, ⟨⟩⟩ := ite_none_right_eq_some.mp stepped
    refine .wrote committing rfl rfl fun tail installing i below => ?_
    cases installing
    cases below
  | install p b =>
    simp only [installBlock] at stepped
    split at stepped
    · rename_i tail installing
      obtain ⟨⟨committing, _, home⟩, ⟨⟩⟩ := ite_none_right_eq_some.mp stepped
      refine .wrote committing rfl rfl fun next installs i below => ?_
      cases installs
      by_cases last : i = tail
      · exact .inl (by rw [last, home])
      · exact .inr ⟨tail, installing, by omega⟩
    · cases stepped
  | clear p =>
    simp only [clearLog] at stepped
    split at stepped
    · rename_i empty
      obtain ⟨group, moved, rfl⟩ := map_eq_some_iff.mp stepped
      obtain ⟨committing, committed⟩ := groupClear_spec moved
      exact .cleared committing committed moved (.inl empty.1)
    · obtain ⟨full, mapped⟩ := ite_none_right_eq_some.mp stepped
      obtain ⟨group, moved, rfl⟩ := map_eq_some_iff.mp mapped
      obtain ⟨committing, committed⟩ := groupClear_spec moved
      exact .cleared committing committed moved (.inr full.2)
  | eraseHead p =>
    obtain ⟨⟨committed, _⟩, ⟨⟩⟩ := ite_none_right_eq_some.mp stepped
    exact .erased committed rfl
  | commitDone p =>
    obtain ⟨_, mapped⟩ := ite_none_right_eq_some.mp stepped
    obtain ⟨group, moved, rfl⟩ := map_eq_some_iff.mp mapped
    exact .finished (groupDone_spec moved).1 moved

/-- A step of a commit is one of the process that commits. -/
theorem CommitMoves.inCommit (moves : CommitMoves quota s t label) (own : label.committer = some p)
    : (s.group.op p).inCommit = 1 := by
  cases moves with
  | locked _ silent => cases silent.symm.trans own
  | modified | ended => cases own
  | wrote op other =>
    cases own.symm.trans other
    rw [op]
    rfl
  | cleared op | erased op | finished op =>
    cases own
    rw [op]
    rfl

/-- What becomes of the blocks of an operation between its `end_op` and the end of the next
commit. Either no commit has begun and the blocks are in the header; or one has, with the last
`end_op` in the history, and the blocks are in the header until all of them are installed.
-/
def Settled (p : ι) (blocks : UInt32 → Prop) (after : List (CommitStep ι)) (s : CommitState ι)
    : Prop :=
  (s.group.committing = false ∧ ∀ b, blocks b → b ∈ s.group.lh.logged)
  ∨ ∃ start q commit,
      .endOp p :: after = start ++ .endOp q :: commit
      ∧ (∀ r, .endOp r ∉ commit)
      ∧ ((s.group.op q = .committing
          ∧ (∀ b, blocks b → b ∈ s.group.lh.logged)
          ∧ ∀ tail, s.stage = .install tail
            → ∀ i, i < tail → .install q (s.group.lh.block i) ∈ commit)
        ∨ (s.group.op q = .committed ∧ ∀ b, blocks b → .install q b ∈ commit))

/-- An `end_op` leaves the blocks in the header, or starts the commit. -/
theorem endOp_settled (free : s.group.committing = false)
    (logged : ∀ b, blocks b → b ∈ s.group.lh.logged)
    (stepped : commitStep quota s (.endOp q) = some t)
    (history : .endOp p :: after = start ++ [.endOp q])
    : Settled p blocks after t := by
  obtain ⟨_, stepped⟩ := ite_none_left_eq_some.mp stepped
  obtain ⟨group, moved, rfl⟩ := map_eq_some_iff.mp stepped
  obtain ⟨_, outcome, header⟩ := groupEnd_spec moved free
  rw [← header] at logged
  refine outcome.symm.imp (⟨·, logged⟩) fun committing =>
    ⟨start, q, [], history, by simp, .inl ⟨committing, logged, fun tail installing => ?_⟩⟩
  cases (if_pos committing).symm.trans installing

/-- `begin_op` admits a process into an operation. -/
theorem beginOp_active (stepped : commitStep quota s (.beginOp p) = some t)
    : (t.group.op p).active = 1 := by
  obtain ⟨_, stepped⟩ := ite_none_left_eq_some.mp stepped
  obtain ⟨group, moved, rfl⟩ := map_eq_some_iff.mp stepped
  exact groupBegin_active moved

variable [Fintype ι]

theorem commitStep_grouped (grouped : Grouped s.group) (stepped : commitStep quota s label = some t)
    : Grouped t.group := by
  cases commitStep_moves stepped with
  | locked _ _ _ moved | cleared _ _ moved _ => exact grouped.step moved
  | ended moved => exact grouped.step moved
  | finished _ moved => exact grouped.step moved
  | modified _ same | erased _ same => exact same ▸ grouped
  | wrote _ _ same _ => exact same ▸ grouped

/-- While a process is in an operation, it stays there until its `end_op`, nothing is written
to the disk, and what was logged stays in the header.
-/
theorem commitStep_during (grouped : Grouped s.group) (active : (s.group.op p).active = 1)
    (stepped : commitStep quota s label = some t) (other : label ≠ .endOp p)
    : (t.group.op p).active = 1 ∧ ¬ label.Writes
      ∧ (∀ b, b ∈ s.group.lh.logged → b ∈ t.group.lh.logged)
      ∧ ∀ b, label = .logWriteAppend p b → b ∈ t.group.lh.logged := by
  have moves := commitStep_moves stepped
  have silent : ∀ q, label.committer ≠ some q := fun q own => by
    have none := (grouped.closed_of_inCommit (moves.inCommit own)).2.2 p
    omega
  have quiet : ¬ label.Writes := by
    cases label with
    | writeLog q | writeHead q | install q | eraseHead q => exact absurd rfl (silent q)
    | _ => exact id
  cases moves with
  | locked onLog _ plain moved =>
    refine ⟨groupStep_active moved (plain p).1 active, quiet,
      fun b => groupStep_logged moved fun q => (plain q).2.1, fun b appends => ?_⟩
    subst appends
    cases onLog
    exact groupAppend_logged moved
  | modified _ same => exact ⟨same ▸ active, quiet, fun b logged => same ▸ logged, nofun⟩
  | @ended q moved =>
    have apart : GroupStep.endOp q ≠ .endOp p := fun same => other (by cases same; rfl)
    exact ⟨groupStep_active moved apart active, quiet, fun b => groupStep_logged moved (by simp),
      nofun⟩
  | wrote _ own => exact absurd own (silent _)
  | cleared | erased | finished => exact absurd rfl (silent _)

/-- Over a whole operation up to its `end_op`. -/
theorem run_during {during : List (CommitStep ι)} (grouped : Grouped s.group)
    (active : (s.group.op p).active = 1) (reached : run (commitStep quota) during s = some t)
    (open' : .endOp p ∉ during)
    : Grouped t.group ∧ (t.group.op p).active = 1 ∧ (∀ label ∈ during, ¬ label.Writes)
      ∧ ∀ b, .logWriteAppend p b ∈ during → b ∈ t.group.lh.logged := by
  refine run_induction
    (motive := fun during t => .endOp p ∉ during → Grouped t.group ∧ (t.group.op p).active = 1
      ∧ (∀ label ∈ during, ¬ label.Writes)
      ∧ ∀ b, .logWriteAppend p b ∈ during → b ∈ t.group.lh.logged)
    (fun _ => ⟨grouped, active, by simp, by simp⟩) ?_ reached open'
  intro during u label v _ invariant stepped open'
  obtain ⟨groupedU, activeU, quiet, kept⟩ := invariant fun member =>
    open' (List.mem_append_left _ member)
  have other : label ≠ .endOp p := fun same => open' (by simp [same])
  obtain ⟨activeV, silent, grows, appends⟩ := commitStep_during groupedU activeU stepped other
  refine ⟨commitStep_grouped groupedU stepped, activeV, fun earlier member => ?_,
    fun b member => ?_⟩
  · cases List.mem_append.mp member with
    | inl before => exact quiet earlier before
    | inr last => exact List.mem_singleton.mp last ▸ silent
  · cases List.mem_append.mp member with
    | inl before => exact grows b (kept b before)
    | inr last => exact appends b (List.mem_singleton.mp last).symm

section

variable (grouped : Grouped s.group)
include grouped

/-- The blocks wait in the header for the next commit. -/
theorem settled_open (free : s.group.committing = false)
    (logged : ∀ b, blocks b → b ∈ s.group.lh.logged) (stepped : commitStep quota s label = some t)
    : Settled p blocks (after ++ [label]) t := by
  have moves := commitStep_moves stepped
  have silent : ∀ q, label.committer ≠ some q := fun q own =>
    Bool.noConfusion (free.symm.trans (grouped.closed_of_inCommit (moves.inCommit own)).1)
  cases moves with
  | locked _ _ plain moved =>
    exact .inl ⟨(groupStep_committing moved (fun q => (plain q).1)
      fun q => (plain q).2.2).trans free, fun b block =>
        groupStep_logged moved (fun q => (plain q).2.1) (logged b block)⟩
  | modified _ same => exact .inl (same ▸ ⟨free, logged⟩)
  | ended => exact endOp_settled free logged stepped (List.cons_append ..).symm
  | wrote _ own => exact absurd own (silent _)
  | cleared | erased | finished => exact absurd rfl (silent _)

/-- During a commit, only its process moves. -/
theorem CommitMoves.own (moves : CommitMoves quota s t label) (inCommit : (s.group.op q).inCommit = 1)
    : label.committer = some q := by
  have busy := (grouped.closed_of_inCommit inCommit).1
  cases moves with
  | locked _ _ plain moved =>
    obtain ⟨r, same⟩ | ⟨r, same⟩ := grouped.commits_of_closed busy moved
    · exact absurd same (plain r).2.1
    · exact absurd same (plain r).2.2
  | @modified p _ _ active _ =>
    have none := (grouped.closed_of_inCommit inCommit).2.2 p
    omega
  | ended moved => simpa using grouped.commits_of_closed busy moved
  | @wrote p _ op own _ _ =>
    rw [own, grouped.committer_unique (p := p) (by rw [op]; rfl) inCommit]
  | cleared op | erased op | finished op =>
    exact congrArg some (grouped.committer_unique (by rw [op]; rfl) inCommit)

theorem settled_step (settled : Settled p blocks after s)
    (stepped : commitStep quota s label = some t) (notDone : ∀ r, label ≠ .commitDone r)
    : Settled p blocks (after ++ [label]) t := by
  rcases settled with ⟨free, logged⟩ | ⟨start, q, commit, history, single, stage⟩
  · exact settled_open grouped free logged stepped
  have moves := commitStep_moves stepped
  have inCommit : (s.group.op q).inCommit = 1 := by
    rcases stage with ⟨op, _⟩ | ⟨op, _⟩ <;> rw [op] <;> rfl
  have own := moves.own grouped inCommit
  have longer : .endOp p :: (after ++ [label]) = start ++ .endOp q :: (commit ++ [label]) := by
    rw [← List.cons_append, history, List.append_assoc, List.cons_append]
  have single' : ∀ r, .endOp r ∉ commit ++ [label] := by
    intro r member
    obtain before | last := List.mem_append.mp member
    · exact single r before
    · rw [← List.mem_singleton.mp last] at own
      cases own
  refine .inr ⟨start, q, commit ++ [label], longer, single', ?_⟩
  rcases stage with ⟨committing, logged, installed⟩ | ⟨committed, installed⟩
  · -- The commit goes on, until all blocks of the header are installed.
    cases moves with
    | locked _ silent => cases silent.symm.trans own
    | modified | ended => cases own
    | wrote _ mine same installs =>
      cases own.symm.trans mine
      rw [same]
      refine .inl ⟨committing, logged, fun tail installing i below => ?_⟩
      obtain last | ⟨before, was, earlier⟩ := installs tail installing i below
      · simp [last]
      · exact List.mem_append_left _ (installed before was i earlier)
    | cleared _ committed _ complete =>
      cases own
      refine .inr ⟨committed, fun b block => ?_⟩
      obtain ⟨i, inRange, home⟩ := List.mem_map.mp (logged b block)
      have below := List.mem_range.mp inRange
      obtain empty | installing := complete
      · omega
      · exact List.mem_append_left _ (home ▸ installed _ installing i below)
    | erased op | finished op =>
      cases own
      cases committing.symm.trans op
  · -- Once the header is cleared, only the end of the commit is left.
    cases moves with
    | locked _ silent => cases silent.symm.trans own
    | modified | ended => cases own
    | wrote op mine =>
      cases own.symm.trans mine
      cases committed.symm.trans op
    | cleared op =>
      cases own
      cases committed.symm.trans op
    | finished => exact absurd rfl (notDone _)
    | erased _ same =>
      exact .inr ⟨same ▸ committed, fun b block => List.mem_append_left _ (installed b block)⟩

/-- From the `end_op` of an operation on, as long as no commit ends. -/
theorem run_settled (settled : Settled p blocks [] s)
    (reached : run (commitStep quota) after s = some t) (notDone : ∀ r, .commitDone r ∉ after)
    : Grouped t.group ∧ Settled p blocks after t := by
  refine run_induction
    (motive := fun after t => (∀ r, .commitDone r ∉ after)
      → Grouped t.group ∧ Settled p blocks after t)
    (fun _ => ⟨grouped, settled⟩) ?_ reached notDone
  intro after u label v _ invariant stepped notDone
  obtain ⟨groupedU, settledU⟩ := invariant fun r member =>
    notDone r (List.mem_append_left _ member)
  exact ⟨commitStep_grouped groupedU stepped,
    settled_step groupedU settledU stepped fun r same => notDone r (by simp [same])⟩

/-- The process that ends the commit is the one that made it, with all blocks installed. -/
theorem settled_done (settled : Settled p blocks after s)
    (stepped : commitStep quota s (.commitDone q) = some t)
    : ∃ start commit,
        .endOp p :: after = start ++ .endOp q :: commit
        ∧ (∀ r, .endOp r ∉ commit)
        ∧ ∀ b, blocks b → .install q b ∈ commit := by
  obtain ⟨_, stepped⟩ := ite_none_left_eq_some.mp stepped
  obtain ⟨_, mapped⟩ := ite_none_right_eq_some.mp stepped
  obtain ⟨group, moved, rfl⟩ := map_eq_some_iff.mp mapped
  have committed := (groupDone_spec moved).1
  have inCommit : (s.group.op q).inCommit = 1 := by rw [committed]; rfl
  rcases settled with ⟨free, _⟩ | ⟨start, r, commit, history, single, stage⟩
  · have busy := (grouped.closed_of_inCommit inCommit).1
    rw [free] at busy
    cases busy
  · rcases stage with ⟨committing, _⟩ | ⟨committedR, installed⟩
    · cases grouped.committer_unique (by rw [committing]; rfl) inCommit
      rw [committing] at committed
      cases committed
    · cases grouped.committer_unique (by rw [committedR]; rfl) inCommit
      exact ⟨start, commit, history, single, installed⟩

end

theorem grouped_of_run {start size : Nat} {disk : Nat → Block} {labels : List (CommitStep ι)}
    (reached : run (commitStep quota) labels (.init ι start size disk) = some s)
    : Grouped s.group :=
  run_invariant (motive := fun s : CommitState ι => Grouped s.group)
    (fun _ _ _ grouped stepped => commitStep_grouped grouped stepped) (Grouped.init ι size) reached

end Operations

/-- Two operations overlap; the second to end commits for both. -/
def overlapping : List (CommitStep (Fin 2)) :=
  [.beginOp 0, .beginOp 1, .logWriteCheck 0 7, .logWriteAppend 0 7, .endOp 0, .logWriteCheck 1 9,
    .logWriteAppend 1 9, .endOp 1, .writeLog 1, .writeLog 1, .writeHead 1, .install 1 7,
    .install 1 9, .clear 1, .eraseHead 1, .commitDone 1]

end Xv6.Logging
