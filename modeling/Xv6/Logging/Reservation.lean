import Xv6.Logging.Group
import Xv6.Lib.ProcessSum

/-! The reservation that `begin_op` makes and the bound that `log_write` enforces.
`begin_op` reserves against `LOGSIZE` slots while `log_write` stops at `log.size - 1`, before
it absorbs; the two agree only while every operation stays one block below its quota.
-/

namespace Xv6.Logging

open Xv6.Lib

variable {lh : LogHeader} {b : UInt32}

/-- `log.lh.block[0..n)`, as block numbers. -/
def LogHeader.logged (lh : LogHeader) : List UInt32 := (List.range lh.n).map lh.block

@[simp] theorem LogHeader.length_logged (lh : LogHeader) : lh.logged.length = lh.n := by
  simp [logged]

/-- Absorption: logging a block again leaves the header as it is. -/
theorem LogHeader.absorb_of_mem (member : b ∈ lh.logged)
    : lh.absorb b = lh := by
  obtain ⟨i, inRange, same⟩ := List.mem_map.mp member
  cases found : (List.range lh.n).find? (fun i => lh.block i == b) with
  | none =>
    have absent := List.find?_eq_none.mp found i inRange
    simp [same] at absent
  | some j =>
    have below : j < lh.n := List.mem_range.mp (List.mem_of_find?_eq_some found)
    have holds : lh.block j = b := by simpa using List.find?_some found
    have stops : lh.slot b = j := by simp [slot, found]
    have inside : lh.slot b ≠ lh.n := by omega
    cases lh
    simp_all [absorb]

/-- Logging a new block appends one slot. -/
theorem LogHeader.logged_absorb_of_not_mem (absent : b ∉ lh.logged)
    : (lh.absorb b).logged = lh.logged ++ [b] := by
  have missing : (List.range lh.n).find? (fun i => lh.block i == b) = none := by
    apply List.find?_eq_none.mpr
    intro i inRange same
    exact absent (List.mem_map.mpr ⟨i, inRange, by simpa using same⟩)
  have stops : lh.slot b = lh.n := by simp [slot, missing]
  have kept : (List.range lh.n).map (Function.update lh.block lh.n b)
      = (List.range lh.n).map lh.block := by
    apply List.map_congr_left
    intro i inRange
    exact Function.update_of_ne (Nat.ne_of_lt (List.mem_range.mp inRange)) _ _
  simp [logged, absorb, stops, List.range_succ, kept]

/-- Logging a block keeps the header duplicate-free and adds just that block. -/
theorem LogHeader.absorb_spec (lh : LogHeader) (b : UInt32) (unique : lh.logged.Nodup)
    : (lh.absorb b).logged.Nodup
      ∧ (lh.absorb b).logged.toFinset = insert b lh.logged.toFinset := by
  by_cases member : b ∈ lh.logged
  · rw [absorb_of_mem member]
    exact ⟨unique, (Finset.insert_eq_self.mpr (List.mem_toFinset.mpr member)).symm⟩
  · rw [logged_absorb_of_not_mem member]
    refine ⟨List.nodup_append.mpr ⟨unique, List.nodup_singleton b, ?_⟩, ?_⟩
    · intro x inside y last same
      exact member (List.mem_singleton.mp last ▸ same ▸ inside)
    · ext x
      simp

variable {ι : Type}

/-- The distinct blocks that a history has logged since the last commit. -/
def loggedSince (labels : List (GroupStep ι)) : Finset UInt32 :=
  labels.foldl
    (fun blocks label =>
      match label with
      | .logWriteAppend _ b => insert b blocks
      | .commitClear _ => ∅
      | _ => blocks) ∅

theorem loggedSince_concat (labels : List (GroupStep ι)) (label : GroupStep ι)
    : loggedSince (labels ++ [label])
      = match label with
        | .logWriteAppend _ b => insert b (loggedSince labels)
        | .commitClear _ => ∅
        | _ => loggedSince labels := by
  cases label <;> simp [loggedSince]

/-- The header agrees with the history, and the log has the size `mkfs` gives it. -/
structure Recorded (labels : List (GroupStep ι)) (s : GroupState ι) : Prop where
  unique : s.lh.logged.Nodup
  blocks : s.lh.logged.toFinset = loggedSince labels
  size : s.size = logSize

theorem Recorded.n_eq {labels : List (GroupStep ι)} {s : GroupState ι}
    (recorded : Recorded labels s)
    : s.lh.n = (loggedSince labels).card := by
  rw [← recorded.blocks, List.toFinset_card_of_nodup recorded.unique, LogHeader.length_logged]

theorem Recorded.init (ι : Type) : Recorded [] (GroupState.init ι logSize) :=
  ⟨List.nodup_nil, rfl, rfl⟩

variable [DecidableEq ι]
variable {quota : Nat} {s t : GroupState ι} {label : GroupStep ι} {labels : List (GroupStep ι)}

/-- Everything one step can do, guards included. -/
inductive Moves (quota : Nat) (s : GroupState ι) : GroupStep ι → GroupState ι → Prop
  | begin {p} (idle : s.op p = .idle) (open' : s.committing = false)
    (room : s.lh.n + (s.outstanding + 1) * maxOpBlocks ≤ logSize)
    : Moves quota s (.beginOp p)
        { s.at p (.running ∅) with outstanding := s.outstanding + 1 }
  | tooBig {p b logged} (running : s.op p = .running logged)
    (within : (insert b logged).card ≤ quota) (full : s.lh.n ≥ logSize ∨ s.lh.n + 1 ≥ s.size)
    : Moves quota s (.logWriteCheck p b) { s with panic := some .tooBigTransaction }
  | outside {p b logged} (running : s.op p = .running logged)
    (space : s.lh.n < logSize ∧ s.lh.n + 1 < s.size) (none : s.outstanding < 1)
    : Moves quota s (.logWriteCheck p b) { s with panic := some .outsideOfTrans }
  | checked {p b logged} (running : s.op p = .running logged)
    (within : (insert b logged).card ≤ quota)
    (space : s.lh.n < logSize ∧ s.lh.n + 1 < s.size)
    : Moves quota s (.logWriteCheck p b) (s.at p (.logging logged b))
  | append {p b logged} (logging : s.op p = .logging logged b)
    : Moves quota s (.logWriteAppend p b)
        { s.at p (.running (insert b logged)) with lh := s.lh.absorb b }
  | endPanic {p logged} (running : s.op p = .running logged) (busy : s.committing = true)
    : Moves quota s (.endOp p)
        { s with outstanding := s.outstanding - 1, panic := some .logCommitting }
  | endLast {p logged} (running : s.op p = .running logged) (open' : s.committing = false)
    (last : s.outstanding - 1 = 0)
    : Moves quota s (.endOp p)
        { s.at p .committing with outstanding := s.outstanding - 1, committing := true }
  | endOther {p logged} (running : s.op p = .running logged) (open' : s.committing = false)
    (more : s.outstanding - 1 ≠ 0)
    : Moves quota s (.endOp p) { s.at p .idle with outstanding := s.outstanding - 1 }
  | clear {p} (committing : s.op p = .committing)
    : Moves quota s (.commitClear p) { s.at p .committed with lh := { s.lh with n := 0 } }
  | done {p} (committed : s.op p = .committed)
    : Moves quota s (.commitDone p) { s.at p .idle with committing := false }

/-- Inversion of the step function; a panicked machine takes no step. -/
theorem groupStep_moves (stepped : groupStep quota s label = some t)
    : s.panic = none ∧ Moves quota s label t := by
  unfold groupStep at stepped
  split at stepped
  · cases stepped
  · rename_i running
    refine ⟨by simpa using running, ?_⟩
    cases label with
    | beginOp p =>
      simp only [beginOp] at stepped
      split at stepped
      · cases stepped
      split at stepped
      · cases stepped
      split at stepped
      · cases stepped
      cases stepped
      exact .begin (by simp_all) (by simp_all) (by omega)
    | logWriteCheck p b =>
      simp only [logWriteCheck] at stepped
      split at stepped
      · split at stepped
        · cases stepped
        split at stepped
        · cases stepped
          exact .tooBig ‹_› (by omega) ‹_›
        split at stepped
        · cases stepped
          exact .outside ‹_› (by omega) ‹_›
        cases stepped
        exact .checked ‹_› (by omega) (by omega)
      · cases stepped
    | logWriteAppend p b =>
      simp only [logWriteAppend] at stepped
      split at stepped
      · split at stepped
        · cases stepped
          subst b
          exact .append ‹_›
        · cases stepped
      · cases stepped
    | endOp p =>
      simp only [endOp] at stepped
      split at stepped
      · split at stepped
        · cases stepped
          exact .endPanic ‹_› ‹_›
        split at stepped
        · cases stepped
          exact .endLast ‹_› (by simp_all) ‹_›
        cases stepped
        exact .endOther ‹_› (by simp_all) ‹_›
      · cases stepped
    | commitClear p =>
      simp only [commitClear] at stepped
      split at stepped
      · cases stepped
        exact .clear ‹_›
      · cases stepped
    | commitDone p =>
      simp only [commitDone] at stepped
      split at stepped
      · cases stepped
        exact .done ‹_›
      · cases stepped

/-- A larger quota admits more runs. -/
theorem groupStep_mono {larger : Nat} (le : quota ≤ larger)
    (stepped : groupStep quota s label = some t)
    : groupStep larger s label = some t := by
  cases label with
  | logWriteCheck p b =>
    simp only [groupStep, logWriteCheck] at stepped ⊢
    split at stepped
    · cases stepped
    · rename_i running
      rw [if_neg running]
      split at stepped
      · split at stepped
        · cases stepped
        · rw [if_neg (by omega)]
          exact stepped
      · cases stepped
  | _ => exact stepped

/-! The header counts the distinct blocks logged since the last commit. -/

/-- A step keeps the header in agreement with the longer history. -/
theorem Recorded.step (recorded : Recorded labels s) (stepped : groupStep quota s label = some t)
    : Recorded (labels ++ [label]) t := by
  obtain ⟨unique, blocks, size⟩ := recorded
  obtain ⟨_, moves⟩ := groupStep_moves stepped
  cases moves with
  | @append p b logged logging =>
    have spec := s.lh.absorb_spec b unique
    exact ⟨spec.1, by rw [loggedSince_concat, ← blocks]; exact spec.2, size⟩
  | clear _ => exact ⟨List.nodup_nil, by rw [loggedSince_concat]; rfl, size⟩
  | _ => exact ⟨unique, by rw [loggedSince_concat]; exact blocks, size⟩

/-- At a call of `log_write` the transaction holds fewer than `LOGSIZE - 1` blocks. -/
def RoomLeft (before : List (GroupStep ι)) (label : GroupStep ι) : Prop :=
  ∀ p b, label = .logWriteCheck p b → (loggedSince before).card + 1 < logSize

/-- A run stays clear of the panic exactly when every `log_write` finds room.
Witness: the panic test reads the number of distinct blocks logged since the last commit.
-/
theorem panic_iff_roomLeft (reached : run (groupStep quota) labels (.init ι logSize) = some t)
    : t.panic ≠ some .tooBigTransaction ↔ EachStep RoomLeft labels := by
  have history : Recorded labels t
      ∧ (t.panic ≠ some .tooBigTransaction ↔ EachStep RoomLeft labels) := by
    refine run_induction
      (motive := fun labels t =>
        Recorded labels t ∧ (t.panic ≠ some .tooBigTransaction ↔ EachStep RoomLeft labels))
      ⟨.init ι, ?_⟩ ?_ reached
    · simp [GroupState.init, eachStep_nil]
    · rintro labels s label t _ ⟨recorded, safe⟩ stepped
      refine ⟨recorded.step stepped, ?_⟩
      obtain ⟨calm, moves⟩ := groupStep_moves stepped
      have before : EachStep RoomLeft labels := safe.mp (by simp [calm])
      have count := recorded.n_eq
      have size := recorded.size
      rw [eachStep_concat]
      cases moves with
      | @tooBig p b _ _ _ full =>
        have crowded : ¬RoomLeft labels (.logWriteCheck p b) := by
          intro room
          have space := room p b rfl
          omega
        simp [crowded]
      | outside _ space _ =>
        refine ⟨fun _ => ⟨before, fun _ _ _ => by omega⟩, fun _ => by simp⟩
      | checked _ _ space =>
        refine ⟨fun _ => ⟨before, fun _ _ _ => by omega⟩, fun _ => by simp [GroupState.at, calm]⟩
      | endPanic _ _ => simp [before, RoomLeft]
      | _ => simp [before, RoomLeft, GroupState.at, calm]
  exact history.2

/-! One block below the quota, the reservation suffices. -/

/-- 1 for a process between `begin_op` and `end_op`. -/
def Op.active : Op → Nat
  | .running _ | .logging _ _ => 1
  | _ => 0

/-- 1 for a process inside the commit that its `end_op` started. -/
def Op.inCommit : Op → Nat
  | .committing | .committed => 1
  | _ => 0

variable [Fintype ι]

/-- The counters agree with the processes, and nobody is in an operation during a commit. -/
structure Grouped (s : GroupState ι) : Prop where
  count : s.outstanding = total Op.active s.op
  quiet : s.committing = true → s.outstanding = 0
  committer : total Op.inCommit s.op = s.committing.toNat
  calm : s.panic ≠ some .logCommitting ∧ s.panic ≠ some .outsideOfTrans

theorem Grouped.init (ι : Type) [Fintype ι] [DecidableEq ι] (size : Nat)
    : Grouped (GroupState.init ι size) where
  count := by simp [GroupState.init, total, Op.active]
  quiet := by simp [GroupState.init]
  committer := by simp [GroupState.init, total, Op.inCommit]
  calm := by simp [GroupState.init]

section Counters

variable {s t : GroupState ι} {p : ι}

omit [DecidableEq ι] in
/-- A process inside an operation keeps `outstanding` positive and the log open. -/
theorem Grouped.open_of_active (grouped : Grouped s) (active : (s.op p).active = 1)
    : 1 ≤ s.outstanding ∧ s.committing = false := by
  have counted := le_total Op.active s.op p
  have count := grouped.count
  refine ⟨by omega, ?_⟩
  cases busy : s.committing with
  | false => rfl
  | true =>
    have quiet := grouped.quiet busy
    omega

omit [DecidableEq ι] in
/-- A process inside its commit keeps the log closed, with nobody in an operation. -/
theorem Grouped.closed_of_inCommit (grouped : Grouped s) (inCommit : (s.op p).inCommit = 1)
    : s.committing = true ∧ s.outstanding = 0 ∧ ∀ r, (s.op r).active = 0 := by
  have counted := le_total Op.inCommit s.op p
  have committer := grouped.committer
  have busy : s.committing = true := by
    cases busy : s.committing with
    | true => rfl
    | false =>
      simp only [busy, Bool.toNat_false] at committer
      omega
  have none := grouped.quiet busy
  exact ⟨busy, none, total_eq_zero (grouped.count.symm.trans none)⟩

/-- One process takes its next position, and the counters follow it. -/
theorem Grouped.moved (grouped : Grouped s) {op : Op} (ops : t.op = Function.update s.op p op)
    (count : t.outstanding + (s.op p).active = s.outstanding + op.active)
    (commit : t.committing.toNat + (s.op p).inCommit = s.committing.toNat + op.inCommit)
    (quiet : t.committing = true → t.outstanding = 0) (calm : t.panic = s.panic)
    : Grouped t := by
  have active := total_update Op.active s.op p op
  have inCommit := total_update Op.inCommit s.op p op
  have counted := grouped.count
  have committer := grouped.committer
  rw [← ops] at active inCommit
  exact ⟨by omega, quiet, by omega, calm ▸ grouped.calm⟩

/-- Every section of the lock keeps the counters. -/
theorem Grouped.step (grouped : Grouped s) (stepped : groupStep quota s label = some t)
    : Grouped t := by
  obtain ⟨-, moves⟩ := groupStep_moves stepped
  cases moves with
  | begin idle free _ =>
    exact grouped.moved rfl (by simp [idle, Op.active]) (by simp [idle, Op.inCommit, GroupState.at])
      (by simp [GroupState.at, free]) rfl
  | tooBig _ _ _ => exact ⟨grouped.count, grouped.quiet, grouped.committer, by simp⟩
  | @outside p b logged running _ none =>
    have positive := (grouped.open_of_active (p := p) (by rw [running]; rfl)).1
    omega
  | checked running _ _ =>
    exact grouped.moved rfl (by simp [running, Op.active, GroupState.at])
      (by simp [running, Op.inCommit, GroupState.at]) grouped.quiet rfl
  | append logging =>
    exact grouped.moved rfl (by simp [logging, Op.active, GroupState.at])
      (by simp [logging, Op.inCommit, GroupState.at]) grouped.quiet rfl
  | @endPanic p logged running busy =>
    have free := (grouped.open_of_active (p := p) (by rw [running]; rfl)).2
    rw [busy] at free
    cases free
  | @endLast p logged running free last =>
    have positive := (grouped.open_of_active (p := p) (by rw [running]; rfl)).1
    exact grouped.moved rfl (by simp only [running, Op.active]; omega)
      (by simp [running, Op.inCommit, free]) (fun _ => last) rfl
  | @endOther p logged running free _ =>
    have positive := (grouped.open_of_active (p := p) (by rw [running]; rfl)).1
    exact grouped.moved rfl (by simp only [running, Op.active]; omega)
      (by simp [running, Op.inCommit, GroupState.at]) (by simp [GroupState.at, free]) rfl
  | clear committing =>
    exact grouped.moved rfl (by simp [committing, Op.active, GroupState.at])
      (by simp [committing, Op.inCommit, GroupState.at]) grouped.quiet rfl
  | @done p committed =>
    have busy := (grouped.closed_of_inCommit (p := p) (by rw [committed]; rfl)).1
    exact grouped.moved rfl (by simp [committed, Op.active, GroupState.at])
      (by simp [committed, Op.inCommit, busy]) (by simp) rfl

end Counters

/-- The blocks an operation may still add when its quota is `MAXOPBLOCKS - 1`. -/
def Op.spare : Op → Nat
  | .running logged | .logging logged _ => maxOpBlocks - 1 - logged.card
  | _ => 0

theorem Op.spare_le (op : Op) : op.spare ≤ (maxOpBlocks - 1) * op.active := by
  cases op <;> simp [spare, active]

/-- The blocks of an open operation are in the header, and fewer than `MAXOPBLOCKS`. -/
def Op.Within (lh : LogHeader) : Op → Prop
  | .running logged => logged ⊆ lh.logged.toFinset ∧ logged.card < maxOpBlocks
  | .logging logged b =>
      logged ⊆ lh.logged.toFinset ∧ (insert b logged).card < maxOpBlocks
  | .committed => lh.n = 0
  | _ => True

/-- The reservation invariant: what is logged plus what open operations may still add
leaves the last slot free.
-/
structure Reserved (s : GroupState ι) : Prop where
  size : s.size = logSize
  count : s.outstanding = total Op.active s.op
  quiet : s.committing = true → s.outstanding = 0
  committer : total Op.inCommit s.op = s.committing.toNat
  empty : s.committing = false → s.outstanding = 0 → s.lh.n = 0
  within : ∀ p, (s.op p).Within s.lh
  reserve : 1 ≤ s.outstanding → s.lh.n + total Op.spare s.op + 2 ≤ logSize
  calm : s.panic = none

theorem Reserved.init (ι : Type) [Fintype ι] [DecidableEq ι]
    : Reserved (GroupState.init ι logSize) where
  size := rfl
  count := by simp [GroupState.init, total, Op.active]
  quiet := by simp [GroupState.init]
  committer := by simp [GroupState.init, total, Op.inCommit]
  empty := by simp [GroupState.init]
  within := fun _ => trivial
  reserve := by simp [GroupState.init]
  calm := rfl

section Reservation

variable {quota : Nat} {s t : GroupState ι} {p : ι} {label : GroupStep ι}
variable {op : Op}

omit [DecidableEq ι] in
theorem Reserved.grouped (reserved : Reserved s) : Grouped s :=
  ⟨reserved.count, reserved.quiet, reserved.committer, by simp [reserved.calm]⟩

omit [DecidableEq ι] in
/-- What is left to show of a step, next to the counters. -/
theorem Reserved.next (reserved : Reserved s) (grouped : Grouped t) (size : t.size = s.size)
    (calm : t.panic = s.panic) (within : ∀ p, (t.op p).Within t.lh)
    (empty : t.committing = false → t.outstanding = 0 → t.lh.n = 0)
    (reserve : 1 ≤ t.outstanding → t.lh.n + total Op.spare t.op + 2 ≤ logSize)
    : Reserved t :=
  ⟨size.trans reserved.size, grouped.count, grouped.quiet, grouped.committer, empty, within, reserve,
    calm.trans reserved.calm⟩

/-- Moving one process to a position that respects the header keeps all of them within. -/
theorem Reserved.within_at (reserved : Reserved s) (moved : op.Within s.lh) (q : ι)
    : ((s.at p op).op q).Within s.lh := by
  by_cases same : q = p
  · subst same
    simpa [GroupState.at] using moved
  · simpa [GroupState.at, same] using reserved.within q

/-- `begin_op` keeps the reservation: the first operation finds an empty log, and with
two or more the `LOGSIZE` test leaves one slot for each of them.
-/
theorem Reserved.begin (reserved : Reserved s) (idle : s.op p = .idle)
    (free : s.committing = false)
    (room : s.lh.n + (s.outstanding + 1) * maxOpBlocks ≤ logSize)
    (grouped : Grouped { s.at p (.running ∅) with outstanding := s.outstanding + 1 })
    : Reserved { s.at p (.running ∅) with outstanding := s.outstanding + 1 } := by
  have spare := total_update Op.spare s.op p (.running ∅)
  have bound := (total_mono Op.spare_le s.op).trans_eq (total_mul _ Op.active s.op)
  have count := reserved.count
  have empty := reserved.empty free
  simp only [idle, Op.spare, Finset.card_empty] at spare
  refine reserved.next grouped rfl rfl (reserved.within_at ⟨Finset.empty_subset _, by decide⟩)
    (by simp) fun _ => ?_
  simp only [GroupState.at, maxOpBlocks, logSize] at *
  omega

/-- The header only grows while operations are open. -/
theorem LogHeader.mem_absorb {x : UInt32}
    : x ∈ (lh.absorb b).logged.toFinset ↔ x = b ∨ x ∈ lh.logged.toFinset := by
  by_cases member : b ∈ lh.logged
  · rw [absorb_of_mem member, List.mem_toFinset]
    constructor
    · exact Or.inr
    · rintro (rfl | inside)
      · exact member
      · exact inside
  · simp [logged_absorb_of_not_mem member]

theorem Op.Within.absorb (within : op.Within lh) (b : UInt32) (notDone : op ≠ .committed)
    : op.Within (lh.absorb b) := by
  have grows : lh.logged.toFinset ⊆ (lh.absorb b).logged.toFinset :=
    fun x inside => LogHeader.mem_absorb.mpr (Or.inr inside)
  cases op with
  | running | logging => exact ⟨within.1.trans grows, within.2⟩
  | committed => exact absurd rfl notDone
  | idle | committing => trivial

/-- The locked part of `log_write` pays for a new slot from the operation's own share. -/
theorem Reserved.append {logged : Finset UInt32} (reserved : Reserved s)
    (logging : s.op p = .logging logged b)
    (grouped : Grouped { s.at p (.running (insert b logged)) with lh := s.lh.absorb b })
    : Reserved { s.at p (.running (insert b logged)) with lh := s.lh.absorb b } := by
  have spare := total_update Op.spare s.op p (.running (insert b logged))
  simp only [logging, Op.spare] at spare
  obtain ⟨positive, free⟩ := reserved.grouped.open_of_active (p := p) (by rw [logging]; rfl)
  obtain ⟨inside, below⟩ : (Op.logging logged b).Within s.lh := logging ▸ reserved.within p
  have reserve := reserved.reserve positive
  -- Nobody is past `commitClear` while an operation is open.
  have noneCommitted (q : ι) : s.op q ≠ .committed := by
    intro committed
    have busy := (reserved.grouped.closed_of_inCommit (p := q) (by rw [committed]; rfl)).1
    rw [free] at busy
    cases busy
  have paid : (s.lh.absorb b).n
        + total Op.spare (Function.update s.op p (.running (insert b logged)))
      ≤ s.lh.n + total Op.spare s.op := by
    by_cases member : b ∈ s.lh.logged
    · have card := Finset.card_le_card (Finset.subset_insert b logged)
      rw [LogHeader.absorb_of_mem member]
      omega
    · have fresh : b ∉ logged := fun own => member (List.mem_toFinset.mp (inside own))
      have card := Finset.card_insert_of_notMem fresh
      have grown := congrArg List.length (LogHeader.logged_absorb_of_not_mem member)
      simp only [LogHeader.length_logged, List.length_append, List.length_singleton] at grown
      omega
  refine reserved.next grouped rfl rfl (fun q => ?_) (by simp only [GroupState.at]; omega)
    (by simp only [GroupState.at]; omega)
  by_cases same : q = p
  · subst same
    simp only [GroupState.at, Function.update_self]
    refine ⟨?_, below⟩
    intro x own
    rcases Finset.mem_insert.mp own with rfl | old
    · exact LogHeader.mem_absorb.mpr (Or.inl rfl)
    · exact LogHeader.mem_absorb.mpr (Or.inr (inside old))
  · simp only [GroupState.at, Function.update_of_ne same]
    exact (reserved.within q).absorb b (noneCommitted q)

/-- The first section of the commit empties the log. -/
theorem Reserved.clear (reserved : Reserved s) (committing : s.op p = .committing)
    (grouped : Grouped { s.at p .committed with lh := { s.lh with n := 0 } })
    : Reserved { s.at p .committed with lh := { s.lh with n := 0 } } := by
  obtain ⟨-, quiet, inactive⟩ :=
    reserved.grouped.closed_of_inCommit (p := p) (by rw [committing]; rfl)
  refine reserved.next grouped rfl rfl (fun q => ?_) (fun _ _ => rfl)
    (by simp only [GroupState.at]; omega)
  by_cases same : q = p
  · subst same
    simp only [GroupState.at, Function.update_self]
    rfl
  · have none := inactive q
    simp only [GroupState.at, Function.update_of_ne same]
    cases op : s.op q with
    | running | logging => simp [op, Op.active] at none
    | committed => rfl
    | idle | committing => trivial

/-- Every step of operations below the quota keeps the reservation and does not panic. -/
theorem Reserved.step (small : quota < maxOpBlocks) (reserved : Reserved s)
    (stepped : groupStep quota s label = some t)
    : Reserved t := by
  have grouped := reserved.grouped.step stepped
  obtain ⟨_, moves⟩ := groupStep_moves stepped
  cases moves with
  | begin idle free room => exact reserved.begin idle free room grouped
  | @tooBig p _ _ running _ full =>
    have positive := (reserved.grouped.open_of_active (p := p) (by rw [running]; rfl)).1
    have reserve := reserved.reserve positive
    have size := reserved.size
    omega
  | outside _ _ _ => exact absurd rfl grouped.calm.2
  | @checked p b logged running within _ =>
    have spare := total_update Op.spare s.op p (.logging logged b)
    simp only [running, Op.spare] at spare
    obtain ⟨inside, _⟩ : (Op.running logged).Within s.lh := running ▸ reserved.within p
    have reserve := reserved.reserve
    exact reserved.next grouped rfl rfl (reserved.within_at ⟨inside, by omega⟩) reserved.empty
      (by simp only [GroupState.at]; omega)
  | append logging => exact reserved.append logging grouped
  | endPanic _ _ => exact absurd rfl grouped.calm.1
  | endLast _ _ last =>
    exact reserved.next grouped rfl rfl (reserved.within_at trivial) (by simp)
      (by simp only [last]; omega)
  | @endOther p logged running _ more =>
    -- `end_op` gives the share of the operation back.
    have spare := total_update Op.spare s.op p .idle
    simp only [running, Op.spare] at spare
    have reserve := reserved.reserve
      (reserved.grouped.open_of_active (p := p) (by rw [running]; rfl)).1
    exact reserved.next grouped rfl rfl (reserved.within_at trivial)
      (fun _ none => absurd none more) (by simp only [GroupState.at]; omega)
  | clear committing => exact reserved.clear committing grouped
  | @done p committed =>
    have quiet := (reserved.grouped.closed_of_inCommit (p := p) (by rw [committed]; rfl)).2.1
    have empty : Op.committed.Within s.lh := committed ▸ reserved.within p
    exact reserved.next grouped rfl rfl (reserved.within_at trivial) (fun _ _ => empty)
      (by simp only [GroupState.at]; omega)

end Reservation

/-- Both sections of one `log_write`. -/
def logWrite (p : ι) (b : UInt32) : List (GroupStep ι) :=
  [.logWriteCheck p b, .logWriteAppend p b]

/-- Three operations log 10, 10 and 9 blocks; the third then logs its tenth. -/
def threeFullOps : List (GroupStep (Fin 3)) :=
  [.beginOp 0, .beginOp 1, .beginOp 2]
    ++ (List.range 29).flatMap (fun i => logWrite ⟨i / 10 % 3, by omega⟩ (UInt32.ofNat i))
    ++ [.logWriteCheck 2 29]

theorem panic_threeFullOps
    : ∃ t, run (groupStep maxOpBlocks) threeFullOps (.init (Fin 3) logSize) = some t
        ∧ t.panic = some .tooBigTransaction := by
  decide +kernel

/-- Operations of `MAXOPBLOCKS` blocks each can reach the panic: three of them are admitted
together and the thirtieth block finds the log full.
-/
theorem fullOps_tooBigTransaction
    : ∃ (labels : List (GroupStep (Fin 3))) (t : GroupState (Fin 3)),
        run (groupStep maxOpBlocks) labels (.init (Fin 3) logSize) = some t
        ∧ t.panic = some .tooBigTransaction :=
  ⟨threeFullOps, panic_threeFullOps⟩

/-- The reservation suffices for every mix of operations exactly when operations stay one
block below `MAXOPBLOCKS`; and a single run stays clear of the panic exactly when each of
its `log_write` calls finds fewer than `LOGSIZE - 1` distinct blocks logged.
-/
theorem logWrite_noPanic_iff (quota : Nat)
    : ((∀ (ι : Type) [Fintype ι] [DecidableEq ι] (labels : List (GroupStep ι))
            (t : GroupState ι),
          run (groupStep quota) labels (.init ι logSize) = some t
          → t.panic ≠ some .tooBigTransaction)
        ↔ quota < maxOpBlocks)
      ∧ ∀ (ι : Type) [DecidableEq ι] (labels : List (GroupStep ι)) (t : GroupState ι),
          run (groupStep quota) labels (.init ι logSize) = some t
          → (t.panic ≠ some .tooBigTransaction ↔ EachStep RoomLeft labels) := by
  refine ⟨⟨?_, ?_⟩, fun ι _ labels t reached => panic_iff_roomLeft reached⟩
  · intro safe
    by_contra large
    obtain ⟨t, reached, panicked⟩ := panic_threeFullOps
    have wider := run_mono (fun _ _ _ => groupStep_mono (Nat.le_of_not_lt large)) reached
    exact safe (Fin 3) threeFullOps t wider panicked
  · intro small ι _ _ labels t reached
    have reserved : Reserved t :=
      run_invariant (fun _ _ _ holds stepped => Reserved.step small holds stepped)
        (Reserved.init ι) reached
    simp [reserved.calm]

end Xv6.Logging
