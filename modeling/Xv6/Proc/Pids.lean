import Xv6.Proc.Table

/-! Process ids. `allocproc` names a process by `nextpid`, a signed counter of 32 bits that it
increments and never compares with the table.
-/

namespace Xv6.Proc

open Xv6.Lib
open Function (update update_self update_of_ne update_idem)

variable {t t' : Table} {p : Fin nproc} {label : Step} {n : Int32}

/-- The slots in use have different, positive ids. -/
structure Table.PidsUnique (t : Table) : Prop where
  positive : ∀ i, (t.proc i).state ≠ .unused → 0 < (t.proc i).pid
  distinct
    : ∀ i j,
        (t.proc i).state ≠ .unused
        → (t.proc j).state ≠ .unused
        → (t.proc i).pid = (t.proc j).pid
        → i = j

/-! What a step does to the ids. -/

/-- A slot that is in use afterwards was in use before, under the same id. -/
def Slot.Keeps (before after : Slot) : Prop :=
  after.state ≠ .unused → before.state ≠ .unused ∧ after.pid = before.pid

theorem Slot.Keeps.refl (slot : Slot) : slot.Keeps slot := fun used => ⟨used, rfl⟩

/-- Every slot in use keeps its id, but for one that `allocproc` has named. -/
inductive Naming (t t' : Table) (allocates : Bool) : Prop
  | kept (slots : ∀ i, (t.proc i).Keeps (t'.proc i)) (nextpid : t'.nextpid = t.nextpid)
  | allotted (calls : allocates = true) (np : Fin nproc) (unused : (t.proc np).state = .unused)
    (pid : (t'.proc np).pid = t.nextpid)
    (others : ∀ i, i ≠ np → (t.proc i).Keeps (t'.proc i))
    (nextpid : t'.nextpid = t.nextpid + 1)

theorem Naming.of_set {allocates : Bool} (i : Fin nproc) (slot : Slot)
    (changed : t'.proc = update t.proc i slot) (keeps : (t.proc i).Keeps slot)
    (nextpid : t'.nextpid = t.nextpid)
    : Naming t t' allocates := by
  refine .kept (fun j => ?_) nextpid
  rw [changed]
  rcases eq_or_ne j i with rfl | other
  · rwa [update_self]
  · rw [update_of_ne other]
    exact Slot.Keeps.refl _

theorem step_naming (stepped : step t label = some t')
    : Naming t t' label.allocates := by
  cases step_moves stepped with
  | kept slots nextpid =>
    exact .kept (fun i used => ⟨mt (slots i).used.mpr used, (slots i).pid⟩) nextpid
  | wasted same =>
    subst same
    exact .kept (fun _ => Slot.Keeps.refl _) rfl
  | failed np slot calls allots | forked np slot calls allots | cloned _ np slot calls allots =>
    refine .allotted calls np allots.unused ?_ (fun i other => ?_) allots.nextpid
    · rw [allots.slots, update_self, allots.pid]
    · rw [allots.slots, update_of_ne other]
      exact Slot.Keeps.refl _
  | execed p _ _ _ same =>
    subst same
    exact .of_set p _ rfl (fun used => ⟨used, rfl⟩) rfl
  | reaped q _ _ slots nextpid =>
    exact .of_set q _ slots (fun used => absurd rfl used) nextpid

/-! As long as the counter is positive. -/

/-- An `allocproc` that finds an unused slot has a positive id for it. -/
def Table.HasPositivePid (t : Table) (label : Step) : Prop :=
  label.allocates = true → (∃ i, (t.proc i).state = .unused) → 0 < t.nextpid

instance Table.HasPositivePid.decidable (t : Table) (label : Step)
    : Decidable (t.HasPositivePid label) :=
  inferInstanceAs (Decidable (_ → _ → _))

/-- Unique ids below the counter, until it has wrapped around. -/
structure Table.Counted (t : Table) : Prop extends t.PidsUnique where
  below : 0 < t.nextpid → ∀ i, (t.proc i).state ≠ .unused → (t.proc i).pid < t.nextpid

theorem lt_next (positive : 0 < n) (next : 0 < n + 1) : n < n + 1 := by
  rw [Int32.lt_iff_toInt_lt] at *
  have range := n.toInt_lt
  rw [Int32.toInt_add] at *
  simp only [Int32.toInt_zero, Int32.toInt_one, Int.bmod_def] at *
  omega

theorem Table.Counted.kept (counted : t.Counted) (slots : ∀ i, (t.proc i).Keeps (t'.proc i))
    (nextpid : t'.nextpid = t.nextpid)
    : t'.Counted where
  positive := by
    intro i used
    obtain ⟨before, same⟩ := slots i used
    rw [same]
    exact counted.positive i before
  distinct := by
    intro i j usedI usedJ equal
    obtain ⟨beforeI, sameI⟩ := slots i usedI
    obtain ⟨beforeJ, sameJ⟩ := slots j usedJ
    exact counted.distinct i j beforeI beforeJ (sameI.symm.trans (equal.trans sameJ))
  below := by
    intro ahead i used
    obtain ⟨before, same⟩ := slots i used
    rw [nextpid] at ahead ⊢
    rw [same]
    exact counted.below ahead i before

theorem Table.Counted.allotted (counted : t.Counted) {np : Fin nproc}
    (pid : (t'.proc np).pid = t.nextpid) (others : ∀ i, i ≠ np → (t.proc i).Keeps (t'.proc i))
    (nextpid : t'.nextpid = t.nextpid + 1) (positive : 0 < t.nextpid)
    : t'.Counted := by
  -- The ids of the other slots are below the one that is given now.
  have old : ∀ i, i ≠ np → (t'.proc i).state ≠ .unused → (t'.proc i).pid < t.nextpid := by
    intro i other used
    obtain ⟨before, same⟩ := others i other used
    rw [same]
    exact counted.below positive i before
  have unequal : ∀ i, i ≠ np → (t'.proc i).state ≠ .unused
      → (t'.proc i).pid ≠ (t'.proc np).pid := by
    intro i other used equal
    have less := old i other used
    rw [equal, pid] at less
    exact Int32.lt_irrefl less
  refine ⟨⟨fun i used => ?_, fun i j usedI usedJ equal => ?_⟩, fun ahead i used => ?_⟩
  · rcases eq_or_ne i np with rfl | other
    · rwa [pid]
    · obtain ⟨before, same⟩ := others i other used
      rw [same]
      exact counted.positive i before
  · by_cases newI : i = np
    · by_contra different
      subst newI
      exact unequal j (Ne.symm different) usedJ equal.symm
    · by_cases newJ : j = np
      · subst newJ
        exact absurd equal (unequal i newI usedI)
      · obtain ⟨beforeI, sameI⟩ := others i newI usedI
        obtain ⟨beforeJ, sameJ⟩ := others j newJ usedJ
        exact counted.distinct i j beforeI beforeJ (sameI.symm.trans (equal.trans sameJ))
  · rw [nextpid] at ahead ⊢
    have next := lt_next positive ahead
    rcases eq_or_ne i np with rfl | other
    · rwa [pid]
    · exact Int32.lt_trans (old i other used) next

theorem Table.Counted.step (counted : t.Counted) (positive : t.HasPositivePid label)
    (stepped : step t label = some t')
    : t'.Counted := by
  cases step_naming stepped with
  | kept slots nextpid => exact counted.kept slots nextpid
  | allotted calls np unused pid others nextpid =>
    exact counted.allotted pid others nextpid (positive calls ⟨np, unused⟩)

theorem Table.boot_counted : Table.boot.Counted := by
  have first : ∀ i, (boot.proc i).state ≠ .unused → i = initproc := by
    intro i used
    by_contra other
    exact used (by simp [boot, other])
  have pid : (boot.proc initproc).pid = 1 := rfl
  refine ⟨⟨fun i used => ?_, fun i j usedI usedJ _ => ?_⟩, fun _ i used => ?_⟩
  · rw [first i used, pid]
    decide
  · rw [first i usedI, first j usedJ]
  · rw [first i used, pid]
    decide

/-- As long as `allocproc` only gives away positive values of its counter, the processes have
different, positive ids.
-/
theorem pidsUnique_of_positive {labels : List Step} {t : Table}
    (reached : run step labels Table.boot = some t)
    (positive : Along step Table.HasPositivePid labels Table.boot)
    : t.PidsUnique := by
  have counted : t.Counted :=
    along_induction (motive := fun _ t => t.Counted) Table.boot_counted
      (fun _ _ _ _ counted positive stepped => counted.step positive stepped) reached positive
  exact counted.toPidsUnique

/-- Two processes that the first one has made, and a third that one of them has made. -/
theorem pidsUnique_of_forks
    : ∃ t, run step
          [.reschedule initproc .running, .fork initproc true .copied,
            .fork initproc false .copied, .clone initproc true, .reschedule 1 .running,
            .fork 1 true .copied] Table.boot = some t
        ∧ ((t.proc 1).pid, (t.proc 2).pid, (t.proc 3).pid) = (2, 4, 5)
        ∧ t.PidsUnique := by
  obtain ⟨t, reached, pids⟩ : ∃ t ∈ run step
      [.reschedule initproc .running, .fork initproc true .copied,
        .fork initproc false .copied, .clone initproc true, .reschedule 1 .running,
        .fork 1 true .copied] Table.boot,
      ((t.proc 1).pid, (t.proc 2).pid, (t.proc 3).pid) = (2, 4, 5) := by
    decide +kernel
  exact ⟨t, reached, pids, pidsUnique_of_positive reached (by decide +kernel)⟩

/-! Once the counter has wrapped around. -/

/-- Only the first process exists; it runs, and the next id is `n`. -/
structure Table.Alone (t : Table) (n : Int32) : Prop where
  running : (t.proc initproc).state = .running
  pid : (t.proc initproc).pid = 1
  others : ∀ i, i ≠ initproc → (t.proc i).state = .unused
  nextpid : t.nextpid = n

/-- The first process forks a child that exits, and waits for it. -/
def forkAndWait : List Step :=
  [.fork initproc true .copied, .reschedule 1 .running, .exit 1, .wait initproc]

theorem Table.Alone.allocproc (alone : t.Alone n)
    : allocproc t true
      = ({ t.set 1 { t.proc 1 with state := .embryo, pid := n } with nextpid := n + 1 },
          some 1) := by
  have first : (List.finRange nproc).find? (fun i => (t.proc i).state = .unused) = some 1 := by
    have unused := alone.others 1 (by decide)
    have running := alone.running
    rw [show List.finRange nproc = initproc :: 1 :: (List.finRange nproc).drop 2 from rfl]
    simp [running, unused]
  simp [Proc.allocproc, first, alone.nextpid]

/-- The first process runs, and has one child, in the given state. -/
structure Table.HasChild (t : Table) (n : Int32) (state : ProcState) : Prop where
  running : (t.proc initproc).state = .running
  pid : (t.proc initproc).pid = 1
  others : ∀ i, i ≠ initproc → i ≠ 1 → (t.proc i).state = .unused
  state : (t.proc 1).state = state
  parent : (t.proc 1).parent = some initproc
  pgdir : (t.proc 1).pgdir ≠ none
  nextpid : t.nextpid = n

/-- A change of the child alone. -/
theorem Table.HasChild.of_update (child : Slot) (running : (t.proc initproc).state = .running)
    (pid : (t.proc initproc).pid = 1)
    (others : ∀ i, i ≠ initproc → i ≠ 1 → (t.proc i).state = .unused)
    (changed : t'.proc = update t.proc 1 child) (nextpid : t'.nextpid = n)
    (parent : child.parent = some initproc) (pgdir : child.pgdir ≠ none)
    : t'.HasChild n child.state := by
  refine ⟨?_, ?_, fun i notInit notChild => ?_, ?_, ?_, ?_, nextpid⟩ <;> rw [changed]
  · exact running
  · exact pid
  · rw [update_of_ne notChild]
    exact others i notInit notChild
  · rw [update_self]
  · rwa [update_self]
  · rwa [update_self]

theorem Table.Alone.fork (alone : t.Alone n)
    : ∃ t', step t (.fork initproc true .copied) = some t'
        ∧ t'.HasChild (n + 1) .runnable
        ∧ (t'.proc 1).pid = n := by
  let child : Slot :=
    { t.proc 1 with
      state := .runnable, pid := n, parent := some initproc, pgdir := some t.created }
  refine ⟨{ t.set 1 child with nextpid := n + 1, created := t.created + 1 }, ?_, ?_, ?_⟩
  · simp [step, Table.calls, alone.running, Proc.fork, alone.allocproc, Table.set, child]
  · exact .of_update child alone.running alone.pid
      (fun i notInit _ => alone.others i notInit) rfl rfl rfl (by simp [child])
  · rfl

theorem Table.HasChild.reschedule (has : t.HasChild n .runnable)
    : ∃ t', step t (.reschedule 1 .running) = some t' ∧ t'.HasChild n .running := by
  refine ⟨t.set 1 { t.proc 1 with state := .running }, ?_, ?_⟩
  · simp [step, has.state, ProcState.live]
  · exact .of_update { t.proc 1 with state := .running } has.running has.pid has.others rfl
      has.nextpid has.parent has.pgdir

theorem Table.HasChild.exit (has : t.HasChild n .running)
    : ∃ t', step t (.exit 1) = some t' ∧ t'.HasChild n .zombie := by
  -- Children that are adopted keep everything but their parent.
  let adopted : Table :=
    { t with
      proc := fun q =>
        if (t.proc q).parent = some 1 then { t.proc q with parent := some initproc }
        else t.proc q }
  have same : ∀ q, (adopted.proc q).state = (t.proc q).state
      ∧ (adopted.proc q).pid = (t.proc q).pid
      ∧ (adopted.proc q).pgdir = (t.proc q).pgdir := by
    intro q
    dsimp only [adopted]
    split <;> exact ⟨rfl, rfl, rfl⟩
  have parent : (adopted.proc 1).parent = some initproc := by
    have other : ¬ some initproc = some (1 : Fin nproc) := by decide
    simp only [adopted, has.parent, if_neg other]
  refine ⟨adopted.set 1 { adopted.proc 1 with state := .zombie }, ?_, ?_⟩
  · rw [step, calls, if_pos has.state, Proc.exit, if_neg (by decide)]
  · refine .of_update { adopted.proc 1 with state := .zombie } ((same _).1.trans has.running)
      ((same _).2.1.trans has.pid)
      (fun i notInit notChild => (same i).1.trans (has.others i notInit notChild)) rfl
      has.nextpid parent ?_
    rw [(same 1).2.2]
    exact has.pgdir

theorem Table.HasChild.wait (has : t.HasChild n .zombie)
    : ∃ t', step t (.wait initproc) = some t' ∧ t'.Alone n := by
  have found : t.zombieChild initproc false = some 1 := by
    rw [zombieChild, children, List.find?_filter,
      show List.finRange nproc = initproc :: 1 :: (List.finRange nproc).drop 2 from rfl]
    simp [has.running, has.state, has.parent]
  obtain ⟨d, pgdir⟩ := Option.ne_none_iff_exists'.mp has.pgdir
  refine ⟨{ t.reap 1 with freed := update t.freed d (t.freed d + 1) }, ?_, ?_⟩
  · simp [step, Table.calls, has.running, Proc.wait, reapLoop, found, pgdir, freevm, reap, set]
  · refine ⟨has.running, has.pid, fun i notInit => ?_, has.nextpid⟩
    rcases eq_or_ne i 1 with rfl | notChild
    · rfl
    · exact (congrArg Slot.state (update_of_ne notChild _ _)).trans
        (has.others i notInit notChild)

theorem Table.Alone.forkAndWait (alone : t.Alone n)
    : ∃ t', run step forkAndWait t = some t' ∧ t'.Alone (n + 1) := by
  obtain ⟨t₁, forked, has, _⟩ := alone.fork
  obtain ⟨t₂, scheduled, has⟩ := has.reschedule
  obtain ⟨t₃, exited, has⟩ := has.exit
  obtain ⟨t₄, reaped, alone⟩ := has.wait
  refine ⟨t₄, ?_, alone⟩
  exact run_cons.mpr ⟨t₁, forked, run_cons.mpr ⟨t₂, scheduled,
    run_cons.mpr ⟨t₃, exited, run_cons.mpr ⟨t₄, reaped, rfl⟩⟩⟩⟩

/-- Any number of forks in turn. -/
theorem Table.Alone.cycles (alone : t.Alone n) (count : Nat)
    : ∃ labels t', run step labels t = some t' ∧ t'.Alone (n + Int32.ofNat count) := by
  induction count with
  | zero => exact ⟨[], t, rfl, by simpa using alone⟩
  | succ count ih =>
    obtain ⟨labels, middle, ran, alone⟩ := ih
    obtain ⟨last, cycle, alone⟩ := alone.forkAndWait
    refine ⟨labels ++ Proc.forkAndWait, last, run_append.mpr ⟨middle, ran, cycle⟩, ?_⟩
    rw [Int32.add_assoc] at alone
    rw [Int32.ofNat_add]
    exact alone

/-- After `count` processes have come and gone, the next one has the id `count + 2`. -/
theorem exists_forked (count : Nat)
    : ∃ labels t n,
        run step labels Table.boot = some t
        ∧ t.HasChild n .runnable
        ∧ (t.proc 1).pid = 2 + Int32.ofNat count := by
  have started : (Table.boot.set initproc
      { Table.boot.proc initproc with state := .running }).Alone 2 := by
    refine ⟨rfl, rfl, fun i other => ?_, rfl⟩
    simp [Table.set, Table.boot, other]
  obtain ⟨labels, middle, ran, alone⟩ := started.cycles count
  obtain ⟨last, forked, has, pid⟩ := alone.fork
  refine ⟨.reschedule initproc .running :: (labels ++ [.fork initproc true .copied]), last, _,
    ?_, has, pid⟩
  exact run_cons.mpr ⟨_, rfl, run_concat.mpr ⟨middle, ran, forked⟩⟩

/-- After 2³¹ - 2 forks a process has a negative id, and after 2³² - 1 forks one has the id of
the first process, which still runs.
-/
theorem pids_wrap_around
    : (∃ labels t, run step labels Table.boot = some t
        ∧ (t.proc 1).state = .runnable ∧ (t.proc 1).pid < 0)
      ∧ ∃ labels t, run step labels Table.boot = some t
        ∧ (t.proc initproc).state = .running ∧ (t.proc 1).state = .runnable
        ∧ (t.proc 1).pid = (t.proc initproc).pid := by
  constructor
  · obtain ⟨labels, t, n, ran, has, pid⟩ := exists_forked (2 ^ 31 - 2)
    refine ⟨labels, t, ran, has.state, ?_⟩
    rw [pid]
    decide
  · obtain ⟨labels, t, n, ran, has, pid⟩ := exists_forked (2 ^ 32 - 1)
    refine ⟨labels, t, ran, has.running, has.state, ?_⟩
    rw [pid, has.pid]
    decide

end Xv6.Proc
