import Xv6.Sched.Model

/-! What can happen to the process table in one step, said once for all invariants, and a record
of the lives of the processes that use its slots one after the other.
-/

namespace Xv6.Sched

open Xv6.Lib
open Xv6.Proc (ProcState initproc)

variable {κ : Type}

/-! The process table after each part of a step. -/

section Table

variable (s : State κ) (p q np : Slot) (thread : Bool)

@[simp, grind =] theorem wakeup1_proc (chan : Option Chan)
    : (wakeup1 s chan).proc q = (s.proc q).wake chan := rfl

@[simp, grind =] theorem claim_proc
    : (claim s p np thread).proc q
      = if q = np then { s.proc q with state := .embryo, priority := 10, pid := s.nextpid }
        else s.proc q := by
  simp [claim]

@[simp, grind =] theorem giveBack_proc
    : (giveBack s p np).proc q
      = if q = np then { s.proc q with kstack := none, state := .unused } else s.proc q := by
  simp [giveBack]

@[simp, grind =] theorem setStack_proc (k : Nat)
    : (setStack s p np thread k).proc q
      = if q = np then { s.proc q with kstack := some k } else s.proc q := by
  simp [setStack]

@[simp, grind =] theorem fillFork_proc
    : (fillFork s p np).proc q
      = if q = np then { s.proc q with parent := some p } else s.proc q := by
  simp [fillFork]

@[simp, grind =] theorem fillClone_proc
    : (fillClone s p np).proc q
      = if q = np then { s.proc q with parent := some p, isthread := true } else s.proc q := by
  simp [fillClone]

@[simp, grind =] theorem publish_proc
    : (publish s p np).proc q
      = if q = np then { s.proc q with state := .runnable } else s.proc q := by
  simp [publish]

@[simp, grind =] theorem State.kfree_proc (k : Option Nat) : (s.kfree k).proc q = s.proc q := by
  cases k <;> rfl

@[simp] theorem State.kfree_cpu (k : Option Nat) : (s.kfree k).cpu = s.cpu := by cases k <;> rfl

@[simp] theorem State.kfree_call (k : Option Nat) : (s.kfree k).call = s.call := by
  cases k <;> rfl

@[simp, grind =] theorem abandon_proc
    : (abandon s p np).proc q
      = if q = np then { s.proc q with kstack := none, state := .unused } else s.proc q := by
  simp [abandon]

@[simp, grind =] theorem reap_proc (reaper : Reaper)
    : (reap s reaper np).proc q = if q = np then (s.proc q).cleared reaper else s.proc q := by
  simp [reap]

@[simp, grind =] theorem updateStatistics_proc
    : (updateStatistics s).proc q = (s.proc q).tick := rfl

variable [DecidableEq κ] (c : κ)

@[simp, grind =] theorem resume_proc
    : (resume s c p).proc q
      = if q = p then { s.proc q with state := .running, chan := none } else s.proc q := by
  simp [resume]

@[simp, grind =] theorem yield_proc
    : (yield s c p).proc q = if q = p then { s.proc q with state := .runnable } else s.proc q := by
  simp [yield, sched]

@[simp, grind =] theorem sleep_proc (chan : Chan)
    : (sleep s c p chan).proc q
      = if q = p then { s.proc q with chan := some chan, state := .sleeping } else s.proc q := by
  simp [sleep, sched]

end Table

@[simp, grind =] theorem Proc.tick_state (proc : Proc) : proc.tick.state = proc.state := by
  unfold tick
  split <;> rfl

section Cleared

variable (proc : Proc) (reaper : Reaper)

@[simp, grind =] theorem Proc.cleared_state : (proc.cleared reaper).state = .unused := by
  cases reaper <;> rfl

@[simp, grind =] theorem Proc.cleared_kstack : (proc.cleared reaper).kstack = none := by
  cases reaper <;> rfl

@[simp, grind =] theorem Proc.cleared_parent : (proc.cleared reaper).parent = none := by
  cases reaper <;> rfl

@[simp, grind =] theorem Proc.cleared_killed : (proc.cleared reaper).killed = false := by
  cases reaper <;> rfl

end Cleared

/-! `exit`. -/

theorem State.sweep_sweep (s : State κ) (f g : Slot → Proc → Proc)
    : (s.sweep f).sweep g = s.sweep fun q proc => g q (f q proc) := rfl

/-- Some slot of `l` is a child of `p` that has exited already. -/
def State.handsZombie (s : State κ) (p : Slot) (l : List Slot) : Bool :=
  l.any fun z => (s.proc z).parent = some p ∧ (s.proc z).state = .zombie

/-- A process in the loop of `exit`: it may have been passed, and `initproc` may have been woken. -/
def Proc.handed (p : Slot) (passed woken : Bool) (proc : Proc) : Proc :=
  { proc with
    parent := if passed ∧ proc.parent = some p then some initproc else proc.parent
    state :=
      if woken ∧ proc.state = .sleeping ∧ proc.chan = some (.proc initproc) then .runnable
      else proc.state }

theorem Proc.handed_handed (p : Slot) (passed woken passed' woken' : Bool) (proc : Proc)
    : (proc.handed p passed woken).handed p passed' woken'
      = proc.handed p (passed || passed') (woken || woken') := by
  unfold handed
  grind

theorem handOver_eq (p : Slot) (s : State κ) (x : Slot)
    : handOver p s x = s.sweep fun q => Proc.handed p (q = x) (s.handsZombie p [x]) := by
  unfold handOver
  split
  · rename_i child
    split
    · rename_i zombie
      refine congrArg (fun proc => { s with proc }) (funext fun q => ?_)
      by_cases same : q = x
      · subst same
        simp [State.edit_proc, Proc.wake, Proc.handed, State.handsZombie, child, zombie]
      · simp [State.edit_proc, Proc.wake, Proc.handed, State.handsZombie, child, zombie, same]
    · rename_i zombie
      refine congrArg (fun proc => { s with proc }) (funext fun q => ?_)
      by_cases same : q = x
      · subst same
        simp [Proc.handed, State.handsZombie, child, zombie]
      · simp [Proc.handed, State.handsZombie, zombie, same]
  · rename_i child
    refine congrArg (fun proc => { s with proc }) (funext fun q => ?_)
    by_cases same : q = x
    · subst same
      simp [Proc.handed, State.handsZombie, child]
    · simp [Proc.handed, State.handsZombie, child, same]

/-- The loop of `exit` hands over every child, by induction on the slots it passes. -/
theorem foldl_handOver {p : Slot} (l : List Slot) (s : State κ) (nodup : l.Nodup)
    : l.foldl (handOver p) s = s.sweep fun q => Proc.handed p (q ∈ l) (s.handsZombie p l) := by
  induction l generalizing s with
  | nil => simp [State.sweep, Proc.handed, State.handsZombie]
  | cons x rest ih =>
    obtain ⟨fresh, nodup⟩ := List.nodup_cons.mp nodup
    rw [List.foldl_cons, ih _ nodup, handOver_eq]
    -- The pass over `x` changes no child and no zombie among the others.
    have others : (s.sweep fun q => Proc.handed p (q = x) (s.handsZombie p [x])).handsZombie p rest
        = s.handsZombie p rest := by
      rw [Bool.eq_iff_iff]
      simp only [State.handsZombie, List.any_eq_true, decide_eq_true_eq]
      refine exists_congr fun z => and_congr_right fun mem => ?_
      have other : z ≠ x := fun same => fresh (same ▸ mem)
      simp only [State.sweep_proc, Proc.handed, other, decide_false]
      grind
    rw [others, State.sweep_sweep]
    congr 1
    funext q proc
    rw [Proc.handed_handed]
    simp [State.handsZombie]

/-- A process after `p` has exited. -/
def Proc.bereft (s : State κ) (p q : Slot) (proc : Proc) : Proc :=
  { proc with
    parent := if proc.parent = some p then some initproc else proc.parent
    state :=
      if q = p then .zombie
      else if proc.state = .sleeping
          ∧ (proc.chan = (s.proc p).parent.map .proc
            ∨ s.handsZombie p (List.finRange nproc) ∧ proc.chan = some (.proc initproc)) then
        .runnable
      else proc.state }

/-- `exit` in one sweep over the table. -/
theorem exit_eq [DecidableEq κ] (s : State κ) (c : κ) (p : Slot)
    : exit s c p = (s.sweep (Proc.bereft s p)).setCpu c none := by
  have zombies : (wakeup1 s ((s.proc p).parent.map .proc)).handsZombie p (List.finRange nproc)
      = s.handsZombie p (List.finRange nproc) := by
    rw [Bool.eq_iff_iff]
    simp only [State.handsZombie, List.any_eq_true, decide_eq_true_eq, wakeup1, State.sweep_proc,
      Proc.wake]
    grind
  simp only [exit, sched, foldl_handOver _ _ (List.nodup_finRange nproc), zombies]
  refine congrArg (fun proc => { s with proc, cpu := Function.update s.cpu c none })
    (funext fun q => ?_)
  by_cases same : q = p
  · subst same
    simp [wakeup1, Proc.wake, Proc.handed, Proc.bereft]
  · simp only [wakeup1, State.sweep_sweep, State.edit_proc, Proc.wake, Proc.handed, Proc.bereft, same,
      State.sweep_proc, List.mem_finRange, decide_true,
      true_and, if_false]
    grind

section Exit

variable [DecidableEq κ] (s : State κ) (c : κ) (p q : Slot)

@[simp, grind =] theorem exit_proc : (exit s c p).proc q = (s.proc q).bereft s p q := by
  rw [exit_eq]
  rfl

@[simp] theorem exit_cpu : (exit s c p).cpu = Function.update s.cpu c none := by
  rw [exit_eq]
  rfl

@[simp] theorem exit_call : (exit s c p).call = s.call := by
  rw [exit_eq]
  rfl

@[simp] theorem exit_page : (exit s c p).page = s.page := by
  rw [exit_eq]
  rfl

end Exit

/-! Lives. -/

/-- The life of the process that has a slot: its number in the order of creation and that of its
creator, whether `clone` made it, whether `kill` was called with its pid, and at how many ticks
it was `RUNNABLE`, `RUNNING` and `SLEEPING`.
-/
structure Life where
  serial : Nat
  creator : Option Nat
  cloned : Bool
  named : Bool
  ready : Nat
  ran : Nat
  slept : Nat
  deriving DecidableEq

/-- The lives of all slots, the last one where a slot is unused. -/
structure Watch where
  life : Slot → Life
  births : Nat

/-- A process `p` makes one in slot `np`. -/
def Watch.bear (w : Watch) (p np : Slot) (thread : Bool) : Watch where
  life := Function.update w.life np
    { serial := w.births
      creator := some (w.life p).serial
      cloned := thread
      named := false
      ready := 0
      ran := 0
      slept := 0 }
  births := w.births + 1

/-- `kill` is called with the pid of some processes. -/
def Watch.name (w : Watch) (s : State κ) (pid : Int32) : Watch where
  life := fun q =>
    if (s.proc q).state ≠ .unused ∧ (s.proc q).pid = pid then { w.life q with named := true }
    else w.life q
  births := w.births

def Life.tick (life : Life) : ProcState → Life
  | .sleeping => { life with slept := life.slept + 1 }
  | .runnable => { life with ready := life.ready + 1 }
  | .running => { life with ran := life.ran + 1 }
  | .unused | .embryo | .zombie => life

def Watch.tick (w : Watch) (s : State κ) : Watch where
  life := fun q => (w.life q).tick (s.proc q).state
  births := w.births

/-- A process that is not at `np` has the life it had. -/
theorem Watch.bear_other (w : Watch) (p np : Slot) (thread : Bool) {q : Slot} (other : q ≠ np)
    : (w.bear p np thread).life q = w.life q := Function.update_of_ne other ..

/-- The life of the same process, at another time. -/
structure Life.Continues (later earlier : Life) : Prop where
  serial : later.serial = earlier.serial
  creator : later.creator = earlier.creator
  cloned : later.cloned = earlier.cloned

theorem Life.Continues.refl (life : Life) : life.Continues life := ⟨rfl, rfl, rfl⟩

theorem Watch.name_continues (w : Watch) (s : State κ) (pid : Int32) (q : Slot)
    : ((w.name s pid).life q).Continues (w.life q) := by
  simp only [name]
  split <;> exact ⟨rfl, rfl, rfl⟩

theorem Watch.tick_continues (w : Watch) (s : State κ) (q : Slot)
    : ((w.tick s).life q).Continues (w.life q) := by
  simp only [tick]
  cases (s.proc q).state <;> exact ⟨rfl, rfl, rfl⟩

/-- What a step means for the lives. -/
def Watch.after (w : Watch) (s : State κ) : Label κ → Watch
  | .allocproc c thread =>
      match s.cpu c, s.unused with
      | some p, some np => w.bear p np thread
      | _, _ => w
  | .kill _ pid => w.name s pid
  | .tick => w.tick s
  | .switch .. | .yield _ | .sleep .. | .wakeup _ | .allocStack .. | .fill .. | .publish _ | .exit _
  | .scan .. | .setpriority .. | .take _ | .give _ => w

/-- The machine with the record of its lives. -/
structure Watched (κ : Type) where
  state : State κ
  watch : Watch

def Watched.step [DecidableEq κ] (w : Watched κ) (label : Label κ) : Option (Watched κ) :=
  (w.state.step label).map fun t => ⟨t, w.watch.after w.state label⟩

/-- At the start `initproc` is process 0. -/
def Watched.boot (kstack : Nat) : Watched κ where
  state := .boot kstack
  watch :=
    { life := fun _ =>
        { serial := 0
          creator := none
          cloned := false
          named := false
          ready := 0
          ran := 0
          slept := 0 }
      births := 1 }

/-- What a run does can be recorded. -/
theorem run_watched [DecidableEq κ] {labels : List (Label κ)} {s t : State κ}
    (reached : run State.step labels s = some t) (watch : Watch)
    : ∃ after, run Watched.step labels ⟨s, watch⟩ = some ⟨t, after⟩ := by
  induction labels generalizing s watch with
  | nil =>
    cases reached
    exact ⟨watch, rfl⟩
  | cons label rest ih =>
    obtain ⟨middle, stepped, onward⟩ := run_cons.mp reached
    obtain ⟨after, recorded⟩ := ih onward (watch.after s label)
    exact ⟨after, run_cons.mpr ⟨_, by simp [Watched.step, stepped], recorded⟩⟩

/-! Invariants. -/

/-- Conditions on the states in which a slot is claimed or given back, in which `kill` finds a
process, and on those at a tick.
-/
structure Guard (κ : Type) where
  claim : State κ → Slot → Bool → Prop
  giveBack : State κ → Slot → Prop
  kill : State κ → Slot → Prop
  tick : State κ → Prop

/-- No condition. -/
def Guard.none : Guard κ where
  claim := fun _ _ _ => True
  giveBack := fun _ _ => True
  kill := fun _ _ => True
  tick := fun _ => True

/-- A step meets the conditions. -/
def Guard.Allows (guard : Guard κ) (s : State κ) : Label κ → Prop
  | .allocproc _ thread => ∀ np, s.unused = some np → guard.claim s np thread
  | .allocStack c page =>
      page = Option.none
      → ∀ p np thread stage,
          s.cpu c = some p → s.call p = some (.making np thread stage) → guard.giveBack s np
  | .fill c copied =>
      copied = false
      → ∀ p np stage,
          s.cpu c = some p → s.call p = some (.making np false stage) → guard.giveBack s np
  | .kill _ pid => ∀ q, s.named pid = some q → guard.kill s q
  | .tick => guard.tick s
  | .switch .. | .yield _ | .sleep .. | .wakeup _ | .publish _ | .exit _ | .scan ..
  | .setpriority .. | .take _ | .give _ => True

theorem Guard.none_allows (s : State κ) (label : Label κ) : Guard.none.Allows s label := by
  cases label <;> simp [Guard.Allows, Guard.none]

variable [DecidableEq κ]

/-- The parts that the steps consist of, with what holds when they begin. -/
inductive Part (guard : Guard κ) : Watch → State κ → Watch → State κ → Prop where
  | resume (idle : s.cpu c = none) (runnable : (s.proc p).state = .runnable)
      : Part guard w s w (resume s c p)
  | yield (on : s.cpu c = some p) : Part guard w s w (yield s c p)
  | sleep (on : s.cpu c = some p) (free : s.call p = none)
      : Part guard w s w (sleep s c p (.address a))
  | wakeup (a : UInt32) : Part guard w s w (wakeup1 s (some (.address a)))
  | claim (on : s.cpu c = some p) (free : s.call p = none) (found : s.unused = some np)
      (allowed : guard.claim s np thread)
      : Part guard w s (w.bear p np thread) (claim s p np thread)
  | giveBack (on : s.cpu c = some p) (making : s.call p = some (.making np thread .found))
      (allowed : guard.giveBack s np)
      : Part guard w s w (giveBack s p np)
  | setStack (on : s.cpu c = some p) (making : s.call p = some (.making np thread .found))
      (isFree : s.page k = .free)
      : Part guard w s w (setStack s p np thread k)
  | fillFork (on : s.cpu c = some p) (making : s.call p = some (.making np false .stacked))
      : Part guard w s w (fillFork s p np)
  | abandon (on : s.cpu c = some p) (making : s.call p = some (.making np false .stacked))
      (allowed : guard.giveBack s np)
      : Part guard w s w (abandon s p np)
  | fillClone (on : s.cpu c = some p) (making : s.call p = some (.making np true .stacked))
      : Part guard w s w (fillClone s p np)
  | publish (on : s.cpu c = some p) (making : s.call p = some (.making np thread .filled))
      : Part guard w s w (publish s p np)
  | exit (on : s.cpu c = some p) (free : s.call p = none) (notInit : p ≠ initproc)
      : Part guard w s w (exit s c p)
  | reap (on : s.cpu c = some p) (outside : ∀ np thread stage, s.call p ≠ some (.making np thread stage))
      (found : s.zombieChild reaper p = some q)
      : Part guard w s w ((reap s reaper q).setCall p none)
  | fail (on : s.cpu c = some p)
      (outside : ∀ np thread stage, s.call p ≠ some (.making np thread stage))
      : Part guard w s w (s.setCall p none)
  | await (on : s.cpu c = some p)
      (outside : ∀ np thread stage, s.call p ≠ some (.making np thread stage))
      (none : s.zombieChild reaper p = none)
      : Part guard w s w ((sleep s c p (.proc p)).setCall p (some (.reaping reaper)))
  | kill (found : s.named pid = some q) (allowed : guard.kill s q)
      : Part guard w s (w.name s pid) (s.edit q Proc.hit)
  | killNone (found : s.named pid = none) : Part guard w s (w.name s pid) s
  | setpriority (q : Slot) (priority : Int32)
      : Part guard w s w (s.edit q fun proc => { proc with priority })
  | tick (allowed : guard.tick s) : Part guard w s (w.tick s) (updateStatistics s)
  | page (notStack : s.page k ≠ .stack) (becomes : use ≠ .stack)
      : Part guard w s w (s.setPage k use)

/-- A property that no part of a step breaks, given another one that holds before it. -/
def Preserved (guard : Guard κ) (base inv : Watch → State κ → Prop) : Prop :=
  ∀ ⦃w s w' t⦄, Part guard w s w' t → base w s → inv w s → inv w' t

variable {guard : Guard κ} {base inv : Watch → State κ → Prop}
variable {s t : State κ} {c : κ} {w : Watch} {p : Slot}

omit [DecidableEq κ] in
/-- A step of the process on a CPU. -/
theorem State.on_some {f : Slot → Option Call → Option (State κ)} (ran : s.on c f = some t)
    : ∃ p, s.cpu c = some p ∧ f p (s.call p) = some t := by
  unfold State.on at ran
  split at ran
  · cases ran
  · exact ⟨_, ‹_›, ran⟩

omit [DecidableEq κ] in
theorem State.on_free {f : Slot → State κ}
    (ran : s.on c (fun p call => if call = none then some (f p) else none) = some t)
    : ∃ p, s.cpu c = some p ∧ s.call p = none ∧ t = f p := by
  obtain ⟨p, on, ran⟩ := State.on_some ran
  split at ran
  · cases ran
    exact ⟨p, on, ‹_›, rfl⟩
  · cases ran

theorem Preserved.scan (kept : Preserved guard base inv) (reaper : Reaper) (holdsBase : base w s)
    (holds : inv w s) (on : s.cpu c = some p)
    (outside : ∀ np thread stage, s.call p ≠ some (.making np thread stage))
    : inv w (Sched.scan s reaper c p) := by
  unfold Sched.scan
  split
  · exact kept (.reap on outside ‹_›) holdsBase holds
  · split
    · exact kept (.fail on outside) holdsBase holds
    · exact kept (.await on outside ‹_›) holdsBase holds

theorem Preserved.switch (baseKept : Preserved guard (fun _ _ => True) base)
    (kept : Preserved guard base inv) (holdsBase : base w s) (holds : inv w s)
    (idle : s.cpu c = none) (runnable : (s.proc p).state = .runnable)
    : inv w (Sched.switch s c p) := by
  have resumed := kept (.resume idle runnable) holdsBase holds
  unfold Sched.switch
  split
  · rename_i reaper inside
    refine kept.scan reaper (baseKept (.resume idle runnable) trivial holdsBase) resumed
      (by simp [Sched.resume]) fun np thread stage making => ?_
    simp [Sched.resume, inside] at making
  · exact resumed
  · exact resumed

/-- One step. -/
theorem Preserved.step (baseKept : Preserved guard (fun _ _ => True) base)
    (kept : Preserved guard base inv) {watch : Watch} {label : Label κ}
    (ran : s.step label = some t) (allowed : guard.Allows s label) (holdsBase : base watch s)
    (holds : inv watch s)
    : inv (watch.after s label) t := by
  cases label with
  | switch c p =>
    simp only [State.step] at ran
    split at ran
    · rename_i guards
      cases ran
      exact baseKept.switch kept holdsBase holds guards.1 guards.2
    · cases ran
  | yield c =>
    simp only [State.step] at ran
    obtain ⟨p, on, ran⟩ := State.on_some ran
    cases ran
    exact kept (.yield on) holdsBase holds
  | sleep c a =>
    obtain ⟨p, on, free, rfl⟩ := State.on_free ran
    exact kept (.sleep on free) holdsBase holds
  | wakeup a =>
    cases ran
    exact kept (.wakeup a) holdsBase holds
  | allocproc c thread =>
    obtain ⟨p, on, free, rfl⟩ := State.on_free ran
    show inv (watch.after s (.allocproc c thread)) (Sched.allocproc s p thread)
    unfold Sched.allocproc
    cases found : s.unused with
    | none => simpa [Watch.after, on, found] using holds
    | some np =>
      have claimed := kept (.claim on free found (allowed np found)) holdsBase holds
      simpa [Watch.after, on, found] using claimed
  | allocStack c page =>
    simp only [State.step] at ran
    obtain ⟨p, on, ran⟩ := State.on_some ran
    split at ran
    · rename_i np thread making
      cases page with
      | none =>
        cases ran
        exact kept (.giveBack on making (allowed rfl p np thread .found on making)) holdsBase holds
      | some k =>
        simp only [Sched.allocStack] at ran
        split at ran
        · cases ran
          exact kept (.setStack on making ‹_›) holdsBase holds
        · cases ran
    · cases ran
  | fill c copied =>
    simp only [State.step] at ran
    obtain ⟨p, on, ran⟩ := State.on_some ran
    split at ran
    · rename_i np making
      cases copied with
      | false =>
        cases ran
        exact kept (.abandon on making (allowed rfl p np .stacked on making)) holdsBase holds
      | true =>
        cases ran
        exact kept (.fillFork on making) holdsBase holds
    · cases ran
      exact kept (.fillClone on ‹_›) holdsBase holds
    · cases ran
  | publish c =>
    simp only [State.step] at ran
    obtain ⟨p, on, ran⟩ := State.on_some ran
    split at ran
    · cases ran
      exact kept (.publish on ‹_›) holdsBase holds
    · cases ran
  | exit c =>
    simp only [State.step] at ran
    obtain ⟨p, on, ran⟩ := State.on_some ran
    split at ran
    · rename_i guards
      cases ran
      exact kept (.exit on guards.1 guards.2) holdsBase holds
    · cases ran
  | scan c reaper =>
    obtain ⟨p, on, free, rfl⟩ := State.on_free ran
    exact kept.scan reaper holdsBase holds on (by simp [free])
  | kill c pid =>
    obtain ⟨p, on, free, rfl⟩ := State.on_free ran
    show inv (watch.name s pid) (Sched.kill s pid).1
    unfold Sched.kill
    split
    · exact kept (.killNone ‹_›) holdsBase holds
    · rename_i q found
      exact kept (.kill found (allowed q found)) holdsBase holds
  | setpriority c pid priority =>
    obtain ⟨p, on, free, rfl⟩ := State.on_free ran
    show inv watch (Sched.setpriority s pid priority).1
    unfold Sched.setpriority
    split
    · exact holds
    · split
      · exact holds
      · exact kept (.setpriority _ _) holdsBase holds
  | tick =>
    cases ran
    exact kept (.tick allowed) holdsBase holds
  | take k =>
    simp only [State.step] at ran
    split at ran
    · rename_i isFree
      cases ran
      exact kept (.page (by simp [isFree]) (by simp)) holdsBase holds
    · cases ran
  | give k =>
    simp only [State.step] at ran
    split at ran
    · rename_i isOther
      cases ran
      exact kept (.page (by simp [isOther]) (by simp)) holdsBase holds
    · cases ran

theorem preserved_true : Preserved guard base fun _ _ => True :=
  fun _ _ _ _ _ _ _ => trivial

/-- A property and one that rests on it. -/
theorem Preserved.and (baseKept : Preserved guard (fun _ _ => True) base)
    (kept : Preserved guard base inv)
    : Preserved guard (fun _ _ => True) fun w s => base w s ∧ inv w s :=
  fun _ _ _ _ part _ both => ⟨baseKept part trivial both.1, kept part both.1 both.2⟩

/-- In a run whose steps meet the conditions both properties hold in every state. -/
theorem Preserved.run (baseKept : Preserved guard (fun _ _ => True) base)
    (kept : Preserved guard base inv) {labels : List (Label κ)} {w w' : Watched κ}
    (holdsBase : base w.watch w.state) (holds : inv w.watch w.state)
    (reached : Lib.run Watched.step labels w = some w')
    (allowed : Along Watched.step (fun w label => guard.Allows w.state label) labels w)
    : base w'.watch w'.state ∧ inv w'.watch w'.state := by
  refine along_induction (motive := fun _ w => base w.watch w.state ∧ inv w.watch w.state)
    ⟨holdsBase, holds⟩ ?_ reached allowed
  rintro - w label w' ⟨holdsBase, holds⟩ allowed stepped
  obtain ⟨t, ran, rfl⟩ := Option.map_eq_some_iff.mp stepped
  exact ⟨preserved_true.step baseKept ran allowed trivial holdsBase,
    baseKept.step kept ran allowed holdsBase holds⟩

end Xv6.Sched
