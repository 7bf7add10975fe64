import Xv6.Sched.Cpus

/-! The times that `wait2` reports. `update_statistics` counts in the slot of a process, and only
`wait2` sets the counters back to 0.
-/

namespace Xv6.Sched

open Xv6.Lib
open Xv6.Proc (ProcState initproc)

variable {κ : Type} [DecidableEq κ]

/-- The counters of a slot are 0. -/
def Proc.Zeroed (proc : Proc) : Prop := proc.retime = 0 ∧ proc.rutime = 0 ∧ proc.stime = 0

/-- The counter that the next tick counts up has not reached the largest `int`. -/
def Proc.CanTick (proc : Proc) : Prop :=
  match proc.state with
  | .sleeping => proc.stime ≠ Int32.maxValue
  | .runnable => proc.retime ≠ Int32.maxValue
  | .running => proc.rutime ≠ Int32.maxValue
  | .unused | .embryo | .zombie => True

instance (proc : Proc) : Decidable proc.Zeroed :=
  inferInstanceAs (Decidable (proc.retime = 0 ∧ proc.rutime = 0 ∧ proc.stime = 0))

instance (proc : Proc) : Decidable proc.CanTick := by
  dsimp only [Proc.CanTick]
  cases proc.state <;> infer_instance

/-- A slot that is taken has counters that are 0, and no counter overflows. -/
def CountsFromZero (s : State κ) : Label κ → Prop
  | .allocproc .. => ∀ np ∈ s.unused, (s.proc np).Zeroed
  | .tick => ∀ q, (s.proc q).CanTick
  | .switch .. | .yield _ | .sleep .. | .wakeup _ | .allocStack .. | .fill .. | .publish _ | .exit _
  | .scan .. | .kill .. | .setpriority .. | .take _ | .give _ => True

instance (s : State κ) : (label : Label κ) → Decidable (CountsFromZero s label)
  | .allocproc .. => inferInstanceAs (Decidable (∀ np ∈ s.unused, (s.proc np).Zeroed))
  | .tick => inferInstanceAs (Decidable (∀ q, (s.proc q).CanTick))
  | .switch .. | .yield _ | .sleep .. | .wakeup _ | .allocStack .. | .fill .. | .publish _ | .exit _
  | .scan .. | .kill .. | .setpriority .. | .take _ | .give _ => inferInstanceAs (Decidable True)

/-- The counters have the numbers of ticks in the life of the process. -/
structure Proc.Shows (proc : Proc) (life : Life) : Prop where
  ready : proc.retime.toInt = life.ready
  ran : proc.rutime.toInt = life.ran
  slept : proc.stime.toInt = life.slept

/-- Every process has the right counters. -/
def Timed (w : Watch) (s : State κ) : Prop :=
  ∀ q, (s.proc q).state ≠ .unused → (s.proc q).Shows (w.life q)

omit [DecidableEq κ] in
/-- A step that counts nothing and takes no slot. -/
theorem Timed.keep {w w' : Watch} {s t : State κ} (timed : Timed w s)
    (lives : ∀ q, (w'.life q).ready = (w.life q).ready ∧ (w'.life q).ran = (w.life q).ran
      ∧ (w'.life q).slept = (w.life q).slept)
    (used : ∀ q, (t.proc q).state ≠ .unused
      → (s.proc q).state ≠ .unused ∧ (t.proc q).retime = (s.proc q).retime
        ∧ (t.proc q).rutime = (s.proc q).rutime ∧ (t.proc q).stime = (s.proc q).stime)
    : Timed w' t := by
  intro q is
  obtain ⟨before, retime, rutime, stime⟩ := used q is
  obtain ⟨ready, ran, slept⟩ := lives q
  have shows := timed q before
  exact ⟨by rw [retime, ready, shows.ready], by rw [rutime, ran, shows.ran],
    by rw [stime, slept, shows.slept]⟩

theorem toInt_add_one {x : Int32} (below : x ≠ Int32.maxValue)
    : (x + 1).toInt = x.toInt + 1 := by
  have bound : x.toInt ≤ 2147483647 := Int32.toInt_le x
  have low : -2147483648 ≤ x.toInt := Int32.le_toInt x
  have notMax : x.toInt ≠ 2147483647 := fun same => below (Int32.toInt_inj.mp same)
  rw [Int32.toInt_add]
  exact Int.bmod_eq_of_le (by simp; omega) (by simp; omega)

/-- A tick counts for the process and in its life. -/
theorem Proc.Shows.tick {proc : Proc} {life : Life} (shows : proc.Shows life)
    (can : proc.CanTick)
    : proc.tick.Shows (life.tick proc.state) := by
  cases state : proc.state with
  | sleeping =>
    simp only [Proc.CanTick, state] at can
    simp only [Proc.tick, Life.tick, state]
    exact ⟨shows.ready, shows.ran, by simp [toInt_add_one can, shows.slept]⟩
  | runnable =>
    simp only [Proc.CanTick, state] at can
    simp only [Proc.tick, Life.tick, state]
    exact ⟨by simp [toInt_add_one can, shows.ready], shows.ran, shows.slept⟩
  | running =>
    simp only [Proc.CanTick, state] at can
    simp only [Proc.tick, Life.tick, state]
    exact ⟨shows.ready, by simp [toInt_add_one can, shows.ran], shows.slept⟩
  | unused | embryo | zombie =>
    simp only [Proc.tick, Life.tick, state]
    exact shows

/-- The conditions in the form in which the parts of a step need them. -/
def timesGuard : Guard κ where
  claim := fun s np _ => (s.proc np).Zeroed
  giveBack := fun _ _ => True
  kill := fun _ _ => True
  tick := fun s => ∀ q, (s.proc q).CanTick

omit [DecidableEq κ] in
theorem timesGuard_allows {s : State κ} {label : Label κ} (meets : CountsFromZero s label)
    : timesGuard.Allows s label := by
  cases label with
  | allocproc c thread => exact fun np found => meets np found
  | allocStack c page => exact fun _ _ _ _ _ _ _ => trivial
  | fill c copied => exact fun _ _ _ _ _ _ => trivial
  | kill c pid => exact fun _ _ => trivial
  | tick => exact meets
  | switch | yield | sleep | wakeup | publish | exit | scan | setpriority | take | give => trivial

theorem timed_preserved
    : Preserved timesGuard (fun _ s => Sound s) (Timed (κ := κ)) := by
  intro w s w' t part sound timed
  cases part with
  | @claim p np _ thread _ _ on free found zeroed =>
    intro q used
    by_cases same : q = np
    · subst same
      obtain ⟨retime, rutime, stime⟩ := zeroed
      exact ⟨by simp [Watch.bear, retime], by simp [Watch.bear, rutime],
        by simp [Watch.bear, stime]⟩
    · rw [claim_proc, if_neg same] at used ⊢
      rw [w.bear_other p np thread same]
      exact timed q used
  | fail | page => exact timed
  | kill | killNone =>
    exact timed.keep (fun q => by grind [Watch.name]) fun q => by grind [Proc.hit]
  | tick can => exact fun q used => (timed q (by grind)).tick (can q)
  | yield on | sleep on | exit on | await on =>
    have runs := sound.runs on
    exact timed.keep (fun _ => ⟨rfl, rfl, rfl⟩) fun q => by grind [Proc.bereft]
  | publish on making =>
    have embryo := sound.embryo _ _ _ _ making
    exact timed.keep (fun _ => ⟨rfl, rfl, rfl⟩) fun q => by grind
  | resume | wakeup | giveBack | setStack | fillFork | abandon | fillClone | reap | setpriority =>
    exact timed.keep (fun _ => ⟨rfl, rfl, rfl⟩) fun q => by grind [Proc.wake]

/-- In a run in which slots are taken with counters that are 0 and no counter overflows, the
times that `wait2` stores are the numbers of ticks at which the child was `RUNNABLE`, `RUNNING`
and `SLEEPING`. The loop of `wait2` looks at the table when it is called, or when the caller has
been resumed.
-/
theorem wait2_reports_ticks (kstack : Nat) {labels : List (Label κ)} {w : Watched κ}
    (reached : run Watched.step labels (.boot kstack) = some w)
    (careful : Along Watched.step (fun w label => CountsFromZero w.state label) labels
      (.boot kstack))
    (p : Slot) (t : State κ) (looks : t = w.state ∨ ∃ c, t = resume w.state c p)
    (pid retime rutime stime : Int32)
    (returned : wait2Result t p = some (pid, retime, rutime, stime))
    : ∃ q, t.zombieChild .wait2 p = some q
        ∧ (w.state.proc q).pid = pid
        ∧ retime.toInt = (w.watch.life q).ready
        ∧ rutime.toInt = (w.watch.life q).ran
        ∧ stime.toInt = (w.watch.life q).slept := by
  have allowed : Along Watched.step (fun w label => timesGuard.Allows w.state label) labels
      (.boot kstack) := careful.mono fun _ _ => timesGuard_allows
  obtain ⟨-, timed⟩ := (sound_preserved timesGuard).run timed_preserved (boot_sound kstack)
    (fun _ _ => ⟨rfl, rfl, rfl⟩) reached allowed
  obtain ⟨q, found, stored⟩ := Option.map_eq_some_iff.mp returned
  obtain ⟨zombie, -, -⟩ := State.zombieChild_spec found
  -- The zombie is not the caller, so it is the same in both tables.
  have same : t.proc q = w.state.proc q := by
    rcases looks with rfl | ⟨c, rfl⟩
    · rfl
    · have other : q ≠ p := by
        rintro rfl
        simp at zombie
      rw [resume_proc, if_neg other]
  rw [same] at stored zombie
  cases stored
  have shows := timed q (by simp [zombie])
  exact ⟨q, found, rfl, shows.ready, shows.ran, shows.slept⟩

/-- A child is `RUNNABLE` at a tick and reaped by `wait`; the next one has its slot, and is
`RUNNABLE` at no tick.
-/
def reusedByWait : List (Label Unit) :=
  [.switch () 0, .allocproc () false, .allocStack () (some 1), .fill () true, .publish (), .tick,
    .yield (), .switch () 1, .exit (), .switch () 0, .scan () .wait, .allocproc () false,
    .allocStack () (some 1), .fill () true, .publish (), .yield (), .switch () 1, .exit (),
    .switch () 0]

/-- `wait2` reports the tick of the first child for the second one. -/
theorem reusedByWait_reports
    : ∃ w, run Watched.step reusedByWait (.boot 0) = some w
        ∧ wait2Result w.state 0 = some (3, 1, 0, 0)
        ∧ (w.watch.life 1).ready = 0 := by
  decide +kernel

/-- A child is `RUNNABLE` at a tick, then runs at one, and exits. -/
def timedChild : List (Label Unit) :=
  [.switch () 0, .allocproc () false, .allocStack () (some 1), .fill () true, .publish (), .tick,
    .yield (), .switch () 1, .tick, .exit (), .switch () 0]

theorem timedChild_reports
    : ∃ w, run Watched.step timedChild (.boot 0) = some w
        ∧ ∃ q, w.state.zombieChild .wait2 0 = some q
            ∧ (w.state.proc q).pid = 2
            ∧ (1 : Int32).toInt = (w.watch.life q).ready
            ∧ (1 : Int32).toInt = (w.watch.life q).ran
            ∧ (0 : Int32).toInt = (w.watch.life q).slept := by
  have careful : Along Watched.step (fun w label => CountsFromZero w.state label) timedChild
      (.boot 0) := by
    decide +kernel
  obtain ⟨w, reached, reported⟩ : ∃ w ∈ run Watched.step timedChild (.boot 0),
      wait2Result w.state 0 = some (2, 1, 1, 0) := by
    decide +kernel
  exact ⟨w, reached, wait2_reports_ticks 0 reached careful 0 w.state (.inl rfl) 2 1 1 0 reported⟩

end Xv6.Sched
