import Xv6.Sched.Cpus

/-! The mark `isthread`. `clone` sets it and nothing ever clears it, so it outlives the thread. -/

namespace Xv6.Sched

open Xv6.Lib
open Xv6.Proc (ProcState initproc)

variable {κ : Type} [DecidableEq κ]
variable {w : Watch} {s t : State κ}

/-- `fork` takes no slot that is marked as a thread's. -/
def ForksUnmarked (s : State κ) : Label κ → Prop
  | .allocproc _ thread =>
      thread = false → ∀ np ∈ s.unused, (s.proc np).isthread = false
  | .switch .. | .yield _ | .sleep .. | .wakeup _ | .allocStack .. | .fill .. | .publish _ | .exit _
  | .scan .. | .kill .. | .setpriority .. | .tick | .take _ | .give _ => True

instance (s : State κ) : (label : Label κ) → Decidable (ForksUnmarked s label)
  | .allocproc _ thread =>
      inferInstanceAs (Decidable (thread = false → ∀ np ∈ s.unused, (s.proc np).isthread = false))
  | .switch .. | .yield _ | .sleep .. | .wakeup _ | .allocStack .. | .fill .. | .publish _ | .exit _
  | .scan .. | .kill .. | .setpriority .. | .tick | .take _ | .give _ =>
      inferInstanceAs (Decidable True)

/-- The mark is right for every process, and for every embryo once its fields are set. -/
structure Marked (w : Watch) (s : State κ) : Prop where
  made : ∀ q, (s.proc q).Made → (s.proc q).isthread = (w.life q).cloned
  making : ∀ p np thread stage, s.call p = some (.making np thread stage)
    → (w.life np).cloned = thread
      ∧ (thread = false ∨ stage = .filled → (s.proc np).isthread = thread)

omit [DecidableEq κ] in
/-- A step that makes no process and marks none. -/
theorem Marked.keep {w' : Watch} (marked : Marked w s)
    (lives : ∀ q, (w'.life q).Continues (w.life q))
    (isthread : ∀ q, (t.proc q).isthread = (s.proc q).isthread)
    (made : ∀ q, (t.proc q).Made → (s.proc q).Made)
    (making : ∀ p np thread stage, t.call p = some (.making np thread stage)
      → ∃ before, s.call p = some (.making np thread before)
          ∧ (stage = .filled ↔ before = .filled))
    : Marked w' t where
  made q is := by
    rw [isthread, (lives q).cloned]
    exact marked.made q (made q is)
  making p np thread stage inside := by
    obtain ⟨before, wasInside, same⟩ := making p np thread stage inside
    obtain ⟨kind, mark⟩ := marked.making p np thread before wasInside
    rw [isthread, (lives np).cloned]
    exact ⟨kind, fun set => mark (set.imp_right same.mp)⟩

/-- The condition in the form in which the parts of a step need it. -/
def threadsGuard : Guard κ where
  claim := fun s np thread => thread = false → (s.proc np).isthread = false
  giveBack := fun _ _ => True
  kill := fun _ _ => True
  tick := fun _ => True

omit [DecidableEq κ] in
theorem threadsGuard_allows {label : Label κ} (meets : ForksUnmarked s label)
    : threadsGuard.Allows s label := by
  cases label with
  | allocproc c thread => exact fun np found fork => meets fork np found
  | allocStack c page => exact fun _ _ _ _ _ _ _ => trivial
  | fill c copied => exact fun _ _ _ _ _ _ => trivial
  | kill c pid => exact fun _ _ => trivial
  | switch | yield | sleep | wakeup | publish | exit | scan | setpriority | tick | take | give =>
    trivial

@[simp, grind =] theorem Proc.tick_isthread (proc : Proc) : proc.tick.isthread = proc.isthread := by
  unfold tick
  split <;> rfl

@[simp, grind =] theorem Proc.cleared_isthread (proc : Proc) (reaper : Reaper)
    : (proc.cleared reaper).isthread = proc.isthread := by
  cases reaper <;> rfl

omit [DecidableEq κ] in
/-- `fork` and `clone` have set the fields of their embryo. -/
theorem Marked.fill {p np : Slot} {thread : Bool} {stage : Stage} (sound : Sound s)
    (marked : Marked w s) (making : s.call p = some (.making np thread stage))
    (isthread : ∀ q, (t.proc q).isthread = if q = np then thread else (s.proc q).isthread)
    (states : ∀ q, (t.proc q).state = (s.proc q).state)
    (calls : t.call = Function.update s.call p (some (.making np thread .filled)))
    : Marked w t := by
  have embryo := sound.embryo p np thread stage making
  refine ⟨fun q made => ?_, fun q r thread' stage' inside => ?_⟩
  · have before := marked.made q
    grind [Proc.Made]
  · rw [calls] at inside
    rcases making_of_update inside with ⟨-, now⟩ | ⟨other, before⟩
    · cases now
      exact ⟨(marked.making p np thread stage making).1, fun _ => by rw [isthread, if_pos rfl]⟩
    · have different : r ≠ np := fun same =>
        other (sound.sole q p np _ _ _ _ (same ▸ before) making)
      rw [isthread, if_neg different]
      exact marked.making q r thread' stage' before

theorem marked_preserved
    : Preserved threadsGuard (fun _ s => Sound s) (Marked (κ := κ)) := by
  intro w s w' t part sound marked
  cases part with
  | @claim p np _ thread _ _ on free found allowed =>
    have unused := State.unused_state found
    refine ⟨fun q made => ?_, fun q r thread' stage inside => ?_⟩
    · have different : q ≠ np := by
        rintro rfl
        simp [Proc.Made] at made
      rw [claim_proc, if_neg different] at made ⊢
      rw [w.bear_other p np thread different]
      exact marked.made q made
    · rcases making_of_update (f := s.call) inside with ⟨-, now⟩ | ⟨-, before⟩
      · cases now
        refine ⟨by simp [Watch.bear], fun set => ?_⟩
        have forked : thread = false := set.resolve_right (by simp)
        simp [allowed forked, forked]
      · have different : r ≠ np := by
          rintro rfl
          simp [sound.embryo q r thread' stage before] at unused
        rw [w.bear_other p np thread different, claim_proc, if_neg different]
        exact marked.making q r thread' stage before
  | setStack on making =>
    refine marked.keep (fun _ => .refl _) (fun q => by grind) (fun q => by grind [Proc.Made])
      fun q r thread' stage inside => ?_
    rcases making_of_update (f := s.call) inside with ⟨rfl, now⟩ | ⟨-, before⟩
    · cases now
      exact ⟨.found, making, by simp⟩
    · exact ⟨stage, before, Iff.rfl⟩
  | fillFork on making =>
    have unmarked := (marked.making _ _ false .stacked making).2 (.inl rfl)
    exact marked.fill sound making (fun q => by grind) (fun q => by grind) rfl
  | fillClone on making => exact marked.fill sound making (fun q => by grind) (fun q => by grind) rfl
  | publish on making =>
    obtain ⟨kind, mark⟩ := marked.making _ _ _ .filled making
    refine ⟨fun q made => ?_, fun q r thread' stage inside => ?_⟩
    · have before := marked.made q
      grind [Proc.Made]
    · have before := (sound.making_other making inside).1
      have same := marked.making q r thread' stage before
      grind
  | exit on =>
    exact marked.keep (fun _ => .refl _) (fun q => by grind [Proc.bereft])
      (fun q => by grind [Proc.Made, Proc.bereft, sound.runs on])
      fun q r thread' stage inside => ⟨stage, by rwa [exit_call] at inside, Iff.rfl⟩
  | abandon | reap =>
    exact marked.keep (fun _ => .refl _) (fun q => by grind) (fun q => by grind [Proc.Made])
      fun q r thread' stage inside =>
        making_left q r thread' stage (by simpa [abandon, giveBack, reap] using inside)
  | giveBack | fail =>
    exact marked.keep (fun _ => .refl _) (fun q => by grind) (fun q => by grind [Proc.Made])
      making_left
  | await on =>
    exact marked.keep (fun _ => .refl _) (fun q => by grind)
      (fun q => by grind [Proc.Made, sound.runs on]) making_left
  | yield on | sleep on =>
    exact marked.keep (fun _ => .refl _) (fun q => by grind)
      (fun q => by grind [Proc.Made, sound.runs on]) making_unmoved
  | kill | killNone =>
    exact marked.keep (w.name_continues s _) (fun q => by grind [Proc.hit])
      (fun q => by grind [Proc.Made, Proc.hit]) making_unmoved
  | tick =>
    exact marked.keep (w.tick_continues s) (fun q => by grind) (fun q => by grind [Proc.Made])
      making_unmoved
  | resume | wakeup | setpriority | page =>
    exact marked.keep (fun _ => .refl _) (fun q => by grind [Proc.wake])
      (fun q => by grind [Proc.Made, Proc.wake]) making_unmoved

/-- In a run in which `fork` takes no slot that is marked as a thread's, the mark tells threads
from processes, and `join` reaps threads only.
-/
theorem isthread_iff_cloned (kstack : Nat) {labels : List (Label κ)} {w : Watched κ}
    (reached : run Watched.step labels (.boot kstack) = some w)
    (careful : Along Watched.step (fun w label => ForksUnmarked w.state label) labels
      (.boot kstack))
    : (∀ q, (w.state.proc q).Made → (w.state.proc q).isthread = (w.watch.life q).cloned)
      ∧ ∀ p q, w.state.zombieChild .join p = some q → (w.watch.life q).cloned = true := by
  have allowed : Along Watched.step (fun w label => threadsGuard.Allows w.state label) labels
      (.boot kstack) := careful.mono fun _ _ => threadsGuard_allows
  obtain ⟨-, marked⟩ := (sound_preserved threadsGuard).run marked_preserved (boot_sound kstack)
    ⟨fun _ _ => rfl, fun _ _ _ _ making => by simp [Watched.boot, State.boot] at making⟩ reached
    allowed
  refine ⟨marked.made, fun p q found => ?_⟩
  obtain ⟨zombie, -, thread⟩ := State.zombieChild_spec found
  rw [← marked.made q (by simp [Proc.Made, zombie])]
  exact thread rfl

/-- A thread of `initproc` exits and is joined; then `initproc` forks. -/
def forksInThreadSlot : List (Label Unit) :=
  [.switch () 0, .allocproc () true, .allocStack () (some 1), .fill () true, .publish (), .yield (),
    .switch () 1, .exit (), .switch () 0, .scan () .join, .allocproc () false,
    .allocStack () (some 1), .fill () true, .publish (), .yield (), .switch () 1, .exit ()]

/-- The new process is marked as a thread, and `join` would reap it. -/
theorem forksInThreadSlot_marked
    : ∃ w, run Watched.step forksInThreadSlot (.boot 0) = some w
        ∧ (w.state.proc 1).isthread = true
        ∧ (w.watch.life 1).cloned = false
        ∧ w.state.zombieChild .join 0 = some 1 := by
  decide +kernel

/-- `initproc` has an exited thread and a child. -/
def threadAndChild : List (Label Unit) :=
  [.switch () 0, .allocproc () true, .allocStack () (some 1), .fill () true, .publish (),
    .allocproc () false, .allocStack () (some 2), .fill () true, .publish (), .yield (),
    .switch () 1, .exit ()]

theorem threadAndChild_marked
    : ∃ w, run Watched.step threadAndChild (.boot 0) = some w
        ∧ w.state.zombieChild .join 0 = some 1
        ∧ (w.watch.life 1).cloned = true
        ∧ (w.state.proc 2).isthread = (w.watch.life 2).cloned := by
  have careful : Along Watched.step (fun w label => ForksUnmarked w.state label) threadAndChild
      (.boot 0) := by
    decide +kernel
  obtain ⟨w, reached, found, runnable⟩ : ∃ w ∈ run Watched.step threadAndChild (.boot 0),
      w.state.zombieChild .join 0 = some 1 ∧ (w.state.proc 2).state = .runnable := by
    decide +kernel
  obtain ⟨made, joined⟩ := isthread_iff_cloned 0 reached careful
  exact ⟨w, reached, found, joined 0 1 found, made 2 (by simp [Proc.Made, runnable])⟩

end Xv6.Sched
