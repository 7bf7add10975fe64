import Xv6.Sched.Tree

/-! Parents asleep in `wait`, `wait2` and `join`. The exiting process wakes its parent before it
becomes a zombie, and `initproc` if it hands over a zombie.
-/

namespace Xv6.Sched

open Xv6.Lib
open Xv6.Proc (ProcState initproc)

variable {κ : Type} [DecidableEq κ]
variable {s : State κ} {p : Slot} {reaper : Reaper}

/-- Process `q` sleeps inside a reaper. -/
def State.Awaits (s : State κ) (q : Slot) (reaper : Reaper) : Prop :=
  s.call q = some (.reaping reaper) ∧ (s.proc q).state = .sleeping

/-- Slot `z` holds a zombie that the reaper called by `q` looks for. -/
def State.Reapable (s : State κ) (q : Slot) (reaper : Reaper) (z : Slot) : Prop :=
  (s.proc z).parent = some q ∧ (s.proc z).state = .zombie
  ∧ (reaper = .join → (s.proc z).isthread = true)

structure Attentive (s : State κ) : Prop where
  chan : ∀ q reaper, s.Awaits q reaper → (s.proc q).chan = some (.proc q)
  heard : ∀ q reaper z, s.Awaits q reaper → ¬ s.Reapable q reaper z

omit [DecidableEq κ] in
/-- A step that puts no parent to sleep and makes no zombie. -/
theorem Attentive.keep {t : State κ} (attentive : Attentive s)
    (calls : ∀ q reaper, t.call q = some (.reaping reaper) → s.call q = some (.reaping reaper))
    (asleep : ∀ q, s.call q ≠ none → (t.proc q).state = .sleeping
      → (s.proc q).state = .sleeping ∧ (t.proc q).chan = (s.proc q).chan)
    (zombies : ∀ z, (t.proc z).state = .zombie
      → (s.proc z).state = .zombie ∧ (t.proc z).parent = (s.proc z).parent
        ∧ (t.proc z).isthread = (s.proc z).isthread)
    : Attentive t := by
  have awaits : ∀ q reaper, t.Awaits q reaper
      → s.Awaits q reaper ∧ (t.proc q).chan = (s.proc q).chan := by
    rintro q reaper ⟨inside, sleeps⟩
    have before := calls q reaper inside
    obtain ⟨slept, same⟩ := asleep q (by simp [before]) sleeps
    exact ⟨⟨before, slept⟩, same⟩
  refine ⟨fun q reaper now => ?_, fun q reaper z now reapable => ?_⟩
  · obtain ⟨before, same⟩ := awaits q reaper now
    rw [same]
    exact attentive.chan q reaper before
  · obtain ⟨child, zombie, thread⟩ := reapable
    obtain ⟨wasZombie, sameParent, sameKind⟩ := zombies z zombie
    rw [sameParent] at child
    rw [sameKind] at thread
    exact attentive.heard q reaper z (awaits q reaper now).1 ⟨child, wasZombie, thread⟩

theorem reaping_of_update {f : Slot → Option Call} {q : Slot} {call : Option Call}
    (inside : Function.update f p call q = some (.reaping reaper))
    (outside : ∀ reaper, call ≠ some (.reaping reaper))
    : f q = some (.reaping reaper) := by
  by_cases same : q = p
  · subst same
    rw [Function.update_self] at inside
    exact absurd inside (outside reaper)
  · rwa [Function.update_of_ne same] at inside

omit [DecidableEq κ] in
theorem State.zombieChild_none (none : s.zombieChild reaper p = none) (z : Slot)
    : ¬ s.Reapable p reaper z := by
  rintro ⟨child, zombie, thread⟩
  have mem : z ∈ s.children reaper p := by
    simp only [children, List.mem_filter, List.mem_finRange, true_and, decide_eq_true_eq]
    exact ⟨child, thread⟩
  have := List.find?_eq_none.mp none z mem
  simp [zombie] at this

/-- `exit` wakes everyone who then has a zombie to reap. -/
theorem Attentive.exit {w : Watch} {c : κ} (sound : Sound s) (rooted : Rooted w s)
    (attentive : Attentive s) (on : s.cpu c = some p) (notInit : p ≠ initproc)
    : Attentive (exit s c p) := by
  have runs := sound.runs on
  have asleep : ∀ q reaper, (Sched.exit s c p).Awaits q reaper
      → s.Awaits q reaper ∧ ((Sched.exit s c p).proc q).chan = (s.proc q).chan := by
    rintro q reaper ⟨inside, sleeps⟩
    rw [exit_call] at inside
    exact ⟨⟨inside, by grind [Proc.bereft]⟩, by grind [Proc.bereft]⟩
  refine ⟨fun q reaper awaits => ?_, fun q reaper z awaits => ?_⟩
  · obtain ⟨before, same⟩ := asleep q reaper awaits
    rw [same]
    exact attentive.chan q reaper before
  · rintro ⟨child, zombie, thread⟩
    obtain ⟨before, -⟩ := asleep q reaper awaits
    have chan := attentive.chan q reaper before
    have sleeps := awaits.2
    have slept := before.2
    have other : q ≠ p := by
      rintro rfl
      simp [runs] at slept
    by_cases self : z = p
    · -- The parent of the exiting process has been woken.
      subst self
      obtain ⟨x, parent, proper⟩ := rooted.parents z (by simp [Proc.Made, runs]) notInit
      have different : x ≠ z := by
        rintro rfl
        exact absurd proper.older (lt_irrefl _)
      have isParent : x = q := by simpa [Proc.bereft, parent, different] using child
      subst isParent
      simp [Proc.bereft, other, slept, chan, parent] at sleeps
    · have wasZombie : (s.proc z).state = .zombie := by grind [Proc.bereft]
      by_cases handed : (s.proc z).parent = some p
      · -- `initproc` has been woken.
        have isInit : initproc = q := by simpa [Proc.bereft, handed] using child
        subst isInit
        have hands : s.handsZombie p (List.finRange nproc) = true := by
          simp only [State.handsZombie, List.any_eq_true, decide_eq_true_eq]
          exact ⟨z, List.mem_finRange z, handed, wasZombie⟩
        simp [Proc.bereft, other, slept, chan, hands] at sleeps
      · exact attentive.heard q reaper z before
          ⟨by simpa [Proc.bereft, handed] using child, wasZombie, by simpa [Proc.bereft] using thread⟩

theorem attentive_preserved (guard : Guard κ)
    : Preserved guard (fun w s => Sound s ∧ Rooted w s) (fun _ s => Attentive s) := by
  intro w s w' t part base attentive
  cases part with
  | killNone => exact attentive
  | exit on free notInit => exact attentive.exit base.1 base.2 on notInit
  | resume | yield | sleep | wakeup | kill | setpriority | tick | page =>
    exact attentive.keep (fun _ _ => id) (fun q => by grind [Proc.wake, Proc.hit, Proc.tick])
      fun z => by grind [Proc.wake, Proc.hit, Proc.tick]
  | fillFork on making | fillClone on making =>
    have embryo := base.1.embryo _ _ _ _ making
    exact attentive.keep (fun q reaper inside => reaping_of_update (f := s.call) inside (by simp))
      (fun q => by grind) fun z => by grind
  | claim | giveBack | setStack | publish | fail =>
    exact attentive.keep (fun q reaper inside => reaping_of_update (f := s.call) inside (by simp))
      (fun q => by grind) fun z => by grind
  | abandon | reap =>
    exact attentive.keep
      (fun q reaper inside =>
        reaping_of_update (by simpa [abandon, giveBack, reap] using inside) (by simp))
      (fun q => by grind) fun z => by grind
  | @await p _ _ c reaper on outside none =>
    have awaits : ∀ q r,
        ((Sched.sleep s c p (.proc p)).setCall p (some (.reaping reaper))).Awaits q r
        → q = p ∧ r = reaper ∨ q ≠ p ∧ s.Awaits q r := by
      rintro q r ⟨inside, sleeps⟩
      by_cases same : q = p
      · subst same
        simp only [State.setCall_call, Function.update_self] at inside
        cases inside
        exact .inl ⟨rfl, rfl⟩
      · refine .inr ⟨same, ?_, by grind⟩
        simpa [Sched.sleep, sched, same] using inside
    have reapable : ∀ q r z,
        ((Sched.sleep s c p (.proc p)).setCall p (some (.reaping reaper))).Reapable q r z
        → s.Reapable q r z := by
      intro q r z
      grind [State.Reapable]
    refine ⟨fun q r now => ?_, fun q r z now zombie => ?_⟩
    · rcases awaits q r now with ⟨rfl, rfl⟩ | ⟨other, before⟩
      · simp
      · have chan := attentive.chan q r before
        grind
    · rcases awaits q r now with ⟨rfl, rfl⟩ | ⟨-, before⟩
      · exact State.zombieChild_none none z (reapable q r z zombie)
      · exact attentive.heard q r z before (reapable q r z zombie)

/-- What holds of sleeping parents in every state of a run. -/
theorem run_attentive {kstack : Nat} {labels : List (Label κ)}
    (reached : run State.step labels (.boot kstack) = some s)
    : Attentive s := by
  obtain ⟨watch, recorded⟩ := run_watched reached (Watched.boot (κ := κ) kstack).watch
  refine (((sound_preserved Guard.none).and (rooted_preserved Guard.none)).run
    (attentive_preserved Guard.none) ⟨boot_sound kstack, boot_rooted kstack⟩ ?_ recorded
    (along_of_forall (fun (w : Watched κ) label => Guard.none_allows w.state label) ..)).2
  exact ⟨fun q reaper awaits => (nomatch awaits.1), fun q reaper z awaits => (nomatch awaits.1)⟩

/-- In every state a process that sleeps inside `wait` or `wait2` has no zombie child, and one
that sleeps inside `join` has no zombie child that is a thread.
-/
theorem asleep_has_no_zombie (kstack : Nat) {labels : List (Label κ)} {s : State κ}
    (reached : run State.step labels (.boot kstack) = some s) (q : Slot) (reaper : Reaper)
    (inside : s.call q = some (.reaping reaper)) (sleeps : (s.proc q).state = .sleeping)
    : ¬ ∃ z, (s.proc z).parent = some q ∧ (s.proc z).state = .zombie
        ∧ (reaper = .join → (s.proc z).isthread = true) := by
  rintro ⟨z, child, zombie, thread⟩
  exact (run_attentive reached).heard q reaper z ⟨inside, sleeps⟩ ⟨child, zombie, thread⟩

/-- A child of `initproc` forks and exits first; `initproc` reaps it and sleeps in `wait2` while
the grandchild runs.
-/
def waitsForGrandchild : List (Label Unit) :=
  orphaned ++ [.switch () 0, .scan () .wait, .scan () .wait2, .switch () 2]

theorem waitsForGrandchild_asleep
    : ∃ s, run State.step waitsForGrandchild (.boot 0) = some s
        ∧ (s.proc 2).parent = some 0
        ∧ ¬ ∃ z, (s.proc z).parent = some 0 ∧ (s.proc z).state = .zombie
            ∧ (Reaper.wait2 = .join → (s.proc z).isthread = true) := by
  obtain ⟨s, reached, inside, sleeps, parent⟩ :
      ∃ s ∈ run State.step waitsForGrandchild (.boot 0), s.call 0 = some (.reaping .wait2)
        ∧ (s.proc 0).state = .sleeping ∧ (s.proc 2).parent = some 0 := by
    decide +kernel
  exact ⟨s, reached, parent, asleep_has_no_zombie 0 reached 0 .wait2 inside sleeps⟩

end Xv6.Sched
