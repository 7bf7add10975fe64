import Xv6.Sem.Locks

/-! Who sleeps on a semaphore.
A process goes to sleep because its count is above the value, and whatever raises the value
wakes all sleepers, so that no wakeup is lost. `sem_destroy` clears `active` and wakes nobody:
a sleeper stays asleep on a semaphore that is gone.
-/

namespace Xv6.Sem

open Xv6.Lib
open Option (ite_none_right_eq_some map_eq_some_iff)

variable {ι : Type} [DecidableEq ι]

/-- The step is a call of `sem_destroy` on semaphore `i`. -/
def LifeStep.Destroys (i : Fin 32) : LifeStep ι → Prop
  | .sem (.call _ .destroy named _) => index named = some i
  | _ => False

/-- The step is a call of `sem_init` on semaphore `i`. -/
def LifeStep.Inits (i : Fin 32) : LifeStep ι → Prop
  | .sem (.call _ (.init _) named _) => index named = some i
  | _ => False

/-- Between two states process `p` went to sleep on a short semaphore, or it slept there
before and the semaphore, if there was one, is what it was.
-/
def SleptOrKept (s t : SemState ι) (p : ι) (i : Fin 32) (count : Int32) : Prop :=
  ((t.sema i).active = true ∧ (t.sema i).value < count)
  ∨ (s.caller p).position = .sleeping i count
    ∧ ((s.sema i).active = true → t.sema i = s.sema i)

section Sleepers

variable {s t : SemState ι} {p q : ι} {i j : Fin 32} {count : Int32}
variable {size sem : Int32}

theorem wake_eq_sleeping_iff {position : Position}
    : position.wake j = .sleeping i count ↔ position = .sleeping i count ∧ i ≠ j := by
  cases position with
  | running | woken => simp [Position.wake]
  | sleeping k size =>
    simp only [Position.wake]
    split
    · rename_i same
      subst same
      simp only [reduceCtorEq, Position.sleeping.injEq, false_iff, not_and, not_not]
      exact fun both => both.1.symm
    · rename_i apart
      simp only [Position.sleeping.injEq]
      exact ⟨fun both => ⟨both, both.1 ▸ apart⟩, And.left⟩

/-- A sleeper after one caller was changed. -/
theorem sleeping_setCaller {next : Caller}
    (asleep : ((s.setCaller p next).caller q).position = .sleeping i count)
    : next.position = .sleeping i count ∨ (s.caller q).position = .sleeping i count := by
  by_cases isSelf : q = p
  · exact .inl (by simpa [SemState.setCaller, isSelf] using asleep)
  · exact .inr (by simpa [SemState.setCaller, isSelf] using asleep)

theorem Moves.sleeping {label : SemStep ι} (moves : Moves s label t)
    (kept : ¬ (LifeStep.sem label).Destroys i)
    (asleep : (t.caller q).position = .sleeping i count)
    : SleptOrKept s t q i count := by
  cases moves with
  | refused | awake => exact .inr ⟨asleep, fun _ => rfl⟩
  | inited named free =>
    refine .inr ⟨asleep, fun active => Function.update_of_ne (fun same => ?_) ..⟩
    simp [← same, active] at free
  | destroyed named =>
    refine .inr ⟨asleep, fun _ => Function.update_of_ne (fun same => kept ?_) ..⟩
    exact same ▸ named
  | signalled =>
    obtain ⟨before, apart⟩ := wake_eq_sleeping_iff.mp asleep
    exact .inr ⟨before, fun _ => Function.update_of_ne apart ..⟩
  | slept asks active short =>
    obtain self | before := sleeping_setCaller asleep
    · cases self
      exact .inl ⟨active, short⟩
    · exact .inr ⟨before, fun _ => rfl⟩
  | passed =>
    have before := (sleeping_setCaller (wake_eq_sleeping_iff.mp asleep).1).resolve_left (by simp)
    exact .inr ⟨before, fun _ => rfl⟩
  | gone | roused =>
    exact .inr ⟨(sleeping_setCaller asleep).resolve_left (by simp), fun _ => rfl⟩

/-- A semaphore that is not active becomes active by `sem_init` only. -/
theorem Moves.inactive {label : SemStep ι} (moves : Moves s label t)
    (other : ¬ (LifeStep.sem label).Inits i) (inactive : (s.sema i).active = false)
    : (t.sema i).active = false := by
  cases moves with
  | inited named | destroyed named | signalled named =>
    simp only [SemState.sema_wakeup, SemState.sema_setSema, Function.update_apply]
    split
    · simp_all [LifeStep.Inits]
    · exact inactive
  | _ => exact inactive

theorem releaseHeld_sleeping
    (asleep : ((releaseHeld s p j).caller q).position = .sleeping i count)
    : SleptOrKept s (releaseHeld s p j) q i count := by
  by_cases held : (s.caller p).semHeld j > 0
  · have released : releaseHeld s p j = _ := if_pos held
    rw [released] at asleep ⊢
    have signalled : ((semSignal s (Int32.ofNat j) ((s.caller p).semHeld j)).1.caller q).position
        = .sleeping i count := by
      by_cases isSelf : q = p
      · simpa [SemState.setCaller, isSelf] using asleep
      · simpa [SemState.setCaller, isSelf] using asleep
    exact (call_moves s p (.signal _) (Int32.ofNat j)).sleeping (i := i) id signalled
  · have nothing : releaseHeld s p j = s := if_neg held
    rw [nothing] at asleep ⊢
    exact .inr ⟨asleep, fun _ => rfl⟩

theorem releaseHeld_inactive (inactive : (s.sema i).active = false)
    : ((releaseHeld s p j).sema i).active = false := by
  unfold releaseHeld
  by_cases held : (s.caller p).semHeld j > 0
  · simp only [held, if_true, SemState.sema_setCaller]
    exact (call_moves s p (.signal _) (Int32.ofNat j)).inactive (i := i) id inactive
  · simpa only [held, if_false] using inactive

omit [DecidableEq ι] in
theorem semDestroy_caller : (semDestroy s sem).1.caller = s.caller := by
  unfold semDestroy
  split
  · rfl
  · split <;> rfl

end Sleepers

variable {init : ι} {s t : LifeState ι} {label : LifeStep ι} {i : Fin 32}

/-- A process asleep after a step has just found the semaphore short, or slept before. -/
theorem lifeStep_sleeping {q : ι} {count : Int32} (stepped : lifeStep init s label = some t)
    (kept : ¬ label.Destroys i) (asleep : (t.sem.caller q).position = .sleeping i count)
    : SleptOrKept s.sem t.sem q i count := by
  rcases lifeStep_cases stepped with ⟨label, rfl, _, ran, _⟩ | ⟨p, child, _, _, sem, _⟩
    | ⟨p, _, _, rfl⟩ | ⟨p, j, _, _, sem, _⟩ | ⟨p, next, _, _, _, rfl⟩ | ⟨p, _, _, rfl⟩
  · exact (semStep_moves ran).sleeping kept asleep
  · rw [sem] at asleep ⊢
    by_cases isChild : q = child
    · simp [SemState.setCaller, isChild] at asleep
    · simp only [SemState.setCaller, Function.update_of_ne isChild] at asleep
      exact .inr ⟨asleep, fun _ => rfl⟩
  · exact .inr ⟨asleep, fun _ => rfl⟩
  · rw [sem] at asleep ⊢
    exact releaseHeld_sleeping asleep
  · exact .inr ⟨asleep, fun _ => rfl⟩
  · exact .inr ⟨asleep, fun _ => rfl⟩

/-- Whoever sleeps on the semaphore asks for more than it has. -/
def SemState.Starved (s : SemState ι) (i : Fin 32) : Prop :=
  ∀ p count, (s.caller p).position = .sleeping i count
    → (s.sema i).active = true ∧ (s.sema i).value < count

theorem lifeStep_starved (starved : s.sem.Starved i) (kept : ¬ label.Destroys i)
    (stepped : lifeStep init s label = some t)
    : t.sem.Starved i := by
  intro p count asleep
  cases lifeStep_sleeping stepped kept asleep with
  | inl slept => exact slept
  | inr slept =>
    obtain ⟨before, same⟩ := slept
    obtain ⟨active, short⟩ := starved p count before
    rw [same active]
    exact ⟨active, short⟩

/-- The step is a call of `sem_destroy` on semaphore `i`. -/
def LockStep.Destroys (i : Fin 32) : LockStep ι → Prop
  | .enter _ .destroy sem => index sem = some i
  | _ => False

/-- The step is a call of `sem_init` on semaphore `i`. -/
def LockStep.Inits (i : Fin 32) : LockStep ι → Prop
  | .enter _ (.init _) sem => index sem = some i
  | _ => False

section Steps

variable {init : ι} {s t : LockState ι} {label : LockStep ι} {p : ι} {i : Fin 32} {count : Int32}
variable {sem : Int32} {labels : List (LockStep ι)}

section

omit [DecidableEq ι]

/-- With the lock free, a process asleep in the completed state is asleep. -/
theorem LockState.sleeping_of_position (ordered : s.Ordered) (unlocked : s.lock i = none)
    (asleep : s.position p = .sleeping i count)
    : (s.life.sem.caller p).position = .sleeping i count := by
  unfold LockState.position at asleep
  split at asleep
  · rename_i j size dozing
    cases asleep
    have held := (ordered.holder p i).mp (by rw [dozing]; rfl)
    rw [unlocked] at held
    cases held
  · cases position : (s.life.sem.caller p).position with
    | running | woken => simp [position] at asleep
    | sleeping j size =>
      simp only [position] at asleep
      split at asleep
      · cases asleep
      · exact asleep

theorem LockStep.Destroys.eq_enter (destroys : label.Destroys i)
    : ∃ p sem, label = .enter p .destroy sem ∧ index sem = some i := by
  cases label with
  | enter p op sem =>
    cases op with
    | destroy => exact ⟨p, sem, rfl, destroys⟩
    | _ => cases destroys
  | _ => cases destroys

theorem LockStep.Inits.eq_enter (inits : label.Inits i)
    : ∃ p value sem, label = .enter p (.init value) sem ∧ index sem = some i := by
  cases label with
  | enter p op sem =>
    cases op with
    | init value => exact ⟨p, value, sem, rfl, inits⟩
    | _ => cases inits
  | _ => cases inits

/-- With the lock free, a process asleep on the semaphore is asleep in the completed state. -/
theorem LockState.position_of_sleeping (ordered : s.Ordered) (unlocked : s.lock i = none)
    (asleep : (s.life.sem.caller p).position = .sleeping i count)
    : s.position p = .sleeping i count := by
  have free := ordered.free_of_blocked (p := p) (by simp [asleep])
  simp [LockState.position, free, asleep, LockState.wakes_of_free unlocked]

end

/-- A step completes to a call on the semaphore only if it is that call. -/
theorem completes_calls {coarse : LifeStep ι} (completes : s.completes label = some coarse)
    : (coarse.Destroys i → label.Destroys i) ∧ (coarse.Inits i → label.Inits i) := by
  cases label with
  | enter p op sem =>
    cases completes
    cases op <;> exact ⟨id, id⟩
  | resume p =>
    simp only [LockState.completes] at completes
    split at completes
    · cases completes
      exact ⟨id, id⟩
    · cases completes
  | kill p =>
    simp only [LockState.completes] at completes
    split at completes
    · cases completes
    · cases completes
      exact ⟨id, id⟩
  | fork | exit | release | reap =>
    cases completes
    exact ⟨id, id⟩
  | wakeup | sleep | unlock => cases completes

theorem lockStep_starved (ordered : s.Ordered) (starved : s.completed.sem.Starved i)
    (kept : ¬ label.Destroys i) (stepped : lockStep init s label = some t)
    : t.completed.sem.Starved i := by
  obtain ⟨_, simulates⟩ := lockStep_simulates ordered stepped
  cases completes : s.completes label with
  | none =>
    simp only [completes] at simulates
    exact simulates ▸ starved
  | some coarse =>
    simp only [completes] at simulates
    exact lifeStep_starved starved (fun destroys => kept ((completes_calls completes).1 destroys))
      simulates

/-- No wakeup is lost: in every run without a `sem_destroy` of the semaphore, whoever is asleep
on it while its lock is free asks for more than its value.
-/
theorem value_lt_of_sleeping {init : ι} {labels : List (LockStep ι)} {s : LockState ι}
    {i : Fin 32} (reached : run (lockStep init) labels (.boot init) = some s)
    (kept : ∀ label ∈ labels, ¬ label.Destroys i) (unlocked : s.lock i = none)
    : ∀ p count, (s.life.sem.caller p).position = .sleeping i count
        → (s.life.sem.sema i).value < count := by
  have invariant : s.Ordered ∧ s.completed.sem.Starved i := by
    refine run_induction
      (motive := fun labels s => (∀ label ∈ labels, ¬ label.Destroys i)
        → s.Ordered ∧ s.completed.sem.Starved i) (fun _ => ?_) ?_ reached kept
    · refine ⟨boot_ordered init, fun p count asleep => ?_⟩
      cases asleep
    · intro before s label t _ invariant stepped kept
      obtain ⟨ordered, starved⟩ := invariant fun earlier member =>
        kept earlier (List.mem_append_left _ member)
      exact ⟨(lockStep_simulates ordered stepped).1,
        lockStep_starved ordered starved (kept label (by simp)) stepped⟩
  intro p count asleep
  obtain ⟨ordered, starved⟩ := invariant
  exact (starved p count (LockState.position_of_sleeping ordered unlocked asleep)).2

/-- Two processes wait for different counts, a third signals too little for either. -/
def tooFew : List (LockStep (Fin 3)) :=
  [.enter 0 (.init 0) 0, .unlock 0, .fork 0 1, .fork 0 2, .enter 1 (.wait 2) 0, .sleep 1,
    .enter 2 (.wait 3) 0, .sleep 2, .enter 0 (.signal 2) 0, .wakeup 0, .unlock 0, .resume 1,
    .wakeup 1, .unlock 1, .resume 2, .sleep 2]

theorem tooFew_value
    : ∃ s,
        run (lockStep 0) tooFew (.boot 0) = some s
        ∧ (s.life.sem.caller 2).position = .sleeping 0 3
        ∧ (s.life.sem.sema 0).value < 3 := by
  obtain ⟨s, reached, unlocked, asleep⟩ : ∃ s ∈ run (lockStep 0) tooFew (.boot 0),
      s.lock 0 = none ∧ (s.life.sem.caller 2).position = .sleeping 0 3 := by
    decide
  have kept : ∀ label ∈ tooFew, ¬ label.Destroys 0 := by simp [tooFew, LockStep.Destroys]
  exact ⟨s, reached, asleep, value_lt_of_sleeping reached kept unlocked 2 3 asleep⟩

/-! `sem_destroy` and the processes it leaves behind. -/

theorem lifeStep_inactive {s t : LifeState ι} {label : LifeStep ι}
    (stepped : lifeStep init s label = some t) (other : ¬ label.Inits i)
    (inactive : (s.sem.sema i).active = false)
    : (t.sem.sema i).active = false := by
  rcases lifeStep_cases stepped with ⟨label, rfl, _, ran, _⟩ | ⟨p, child, _, _, sem, _⟩
    | ⟨p, _, _, rfl⟩ | ⟨p, j, _, _, sem, _⟩ | ⟨p, next, _, _, _, rfl⟩ | ⟨p, _, _, rfl⟩
  · exact (semStep_moves ran).inactive other inactive
  · rw [sem]
    exact inactive
  · exact inactive
  · rw [sem]
    exact releaseHeld_inactive inactive
  · exact inactive
  · exact inactive

theorem lockStep_inactive (ordered : s.Ordered) (stepped : lockStep init s label = some t)
    (other : ¬ label.Inits i) (inactive : (s.life.sem.sema i).active = false)
    : (t.life.sem.sema i).active = false := by
  have completed : (s.completed.sem.sema i).active = false := inactive
  obtain ⟨_, simulates⟩ := lockStep_simulates ordered stepped
  cases completes : s.completes label with
  | none =>
    simp only [completes] at simulates
    rw [simulates] at completed
    exact completed
  | some coarse =>
    simp only [completes] at simulates
    have after : (t.completed.sem.sema i).active = false := lifeStep_inactive simulates
      (fun inits => other ((completes_calls completes).2 inits)) completed
    exact after

/-- A woken process stays where it is until it takes its own step. -/
theorem lockStep_woken (ordered : s.Ordered) (stepped : lockStep init s label = some t)
    (other : label ≠ .resume p) (woken : (s.life.sem.caller p).position = .woken i count)
    : (t.life.sem.caller p).position = .woken i count := by
  have free := ordered.free_of_blocked (p := p) (by simp [woken])
  cases label with
  | enter q op sem =>
    obtain ⟨⟨_, _, running⟩, entered⟩ := ite_none_right_eq_some.mp stepped
    cases named : index sem with
    | none =>
      simp only [named] at entered
      cases entered
      exact woken
    | some j =>
      simp only [named, enterCall_eq s.life.sem q j op running] at entered
      obtain ⟨_, sem, _⟩ := acquire_fields entered
      have apart : p ≠ q := by
        rintro rfl
        simp [woken] at running
      rw [sem, Section.begun_other _ _ j apart]
      exact woken
  | resume q =>
    have apart : p ≠ q := fun same => other (same ▸ rfl)
    simp only [lockStep, resume] at stepped
    split at stepped
    · obtain ⟨_, resumed⟩ := ite_none_right_eq_some.mp stepped
      rw [enterResume_eq] at resumed
      obtain ⟨_, sem, _⟩ := acquire_fields resumed
      rw [sem, Section.begun_other _ _ _ apart]
      exact woken
    · cases stepped
  | wakeup q =>
    obtain ⟨j, _, sem, _⟩ := wakeup_fields stepped
    rw [sem]
    simp [SemState.wakeup, woken, Position.wake]
  | sleep q =>
    simp only [lockStep, sleep] at stepped
    split at stepped
    · rename_i dozing
      have apart : p ≠ q := by
        intro same
        rw [← same, free] at dozing
        cases dozing
      cases stepped
      simpa [SemState.setCaller, apart] using woken
    · cases stepped
  | unlock q =>
    simp only [lockStep, unlock] at stepped
    split at stepped
    · cases stepped
      exact woken
    · cases stepped
  | kill q =>
    cases stepped
    simp only [kill_caller]
    split
    · simp [woken, Position.rouse]
    · exact woken
  | fork q child =>
    obtain ⟨_, forked⟩ := ite_none_right_eq_some.mp stepped
    obtain ⟨life, made, rfl⟩ := map_eq_some_iff.mp forked
    obtain ⟨⟨_, _, unused⟩, ⟨⟩⟩ := ite_none_right_eq_some.mp made
    have alive := ordered.blocked p (by simp [woken])
    have apart : p ≠ child := by
      intro same
      rw [same, unused] at alive
      cases alive
    simpa [SemState.setCaller, apart] using woken
  | exit q =>
    obtain ⟨_, exited⟩ := ite_none_right_eq_some.mp stepped
    obtain ⟨life, made, rfl⟩ := map_eq_some_iff.mp exited
    obtain ⟨_, ⟨⟩⟩ := ite_none_right_eq_some.mp made
    exact woken
  | release q =>
    simp only [lockStep, lockRelease] at stepped
    split at stepped
    · rename_i next exiting
      obtain ⟨_, stepped⟩ := ite_none_right_eq_some.mp stepped
      have alive := ordered.blocked p (by simp [woken])
      have apart : p ≠ q := by
        intro same
        rw [same, exiting] at alive
        cases alive
      split at stepped
      · split at stepped
        · rw [enterSignal_setHeld _ _ _ _ _ (ordered.running_of_exiting exiting)] at stepped
          obtain ⟨_, sem, _⟩ := acquire_fields stepped
          rw [sem, Section.begun_other _ _ _ apart]
          exact woken
        · cases stepped
          exact woken
      · cases stepped
        exact woken
    · cases stepped
  | reap q =>
    obtain ⟨life, made, rfl⟩ := map_eq_some_iff.mp stepped
    obtain ⟨_, ⟨⟩⟩ := ite_none_right_eq_some.mp made
    exact woken

/-- `sem_destroy` finds nobody asleep on the semaphore, and `sem_init` nobody who was woken on
it and has not run since.
-/
def SparesWaiters (i : Fin 32) (s : LockState ι) : LockStep ι → Prop
  | .enter _ .destroy sem =>
      index sem = some i
      → (s.life.sem.sema i).active = true
      → ∀ p count, (s.life.sem.caller p).position ≠ .sleeping i count
  | .enter _ (.init _) sem =>
      index sem = some i
      → (s.life.sem.sema i).active = false
      → ∀ p count, (s.life.sem.caller p).position ≠ .woken i count
  | _ => True

/-- Nobody sleeps on a semaphore that is not active. -/
def SemState.Watched (s : SemState ι) (i : Fin 32) : Prop :=
  ∀ p count, (s.caller p).position = .sleeping i count → (s.sema i).active = true

/-- A call takes the lock, so it finds it free. -/
theorem enter_unlocked {op : SemCall} (entered : enter s p op sem = some t)
    (named : index sem = some i)
    : s.lock i = none := by
  obtain ⟨_, entered⟩ := ite_none_right_eq_some.mp entered
  simp only [named] at entered
  exact (acquire_fields entered).1

theorem lockStep_watched (ordered : s.Ordered) (watched : s.completed.sem.Watched i)
    (spares : SparesWaiters i s label) (stepped : lockStep init s label = some t)
    : t.completed.sem.Watched i := by
  obtain ⟨_, simulates⟩ := lockStep_simulates ordered stepped
  cases completes : s.completes label with
  | none =>
    simp only [completes] at simulates
    exact simulates ▸ watched
  | some coarse =>
    simp only [completes] at simulates
    intro p count asleep
    by_cases destroys : coarse.Destroys i
    · obtain ⟨q, sem, rfl, named⟩ := ((completes_calls completes).1 destroys).eq_enter
      have unlocked := enter_unlocked stepped named
      obtain ⟨_, _, _, done⟩ := enter_simulates ordered stepped
      -- Nobody moves in `sem_destroy`, so whoever is asleep now was asleep before.
      have before : s.position p = .sleeping i count := by
        rw [← done] at asleep
        simp only [call, semDestroy_caller] at asleep
        exact asleep
      exact absurd (LockState.sleeping_of_position ordered unlocked before)
        (spares named (watched p count before) p count)
    · cases lifeStep_sleeping simulates destroys asleep with
      | inl slept => exact slept.1
      | inr slept =>
        obtain ⟨before, same⟩ := slept
        have active := watched p count before
        rw [same active]
        exact active

theorem destroy_inactive (ordered : s.Ordered) (entered : enter s p .destroy sem = some t)
    (named : index sem = some i) (active : (s.life.sem.sema i).active = true)
    : (t.life.sem.sema i).active = false := by
  obtain ⟨_, _, _, done⟩ := enter_simulates ordered entered
  have before : (s.completed.sem.sema i).active = true := active
  have after : (t.completed.sem.sema i).active = false := by
    rw [← done]
    simp [call, semDestroy, named, before]
  exact after

theorem watched_of_run (reached : run (lockStep init) labels (.boot init) = some s)
    (spares : Along (lockStep init) (SparesWaiters i) labels (.boot init))
    : s.Ordered ∧ s.completed.sem.Watched i := by
  refine along_induction (motive := fun _ s => s.Ordered ∧ s.completed.sem.Watched i)
    ⟨boot_ordered init, fun p count asleep => ?_⟩ ?_ reached spares
  · cases asleep
  · intro _ s label t invariant spares stepped
    exact ⟨(lockStep_simulates invariant.1 stepped).1,
      lockStep_watched invariant.1 invariant.2 spares stepped⟩

/-- A process woken on a semaphore that is gone stays so until it runs. -/
theorem run_woken (ordered : s.Ordered) (woken : (s.life.sem.caller p).position = .woken i count)
    (inactive : (s.life.sem.sema i).active = false)
    (reached : run (lockStep init) labels s = some t)
    (spares : Along (lockStep init) (SparesWaiters i) labels s) (waits : .resume p ∉ labels)
    : (t.life.sem.caller p).position = .woken i count ∧ (t.life.sem.sema i).active = false := by
  refine (along_induction
    (motive := fun labels t => .resume p ∉ labels → t.Ordered
      ∧ (t.life.sem.caller p).position = .woken i count
      ∧ (t.life.sem.sema i).active = false)
    (fun _ => ⟨ordered, woken, inactive⟩) ?_ reached spares waits).2
  intro earlier u label v invariant spares stepped waits
  obtain ⟨orderedU, wokenU, inactiveU⟩ := invariant fun member =>
    waits (List.mem_append_left _ member)
  have other : label ≠ .resume p := fun same => waits (by simp [same])
  refine ⟨(lockStep_simulates orderedU stepped).1, lockStep_woken orderedU stepped other wokenU,
    lockStep_inactive orderedU stepped ?_ inactiveU⟩
  intro inits
  obtain ⟨q, value, sem, rfl, named⟩ := inits.eq_enter
  exact spares named inactiveU p count wokenU

end Steps

/-- In every run in which `sem_destroy` finds nobody asleep on the semaphore and `sem_init`
nobody who was woken on it and has not run since, nobody is ever asleep on the semaphore while
that is not active and its lock is free, and whoever was in `sem_wait` when `sem_destroy`
succeeded is awake and gets -1.
-/
theorem destroy_releases_waiters {init : ι} {i : Fin 32} {labels : List (LockStep ι)}
    {s : LockState ι} (reached : run (lockStep init) labels (.boot init) = some s)
    (spares : Along (lockStep init) (SparesWaiters i) labels (.boot init))
    : (s.lock i = none
        → (s.life.sem.sema i).active = false
        → ∀ p count, (s.life.sem.caller p).position ≠ .sleeping i count)
      ∧ ∀ before p sem after middle q count,
          labels = before ++ .enter p .destroy sem :: after
          → run (lockStep init) before (.boot init) = some middle
          → index sem = some i
          → (middle.life.sem.sema i).active = true
          → (middle.life.sem.caller q).position = .sleeping i count
            ∨ (middle.life.sem.caller q).position = .woken i count
          → .resume q ∉ after
          → (s.life.sem.caller q).position = .woken i count
            ∧ (semResume s.life.sem q i count).2 = some (-1) := by
  constructor
  · intro unlocked inactive p count asleep
    obtain ⟨ordered, watched⟩ := watched_of_run reached spares
    have active : (s.life.sem.sema i).active = true :=
      watched p count (LockState.position_of_sleeping ordered unlocked asleep)
    rw [inactive] at active
    cases active
  · rintro before p sem after middle q count rfl earlier named active blocked waits
    obtain ⟨middle', earlier', later⟩ := run_append.mp reached
    cases earlier.symm.trans earlier'
    obtain ⟨next, stepped, rest⟩ := run_cons.mp later
    have ordered := (watched_of_run earlier (along_left spares)).1
    have onward := along_right spares earlier
    have woken : (middle.life.sem.caller q).position = .woken i count :=
      blocked.resolve_left (onward.1 named active q count)
    have destroyed : (next.life.sem.sema i).active = false :=
      destroy_inactive ordered stepped named active
    obtain ⟨still, gone⟩ := run_woken (lockStep_simulates ordered stepped).1
      (lockStep_woken ordered stepped (by simp) woken) destroyed rest (onward.2 next stepped) waits
    exact ⟨still, by simp [semResume, gone]⟩

/-- The child sleeps, is woken by a signal, and has not run when the semaphore is destroyed. -/
def wokenThenDestroyed : List (LockStep (Fin 2)) :=
  [.fork 0 1, .enter 0 (.init 0) 0, .unlock 0, .enter 1 (.wait 1) 0, .sleep 1,
    .enter 0 (.signal 1) 0, .wakeup 0, .unlock 0, .enter 0 .destroy 0, .unlock 0]

theorem wokenThenDestroyed_returns
    : ∃ s,
        run (lockStep 0) wokenThenDestroyed (.boot 0) = some s
        ∧ (s.life.sem.caller 1).position = .woken 0 1
        ∧ (semResume s.life.sem 1 0 1).2 = some (-1) := by
  obtain ⟨s, reached⟩ : ∃ s, run (lockStep 0) wokenThenDestroyed (.boot 0) = some s := by decide
  have spares : Along (lockStep 0) (SparesWaiters 0) wokenThenDestroyed (.boot 0) := by
    refine ⟨trivial, fun _ first => ?_⟩
    cases first
    refine ⟨fun _ _ p count => ?_, fun _ second => ?_⟩
    · match p with
      | 0 => exact Position.noConfusion
      | 1 => exact Position.noConfusion
    cases second
    iterate 6
      refine ⟨trivial, fun _ next => ?_⟩
      cases next
    refine ⟨fun _ _ p count => ?_, fun _ _ => ⟨trivial, fun _ _ => trivial⟩⟩
    match p with
    | 0 => exact Position.noConfusion
    | 1 => exact Position.noConfusion
  obtain ⟨middle, earlier, active, woken⟩ :
      ∃ s, run (lockStep 0) (wokenThenDestroyed.take 8) (.boot 0) = some s
        ∧ (s.life.sem.sema 0).active = true ∧ (s.life.sem.caller 1).position = .woken 0 1 := by
    decide
  exact ⟨s, reached, (destroy_releases_waiters reached spares).2 (wokenThenDestroyed.take 8) 0 0
    [.unlock 0] middle 1 1 rfl earlier (by decide) active (.inr woken) (by simp)⟩

/-- A child asleep on a semaphore that its parent destroys. -/
def destroyedUnderSleeper : List (LockStep (Fin 2)) :=
  [.fork 0 1, .enter 0 (.init 0) 0, .unlock 0, .enter 1 (.wait 1) 0, .sleep 1,
    .enter 0 .destroy 0, .unlock 0]

/-- `sem_destroy` leaves the child asleep on a semaphore that is not active. -/
theorem destroyedUnderSleeper_sleeping
    : ∃ s,
        run (lockStep 0) destroyedUnderSleeper (.boot 0) = some s
        ∧ s.lock 0 = none
        ∧ (s.life.sem.sema 0).active = false
        ∧ (s.life.sem.caller 1).position = .sleeping 0 1 :=
  ⟨_, rfl, rfl, rfl, rfl⟩

end Xv6.Sem
