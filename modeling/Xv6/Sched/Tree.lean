import Xv6.Sched.Cpus

/-! The tree of processes. `fork` and `clone` set the parent of an embryo before they take the
lock; `exit` hands children over to `initproc`, and reapers clear the parent of the slot.
-/

namespace Xv6.Sched

open Xv6.Lib
open Xv6.Proc (ProcState initproc)

variable {κ : Type} {w : Watch} {s t : State κ} {c : κ} {p np q : Slot} {thread : Bool}
  {stage : Stage}

/-- Process `x` is a proper parent for `q`: it is live, it made `q` or is `initproc`, and it is
older.
-/
structure Parents (w : Watch) (s : State κ) (x q : Slot) : Prop where
  live : (s.proc x).state.live
  creator : (w.life q).creator = some (w.life x).serial ∨ x = initproc
  older : (w.life x).serial < (w.life q).serial

structure Rooted (w : Watch) (s : State κ) : Prop where
  root : (s.proc initproc).state.live ∧ (s.proc initproc).parent = none
    ∧ (w.life initproc).serial = 0
  unused : ∀ q, (s.proc q).state = .unused → (s.proc q).parent = none
  early : ∀ p np thread stage, s.call p = some (.making np thread stage) → stage ≠ .filled
    → (s.proc np).parent = none
  filled : ∀ p np thread, s.call p = some (.making np thread .filled)
    → (s.proc np).parent = some p
  born : ∀ p np thread stage, s.call p = some (.making np thread stage)
    → (w.life np).creator = some (w.life p).serial ∧ (w.life p).serial < (w.life np).serial
  parents : ∀ q, (s.proc q).Made → q ≠ initproc
    → ∃ x, (s.proc q).parent = some x ∧ Parents w s x q
  serial : ∀ q, (w.life q).serial < w.births
  unique : ∀ q r, (s.proc q).state ≠ .unused → (s.proc r).state ≠ .unused
    → (w.life q).serial = (w.life r).serial → q = r

/-- A step that changes no parent and makes or reaps no process. -/
theorem Rooted.keep {w' : Watch} (rooted : Rooted w s)
    (lives : ∀ q, (w'.life q).Continues (w.life q)) (births : w'.births = w.births)
    (parents : ∀ q, (t.proc q).parent = (s.proc q).parent)
    (unused : ∀ q, (t.proc q).state = .unused ↔ (s.proc q).state = .unused)
    (made : ∀ q, (t.proc q).Made → (s.proc q).Made)
    (live : ∀ q, (s.proc q).state.live → (t.proc q).state.live)
    (making : ∀ p np thread stage, t.call p = some (.making np thread stage)
      → ∃ before, s.call p = some (.making np thread before)
          ∧ (stage = .filled ↔ before = .filled))
    : Rooted w' t where
  root := by
    rw [parents, (lives _).serial]
    exact ⟨live _ rooted.root.1, rooted.root.2⟩
  unused q is := by
    rw [parents]
    exact rooted.unused q ((unused q).mp is)
  early p np thread stage inside notFilled := by
    obtain ⟨before, wasInside, same⟩ := making p np thread stage inside
    rw [parents]
    exact rooted.early p np thread before wasInside (mt same.mpr notFilled)
  filled p np thread inside := by
    obtain ⟨before, wasInside, same⟩ := making p np thread .filled inside
    rw [parents]
    exact rooted.filled p np thread (same.mp rfl ▸ wasInside)
  born p np thread stage inside := by
    obtain ⟨before, wasInside, -⟩ := making p np thread stage inside
    rw [(lives np).serial, (lives np).creator, (lives p).serial]
    exact rooted.born p np thread before wasInside
  parents q is other := by
    obtain ⟨x, parent, proper⟩ := rooted.parents q (made q is) other
    refine ⟨x, (parents q).trans parent, live x proper.live, ?_, ?_⟩
    · rw [(lives q).creator, (lives x).serial]
      exact proper.creator
    · rw [(lives q).serial, (lives x).serial]
      exact proper.older
  serial q := by
    rw [(lives q).serial, births]
    exact rooted.serial q
  unique q r used usedToo same := by
    rw [(lives q).serial, (lives r).serial] at same
    exact rooted.unique q r (mt (unused q).mpr used) (mt (unused r).mpr usedToo) same

theorem Rooted.init_ne (rooted : Rooted w s) (embryo : (s.proc np).state = .embryo)
    : initproc ≠ np := by
  rintro rfl
  have live := rooted.root.1
  simp [embryo, ProcState.live] at live

/-- The slot that so many parent pointers lead to. -/
def State.ancestor (s : State κ) : Nat → Slot → Option Slot
  | 0, q => some q
  | n + 1, q => (s.proc q).parent.bind (s.ancestor n)

/-- Parents are older, so the pointers end at `initproc`, by induction on the number of a process
in the order of creation.
-/
theorem Rooted.reaches_init (rooted : Rooted w s) (made : (s.proc q).Made)
    : ∃ n, s.ancestor n q = some initproc := by
  induction age : (w.life q).serial using Nat.strongRecOn generalizing q with
  | ind serial ih =>
    by_cases first : q = initproc
    · exact ⟨0, by rw [State.ancestor, first]⟩
    · obtain ⟨x, parent, proper⟩ := rooted.parents q made first
      have madeToo : (s.proc x).Made := by
        have live := proper.live
        constructor <;> intro state <;> simp [state, ProcState.live] at live
      obtain ⟨n, reaches⟩ := ih _ (age ▸ proper.older) madeToo rfl
      exact ⟨n + 1, by rw [State.ancestor, parent, Option.bind_some, reaches]⟩

theorem boot_rooted (kstack : Nat)
    : Rooted (Watched.boot (κ := κ) kstack).watch (Watched.boot (κ := κ) kstack).state where
  root := by simp [Watched.boot, State.boot, ProcState.live]
  unused q _ := rfl
  early p np thread stage making := nomatch making
  filled p np thread making := nomatch making
  born p np thread stage making := nomatch making
  parents q made other := by simp [Watched.boot, State.boot, Proc.Made, other] at made
  serial q := Nat.zero_lt_one
  unique q r used usedToo _ := by
    have only : ∀ p, ((State.boot (κ := κ) kstack).proc p).state ≠ .unused → p = initproc := by
      intro p used
      by_contra other
      simp [State.boot, other] at used
    rw [only q used, only r usedToo]

@[simp, grind =] theorem Proc.tick_parent (proc : Proc) : proc.tick.parent = proc.parent := by
  unfold tick
  split <;> rfl

/-- The new process is not yet the parent of any, and its parent is not yet set. -/
theorem Rooted.claim (thread : Bool) (sound : Sound s) (rooted : Rooted w s) (on : s.cpu c = some p)
    (found : s.unused = some np)
    : Rooted (w.bear p np thread) (claim s p np thread) := by
  have unused := State.unused_state found
  have runs := sound.runs on
  have dead : ∀ q, (s.proc q).state.live → q ≠ np := by
    rintro q live rfl
    simp [unused, ProcState.live] at live
  have isOther : p ≠ np := dead p (by simp [runs, ProcState.live])
  have notInit : initproc ≠ np := dead _ rooted.root.1
  have lives : ∀ q, q ≠ np → (w.bear p np thread).life q = w.life q := fun q other =>
    w.bear_other p np thread other
  have calls : ∀ q r thread' stage,
      (Sched.claim s p np thread).call q = some (.making r thread' stage)
      → q = p ∧ r = np ∧ stage = .found
        ∨ r ≠ np ∧ q ≠ np ∧ s.call q = some (.making r thread' stage) := by
    intro q r thread' stage inside
    rcases making_of_update (p := p) (f := s.call) inside with ⟨same, now⟩ | ⟨-, before⟩
    · cases now
      exact .inl ⟨same, rfl, rfl⟩
    · refine .inr ⟨?_, dead q (sound.live q (by simp [before])), before⟩
      rintro rfl
      simp [sound.embryo q r thread' stage before] at unused
  refine ⟨?_, fun q is => ?_, fun q r thread' stage inside notFilled => ?_,
    fun q r thread' inside => ?_, fun q r thread' stage inside => ?_, fun q made other => ?_,
    fun q => ?_, fun q r used usedToo same => ?_⟩
  · rw [claim_proc, if_neg notInit, lives _ notInit]
    exact rooted.root
  · have before := rooted.unused q
    grind
  · rcases calls q r thread' stage inside with ⟨-, rfl, -⟩ | ⟨other, -, before⟩
    · simpa using rooted.unused _ unused
    · rw [claim_proc, if_neg other]
      exact rooted.early q r thread' stage before notFilled
  · rcases calls q r thread' .filled inside with ⟨-, -, impossible⟩ | ⟨other, -, before⟩
    · cases impossible
    · rw [claim_proc, if_neg other]
      exact rooted.filled q r thread' before
  · rcases calls q r thread' stage inside with ⟨rfl, rfl, -⟩ | ⟨other, alsoOther, before⟩
    · rw [lives q isOther]
      simpa [Watch.bear] using rooted.serial q
    · rw [lives q alsoOther, lives r other]
      exact rooted.born q r thread' stage before
  · have different : q ≠ np := by
      rintro rfl
      simp [Proc.Made] at made
    rw [claim_proc, if_neg different] at made ⊢
    obtain ⟨x, parent, proper⟩ := rooted.parents q made other
    have alive := dead x proper.live
    refine ⟨x, parent, ?_, ?_, ?_⟩
    · rw [claim_proc, if_neg alive]
      exact proper.live
    · rw [lives q different, lives x alive]
      exact proper.creator
    · rw [lives q different, lives x alive]
      exact proper.older
  · show ((w.bear p np thread).life q).serial < w.births + 1
    by_cases same : q = np
    · subst same
      simp [Watch.bear]
    · rw [lives q same]
      exact Nat.lt_succ_of_lt (rooted.serial q)
  · have newest : ∀ r, r ≠ np → ((w.bear p np thread).life r).serial
        ≠ ((w.bear p np thread).life np).serial := by
      intro r other
      rw [lives r other]
      simpa [Watch.bear] using (rooted.serial r).ne
    by_cases first : q = np
    · by_contra different
      exact newest r (fun also => different (first.trans also.symm)) (first ▸ same.symm)
    · by_cases second : r = np
      · exact absurd (second ▸ same) (newest q first)
      · rw [lives q first, lives r second] at same
        rw [claim_proc, if_neg first] at used
        rw [claim_proc, if_neg second] at usedToo
        exact rooted.unique q r used usedToo same

section

variable (sound : Sound s) (rooted : Rooted w s)
include sound rooted

/-- `fork` and `clone` set the parent of their embryo. -/
theorem Rooted.fill (making : s.call p = some (.making np thread stage))
    (parents : ∀ q, (t.proc q).parent = if q = np then some p else (s.proc q).parent)
    (states : ∀ q, (t.proc q).state = (s.proc q).state)
    (calls : t.call = Function.update s.call p (some (.making np thread .filled)))
    : Rooted w t := by
  have embryo := sound.embryo p np thread stage making
  have notInit := rooted.init_ne embryo
  have inside : ∀ q r thread' stage', t.call q = some (.making r thread' stage')
      → q = p ∧ r = np ∧ thread' = thread ∧ stage' = .filled
        ∨ r ≠ np ∧ s.call q = some (.making r thread' stage') := by
    intro q r thread' stage' now
    rw [calls] at now
    rcases making_of_update now with ⟨same, again⟩ | ⟨other, before⟩
    · cases again
      exact .inl ⟨same, rfl, rfl, rfl⟩
    · exact .inr ⟨fun same => other (sound.sole q p np _ _ _ _ (same ▸ before) making), before⟩
  refine ⟨?_, fun q is => ?_, fun q r thread' stage' now notFilled => ?_,
    fun q r thread' now => ?_, fun q r thread' stage' now => ?_, fun q made other => ?_,
    rooted.serial, fun q r used usedToo => rooted.unique q r (by grind) (by grind)⟩
  · rw [parents, if_neg notInit, states]
    exact rooted.root
  · have before := rooted.unused q
    grind
  · rcases inside q r thread' stage' now with ⟨-, -, -, filled⟩ | ⟨other, before⟩
    · exact absurd filled notFilled
    · rw [parents, if_neg other]
      exact rooted.early q r thread' stage' before notFilled
  · rcases inside q r thread' .filled now with ⟨rfl, rfl, -, -⟩ | ⟨other, before⟩
    · rw [parents, if_pos rfl]
    · rw [parents, if_neg other]
      exact rooted.filled q r thread' before
  · rcases inside q r thread' stage' now with ⟨rfl, rfl, -, -⟩ | ⟨-, before⟩
    · exact rooted.born q r thread stage making
    · exact rooted.born q r thread' stage' before
  · have different : q ≠ np := by
      rintro rfl
      simp [Proc.Made, states, embryo] at made
    obtain ⟨x, parent, proper⟩ := rooted.parents q (by simpa [Proc.Made, states] using made) other
    refine ⟨x, ?_, by simpa [states] using proper.live, proper.creator, proper.older⟩
    rw [parents, if_neg different, parent]

theorem Rooted.reap (zombie : (s.proc q).state = .zombie)
    (parents : ∀ r, (t.proc r).parent = if r = q then none else (s.proc r).parent)
    (states : ∀ r, (t.proc r).state = if r = q then .unused else (s.proc r).state)
    (calls : t.call = Function.update s.call p none)
    : Rooted w t := by
  have live : ∀ r, (s.proc r).state.live → (t.proc r).state.live := by
    intro r live
    grind [ProcState.live]
  have inside : ∀ r np thread stage, t.call r = some (.making np thread stage)
      → np ≠ q ∧ s.call r = some (.making np thread stage) := by
    intro r np thread stage now
    rw [calls] at now
    rcases making_of_update now with ⟨-, impossible⟩ | ⟨-, before⟩
    · cases impossible
    · refine ⟨?_, before⟩
      rintro rfl
      simp [sound.embryo r np thread stage before] at zombie
  refine ⟨?_, fun r is => ?_, fun r np _ _ now notFilled => ?_, fun r np _ now => ?_,
    fun r np _ _ now => ?_, fun r made other => ?_, rooted.serial,
    fun q r used usedToo => rooted.unique q r (by grind) (by grind)⟩
  · obtain ⟨isLive, orphan, first⟩ := rooted.root
    exact ⟨live _ isLive, by simp [parents, orphan], first⟩
  · have before := rooted.unused r
    grind
  · obtain ⟨different, before⟩ := inside r np _ _ now
    rw [parents, if_neg different]
    exact rooted.early r np _ _ before notFilled
  · obtain ⟨different, before⟩ := inside r np _ _ now
    rw [parents, if_neg different]
    exact rooted.filled r np _ before
  · exact rooted.born r np _ _ (inside r np _ _ now).2
  · have different : r ≠ q := by
      rintro rfl
      simp [Proc.Made, states] at made
    obtain ⟨x, parent, proper⟩ := rooted.parents r (by grind [Proc.Made]) other
    exact ⟨x, by rw [parents, if_neg different, parent], live x proper.live, proper.creator,
      proper.older⟩

/-- The call that makes a process ends: the embryo, which has no parent yet, is given back, or it
becomes runnable as the child of its maker.
-/
theorem Rooted.settle {after : ProcState} (making : s.call p = some (.making np thread stage))
    (ends : after = .unused ∧ stage ≠ .filled ∨ after = .runnable ∧ stage = .filled)
    (parents : ∀ q, (t.proc q).parent = (s.proc q).parent)
    (states : ∀ q, (t.proc q).state = if q = np then after else (s.proc q).state)
    (calls : t.call = Function.update s.call p none)
    : Rooted w t := by
  have embryo := sound.embryo p np thread stage making
  have early := rooted.early p np thread stage making
  have live : ∀ q, (s.proc q).state.live → (t.proc q).state.live := by
    intro q live
    grind [ProcState.live]
  have inside : ∀ q r thread' stage', t.call q = some (.making r thread' stage')
      → s.call q = some (.making r thread' stage') := fun q r thread' stage' now => by
    rw [calls] at now
    exact (sound.making_other making now).1
  refine ⟨?_, fun q is => ?_, fun q r _ _ now => ?_, fun q r _ now => ?_, fun q r _ _ now => ?_,
    fun q made other => ?_, rooted.serial,
    fun q r used usedToo => rooted.unique q r (by grind) (by grind)⟩
  · rw [parents]
    exact ⟨live _ rooted.root.1, rooted.root.2⟩
  · have before := rooted.unused q
    grind
  · rw [parents]
    exact rooted.early q r _ _ (inside q r _ _ now)
  · rw [parents]
    exact rooted.filled q r _ (inside q r _ _ now)
  · exact rooted.born q r _ _ (inside q r _ _ now)
  · rw [parents]
    by_cases same : q = np
    · obtain ⟨-, rfl⟩ : after = .runnable ∧ stage = .filled := by grind [Proc.Made]
      subst same
      -- The new process is the child of the one that made it, which is in its call still.
      obtain ⟨creator, older⟩ := rooted.born p q thread .filled making
      exact ⟨p, rooted.filled p q thread making,
        live p (sound.live p (by simp [making])), .inl creator, older⟩
    · obtain ⟨x, parent, proper⟩ := rooted.parents q (by grind [Proc.Made]) other
      exact ⟨x, parent, live x proper.live, proper.creator, proper.older⟩

variable [DecidableEq κ]

theorem Rooted.exit (on : s.cpu c = some p) (free : s.call p = none) (notInit : p ≠ initproc)
    : Rooted w (exit s c p) := by
  have runs := sound.runs on
  have live : ∀ q, q ≠ p → (s.proc q).state.live → ((Sched.exit s c p).proc q).state.live := by
    intro q other live
    grind [ProcState.live, Proc.bereft]
  have kept : ∀ q, (s.proc q).parent ≠ some p
      → ((Sched.exit s c p).proc q).parent = (s.proc q).parent := by
    intro q other
    grind [Proc.bereft]
  refine ⟨?_, fun q is => ?_, fun q r _ _ now notFilled => ?_, fun q r _ now => ?_,
    fun q r _ _ now => ?_, fun q made other => ?_, rooted.serial,
    fun q r used usedToo =>
      rooted.unique q r (by grind [Proc.bereft]) (by grind [Proc.bereft])⟩
  · obtain ⟨isLive, orphan, first⟩ := rooted.root
    rw [kept _ (by simp [orphan])]
    exact ⟨live _ notInit.symm isLive, orphan, first⟩
  · have orphan := rooted.unused q (by grind [Proc.bereft])
    rw [kept q (by simp [orphan]), orphan]
  · rw [exit_call] at now
    have orphan := rooted.early q r _ _ now notFilled
    rw [kept r (by simp [orphan]), orphan]
  · rw [exit_call] at now
    have parent := rooted.filled q r _ now
    -- The exiting process is in no call, so it is not the one that makes `r`.
    have different : q ≠ p := by
      rintro rfl
      simp [free] at now
    rw [kept r (by simp [parent, different]), parent]
  · rw [exit_call] at now
    exact rooted.born q r _ _ now
  · obtain ⟨x, parent, proper⟩ := rooted.parents q (by grind [Proc.Made, Proc.bereft]) other
    by_cases given : x = p
    · subst given
      refine ⟨initproc, by simp [Proc.bereft, parent], live _ notInit.symm rooted.root.1, .inr rfl, ?_⟩
      rw [rooted.root.2.2]
      exact Nat.zero_lt_of_lt proper.older
    · exact ⟨x, by rw [kept q (by simp [parent, given]), parent], live x given proper.live,
        proper.creator, proper.older⟩

end

variable [DecidableEq κ]

theorem rooted_preserved (guard : Guard κ)
    : Preserved guard (fun _ s => Sound s) (Rooted (κ := κ)) := by
  intro w s w' t part sound rooted
  cases part with
  | claim on free found => exact rooted.claim _ sound on found
  | giveBack on making =>
    exact rooted.settle sound making (.inl ⟨rfl, by simp⟩) (fun q => by grind) (fun q => by grind)
      rfl
  | abandon on making =>
    exact rooted.settle sound making (.inl ⟨rfl, by simp⟩) (fun q => by grind) (fun q => by grind)
      (by simp [abandon, giveBack])
  | setStack on making =>
    refine rooted.keep (fun _ => .refl _) rfl (fun q => by grind) (fun q => by grind)
      (fun q => by grind [Proc.Made]) (fun q => by grind) fun q r _ stage inside => ?_
    rcases making_of_update (f := s.call) inside with ⟨rfl, now⟩ | ⟨-, before⟩
    · cases now
      exact ⟨.found, making, by simp⟩
    · exact ⟨stage, before, Iff.rfl⟩
  | fillFork on making | fillClone on making =>
    exact rooted.fill sound making (fun q => by grind) (fun q => by grind) rfl
  | publish on making =>
    exact rooted.settle sound making (.inr ⟨rfl, rfl⟩) (fun q => by grind) (fun q => by grind) rfl
  | exit on free notInit => exact rooted.exit sound on free notInit
  | @reap p _ _ _ _ _ on outside found =>
    exact rooted.reap (p := p) sound (State.zombieChild_spec found).1 (fun r => by grind)
      (fun r => by grind) (by simp [Sched.reap])
  | fail =>
    exact rooted.keep (fun _ => .refl _) rfl (fun _ => rfl) (fun _ => Iff.rfl) (fun _ => id)
      (fun _ => id) making_left
  | await on =>
    have runs := sound.runs on
    exact rooted.keep (fun _ => .refl _) rfl (fun q => by grind) (fun q => by grind)
      (fun q => by grind [Proc.Made]) (fun q => by grind [ProcState.live]) making_left
  | yield on | sleep on =>
    have runs := sound.runs on
    exact rooted.keep (fun _ => .refl _) rfl (fun q => by grind) (fun q => by grind)
      (fun q => by grind [Proc.Made]) (fun q => by grind [ProcState.live]) making_unmoved
  | kill | killNone =>
    exact rooted.keep (w.name_continues s _) rfl (fun q => by grind [Proc.hit])
      (fun q => by grind [Proc.hit]) (fun q => by grind [Proc.Made, Proc.hit])
      (fun q => by grind [ProcState.live, Proc.hit]) making_unmoved
  | tick =>
    exact rooted.keep (w.tick_continues s) rfl (fun q => by grind) (fun q => by grind)
      (fun q => by grind [Proc.Made]) (fun q => by grind) making_unmoved
  | resume | wakeup | setpriority | page =>
    exact rooted.keep (fun _ => .refl _) rfl (fun q => by grind [Proc.wake])
      (fun q => by grind [Proc.wake]) (fun q => by grind [Proc.Made, Proc.wake])
      (fun q => by grind [ProcState.live, Proc.wake]) making_unmoved

/-! All runs. -/

/-- What holds of the tree in every state of a run. -/
theorem run_rooted {kstack : Nat} {labels : List (Label κ)} {w : Watched κ}
    (reached : run Watched.step labels (.boot kstack) = some w)
    : Sound w.state ∧ Rooted w.watch w.state :=
  (sound_preserved Guard.none).run (rooted_preserved Guard.none) (boot_sound kstack)
    (boot_rooted kstack) reached
    (along_of_forall (fun (w : Watched κ) label => Guard.none_allows w.state label) ..)

/-- In every state each process but `initproc` has a live parent, which made it or is `initproc`
(a process is told by its number in the order of creation); the parent pointers lead from it to
`initproc`; and an unused slot has no parent.
-/
theorem parents_form_tree (kstack : Nat) {labels : List (Label κ)} {w : Watched κ}
    (reached : run Watched.step labels (.boot kstack) = some w)
    : (∀ q, (w.state.proc q).Made → q ≠ initproc
        → ∃ x, (w.state.proc q).parent = some x
            ∧ (w.state.proc x).state.live
            ∧ ((w.watch.life q).creator = some (w.watch.life x).serial ∨ x = initproc))
      ∧ (∀ q r, (w.state.proc q).state ≠ .unused → (w.state.proc r).state ≠ .unused
        → (w.watch.life q).serial = (w.watch.life r).serial → q = r)
      ∧ (∀ q, (w.state.proc q).Made → ∃ n, w.state.ancestor n q = some initproc)
      ∧ ∀ q, (w.state.proc q).state = .unused → (w.state.proc q).parent = none := by
  obtain ⟨-, rooted⟩ := run_rooted reached
  refine ⟨fun q made other => ?_, rooted.unique, fun q => rooted.reaches_init, rooted.unused⟩
  obtain ⟨x, parent, proper⟩ := rooted.parents q made other
  exact ⟨x, parent, proper.live, proper.creator⟩

/-- A child forks a grandchild and exits before it. -/
def orphaned : List (Label Unit) :=
  [.switch () 0, .allocproc () false, .allocStack () (some 1), .fill () true, .publish (),
    .yield (), .switch () 1, .allocproc () false, .allocStack () (some 2), .fill () true,
    .publish (), .exit ()]

/-- The grandchild then belongs to `initproc`. -/
theorem orphaned_tree
    : ∃ w, run Watched.step orphaned (.boot 0) = some w
        ∧ (w.state.proc 2).state = .runnable
        ∧ (w.state.proc 2).parent = some 0
        ∧ ∃ n, w.state.ancestor n 2 = some initproc := by
  obtain ⟨w, reached, runnable, parent⟩ : ∃ w ∈ run Watched.step orphaned (.boot 0),
      (w.state.proc 2).state = .runnable ∧ (w.state.proc 2).parent = some 0 := by
    decide +kernel
  obtain ⟨-, -, ancestors, -⟩ := parents_form_tree 0 reached
  exact ⟨w, reached, runnable, parent, ancestors 2 (by simp [Proc.Made, runnable])⟩

end Xv6.Sched
