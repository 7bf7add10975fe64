import Xv6.Sched.Cpus

/-! `kill` and `setpriority` look for a pid in all slots. An unused slot may have one: it is 0
after a reaper, and the pid of the embryo after a `fork` that failed.
-/

namespace Xv6.Sched

open Xv6.Lib
open Xv6.Proc (ProcState initproc)

variable {κ : Type} {w : Watch} {s t : State κ} {pid : Int32}

/-- The slot in which a pid is found, if any, is in use. -/
def State.FindsUsed (s : State κ) (pid : Int32) : Prop :=
  ∀ q ∈ s.named pid, (s.proc q).state ≠ .unused

/-- The embryo of `fork` or `clone` on CPU `c`, if any, has not been killed. -/
def State.SparedEmbryo (s : State κ) (c : κ) : Prop :=
  ∀ p ∈ s.cpu c, ∀ call ∈ s.call p,
    match call with
    | .making np _ _ => (s.proc np).killed = false
    | .reaping _ => True

/-- The step names no unused slot, and gives no slot back whose process has been killed. -/
def NamesUsed (s : State κ) : Label κ → Prop
  | .kill _ pid => s.FindsUsed pid
  | .setpriority _ pid _ => s.FindsUsed pid
  | .allocStack c page => page = none → s.SparedEmbryo c
  | .fill c copied => copied = false → s.SparedEmbryo c
  | .switch .. | .yield _ | .sleep .. | .wakeup _ | .allocproc .. | .publish _ | .exit _ | .scan ..
  | .tick | .take _ | .give _ => True

instance (s : State κ) (pid : Int32) : Decidable (s.FindsUsed pid) :=
  inferInstanceAs (Decidable (∀ q ∈ s.named pid, (s.proc q).state ≠ .unused))

instance (s : State κ) (call : Call)
    : Decidable (match call with
        | .making np _ _ => (s.proc np).killed = false
        | .reaping _ => True) := by
  cases call <;> infer_instance

instance (s : State κ) (c : κ) : Decidable (s.SparedEmbryo c) := by
  dsimp only [State.SparedEmbryo]
  infer_instance

instance (s : State κ) : (label : Label κ) → Decidable (NamesUsed s label)
  | .kill _ pid => inferInstanceAs (Decidable (s.FindsUsed pid))
  | .setpriority _ pid _ => inferInstanceAs (Decidable (s.FindsUsed pid))
  | .allocStack c page => inferInstanceAs (Decidable (page = none → s.SparedEmbryo c))
  | .fill c copied => inferInstanceAs (Decidable (copied = false → s.SparedEmbryo c))
  | .switch .. | .yield _ | .sleep .. | .wakeup _ | .allocproc .. | .publish _ | .exit _ | .scan ..
  | .tick | .take _ | .give _ => inferInstanceAs (Decidable True)

/-- An unused slot is not marked as killed, and a process only if `kill` was called with its
pid.
-/
structure Unmarked (w : Watch) (s : State κ) : Prop where
  unused : ∀ q, (s.proc q).state = .unused → (s.proc q).killed = false
  named : ∀ q, (s.proc q).state ≠ .unused → (s.proc q).killed = true → (w.life q).named = true

/-- A step that marks no process and frees no slot. -/
theorem Unmarked.keep {w' : Watch} (unmarked : Unmarked w s)
    (killed : ∀ q, (t.proc q).killed = true → (s.proc q).killed = true)
    (unused : ∀ q, (t.proc q).state = .unused ↔ (s.proc q).state = .unused)
    (named : ∀ q, (w.life q).named = true → (w'.life q).named = true)
    : Unmarked w' t where
  unused q is := by
    have before := unmarked.unused q ((unused q).mp is)
    have marked := killed q
    grind
  named q is marked := named q (unmarked.named q (mt (unused q).mpr is) (killed q marked))

/-- A slot whose process is not marked becomes unused. -/
theorem Unmarked.free (unmarked : Unmarked w s) {x : Slot} (spared : (t.proc x).killed = false)
    (unused : (t.proc x).state = .unused) (others : ∀ q, q ≠ x → t.proc q = s.proc q)
    : Unmarked w t where
  unused q is := by
    by_cases same : q = x
    · rw [same, spared]
    · rw [others q same] at is ⊢
      exact unmarked.unused q is
  named q is marked := by
    by_cases same : q = x
    · exact absurd (same ▸ unused) is
    · rw [others q same] at is marked
      exact unmarked.named q is marked

theorem State.named_pid {q : Slot} (found : s.named pid = some q)
    : (s.proc q).pid = pid := by
  simpa using List.find?_some found

theorem Watch.named_of_name (w : Watch) (s : State κ) (pid : Int32) (q : Slot)
    (before : (w.life q).named = true)
    : ((w.name s pid).life q).named = true := by
  simp only [name]
  split
  · rfl
  · exact before

/-- A pid is found just if some slot has it. -/
theorem State.named_isSome
    : (s.named pid).isSome ↔ ∃ q, (s.proc q).pid = pid := by
  simp [named]

/-- A call that looks for a pid does what it should, if it returns 0 when it finds a slot. -/
structure Exact (s : State κ) (pid : Int32) (result : State κ × Int32) : Prop where
  returns : result.2 = 0 ↔ ∃ q, (s.proc q).state ≠ .unused ∧ (s.proc q).pid = pid
  unchanged : result.2 ≠ 0 → result.1 = s

theorem exact_of_findsUsed (used : s.FindsUsed pid) {result : State κ × Int32}
    (missing : s.named pid = none → result = (s, -1))
    (found : ∀ q, s.named pid = some q → result.2 = 0)
    : Exact s pid result := by
  cases named : s.named pid with
  | none =>
    have absent : ¬ ∃ q, (s.proc q).pid = pid := by
      rw [← State.named_isSome, named]
      simp
    rw [missing named]
    exact ⟨⟨fun zero => (nomatch zero), fun ⟨q, _, same⟩ => absurd ⟨q, same⟩ absent⟩, fun _ => rfl⟩
  | some q =>
    have zero := found q named
    exact ⟨⟨fun _ => ⟨q, used q named, State.named_pid named⟩, fun _ => zero⟩,
      fun nonzero => absurd zero nonzero⟩

@[simp, grind =] theorem Proc.tick_killed (proc : Proc) : proc.tick.killed = proc.killed := by
  unfold tick
  split <;> rfl

/-- The conditions in the form in which the parts of a step need them. -/
def namesGuard : Guard κ where
  claim := fun _ _ _ => True
  giveBack := fun s np => (s.proc np).killed = false
  kill := fun s q => (s.proc q).state ≠ .unused
  tick := fun _ => True

theorem namesGuard_allows {label : Label κ} (meets : NamesUsed s label)
    : namesGuard.Allows s label := by
  cases label with
  | allocStack c page =>
    exact fun none p np thread stage on making => meets none p on _ making
  | fill c copied =>
    exact fun failed p np stage on making => meets failed p on _ making
  | kill c pid => exact meets
  | allocproc c thread => exact fun _ _ => trivial
  | switch | yield | sleep | wakeup | publish | exit | scan | setpriority | tick | take | give =>
    trivial

variable [DecidableEq κ]

theorem unmarked_preserved
    : Preserved namesGuard (fun _ s => Sound s) (Unmarked (κ := κ)) := by
  intro w s w' t part sound unmarked
  cases part with
  | @claim _ np _ _ _ _ on free found =>
    have spared := unmarked.unused np (State.unused_state found)
    refine ⟨fun q is => ?_, fun q is marked => ?_⟩
    · have before := unmarked.unused q
      grind
    · by_cases same : q = np
      · subst same
        simp [spared] at marked
      · have before := unmarked.named q
        simp only [Watch.bear, Function.update_of_ne same]
        grind
  | @giveBack _ _ np | @abandon _ _ np =>
    exact unmarked.free (x := np) (by grind [namesGuard]) (by grind) fun q other => by grind
  | @reap _ q => exact unmarked.free (x := q) (by grind) (by grind) fun r other => by grind
  | @kill q _ _ pid found used =>
    refine ⟨fun r is => ?_, fun r is marked => ?_⟩
    · have before := unmarked.unused r
      grind [namesGuard, Proc.hit]
    · by_cases same : r = q
      · subst same
        have isNamed : (s.proc r).state ≠ .unused ∧ (s.proc r).pid = pid :=
          ⟨used, State.named_pid found⟩
        simp only [Watch.name, if_pos isNamed]
      · have before := unmarked.named r
        exact w.named_of_name s pid r (by grind)
  | killNone => exact unmarked.keep (fun _ => id) (fun _ => Iff.rfl) (w.named_of_name s _)
  | tick =>
    refine unmarked.keep (fun q => by grind) (fun q => by grind) fun q before => ?_
    simp only [Watch.tick]
    cases (s.proc q).state <;> exact before
  | yield on | sleep on | exit on | await on =>
    have runs := sound.runs on
    exact unmarked.keep (fun q => by grind [Proc.bereft]) (fun q => by grind [Proc.bereft])
      fun _ => id
  | publish on making =>
    have embryo := sound.embryo _ _ _ _ making
    exact unmarked.keep (fun q => by grind) (fun q => by grind) fun _ => id
  | resume | wakeup | setStack | fillFork | fillClone | fail | setpriority | page =>
    exact unmarked.keep (fun q => by grind [Proc.wake]) (fun q => by grind [Proc.wake]) fun _ => id

/-- `initproc` calls `kill(0)`, and then forks. -/
def killsZero : List (Label Unit) :=
  [.switch () 0, .kill () 0, .allocproc () false, .allocStack () (some 1), .fill () true,
    .publish ()]

/-- `initproc` forks a child and kills it. -/
def killsChild : List (Label Unit) :=
  [.switch () 0, .allocproc () false, .allocStack () (some 1), .fill () true, .publish (),
    .kill () 2]

end Xv6.Sched
