import Xv6.Sem.Bounds

/-! Semaphores over the life of processes: `fork` starts a child with an empty `sem_held`, and
`exit` signals whatever `sem_held` says before the process becomes a zombie.
`sem_wait` only ever lowers `sem_held`, so `exit` finds nothing to give back.
-/

namespace Xv6.Sem

open Xv6.Lib
open Function (update update_self update_of_ne)

/-- A slot of the process table; `exiting` is in the loop of `exit` over `sem_held`. -/
inductive Status where
  | unused
  | alive
  | exiting (next : Nat)
  | zombie
  deriving DecidableEq

structure LifeState (ι : Type) where
  sem : SemState ι
  status : ι → Status

/-- The steps of processes: sections of the semaphore calls, `fork`, the call of `exit`, one
pass of its loop, and the `wait` that frees a zombie's slot.
-/
inductive LifeStep (ι : Type) where
  | sem (label : SemStep ι)
  | fork (p child : ι)
  | exit (p : ι)
  | release (p : ι)
  | reap (p : ι)

variable {ι : Type} [DecidableEq ι]
variable {count : Int32} {label : SemStep ι} {init p : ι} {s t : LifeState ι}
  {labels : List (LifeStep ι)} {i : Fin 32}

/-- The caller is a process that runs; `kill` may name any. -/
def LifeState.Calls (s : LifeState ι) : SemStep ι → Prop
  | .call p _ _ _ | .resume p _ _ _ => s.status p = .alive
  | .kill _ => True

instance LifeState.decidableCalls (s : LifeState ι) (label : SemStep ι)
    : Decidable (s.Calls label) := by
  cases label <;> dsimp only [LifeState.Calls] <;> infer_instance

def LifeState.setStatus (s : LifeState ι) (p : ι) (next : Status) : LifeState ι :=
  { s with status := update s.status p next }

/-- `fork`, as far as semaphores go: `allocproc` clears `sem_held` of the child. -/
def fork (s : LifeState ι) (p child : ι) : Option (LifeState ι) :=
  if s.status p = .alive ∧ (s.sem.caller p).position = .running ∧ s.status child = .unused then
    some
      { sem := s.sem.setCaller child { position := .running, semHeld := fun _ => 0 }
        status := update s.status child .alive }
  else none

/-- `exit` up to its loop; the first process must not exit. -/
def exit (init : ι) (s : LifeState ι) (p : ι) : Option (LifeState ι) :=
  if s.status p = .alive ∧ (s.sem.caller p).position = .running ∧ p ≠ init then
    some (s.setStatus p (.exiting 0))
  else none

/-- `if(curproc->sem_held[i] > 0){ sem_signal(i, count); curproc->sem_held[i] = 0; }`. -/
def releaseHeld (s : SemState ι) (p : ι) (i : Fin 32) : SemState ι :=
  let caller := s.caller p
  if caller.semHeld i > 0 then
    let signalled := (semSignal s (Int32.ofNat i) (caller.semHeld i)).1
    signalled.setCaller p
      { signalled.caller p with semHeld := update caller.semHeld i 0 }
  else s

/-- One pass of the loop of `exit`; after the last the process becomes a zombie. -/
def release (s : LifeState ι) (p : ι) : Option (LifeState ι) :=
  match s.status p with
  | .exiting next =>
      if inside : next < 32 then
        some
          { sem := releaseHeld s.sem p ⟨next, inside⟩
            status := update s.status p (.exiting (next + 1)) }
      else some (s.setStatus p .zombie)
  | _ => none

def reap (s : LifeState ι) (p : ι) : Option (LifeState ι) :=
  if s.status p = .zombie then some (s.setStatus p .unused) else none

def lifeStep (init : ι) (s : LifeState ι) (label : LifeStep ι) : Option (LifeState ι) :=
  match label with
  | .sem label =>
      if s.Calls label then (semStep s.sem label).map fun sem => { s with sem } else none
  | .fork p child => fork s p child
  | .exit p => exit init s p
  | .release p => release s p
  | .reap p => reap s p

/-- After `userinit`: the first process runs. -/
def LifeState.boot (init : ι) : LifeState ι where
  sem := .boot ι
  status := fun p => if p = init then .alive else .unused

/-- What a process still holds of a semaphore after one more step: a successful `sem_wait`
adds its count and a `sem_signal` takes its count off, as far as there is any.
-/
def LifeStep.account (p : ι) (i : Fin 32) (held : Int) : LifeStep ι → Int
  | .sem label =>
      match label.event i with
      | .acquired q count => if q = p then held + count.toInt else held
      | .signalled q count => if q = p then max (held - count.toInt) 0 else held
      | _ => held
  | .fork _ child => if child = p then 0 else held
  | _ => held

/-- What process `p` holds of semaphore `i` after a history. -/
def account (p : ι) (i : Fin 32) (labels : List (LifeStep ι)) : Int :=
  labels.foldl (fun held label => label.account p i held) 0

theorem account_concat (p : ι) (i : Fin 32) (labels : List (LifeStep ι)) (label : LifeStep ι)
    : account p i (labels ++ [label]) = label.account p i (account p i labels) := by
  simp [account]

/-- Where `exit` of process `p` still has to look: all of `sem_held` before its loop. -/
def Status.Owes : Status → Fin 32 → Prop
  | .alive, _ => True
  | .exiting next, i => next ≤ i
  | _, _ => False

/-- `sem_held` of every live process agrees with its account. -/
def HeldExact (labels : List (LifeStep ι)) (s : LifeState ι) : Prop :=
  ∀ p i, (s.status p).Owes i → ((s.sem.caller p).semHeld i).toInt = account p i labels

/-- This pass of the loop of `exit` raises the semaphore by the account and, if that is
anything, wakes all that sleep on it.
-/
def GivesBack (labels : List (LifeStep ι)) (s t : LifeState ι) : LifeStep ι → Prop
  | .release p =>
      ∀ i : Fin 32, s.status p = .exiting i → (s.sem.sema i).active = true
        → (t.sem.sema i).value.toInt = (s.sem.sema i).value.toInt + account p i labels
          ∧ (0 < account p i labels
            → ∀ q count, (t.sem.caller q).position ≠ .sleeping i count)
  | _ => True

/-- The calls of the law: counts are not negative and no semaphore is destroyed. -/
def LifeStep.Lawful : LifeStep ι → Prop
  | .sem (.call _ (.wait count) _ _) | .sem (.call _ (.signal count) _ _) => 0 ≤ count.toInt
  | .sem (.call _ .destroy _ _) => False
  | _ => True

/-- A `sem_wait` that finds enough units asks for none. -/
def TakesNone (s : LifeState ι) : LifeStep ι → Prop
  | .sem label => ∀ i, TakesNothing i s.sem label
  | _ => True

/-! With counts that are not negative `sem_held` never leaves 0. -/

/-- No process is recorded as holding anything, and no waiting process asks for less than
nothing.
-/
structure SemState.Clear (s : SemState ι) : Prop where
  held : ∀ p i, (s.caller p).semHeld i = 0
  counts : ∀ p, (s.caller p).position.Counts

theorem settle_zero (nonneg : 0 ≤ count.toInt) : settle 0 count = 0 := by
  unfold settle
  split
  · rename_i enough
    have low : count.toInt ≤ (0 : Int32).toInt := Int32.le_iff_toInt_le.mp enough
    have zero : count = 0 := by
      apply Int32.toInt_inj.mp
      have none : (0 : Int32).toInt = 0 := rfl
      omega
    rw [zero, Int32.sub_self]
  · rfl

theorem semStep_held {s t : SemState ι} (clear : s.Clear) (waits : label.WaitsNonneg)
    (stepped : semStep s label = some t) (q : ι) (i : Fin 32)
    : (t.caller q).semHeld i = 0 := by
  have moved : ∀ {p next}, next.semHeld i = 0
      → ((s.setCaller p next).caller q).semHeld i = 0 := fun self =>
    SemState.forall_setCaller (P := fun caller => caller.semHeld i = 0) self
      (fun q _ => clear.held q i) q
  cases semStep_moves stepped with
  | refused | inited | destroyed | signalled | awake => exact clear.held q i
  | slept | gone | roused => exact moved (clear.held _ i)
  | @passed p j count _ asks =>
    refine moved ?_
    by_cases own : i = j
    · simpa [own, clear.held p j] using settle_zero (asks.nonneg clear.counts waits)
    · simpa [own] using clear.held p i

/-- Nothing is held, so the loop of `exit` does nothing. -/
theorem releaseHeld_of_clear {s : SemState ι} (clear : s.Clear) (p : ι) (i : Fin 32)
    : releaseHeld s p i = s := by
  have none : ¬(s.caller p).semHeld i > 0 := by
    rw [clear.held p i]
    decide
  exact if_neg none

/-- What a step does to the slots of the process table and to the semaphores. -/
theorem lifeStep_cases {label : LifeStep ι} (stepped : lifeStep init s label = some t)
    : (∃ sem, label = .sem sem ∧ s.Calls sem ∧ semStep s.sem sem = some t.sem
        ∧ t.status = s.status)
      ∨ (∃ p child, label = .fork p child ∧ s.status child = .unused
        ∧ t.sem = s.sem.setCaller child { position := .running, semHeld := fun _ => 0 }
        ∧ t.status = update s.status child .alive)
      ∨ (∃ p, label = .exit p ∧ s.status p = .alive ∧ t = s.setStatus p (.exiting 0))
      ∨ (∃ p, ∃ i : Fin 32, label = .release p ∧ s.status p = .exiting i
        ∧ t.sem = releaseHeld s.sem p i
        ∧ t.status = update s.status p (.exiting (i + 1)))
      ∨ (∃ p next, label = .release p ∧ s.status p = .exiting next ∧ 32 ≤ next
        ∧ t = s.setStatus p .zombie)
      ∨ ∃ p, label = .reap p ∧ s.status p = .zombie ∧ t = s.setStatus p .unused := by
  cases label with
  | sem label =>
    obtain ⟨calls, mapped⟩ := Option.ite_none_right_eq_some.mp stepped
    obtain ⟨sem, ran, rfl⟩ := Option.map_eq_some_iff.mp mapped
    exact .inl ⟨label, rfl, calls, ran, rfl⟩
  | fork p child =>
    obtain ⟨⟨_, _, free⟩, ⟨⟩⟩ := Option.ite_none_right_eq_some.mp stepped
    exact .inr (.inl ⟨p, child, rfl, free, rfl, rfl⟩)
  | exit p =>
    obtain ⟨⟨alive, _⟩, ⟨⟩⟩ := Option.ite_none_right_eq_some.mp stepped
    exact .inr (.inr (.inl ⟨p, rfl, alive, rfl⟩))
  | release p =>
    simp only [lifeStep, release] at stepped
    split at stepped
    · rename_i next status
      split at stepped
      · rename_i inside
        cases stepped
        exact .inr (.inr (.inr (.inl ⟨p, ⟨next, inside⟩, rfl, status, rfl, rfl⟩)))
      · rename_i done
        cases stepped
        exact .inr (.inr (.inr (.inr (.inl ⟨p, next, rfl, status, Nat.le_of_not_lt done, rfl⟩))))
    · cases stepped
  | reap p =>
    obtain ⟨zombie, ⟨⟩⟩ := Option.ite_none_right_eq_some.mp stepped
    exact .inr (.inr (.inr (.inr (.inr ⟨p, rfl, zombie, rfl⟩))))

omit [DecidableEq ι] in
theorem LifeStep.Lawful.waitsNonneg (lawful : (LifeStep.sem label).Lawful)
    : label.WaitsNonneg := by
  cases label with
  | call p op sem ret =>
    cases op with
    | wait count => exact lawful
    | init | destroy | signal => trivial
  | resume | kill => trivial

theorem lifeStep_clear {label : LifeStep ι} (clear : s.sem.Clear) (lawful : label.Lawful)
    (stepped : lifeStep init s label = some t)
    : t.sem.Clear := by
  rcases lifeStep_cases stepped with ⟨sem, rfl, _, ran, _⟩ | ⟨p, child, _, _, sem, _⟩
    | ⟨p, _, _, rfl⟩ | ⟨p, i, _, _, sem, _⟩ | ⟨p, next, _, _, _, rfl⟩ | ⟨p, _, _, rfl⟩
  · exact ⟨semStep_held clear lawful.waitsNonneg ran,
      semStep_counts clear.counts lawful.waitsNonneg ran⟩
  · rw [sem]
    constructor
    · intro q i
      by_cases same : q = child
      · subst same
        simp [SemState.setCaller]
      · simpa [SemState.setCaller, same] using clear.held q i
    · intro q
      by_cases same : q = child
      · subst same
        simp [SemState.setCaller, Position.Counts]
      · simpa [SemState.setCaller, same] using clear.counts q
  · exact clear
  · rw [sem, releaseHeld_of_clear clear]
    exact clear
  · exact clear
  · exact clear

/-- With nothing recorded, `sem_held` is exact as long as nobody has anything. -/
theorem heldExact_iff (clear : s.sem.Clear)
    : HeldExact labels s ↔ ∀ p i, (s.status p).Owes i → account p i labels = 0 := by
  have zero : (0 : Int32).toInt = 0 := rfl
  simp only [HeldExact, clear.held, zero, eq_comm]

omit [DecidableEq ι] in
/-- Only a running process acquires. -/
theorem LifeState.Calls.acquired (calls : s.Calls label) (event : label.event i = .acquired p count)
    : s.status p = .alive := by
  cases label with
  | call q op sem ret =>
    simp only [SemStep.event] at event
    split at event
    · cases op with
      | wait asked =>
        cases event
        exact calls
      | init | destroy | signal => cases event
    · cases event
  | resume q j asked ret =>
    simp only [SemStep.event] at event
    split at event
    · cases event
      exact calls
    · cases event
  | kill q => cases event

omit [DecidableEq ι] in
/-- The count of a lawful signal is not negative. -/
theorem LifeStep.Lawful.signalled (lawful : (LifeStep.sem label).Lawful)
    (event : label.event i = .signalled p count)
    : 0 ≤ count.toInt := by
  cases label with
  | call q op sem ret =>
    simp only [SemStep.event] at event
    split at event
    · cases op with
      | signal asked =>
        cases event
        exact lawful
      | wait | init | destroy => cases event
    · cases event
  | resume q j asked ret =>
    simp only [SemStep.event] at event
    split at event <;> cases event
  | kill q => cases event

/-- A step of the semaphore calls keeps all accounts at 0 exactly when it takes nothing. -/
theorem semStep_account_iff {sem : SemState ι} (calls : s.Calls label)
    (lawful : (LifeStep.sem label).Lawful) (stepped : semStep s.sem label = some sem)
    (none : ∀ p i, (s.status p).Owes i → account p i labels = 0)
    : (∀ p i, (s.status p).Owes i → account p i (labels ++ [.sem label]) = 0)
      ↔ TakesNone s (.sem label) := by
  have takes : TakesNone s (.sem label) ↔ ∀ i p count,
      label.event i = .acquired p count → count = 0 :=
    forall_congr' fun i => takesNothing_iff stepped i
  rw [takes]
  constructor
  · intro exact i p count event
    have alive := calls.acquired event
    have owes : (s.status p).Owes i := alive ▸ trivial
    have total := exact p i owes
    rw [account_concat, none p i owes] at total
    simp only [LifeStep.account, event, if_true, Int.zero_add] at total
    exact Int32.toInt_inj.mp total
  · intro nothing p i owes
    rw [account_concat, none p i owes]
    simp only [LifeStep.account]
    cases event : label.event i with
    | acquired q count =>
      have zero := nothing i q count event
      subst zero
      simp
    | signalled q count =>
      have nonneg := lawful.signalled event
      simp only
      split <;> omega
    | inited | destroyed | other => rfl

/-- A process that moves on in `exit` owes no more than before. -/
theorem Status.Owes.of_update {status : ι → Status} {q : ι} {next : Status}
    (owes : (update status p next q).Owes i) (less : ∀ j, next.Owes j → (status p).Owes j)
    : (status q).Owes i := by
  by_cases same : q = p
  · subst same
    rw [update_self] at owes
    exact less i owes
  · rwa [update_of_ne same] at owes

/-- From exact accounts a lawful step leads to exact accounts exactly when it takes nothing.
-/
theorem lifeStep_heldExact_iff {label : LifeStep ι} (clear : s.sem.Clear) (lawful : label.Lawful)
    (stepped : lifeStep init s label = some t) (exact : HeldExact labels s)
    : HeldExact (labels ++ [label]) t ↔ TakesNone s label := by
  have none := (heldExact_iff clear).mp exact
  rw [heldExact_iff (lifeStep_clear clear lawful stepped)]
  rcases lifeStep_cases stepped with ⟨sem, rfl, calls, ran, status⟩
    | ⟨p, child, rfl, _, _, status⟩ | ⟨p, rfl, alive, rfl⟩ | ⟨p, i, rfl, exiting, _, status⟩
    | ⟨p, next, rfl, _, _, rfl⟩ | ⟨p, rfl, _, rfl⟩
  · rw [status]
    exact semStep_account_iff calls lawful ran none
  · refine iff_of_true (fun q j owes => ?_) trivial
    rw [account_concat, LifeStep.account]
    by_cases same : q = child
    · rw [if_pos same.symm]
    · rw [status, update_of_ne same] at owes
      rw [if_neg (Ne.symm same), none q j owes]
  -- the remaining steps change no account, and the status of one process only
  · refine iff_of_true (fun q j owes => ?_) trivial
    have before := Status.Owes.of_update owes fun _ _ => alive ▸ trivial
    exact (account_concat ..).trans (none q j before)
  · refine iff_of_true (fun q j owes => ?_) trivial
    rw [status] at owes
    have before := owes.of_update fun k later => by
      rw [exiting]
      exact Nat.le_of_succ_le later
    exact (account_concat ..).trans (none q j before)
  all_goals
    refine iff_of_true (fun q j owes => ?_) trivial
    have before := Status.Owes.of_update owes fun _ impossible => impossible.elim
    exact (account_concat ..).trans (none q j before)

theorem boot_clear (init : ι) : (LifeState.boot init).sem.Clear :=
  ⟨fun _ _ => rfl, fun _ => trivial⟩

theorem clear_of_run (lawful : ∀ label ∈ labels, label.Lawful)
    (reached : run (lifeStep init) labels (.boot init) = some s)
    : s.sem.Clear := by
  refine run_induction
    (motive := fun labels s => (∀ label ∈ labels, label.Lawful) → s.sem.Clear)
    (fun _ => boot_clear init) ?_ reached lawful
  intro labels s label t _ clear stepped lawful
  exact lifeStep_clear (clear fun earlier member => lawful earlier (List.mem_append_left _ member))
    (lawful label (by simp)) stepped

/-- With exact accounts the loop of `exit` gives back all of nothing. -/
theorem givesBack_of_heldExact {label : LifeStep ι} (clear : s.sem.Clear)
    (stepped : lifeStep init s label = some t) (exact : HeldExact labels s)
    : GivesBack labels s t label := by
  cases label with
  | release p =>
    intro i exiting active
    have owes : (s.status p).Owes i := by
      rw [exiting]
      exact Nat.le_refl _
    have none := (heldExact_iff clear).mp exact p i owes
    have same : t.sem = s.sem := by
      rcases lifeStep_cases stepped with ⟨_, impossible, _⟩ | ⟨_, _, impossible, _⟩
        | ⟨_, impossible, _⟩ | ⟨_, j, ⟨⟩, _, sem, _⟩ | ⟨_, _, ⟨⟩, _, _, rfl⟩ | ⟨_, impossible, _⟩
      · cases impossible
      · cases impossible
      · cases impossible
      · exact sem.trans (releaseHeld_of_clear clear p j)
      · rfl
      · cases impossible
    rw [same, none, Int.add_zero]
    exact ⟨rfl, fun positive => absurd positive (by decide)⟩
  | sem | fork | exit | reap => trivial

/-- In a run with counts that are not negative and no `sem_destroy`, `sem_held` agrees with the
accounts and `exit` gives back what it should, exactly when no `sem_wait` that finds enough
units asks for any.
-/
theorem heldExact_iff_takesNone {init : ι} {labels : List (LifeStep ι)} {final : LifeState ι}
    (reached : run (lifeStep init) labels (.boot init) = some final)
    (lawful : ∀ label ∈ labels, label.Lawful)
    : ((∀ before s,
          before <+: labels
          → run (lifeStep init) before (.boot init) = some s
          → HeldExact before s)
        ∧ ∀ before label s t,
            before ++ [label] <+: labels
            → run (lifeStep init) before (.boot init) = some s
            → lifeStep init s label = some t
            → GivesBack before s t label)
      ↔ Along (lifeStep init) TakesNone labels (.boot init) := by
  have part : ∀ {before}, before <+: labels → ∀ label ∈ before, label.Lawful :=
    fun shorter label member => lawful label (shorter.subset member)
  have initial : HeldExact [] (LifeState.boot init) :=
    (heldExact_iff (boot_clear init)).mpr fun _ _ _ => rfl
  have throughout := throughout_iff_along initial
    (fun before label rest s t split ran stepped exact => by
      have now : before ++ [label] <+: labels := ⟨rest, split.symm⟩
      have clear := clear_of_run (part ((List.prefix_append _ _).trans now)) ran
      exact lifeStep_heldExact_iff clear (part now label (by simp)) stepped exact) reached
  refine Iff.trans ⟨And.left, fun exact => ⟨exact, ?_⟩⟩ throughout
  intro before label s t now ran stepped
  have shorter := (List.prefix_append _ _).trans now
  exact givesBack_of_heldExact (clear_of_run (part shorter) ran) stepped
    (exact before s shorter ran)

/-- A child signals, polls and exits. -/
def childSignals : List (LifeStep (Fin 2)) :=
  [.sem (.call 0 (.init 1) 0 (some 0)), .fork 0 1, .sem (.call 1 (.signal 2) 0 (some 0)),
    .sem (.call 1 (.wait 0) 0 (some 0)), .exit 1, .release 1]

theorem childSignals_heldExact
    : ∃ final,
        run (lifeStep 0) childSignals (.boot 0) = some final
        ∧ ∀ before s,
            before <+: childSignals
            → run (lifeStep 0) before (.boot 0) = some s
            → HeldExact before s := by
  obtain ⟨final, reached⟩ : ∃ s, run (lifeStep 0) childSignals (.boot 0) = some s := by decide
  have lawful : ∀ label ∈ childSignals, label.Lawful := by
    simp [childSignals, LifeStep.Lawful]
  refine ⟨final, reached, ((heldExact_iff_takesNone reached lawful).mpr ?_).1⟩
  refine ⟨fun _ => trivial, fun _ first => ?_⟩
  cases first
  refine ⟨trivial, fun _ second => ?_⟩
  cases second
  refine ⟨fun _ => trivial, fun _ third => ?_⟩
  cases third
  refine ⟨fun _ _ _ _ => rfl, fun _ fourth => ?_⟩
  cases fourth
  exact ⟨trivial, fun _ _ => ⟨trivial, fun _ _ => trivial⟩⟩

/-- A child takes the only unit and exits. -/
def childTakes : List (LifeStep (Fin 2)) :=
  [.sem (.call 0 (.init 1) 0 (some 0)), .fork 0 1, .sem (.call 1 (.wait 1) 0 (some 0))]

/-- The child has taken a unit, but its `sem_held` says 0. -/
theorem childTakes_not_heldExact
    : ∃ s,
        run (lifeStep 0) childTakes (.boot 0) = some s
        ∧ (∀ label ∈ childTakes, label.Lawful)
        ∧ s.status 1 = .alive
        ∧ account 1 0 childTakes = 1
        ∧ (s.sem.caller 1).semHeld 0 = 0 :=
  ⟨_, rfl, by simp [childTakes, LifeStep.Lawful], rfl, rfl, rfl⟩

end Xv6.Sem
