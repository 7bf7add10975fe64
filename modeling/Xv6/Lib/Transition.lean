import Mathlib

/-! Runs of a labelled transition function, and the induction that invariants use. -/

namespace Xv6.Lib

variable {σ ℓ : Type}
variable {step : σ → ℓ → Option σ} {label : ℓ} {rest first labels : List ℓ} {state final start : σ}
  {motive : List ℓ → σ → Prop} {ok : σ → ℓ → Prop}

/-- Take the labelled steps in order; `none` when some step is not enabled. -/
def run (step : σ → ℓ → Option σ) : List ℓ → σ → Option σ
  | [], state => some state
  | label :: rest, state => (step state label).bind (run step rest)

/-- What holds after a run is decided by the run. -/
instance decidableReaches {holds : σ → Prop} [DecidablePred holds] (outcome : Option σ)
    : Decidable (∃ state, outcome = some state ∧ holds state) :=
  inferInstanceAs (Decidable (∃ state ∈ outcome, holds state))

instance decidableRuns (outcome : Option σ) : Decidable (∃ state, outcome = some state) :=
  decidable_of_iff _ Option.isSome_iff_exists

@[simp] theorem run_nil (step : σ → ℓ → Option σ) (state : σ)
    : run step [] state = some state := rfl

theorem run_cons
    : run step (label :: rest) state = some final
      ↔ ∃ middle, step state label = some middle ∧ run step rest middle = some final := by
  simp [run, Option.bind_eq_some_iff]

theorem run_append {second : List ℓ}
    : run step (first ++ second) state = some final
      ↔ ∃ middle, run step first state = some middle ∧ run step second middle = some final := by
  induction first generalizing state with
  | nil => simp
  | cons label rest ih =>
    simp only [List.cons_append, run_cons, ih]
    constructor
    · rintro ⟨next, stepped, middle, before, after⟩
      exact ⟨middle, ⟨next, stepped, before⟩, after⟩
    · rintro ⟨middle, ⟨next, stepped, before⟩, after⟩
      exact ⟨next, stepped, middle, before, after⟩

theorem run_concat
    : run step (labels ++ [label]) state = some final
      ↔ ∃ middle, run step labels state = some middle ∧ step middle label = some final := by
  rw [run_append]
  simp [run]

/-- A run stays a run when every enabled step stays enabled with the same effect. -/
theorem run_mono {wider : σ → ℓ → Option σ}
    (widens : ∀ state label next, step state label = some next → wider state label = some next)
    (reached : run step labels state = some final)
    : run wider labels state = some final := by
  induction labels generalizing state with
  | nil => exact reached
  | cons label rest ih =>
    obtain ⟨middle, stepped, after⟩ := run_cons.mp reached
    exact run_cons.mpr ⟨middle, widens state label middle stepped, ih after⟩

/-- A property of histories and states holds along every run if it holds at the start and
each step extends it. Witness: induction on the history from its end.
-/
theorem run_induction (initial : motive [] start)
    (next
      : ∀ labels state label state',
          run step labels start = some state
          → motive labels state
          → step state label = some state'
          → motive (labels ++ [label]) state') (reached : run step labels start = some state)
    : motive labels state := by
  induction labels using List.reverseRecOn generalizing state with
  | nil =>
    have same : start = state := Option.some.inj reached
    exact same ▸ initial
  | append_singleton labels label ih =>
    obtain ⟨middle, before, stepped⟩ := run_concat.mp reached
    exact next labels middle label state before (ih before) stepped

/-- An invariant that every step preserves holds in every state of a run. -/
theorem run_invariant {motive : σ → Prop}
    (preserved : ∀ state label state', motive state → step state label = some state' → motive state')
    (initial : motive start) (reached : run step labels start = some state)
    : motive state :=
  run_induction (motive := fun _ state => motive state) initial
    (fun _ state label state' _ holds stepped => preserved state label state' holds stepped)
    reached

/-- Every step of a history meets a condition on the history before it. -/
def EachStep (ok : List ℓ → ℓ → Prop) (labels : List ℓ) : Prop :=
  ∀ before label after, labels = before ++ label :: after → ok before label

theorem eachStep_nil (ok : List ℓ → ℓ → Prop) : EachStep ok [] := by
  intro before label after impossible
  cases before <;> cases impossible

/-- A longer history meets the condition if the shorter one and its last step do. -/
theorem eachStep_concat {ok : List ℓ → ℓ → Prop}
    : EachStep ok (labels ++ [label]) ↔ EachStep ok labels ∧ ok labels label := by
  constructor
  · intro each
    refine ⟨?_, each labels label [] rfl⟩
    rintro before step after rfl
    exact each before step (after ++ [label]) (by simp)
  · rintro ⟨each, last⟩ before step after split
    cases after using List.reverseRecOn with
    | nil =>
      obtain ⟨same, only⟩ := List.append_inj' split rfl
      cases only
      exact same ▸ last
    | append_singleton middle final =>
      have shorter : labels ++ [label] = (before ++ step :: middle) ++ [final] := by
        simpa using split
      exact each before step middle (List.append_inj' shorter rfl).1

/-- Every step of a run meets a condition on the state it starts from. -/
def Along (step : σ → ℓ → Option σ) (ok : σ → ℓ → Prop) : List ℓ → σ → Prop
  | [], _ => True
  | label :: rest, state =>
      ok state label ∧ ∀ next, step state label = some next → Along step ok rest next

instance Along.decidable (step : σ → ℓ → Option σ) (ok : σ → ℓ → Prop)
    [∀ state label, Decidable (ok state label)]
    : ∀ labels state, Decidable (Along step ok labels state)
  | [], _ => isTrue trivial
  | label :: rest, state =>
      match stepped : step state label with
      | none => decidable_of_iff (ok state label) (by simp [Along, stepped])
      | some next =>
          have := Along.decidable step ok rest next
          decidable_of_iff (ok state label ∧ Along step ok rest next)
            (by simp [Along, stepped])

/-- A condition that always holds is met along every run. -/
theorem along_of_forall (always : ∀ state label, ok state label) (labels : List ℓ) (state : σ)
    : Along step ok labels state := by
  induction labels generalizing state with
  | nil => trivial
  | cons label rest ih => exact ⟨always state label, fun next _ => ih next⟩

theorem Along.mono {weaker : σ → ℓ → Prop}
    (weakens : ∀ state label, ok state label → weaker state label)
    (along : Along step ok labels state)
    : Along step weaker labels state := by
  induction labels generalizing state with
  | nil => trivial
  | cons label rest ih =>
    exact ⟨weakens state label along.1, fun next stepped => ih (along.2 next stepped)⟩

theorem along_concat (reached : run step labels start = some state)
    : Along step ok (labels ++ [label]) start
      ↔ Along step ok labels start ∧ ok state label := by
  induction labels generalizing start with
  | nil =>
    cases reached
    simp [Along]
  | cons first rest ih =>
    obtain ⟨middle, stepped, after⟩ := run_cons.mp reached
    have tail := ih after
    simp only [List.cons_append, Along, stepped, Option.some.injEq, forall_eq', tail]
    exact and_assoc.symm

/-- A property of histories and states holds along every run whose steps meet a condition,
if it holds at the start and each such step extends it.
-/
theorem along_induction (initial : motive [] start)
    (next
      : ∀ labels state label state',
          motive labels state
          → ok state label
          → step state label = some state'
          → motive (labels ++ [label]) state') (reached : run step labels start = some state)
    (along : Along step ok labels start)
    : motive labels state := by
  refine run_induction
    (motive := fun labels state => Along step ok labels start → motive labels state)
    (fun _ => initial) ?_ reached along
  intro labels state label state' before holds stepped meets
  obtain ⟨earlier, last⟩ := (along_concat before).mp meets
  exact next labels state label state' (holds earlier) last stepped

theorem along_left (along : Along step ok (first ++ rest) start)
    : Along step ok first start := by
  induction first generalizing start with
  | nil => trivial
  | cons label first ih =>
    exact ⟨along.1, fun next stepped => ih (along.2 next stepped)⟩

theorem along_right {middle : σ} (along : Along step ok (first ++ rest) start)
    (reached : run step first start = some middle)
    : Along step ok rest middle := by
  induction first generalizing start with
  | nil =>
    have same : start = middle := Option.some.inj reached
    exact same ▸ along
  | cons label first ih =>
    obtain ⟨next, stepped, after⟩ := run_cons.mp reached
    exact ih (along.2 next stepped) after

/-- If a step from a good state leads to a good one exactly when it meets a condition, then
a run stays good throughout exactly when all its steps meet it.
-/
theorem throughout_iff_along (initial : motive [] start)
    (decides
      : ∀ before label rest middle next,
          labels = before ++ [label] ++ rest
          → run step before start = some middle
          → step middle label = some next
          → motive before middle
          → (motive (before ++ [label]) next ↔ ok middle label))
    (reached : run step labels start = some state)
    : (∀ before middle,
        before <+: labels → run step before start = some middle → motive before middle)
      ↔ Along step ok labels start := by
  induction labels using List.reverseRecOn generalizing state with
  | nil =>
    refine ⟨fun _ => trivial, fun _ before middle shorter ran => ?_⟩
    cases List.prefix_nil.mp shorter
    cases ran
    exact initial
  | append_singleton labels label ih =>
    obtain ⟨middle, ran, stepped⟩ := run_concat.mp reached
    have earlier := ih
      (fun before next rest middle after split =>
        decides before next (rest ++ [label]) middle after (by simp [split])) ran
    have last := decides labels label [] middle state (by simp) ran stepped
    rw [along_concat ran]
    constructor
    · intro good
      have first := good labels middle (List.prefix_append _ _) ran
      refine ⟨earlier.mp fun before middle shorter => ?_, (last first).mp ?_⟩
      · exact good before middle (shorter.trans (List.prefix_append _ _))
      · exact good _ state (List.prefix_refl _) reached
    · rintro ⟨along, meets⟩ before next shorter ran'
      rcases List.prefix_concat_iff.mp shorter with rfl | shorter
      · cases reached.symm.trans ran'
        exact (last (earlier.mpr along labels middle (List.prefix_refl _) ran)).mpr meets
      · exact earlier.mpr along before next shorter ran'

end Xv6.Lib
