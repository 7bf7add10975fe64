import Xv6.Lib.Occupancy
import Xv6.Sched.Steps

/-! CPUs, the processes that run on them, and their kernel stacks. -/

namespace Xv6.Sched

open Xv6.Lib
open Xv6.Proc (ProcState initproc)
open Function (update update_self update_of_ne)

variable {κ : Type} {s t : State κ} {p np q x : Slot} {call : Option Call} {c : κ} {thread : Bool}
  {stage next : Stage} {calls : Slot → Option Call}

/-- The process in a slot runs. -/
def State.Runs (s : State κ) (p : Slot) : Prop := (s.proc p).state = .running

/-- The CPUs have just the running processes, and a process inside `fork` or `clone` has an embryo
of its own.
-/
structure Sound (s : State κ) : Prop where
  cpus : Occupied s.cpu s.Runs
  embryo : ∀ p np thread stage, s.call p = some (.making np thread stage)
    → (s.proc np).state = .embryo
  sole : ∀ p q np thread stage thread' stage', s.call p = some (.making np thread stage)
    → s.call q = some (.making np thread' stage') → p = q
  live : ∀ p, s.call p ≠ none → (s.proc p).state.live

/-- A step that changes no call. -/
theorem Sound.keep (sound : Sound s) (calls : t.call = s.call) (cpus : Occupied t.cpu t.Runs)
    (embryo : ∀ q, (s.proc q).state = .embryo → (t.proc q).state = .embryo)
    (live : ∀ q, (s.proc q).state.live → s.call q ≠ none → (t.proc q).state.live)
    : Sound t := by
  refine ⟨cpus, fun p np thread stage making => ?_, fun p q np _ _ _ _ first second => ?_,
    fun p inside => ?_⟩
  · rw [calls] at making
    exact embryo np (sound.embryo p np thread stage making)
  · rw [calls] at first second
    exact sound.sole p q np _ _ _ _ first second
  · rw [calls] at inside
    exact live p (sound.live p inside) inside

/-- A step of `p` from one point of a call to another, or out of it. -/
theorem Sound.move (sound : Sound s) (calls : t.call = update s.call p call)
    (cpus : Occupied t.cpu t.Runs)
    (embryo : ∀ q np thread stage, q ≠ p → s.call q = some (.making np thread stage)
      → (t.proc np).state = .embryo)
    (mine : ∀ np thread stage, call = some (.making np thread stage)
      → (t.proc np).state = .embryo
        ∧ ∀ q thread stage, s.call q = some (.making np thread stage) → q = p)
    (live : ∀ q, (s.proc q).state.live → (t.proc q).state.live)
    (isLive : call ≠ none → (t.proc p).state.live)
    : Sound t := by
  have at_p : t.call p = call := by rw [calls, update_self]
  have at_other : ∀ q, q ≠ p → t.call q = s.call q := fun q other => by
    rw [calls, update_of_ne other]
  refine ⟨cpus, fun q np thread stage making => ?_, fun q r np _ _ _ _ first second => ?_,
    fun q inside => ?_⟩
  · by_cases same : q = p
    · rw [same, at_p] at making
      exact (mine np thread stage making).1
    · rw [at_other q same] at making
      exact embryo q np thread stage same making
  · by_cases same : q = p
    · by_cases also : r = p
      · rw [same, also]
      · rw [same, at_p] at first
        rw [at_other r also] at second
        rw [same, (mine np _ _ first).2 r _ _ second]
    · rw [at_other q same] at first
      by_cases also : r = p
      · rw [also, at_p] at second
        rw [also, (mine np _ _ second).2 q _ _ first]
      · rw [at_other r also] at second
        exact sound.sole q r np _ _ _ _ first second
  · by_cases same : q = p
    · rw [same, at_p] at inside
      exact same ▸ isLive inside
    · rw [at_other q same] at inside
      exact live q (sound.live q inside)

theorem Sound.runs (sound : Sound s) (on : s.cpu c = some p)
    : (s.proc p).state = .running := sound.cpus.busy c p on

theorem State.unused_state (found : s.unused = some np)
    : (s.proc np).state = .unused := by
  simpa using List.find?_some found

/-- The child that a reaper finds. -/
theorem State.zombieChild_spec {reaper : Reaper} (found : s.zombieChild reaper p = some q)
    : (s.proc q).state = .zombie ∧ (s.proc q).parent = some p
      ∧ (reaper = .join → (s.proc q).isthread = true) := by
  have zombie : (s.proc q).state = .zombie := by simpa using List.find?_some found
  have child := List.mem_of_find?_eq_some found
  simp only [children, List.mem_filter, decide_eq_true_eq] at child
  exact ⟨zombie, child.2.1, child.2.2⟩

/-- A process goes on with its embryo. -/
theorem Sound.advance (sound : Sound s) (on : s.cpu c = some p)
    (making : s.call p = some (.making np thread stage))
    (states : ∀ q, (t.proc q).state = (s.proc q).state) (cpus : t.cpu = s.cpu)
    (calls : t.call = update s.call p (some (.making np thread next)))
    : Sound t := by
  have runs := sound.runs on
  refine sound.move calls ?_ ?_ ?_ (fun q => ?_) fun _ => ?_
  · rw [cpus]
    exact sound.cpus.congr fun q => by simp [State.Runs, states]
  · intro q r thread stage _ making
    rw [states]
    exact sound.embryo q r thread stage making
  · rintro _ _ _ ⟨⟩
    rw [states]
    exact ⟨sound.embryo p np _ _ making, fun q _ _ also => sound.sole q p np _ _ _ _ also making⟩
  · rw [states]
    exact id
  · rw [states, runs]
    rfl

/-- A process is done with its embryo, which becomes something else. -/
theorem Sound.finish (sound : Sound s) (making : s.call p = some (.making np thread stage))
    (states : ∀ q, q ≠ np → (t.proc q).state = (s.proc q).state)
    (state : (t.proc np).state ≠ .running) (cpus : t.cpu = s.cpu)
    (calls : t.call = update s.call p none)
    : Sound t := by
  have embryo := sound.embryo p np _ _ making
  refine sound.move calls ?_ ?_ (by simp) (fun q => ?_)
    fun absent => absurd rfl absent
  · rw [cpus]
    exact sound.cpus.congr fun q => by grind [State.Runs]
  · intro q r thread stage other also
    have different : r ≠ np := fun same => other (sound.sole q p np _ _ _ _ (same ▸ also) making)
    rw [states r different]
    exact sound.embryo q r thread stage also
  · grind [ProcState.live]

/-! Kernel stacks. -/

/-- The slot has a process that has been made completely. -/
def Proc.Made (proc : Proc) : Prop := proc.state ≠ .unused ∧ proc.state ≠ .embryo

/-- Every process has a kernel stack of its own. -/
structure Stacked (s : State κ) : Prop where
  has : ∀ p, (s.proc p).Made → (s.proc p).kstack ≠ none
  making : ∀ p np thread stage, s.call p = some (.making np thread stage) → stage ≠ .found
    → (s.proc np).kstack ≠ none
  owns : ∀ p k, (s.proc p).kstack = some k → s.page k = .stack
  apart : ∀ p q k, (s.proc p).kstack = some k → (s.proc q).kstack = some k → p = q

/-- A step that changes no stack. -/
theorem Stacked.keep (stacked : Stacked s) (kstacks : ∀ q, (t.proc q).kstack = (s.proc q).kstack)
    (pages : t.page = s.page)
    (has : ∀ q, (t.proc q).Made → (s.proc q).Made ∨ (s.proc q).kstack ≠ none)
    (making : ∀ p np thread stage, t.call p = some (.making np thread stage) → stage ≠ .found
      → (s.proc np).kstack ≠ none)
    : Stacked t where
  has p made := by
    rw [kstacks]
    exact (has p made).elim (stacked.has p) id
  making p np thread stage inside later := by
    rw [kstacks]
    exact making p np thread stage inside later
  owns p k held := by
    rw [kstacks] at held
    rw [pages]
    exact stacked.owns p k held
  apart p q k first second := by
    rw [kstacks] at first second
    exact stacked.apart p q k first second

/-- A slot gives its stack back. -/
theorem Stacked.drop (stacked : Stacked s)
    (kstacks : ∀ q, (t.proc q).kstack = if q = x then none else (s.proc q).kstack)
    (pages : ∀ k, (s.proc x).kstack ≠ some k → t.page k = s.page k)
    (has : ∀ q, (t.proc q).Made → q ≠ x ∧ (s.proc q).Made)
    (making : ∀ p np thread stage, t.call p = some (.making np thread stage)
      → s.call p = some (.making np thread stage) ∧ np ≠ x)
    : Stacked t where
  has p made := by
    obtain ⟨other, before⟩ := has p made
    rw [kstacks, if_neg other]
    exact stacked.has p before
  making p np thread stage inside later := by
    obtain ⟨before, other⟩ := making p np thread stage inside
    rw [kstacks, if_neg other]
    exact stacked.making p np thread stage before later
  owns p k held := by
    rw [kstacks] at held
    split at held
    · cases held
    · rename_i other
      rw [pages k fun same => other (stacked.apart p x k held same)]
      exact stacked.owns p k held
  apart p q k first second := by
    rw [kstacks] at first second
    split at first
    · cases first
    · split at second
      · cases second
      · exact stacked.apart p q k first second

theorem making_of_update {f : Slot → Option Call}
    (inside : update f p call q = some (.making np thread stage))
    : q = p ∧ call = some (.making np thread stage)
      ∨ q ≠ p ∧ f q = some (.making np thread stage) := by
  by_cases same : q = p
  · subst same
    rw [update_self] at inside
    exact .inl ⟨rfl, inside⟩
  · rw [update_of_ne same] at inside
    exact .inr ⟨same, inside⟩

theorem making_unmoved (p np : Slot) (thread : Bool) (stage : Stage)
    (inside : calls p = some (.making np thread stage))
    : ∃ before, calls p = some (.making np thread before) ∧ (stage = .filled ↔ before = .filled) :=
  ⟨stage, inside, Iff.rfl⟩

theorem making_left (p np : Slot) (thread : Bool) (stage : Stage)
    (inside : update calls x call p = some (.making np thread stage))
    (outside : ∀ np thread stage, call ≠ some (.making np thread stage) := by simp)
    : ∃ before, calls p = some (.making np thread before) ∧ (stage = .filled ↔ before = .filled) := by
  rcases making_of_update inside with ⟨-, impossible⟩ | ⟨-, before⟩
  · exact absurd impossible (outside np thread stage)
  · exact ⟨stage, before, Iff.rfl⟩

/-- A process goes on with its embryo. -/
theorem Stacked.making_advance (stacked : Stacked s)
    (making : s.call p = some (.making np thread stage)) (later : stage ≠ .found)
    : ∀ q r thread' stage',
        update s.call p (some (.making np thread next)) q = some (.making r thread' stage')
        → stage' ≠ .found → (s.proc r).kstack ≠ none := by
  intro q r thread' stage' inside after
  rcases making_of_update inside with ⟨-, again⟩ | ⟨-, before⟩
  · cases again
    exact stacked.making p np thread stage making later
  · exact stacked.making q r thread' stage' before after

/-- A process is outside `fork` and `clone`. -/
theorem Stacked.making_leave (stacked : Stacked s)
    : ∀ q r thread' stage', update s.call p none q = some (.making r thread' stage')
        → stage' ≠ .found → (s.proc r).kstack ≠ none := by
  intro q r thread' stage' inside after
  rcases making_of_update inside with ⟨-, impossible⟩ | ⟨-, before⟩
  · cases impossible
  · exact stacked.making q r thread' stage' before after

/-- When `p` is done with its embryo, the others still have theirs. -/
theorem Sound.making_other (sound : Sound s) {r : Slot} {thread' : Bool} {stage' : Stage}
    (making : s.call p = some (.making np thread stage))
    (inside : update s.call p none q = some (.making r thread' stage'))
    : s.call q = some (.making r thread' stage') ∧ r ≠ np := by
  rcases making_of_update inside with ⟨-, impossible⟩ | ⟨other, before⟩
  · cases impossible
  · exact ⟨before, fun same => other (sound.sole q p np _ _ _ _ (same ▸ before) making)⟩

theorem State.kfree_page (s : State κ) (stack : Option Nat) (k : Nat)
    : (s.kfree stack).page k = if stack = some k then .free else s.page k := by
  cases stack with
  | none => simp [kfree]
  | some j =>
    by_cases same : j = k
    · simp [kfree, same]
    · simp [kfree, same, update_of_ne (Ne.symm same)]

theorem boot_sound (kstack : Nat) : Sound (State.boot (κ := κ) kstack) := by
  refine ⟨⟨fun c p on => (nomatch on), fun c d p on => (nomatch on), fun p runs => ?_⟩,
    fun p np thread stage making => (nomatch making),
    fun p q np _ _ _ _ making => (nomatch making), fun p inside => absurd rfl inside⟩
  by_cases first : p = initproc <;> simp [State.Runs, State.boot, first] at runs

theorem boot_stacked (kstack : Nat) : Stacked (State.boot (κ := κ) kstack) := by
  refine ⟨fun p => ?_, fun p np thread stage making => (nomatch making), fun p k => ?_,
    fun p q k => ?_⟩
  · by_cases first : p = initproc <;> simp [State.boot, Proc.Made, first]
  · by_cases first : p = initproc <;> simp [State.boot, first]
    exact fun same => same.symm
  · by_cases first : p = initproc <;> by_cases also : q = initproc <;>
      simp [State.boot, first, also]

/-! Steps. -/

variable [DecidableEq κ]

/-- No step puts two processes on a CPU or one on two. -/
theorem sound_preserved (guard : Guard κ)
    : Preserved guard (fun _ _ => True) (fun _ s => Sound s) := by
  intro w s w' t part _ sound
  cases part with
  | resume idle runnable =>
    refine sound.keep rfl (sound.cpus.enter idle ?_ fun q => ?_) (fun q => ?_) fun q => ?_
    · simp [State.Runs, runnable]
    · grind [State.Runs]
    · grind
    · grind [ProcState.live]
  | yield on | sleep on =>
    have runs := sound.runs on
    refine sound.keep rfl (sound.cpus.leave on fun q => ?_) (fun q => ?_) fun q => ?_
    · grind [State.Runs]
    · grind
    · grind [ProcState.live]
  | @claim _ np _ _ _ _ on free found =>
    have unused := State.unused_state found
    have runs := sound.runs on
    refine sound.move rfl (sound.cpus.congr fun q => ?_) ?_ ?_ (fun q => ?_) fun _ => ?_
    · grind [State.Runs]
    · intro q r thread stage _ making
      have embryo := sound.embryo q r thread stage making
      grind
    · rintro _ _ _ ⟨⟩
      refine ⟨by simp, fun q thread stage making => ?_⟩
      simp [sound.embryo q np thread stage making] at unused
    · grind [ProcState.live]
    · grind [ProcState.live]
  | giveBack on making | publish on making =>
    exact sound.finish making (fun q other => by grind) (by simp) rfl rfl
  | setStack on making | fillFork on making | fillClone on making =>
    exact sound.advance on making (fun q => by grind) rfl rfl
  | abandon on making =>
    exact sound.finish making (fun q other => by grind) (by simp) (by simp [abandon, giveBack])
      (by simp [abandon, giveBack])
  | exit on =>
    have runs := sound.runs on
    refine sound.keep (exit_call ..) ?_ (fun q => ?_) fun q => ?_
    · rw [exit_cpu]
      exact sound.cpus.leave on fun q => by grind [State.Runs, Proc.bereft]
    · grind [Proc.bereft]
    · grind [Proc.bereft, ProcState.live]
  | @reap p q _ _ reaper _ on outside found =>
    obtain ⟨zombie, -, -⟩ := State.zombieChild_spec found
    have calls : ((reap s reaper q).setCall p none).call = update s.call p none := by
      simp [reap]
    refine sound.move calls ?_ ?_
      (by simp) (fun r => ?_) fun absent => absurd rfl absent
    · simp only [State.setCall_cpu, reap, State.edit_cpu, State.kfree_cpu]
      exact sound.cpus.congr fun r => by grind [State.Runs]
    · intro r np thread stage _ making
      have embryo := sound.embryo r np thread stage making
      grind
    · grind [ProcState.live]
  | fail =>
    exact sound.move rfl sound.cpus (fun q np thread stage _ => sound.embryo q np thread stage)
      (by simp) (fun _ => id) fun absent => absurd rfl absent
  | await on =>
    have runs := sound.runs on
    refine sound.move rfl (sound.cpus.leave on fun q => ?_) ?_
      (by simp) (fun q => ?_) fun _ => ?_
    · grind [State.Runs]
    · intro q np thread stage _ making
      have embryo := sound.embryo q np thread stage making
      grind
    · grind [ProcState.live]
    · grind [ProcState.live]
  | killNone => exact sound
  | wakeup | kill | setpriority | tick | page =>
    refine sound.keep rfl (sound.cpus.congr fun q => ?_) (fun q => ?_) fun q => ?_
    · grind [State.Runs, Proc.wake, Proc.hit]
    · grind [Proc.wake, Proc.hit]
    · grind [Proc.wake, Proc.hit, ProcState.live]

theorem stacked_preserved (guard : Guard κ)
    : Preserved guard (fun _ s => Sound s) (fun _ s => Stacked s) := by
  intro w s w' t part sound stacked
  cases part with
  | claim =>
    refine stacked.keep (fun q => by grind) rfl (fun q => by grind [Proc.Made]) ?_
    intro q r _ stage inside later
    rcases making_of_update inside with ⟨-, again⟩ | ⟨-, before⟩
    · cases again
      exact absurd rfl later
    · exact stacked.making q r _ stage before later
  | giveBack on making =>
    exact stacked.drop (fun q => by grind) (fun _ _ => rfl) (fun q => by grind [Proc.Made])
      fun q r _ _ inside => sound.making_other making inside
  | @setStack _ _ _ np _ k _ on making isFree =>
    have embryo := sound.embryo _ np _ .found making
    have unowned : ∀ q, (s.proc q).kstack ≠ some k := fun q held => by
      simp [stacked.owns q k held] at isFree
    refine ⟨fun q made => ?_, fun q r _ stage inside later => ?_, fun q j held => ?_,
      fun q r j first second => ?_⟩
    · have has := stacked.has q
      grind [Proc.Made]
    · rcases making_of_update inside with ⟨-, again⟩ | ⟨other, before⟩
      · cases again
        simp
      · have has := stacked.making q r _ stage before later
        grind
    · by_cases same : j = k
      · simp [setStack, same]
      · have owns := stacked.owns q j
        simp only [setStack, State.setCall_page, State.setPage_page, update_of_ne same,
          State.edit_page]
        grind
    · have apart := stacked.apart q r j
      grind
  | fillFork on making | fillClone on making =>
    refine stacked.keep (fun q => by grind) rfl (fun q => by grind [Proc.Made]) ?_
    exact stacked.making_advance making (by simp)
  | abandon on making =>
    exact stacked.drop (fun q => by grind)
      (fun k other => by simp [abandon, giveBack, State.kfree_page, other])
      (fun q => by grind [Proc.Made])
      fun q r _ _ inside => sound.making_other making (by simpa [abandon, giveBack] using inside)
  | publish on making =>
    have has := stacked.making _ _ _ .filled making (by simp)
    refine stacked.keep (fun q => by grind) rfl (fun q => by grind [Proc.Made]) ?_
    exact stacked.making_leave
  | exit on =>
    exact stacked.keep (fun q => by grind [Proc.bereft]) (exit_page ..)
      (fun q => by grind [Proc.Made, Proc.bereft, sound.runs on])
      fun p np thread stage making =>
        stacked.making p np thread stage (by rwa [exit_call] at making)
  | @reap _ q _ _ _ _ on outside found =>
    obtain ⟨zombie, -, -⟩ := State.zombieChild_spec found
    refine stacked.drop (x := q) (fun r => by grind)
      (fun k other => by simp [reap, State.kfree_page, other]) (fun r => by grind [Proc.Made]) ?_
    intro r np _ _ inside
    rcases making_of_update (by simpa [reap] using inside) with ⟨-, impossible⟩ | ⟨-, before⟩
    · cases impossible
    · have embryo := sound.embryo r np _ _ before
      exact ⟨before, fun same => by simp [same, zombie] at embryo⟩
  | fail => exact stacked.keep (fun q => rfl) rfl (fun q => .inl) stacked.making_leave
  | await on =>
    refine stacked.keep (fun q => by grind) rfl (fun q => by grind [Proc.Made, sound.runs on]) ?_
    intro q r _ stage inside later
    rcases making_of_update inside with ⟨-, impossible⟩ | ⟨-, before⟩
    · cases impossible
    · exact stacked.making q r _ stage before later
  | killNone => exact stacked
  | yield on | sleep on =>
    exact stacked.keep (fun q => by grind) rfl (fun q => by grind [Proc.Made, sound.runs on])
      stacked.making
  | resume | wakeup | kill | setpriority | tick =>
    exact stacked.keep (fun q => by grind [Proc.wake, Proc.hit, Proc.tick]) rfl
      (fun q => by grind [Proc.Made, Proc.wake, Proc.hit]) stacked.making
  | @page _ _ _ k notStack =>
    refine ⟨stacked.has, stacked.making, fun q j held => ?_, stacked.apart⟩
    have owned := stacked.owns q j held
    have other : j ≠ k := fun same => notStack (same ▸ owned)
    rw [State.setPage_page, update_of_ne other]
    exact owned

/-! All runs. -/

/-- What holds of the CPUs and the stacks in every state of a run. -/
theorem run_sound {kstack : Nat} {labels : List (Label κ)}
    (reached : run State.step labels (.boot kstack) = some s)
    : Sound s ∧ Stacked s := by
  obtain ⟨watch, recorded⟩ := run_watched reached (Watched.boot (κ := κ) kstack).watch
  exact (sound_preserved Guard.none).run (stacked_preserved Guard.none) (boot_sound kstack)
    (boot_stacked kstack) recorded
    (along_of_forall (fun (w : Watched κ) label => Guard.none_allows w.state label) ..)

/-- CPU `c` executes on the kernel stack `k`. -/
def State.Executes (s : State κ) (c : κ) (k : Nat) : Prop :=
  ∃ p, s.cpu c = some p ∧ (s.proc p).kstack = some k

/-- In every state the CPUs run just the running processes, each on a kernel stack that is in
use, and no reaper frees a stack that a CPU executes on, its own included.
-/
theorem running_iff_onCpu (kstack : Nat) {labels : List (Label κ)} {s : State κ}
    (reached : run State.step labels (.boot kstack) = some s)
    : (∀ c p, s.cpu c = some p → (s.proc p).state = .running)
      ∧ (∀ c d p, s.cpu c = some p → s.cpu d = some p → c = d)
      ∧ (∀ p, (s.proc p).state = .running → ∃! c, s.cpu c = some p)
      ∧ (∀ c p, s.cpu c = some p → ∃ k, s.Executes c k ∧ s.page k = .stack)
      ∧ ∀ reaper p q,
          (∃ c, s.cpu c = some p) ∨ (s.proc p).state = .runnable
          → s.zombieChild reaper p = some q
          → ∃ k, (s.proc q).kstack = some k ∧ (s.proc p).kstack ≠ some k ∧ ∀ c, ¬ s.Executes c k := by
  obtain ⟨sound, stacked⟩ := run_sound reached
  have stackOf : ∀ p, (s.proc p).Made → ∃ k, (s.proc p).kstack = some k := fun p made =>
    Option.ne_none_iff_exists'.mp (stacked.has p made)
  refine ⟨sound.cpus.busy, sound.cpus.apart, fun p runs => ?_, fun c p on => ?_, ?_⟩
  · obtain ⟨c, on⟩ := sound.cpus.placed p runs
    exact ⟨c, on, fun d also => sound.cpus.apart d c p also on⟩
  · obtain ⟨k, held⟩ := stackOf p (by simp [Proc.Made, sound.runs on])
    exact ⟨k, ⟨p, on, held⟩, stacked.owns p k held⟩
  · intro reaper p q caller found
    obtain ⟨zombie, -, -⟩ := State.zombieChild_spec found
    obtain ⟨k, held⟩ := stackOf q (by simp [Proc.Made, zombie])
    -- A process with the same stack would be the zombie.
    have alone : ∀ r, (s.proc r).kstack = some k → (s.proc r).state = .zombie := fun r same =>
      stacked.apart r q k same held ▸ zombie
    refine ⟨k, held, fun same => ?_, fun c executes => ?_⟩
    · have callerZombie := alone p same
      rcases caller with ⟨c, on⟩ | runnable
      · rw [sound.runs on] at callerZombie
        cases callerZombie
      · rw [runnable] at callerZombie
        cases callerZombie
    · obtain ⟨r, on, same⟩ := executes
      have runs := sound.runs on
      rw [alone r same] at runs
      cases runs

/-- With two CPUs, `initproc` forks a child, which runs and exits on the second one. -/
def exitOnSecond : List (Label Bool) :=
  [.switch false 0, .allocproc false false, .allocStack false (some 1), .fill false true,
    .publish false, .switch true 1, .exit true]

/-- When `initproc` then reaps the child, it does not free its own stack. -/
theorem exitOnSecond_reaped
    : ∃ s, run State.step exitOnSecond (.boot 0) = some s
        ∧ s.cpu false = some 0
        ∧ s.zombieChild .wait 0 = some 1
        ∧ ∃ k, (s.proc 1).kstack = some k ∧ ¬ s.Executes false k := by
  obtain ⟨s, reached, first, found⟩ : ∃ s ∈ run State.step exitOnSecond (.boot 0),
      s.cpu false = some 0 ∧ s.zombieChild .wait 0 = some 1 := by
    decide +kernel
  obtain ⟨-, -, -, -, freed⟩ := running_iff_onCpu 0 reached
  obtain ⟨k, held, -, unused⟩ := freed .wait 0 1 (.inl ⟨false, first⟩) found
  exact ⟨s, reached, first, found, k, held, unused false⟩

end Xv6.Sched
