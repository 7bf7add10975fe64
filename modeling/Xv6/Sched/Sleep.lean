import Xv6.Lib.Holder
import Xv6.Proc.Table

/-! `sleep` and `wakeup` of `proc.c`, as producers and consumers of some condition use them.
`acquire`, `release` and what runs with `ptable.lock` held are atomic, but `sleep` acquires
`ptable.lock`, releases `lk` and goes to sleep in three steps, between which others run.
-/

namespace Xv6.Sleep

open Xv6.Lib
open Option (ite_none_right_eq_some map_eq_some_iff)
open Xv6.Proc (ProcState)
open Function (update update_self update_of_ne)

/-- Where a process is. A consumer runs `acquire(lk); while(!C) sleep(chan, lk); ...; release(lk)`.
A producer changes the shared state between `acquire(lk)` and `release(lk)`; if it makes the
condition true, it calls `wakeup(chan)` before or after `release(lk)`.
-/
inductive Phase where
  | outside
  -- the consumer at the test of its loop, with `lk`
  | testing
  -- in `sleep`, before `acquire(&ptable.lock)`
  | entering
  -- in `sleep`, before `release(lk)`, with both locks
  | locked
  -- in `sleep`, before `p->chan = chan`, with `ptable.lock`
  | parking
  -- in `sched`, which `sleep` has called
  | parked
  -- in `sleep`, before `acquire(lk)`
  | relocking
  -- the consumer after its loop, with `lk`
  | consuming
  -- the producer with `lk`, owing no `wakeup`
  | producing
  -- the producer with `lk`, having made the condition true
  | made
  -- the producer without `lk`, before its `wakeup`
  | owing
  -- in `sleep` for some other reason
  | elsewhere
  deriving DecidableEq

def Phase.holdsLock : Phase → Bool
  | .testing | .entering | .locked | .consuming | .producing | .made => true
  | .outside | .parking | .parked | .relocking | .owing | .elsewhere => false

def Phase.holdsTable : Phase → Bool
  | .locked | .parking => true
  | _ => false

/-- The fields of `struct proc` that `sleep` and `wakeup` use. -/
structure Proc (χ : Type) where
  state : ProcState
  chan : Option χ

structure State (π χ σ : Type) where
  proc : π → Proc χ
  phase : π → Phase
  lk : Option π
  ptable : Option π
  shared : σ

variable {π χ σ : Type}

section

variable [DecidableEq π]

def State.edit (s : State π χ σ) (p : π) (proc : Proc χ) : State π χ σ :=
  { s with proc := update s.proc p proc }

def State.move (s : State π χ σ) (p : π) (next : Phase) : State π χ σ :=
  { s with phase := update s.phase p next }

@[simp] theorem State.move_shared (s : State π χ σ) (p : π) (next : Phase)
    : (s.move p next).shared = s.shared := rfl

variable [DecidableEq χ]

/-- The body of the loop of `wakeup1`. -/
def Proc.wake (c : χ) (proc : Proc χ) : Proc χ :=
  if proc.state = .sleeping ∧ proc.chan = some c then { proc with state := .runnable } else proc

def wakeup1 (s : State π χ σ) (c : χ) : State π χ σ :=
  { s with proc := fun q => (s.proc q).wake c }

/-- `sleep` from `p->chan = chan` to the switch in `sched`, after which the scheduler releases
`ptable.lock`.
-/
def park (s : State π χ σ) (p : π) (c : χ) : State π χ σ :=
  { s.edit p ⟨.sleeping, some c⟩ with ptable := none }

/-- What a process does when it is switched to, until it has released `ptable.lock`: one that
comes out of `sleep` clears `chan`.
-/
def resume (s : State π χ σ) (p : π) : State π χ σ :=
  match s.phase p with
  | .parked => (s.edit p ⟨.running, none⟩).move p .relocking
  | .elsewhere => (s.edit p ⟨.running, none⟩).move p .outside
  | _ => s.edit p ⟨.running, (s.proc p).chan⟩

/-- The effect of `kill` on a sleeping process. -/
def rouse (s : State π χ σ) (p : π) : State π χ σ :=
  if (s.proc p).state = .sleeping then s.edit p ⟨.runnable, (s.proc p).chan⟩ else s

/-! The programs. -/

/-- What may follow `acquire(lk)`. -/
def Phase.acquires : Phase → List Phase
  | .outside => [.testing, .producing]
  | .relocking => [.testing]
  | _ => []

/-- What follows `release(lk)`. -/
def Phase.releases : Phase → Option Phase
  | .locked => some .parking
  | .consuming | .producing => some .outside
  | .made => some .owing
  | _ => none

/-- What follows a store that changes the condition from `before` to `after`. -/
def Phase.stores (before after : Bool) : Phase → Option Phase
  | .consuming => some .consuming
  | .producing => some (if !before && after then .made else .producing)
  | .made => some .made
  | _ => none

/-- What follows a producer's `wakeup(chan)`. -/
def Phase.wakes : Phase → Option Phase
  | .made => some .producing
  | .owing => some .outside
  | _ => none

/-- `store` is a change of the shared state by the holder of `lk`, and `signal` is the `wakeup` of
a producer; `sleep` and `wakeup` are those of other code.
-/
inductive Label (π χ σ : Type) where
  | acquire (p : π) (next : Phase)
  | test (p : π)
  | acquireTable (p : π)
  | release (p : π)
  | park (p : π)
  | store (p : π) (shared : σ)
  | signal (p : π)
  | schedule (p : π)
  | yield (p : π)
  | sleep (p : π) (c : χ)
  | wakeup (c : χ)
  | kill (p : π)

def State.step (C : σ → Bool) (chan : χ) (s : State π χ σ) : Label π χ σ → Option (State π χ σ)
  | .acquire p next =>
      if (s.proc p).state = .running ∧ s.lk = none ∧ next ∈ (s.phase p).acquires then
        some { s.move p next with lk := some p }
      else none
  | .test p =>
      if (s.proc p).state = .running ∧ s.phase p = .testing then
        some (s.move p (if C s.shared then .consuming else .entering))
      else none
  | .acquireTable p =>
      if (s.proc p).state = .running ∧ s.phase p = .entering ∧ s.ptable = none then
        some { s.move p .locked with ptable := some p }
      else none
  | .release p =>
      if (s.proc p).state = .running then
        (s.phase p).releases.map fun next => { s.move p next with lk := none }
      else none
  | .park p =>
      if (s.proc p).state = .running ∧ s.phase p = .parking then
        some ((park s p chan).move p .parked)
      else none
  | .store p shared =>
      if (s.proc p).state = .running then
        ((s.phase p).stores (C s.shared) (C shared)).map fun next =>
          { s.move p next with shared := shared }
      else none
  | .signal p =>
      if (s.proc p).state = .running ∧ s.ptable = none then
        (s.phase p).wakes.map fun next => (wakeup1 s chan).move p next
      else none
  | .schedule p =>
      if (s.proc p).state = .runnable ∧ s.ptable = none then some (resume s p) else none
  -- A process that holds a lock is not interrupted.
  | .yield p =>
      if (s.proc p).state = .running ∧ s.ptable = none ∧ (s.phase p).holdsLock = false then
        some (s.edit p ⟨.runnable, (s.proc p).chan⟩)
      else none
  | .sleep p c =>
      if (s.proc p).state = .running ∧ s.phase p = .outside ∧ s.ptable = none then
        some ((park s p c).move p .elsewhere)
      else none
  | .wakeup c => if s.ptable = none then some (wakeup1 s c) else none
  | .kill p => if s.ptable = none then some (rouse s p) else none

/-- All processes are outside and none holds a lock. -/
def State.start (shared : σ) : State π χ σ where
  proc := fun _ => ⟨.runnable, none⟩
  phase := fun _ => .outside
  lk := none
  ptable := none
  shared := shared

end

/-! Sleepers and the wakeups that are owed. -/

/-- Consumer `p` sleeps on `chan`. -/
def State.Sleeps (s : State π χ σ) (chan : χ) (p : π) : Prop :=
  s.phase p = .parked ∧ (s.proc p).state = .sleeping ∧ (s.proc p).chan = some chan

/-- Producer `q` has made the condition true and has still to call `wakeup(chan)`. -/
def State.Owes (s : State π χ σ) (q : π) : Prop := s.phase q = .made ∨ s.phase q = .owing

/-- Consumer `p` has left `lk` to go to sleep and has not been woken. -/
def State.Waits (s : State π χ σ) (p : π) : Prop :=
  s.phase p = .parking ∨ s.phase p = .parked ∧ (s.proc p).state = .sleeping

/-- The condition holds, or a consumer has found it true and has `lk`. -/
def State.Available (C : σ → Bool) (s : State π χ σ) : Prop :=
  C s.shared = true ∨ ∃ h, s.phase h = .consuming

/-- Each lock is held by the process that has come to a phase with it. A consumer that goes to
sleep has found the condition false and nobody has changed it before it releases `lk`. If the
condition becomes true after that, a producer owes a `wakeup`, which `ptable.lock` delays until
the consumer is asleep.
-/
structure Attended (C : σ → Bool) (chan : χ) (s : State π χ σ) : Prop where
  lock : HeldBy Phase.holdsLock s.phase s.lk
  table : HeldBy Phase.holdsTable s.phase s.ptable
  found : ∀ p, s.phase p = .entering ∨ s.phase p = .locked → C s.shared = false
  chan : ∀ p, s.phase p = .parked → (s.proc p).state = .sleeping → (s.proc p).chan = some chan
  owed : s.Available C → ∀ p, s.Waits p → ∃ q, s.Owes q

variable {C : σ → Bool} {chan : χ} {s t : State π χ σ} {p : π} {next : Phase}
variable {shared : σ} {phase : Phase}

/-- Nobody is about to go to sleep while another process uses the shared state. -/
theorem Attended.found_other (attended : Attended C chan s)
    (holds : (s.phase p).holdsLock = true) (other : s.phase p ≠ .entering ∧ s.phase p ≠ .locked)
    (q : π)
    : ¬ (s.phase q = .entering ∨ s.phase q = .locked) := by
  intro inside
  have also : (s.phase q).holdsLock = true := by rcases inside with h | h <;> rw [h] <;> rfl
  obtain rfl := attended.lock.unique holds also
  exact inside.elim other.1 other.2

/-- Processes are woken, run or are stopped, and no consumer falls asleep. -/
theorem Attended.procs (attended : Attended C chan s) (phase : t.phase = s.phase)
    (lk : t.lk = s.lk) (ptable : t.ptable = s.ptable) (shared : t.shared = s.shared)
    (sleepers : ∀ q, s.phase q = .parked → (t.proc q).state = .sleeping
      → (s.proc q).state = .sleeping ∧ (t.proc q).chan = (s.proc q).chan)
    : Attended C chan t := by
  refine ⟨?_, ?_, ?_, ?_, ?_⟩
  · rw [phase, lk]
    exact attended.lock
  · rw [phase, ptable]
    exact attended.table
  · rw [phase, shared]
    exact attended.found
  · intro q parked asleep
    rw [phase] at parked
    obtain ⟨slept, same⟩ := sleepers q parked asleep
    exact same.trans (attended.chan q parked slept)
  · intro now q waits
    simp only [State.Available, State.Waits, State.Owes, phase, shared] at now waits ⊢
    exact attended.owed now q
      (waits.imp id fun ⟨parked, asleep⟩ => ⟨parked, (sleepers q parked asleep).1⟩)

theorem start_attended (C : σ → Bool) (chan : χ) (shared : σ)
    : Attended C chan (State.start (π := π) shared) where
  lock := fun _ => by simp [State.start, Phase.holdsLock]
  table := fun _ => by simp [State.start, Phase.holdsTable]
  found := fun _ inside => by simp [State.start] at inside
  chan := fun _ parked => by simp [State.start] at parked
  owed := fun _ _ waits => by simp [State.Waits, State.start] at waits

variable [DecidableEq π]

/-- A process moves to another phase, without going to sleep. It keeps what it owes, and if it
makes the condition true it owes a `wakeup`.
-/
theorem Attended.moved (attended : Attended C chan s) {lk ptable : Option π}
    (lock : HeldBy Phase.holdsLock (update s.phase p next) lk)
    (table : HeldBy Phase.holdsTable (update s.phase p next) ptable)
    (found : ∀ q, update s.phase p next q = .entering
      ∨ update s.phase p next q = .locked → C shared = false) (awake : next ≠ .parked)
    (owes : s.Owes p → next = .made ∨ next = .owing)
    (available : C shared = true ∨ next = .consuming → s.Available C ∨ next = .made)
    (parks : next = .parking → C shared = false ∧ ∀ h, s.phase h ≠ .consuming)
    : Attended C chan { s.move p next with lk := lk, ptable := ptable, shared := shared } where
  lock := lock
  table := table
  found := found
  chan := by
    intro q parked asleep
    rcases eq_or_ne q p with rfl | other
    · exact absurd ((update_self ..).symm.trans parked) awake
    · exact attended.chan q ((update_of_ne other ..).symm.trans parked) asleep
  owed := by
    intro now q waits
    have self : update s.phase p next p = next := update_self ..
    have same : ∀ r, r ≠ p → update s.phase p next r = s.phase r := fun r other =>
      update_of_ne other ..
    -- Who consumes now has consumed before, or is the process that moves.
    have before : s.Available C ∨ next = .made := by
      rcases now with holds | ⟨h, consuming⟩
      · exact available (.inl holds)
      · rcases eq_or_ne h p with rfl | other
        · exact available (.inr (self.symm.trans consuming))
        · exact .inl (.inr ⟨h, (same h other).symm.trans consuming⟩)
    rcases before with before | made
    · have waited : s.Waits q := by
        rcases eq_or_ne q p with rfl | other
        · have parking : next = .parking := waits.elim self.symm.trans fun ⟨parked, _⟩ =>
            absurd (self.symm.trans parked) awake
          obtain ⟨false, nobody⟩ := parks parking
          rcases now with holds | ⟨h, consuming⟩
          · exact absurd (false.symm.trans holds) (by decide)
          · rcases eq_or_ne h q with rfl | other
            · exact absurd (parking.symm.trans (self.symm.trans consuming)) (by decide)
            · exact absurd ((same h other).symm.trans consuming) (nobody h)
        · exact waits.imp (same q other).symm.trans fun ⟨parked, asleep⟩ =>
            ⟨(same q other).symm.trans parked, asleep⟩
      obtain ⟨r, debt⟩ := attended.owed before q waited
      rcases eq_or_ne r p with rfl | other
      · exact ⟨r, (owes debt).imp self.trans self.trans⟩
      · exact ⟨r, debt.imp (same r other).trans (same r other).trans⟩
    · exact ⟨p, .inl (self.trans made)⟩

/-- The processes of a move that keeps the shared state find what they have found before. -/
theorem Attended.found_moved (attended : Attended C chan s)
    (enters : next = .entering ∨ next = .locked → C s.shared = false) (q : π)
    (inside : update s.phase p next q = .entering
      ∨ update s.phase p next q = .locked)
    : C s.shared = false := by
  rcases eq_or_ne q p with rfl | other
  · rw [update_self] at inside
    exact enters inside
  · rw [update_of_ne other] at inside
    exact attended.found q inside

theorem Phase.acquires_spec
    : next ∈ phase.acquires
      → next.holdsLock = true ∧ next.holdsTable = phase.holdsTable
        ∧ phase ≠ .made ∧ phase ≠ .owing ∧ (next = .testing ∨ next = .producing) := by
  cases phase <;> cases next <;> decide

theorem Attended.acquire (attended : Attended C chan s) (free : s.lk = none)
    (follows : next ∈ (s.phase p).acquires)
    : Attended C chan { s.move p next with lk := some p } := by
  obtain ⟨has, table, notMade, notOwing, kind⟩ := Phase.acquires_spec follows
  have lock := attended.lock
  rw [free] at lock
  refine attended.moved (lock.acquire has) (attended.table.move table)
    (attended.found_moved ?_) ?_ (fun owes => (owes.elim notMade notOwing).elim) ?_ ?_
  · rcases kind with rfl | rfl <;> simp
  · rcases kind with rfl | rfl <;> simp
  · rcases kind with rfl | rfl <;> simp +contextual [State.Available]
  · rcases kind with rfl | rfl <;> simp

theorem Attended.test (attended : Attended C chan s) (testing : s.phase p = .testing)
    : Attended C chan (s.move p (if C s.shared then .consuming else .entering)) := by
  cases value : C s.shared with
  | true =>
    refine attended.moved (attended.lock.move ?_) (attended.table.move ?_)
      (attended.found_moved ?_) ?_ ?_ ?_ ?_
    all_goals simp [testing, State.Owes, State.Available, value, Phase.holdsLock, Phase.holdsTable]
  | false =>
    refine attended.moved (attended.lock.move ?_) (attended.table.move ?_)
      (attended.found_moved ?_) ?_ ?_ ?_ ?_
    all_goals simp [testing, State.Owes, value, Phase.holdsLock, Phase.holdsTable]

theorem Attended.acquireTable (attended : Attended C chan s) (entering : s.phase p = .entering)
    (free : s.ptable = none)
    : Attended C chan { s.move p .locked with ptable := some p } := by
  have false := attended.found p (.inl entering)
  have table := attended.table
  rw [free] at table
  refine attended.moved (attended.lock.move ?_) (table.acquire rfl) (attended.found_moved ?_)
    ?_ ?_ ?_ ?_
  all_goals simp [entering, State.Owes, false, Phase.holdsLock]

theorem Phase.releases_spec
    : phase.releases = some next
      → phase.holdsLock = true ∧ next.holdsLock = false ∧ next.holdsTable = phase.holdsTable
        ∧ (phase = .made → next = .owing) ∧ phase ≠ .owing ∧ (next = .parking → phase = .locked)
        ∧ (next = .parking ∨ next = .outside ∨ next = .owing) := by
  cases phase <;> cases next <;> decide

/-- `release(lk)`. In `sleep` the condition is still false, because the process has had `lk` since
it tested it.
-/
theorem Attended.release (attended : Attended C chan s)
    (follows : (s.phase p).releases = some next)
    : Attended C chan { s.move p next with lk := none } := by
  obtain ⟨had, without, table, owing, notOwing, parking, kind⟩ := Phase.releases_spec follows
  have nobody : next = .parking → ∀ h, s.phase h ≠ .consuming := by
    intro parks h consuming
    have same := attended.lock.unique (q := h) had (by rw [consuming]; rfl)
    rw [← same, parking parks] at consuming
    cases consuming
  refine attended.moved (attended.lock.release had without) (attended.table.move table)
    (attended.found_moved ?_) ?_ (fun owes => owes.elim (fun made => .inr (owing made))
      fun owed => absurd owed notOwing) ?_ fun parks => ⟨?_, nobody parks⟩
  · rcases kind with rfl | rfl | rfl <;> simp
  · rcases kind with rfl | rfl | rfl <;> simp
  · rcases kind with rfl | rfl | rfl <;> simp +contextual [State.Available]
  · exact attended.found p (.inr (parking parks))

theorem Phase.stores_spec {before after : Bool}
    : phase.stores before after = some next
      → phase.holdsLock = true ∧ next.holdsLock = true ∧ next.holdsTable = phase.holdsTable
        ∧ phase ≠ .entering ∧ phase ≠ .locked ∧ phase ≠ .owing ∧ (phase = .made → next = .made)
        ∧ (after = true → before = true ∨ next = .made ∨ phase = .consuming)
        ∧ (next = .consuming → phase = .consuming)
        ∧ (next = .consuming ∨ next = .producing ∨ next = .made) := by
  cases before <;> cases after <;> cases phase <;> cases next <;> decide

/-- A store by the holder of `lk`. Nobody else can be between its test and `release(lk)`. -/
theorem Attended.store (attended : Attended C chan s)
    (follows : (s.phase p).stores (C s.shared) (C shared) = some next)
    : Attended C chan { s.move p next with shared := shared } := by
  obtain ⟨had, has, table, notEntering, notLocked, notOwing, made, becomes, consuming, kind⟩ :=
    Phase.stores_spec follows
  refine attended.moved (attended.lock.move (has.trans had.symm)) (attended.table.move table)
    (fun q inside => ?_) ?_ ?_ ?_ ?_
  · rcases eq_or_ne q p with rfl | other
    · rw [update_self] at inside
      rcases kind with rfl | rfl | rfl <;> simp at inside
    · rw [update_of_ne other] at inside
      exact absurd inside (attended.found_other had ⟨notEntering, notLocked⟩ q)
  · rcases kind with rfl | rfl | rfl <;> simp
  · exact fun owes => .inl (made (owes.resolve_right notOwing))
  · rintro (true | uses)
    · rcases becomes true with before | makes | uses
      · exact .inl (.inl before)
      · exact .inr makes
      · exact .inl (.inr ⟨p, uses⟩)
    · exact .inl (.inr ⟨p, consuming uses⟩)
  · rcases kind with rfl | rfl | rfl <;> simp

/-- The consumer falls asleep. It has waited since it released `lk`. -/
theorem Attended.park (attended : Attended C chan s) (parking : s.phase p = .parking)
    : Attended C chan ((Sleep.park s p chan).move p .parked) where
  lock := attended.lock.move (by rw [parking]; rfl)
  table := attended.table.release (by rw [parking]; rfl) rfl
  found := attended.found_moved (by simp)
  chan := by
    intro q parked asleep
    rcases eq_or_ne q p with rfl | other
    · simp [Sleep.park, State.edit, State.move]
    · simp only [Sleep.park, State.edit, State.move, update_of_ne other] at parked asleep ⊢
      exact attended.chan q parked asleep
  owed := by
    intro now q waits
    have same : ∀ r, r ≠ p → update s.phase p .parked r = s.phase r := fun r other =>
      update_of_ne other ..
    have before : s.Available C := by
      refine now.imp id fun ⟨h, consuming⟩ => ⟨h, ?_⟩
      rcases eq_or_ne h p with rfl | other
      · exact absurd ((update_self ..).symm.trans consuming) (by decide)
      · exact (same h other).symm.trans consuming
    obtain ⟨r, debt⟩ := attended.owed before p (.inl parking)
    have other : r ≠ p := by
      rintro rfl
      simp [State.Owes, parking] at debt
    exact ⟨r, debt.imp (same r other).trans (same r other).trans⟩

/-- A process is given another state than `SLEEPING`. -/
theorem Attended.edit (attended : Attended C chan s) {proc : Proc χ}
    (awake : proc.state ≠ .sleeping ∨ s.phase p ≠ .parked)
    : Attended C chan (s.edit p proc) := by
  refine attended.procs rfl rfl rfl rfl fun q parked asleep => ?_
  simp only [State.edit] at asleep ⊢
  rcases eq_or_ne q p with rfl | other
  · rw [update_self] at asleep
    rcases awake with awake | elsewhere
    · exact absurd asleep awake
    · exact absurd parked elsewhere
  · rw [update_of_ne other] at asleep ⊢
    exact ⟨asleep, rfl⟩

/-- The phases of a process that has neither a lock nor a `wakeup` to perform. -/
def Phase.idle : Phase → Bool
  | .outside | .parked | .relocking | .elsewhere => true
  | _ => false

theorem Phase.idle_spec
    : phase.idle = true
      → phase.holdsLock = false ∧ phase.holdsTable = false
        ∧ phase ≠ .made ∧ phase ≠ .owing ∧ phase ≠ .parking ∧ phase ≠ .consuming
        ∧ ¬ (phase = .entering ∨ phase = .locked) := by
  cases phase <;> decide

theorem Phase.wakes_spec
    : phase.wakes = some next
      → next.holdsLock = phase.holdsLock ∧ next.holdsTable = phase.holdsTable
        ∧ (next = .producing ∨ next = .outside) := by
  cases phase <;> cases next <;> decide

section

variable (attended : Attended C chan s)
include attended

theorem Attended.drift (idle : (s.phase p).idle = true) (still : next.idle = true)
    (awake : next ≠ .parked)
    : Attended C chan (s.move p next) := by
  obtain ⟨lock, table, notMade, notOwing, -, -, -⟩ := Phase.idle_spec idle
  obtain ⟨lock', table', -, -, notParking, notConsuming, notEntering⟩ := Phase.idle_spec still
  exact attended.moved (attended.lock.move (lock'.trans lock.symm))
    (attended.table.move (table'.trans table.symm))
    (attended.found_moved fun enters => absurd enters notEntering) awake
    (fun owes => (owes.elim notMade notOwing).elim)
    (fun now => .inl (.inl (now.resolve_right notConsuming)))
    (fun parks => absurd parks notParking)

theorem Attended.resume
    : Attended C chan (Sleep.resume s p) := by
  have running : ∀ c, Attended C chan (s.edit p ⟨.running, c⟩) := fun c =>
    attended.edit (.inl (by simp))
  unfold Sleep.resume
  split
  · rename_i parked
    exact (running none).drift (by simp [State.edit, parked, Phase.idle]) rfl (by decide)
  · rename_i elsewhere
    exact (running none).drift (by simp [State.edit, elsewhere, Phase.idle]) rfl (by decide)
  · exact running _

/-- `sleep` for another reason. -/
theorem Attended.sleep (outside : s.phase p = .outside) (free : s.ptable = none) (c : χ)
    : Attended C chan ((Sleep.park s p c).move p .elsewhere) := by
  have moved : Attended C chan (s.move p .elsewhere) :=
    attended.drift (by rw [outside]; rfl) rfl (by decide)
  have edited : Attended C chan ((s.move p .elsewhere).edit p ⟨.sleeping, some c⟩) :=
    moved.edit (.inr (by simp [State.move]))
  exact edited.procs rfl rfl free.symm rfl fun q _ asleep => ⟨asleep, rfl⟩

theorem Attended.rouse : Attended C chan (Sleep.rouse s p) := by
  unfold Sleep.rouse
  split
  · exact attended.edit (.inl (by simp))
  · exact attended

variable [DecidableEq χ]

/-- `wakeup(chan)` runs when nobody has `ptable.lock`, so it finds all that wait asleep. -/
theorem Attended.signal (free : s.ptable = none)
    (follows : (s.phase p).wakes = some next)
    : Attended C chan ((wakeup1 s chan).move p next) := by
  obtain ⟨lock, table, kind⟩ := Phase.wakes_spec follows
  have awake : ∀ q, update s.phase p next q = .parked
      → ((s.proc q).wake chan).state ≠ .sleeping := by
    intro q parked
    have before : s.phase q = .parked := by
      rcases eq_or_ne q p with rfl | other
      · rw [update_self] at parked
        rcases kind with rfl | rfl <;> cases parked
      · exact (update_of_ne other ..).symm.trans parked
    unfold Proc.wake
    split
    · simp
    · rename_i still
      exact fun asleep => still ⟨asleep, attended.chan q before asleep⟩
  have nobody : ∀ q, update s.phase p next q ≠ .parking := by
    intro q parking
    have has := (attended.table.move (p := p) table q).mp (by rw [parking]; rfl)
    rw [free] at has
    cases has
  refine ⟨attended.lock.move lock, attended.table.move table, attended.found_moved ?_, ?_, ?_⟩
  · rcases kind with rfl | rfl <;> simp
  · exact fun q parked asleep => absurd asleep (awake q parked)
  · exact fun _ q waits => (waits.elim (nobody q) fun ⟨parked, asleep⟩ => awake q parked asleep).elim

omit [DecidableEq π] in
theorem Attended.wakeup (c : χ)
    : Attended C chan (wakeup1 s c) := by
  refine attended.procs rfl rfl rfl rfl fun q _ asleep => ?_
  simp only [wakeup1, Proc.wake] at asleep ⊢
  split at asleep
  · cases asleep
  · rename_i still
    rw [if_neg still]
    exact ⟨asleep, rfl⟩

theorem Attended.step {label : Label π χ σ} (stepped : s.step C chan label = some t)
    : Attended C chan t := by
  cases label with
  | acquire p next =>
    obtain ⟨⟨-, free, follows⟩, ⟨⟩⟩ := ite_none_right_eq_some.mp stepped
    exact attended.acquire free follows
  | test p =>
    obtain ⟨⟨-, testing⟩, ⟨⟩⟩ := ite_none_right_eq_some.mp stepped
    exact attended.test testing
  | acquireTable p =>
    obtain ⟨⟨-, entering, free⟩, ⟨⟩⟩ := ite_none_right_eq_some.mp stepped
    exact attended.acquireTable entering free
  | release p =>
    obtain ⟨-, released⟩ := ite_none_right_eq_some.mp stepped
    obtain ⟨next, follows, rfl⟩ := map_eq_some_iff.mp released
    exact attended.release follows
  | park p =>
    obtain ⟨⟨-, parking⟩, ⟨⟩⟩ := ite_none_right_eq_some.mp stepped
    exact attended.park parking
  | store p shared =>
    obtain ⟨-, stored⟩ := ite_none_right_eq_some.mp stepped
    obtain ⟨next, follows, rfl⟩ := map_eq_some_iff.mp stored
    exact attended.store follows
  | signal p =>
    obtain ⟨⟨-, free⟩, woken⟩ := ite_none_right_eq_some.mp stepped
    obtain ⟨next, follows, rfl⟩ := map_eq_some_iff.mp woken
    exact attended.signal free follows
  | schedule p =>
    obtain ⟨-, ⟨⟩⟩ := ite_none_right_eq_some.mp stepped
    exact attended.resume
  | yield p =>
    obtain ⟨-, ⟨⟩⟩ := ite_none_right_eq_some.mp stepped
    exact attended.edit (.inl (by simp))
  | sleep p c =>
    obtain ⟨⟨-, outside, free⟩, ⟨⟩⟩ := ite_none_right_eq_some.mp stepped
    exact attended.sleep outside free c
  | wakeup c =>
    obtain ⟨-, ⟨⟩⟩ := ite_none_right_eq_some.mp stepped
    exact attended.wakeup c
  | kill p =>
    obtain ⟨-, ⟨⟩⟩ := ite_none_right_eq_some.mp stepped
    exact attended.rouse

end

variable [DecidableEq χ]

/-- No wakeup is lost: while the condition holds and a consumer sleeps on `chan`, a producer that
has made the condition true has still to call `wakeup(chan)`.
-/
theorem sleeper_owed_wakeup (C : σ → Bool) (chan : χ) (shared : σ)
    {labels : List (Label π χ σ)} {s : State π χ σ}
    (reached : run (State.step C chan) labels (.start shared) = some s)
    {p : π} (sleeps : s.Sleeps chan p) (holds : C s.shared = true)
    : ∃ q, s.Owes q := by
  have attended : Attended C chan s := run_invariant (motive := Attended C chan)
    (fun _ _ _ before stepped => before.step stepped) (start_attended C chan shared) reached
  exact attended.owed (.inl holds) p (.inr ⟨sleeps.1, sleeps.2.1⟩)

/-- The consumer `true` releases the lock inside `sleep`; before it is asleep the producer
`false` takes the lock and adds an item.
-/
def addsInSleep : List (Label Bool Unit Nat) :=
  [.schedule true, .schedule false, .acquire true .testing, .test true, .acquireTable true,
    .release true, .acquire false .producing, .store false 1, .park true, .release false]

theorem addsInSleep_owes
    : ∃ s, run (State.step (fun items => decide (0 < items)) ()) addsInSleep (.start 0) = some s
        ∧ s.Sleeps () true
        ∧ s.shared = 1
        ∧ ∃ q, s.Owes q := by
  obtain ⟨s, reached, sleeps, one⟩ :
      ∃ s ∈ run (State.step (fun items => decide (0 < items)) ()) addsInSleep (.start 0),
        (s.phase true = .parked ∧ (s.proc true).state = .sleeping ∧ (s.proc true).chan = some ())
        ∧ s.shared = 1 := by
    decide +kernel
  exact ⟨s, reached, sleeps, one,
    sleeper_owed_wakeup _ () 0 reached sleeps (by rw [one]; rfl)⟩

end Xv6.Sleep
