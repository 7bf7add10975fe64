import Xv6.Lock.Sleeplock

/-! Sleep locks exclude, and nobody waits for a free one. Both need that processes release only
what they have acquired; the functions that check for a lock do not check who has it.
-/

namespace Xv6.Lock

open Xv6.Lib
open Option (ite_none_right_eq_some)

variable {π χ : Type} {pid : π → Int32} {lk : χ} {s t : State π χ} {p : π}

/-- What the lock holds when `owner` has it. -/
def Sleeplock.of (pid : π → Int32) : Option π → Sleeplock
  | none => ⟨0, 0⟩
  | some p => ⟨1, pid p⟩

/-- `owner` is the one process that has acquired the lock. Those that are about to sleep have
found it taken, and nobody gives it back before they sleep, since that takes `ptable.lock`.
-/
structure Sound (pid : π → Int32) (lk : χ) (s : State π χ) (owner : Option π) : Prop where
  held : HeldBy id s.acquired owner
  lock : s.lk = Sleeplock.of pid owner
  table : HeldBy Phase.holdsTable s.phase s.ptable
  found : ∀ p, s.phase p = .parking → s.lk.locked = 1
  asleep : ∀ p, (s.proc p).state = .sleeping → (s.proc p).chan = some lk → s.lk.locked = 1

variable {owner : Option π}
variable {proc : Sleep.Proc χ} {next : Phase}

theorem start_sound : Sound pid lk (State.start : State π χ) none where
  held := fun _ => by simp [State.start]
  lock := rfl
  table := fun _ => by simp [State.start, Phase.holdsTable]
  found := fun _ parking => by cases parking
  asleep := fun _ asleep => by cases asleep

section

variable (sound : Sound pid lk s owner)
include sound

theorem Sound.free (free : s.lk.locked = 0) : owner = none := by
  cases owner with
  | none => rfl
  | some p =>
    rw [sound.lock] at free
    exact absurd free (by simp [Sleeplock.of])

theorem Sound.taken (taken : s.lk.locked ≠ 0)
    : s.lk.locked = 1 := by
  rw [sound.lock] at taken ⊢
  cases owner with
  | none => exact absurd rfl taken
  | some p => rfl

theorem Sound.holdingsleep_iff : holdingsleep s.lk ≠ 0 ↔ owner ≠ none := by
  rw [holdingsleep, sound.lock]
  cases owner <;> simp [Sleeplock.of]

variable [DecidableEq π]

/-- A process changes its own fields. It holds `ptable.lock` as before, and is asleep on the lock
only if the lock is taken.
-/
theorem Sound.edit {ptable : Option π}
    (table : HeldBy Phase.holdsTable (Function.update s.phase p next) ptable)
    (found : next = .parking → s.lk.locked = 1)
    (asleep : proc.state = .sleeping → proc.chan = some lk → s.lk.locked = 1)
    : Sound pid lk { s.edit p proc next with ptable := ptable } owner where
  held := sound.held
  lock := sound.lock
  table := table
  found := by
    intro q
    rcases eq_or_ne q p with rfl | other
    · simpa [State.edit] using found
    · simpa [State.edit, other] using sound.found q
  asleep := by
    intro q
    rcases eq_or_ne q p with rfl | other
    · simpa [State.edit] using asleep
    · simpa [State.edit, other] using sound.asleep q

/-- A process that is awake, or sleeps where it slept, and keeps its place. -/
theorem Sound.edit_same (place : next.holdsTable = (s.phase p).holdsTable)
    (found : next = .parking → s.phase p = .parking)
    (awake : proc.state = .sleeping → proc.chan ≠ some lk)
    : Sound pid lk (s.edit p proc next) owner :=
  sound.edit (sound.table.move place) (fun parking => sound.found p (found parking))
    fun asleep chan => absurd chan (awake asleep)

theorem Sound.acquire (free : s.lk.locked = 0) (outside : (s.phase p).holdsTable = false)
    : Sound pid lk
        { (s.edit p (s.proc p) .outside).mark p true with lk := s.lk.take (pid p) } (some p) := by
  obtain rfl := sound.free free
  exact {
    held := sound.held.acquire rfl
    lock := rfl
    table := sound.table.move outside.symm
    found := fun _ _ => rfl
    asleep := fun _ _ _ => rfl
  }

theorem Sound.resume : Sound pid lk (resume s p) owner := by
  unfold Lock.resume
  cases phase : s.phase p <;>
    exact sound.edit_same (by simp [phase, Phase.holdsTable]) (by simp [phase]) (by simp)

end

variable [DecidableEq χ]

/-- After the `wakeup` of `releasesleep` nobody sleeps on the lock. -/
theorem wake_awake (c : χ) (proc : Sleep.Proc χ) (asleep : (proc.wake c).state = .sleeping)
    : (proc.wake c).chan ≠ some c := by
  unfold Sleep.Proc.wake at asleep ⊢
  split at asleep
  · cases asleep
  · rename_i other
    rw [if_neg other]
    exact fun chan => other ⟨asleep, chan⟩

theorem Sound.wakeup (sound : Sound pid lk s owner) (c : χ)
    : Sound pid lk (wakeup1 s c) owner where
  held := sound.held
  lock := sound.lock
  table := sound.table
  found := sound.found
  asleep := by
    intro q asleep chan
    dsimp only [wakeup1] at asleep chan ⊢
    unfold Sleep.Proc.wake at asleep chan
    split at asleep
    · cases asleep
    · rename_i other
      rw [if_neg other] at chan
      exact sound.asleep q asleep chan

variable [DecidableEq π]

theorem Sound.release (sound : Sound pid lk s owner) (own : s.acquired p = true)
    (free : s.ptable = none)
    : Sound pid lk (releasesleep s p lk) none where
  held := sound.held.release own rfl
  lock := rfl
  table := sound.table
  found := by
    intro q parking
    have table := sound.table
    rw [free] at table
    exact absurd (by rw [show s.phase q = .parking from parking]; rfl) (table.not_holds q)
  asleep := fun q asleep chan => absurd chan (wake_awake lk (s.proc q) asleep)

/-- Processes release only what they have acquired. -/
def State.ReleasesOwn (s : State π χ) : Label π χ → Prop
  | .releasesleep p => s.acquired p = true
  | _ => True

instance State.ReleasesOwn.decidable (s : State π χ) (label : Label π χ)
    : Decidable (s.ReleasesOwn label) := by
  cases label <;> dsimp only [State.ReleasesOwn] <;> infer_instance

theorem Sound.step (sound : Sound pid lk s owner) {label : Label π χ}
    (own : s.ReleasesOwn label) (stepped : step pid lk s label = some t)
    : ∃ next, Sound pid lk t next := by
  cases label with
  | acquiresleep p =>
    obtain ⟨⟨_, place⟩, ran⟩ := ite_none_right_eq_some.mp stepped
    have outside : (s.phase p).holdsTable = false := by
      rcases place with phase | phase <;> rw [phase] <;> rfl
    unfold Lock.acquiresleep at ran
    split at ran
    · rename_i free
      cases ran
      exact ⟨_, sound.acquire free outside⟩
    · rename_i taken
      obtain ⟨free, ⟨⟩⟩ := ite_none_right_eq_some.mp ran
      have table := sound.table
      rw [free] at table
      refine ⟨_, sound.edit (table.acquire rfl) (fun _ => sound.taken taken) ?_⟩
      exact sound.asleep p
  | park p =>
    obtain ⟨⟨_, parking⟩, ⟨⟩⟩ := ite_none_right_eq_some.mp stepped
    have taken := sound.found p parking
    refine ⟨_, sound.edit (sound.table.release ?_ rfl) (fun _ => taken) fun _ _ => taken⟩
    rw [parking]
    rfl
  | releasesleep p =>
    obtain ⟨⟨_, _, free⟩, ⟨⟩⟩ := ite_none_right_eq_some.mp stepped
    exact ⟨_, sound.release own free⟩
  | schedule p =>
    obtain ⟨_, ⟨⟩⟩ := ite_none_right_eq_some.mp stepped
    exact ⟨_, sound.resume⟩
  | yield p =>
    obtain ⟨_, ⟨⟩⟩ := ite_none_right_eq_some.mp stepped
    exact ⟨_, sound.edit_same rfl id (by simp)⟩
  | sleep p c =>
    obtain ⟨⟨_, outside, _, other⟩, ⟨⟩⟩ := ite_none_right_eq_some.mp stepped
    refine ⟨_, sound.edit_same (by rw [outside]; rfl) (by simp) fun _ chan => ?_⟩
    exact other (Option.some.inj chan)
  | wakeup c =>
    obtain ⟨_, ⟨⟩⟩ := ite_none_right_eq_some.mp stepped
    exact ⟨_, sound.wakeup c⟩
  | kill p =>
    obtain ⟨_, ⟨⟩⟩ := ite_none_right_eq_some.mp stepped
    unfold rouse
    split
    · exact ⟨_, sound.edit_same rfl id (by simp)⟩
    · exact ⟨_, sound⟩

/-- Along every run in which processes release only what they have acquired. -/
theorem reached_sound {labels : List (Label π χ)}
    (reached : run (step pid lk) labels State.start = some s)
    (own : Along (step pid lk) State.ReleasesOwn labels State.start)
    : ∃ owner, Sound pid lk s owner :=
  along_induction (motive := fun _ s => ∃ owner, Sound pid lk s owner) ⟨none, start_sound⟩
    (fun _ _ _ _ ⟨_, sound⟩ own stepped => sound.step own stepped) reached own

/-- At most one process has the lock, it is locked under the id of that process, and whoever
sleeps on it waits for a lock that is taken.
-/
theorem sleeplock_excludes {labels : List (Label π χ)}
    (reached : run (step pid lk) labels State.start = some s)
    (own : Along (step pid lk) State.ReleasesOwn labels State.start)
    : (∀ p q, s.acquired p = true → s.acquired q = true → p = q)
      ∧ (s.lk.locked = 1 ↔ ∃ p, s.acquired p = true)
      ∧ (∀ p, s.acquired p = true → s.lk.pid = pid p)
      ∧ ∀ p, (s.proc p).state = .sleeping → (s.proc p).chan = some lk → s.lk.locked = 1 := by
  obtain ⟨owner, sound⟩ := reached_sound reached own
  refine ⟨fun p q hasP hasQ => sound.held.unique hasP hasQ, ⟨?_, ?_⟩, ?_, sound.asleep⟩
  · intro locked
    cases owner with
    | none =>
        rw [sound.lock] at locked
        exact absurd locked (by simp [Sleeplock.of])
    | some p => exact ⟨p, (sound.held p).mpr rfl⟩
  · rintro ⟨p, has⟩
    rw [sound.lock, (sound.held p).mp has]
    rfl
  · intro p has
    rw [sound.lock, (sound.held p).mp has]
    rfl

/-- Process 1 waits for the lock of process 0, is killed and waits again; process 2 takes the lock
before it.
-/
def contention : List (Label (Fin 3) Bool) :=
  [.schedule 0, .schedule 1, .schedule 2, .acquiresleep 0, .acquiresleep 1, .park 1, .kill 1,
    .schedule 1, .acquiresleep 1, .park 1, .releasesleep 0, .acquiresleep 2, .schedule 1,
    .acquiresleep 1, .park 1]

theorem contention_excludes
    : ∃ s, run (step (fun p : Fin 3 => Int32.ofNat (p + 1)) true) contention State.start = some s
        ∧ s.acquired 2 = true
        ∧ (s.proc 1).state = .sleeping
        ∧ s.lk = ⟨1, 3⟩
        ∧ (∀ p q, s.acquired p = true → s.acquired q = true → p = q) := by
  obtain ⟨s, reached, has, waits, lock⟩ :
      ∃ s ∈ run (step (fun p : Fin 3 => Int32.ofNat (p + 1)) true) contention State.start,
        s.acquired 2 = true ∧ (s.proc 1).state = .sleeping ∧ s.lk = ⟨1, 3⟩ := by
    decide +kernel
  exact ⟨s, reached, has, waits, lock, (sleeplock_excludes reached (by decide +kernel)).1⟩

/-! The functions that insist on a lock. -/

/-- What process `p` finds out with `holdingsleep` is whether it has the lock, and the functions
that check for the lock panic if it has not.
-/
structure Guards (s : State π χ) (p : π) : Prop where
  holding : holdingsleep s.lk ≠ 0 ↔ s.acquired p = true
  iderw
    : s.acquired p = false
      → ∀ b havedisk1, b.lock = s.lk → iderw b havedisk1 = .error "iderw: buf not locked"
  bwrite
    : s.acquired p = false → ∀ b havedisk1, b.lock = s.lk → bwrite b havedisk1 = .error "bwrite"
  brelse : s.acquired p = false → ∀ b, b.lock = s.lk → brelse b = .error "brelse"
  iunlock : s.acquired p = false → ∀ ip, ip.lock = s.lk → iunlock (some ip) = .error "iunlock"

omit [DecidableEq χ] [DecidableEq π] in
/-- All checks ask `holdingsleep`. -/
theorem Guards.of_holding (holding : holdingsleep s.lk ≠ 0 ↔ s.acquired p = true)
    : Guards s p := by
  have free : s.acquired p = false → holdingsleep s.lk = 0 := by
    intro without
    by_contra taken
    rw [holding.mp taken] at without
    cases without
  refine ⟨holding, ?_, ?_, ?_, ?_⟩
  · intro without b havedisk1 same
    rw [Lock.iderw, same, if_pos (free without)]
  · intro without b havedisk1 same
    rw [Lock.bwrite, same, if_pos (free without)]
  · intro without b same
    rw [Lock.brelse, same, if_pos (free without)]
  · intro without ip same
    rw [Lock.iunlock, same, if_pos (.inl (free without))]

/-- The checks of a process are right exactly when no other process has the lock. -/
theorem guards_iff_no_other {labels : List (Label π χ)}
    (reached : run (step pid lk) labels State.start = some s)
    (own : Along (step pid lk) State.ReleasesOwn labels State.start) (p : π)
    : Guards s p ↔ ∀ q, s.acquired q = true → q = p := by
  obtain ⟨owner, sound⟩ := reached_sound reached own
  constructor
  · intro guards q has
    have taken : holdingsleep s.lk ≠ 0 := by
      rw [sound.holdingsleep_iff, (sound.held q).mp has]
      exact Option.some_ne_none q
    exact sound.held.unique has (guards.holding.mp taken)
  · intro alone
    refine .of_holding ?_
    rw [sound.holdingsleep_iff]
    constructor
    · intro taken
      obtain ⟨q, rfl⟩ := Option.ne_none_iff_exists'.mp taken
      have has := (sound.held q).mpr rfl
      rwa [alone q has] at has
    · intro has
      rw [(sound.held p).mp has]
      exact Option.some_ne_none p

/-- Process 0 has the lock, and checks it. -/
theorem guards_of_holder
    : ∃ s : State (Fin 2) Bool,
        run (step (fun _ => 1) true) [.schedule 0, .acquiresleep 0] State.start = some s
        ∧ holdingsleep s.lk = 1
        ∧ Guards s 0 := by
  obtain ⟨s, reached, holding, alone⟩ : ∃ s ∈ run (step (fun _ => 1) true)
      [.schedule 0, .acquiresleep 0] (State.start : State (Fin 2) Bool),
      holdingsleep s.lk = 1 ∧ ∀ q, s.acquired q = true → q = 0 := by
    decide +kernel
  exact ⟨s, reached, holding, (guards_iff_no_other reached (by decide +kernel) 0).mpr alone⟩

/-- Process 0 has the lock and process 1 has never acquired it. Still `holdingsleep` returns 1 to
process 1, which can write and release the buffer, and unlock the inode.
-/
theorem guards_pass_others
    : ∃ s : State (Fin 2) Bool,
        run (step (fun p : Fin 2 => Int32.ofNat (p + 1)) true)
          [.schedule 0, .schedule 1, .acquiresleep 0] State.start = some s
        ∧ s.acquired 0 = true
        ∧ s.acquired 1 = false
        ∧ holdingsleep s.lk = 1
        ∧ iderw ⟨true, true, 1, s.lk, 1⟩ true = .ok ⟨true, false, 1, s.lk, 1⟩
        ∧ bwrite ⟨true, false, 1, s.lk, 1⟩ true = .ok ⟨true, false, 1, s.lk, 1⟩
        ∧ brelse ⟨true, false, 1, s.lk, 1⟩ = .ok ⟨true, false, 1, ⟨0, 0⟩, 0⟩
        ∧ iunlock (some ⟨1, s.lk⟩) = .ok ⟨1, ⟨0, 0⟩⟩ := by
  obtain ⟨s, reached, has, without, lock⟩ :
      ∃ s ∈ run (step (fun p : Fin 2 => Int32.ofNat (p + 1)) true)
        [.schedule 0, .schedule 1, .acquiresleep 0] (State.start : State (Fin 2) Bool),
        s.acquired 0 = true ∧ s.acquired 1 = false ∧ s.lk = ⟨1, 1⟩ := by
    decide +kernel
  refine ⟨s, reached, has, without, ?_⟩
  rw [lock]
  exact ⟨rfl, rfl, rfl, rfl, rfl⟩

end Xv6.Lock
