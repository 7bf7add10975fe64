import Xv6.Pipe.Fifo

/-! Who sleeps on a pipe.
A reader goes to sleep on an empty pipe and a writer on a full one. Whatever changes that wakes
them, with one exception: a writer that has been killed leaves a pipe that it has just filled
without a `wakeup`.
-/

namespace Xv6.Pipe

open Xv6.Lib
open Function (update update_self update_of_ne)

/-- The call a process is in, as long as that call needs its file. -/
def Phase.call : Phase → Option Call
  | .checking c | .dozing c | .asleep c | .woken c => some c
  | .nudging i n => some (.write i n)
  | _ => none

/-- The holder of the lock is still to wake the users of this end. -/
def Phase.Attends (side : End) : Phase → Prop
  | .waking users _ => users = side
  | .nudging _ _ | .checking (.write _ _) => side = .read
  | _ => False

variable {ι : Type}

/-- The call has a reason to wait: a reader an empty pipe that may get more, a writer a full one
that may be emptied.
-/
def PipeState.Waits (s : PipeState ι) : Call → Prop
  | .read _ => s.ring.isEmpty = true ∧ s.opened .write = true
  | .write _ _ => s.ring.isFull = true ∧ s.opened .read = true

/-- What a process has found out under the lock. -/
def PipeState.Found (s : PipeState ι) : Phase → Prop
  | .checking (.read n) => s.Waits (.read n)
  | .checking (.write _ _) => s.ring.isFull = true
  | .nudging i n => s.Waits (.write i n)
  | .dozing c => s.Waits c
  | _ => True

/-- Sleepers have a reason to sleep, or the holder of the lock is still to wake them. -/
def PipeState.Attended (s : PipeState ι) : Prop :=
  ∀ q c, s.phase q = .asleep c
    → s.Waits c ∨ ∃ holder, s.lock = some holder ∧ (s.phase holder).Attends c.side

/-- The lock has its holder, who knows what it has seen; a process in a call has the file open;
reference counts count descriptors, and an end is closed only without references.
-/
structure PipeState.Sound [Fintype ι] (s : PipeState ι) : Prop where
  holder : ∀ p, (s.phase p).holds = true ↔ s.lock = some p
  found : ∀ p, s.Found (s.phase p)
  uses : ∀ p c, (s.phase p).call = some c → 0 < s.fds p c.side
  counted : ∀ side, s.ref side = total (fun fds : End → Nat => fds side) s.fds
  closed : ∀ side, s.opened side = false → s.ref side = 0
  last : ∀ p side, s.phase p = .closing side → s.ref side = 0

variable {s t : PipeState ι} {p : ι} {side : End} {next : Phase}

theorem waits_congr (ring : t.ring = s.ring) (opened : t.opened = s.opened) (c : Call)
    : t.Waits c ↔ s.Waits c := by
  cases c <;> simp only [PipeState.Waits, ring, opened]

theorem found_congr (ring : t.ring = s.ring) (opened : t.opened = s.opened) (phase : Phase)
    : t.Found phase ↔ s.Found phase := by
  have waits := waits_congr ring opened
  cases phase with
  | checking c => cases c <;> simp only [PipeState.Found, waits, ring]
  | nudging i n => exact waits (.write i n)
  | dozing c => exact waits c
  | _ => exact Iff.rfl

/-- A process outside the lock relies on nothing it has found. -/
theorem found_of_outside (t : PipeState ι) {phase : Phase} (outside : phase.holds = false)
    : t.Found phase := by
  cases phase with
  | checking | nudging | dozing => cases outside
  | _ => trivial

/-- A process is where it was, or has been taken out of `sleep`. -/
def Phase.Stays (before after : Phase) : Prop :=
  after = before ∨ ∃ c, before = .asleep c ∧ after = .woken c

/-- What the invariant says of one process. -/
structure PipeState.Fits (s : PipeState ι) (q : ι) : Prop where
  holder : (s.phase q).holds = true ↔ s.lock = some q
  found : s.Found (s.phase q)
  uses : ∀ c, (s.phase q).call = some c → 0 < s.fds q c.side
  last : ∀ side, s.phase q = .closing side → s.ref side = 0

/-- A process outside the lock that stays where it is, or is woken. -/
theorem PipeState.Fits.outside {q : ι} (fits : s.Fits q) (stays : (s.phase q).Stays (t.phase q))
    (outside : (s.phase q).holds = false) (unheld : t.lock ≠ some q) (fds : t.fds q = s.fds q)
    (ref : ∀ side, s.ref side = 0 → t.ref side = 0)
    : t.Fits q := by
  rcases stays with same | ⟨c, asleep, woken⟩
  · rw [← same] at outside
    refine ⟨by simp [outside, unheld], found_of_outside t outside, ?_, fun side closing => ?_⟩
    · rw [same, fds]
      exact fits.uses
    · exact ref side (fits.last side (same ▸ closing))
  · refine ⟨by simp [woken, Phase.holds, unheld], by rw [woken]; trivial, fun d inCall => ?_,
      fun side closing => nomatch woken.symm.trans closing⟩
    rw [woken] at inCall
    rw [fds]
    exact fits.uses d (by rw [asleep]; exact inCall)

/-- A process that notices nothing. -/
theorem PipeState.Fits.same {q : ι} (fits : s.Fits q) (phase : t.phase q = s.phase q)
    (lock : t.lock = s.lock) (ring : t.ring = s.ring) (opened : t.opened = s.opened)
    (fds : t.fds q = s.fds q) (ref : ∀ side, s.ref side = 0 → t.ref side = 0)
    : t.Fits q := by
  refine ⟨?_, ?_, ?_, fun side closing => ref side (fits.last side (phase ▸ closing))⟩
  · rw [phase, lock]
    exact fits.holder
  · rw [phase, found_congr ring opened]
    exact fits.found
  · rw [phase, fds]
    exact fits.uses

/-- `wakeup` leaves a process alone, or takes it out of `sleep`. -/
theorem stays_wake (phase : Phase) (side : End) : phase.Stays (phase.wake side) := by
  cases phase with
  | asleep c =>
    by_cases here : c.side = side
    · exact .inr ⟨c, rfl, by simp [Phase.wake, here]⟩
    · exact .inl (by simp [Phase.wake, here])
  | _ => exact .inl rfl

theorem Follows.holds {before : Phase} {woken : Option End} (follows : Follows s p before woken next)
    : before.holds = true := by
  cases follows <;> rfl

/-- What the holder of the lock knows, it has found out before. -/
theorem Follows.knows {before : Phase} {woken : Option End} (follows : Follows s p before woken next)
    (found : s.Found before) (uses : ∀ c, before.call = some c → 0 < s.fds p c.side)
    : s.Found next ∧ (∀ c, next.call = some c → 0 < s.fds p c.side) ∧ ∀ side, next ≠ .closing side := by
  cases follows with
  | gaveUp | woke | released => exact ⟨trivial, nofun, nofun⟩
  | slept => exact ⟨trivial, uses, nofun⟩
  | dozes | nudged => exact ⟨found, uses, nofun⟩
  | nudges opens => exact ⟨⟨found, opens⟩, uses, nofun⟩

/-- No wakeup is lost: with the lock free, whoever is asleep has a reason to be. -/
def PipeState.NoneLost (s : PipeState ι) : Prop :=
  s.lock = none → ∀ q c, s.phase q = .asleep c → s.Waits c

theorem PipeState.Attended.noneLost (attended : s.Attended) : s.NoneLost := by
  intro unlocked q c asleep
  cases attended q c asleep with
  | inl waits => exact waits
  | inr attends =>
    obtain ⟨holder, held, _⟩ := attends
    rw [unlocked] at held
    cases held

/-- A step that puts nobody to sleep and takes nobody out of a section keeps all attended. -/
theorem PipeState.Attended.keep (attended : s.Attended)
    (sleepers : ∀ q c, t.phase q = .asleep c → s.phase q = .asleep c)
    (holders : ∀ q side, (s.phase q).Attends side → (t.phase q).Attends side)
    (lock : t.lock = s.lock) (ring : t.ring = s.ring) (opened : t.opened = s.opened)
    : t.Attended := by
  intro q c asleep
  cases attended q c (sleepers q c asleep) with
  | inl waits => exact .inl ((waits_congr ring opened c).mpr waits)
  | inr attends =>
    obtain ⟨holder, held, attends⟩ := attends
    exact .inr ⟨holder, lock.trans held, holders holder c.side attends⟩

section

variable [Fintype ι]

/-- An end with a descriptor is open. -/
theorem PipeState.Sound.opened_of_fds (sound : s.Sound) (opens : 0 < s.fds p side)
    : 0 < s.ref side ∧ s.opened side = true := by
  have bound : s.fds p side ≤ s.ref side := by
    rw [sound.counted side]
    exact le_total (fun fds : End → Nat => fds side) s.fds p
  have positive : 0 < s.ref side := by omega
  refine ⟨positive, ?_⟩
  by_contra shut
  have none := sound.closed side (Bool.eq_false_iff.mpr shut)
  omega

theorem PipeState.Sound.fits (sound : s.Sound) (q : ι) : s.Fits q :=
  ⟨sound.holder q, sound.found q, sound.uses q, sound.last q⟩

theorem PipeState.Sound.of_fits (fits : ∀ q, s.Fits q)
    (counted : ∀ side, s.ref side = total (fun fds : End → Nat => fds side) s.fds)
    (closed : ∀ side, s.opened side = false → s.ref side = 0)
    : s.Sound :=
  ⟨fun q => (fits q).holder, fun q => (fits q).found, fun q => (fits q).uses, counted, closed,
    fun q => (fits q).last⟩

end

variable [DecidableEq ι]

/-- What the section of a call does: it moves its process to a phase with the lock, knowing what
that phase says, and all who had a reason to sleep still have it or are to be woken.
-/
structure RunsTo (s t : PipeState ι) (p : ι) (c : Call) (next : Phase) : Prop where
  phase : t.phase = update s.phase p next
  lock : t.lock = some p
  opened : t.opened = s.opened
  fds : t.fds = s.fds
  ref : t.ref = s.ref
  holds : next.holds = true
  call : ∀ d, next.call = some d → d.side = c.side
  found : t.Found next
  awake : ∀ d, next ≠ .asleep d
  waits : ∀ d, s.Waits d → t.Waits d ∨ next.Attends d.side

theorem piperead_runsTo (s : PipeState ι) (p : ι) (n : Int32)
    : ∃ next, RunsTo s (piperead s p n) p (.read n) next := by
  unfold piperead
  split
  · rename_i waits
    obtain ⟨empty, more⟩ := Bool.and_eq_true_iff.mp waits
    exact ⟨.checking (.read n), rfl, rfl, rfl, rfl, rfl, rfl, by simp [Phase.call],
      ⟨empty, more⟩, by simp, fun d waits => .inl (by cases d <;> exact waits)⟩
  · rename_i goes
    refine ⟨.waking .write _, rfl, rfl, rfl, rfl, rfl, rfl, by simp [Phase.call], trivial,
      by simp, fun d waits => ?_⟩
    cases d with
    | write i m => exact .inr rfl
    | read m => exact absurd (Bool.and_eq_true_iff.mpr waits) goes

theorem pipewrite_runsTo (s : PipeState ι) (p : ι) (user : Nat → UInt8) (i : Nat) (n : Int32)
    : ∃ next, RunsTo s (pipewrite s p user i n) p (.write i n) next := by
  obtain ⟨le, stops⟩ := storeLoop_stops user (n.toInt - i).toNat i s.ring
  -- A writer asleep means a full pipe, to which nothing is added.
  have waits : ∀ next : Phase, next.Attends .read → ∀ d, s.Waits d
      → (pipewrite s p user i n).Waits d ∨ next.Attends d.side := by
    intro next attends d waits
    cases d with
    | read m => exact .inr attends
    | write j m =>
      refine .inl ⟨?_, waits.2⟩
      have kept : (pipewrite s p user i n).ring = s.ring := storeLoop_of_full _ _ waits.1
      rw [kept]
      exact waits.1
  by_cases more : ((storeLoop user (n.toInt - i).toNat i s.ring).2.1 : Int) < n.toInt
  · refine ⟨.checking (.write (storeLoop user (n.toInt - i).toNat i s.ring).2.1 n), ?_, rfl, rfl,
      rfl, rfl, rfl, by simp [Phase.call, Call.side], stops (by omega), by simp,
      waits _ rfl⟩
    simp only [pipewrite, more, if_true]
    rfl
  · refine ⟨.waking .read (.returns n), ?_, rfl, rfl, rfl, rfl, rfl, by simp [Phase.call],
      trivial, by simp, waits _ rfl⟩
    simp only [pipewrite, more, if_false]
    rfl

theorem run_runsTo (s : PipeState ι) (p : ι) (user : Nat → UInt8) (c : Call)
    : ∃ next, RunsTo s (c.run s p user) p c next := by
  cases c with
  | read n => exact piperead_runsTo s p n
  | write i n => exact pipewrite_runsTo s p user i n

theorem stays_of_update {phase : ι → Phase} {q : ι} (other : q ≠ p)
    : (phase q).Stays (update phase p next q) :=
  .inl (update_of_ne other ..)

/-- `kill` takes a sleeper out of `sleep` and leaves all other processes where they are. -/
theorem kill_phase (s : PipeState ι) (p q : ι) : (s.phase q).Stays ((kill s p).phase q) := by
  by_cases isSelf : q = p
  · subst isSelf
    cases phase : s.phase q with
    | asleep c => exact .inr ⟨c, rfl, by simp [kill, PipeState.setPhase, phase]⟩
    | _ => exact .inl (by simp [kill, PipeState.setPhase, phase])
  · exact .inl (update_of_ne isSelf ..)

section Soundness

variable [Fintype ι]

/-- A step of the holder of the lock, or of the process that takes it, keeps the state sound if
that process knows what its phase says.
-/
theorem PipeState.Sound.move (sound : s.Sound) (alone : s.lock = none ∨ s.lock = some p)
    (self : t.phase p = next) (others : ∀ q, q ≠ p → (s.phase q).Stays (t.phase q))
    (lock : t.lock = if next.holds then some p else none) (fds : t.fds = s.fds)
    (ref : t.ref = s.ref) (closed : ∀ side, t.opened side = false → s.ref side = 0)
    (found : t.Found next) (uses : ∀ c, next.call = some c → 0 < s.fds p c.side)
    (inside : ∀ side, next ≠ .closing side)
    : t.Sound := by
  refine .of_fits (fun q => ?_) (by rw [ref, fds]; exact sound.counted) (by rw [ref]; exact closed)
  by_cases isSelf : q = p
  · subst isSelf
    refine ⟨?_, by rw [self]; exact found, by rw [self, fds]; exact uses,
      fun side closing => absurd (self.symm.trans closing) (inside side)⟩
    rw [self, lock]
    cases next.holds <;> simp
  · have outside : (s.phase q).holds = false := by
      refine Bool.eq_false_iff.mpr fun holds => ?_
      have held := (sound.holder q).mp holds
      rcases alone with unlocked | own
      · cases unlocked.symm.trans held
      · exact isSelf (Option.some.inj (held.symm.trans own))
    have unheld : t.lock ≠ some q := by
      rw [lock]
      split <;> simp [Ne.symm isSelf]
    exact (sound.fits q).outside (others q isSelf) outside unheld (by rw [fds])
      (by rw [ref]; exact fun _ => id)

/-- The section of a call keeps the state sound. -/
theorem RunsTo.sound {c : Call} (runs : RunsTo s t p c next) (sound : s.Sound)
    (unlocked : s.lock = none) (opens : 0 < s.fds p c.side)
    : t.Sound := by
  refine sound.move (.inl unlocked) (by rw [runs.phase, update_self])
    (fun q other => .inl (by rw [runs.phase, update_of_ne other])) (by rw [runs.lock, runs.holds]; rfl)
    runs.fds runs.ref (by rw [runs.opened]; exact sound.closed) runs.found (fun d inCall => ?_)
    fun side closing => ?_
  · rw [runs.call d inCall]
    exact opens
  · have holds := runs.holds
    rw [closing] at holds
    cases holds

theorem kill_sound (sound : s.Sound) : (kill s p).Sound := by
  refine .of_fits (fun q => ?_) sound.counted sound.closed
  have stays := kill_phase s p q
  have fits := sound.fits q
  rcases stays with same | ⟨c, asleep, _⟩
  · exact fits.same same rfl rfl rfl rfl fun _ => id
  · have outside : (s.phase q).holds = false := by rw [asleep]; rfl
    exact fits.outside (kill_phase s p q) outside
      (fun held => by simp [fits.holder.mpr held] at outside) rfl fun _ => id

/-- Counting the descriptors after one process got or lost some. -/
theorem counted_update (sound : s.Sound) (q : ι) (side : End) (next : Nat)
    (ref : t.ref = update s.ref side (s.ref side + next - s.fds q side))
    (fds : t.fds = update s.fds q (update (s.fds q) side next)) (other : End)
    : t.ref other = total (fun fds : End → Nat => fds other) t.fds := by
  have exchanged := total_update (fun fds : End → Nat => fds other) s.fds q
    (update (s.fds q) side next)
  have counted := sound.counted other
  rw [ref, fds]
  by_cases same : other = side
  · subst same
    simp only [update_self] at exchanged ⊢
    omega
  · simp only [update_of_ne same] at exchanged ⊢
    omega

theorem dup_sound {q : ι} (sound : s.Sound) (copied : dup s p q side = some t)
    : t.Sound := by
  obtain ⟨⟨_, _, opens⟩, made⟩ := Option.ite_none_right_eq_some.mp copied
  cases made
  obtain ⟨positive, opened⟩ := sound.opened_of_fds opens
  have elsewhere : ∀ other, s.ref other = 0 → other ≠ side := by
    intro other none same
    rw [same] at none
    omega
  refine ⟨sound.holder, sound.found, fun r c inCall => ?_, fun other => ?_, fun other shut => ?_,
    fun r other last => ?_⟩
  · have before := sound.uses r c inCall
    by_cases isCopy : r = q
    · subst isCopy
      by_cases same : c.side = side
      · simp [same]
      · simpa [same] using before
    · simpa [isCopy] using before
  · have added : s.ref side + (s.fds q side + 1) - s.fds q side = s.ref side + 1 := by omega
    exact counted_update sound q side (s.fds q side + 1) (by rw [added]) rfl other
  · have none := sound.closed other shut
    simpa [elsewhere other none] using none
  · have none := sound.last r other last
    simpa [elsewhere other none] using none

theorem close_sound (sound : s.Sound) (closed : close s p side = some t)
    : t.Sound := by
  obtain ⟨⟨idle, opens⟩, made⟩ := Option.ite_none_right_eq_some.mp closed
  cases made
  obtain ⟨positive, opened⟩ := sound.opened_of_fds opens
  have elsewhere : ∀ other, s.ref other = 0 → other ≠ side := by
    intro other none same
    rw [same] at none
    omega
  have bound : s.fds p side ≤ s.ref side := by
    rw [sound.counted side]
    exact le_total (fun fds : End → Nat => fds side) s.fds p
  have removed : s.ref side + (s.fds p side - 1) - s.fds p side = s.ref side - 1 := by omega
  have counted := counted_update
    (t := { s with
      fds := update s.fds p (update (s.fds p) side (s.fds p side - 1))
      ref := update s.ref side (s.ref side - 1) })
    sound p side (s.fds p side - 1) (by rw [removed]) rfl
  have unheld : s.lock ≠ some p := by
    intro held
    have holds := (sound.holder p).mpr held
    rw [idle] at holds
    cases holds
  have empties : ∀ other, s.ref other = 0 → update s.ref side (s.ref side - 1) other = 0 := by
    intro other none
    simpa [elsewhere other none] using none
  refine .of_fits (fun q => ?_) counted fun other shut => empties other (sound.closed other shut)
  by_cases isSelf : q = p
  · subst isSelf
    by_cases more : s.ref side - 1 > 0
    all_goals constructor <;>
      simp [PipeState.setPhase, more, Phase.holds, Phase.call, PipeState.Found, unheld]
    omega
  · exact (sound.fits q).same (update_of_ne isSelf ..) rfl rfl rfl (update_of_ne isSelf ..) empties

theorem pipeStep_sound {label : PipeStep ι} (sound : s.Sound) (stepped : pipeStep s label = some t)
    : t.Sound := by
  cases pipeStep_moves stepped with
  | @ran _ p user c unlocked uses made =>
    obtain ⟨next, runs⟩ := run_runsTo s p user c
    have opens := uses.elim id fun woken => sound.uses p c (by rw [woken]; rfl)
    exact made ▸ runs.sound sound unlocked opens
  | @went _ p before woken next _ phase follows _ made =>
    subst made phase
    have held := (sound.holder p).mp follows.holds
    obtain ⟨found, uses, inside⟩ := follows.knows (sound.found p) (sound.uses p)
    refine sound.move (.inr held) (update_self ..) (fun q other => ?_) (by rw [held]) rfl rfl
      sound.closed ((found_congr rfl rfl next).mpr found) uses inside
    simp only [update_of_ne other]
    cases woken with
    | none => exact .inl rfl
    | some side => exact stays_wake (s.phase q) side
  | killed made => exact made ▸ kill_sound sound
  | copied made => exact dup_sound sound made
  | closed made => exact close_sound sound made
  | @closing p side closing unlocked made =>
    subst made
    refine sound.move (.inl unlocked) (update_self ..) (fun _ => stays_of_update) rfl rfl rfl
      (fun other shut => ?_) trivial nofun nofun
    by_cases same : other = side
    · exact same ▸ sound.last p side closing
    · exact sound.closed other (by simpa [PipeState.setPhase, same] using shut)
  | reused made =>
    subst made
    exact ⟨sound.holder, sound.found, sound.uses, sound.counted, sound.closed, sound.last⟩

end Soundness

/-- A process that has been killed and finds the pipe full leaves no reader asleep. -/
def SparesReaders (s : PipeState ι) : PipeStep ι → Prop
  | .check p _ =>
      ∀ i n, s.phase p = .checking (.write i n)
        → s.killed p = true
        → ∀ q m, s.phase q ≠ .asleep (.read m)
  | _ => True

section Attendance

theorem RunsTo.attended {c : Call} {next : Phase} (runs : RunsTo s t p c next)
    (attended : s.Attended) (unlocked : s.lock = none)
    : t.Attended := by
  intro q d asleep
  rw [runs.phase] at asleep
  by_cases isSelf : q = p
  · rw [isSelf, update_self] at asleep
    exact absurd asleep (runs.awake d)
  · rw [update_of_ne isSelf] at asleep
    cases runs.waits d (attended.noneLost unlocked q d asleep) with
    | inl waits => exact .inl waits
    | inr attends =>
      refine .inr ⟨p, runs.lock, ?_⟩
      rw [runs.phase, update_self]
      exact attends

theorem wake_eq_asleep {phase : Phase} {c : Call} (asleep : phase.wake side = .asleep c)
    : phase = .asleep c ∧ c.side ≠ side := by
  cases phase with
  | asleep d =>
    simp only [Phase.wake] at asleep
    split at asleep
    · cases asleep
    · rename_i apart
      cases asleep
      exact ⟨rfl, apart⟩
  | _ => cases asleep

theorem kill_attended (attended : s.Attended) : (kill s p).Attended := by
  refine attended.keep (fun q c asleep => ?_) (fun q side attends => ?_) rfl rfl rfl
  · cases kill_phase s p q with
    | inl same => exact same ▸ asleep
    | inr woken =>
      obtain ⟨d, _, woken⟩ := woken
      rw [woken] at asleep
      cases asleep
  · cases kill_phase s p q with
    | inl same => exact same ▸ attends
    | inr woken =>
      obtain ⟨d, before, _⟩ := woken
      rw [before] at attends
      exact attends.elim

theorem close_attended (attended : s.Attended) (closed : close s p side = some t)
    : t.Attended := by
  obtain ⟨⟨idle, _⟩, made⟩ := Option.ite_none_right_eq_some.mp closed
  cases made
  refine attended.keep (fun q c asleep => ?_) (fun q users attends => ?_) rfl rfl rfl
  · by_cases isSelf : q = p
    · simp only [PipeState.setPhase, isSelf, update_self] at asleep
      split at asleep <;> cases asleep
    · simpa [PipeState.setPhase, isSelf] using asleep
  · by_cases isSelf : q = p
    · rw [isSelf, idle] at attends
      exact attends.elim
    · simpa [PipeState.setPhase, isSelf] using attends

variable [Fintype ι] {label : PipeStep ι}

/-- A step of the holder of the lock: it still attends to all it attended to, but for those that
it wakes, and for the readers that it leaves when it gives up.
-/
theorem follows_attended {woken : Option End} {next : Phase} {freed : Bool} (sound : s.Sound)
    (attended : s.Attended) (follows : Follows s p (s.phase p) woken next)
    (spares : ∀ i n, s.phase p = .checking (.write i n) → s.killed p = true
      → ∀ q m, s.phase q ≠ .asleep (.read m))
    : PipeState.Attended
        { s with
          phase := update (woken.elim s.phase fun side q => (s.phase q).wake side) p next
          lock := if next.holds then s.lock else none
          freed } := by
  have held := (sound.holder p).mp follows.holds
  have found := sound.found p
  intro q d asleep
  rw [waits_congr rfl rfl]
  by_cases isSelf : q = p
  · simp only [isSelf, update_self] at asleep
    generalize s.phase p = before at follows found
    subst asleep
    cases follows
    exact .inl found
  simp only [update_of_ne isSelf] at asleep
  obtain ⟨slept, apart⟩ : s.phase q = .asleep d ∧ ∀ side, woken = some side → d.side ≠ side := by
    cases woken with
    | none => exact ⟨asleep, nofun⟩
    | some side =>
      obtain ⟨slept, apart⟩ := wake_eq_asleep asleep
      exact ⟨slept, fun _ same => Option.some.inj same ▸ apart⟩
  rcases attended q d slept with waits | ⟨holder, held', attends⟩
  · exact .inl waits
  cases held.symm.trans held'
  generalize before : s.phase p = phase at follows spares attends
  cases follows with
  | @gaveUp c gives =>
    -- Only a writer attends here, to a reader: it has been killed, as the end is open.
    cases c with
    | read n => exact attends.elim
    | write i n =>
      cases d with
      | write j m => cases attends
      | read m =>
        have opens : s.opened .read = true :=
          (sound.opened_of_fds (sound.uses q (.read m) (by rw [slept]; rfl))).2
        have killed : s.killed p = true := by simpa [givesUp, opens] using gives
        exact absurd slept (spares i n rfl killed q m)
  | nudges =>
    refine .inr ⟨p, held, ?_⟩
    simp only [update_self]
    exact attends
  | nudged => exact absurd attends (apart .read rfl)
  | @woke side => exact absurd attends.symm (apart side rfl)
  | dozes | slept | released => exact attends.elim

/-- A step keeps all sleepers attended if it spares the readers. -/
theorem pipeStep_attended (sound : s.Sound) (attended : s.Attended) (spares : SparesReaders s label)
    (stepped : pipeStep s label = some t)
    : t.Attended := by
  cases pipeStep_moves stepped with
  | @ran _ p user c unlocked _ made =>
    obtain ⟨next, runs⟩ := run_runsTo s p user c
    exact made ▸ runs.attended attended unlocked
  | @went _ p before woken next _ phase follows checks made =>
    subst made phase
    refine follows_attended sound attended follows fun i n checking => ?_
    obtain ⟨ret, rfl⟩ := checks _ checking
    exact spares i n checking
  | killed made => exact made ▸ kill_attended attended
  | copied made =>
    obtain ⟨_, ⟨⟩⟩ := Option.ite_none_right_eq_some.mp made
    exact attended.keep (fun _ _ => id) (fun _ _ => id) rfl rfl rfl
  | closed made => exact close_attended attended made
  | @closing p side closing _ made =>
    -- `pipeclose` is about to wake whoever sleeps on the pipe.
    subst made
    intro q d asleep
    by_cases isSelf : q = p
    · simp [PipeState.setPhase, isSelf] at asleep
    simp only [PipeState.setPhase, update_of_ne isSelf] at asleep
    -- Whoever is in a call on the end that closes would have a reference to it.
    have apart : d.side ≠ side := by
      intro same
      have positive := (sound.opened_of_fds (sound.uses q d (by rw [asleep]; rfl))).1
      rw [same, sound.last p side closing] at positive
      cases positive
    refine .inr ⟨p, rfl, ?_⟩
    simp only [PipeState.setPhase, update_self]
    cases side <;> cases d <;> first | rfl | exact absurd rfl apart
  | reused made =>
    subst made
    exact attended.keep (fun _ _ => id) (fun _ _ => id) rfl rfl rfl

/-- A killed writer that leaves a reader asleep leaves it on a full pipe with a free lock. -/
theorem spares_of_noneLost (sound : s.Sound) (stepped : pipeStep s label = some t)
    (noneLost : t.NoneLost)
    : SparesReaders s label := by
  cases label with
  | check p ret =>
    intro i n checking killed q m asleep
    simp only [pipeStep, check, checking] at stepped
    have gives : givesUp s p (.write i n) = true := by simp [givesUp, killed]
    rw [if_pos gives] at stepped
    obtain ⟨_, made⟩ := Option.ite_none_right_eq_some.mp stepped
    cases made
    have other : q ≠ p := by
      intro isSelf
      rw [isSelf, checking] at asleep
      cases asleep
    have waits := noneLost rfl q (.read m) (by simpa [PipeState.setPhase, other] using asleep)
    have full := sound.found p
    rw [checking] at full
    have none := (Ring.isEmpty_iff s.ring).mp waits.1
    have all := isFull_iff_count.mp full
    rw [none] at all
    cases all
  | _ => trivial

end Attendance

section Runs

variable {data : Fin pipesize → UInt8} {owner : ι}

theorem pipealloc_attended : (PipeState.pipealloc data owner).Attended :=
  fun _ _ asleep => nomatch asleep

variable [Fintype ι]

theorem pipealloc_sound : (PipeState.pipealloc data owner).Sound where
  holder := by simp [PipeState.pipealloc, Phase.holds]
  found := fun _ => trivial
  uses := fun _ _ inCall => nomatch inCall
  counted := fun side => by simp [PipeState.pipealloc, total]
  closed := fun _ shut => nomatch shut
  last := fun _ _ closing => nomatch closing

/-- In a run from `sys_pipe`, no wakeup is lost exactly when no process that has been killed
finds the pipe full in `pipewrite` while a reader is asleep.
-/
theorem noneLost_iff_sparesReaders {labels : List (PipeStep ι)} {final : PipeState ι}
    (reached : run pipeStep labels (.pipealloc data owner) = some final)
    : (∀ before s,
          before <+: labels
          → run pipeStep before (.pipealloc data owner) = some s
          → s.NoneLost)
      ↔ Along pipeStep SparesReaders labels (.pipealloc data owner) := by
  have sound : ∀ {before s}, run pipeStep before (.pipealloc data owner) = some s → s.Sound :=
    fun reached => run_invariant (fun _ _ _ sound stepped => pipeStep_sound sound stepped)
      pipealloc_sound reached
  have throughout := throughout_iff_along (motive := fun _ s => PipeState.Attended s)
    pipealloc_attended
    (fun before label rest s t _ ran stepped attended =>
      ⟨fun after => spares_of_noneLost (sound ran) stepped after.noneLost,
        fun spares => pipeStep_attended (sound ran) attended spares stepped⟩) reached
  rw [← throughout]
  constructor
  · intro noneLost before s shorter ran
    refine run_induction
      (motive := fun before s => before <+: labels → s.Attended)
      (fun _ => pipealloc_attended) ?_ ran shorter
    intro before s label t earlier attended stepped shorter
    have lost := noneLost _ t shorter (run_concat.mpr ⟨s, earlier, stepped⟩)
    exact pipeStep_attended (sound earlier)
      (attended ((List.prefix_append _ _).trans shorter))
      (spares_of_noneLost (sound earlier) stepped lost) stepped
  · intro attended before s shorter ran
    exact (attended before s shorter ran).noneLost

end Runs

/-- A reader sleeps, is woken by a write and reads. -/
def readerWoken : List (PipeStep (Fin 2)) :=
  [.dup 0 1 .read, .read 1 1, .check 1 none, .sleep 1, .write 0 1 fun _ => 7, .wakeup 0,
    .unlock 0 (.returns 1), .resume 1 fun _ => 0]

theorem readerWoken_noneLost
    : ∃ final,
        run pipeStep readerWoken (.pipealloc (fun _ => 0) 0) = some final
        ∧ ∀ before s,
            before <+: readerWoken
            → run pipeStep before (.pipealloc (fun _ => 0) 0) = some s
            → s.NoneLost := by
  obtain ⟨final, reached⟩ : ∃ s, run pipeStep readerWoken (.pipealloc (fun _ => 0) 0) = some s := by
    decide
  refine ⟨final, reached, (noneLost_iff_sparesReaders reached).mpr ?_⟩
  refine ⟨trivial, fun _ first => ?_⟩
  cases first
  refine ⟨trivial, fun _ second => ?_⟩
  cases second
  refine ⟨fun _ _ writes => (nomatch writes), fun _ _ => ?_⟩
  exact ⟨trivial, fun _ _ => ⟨trivial, fun _ _ => ⟨trivial, fun _ _ => ⟨trivial, fun _ _ =>
    ⟨trivial, fun _ _ => trivial⟩⟩⟩⟩⟩

/-- A killed process writes more than fits while a reader is asleep. -/
def killedWriter : List (PipeStep (Fin 2)) :=
  [.dup 0 1 .read, .read 1 1, .check 1 none, .sleep 1, .kill 0, .write 0 513 fun _ => 7,
    .check 0 (some (-1))]

/-- The reader sleeps on, before a full pipe. -/
theorem killedWriter_not_noneLost
    : ∃ s,
        run pipeStep killedWriter (.pipealloc (fun _ => 0) 0) = some s
        ∧ s.lock = none
        ∧ s.phase 1 = .asleep (.read 1)
        ∧ s.ring.isFull = true
        ∧ ¬ s.NoneLost := by
  obtain ⟨s, reached, unlocked, asleep, full, some⟩ :
      ∃ s ∈ run pipeStep killedWriter (.pipealloc (fun _ => 0) 0),
        s.lock = none ∧ s.phase 1 = .asleep (.read 1) ∧ s.ring.isFull = true
        ∧ s.ring.isEmpty = false := by
    decide +kernel
  refine ⟨s, reached, unlocked, asleep, full, fun noneLost => ?_⟩
  have empty := (noneLost unlocked 1 (.read 1) asleep).1
  rw [some] at empty
  cases empty

end Xv6.Pipe
