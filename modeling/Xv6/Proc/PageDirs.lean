import Xv6.Proc.Table
import Xv6.Lib.Sharing

/-! The lifetime of page directories that `clone` makes several processes share. The table
is read as users of shared resources; `wait`, `wait2` and `exec` free a directory and `join`
does not, whoever else uses it.
-/

namespace Xv6.Proc

open Xv6.Lib
open Function (update update_idem update_eq_self forall_update_iff)

variable {t t' : Table} {p : Fin nproc} {ok : Prop}

/-- The directory a slot uses; an unused slot has none, whatever its stale pointer says. -/
def Slot.uses (slot : Slot) : Option Nat := if slot.state = .unused then none else slot.pgdir

/-- The process table as users of directories. -/
def Table.view (t : Table) : Sharing (Fin nproc) where
  user := fun p => (t.proc p).uses
  created := t.created
  freed := t.freed

/-- Every process has a directory. -/
def Table.Equipped (t : Table) : Prop :=
  ∀ p, (t.proc p).state ≠ .unused → (t.proc p).pgdir ≠ none

theorem Table.uses_of_active (equipped : t.Equipped) (active : (t.proc p).state ≠ .unused)
    : ∃ d, (t.proc p).pgdir = some d ∧ t.view.user p = some d := by
  obtain ⟨d, found⟩ := Option.ne_none_iff_exists'.mp (equipped p active)
  exact ⟨d, found, by simp [view, Slot.uses, active, found]⟩

theorem Slot.uses_unused {slot : Slot} (unused : slot.state = .unused) : slot.uses = none := by
  simp [uses, unused]

/-- The users after a change of one slot. -/
theorem Table.view_update (i : Fin nproc) (slot : Slot)
    (changed : t'.proc = update t.proc i slot)
    : t'.view
      = { user := update t.view.user i slot.uses
          created := t'.created
          freed := t'.freed } := by
  refine Sharing.ext (funext fun p => ?_) rfl rfl
  by_cases same : p = i
  · subst same
    simp [view, changed]
  · simp [view, changed, same]

theorem Table.Equipped.update (equipped : t.Equipped) (i : Fin nproc) (slot : Slot)
    (changed : t'.proc = update t.proc i slot)
    (has : slot.state ≠ .unused → slot.pgdir ≠ none)
    : t'.Equipped := by
  unfold Equipped
  rw [changed]
  exact (forall_update_iff t.proc
    fun _ (slot : Slot) => slot.state ≠ .unused → slot.pgdir ≠ none).mpr
      ⟨has, fun p _ => equipped p⟩

/-- A slot that uses what it used before is no change, apart from what was made or freed. -/
theorem Table.view_keep (i : Fin nproc) (slot : Slot)
    (changed : t'.proc = update t.proc i slot) (uses : slot.uses = t.view.user i)
    : t'.view = { t.view with created := t'.created, freed := t'.freed } := by
  rw [view_update i slot changed, uses, update_eq_self]

theorem Table.view_fresh (i : Fin nproc) (slot : Slot)
    (changed : t'.proc = update t.proc i slot) (uses : slot.uses = some t.created)
    (created : t'.created = t.created + 1) (freed : t'.freed = t.freed)
    : t'.view = t.view.fresh i := by
  rw [view_update i slot changed, uses, created, freed]
  rfl

theorem Table.view_replace (i : Fin nproc) (slot : Slot) (d : Nat)
    (changed : t'.proc = update t.proc i slot) (uses : slot.uses = some t.created)
    (created : t'.created = t.created + 1)
    (freed : t'.freed = update t.freed d (t.freed d + 1))
    : t'.view = ((t.view.drop i).free d).fresh i := by
  rw [view_update i slot changed, uses, created, freed]
  simp [Sharing.fresh, Sharing.free, Sharing.drop, view]

theorem Table.view_share (p i : Fin nproc) (slot : Slot)
    (changed : t'.proc = update t.proc i slot) (uses : slot.uses = t.view.user p)
    (created : t'.created = t.created) (freed : t'.freed = t.freed)
    : t'.view = t.view.share p i := by
  rw [view_update i slot changed, uses, created, freed]
  rfl

theorem Table.view_drop (i : Fin nproc) (slot : Slot)
    (changed : t'.proc = update t.proc i slot) (unused : slot.state = .unused)
    (created : t'.created = t.created)
    : t'.view = { t.view.drop i with freed := t'.freed } := by
  rw [view_update i slot changed, Slot.uses_unused unused, created]
  rfl

theorem Table.sole_iff {q : Fin nproc} {d : Nat} (uses : t.view.user q = some d)
    : t.Sole q ↔ ∀ r, r ≠ q → t.view.user r ≠ some d := by
  have own : (t.proc q).pgdir = some d := by
    simp only [view, Slot.uses] at uses
    exact (Option.ite_none_left_eq_some.mp uses).2
  simp only [Sole, own, view, Slot.uses, ne_eq, Option.ite_none_left_eq_some, not_and]

/-- What a step does to the users of directories, and when it is right to do so. -/
inductive Change (t t' : Table) (ok : Prop) : Prop
  | same (view : t'.view = t.view) (fine : ok)
  | wasted (view : t'.view = t.view.waste) (fine : ok)
  | forked (np) (free : t.view.user np = none) (view : t'.view = t.view.fresh np) (fine : ok)
  | cloned (p np) (free : t.view.user np = none) (view : t'.view = t.view.share p np)
    (fine : ok)
  | execed (p d) (uses : t.view.user p = some d)
    (view : t'.view = ((t.view.drop p).free d).fresh p) (sole : ok ↔ t.Sole p)
  | reaped (q d) (uses : t.view.user q = some d) (view : t'.view = (t.view.drop q).free d)
    (sole : ok ↔ t.Sole q)
  | joined (q d) (uses : t.view.user q = some d) (view : t'.view = t.view.drop q)
    (shared : ok ↔ ¬t.Sole q)

theorem Change.bounded (change : Change t t' ok) (bounded : t.view.Bounded)
    : t'.view.Bounded := by
  cases change with
  | same view => exact view ▸ bounded
  | wasted view => exact view ▸ bounded.waste
  | forked np _ view => exact view ▸ bounded.fresh np
  | cloned p np _ view => exact view ▸ bounded.share p np
  | execed p d uses view =>
    exact view ▸ ((bounded.drop p).free (bounded.user p d uses)).fresh p
  | reaped q d uses view => exact view ▸ (bounded.drop q).free (bounded.user q d uses)
  | joined q d _ view => exact view ▸ bounded.drop q

/-- A change leads from exact accounts to exact accounts just when it is right. -/
theorem Change.exact_iff (change : Change t t' ok) (bounded : t.view.Bounded) (exact : t.view.Exact)
    : t'.view.Exact ↔ ok := by
  cases change with
  | same view fine => exact iff_of_true (view ▸ exact) fine
  | wasted view fine => exact iff_of_true (view ▸ exact.waste bounded) fine
  | forked np free view fine =>
    exact iff_of_true (view ▸ (Sharing.exact_fresh_iff bounded free).mpr exact) fine
  | cloned p np free view fine => exact iff_of_true (view ▸ exact.share free) fine
  | execed p d uses view sole =>
    have dropped : ((t.view.drop p).free d).user p = none := by
      simp [Sharing.free, Sharing.drop]
    rw [view, Sharing.exact_fresh_iff ((bounded.drop p).free (bounded.user p d uses)) dropped,
      Sharing.exact_release_iff exact bounded uses, sole, Table.sole_iff uses]
  | reaped q d uses view sole =>
    rw [view, Sharing.exact_release_iff exact bounded uses, sole, Table.sole_iff uses]
  | joined q d uses view shared =>
    rw [view, Sharing.exact_drop_iff exact bounded uses, shared, Table.sole_iff uses]
    simp

/-- Every step changes the users of directories as `Change` says. -/
theorem step_change {label : Step} (equipped : t.Equipped) (stepped : step t label = some t')
    : Change t t' (Careful t label) ∧ t'.Equipped := by
  cases step_moves stepped with
  | kept slots _ dirs fine =>
    refine ⟨.same (Sharing.ext (funext fun q => ?_) dirs.created dirs.freed) fine,
      fun q active => ?_⟩
    · simp [Table.view, Slot.uses, (slots q).used, (slots q).pgdir]
    · rw [(slots q).pgdir]
      exact equipped q (mt (slots q).used.mpr active)
  | wasted same fine =>
    subst same
    exact ⟨.wasted rfl fine, equipped⟩
  | failed np slot _ allots still dirs fine =>
    have view := Table.view_keep np slot allots.slots
      ((Slot.uses_unused still).trans (Slot.uses_unused allots.unused).symm)
    refine ⟨?_, equipped.update np slot allots.slots (absurd still)⟩
    obtain ⟨created, freed⟩ | ⟨created, freed⟩ := dirs
    · exact .same (by rw [view, created, freed]; rfl) fine
    · exact .wasted (by rw [view, created, freed]; rfl) fine
  | forked np slot _ allots used pgdir created freed fine =>
    refine ⟨.forked np (Slot.uses_unused allots.unused) ?_ fine,
      equipped.update np slot allots.slots (by simp [pgdir])⟩
    exact Table.view_fresh np slot allots.slots (by simp [Slot.uses, used, pgdir]) created freed
  | cloned p np slot _ allots caller used pgdir dirs fine =>
    refine ⟨.cloned p np (Slot.uses_unused allots.unused) ?_ fine,
      equipped.update np slot allots.slots fun _ => pgdir ▸ equipped p caller⟩
    exact Table.view_share p np slot allots.slots
      (by simp [Table.view, Slot.uses, used, caller, pgdir]) dirs.created dirs.freed
  | execed p d caller old same sole =>
    subst same
    refine ⟨.execed p d ?_ ?_ sole, equipped.update p _ rfl (by simp)⟩
    · simp [Table.view, Slot.uses, caller, old]
    · exact Table.view_replace p _ d rfl (by simp [Slot.uses, caller]) rfl rfl
  | reaped q threads zombie slots _ created freed sole =>
    obtain ⟨d, old, uses⟩ := t.uses_of_active equipped (p := q) (by simp [zombie])
    have view := Table.view_drop q _ slots rfl created
    refine ⟨?_, equipped.update q _ slots (absurd rfl)⟩
    cases threads with
    | true =>
      have kept : t'.freed = t.freed := freed
      exact .joined q d uses (by rw [view, kept]; rfl) (by simpa using sole)
    | false =>
      obtain ⟨d', old', freed⟩ := freed
      cases old.symm.trans old'
      exact .reaped q d uses (by rw [view, freed]; rfl) (by simpa using sole)

/-- Some process, a zombie included, uses directory `d`. -/
def Table.Used (t : Table) (d : Nat) : Prop :=
  ∃ p, (t.proc p).state ≠ .unused ∧ (t.proc p).pgdir = some d

/-- The directory of a live process is allocated, and each directory is freed exactly once,
when its last user is gone.
-/
structure Lawful (t : Table) : Prop where
  live : ∀ p, (t.proc p).state.live = true → ∃ d, (t.proc p).pgdir = some d ∧ t.freed d = 0
  once : ∀ d, d < t.created → (t.Used d → t.freed d = 0) ∧ (¬t.Used d → t.freed d = 1)

theorem Table.used_iff (t : Table) (d : Nat) : t.Used d ↔ t.view.InUse d :=
  exists_congr fun p => by simp [view, Slot.uses]

theorem lawful_iff_exact (equipped : t.Equipped) (bounded : t.view.Bounded)
    : Lawful t ↔ t.view.Exact := by
  constructor
  · intro lawful d created
    rw [← t.used_iff]
    exact lawful.once d created
  · intro exact
    refine ⟨fun p live => ?_, fun d created => ?_⟩
    · have active : (t.proc p).state ≠ .unused := by
        intro unused
        rw [unused] at live
        cases live
      obtain ⟨d, pgdir, uses⟩ := t.uses_of_active equipped active
      exact ⟨d, pgdir, (exact d (bounded.user p d uses)).1 ⟨p, uses⟩⟩
    · rw [t.used_iff]
      exact exact d created

theorem Table.equipped_boot : Table.boot.Equipped := by
  intro p active
  by_cases first : p = initproc
  · simp [boot, first]
  · simp [boot, first] at active

theorem Table.bounded_boot : Table.boot.view.Bounded where
  user := fun p d uses => by
    by_cases first : p = initproc
    · simp only [view, boot, first, Slot.uses, if_true] at uses ⊢
      cases uses
      exact Nat.one_pos
    · simp [view, boot, first, Slot.uses] at uses
  freed := fun _ _ => rfl

/-- What every run keeps, careful or not. -/
theorem equipped_of_run {labels : List Step} (reached : run step labels .boot = some t)
    : t.Equipped ∧ t.view.Bounded := by
  refine run_invariant (motive := fun t => t.Equipped ∧ t.view.Bounded) ?_ ?_ reached
  · rintro t label t' ⟨equipped, bounded⟩ stepped
    obtain ⟨change, still⟩ := step_change equipped stepped
    exact ⟨still, change.bounded bounded⟩
  · exact ⟨Table.equipped_boot, Table.bounded_boot⟩

/-- A run keeps the law of directories in all its states exactly when every `wait`, `wait2`
and `exec` in it frees the directory of its only user and every `join` leaves one behind.
-/
theorem lawful_iff_careful {labels : List Step} {t : Table}
    (reached : run step labels .boot = some t)
    : (∀ before s, before <+: labels → run step before .boot = some s → Lawful s)
      ↔ Along step Careful labels .boot := by
  refine throughout_iff_along (motive := fun _ s => Lawful s) ?_ ?_ reached
  · refine (lawful_iff_exact Table.equipped_boot Table.bounded_boot).mpr ?_
    intro d created
    cases Nat.lt_one_iff.mp created
    exact ⟨fun _ => rfl, fun unused => absurd ⟨initproc, rfl⟩ unused⟩
  · intro before label _ s s' _ ran stepped lawful
    obtain ⟨equipped, bounded⟩ := equipped_of_run ran
    obtain ⟨change, still⟩ := step_change equipped stepped
    rw [lawful_iff_exact still (change.bounded bounded)]
    exact change.exact_iff bounded ((lawful_iff_exact equipped bounded).mp lawful)

instance (t : Table) (q : Fin nproc) : Decidable (t.Sole q) :=
  inferInstanceAs (Decidable (∀ r, r ≠ q → (t.proc r).state ≠ .unused →
    (t.proc r).pgdir ≠ (t.proc q).pgdir))

instance (t : Table) (label : Step) : Decidable (Careful t label) := by
  cases label <;> dsimp only [Careful] <;> infer_instance

/-- The first process forks a child, which exits and is waited for. -/
def forkExitWait : List Step :=
  [.reschedule 0 .running, .fork 0 true .copied, .reschedule 1 .running, .exit 1, .wait 0]

theorem forkExitWait_lawful
    : (run step forkExitWait .boot).isSome = true
      ∧ ∀ before s,
          before <+: forkExitWait → run step before .boot = some s → Lawful s := by
  obtain ⟨t, reached⟩ : ∃ t, run step forkExitWait .boot = some t := by decide +kernel
  exact ⟨by rw [reached]; rfl, (lawful_iff_careful reached).mpr (by decide +kernel)⟩

/-- A child starts a thread, the thread exits, and the child waits for it. -/
def cloneExitWait : List Step :=
  [.reschedule 0 .running, .fork 0 true .copied, .reschedule 1 .running, .clone 1 true,
    .reschedule 2 .running, .exit 2, .wait 1]

/-- `wait` frees the directory of an exited thread while its creator still runs on it. -/
theorem cloneExitWait_not_lawful
    : ∃ t, run step cloneExitWait .boot = some t ∧ ¬Lawful t := by
  obtain ⟨t, reached, running, pgdir, freed⟩ : ∃ t, run step cloneExitWait .boot = some t
      ∧ (t.proc 1).state = .running ∧ (t.proc 1).pgdir = some 1 ∧ t.freed 1 = 1 := by
    decide +kernel
  refine ⟨t, reached, fun lawful => ?_⟩
  obtain ⟨d, uses, kept⟩ := lawful.live 1 (by rw [running]; rfl)
  rw [pgdir] at uses
  cases uses
  rw [freed] at kept
  cases kept

end Xv6.Proc
