import Mathlib

/-! Resources that several users share and that have to be freed once, with the last user.
A user holds at most one resource; resources are numbered in the order of their creation.
-/

namespace Xv6.Lib

open Function (update update_self update_of_ne forall_update_iff)

/-- Who uses which resource, how many were created, how often each was freed. -/
@[ext]
structure Sharing (ι : Type) where
  user : ι → Option Nat
  created : Nat
  freed : Nat → Nat

namespace Sharing

variable {ι : Type}
variable {s : Sharing ι}

def InUse (s : Sharing ι) (d : Nat) : Prop := ∃ p, s.user p = some d

/-- A resource in use is not freed, any other one is freed exactly once. -/
def Exact (s : Sharing ι) : Prop :=
  ∀ d, d < s.created → (s.InUse d → s.freed d = 0) ∧ (¬s.InUse d → s.freed d = 1)

/-- Only created resources are used or freed. -/
structure Bounded (s : Sharing ι) : Prop where
  user : ∀ p d, s.user p = some d → d < s.created
  freed : ∀ d, s.created ≤ d → s.freed d = 0

/-- Free resource `d`. -/
def free (s : Sharing ι) (d : Nat) : Sharing ι :=
  { s with freed := update s.freed d (s.freed d + 1) }

/-- Create a resource and free it again before anyone uses it. -/
def waste (s : Sharing ι) : Sharing ι := { s.free s.created with created := s.created + 1 }

theorem Bounded.free (bounded : s.Bounded) {d : Nat} (old : d < s.created)
    : (s.free d).Bounded where
  user := bounded.user
  freed := fun e new => by
    have created : s.created ≤ e := new
    simp only [Sharing.free]
    rw [update_of_ne (by omega)]
    exact bounded.freed e created

theorem Bounded.waste (bounded : s.Bounded) : s.waste.Bounded where
  user := fun p d uses => Nat.lt_succ_of_lt (bounded.user p d uses)
  freed := fun e new => by
    have created : s.created + 1 ≤ e := new
    simp only [Sharing.waste, Sharing.free]
    rw [update_of_ne (by omega)]
    exact bounded.freed e (by omega)

theorem Exact.waste (exact : s.Exact) (bounded : s.Bounded)
    : s.waste.Exact := by
  intro d created
  simp only [Sharing.waste, Sharing.free] at created ⊢
  by_cases last : d = s.created
  · subst last
    rw [update_self, bounded.freed _ (Nat.le_refl _)]
    refine ⟨?_, fun _ => rfl⟩
    rintro ⟨p, uses⟩
    exact absurd (bounded.user p _ uses) (Nat.lt_irrefl _)
  · rw [update_of_ne last]
    exact exact d (by omega)

variable [DecidableEq ι]
variable {q p : ι} {d : Nat}

/-- `p` gets a new resource. -/
def fresh (s : Sharing ι) (p : ι) : Sharing ι :=
  { s with user := update s.user p (some s.created), created := s.created + 1 }

/-- `q` joins the users of `p`'s resource. -/
def share (s : Sharing ι) (p q : ι) : Sharing ι :=
  { s with user := update s.user q (s.user p) }

def drop (s : Sharing ι) (q : ι) : Sharing ι :=
  { s with user := update s.user q none }

theorem Bounded.fresh (bounded : s.Bounded) (p : ι)
    : (s.fresh p).Bounded where
  user := fun q d uses => by
    simp only [Sharing.fresh] at uses ⊢
    by_cases same : q = p
    · subst same
      rw [update_self] at uses
      cases uses
      exact Nat.lt_succ_self _
    · rw [update_of_ne same] at uses
      exact Nat.lt_succ_of_lt (bounded.user q d uses)
  freed := fun d new => bounded.freed d (Nat.le_of_succ_le new)

theorem Bounded.share (bounded : s.Bounded) (p q : ι)
    : (s.share p q).Bounded where
  user := (forall_update_iff s.user
    fun _ (used : Option Nat) => ∀ d, used = some d → d < s.created).mpr
      ⟨bounded.user p, fun r _ => bounded.user r⟩
  freed := bounded.freed

theorem Bounded.drop (bounded : s.Bounded) (q : ι) : (s.drop q).Bounded where
  user := (forall_update_iff s.user
    fun _ (used : Option Nat) => ∀ d, used = some d → d < s.created).mpr
      ⟨fun _ impossible => (nomatch impossible), fun r _ => bounded.user r⟩
  freed := bounded.freed

theorem inUse_drop
    : (s.drop q).InUse d ↔ ∃ r, r ≠ q ∧ s.user r = some d := by
  refine exists_congr fun r => ?_
  by_cases same : r = q
  · subst same
    simp [drop]
  · simp [drop, same]

/-- The user of one resource does not count for another. -/
theorem inUse_drop_of_ne {e : Nat} (uses : s.user q = some d) (other : e ≠ d)
    : (s.drop q).InUse e ↔ s.InUse e := by
  rw [inUse_drop]
  constructor
  · rintro ⟨r, _, inUse⟩
    exact ⟨r, inUse⟩
  · rintro ⟨r, inUse⟩
    refine ⟨r, ?_, inUse⟩
    rintro rfl
    exact other (Option.some.inj (inUse.symm.trans uses))

/-- A new user of a new resource changes nothing for the old ones. -/
theorem exact_fresh_iff (bounded : s.Bounded) (none : s.user p = none)
    : (s.fresh p).Exact ↔ s.Exact := by
  have unchanged (d : Nat) (old : d < s.created) : (s.fresh p).InUse d ↔ s.InUse d := by
    refine exists_congr fun q => ?_
    by_cases same : q = p
    · subst same
      simp only [fresh, update_self, none, Option.some.injEq]
      exact ⟨fun new => absurd new (by omega), fun impossible => (nomatch impossible)⟩
    · simp [fresh, same]
  constructor
  · intro exact d old
    rw [← unchanged d old]
    exact exact d (Nat.lt_succ_of_lt old)
  · intro exact d created
    rcases Nat.lt_succ_iff_lt_or_eq.mp created with old | rfl
    · rw [unchanged d old]
      exact exact d old
    · refine ⟨fun _ => bounded.freed _ (Nat.le_refl _), fun unused => absurd ⟨p, ?_⟩ unused⟩
      simp [fresh]

/-- Sharing adds a user to a resource that has one. -/
theorem Exact.share (exact : s.Exact) (none : s.user q = none)
    : (s.share p q).Exact := by
  intro d created
  have same : (s.share p q).InUse d ↔ s.InUse d := by
    constructor
    · rintro ⟨r, uses⟩
      by_cases new : r = q
      · subst new
        exact ⟨p, by simpa [Sharing.share] using uses⟩
      · exact ⟨r, by simpa [Sharing.share, new] using uses⟩
    · rintro ⟨r, uses⟩
      have other : r ≠ q := by
        rintro rfl
        rw [none] at uses
        cases uses
      exact ⟨r, by simpa [Sharing.share, other] using uses⟩
  rw [same]
  exact exact d created

/-- Leaving a resource without freeing it is right exactly when somebody else uses it. -/
theorem exact_drop_iff (exact : s.Exact) (bounded : s.Bounded) (uses : s.user q = some d)
    : (s.drop q).Exact ↔ ∃ r, r ≠ q ∧ s.user r = some d := by
  have created := bounded.user q d uses
  have kept : s.freed d = 0 := (exact d created).1 ⟨q, uses⟩
  constructor
  · intro after
    by_contra last
    have freed : s.freed d = 1 := (after d created).2 (fun inUse => last (inUse_drop.mp inUse))
    omega
  · intro shared e old
    by_cases same : e = d
    · subst same
      exact ⟨fun _ => kept, fun unused => absurd (inUse_drop.mpr shared) unused⟩
    · rw [inUse_drop_of_ne uses same]
      exact exact e old

/-- Leaving a resource and freeing it is right exactly when nobody else uses it. -/
theorem exact_release_iff (exact : s.Exact) (bounded : s.Bounded) (uses : s.user q = some d)
    : ((s.drop q).free d).Exact ↔ ∀ r, r ≠ q → s.user r ≠ some d := by
  have created := bounded.user q d uses
  have kept : s.freed d = 0 := (exact d created).1 ⟨q, uses⟩
  constructor
  · intro after r other inUse
    have freed := (after d created).1 (inUse_drop.mpr ⟨r, other, inUse⟩)
    simp [free] at freed
  · intro sole e old
    have unchanged : ((s.drop q).free d).InUse e ↔ (s.drop q).InUse e := Iff.rfl
    rw [unchanged]
    by_cases same : e = d
    · subst same
      rw [inUse_drop]
      refine ⟨fun ⟨r, other, inUse⟩ => absurd inUse (sole r other), fun _ => ?_⟩
      simp [free, drop, kept]
    · rw [inUse_drop_of_ne uses same]
      simp only [free, drop, update_of_ne same]
      exact exact e old

end Sharing

end Xv6.Lib
