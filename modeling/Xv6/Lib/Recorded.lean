import Xv6.Lib.Exec

/-! Computations that record events.
A recorded computation also returns the events that happened in it, in their order. `Records`
describes one execution, and `Erases` relates the computation to the plain one that it becomes
when the events are left out.
-/

namespace Xv6.Lib

/-- A computation with the events that it records. -/
def Recorded (ε σ β α : Type) : Type :=
  Exec ε σ (α × List β)

variable {ε σ α β γ : Type}

namespace Recorded

/-- A computation without events. -/
def lift (m : Exec ε σ α) : Recorded ε σ β α :=
  (do
    let a ← m
    pure (a, []) : Exec ε σ (α × List β))

def note (event : β) : Recorded ε σ β Unit :=
  (pure ((), [event]) : Exec ε σ (Unit × List β))

instance : Monad (Recorded ε σ β) where
  pure a := (pure (a, []) : Exec ε σ _)
  bind m f :=
    (do
      let first ← (m : Exec ε σ _)
      let second ← (f first.1 : Exec ε σ _)
      pure (second.1, first.2 ++ second.2) : Exec ε σ _)

/-- All events of a computation as one. -/
def collect (m : Recorded ε σ β α) : Recorded ε σ (List β) α :=
  (do
    let first ← (m : Exec ε σ _)
    pure (first.1, [first.2]) : Exec ε σ _)

end Recorded

/-- From `s` the computation ends normally, with result `a`, these events and state `t`. -/
def Records (m : Recorded ε σ β α) (s : σ) (a : α) (events : List β) (t : σ) : Prop :=
  Returns (m : Exec ε σ (α × List β)) s (a, events) t

/-- Without its events `m` is `plain`. -/
structure Erases (m : Recorded ε σ β α) (plain : Exec ε σ α) : Prop where
  returns_iff : ∀ {s a t}, Returns plain s a t ↔ ∃ events, Records m s a events t

section Rules

variable {s t : σ} {a b : α} {events : List β}

theorem records_pure
    : Records (pure a : Recorded ε σ β α) s b events t ↔ a = b ∧ events = [] ∧ s = t := by
  refine returns_pure.trans ?_
  rw [Prod.mk.injEq, and_assoc, @eq_comm _ []]

theorem records_lift {m : Exec ε σ α}
    : Records (Recorded.lift m) s a events t ↔ Returns m s a t ∧ events = [] := by
  refine returns_bind.trans ?_
  simp only [returns_pure, Prod.mk.injEq]
  constructor
  · rintro ⟨_, _, ran, ⟨rfl, rfl⟩, rfl⟩
    exact ⟨ran, rfl⟩
  · rintro ⟨ran, rfl⟩
    exact ⟨_, _, ran, ⟨rfl, rfl⟩, rfl⟩

theorem records_note {event : β} {u : Unit}
    : Records (Recorded.note event : Recorded ε σ β Unit) s u events t
      ↔ events = [event] ∧ s = t := by
  refine returns_pure.trans ?_
  simp [eq_comm]

/-- The events of a sequence are those of its parts, in order. -/
theorem records_bind {m : Recorded ε σ β γ} {f : γ → Recorded ε σ β α}
    : Records (m >>= f) s a events t
      ↔ ∃ c first u second, Records m s c first u ∧ Records (f c) u a second t
        ∧ events = first ++ second := by
  constructor
  · intro whole
    obtain ⟨⟨c, first⟩, u, ran, more⟩ := returns_bind.mp whole
    obtain ⟨⟨_, second⟩, _, rest, last⟩ := returns_bind.mp more
    obtain ⟨result, rfl⟩ := returns_pure.mp last
    obtain ⟨rfl, rfl⟩ := Prod.mk.inj result
    exact ⟨c, first, u, second, ran, rest, rfl⟩
  · rintro ⟨c, first, u, second, ran, rest, rfl⟩
    exact returns_bind.mpr ⟨(c, first), u, ran,
      returns_bind.mpr ⟨(a, second), t, rest, returns_pure.mpr ⟨rfl, rfl⟩⟩⟩

/-- A step without events. -/
theorem records_lift_bind {m : Exec ε σ γ} {f : γ → Recorded ε σ β α}
    : Records (Recorded.lift m >>= f) s a events t
      ↔ ∃ c u, Returns m s c u ∧ Records (f c) u a events t := by
  simp only [records_bind, records_lift]
  constructor
  · rintro ⟨c, _, u, second, ⟨ran, rfl⟩, rest, rfl⟩
    exact ⟨c, u, ran, rest⟩
  · rintro ⟨c, u, ran, rest⟩
    exact ⟨c, [], u, events, ⟨ran, rfl⟩, rest, rfl⟩

theorem records_collect {m : Recorded ε σ β α} {groups : List (List β)}
    : Records (Recorded.collect m) s a groups t
      ↔ ∃ events, Records m s a events t ∧ groups = [events] := by
  refine returns_bind.trans ?_
  simp only [returns_pure, Prod.mk.injEq]
  constructor
  · rintro ⟨⟨_, events⟩, _, ran, ⟨rfl, rfl⟩, rfl⟩
    exact ⟨events, ran, rfl⟩
  · rintro ⟨events, ran, rfl⟩
    exact ⟨(a, events), t, ran, ⟨rfl, rfl⟩, rfl⟩

theorem records_ite {c : Prop} [Decidable c] {m n : Recorded ε σ β α}
    : Records (if c then m else n) s a events t
      ↔ (c ∧ Records m s a events t) ∨ (¬c ∧ Records n s a events t) := by
  split <;> simp_all

end Rules

namespace Erases

variable {m n : Recorded ε σ β α} {plain other : Exec ε σ α}

theorem pure (a : α) : Erases (pure a : Recorded ε σ β α) (Pure.pure a) := by
  refine ⟨fun {s b t} => ?_⟩
  simp only [returns_pure, records_pure]
  constructor
  · rintro ⟨rfl, rfl⟩
    exact ⟨[], rfl, rfl, rfl⟩
  · rintro ⟨_, rfl, _, rfl⟩
    exact ⟨rfl, rfl⟩

theorem lift (plain : Exec ε σ α) : Erases (Recorded.lift plain : Recorded ε σ β α) plain := by
  refine ⟨fun {s a t} => ?_⟩
  simp only [records_lift]
  exact ⟨fun ran => ⟨[], ran, rfl⟩, fun ⟨_, ran, _⟩ => ran⟩

theorem bind {first : Recorded ε σ β γ} {f : γ → Recorded ε σ β α} {before : Exec ε σ γ}
    {g : γ → Exec ε σ α} (head : Erases first before) (tail : ∀ c, Erases (f c) (g c))
    : Erases (first >>= f) (before >>= g) := by
  refine ⟨fun {s a t} => ?_⟩
  simp only [returns_bind, records_bind]
  constructor
  · rintro ⟨c, u, ran, rest⟩
    obtain ⟨early, ran⟩ := head.returns_iff.mp ran
    obtain ⟨late, rest⟩ := (tail c).returns_iff.mp rest
    exact ⟨_, c, early, u, late, ran, rest, rfl⟩
  · rintro ⟨_, c, early, u, late, ran, rest, _⟩
    exact ⟨c, u, head.returns_iff.mpr ⟨early, ran⟩, (tail c).returns_iff.mpr ⟨late, rest⟩⟩

theorem note (event : β) (erases : Erases m plain)
    : Erases (do Recorded.note event; m) plain := by
  refine ⟨fun {s a t} => ?_⟩
  rw [erases.returns_iff]
  simp only [records_bind, records_note]
  constructor
  · rintro ⟨events, ran⟩
    exact ⟨_, (), _, s, events, ⟨rfl, rfl⟩, ran, rfl⟩
  · rintro ⟨_, _, _, _, events, ⟨_, rfl⟩, ran, _⟩
    exact ⟨events, ran⟩

theorem ite {c : Prop} [Decidable c] (yes : Erases m plain) (no : Erases n other)
    : Erases (if c then m else n) (if c then plain else other) := by
  split
  · exact yes
  · exact no

theorem collect (erases : Erases m plain) : Erases (Recorded.collect m) plain := by
  refine ⟨fun {s a t} => ?_⟩
  rw [erases.returns_iff]
  simp only [records_collect]
  exact ⟨fun ⟨events, ran⟩ => ⟨_, events, ran, rfl⟩, fun ⟨_, events, ran, _⟩ => ⟨events, ran⟩⟩

end Erases

end Xv6.Lib
