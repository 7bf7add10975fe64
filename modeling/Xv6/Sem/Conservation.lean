import Xv6.Sem.Model

/-! The conservation law of a counting semaphore and what `sem_wait` makes of it. Each step
is one event of an abstract semaphore; a successful `sem_wait` leaves the value as it was,
so the law survives exactly the waits that ask for nothing.
-/

namespace Xv6.Sem

open Xv6.Lib

variable {ι : Type}

/-- What a completed step means for one semaphore. -/
inductive Event (ι : Type) where
  | other
  | inited (value : Int32)
  | destroyed
  | acquired (p : ι) (count : Int32)
  | signalled (p : ι) (count : Int32)

def SemCall.event (p : ι) : SemCall → Event ι
  | .init value => .inited value
  | .destroy => .destroyed
  | .wait count => .acquired p count
  | .signal count => .signalled p count

/-- Only a call that returns 0 is an event of the semaphore it names. -/
def SemStep.event (i : Fin 32) : SemStep ι → Event ι
  | .call p op sem ret => if index sem = some i ∧ ret = some 0 then op.event p else .other
  | .resume p sem count ret => if sem = i ∧ ret = some 0 then .acquired p count else .other
  | .kill _ => .other

/-- The history of an active semaphore since its `sem_init`. -/
structure Ledger (ι : Type) where
  initial : Int
  signalled : Int
  acquired : Int
  inside : ι → Prop

/-- The book of one semaphore after one more event; `inside` is between a successful
`sem_wait(s, 1)` and the next `sem_signal(s, 1)`.
-/
def Event.record (book : Option (Ledger ι)) : Event ι → Option (Ledger ι)
  | .other => book
  | .inited value =>
      some { initial := value.toInt, signalled := 0, acquired := 0, inside := fun _ => False }
  | .destroyed => none
  | .acquired p count =>
      book.map fun ledger =>
        { ledger with
          acquired := ledger.acquired + count.toInt
          inside := fun q => ledger.inside q ∨ q = p ∧ count = 1 }
  | .signalled p count =>
      book.map fun ledger =>
        { ledger with
          signalled := ledger.signalled + count.toInt
          inside := fun q => ledger.inside q ∧ ¬(q = p ∧ count = 1) }

def ledger (i : Fin 32) (labels : List (SemStep ι)) : Option (Ledger ι) :=
  labels.foldl (fun book label => (label.event i).record book) none

theorem ledger_concat (i : Fin 32) (labels : List (SemStep ι)) (label : SemStep ι)
    : ledger i (labels ++ [label]) = (label.event i).record (ledger i labels) := by
  simp [ledger]

/-- The law, and the mutual exclusion it is there for. -/
def Conserved (i : Fin 32) (labels : List (SemStep ι)) (s : SemState ι) : Prop :=
  ∀ book, ledger i labels = some book →
    (s.sema i).value.toInt = book.initial + book.signalled - book.acquired
    ∧ (book.initial = 1 → ∀ p q, book.inside p → book.inside q → p = q)

/-- What the code does to a semaphore at each event. -/
inductive Effect (before : Semaphore) : Event ι → Semaphore → Prop
  | other : Effect before .other before
  | inited {value} (free : before.active = false)
    : Effect before (.inited value) { value, active := true }
  | destroyed (active : before.active = true)
    : Effect before .destroyed { value := 0, active := false }
  | acquired {p count} (active : before.active = true) (enough : count ≤ before.value)
    : Effect before (.acquired p count) before
  | signalled {p count} (active : before.active = true)
    : Effect before (.signalled p count) { before with value := before.value + count }

variable {before after : Semaphore} {count : Int32} {book : Option (Ledger ι)} {s : SemState ι}

/-- The book of an active semaphore: only signals move the value, and nobody is inside
before a unit has been asked for.
-/
structure Balanced (sem : Semaphore) (book : Ledger ι) : Prop where
  active : sem.active = true
  value : sem.value.toInt = book.initial + book.signalled
  acquired : 0 ≤ book.acquired
  outside : book.acquired = 0 → ∀ p, ¬book.inside p

def Booked (sem : Semaphore) : Option (Ledger ι) → Prop
  | none => sem.active = false
  | some book => Balanced sem book

/-- An event of an admissible step. -/
def Event.Fits (sem : Semaphore) : Event ι → Prop
  | .acquired _ count => 0 ≤ count.toInt
  | .signalled _ count => 0 ≤ count.toInt ∧ sem.value.toInt + count.toInt < 2 ^ 31
  | _ => True

theorem toInt_add_of_fits {value : Int32} (nonneg : 0 ≤ count.toInt)
    (fits : value.toInt + count.toInt < 2 ^ 31)
    : (value + count).toInt = value.toInt + count.toInt := by
  have low := Int32.le_toInt value
  rw [Int32.toInt_add, Int.bmod_eq_of_le]
  · omega
  · omega

/-- One event keeps the book. -/
theorem Booked.effect {event : Event ι} (booked : Booked before book) (fits : event.Fits before)
    (effect : Effect before event after)
    : Booked after (event.record book) := by
  cases effect with
  | other => exact booked
  | inited free =>
    exact {
      active := rfl
      value := by simp
      acquired := Int.le_refl 0
      outside := fun _ _ => id
    }
  | destroyed active => rfl
  | @acquired p count active enough =>
    cases book with
    | none => exact booked
    | some book =>
      have nonneg : 0 ≤ count.toInt := fits
      have earlier := booked.acquired
      refine {
        active := active
        value := booked.value
        acquired := by simp only; omega
        outside := ?_
      }
      rintro total q (inside | ⟨_, one⟩)
      · exact booked.outside (by simp only at total; omega) q inside
      · subst one
        have := (by decide : (1 : Int32).toInt = 1)
        simp only at total
        omega
  | @signalled p count active =>
    cases book with
    | none => exact booked
    | some book =>
      refine {
        active := active
        value := ?_
        acquired := booked.acquired
        outside := fun none q inside => booked.outside none q inside.1
      }
      simp only [toInt_add_of_fits fits.1 fits.2, booked.value]
      omega

/-- No unit has been asked for since the semaphore was initialised. -/
def Unasked (book : Option (Ledger ι)) : Prop := ∀ entry, book = some entry → entry.acquired = 0

/-- The law holds of a booked semaphore exactly when nobody has asked for a unit. -/
theorem conserved_iff_unasked {i : Fin 32} {labels : List (SemStep ι)}
    (booked : Booked (s.sema i) (ledger i labels))
    : Conserved i labels s ↔ Unasked (ledger i labels) := by
  constructor
  · intro conserved entry found
    have law := (conserved entry found).1
    rw [found] at booked
    have value := booked.value
    omega
  · intro unasked entry found
    have none := unasked entry found
    rw [found] at booked
    have value := booked.value
    exact ⟨by omega, fun _ p _ inside => absurd inside (booked.outside none p)⟩

theorem unasked_record_iff {event : Event ι} (booked : Booked before book)
    (effect : Effect before event after) (unasked : Unasked book)
    : Unasked (event.record book) ↔ ∀ p count, event = .acquired p count → count = 0 := by
  cases effect with
  | other => simpa [Event.record] using unasked
  | inited | destroyed => simp [Event.record, Unasked]
  | @acquired p count active enough =>
    cases book with
    | none =>
      have free : before.active = false := booked
      simp [free] at active
    | some entry =>
      have none := unasked entry rfl
      have zero : count.toInt = 0 ↔ count = 0 := by
        rw [← Int32.toInt_inj]
        rfl
      simp [Event.record, Unasked, none, zero]
  | signalled active =>
    cases book with
    | none => simp [Event.record, Unasked]
    | some entry => simpa [Event.record, Unasked] using unasked

/-- A semaphore another one's section leaves alone, or one its own section changes. -/
theorem Effect.update {j : Fin 32} {next : Semaphore} {event : Event ι}
    (changes : Effect (s.sema j) event next) (i : Fin 32)
    : Effect (s.sema i) (if j = i then event else .other)
        (Function.update s.sema j next i) := by
  by_cases same : j = i
  · subst same
    simpa using changes
  · rw [if_neg same, Function.update_of_ne (Ne.symm same)]
    exact .other

variable {t : SemState ι} {label : SemStep ι}

theorem Asks.event {p : ι} {j : Fin 32} {ret : Option Int32} (asks : Asks s p j count ret label)
    (i : Fin 32)
    : label.event i = if j = i ∧ ret = some 0 then .acquired p count else .other := by
  cases asks with
  | call named => simp [SemStep.event, named, SemCall.event]
  | resume => rfl

/-- The calls of the law: counts are not negative and no addition overflows. -/
def Admissible (s : SemState ι) : SemStep ι → Prop
  | .call _ (.wait count) _ _ => 0 ≤ count.toInt
  | .call _ (.signal count) sem _ =>
      0 ≤ count.toInt
      ∧ ∀ i, index sem = some i → (s.sema i).value.toInt + count.toInt < 2 ^ 31
  | _ => True

/-- A `sem_wait` on semaphore `i` that finds enough units asks for none. -/
def TakesNothing (i : Fin 32) (s : SemState ι) : SemStep ι → Prop
  | .call _ (.wait count) sem _ =>
      index sem = some i → (s.sema i).active = true → count ≤ (s.sema i).value → count = 0
  | .resume _ j count _ =>
      j = i → (s.sema i).active = true → count ≤ (s.sema i).value → count = 0
  | _ => True

/-- The step is no call of `sem_wait` with a negative count. -/
def SemStep.WaitsNonneg : SemStep ι → Prop
  | .call _ (.wait count) _ _ => 0 ≤ count.toInt
  | _ => True

theorem Admissible.waitsNonneg (admissible : Admissible s label)
    : label.WaitsNonneg := by
  cases label with
  | call p op sem ret =>
    cases op with
    | wait count => exact admissible
    | init | destroy | signal => trivial
  | resume | kill => trivial

/-- A waiting process asks for a count that is not negative. -/
def Position.Counts : Position → Prop
  | .sleeping _ count | .woken _ count => 0 ≤ count.toInt
  | .running => True

theorem Position.Counts.wake {position : Position} (counts : position.Counts) (i : Fin 32)
    : (position.wake i).Counts := by
  cases position with
  | sleeping sem count =>
    simp only [Position.wake]
    split <;> exact counts
  | running => trivial
  | woken sem count => exact counts

theorem Asks.nonneg {p : ι} {i : Fin 32} {ret : Option Int32} (asks : Asks s p i count ret label)
    (counts : ∀ q, (s.caller q).position.Counts) (waits : label.WaitsNonneg)
    : 0 ≤ count.toInt := by
  cases asks with
  | call => exact waits
  | resume woken =>
    have nonneg : (Position.woken i count).Counts := woken ▸ counts p
    exact nonneg

theorem Asks.takesNothing_iff {p : ι} {j : Fin 32} {ret : Option Int32}
    (asks : Asks s p j count ret label) (i : Fin 32)
    : TakesNothing i s label
      ↔ (j = i → (s.sema i).active = true → count ≤ (s.sema i).value → count = 0) := by
  cases asks with
  | call named => simp [TakesNothing, named]
  | resume => rfl

variable [DecidableEq ι]

/-- Every step acts on every semaphore as its event says. -/
theorem semStep_effect (stepped : semStep s label = some t) (i : Fin 32)
    : Effect (s.sema i) (label.event i) (t.sema i) := by
  cases semStep_moves stepped with
  | refused | gone => simpa [SemStep.event] using Effect.other
  | @inited _ _ p value named free =>
    have inited : Effect (ι := ι) _ (.inited value) _ := .inited free
    simpa [SemStep.event, named, SemCall.event] using inited.update i
  | destroyed named active =>
    have destroyed : Effect (ι := ι) _ .destroyed _ := .destroyed active
    simpa [SemStep.event, named, SemCall.event] using destroyed.update i
  | @signalled _ _ p count named active =>
    have signalled : Effect _ (.signalled p count) _ := .signalled active
    simpa [SemStep.event, named, SemCall.event] using signalled.update i
  | slept asks => simpa [asks.event] using Effect.other
  | @passed p _ count _ asks active enough =>
    have acquired : Effect _ (.acquired p count) _ := .acquired active enough
    simpa [asks.event] using acquired.update i
  | roused | awake => exact .other

/-- Such steps keep the counts of all waiting processes. -/
theorem semStep_counts (counts : ∀ q, (s.caller q).position.Counts) (waits : label.WaitsNonneg)
    (stepped : semStep s label = some t) (q : ι)
    : (t.caller q).position.Counts := by
  have moved : ∀ {p next}, next.position.Counts
      → ((s.setCaller p next).caller q).position.Counts := fun self =>
    SemState.forall_setCaller (P := fun caller => caller.position.Counts) self
      (fun q _ => counts q) q
  cases semStep_moves stepped with
  | refused | inited | destroyed | awake => exact counts q
  | signalled => exact (counts q).wake _
  | slept asks => exact moved (asks.nonneg counts waits)
  | passed =>
    refine Position.Counts.wake (moved ?_) _
    trivial
  | gone => exact moved trivial
  | @roused p _ _ asleep =>
    have nonneg := counts p
    rw [asleep] at nonneg
    exact moved nonneg

theorem Admissible.fits (admissible : Admissible s label)
    (counts : ∀ q, (s.caller q).position.Counts) (stepped : semStep s label = some t) (i : Fin 32)
    : (label.event i).Fits (s.sema i) := by
  cases label with
  | call p op sem ret =>
    simp only [SemStep.event]
    split
    · rename_i named
      cases op with
      | wait count => exact admissible
      | signal count => exact ⟨admissible.1, admissible.2 i named.1⟩
      | init | destroy => trivial
    · trivial
  | resume p j count ret =>
    obtain ⟨⟨woken, _⟩, _⟩ := Option.ite_none_right_eq_some.mp stepped
    have nonneg : (Position.woken j count).Counts := woken ▸ counts p
    simp only [SemStep.event]
    split
    · exact nonneg
    · trivial
  | kill p => trivial

/-- The condition on the state before a step speaks of exactly the acquisitions. -/
theorem takesNothing_iff (stepped : semStep s label = some t) (i : Fin 32)
    : TakesNothing i s label ↔ ∀ p count, label.event i = .acquired p count → count = 0 := by
  cases semStep_moves stepped with
  | @refused _ op _ failed =>
    refine iff_of_true ?_ (by simp [SemStep.event])
    cases op with
    | wait count =>
      intro named active
      obtain ⟨_, impossible⟩ := (failed i named).mp active
      cases impossible
    | init | destroy | signal => trivial
  | inited | destroyed | signalled =>
    refine iff_of_true trivial fun q asked event => ?_
    simp only [SemStep.event] at event
    split at event <;> cases event
  | slept asks active short =>
    rw [asks.takesNothing_iff, asks.event]
    refine iff_of_true (fun same _ enough => ?_) (by simp)
    exact absurd (same ▸ short) (Int32.not_lt.mpr enough)
  | passed asks active enough =>
    rw [asks.takesNothing_iff, asks.event]
    refine ⟨fun nothing q asked event => ?_, fun nothing same _ _ => nothing _ _ (if_pos ⟨same, rfl⟩)⟩
    split at event
    · rename_i same
      cases event
      exact nothing same.1 (same.1 ▸ active) (same.1 ▸ enough)
    · cases event
  | gone woken inactive =>
    refine iff_of_true (fun same active => ?_) (by simp [SemStep.event])
    rw [← same, inactive] at active
    cases active
  | roused | awake => exact ⟨fun _ _ _ event => (nomatch event), fun _ => trivial⟩

/-- Admissible runs keep every semaphore's book. -/
theorem booked_of_run {labels : List (SemStep ι)} (reached : run semStep labels (.boot ι) = some s)
    (admissible : Along semStep Admissible labels (.boot ι)) (i : Fin 32)
    : (∀ q, (s.caller q).position.Counts) ∧ Booked (s.sema i) (ledger i labels) := by
  refine along_induction
    (motive := fun labels s =>
      (∀ q, (s.caller q).position.Counts) ∧ Booked (s.sema i) (ledger i labels))
    ?_ ?_ reached admissible
  · exact ⟨fun _ => trivial, (rfl : ((SemState.boot ι).sema i).active = false)⟩
  rintro labels s label t ⟨counts, booked⟩ fits stepped
  refine ⟨semStep_counts counts fits.waitsNonneg stepped, ?_⟩
  rw [ledger_concat]
  exact booked.effect (fits.fits counts stepped i) (semStep_effect stepped i)

/-- In an admissible run the conservation law holds in every state exactly when no
`sem_wait` that finds enough units asks for any.
-/
theorem conserved_iff_takesNothing {labels : List (SemStep ι)} {t : SemState ι}
    (reached : run semStep labels (.boot ι) = some t)
    (admissible : Along semStep Admissible labels (.boot ι)) (i : Fin 32)
    : (∀ before s,
        before <+: labels → run semStep before (.boot ι) = some s → Conserved i before s)
      ↔ Along semStep (TakesNothing i) labels (.boot ι) := by
  refine throughout_iff_along (by intro _ found; cases found) ?_ reached
  rintro before label rest s u rfl ran stepped conserved
  have now : run semStep (before ++ [label]) (.boot ι) = some u :=
    run_concat.mpr ⟨s, ran, stepped⟩
  have booked := (booked_of_run ran (along_left (along_left admissible)) i).2
  have bookedNow := (booked_of_run now (along_left admissible) i).2
  rw [conserved_iff_unasked bookedNow, takesNothing_iff stepped i, ledger_concat]
  exact unasked_record_iff booked (semStep_effect stepped i)
    ((conserved_iff_unasked booked).mp conserved)

/-- One process initialises semaphore 0 to 1 and signals it, another one polls it. -/
def signalAndPoll : List (SemStep (Fin 2)) :=
  [.call 0 (.init 1) 0 (some 0), .call 0 (.signal 2) 0 (some 0), .call 1 (.wait 0) 0 (some 0)]

theorem signalAndPoll_conserved
    : Along semStep Admissible signalAndPoll (.boot (Fin 2))
      ∧ ∀ before s,
          before <+: signalAndPoll
          → run semStep before (.boot (Fin 2)) = some s
          → Conserved 0 before s := by
  obtain ⟨t, reached⟩ : ∃ t, run semStep signalAndPoll (.boot (Fin 2)) = some t := by decide
  have admissible : Along semStep Admissible signalAndPoll (.boot (Fin 2)) := by
    refine ⟨trivial, ?_⟩
    rintro _ ⟨⟩
    refine ⟨⟨by decide, ?_⟩, ?_⟩
    · rintro _ ⟨⟩
      decide
    rintro _ ⟨⟩
    exact ⟨(by decide : 0 ≤ Int32.toInt 0), fun _ _ => trivial⟩
  refine ⟨admissible, (conserved_iff_takesNothing reached admissible 0).mpr ?_⟩
  refine ⟨trivial, ?_⟩
  rintro _ ⟨⟩
  refine ⟨trivial, ?_⟩
  rintro _ ⟨⟩
  exact ⟨fun _ _ _ => rfl, fun _ _ => trivial⟩

/-- Two processes pass `sem_wait(0, 1)` on a semaphore initialised to 1. -/
def twoInside : List (SemStep (Fin 2)) :=
  [.call 0 (.init 1) 0 (some 0), .call 0 (.wait 1) 0 (some 0), .call 1 (.wait 1) 0 (some 0)]

/-- A semaphore initialised to 1 admits both processes and still has the value 1. -/
theorem twoInside_not_conserved
    : ∃ t book,
        run semStep twoInside (.boot (Fin 2)) = some t
        ∧ Along semStep Admissible twoInside (.boot (Fin 2))
        ∧ ledger 0 twoInside = some book
        ∧ (t.sema 0).value.toInt ≠ book.initial + book.signalled - book.acquired
        ∧ book.initial = 1
        ∧ book.inside 0
        ∧ book.inside 1 := by
  refine ⟨_, _, rfl, ?_, rfl, by decide, by decide, ?_, ?_⟩
  · refine ⟨trivial, ?_⟩
    rintro _ ⟨⟩
    have one : 0 ≤ Int32.toInt 1 := by decide
    refine ⟨one, ?_⟩
    rintro _ ⟨⟩
    exact ⟨one, fun _ _ => trivial⟩
  · exact Or.inl (Or.inr ⟨rfl, rfl⟩)
  · exact Or.inr ⟨rfl, rfl⟩

end Xv6.Sem
