import Xv6.Sem.Conservation

/-! The value of an active semaphore as a signed 32-bit number.
None of the calls looks at its count or initial value, so the value stays non-negative exactly
as long as the callers see to it themselves.
-/

namespace Xv6.Sem

open Xv6.Lib

variable {ι : Type}
variable {s t : SemState ι}

/-- Every active semaphore has a value that is not negative. -/
def SemState.Nonneg (s : SemState ι) : Prop :=
  ∀ i, (s.sema i).active = true → 0 ≤ (s.sema i).value.toInt

/-- The value that a call gives to an active semaphore is not negative and does not
overflow.
-/
def KeepsNonneg (s : SemState ι) : SemStep ι → Prop
  | .call _ (.init value) sem _ =>
      ∀ i, index sem = some i → (s.sema i).active = false → 0 ≤ value.toInt
  | .call _ (.signal count) sem _ =>
      ∀ i, index sem = some i → (s.sema i).active = true
        → 0 ≤ (s.sema i).value.toInt + count.toInt
          ∧ (s.sema i).value.toInt + count.toInt < 2 ^ 31
  | _ => True

/-- The call returned `-1`. -/
def SemStep.Rejected : SemStep ι → Prop
  | .call _ _ _ ret | .resume _ _ _ ret => ret = some (-1)
  | .kill _ => False

/-- A sum of a value that is not negative and a count is negative exactly when it leaves the
range.
-/
theorem toInt_add_nonneg_iff {value count : Int32} (nonneg : 0 ≤ value.toInt)
    : 0 ≤ (value + count).toInt
      ↔ 0 ≤ value.toInt + count.toInt ∧ value.toInt + count.toInt < 2 ^ 31 := by
  have valueHigh := Int32.toInt_lt value
  have countLow := Int32.le_toInt count
  have countHigh := Int32.toInt_lt count
  rw [Int32.toInt_add]
  by_cases fits : value.toInt + count.toInt < 2 ^ 31
  · rw [Int.bmod_eq_of_le (by omega) (by omega)]
    omega
  · -- the sum wraps around once
    have wrapped : Int.bmod (value.toInt + count.toInt) (2 ^ 32)
        = value.toInt + count.toInt - 2 ^ 32 := by
      rw [← Int.sub_bmod_right, Int.bmod_eq_of_le (by omega) (by omega)]
      rfl
    omega

/-- Replacing one semaphore keeps the values exactly when the new one has such a value. -/
theorem SemState.Nonneg.update_iff {i : Fin 32} {next : Semaphore} (nonneg : s.Nonneg)
    (sema : t.sema = Function.update s.sema i next)
    : t.Nonneg ↔ (next.active = true → 0 ≤ next.value.toInt) := by
  unfold SemState.Nonneg
  rw [sema]
  constructor
  · intro all
    simpa using all i
  · intro one j
    by_cases same : j = i
    · subst same
      simpa using one
    · simpa [same] using nonneg j

variable [DecidableEq ι]

/-- A step from values that are not negative leads to such values exactly when it keeps them.
-/
theorem semStep_nonneg_iff {label : SemStep ι} (nonneg : s.Nonneg)
    (stepped : semStep s label = some t)
    : t.Nonneg ↔ KeepsNonneg s label := by
  cases semStep_moves stepped with
  | @refused _ op _ failed =>
    refine iff_of_true nonneg ?_
    cases op with
    | init value =>
      intro i named free
      simp [(failed i named).mpr ⟨value, rfl⟩] at free
    | signal count =>
      intro i named active
      obtain ⟨_, impossible⟩ := (failed i named).mp active
      cases impossible
    | destroy | wait => trivial
  | inited named free =>
    rw [nonneg.update_iff rfl]
    simp [KeepsNonneg, named, free]
  | destroyed named =>
    exact iff_of_true ((nonneg.update_iff rfl).mpr fun impossible => nomatch impossible) trivial
  | signalled named active =>
    rw [nonneg.update_iff rfl]
    simpa [KeepsNonneg, named, active] using toInt_add_nonneg_iff (nonneg _ active)
  | slept asks | passed asks => cases asks <;> exact iff_of_true nonneg trivial
  | gone | roused | awake => exact iff_of_true nonneg trivial

/-- In every run the values of the active semaphores stay non-negative, and the calls that
would break this are rejected without effect, exactly when no such call is made.
-/
theorem nonneg_iff_keepsNonneg {labels : List (SemStep ι)} {final : SemState ι}
    (reached : run semStep labels (.boot ι) = some final)
    : ((∀ before s, before <+: labels → run semStep before (.boot ι) = some s → s.Nonneg)
        ∧ ∀ before label s t,
            before ++ [label] <+: labels
            → run semStep before (.boot ι) = some s
            → semStep s label = some t
            → ¬KeepsNonneg s label
            → label.Rejected ∧ t.sema = s.sema)
      ↔ Along semStep KeepsNonneg labels (.boot ι) := by
  have initial : (SemState.boot ι).Nonneg := by
    intro i active
    cases active
  have throughout := throughout_iff_along (motive := fun _ s => s.Nonneg) initial
    (fun _ _ _ _ _ _ _ stepped nonneg => semStep_nonneg_iff nonneg stepped) reached
  refine Iff.trans ⟨And.left, fun nonneg => ⟨nonneg, ?_⟩⟩ throughout
  -- a call that breaks the bound is never rejected: it leads to a negative value
  intro before label s t shorter ran stepped breaks
  have now : run semStep (before ++ [label]) (.boot ι) = some t :=
    run_concat.mpr ⟨s, ran, stepped⟩
  have good := nonneg before s ((List.prefix_append _ _).trans shorter) ran
  exact absurd ((semStep_nonneg_iff good stepped).mp (nonneg _ t shorter now)) breaks

/-- A semaphore is initialised to 1, signalled and drained again. -/
def drained : List (SemStep (Fin 2)) :=
  [.call 0 (.init 1) 0 (some 0), .call 1 (.signal 4) 0 (some 0),
    .call 0 (.signal (-5)) 0 (some 0)]

theorem drained_nonneg
    : ∃ final,
        run semStep drained (.boot (Fin 2)) = some final
        ∧ ∀ before s,
            before <+: drained → run semStep before (.boot (Fin 2)) = some s → s.Nonneg := by
  obtain ⟨final, reached⟩ : ∃ s, run semStep drained (.boot (Fin 2)) = some s := by decide
  refine ⟨final, reached, ((nonneg_iff_keepsNonneg reached).mpr ?_).1⟩
  -- each label meets its guard in the state before it
  refine ⟨fun _ _ _ => by decide, fun _ first => ?_⟩
  cases first
  refine ⟨fun i named active => ?_, fun _ second => ?_⟩
  · cases named
    decide
  · cases second
    refine ⟨fun i named active => ?_, fun _ _ => trivial⟩
    cases named
    decide

/-- `sem_init(0, -1)` is accepted. -/
theorem negativeInit_not_nonneg
    : ∃ s,
        run semStep [.call 0 (.init (-1)) 0 (some 0)] (.boot (Fin 1)) = some s
        ∧ (s.sema 0).active = true
        ∧ (s.sema 0).value.toInt = -1 :=
  ⟨_, rfl, rfl, rfl⟩

end Xv6.Sem
