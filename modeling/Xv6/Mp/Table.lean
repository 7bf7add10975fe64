import Xv6.Lib.Bytes

/-! The configuration table that `mp.c` finds the processors in. -/

namespace Xv6.Mp

open Lib (Bytes)

/-- `NCPU`, the number of entries of `cpus`. -/
def maxCpus : Nat := 8

/-- The types of entries in the table. -/
inductive Kind where
  | proc
  | bus
  | ioapic
  | iointr
  | lintr
  deriving DecidableEq

def Kind.ofByte (type : UInt8) : Option Kind :=
  if type = 0 then some .proc
  else if type = 1 then some .bus
  else if type = 2 then some .ioapic
  else if type = 3 then some .iointr
  else if type = 4 then some .lintr
  else none

/-- The field `length` of the header. -/
def length (conf : Bytes) : Nat := (conf 4).toNat + 256 * (conf 5).toNat

def sum (addr : Bytes) (len : Nat) : UInt8 := (addr.peek 0 len).foldl (· + ·) 0

/-- The checks of `mpconfig` on the table that the MP structure points to. -/
def mpconfig (conf : Bytes) : Bool :=
  conf.peek 0 4 = [80, 67, 77, 80] ∧ (conf 6 = 1 ∨ conf 6 = 4) ∧ sum conf (length conf) = 0

/-- The variables of `mpinit`: `p` counts from the start of the table, and `cpus` has the APIC ids
of the first `ncpu` entries.
-/
structure Scan where
  p : Nat
  ismp : Bool
  cpus : List UInt8
  ioapicid : UInt8
  lapic : UInt32

/-- The header has 44 bytes. -/
def Scan.start (conf : Bytes) : Scan :=
  { p := 44, ismp := true, cpus := [], ioapicid := 0, lapic := conf.word 36 }

/-- The body of the loop of `mpinit`. -/
def pass (conf : Bytes) (s : Scan) : Scan :=
  match Kind.ofByte (conf s.p) with
  | some .proc =>
      { s with
        cpus := if s.cpus.length < maxCpus then s.cpus ++ [conf (s.p + 1)] else s.cpus
        p := s.p + 20 }
  | some .ioapic => { s with ioapicid := conf (s.p + 1), p := s.p + 8 }
  | some .bus | some .iointr | some .lintr => { s with p := s.p + 8 }
  -- The `break` leaves the `switch`, not the loop.
  | none => { s with ismp := false }

/-- The loop, if it ends within so many tests of its condition. -/
def loop (conf : Bytes) : Nat → Scan → Option Scan
  | 0, _ => none
  | fuel + 1, s => if s.p < length conf then loop conf fuel (pass conf s) else some s

/-- `imcr` is set if external interrupts are masked in the IMCR. -/
inductive Outcome where
  | panic (message : String)
  | ready (s : Scan) (imcr : Bool)

def mpinit (conf : Bytes) (imcrp : UInt8) (fuel : Nat) : Option Outcome :=
  if mpconfig conf then
    (loop conf fuel (.start conf)).map fun s =>
      if s.ismp then .ready s (imcrp ≠ 0) else .panic "Didn't find a suitable machine"
  else some (.panic "Expect to run on an SMP")

/-! What the table says. -/

def Kind.size : Kind → Nat
  | .proc => 20
  | .bus | .ioapic | .iointr | .lintr => 8

theorem Kind.size_pos (kind : Kind) : 0 < kind.size := by
  cases kind <;> decide

/-- Where the entries from `p` on begin, up to the first of unknown type. -/
def entries (conf : Bytes) (p : Nat) : List Nat :=
  if p < length conf then
    p :: match Kind.ofByte (conf p) with
      | some kind => entries conf (p + kind.size)
      | none => []
  else []
termination_by length conf - p
decreasing_by have := kind.size_pos; omega

/-- The APIC ids of the processors among the entries. -/
def processors (conf : Bytes) (offsets : List Nat) : List UInt8 :=
  (offsets.filter fun p => Kind.ofByte (conf p) = some .proc).map fun p => conf (p + 1)

/-- `mpinit` ends with the processors of a table without unknown entries, as far as there is room
for them, and else with a panic.
-/
def Right (conf : Bytes) : Outcome → Prop
  | .panic message =>
      message = "Didn't find a suitable machine" ∧ ∃ p ∈ entries conf 44, Kind.ofByte (conf p) = none
  | .ready s _ =>
      length conf ≤ s.p ∧ s.cpus = (processors conf (entries conf 44)).take maxCpus
        ∧ ∀ p ∈ entries conf 44, Kind.ofByte (conf p) ≠ none

section Loop

variable {conf : Bytes} {s : Scan} {kind : Kind} {p : Nat}

theorem entries_cons (inside : p < length conf) (known : Kind.ofByte (conf p) = some kind)
    : entries conf p = p :: entries conf (p + kind.size) := by
  rw [entries, if_pos inside, known]

theorem pass_known (known : Kind.ofByte (conf s.p) = some kind) (room : s.cpus.length ≤ maxCpus)
    : (pass conf s).p = s.p + kind.size ∧ (pass conf s).ismp = s.ismp
      ∧ (pass conf s).cpus = (s.cpus ++ processors conf [s.p]).take maxCpus := by
  cases kind with
  | proc =>
    simp only [pass, processors, known, Kind.size, List.filter_cons, decide_true, if_true,
      List.filter_nil, List.map_cons, List.map_nil, true_and]
    split
    · rw [List.take_of_length_le (by simp; omega)]
    · rw [List.take_left' (by omega)]
  | bus | ioapic | iointr | lintr => simp [pass, processors, known, Kind.size, List.take_of_length_le room]

theorem take_append_take (first rest : List UInt8) (n : Nat)
    : (first.take n ++ rest).take n = (first ++ rest).take n := by
  rcases Nat.le_total first.length n with short | long
  · rw [List.take_of_length_le short]
  · rw [List.take_append_of_le_length (by simp [long]), List.take_append_of_le_length long,
      List.take_take, Nat.min_self]

/-- Every pass of the loop deals with one entry. The induction is on what is left of the table. -/
theorem loop_known (known : ∀ q ∈ entries conf s.p, Kind.ofByte (conf q) ≠ none)
    (room : s.cpus.length ≤ maxCpus)
    : ∃ fuel t, loop conf fuel s = some t ∧ length conf ≤ t.p ∧ t.ismp = s.ismp
        ∧ t.cpus = (s.cpus ++ processors conf (entries conf s.p)).take maxCpus := by
  induction left : length conf - s.p using Nat.strongRecOn generalizing s with
  | _ left ih =>
  by_cases inside : s.p < length conf
  · cases kindOf : Kind.ofByte (conf s.p) with
    | none =>
      rw [entries, if_pos inside] at known
      exact absurd kindOf (known s.p (List.mem_cons_self ..))
    | some kind =>
      have all := entries_cons inside kindOf
      obtain ⟨moved, ismp, cpus⟩ := pass_known kindOf room
      rw [all] at known
      have size := kind.size_pos
      obtain ⟨fuel, t, ends, beyond, same, found⟩ := ih _ (by omega) (s := pass conf s)
        (moved ▸ fun q mem => known q (List.mem_cons_of_mem _ mem))
        (cpus ▸ List.length_take_le ..) rfl
      refine ⟨fuel + 1, t, by rw [loop, if_pos inside, ends], beyond, same.trans ismp, ?_⟩
      rw [found, cpus, moved, take_append_take, all, List.append_assoc]
      simp only [processors, ← List.map_append, ← List.filter_append, List.singleton_append]
  · refine ⟨1, s, by rw [loop, if_neg inside], Nat.le_of_not_lt inside, rfl, ?_⟩
    rw [entries, if_neg inside, List.take_of_length_le (by simpa [processors] using room)]
    simp [processors]

/-- At an unknown entry the loop stays where it is. -/
theorem loop_unknown (fuel : Nat) {q : Nat} (mem : q ∈ entries conf s.p)
    (unknown : Kind.ofByte (conf q) = none)
    : loop conf fuel s = none := by
  induction fuel generalizing s with
  | zero => rfl
  | succ fuel ih =>
    have inside : s.p < length conf := by
      by_contra outside
      rw [entries, if_neg outside] at mem
      cases mem
    rw [loop, if_pos inside]
    cases kindOf : Kind.ofByte (conf s.p) with
    | none => exact ih (by rwa [pass, kindOf])
    | some kind =>
      rw [entries_cons inside kindOf] at mem
      rcases List.mem_cons.mp mem with rfl | later
      · rw [kindOf] at unknown
        cases unknown
      · have moved : (pass conf s).p = s.p + kind.size := by
          cases kind <;> simp [pass, kindOf, Kind.size]
        exact ih (moved ▸ later)

/-- The scan of a table that `mpconfig` accepts ends as it should just if no entry has an unknown
type.
-/
theorem mpinit_ends_iff (accepted : mpconfig conf = true) (imcrp : UInt8)
    : (∃ fuel outcome, mpinit conf imcrp fuel = some outcome ∧ Right conf outcome)
      ↔ ∀ p ∈ entries conf 44, Kind.ofByte (conf p) ≠ none := by
  constructor
  · rintro ⟨fuel, outcome, ends, -⟩ p mem unknown
    rw [mpinit, if_pos accepted, loop_unknown (s := .start conf) fuel mem unknown] at ends
    cases ends
  · intro known
    obtain ⟨fuel, t, ends, beyond, ismp, cpus⟩ := loop_known (s := .start conf) known (Nat.zero_le _)
    refine ⟨fuel, .ready t (imcrp ≠ 0), ?_, beyond, cpus, known⟩
    rw [mpinit, if_pos accepted, ends]
    simp [ismp, Scan.start]

end Loop

/-- A table with one entry of 8 bytes. -/
def oneEntry (type checksum : UInt8) : Bytes := fun i =>
  ([80, 67, 77, 80, 52, 0, 1, checksum] ++ List.replicate 36 0 ++ [type]).getD i 0

theorem oneEntry_interrupt
    : ∃ fuel outcome, mpinit (oneEntry 3 152) 0 fuel = some outcome ∧ Right (oneEntry 3 152) outcome :=
  (mpinit_ends_iff (by decide) 0).mpr (by decide +kernel)

/-- The loop does not end at an entry of type 5. -/
theorem oneEntry_unknown
    : mpconfig (oneEntry 5 150) = true ∧ ∀ fuel, mpinit (oneEntry 5 150) 0 fuel = none := by
  refine ⟨by decide, fun fuel => ?_⟩
  have first : 44 ∈ entries (oneEntry 5 150) 44 := by
    rw [entries, if_pos (by decide)]
    exact List.mem_cons_self ..
  have stuck := @loop_unknown (oneEntry 5 150) (.start (oneEntry 5 150)) fuel 44 first (by decide)
  rw [mpinit, if_pos (by decide), stuck]
  rfl

end Xv6.Mp
