import Xv6.Sched.Model

/-! The scheduling policies of `proc.c` and `sdh.h`, and the call that selects one. -/

namespace Xv6.Sched

open Xv6.Proc (ProcState)

variable {rnd sid : Int32}

/-- The functions that `ready_process` may point to; `stray` is a pointer that was read from
behind the table.
-/
inductive Policy where
  | defaultScheduler
  | priorityScheduler
  | fcfsScheduler
  | rrScheduler
  | smlScheduler
  | stray
  deriving DecidableEq

def schedulerName : List String := ["DEFAULT", "PRIORITY", "FCFS", "CFS", "SML"]

def schedulerFunction : List Policy :=
  [.defaultScheduler, .priorityScheduler, .fcfsScheduler, .rrScheduler, .smlScheduler]

/-- `schedulerFunction[sid]`, for a `sid` that is not negative. -/
def entry (sid : Int32) : Policy := (schedulerFunction[sid.toInt.toNat]?).getD .stray

structure Settings where
  readyProcess : Policy
  schedSelected : Int32
  deriving DecidableEq

/-- The settings of a kernel that is compiled with the policy `DEFAULT`. -/
def Settings.initial : Settings := ⟨.defaultScheduler, 0⟩

def setscheduler (settings : Settings) (sid : Int32) : Settings × Int32 :=
  let max := Int32.ofNat schedulerName.length
  if sid < 0 ∨ sid > max then (settings, -1) else (⟨entry sid, sid⟩, sid)

/-- A process pointer that a policy returns: null, a slot, or a value that nothing determines. -/
inductive Choice where
  | null
  | slot (p : Slot)
  | stray
  deriving DecidableEq

/-- The state of `random`. -/
structure Lfsr where
  z1 : Int32
  z2 : Int32
  z3 : Int32
  z4 : Int32

/-- The end of `random`. -/
def magnitude (rand : Int32) : Int32 := if rand < 0 then rand * -1 else rand

/-- `random`. The masks are wider than an `int`, but only the low 32 bits count. -/
def random (z : Lfsr) (max : Int32) : Lfsr × Int32 :=
  if max ≤ 0 then (z, 1)
  else
    let z1 := ((z.z1 &&& -2) <<< 18) ^^^ (((z.z1 <<< 6) ^^^ z.z1) >>> 13)
    let z2 := ((z.z2 &&& -8) <<< 2) ^^^ (((z.z2 <<< 2) ^^^ z.z2) >>> 27)
    let z3 := ((z.z3 &&& -16) <<< 7) ^^^ (((z.z3 <<< 13) ^^^ z.z3) >>> 21)
    let z4 := ((z.z4 &&& -128) <<< 13) ^^^ (((z.z4 <<< 3) ^^^ z.z4) >>> 12)
    (⟨z1, z2, z3, z4⟩, magnitude ((z1 ^^^ z2 ^^^ z3 ^^^ z4) % max))

/-- `ptable.proc + x`, if that is a slot. -/
def slotAt (x : Int32) : Option Slot :=
  if h : 0 ≤ x.toInt ∧ x.toInt.toNat < nproc then some ⟨x.toInt.toNat, h.2⟩ else none

/-- The loop of `defaultScheduler` over the values of `i`. -/
def search (table : Slot → ProcState) (rnd : Int32) : List Int32 → Choice
  | [] => .null
  | i :: rest =>
      match slotAt ((rnd + i) % Int32.ofNat nproc) with
      | none => .stray
      | some p => if table p = .runnable then .slot p else search table rnd rest

def defaultScheduler (table : Slot → ProcState) (z : Lfsr) : Choice :=
  search table (random z (Int32.ofNat nproc)).2 ((List.range nproc).map Int32.ofNat)

/-- A call of the function that `ready_process` points to. The other policies have no `return`. -/
def Policy.call (table : Slot → ProcState) (z : Lfsr) : Policy → Choice
  | .defaultScheduler => Sched.defaultScheduler table z
  | .priorityScheduler | .fcfsScheduler | .rrScheduler | .smlScheduler | .stray => .stray

/-- The result is null if no slot is `RUNNABLE`, and else a `RUNNABLE` slot. -/
def Choice.Proper (table : Slot → ProcState) : Choice → Prop
  | .null => ∀ p, table p ≠ .runnable
  | .slot p => table p = .runnable
  | .stray => False

/-- One pass of the loop of `scheduler`; `none` where it uses a stray pointer. -/
def scheduler [DecidableEq κ] (settings : Settings) (z : Lfsr) (s : State κ) (c : κ)
    : Option (State κ) :=
  match settings.readyProcess.call (fun p => (s.proc p).state) z with
  | .null => some s
  | .slot p => some (switch s c p)
  | .stray => none

/-! The default policy. -/

theorem magnitude_mod_bounds (x : Int32)
    : 0 ≤ (magnitude (x % Int32.ofNat nproc)).toInt
      ∧ (magnitude (x % Int32.ofNat nproc)).toInt < 64 := by
  have low : -64 < (x % Int32.ofNat nproc).toInt := by
    rw [Int32.toInt_mod]
    exact Int.lt_tmod_of_pos x.toInt (by decide)
  have high : (x % Int32.ofNat nproc).toInt < 64 := by
    rw [Int32.toInt_mod]
    exact Int.tmod_lt_of_pos x.toInt (by decide)
  generalize x % Int32.ofNat nproc = rand at low high
  unfold magnitude
  split
  · rename_i negative
    have below : rand.toInt < 0 := Int32.lt_iff_toInt_lt.mp negative
    have flipped : (rand * -1).toInt = -rand.toInt := by
      rw [Int32.toInt_mul]
      exact (Int.bmod_eq_of_le (by simp; omega) (by simp; omega)).trans (by simp)
    omega
  · rename_i negative
    have above : ¬ rand.toInt < 0 := fun below => negative (Int32.lt_iff_toInt_lt.mpr below)
    omega

/-- `random(NPROC)` is the number of a slot. -/
theorem random_bounds (z : Lfsr)
    : 0 ≤ (random z (Int32.ofNat nproc)).2.toInt
      ∧ (random z (Int32.ofNat nproc)).2.toInt < 64 := by
  unfold random
  rw [if_neg (by decide)]
  exact magnitude_mod_bounds _

/-- The slot that `defaultScheduler` looks at in pass `i`. -/
def passSlot (rnd : Int32) (i : Nat) : Slot :=
  ⟨(rnd.toInt.toNat + i) % nproc, Nat.mod_lt _ (by decide)⟩

theorem slotAt_pass (low : 0 ≤ rnd.toInt) (high : rnd.toInt < 64) {i : Nat} (bound : i < nproc)
    : slotAt ((rnd + Int32.ofNat i) % Int32.ofNat nproc) = some (passSlot rnd i) := by
  have bound : i < 64 := bound
  have number : (Int32.ofNat i).toInt = i := Int32.toInt_ofNat_of_lt (by omega)
  have sum : (rnd + Int32.ofNat i).toInt = ((rnd.toInt.toNat + i : Nat) : Int) := by
    rw [Int32.toInt_add, number]
    exact (Int.bmod_eq_of_le (by simp; omega) (by simp; omega)).trans (by omega)
  have value : ((rnd + Int32.ofNat i) % Int32.ofNat nproc).toInt
      = (((rnd.toInt.toNat + i) % nproc : Nat) : Int) := by
    rw [Int32.toInt_mod, sum]
    exact Int.ofNat_tmod _ nproc
  have below : (rnd.toInt.toNat + i) % nproc < nproc := Nat.mod_lt _ (by decide)
  unfold slotAt
  rw [dif_pos ⟨by omega, by omega⟩]
  exact congrArg some (Fin.ext (by simp only [passSlot]; omega))

/-- Every slot is looked at in some pass. -/
theorem passSlot_surjective (low : 0 ≤ rnd.toInt) (high : rnd.toInt < 64) (p : Slot)
    : ∃ i < nproc, passSlot rnd i = p := by
  have bound : p.val < 64 := p.isLt
  refine ⟨(p.val + (64 - rnd.toInt.toNat)) % 64, Nat.mod_lt _ (by decide), Fin.ext ?_⟩
  simp only [passSlot, nproc]
  omega

/-- The loop takes the first `RUNNABLE` slot of the passes `is`. -/
theorem search_eq (table : Slot → ProcState) (low : 0 ≤ rnd.toInt) (high : rnd.toInt < 64)
    {is : List Nat} (bounds : ∀ i ∈ is, i < nproc)
    : search table rnd (is.map Int32.ofNat)
      = match is.find? fun i => table (passSlot rnd i) = .runnable with
        | none => .null
        | some i => .slot (passSlot rnd i) := by
  induction is with
  | nil => rfl
  | cons i rest ih =>
    have first := slotAt_pass low high (bounds i (by simp))
    have later := ih fun j member => bounds j (by simp [member])
    simp only [List.map_cons, search, first, List.find?_cons]
    by_cases ready : table (passSlot rnd i) = .runnable
    · simp only [ready, if_true, decide_true]
    · simp only [ready, if_false, decide_false, later]

/-- What `defaultScheduler` is for: of the slots from `rnd` on, in cyclic order, it takes the first
one that is `RUNNABLE`.
-/
structure FirstRunnable (table : Slot → ProcState) (rnd : Int32) (choice : Choice) : Prop where
  low : 0 ≤ rnd.toInt
  high : rnd.toInt < nproc
  decided : choice ≠ .stray
  null : choice = .null ↔ ∀ p, table p ≠ .runnable
  slot
    : ∀ p, choice = .slot p
      ↔ ∃ i < nproc, passSlot rnd i = p ∧ table p = .runnable
        ∧ ∀ j < i, table (passSlot rnd j) ≠ .runnable

theorem defaultScheduler_finds (table : Slot → ProcState) (z : Lfsr)
    : FirstRunnable table (random z (Int32.ofNat nproc)).2 (defaultScheduler table z) := by
  obtain ⟨low, high⟩ := random_bounds z
  unfold defaultScheduler
  generalize (random z (Int32.ofNat nproc)).2 = rnd at low high
  rw [search_eq table low high fun i => List.mem_range.mp]
  cases found : (List.range nproc).find? fun i => table (passSlot rnd i) = .runnable with
  | none =>
    have idle : ∀ p, table p ≠ .runnable := fun p => by
      obtain ⟨i, bound, rfl⟩ := passSlot_surjective low high p
      simpa using List.find?_range_eq_none.mp found i bound
    refine ⟨low, high, nofun, iff_of_true rfl idle, fun p => ⟨nofun, ?_⟩⟩
    rintro ⟨i, _, _, ready, _⟩
    exact absurd ready (idle p)
  | some i =>
    obtain ⟨ready, bound, before⟩ := List.find?_range_eq_some.mp found
    have ready : table (passSlot rnd i) = .runnable := by simpa using ready
    refine ⟨low, high, nofun, iff_of_false nofun fun idle => idle _ ready, fun p => ⟨?_, ?_⟩⟩
    · rintro ⟨⟩
      exact ⟨i, List.mem_range.mp bound, rfl, ready, fun j below => by simpa using before j below⟩
    · rintro ⟨j, _, rfl, first, earlier⟩
      obtain rfl : i = j := by
        rcases Nat.lt_trichotomy i j with below | same | above
        · exact absurd ready (earlier i below)
        · exact same
        · exact absurd first (by simpa using before j above)
      rfl

theorem defaultScheduler_proper (table : Slot → ProcState) (z : Lfsr)
    : (defaultScheduler table z).Proper table := by
  have finds := defaultScheduler_finds table z
  cases choice : defaultScheduler table z with
  | null => exact finds.null.mp choice
  | slot p =>
    obtain ⟨_, _, _, ready, _⟩ := (finds.slot p).mp choice
    exact ready
  | stray => exact finds.decided choice

/-- `random` with the masks as the source has them: the constants do not fit into 32 bits, so that
each word is masked, shifted and combined with `b` in 64 bits.
-/
def randomWide (z : Lfsr) (max : Int32) : Lfsr × Int32 :=
  if max ≤ 0 then (z, 1)
  else
    let next := fun (z b : Int32) (mask up : Int64) =>
      (((z.toInt64 &&& mask) <<< up) ^^^ b.toInt64).toInt32
    let z1 := next z.z1 (((z.z1 <<< 6) ^^^ z.z1) >>> 13) 4294967294 18
    let z2 := next z.z2 (((z.z2 <<< 2) ^^^ z.z2) >>> 27) 4294967288 2
    let z3 := next z.z3 (((z.z3 <<< 13) ^^^ z.z3) >>> 21) 4294967280 7
    let z4 := next z.z4 (((z.z4 <<< 3) ^^^ z.z4) >>> 12) 4294967168 13
    (⟨z1, z2, z3, z4⟩, magnitude ((z1 ^^^ z2 ^^^ z3 ^^^ z4) % max))

theorem randomWide_eq : randomWide = random := by
  have shift : ∀ a : Int64,
      (a <<< 18).toInt32 = a.toInt32 <<< 18 ∧ (a <<< 2).toInt32 = a.toInt32 <<< 2
      ∧ (a <<< 7).toInt32 = a.toInt32 <<< 7 ∧ (a <<< 13).toInt32 = a.toInt32 <<< 13 := fun a => by
    simp [← Int32.toBitVec_inj, BitVec.signExtend_eq_setWidth_of_le,
      BitVec.setWidth_shiftLeft_of_le]
  have masks : (4294967294 : Int32) = -2 ∧ (4294967288 : Int32) = -8
      ∧ (4294967280 : Int32) = -16 ∧ (4294967168 : Int32) = -128 := by decide
  funext z max
  simp [randomWide, random, shift, masks]

/-- The default policy takes the first `RUNNABLE` slot from a random one on. -/
theorem defaultScheduler_firstRunnable (table : Slot → ProcState) (z : Lfsr)
    : FirstRunnable table (randomWide z (Int32.ofNat nproc)).2 (defaultScheduler table z) := by
  rw [randomWide_eq]
  exact defaultScheduler_finds table z

/-- The other entries of the table, and what lies behind it, return what nothing determines. -/
theorem proper_iff_default (policy : Policy)
    : (∀ table z, (policy.call table z).Proper table) ↔ policy = .defaultScheduler := by
  constructor
  · intro proper
    have call := proper (fun _ => .unused) ⟨0, 0, 0, 0⟩
    cases policy <;> first | rfl | exact call.elim
  · rintro rfl table z
    exact defaultScheduler_proper table z

/-! The calls of setscheduler. -/

/-- The settings after a sequence of calls. -/
def settingsAfter (sids : List Int32) : Settings :=
  sids.foldl (fun settings sid => (setscheduler settings sid).1) .initial

/-- What the settings have to be for `scheduler` to run only `RUNNABLE` processes. -/
structure Settings.Correct (κ : Type) [DecidableEq κ] (settings : Settings) : Prop where
  selected :
    0 ≤ settings.schedSelected
    ∧ schedulerFunction[settings.schedSelected.toInt.toNat]? = some settings.readyProcess
  proper : ∀ table z, (settings.readyProcess.call table z).Proper table
  switches :
    ∀ (s : State κ) c z,
      scheduler settings z s c = some s
      ∨ ∃ p, (s.proc p).state = .runnable ∧ scheduler settings z s c = some (switch s c p)

/-- A call with no entry in `schedulerFunction` fails and changes nothing. -/
def Settings.Refuses (settings : Settings) (sid : Int32) : Prop :=
  sid < 0 ∨ Int32.ofNat schedulerFunction.length ≤ sid → setscheduler settings sid = (settings, -1)

/-- Each call of the sequence is refused if it has no entry, and whenever `scheduler` runs, before
or after any of them, the settings are correct.
-/
structure SchedulesCorrectly (κ : Type) [DecidableEq κ] (sids : List Int32) : Prop where
  refuses : ∀ before sid, before ++ [sid] <+: sids → (settingsAfter before).Refuses sid
  correct : ∀ before, before <+: sids → (settingsAfter before).Correct κ

theorem scheduler_switches [DecidableEq κ] {settings : Settings}
    (proper : ∀ table z, (settings.readyProcess.call table z).Proper table) (s : State κ) (c : κ)
    (z : Lfsr)
    : scheduler settings z s c = some s
      ∨ ∃ p, (s.proc p).state = .runnable ∧ scheduler settings z s c = some (switch s c p) := by
  have call := proper (fun p => (s.proc p).state) z
  unfold scheduler
  revert call
  cases settings.readyProcess.call (fun p => (s.proc p).state) z with
  | null => exact fun _ => .inl rfl
  | slot p => exact fun ready => .inr ⟨p, ready, rfl⟩
  | stray => exact False.elim

theorem initial_correct (κ : Type) [DecidableEq κ] : Settings.initial.Correct κ where
  selected := by decide
  proper := (proper_iff_default .defaultScheduler).mpr rfl
  switches := scheduler_switches ((proper_iff_default .defaultScheduler).mpr rfl)

theorem settingsAfter_concat (before : List Int32) (sid : Int32)
    : settingsAfter (before ++ [sid]) = (setscheduler (settingsAfter before) sid).1 := by
  simp [settingsAfter]

theorem setscheduler_accepts (settings : Settings) (low : 0 ≤ sid) (high : sid ≤ 5)
    : setscheduler settings sid = (⟨entry sid, sid⟩, sid) := by
  have low := Int32.le_iff_toInt_le.mp low
  have high := Int32.le_iff_toInt_le.mp high
  refine if_neg ?_
  rintro (negative | beyond)
  · have := Int32.lt_iff_toInt_lt.mp negative
    omega
  · have : (5 : Int32).toInt < sid.toInt := Int32.lt_iff_toInt_lt.mp beyond
    omega

theorem setscheduler_rejects (settings : Settings) (outside : sid < 0 ∨ 5 < sid)
    : setscheduler settings sid = (settings, -1) :=
  if_pos outside

/-- The values that select an entry other than the default one, or the place behind the table. -/
theorem entry_ne_default (low : 1 ≤ sid) (high : sid ≤ 5)
    : entry sid ≠ .defaultScheduler := by
  have low : (1 : Int) ≤ sid.toInt := Int32.le_iff_toInt_le.mp low
  have high : sid.toInt ≤ 5 := Int32.le_iff_toInt_le.mp high
  unfold entry
  generalize sid.toInt = x at low high
  obtain rfl | rfl | rfl | rfl | rfl : x = 1 ∨ x = 2 ∨ x = 3 ∨ x = 4 ∨ x = 5 := by omega
  all_goals decide

theorem sid_cases (sid : Int32)
    : sid = 0 ∨ (1 ≤ sid ∧ sid ≤ 5) ∨ sid < 0 ∨ 5 < sid := by
  simp only [← Int32.toInt_inj, Int32.le_iff_toInt_le, Int32.lt_iff_toInt_lt]
  have zero : (0 : Int32).toInt = 0 := rfl
  have one : (1 : Int32).toInt = 1 := rfl
  have five : (5 : Int32).toInt = 5 := rfl
  omega

/-- Refused calls and the call for entry 0 keep the initial settings. -/
theorem settingsAfter_eq_initial {sids : List Int32} (outside : ∀ sid ∈ sids, ¬ (1 ≤ sid ∧ sid ≤ 5))
    : settingsAfter sids = .initial := by
  induction sids using List.reverseRecOn with
  | nil => rfl
  | append_singleton before sid ih =>
    have same := ih fun other member => outside other (by simp [member])
    have last := outside sid (by simp)
    rw [settingsAfter_concat, same]
    rcases sid_cases sid with rfl | inside | beyond
    · rfl
    · exact absurd inside last
    · rw [setscheduler_rejects _ beyond]

/-- The calls `setscheduler(1)` to `setscheduler(5)` are accepted and leave `scheduler` with a
policy that does not return a process; all others keep it right.
-/
theorem schedulesCorrectly_iff (κ : Type) [DecidableEq κ] (sids : List Int32)
    : SchedulesCorrectly κ sids ↔ ∀ sid ∈ sids, ¬ (1 ≤ sid ∧ sid ≤ 5) := by
  constructor
  · rintro schedules sid member ⟨low, high⟩
    obtain ⟨before, after, rfl⟩ := List.append_of_mem member
    have correct := schedules.correct (before ++ [sid]) ⟨after, by simp⟩
    have accepted : settingsAfter (before ++ [sid]) = ⟨entry sid, sid⟩ := by
      rw [settingsAfter_concat, setscheduler_accepts _ (Int32.le_trans (by decide) low) high]
    rw [accepted] at correct
    exact entry_ne_default low high ((proper_iff_default _).mp correct.proper)
  · intro outside
    have initial : ∀ before, before <+: sids → settingsAfter before = .initial := fun before start =>
      settingsAfter_eq_initial fun sid member => outside sid (start.subset member)
    constructor
    · intro before sid start absent
      have last := outside sid (start.subset (by simp))
      rcases sid_cases sid with rfl | inside | beyond
      · exact absurd absent (by decide)
      · exact absurd inside last
      · exact setscheduler_rejects _ beyond
    · intro before start
      rw [initial before start]
      exact initial_correct κ

/-- The number of the entries is accepted, and so is a policy whose body is empty. -/
theorem setscheduler_five_and_one
    : setscheduler .initial 5 = (⟨.stray, 5⟩, 5)
      ∧ schedulerFunction[5]? = none
      ∧ setscheduler .initial 1 = (⟨.priorityScheduler, 1⟩, 1)
      ∧ (Policy.call (fun _ => .unused) ⟨0, 0, 0, 0⟩ .priorityScheduler) = .stray
      ∧ ¬ SchedulesCorrectly Unit [5]
      ∧ ¬ SchedulesCorrectly Unit [1] := by
  refine ⟨by decide, by decide, by decide, by decide, ?_, ?_⟩
  · intro schedules
    have refused := schedules.refuses [] 5 (by simp) (by decide)
    exact absurd refused (by decide)
  · intro schedules
    have correct := (schedules.correct [1] (by simp)).proper (fun _ => .unused) ⟨0, 0, 0, 0⟩
    exact correct

end Xv6.Sched
