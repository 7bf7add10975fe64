import Xv6.Paging.Fork
import Xv6.Sched.Steps

/-! `fork`, `clone` and `exit` are in several models, each with the data that its results are
about. What the models share is said here once, and each model does it.
-/

namespace Xv6.Agreement

open Lib
open Xv6.Proc (ProcState Table CopyResult initproc)
open Function (update)

inductive Phase where
  | unused
  | used
  | zombie
  deriving DecidableEq

def phase : ProcState → Phase
  | .unused => .unused
  | .zombie => .zombie
  | .embryo | .sleeping | .runnable | .running => .used

@[simp] theorem phase_eq_unused {state : ProcState} : phase state = .unused ↔ state = .unused := by
  cases state <;> simp [phase]

structure Entry where
  phase : Phase
  pid : Int32
  parent : Option (Fin nproc)
  deriving DecidableEq

/-- The process table. -/
structure Slots where
  entry : Fin nproc → Entry
  nextpid : Int32

namespace Slots

variable {x y : Slots} {p np : Fin nproc} {made : Bool}

def unused (x : Slots) : Option (Fin nproc) :=
  (List.finRange nproc).find? fun q => (x.entry q).phase = .unused

/-- `fork` or `clone` by `p`: the first unused slot gets the next id and, when nothing fails, the
new process.
-/
def fork (x : Slots) (p : Fin nproc) (made : Bool) : Slots :=
  match x.unused with
  | none => x
  | some np =>
      { entry := update x.entry np
          (if made then ⟨.used, x.nextpid, some p⟩ else { x.entry np with pid := x.nextpid })
        nextpid := x.nextpid + 1 }

/-- `exit` of `p`: its children go to `initproc`. -/
def exit (x : Slots) (p : Fin nproc) : Slots :=
  { x with
    entry := fun q =>
      { x.entry q with
        phase := if q = p then .zombie else (x.entry q).phase
        parent := if (x.entry q).parent = some p then some initproc else (x.entry q).parent } }

theorem fork_none (full : x.unused = none) : x = x.fork p made := by rw [fork, full]

theorem fork_some (found : x.unused = some np) (others : ∀ q, q ≠ np → y.entry q = x.entry q)
    (here : y.entry np
      = if made then ⟨.used, x.nextpid, some p⟩ else { x.entry np with pid := x.nextpid })
    (nextpid : y.nextpid = x.nextpid + 1)
    : y = x.fork p made := by
  obtain ⟨entry, _⟩ := y
  rw [fork, found]
  exact congr (congrArg Slots.mk (Function.eq_update_iff.mpr ⟨here, others⟩)) nextpid

end Slots

variable {p np : Fin nproc}

/-! The process table with its page directories. -/

section Table

variable {t t' : Table}

def ofTable (t : Table) : Slots where
  entry := fun q => ⟨phase (t.proc q).state, (t.proc q).pid, (t.proc q).parent⟩
  nextpid := t.nextpid

theorem fork_table (t : Table) (p : Fin nproc) (kstack : Bool) (copy : CopyResult)
    : ofTable (Proc.fork t p kstack copy).1 = (ofTable t).fork p (kstack && copy = .copied)
      ∧ ofTable (Proc.clone t p kstack).1 = (ofTable t).fork p kstack := by
  have search : (ofTable t).unused
      = (List.finRange nproc).find? fun q => (t.proc q).state = .unused := by
    simp [Slots.unused, ofTable]
  rw [Proc.fork, Proc.clone, Proc.allocproc]
  cases found : (List.finRange nproc).find? fun q => (t.proc q).state = .unused with
  | none => exact ⟨Slots.fork_none (search.trans found), Slots.fork_none (search.trans found)⟩
  | some np =>
    have unused : (t.proc np).state = .unused := by simpa using List.find?_some found
    constructor
    all_goals cases kstack
    all_goals
      refine Slots.fork_some (search.trans found) ?_ ?_ ?_
      all_goals cases copy
      all_goals
        simp +contextual [ofTable, Table.set, Table.wasteDirectory, phase, unused]

theorem exit_table (exited : Proc.exit t p = some t') : ofTable t' = (ofTable t).exit p := by
  obtain ⟨-, ⟨⟩⟩ := Option.ite_none_left_eq_some.mp exited
  refine congrArg (Slots.mk · t.nextpid) (funext fun q => ?_)
  by_cases self : q = p
  · simp only [ofTable, Table.set, self, Function.update_self]
    split <;> simp [phase, *]
  · simp only [ofTable, Table.set, Function.update_of_ne self, if_neg self]
    split <;> simp [*]

end Table

/-! The processes on several CPUs. -/

section Sched

open Xv6.Sched

variable {κ : Type} [DecidableEq κ] {s : State κ} {c : κ}

def ofSched (s : State κ) : Slots where
  entry := fun q => ⟨phase (s.proc q).state, (s.proc q).pid, (s.proc q).parent⟩
  nextpid := s.nextpid

/-- `fork` and `clone` when no other process takes a step before they return. -/
theorem fork_sched (on : s.cpu c = some p) (idle : s.call p = none) (thread copied : Bool)
    (page : Option Nat) (free : ∀ k ∈ page, s.page k = .free)
    : ∃ labels s',
        labels <+: [.allocproc c thread, .allocStack c page, .fill c copied, .publish c]
        ∧ run State.step labels s = some s' ∧ s'.call p = none
        ∧ ofSched s' = (ofSched s).fork p (page.isSome && (thread || copied)) := by
  have search : (ofSched s).unused = s.unused := by simp [Slots.unused, ofSched, State.unused]
  cases found : s.unused with
  | none =>
    refine ⟨[.allocproc c thread], s, by simp, ?_, idle, Slots.fork_none (search.trans found)⟩
    simp [run, State.step, State.on, on, idle, allocproc, found]
  | some np =>
    have unused : (s.proc np).state = .unused := by simpa using List.find?_some found
    have first : ∀ rest, run State.step (.allocproc c thread :: .allocStack c page :: rest) s
        = (allocStack (claim s p np thread) p np thread page).bind (run State.step rest) := by
      simp [run, State.step, State.on, on, idle, allocproc, found, claim]
    cases page with
    | none =>
      refine ⟨[.allocproc c thread, .allocStack c none], _, by simp, first [], by simp [giveBack],
        Slots.fork_some (search.trans found) ?_ ?_ rfl⟩
      all_goals simp +contextual [ofSched, unused]
    | some k =>
      obtain ⟨u, stacked⟩ : ∃ u, u = setStack (claim s p np thread) p np thread k := ⟨_, rfl⟩
      have given : allocStack (claim s p np thread) p np thread (some k) = some u :=
        stacked ▸ if_pos (free k rfl)
      have on : u.cpu c = some p := stacked ▸ on
      have making : u.call p = some (.making np thread .stacked) := by simp [stacked, setStack]
      have nextpid : u.nextpid = s.nextpid + 1 := stacked ▸ rfl
      simp only [given, Option.bind_some] at first
      cases made : thread || copied with
      | true =>
        have fills : run State.step [.fill c copied, .publish c] u
            = some (publish (if thread then fillClone u p np else fillFork u p np) p np) := by
          cases thread <;> simp_all [run, State.step, State.on, fillFork, fillClone]
        refine ⟨_, _, List.prefix_refl _, (first _).trans fills, by simp [publish],
          Slots.fork_some (search.trans found) ?_ ?_ ?_⟩
        all_goals cases thread
        all_goals first | exact nextpid | simp +contextual [ofSched, phase, stacked]
      | false =>
        have fails : run State.step [.fill c copied] u = some (abandon u p np) := by
          simp_all [run, State.step, State.on]
        have kept : (abandon u p np).nextpid = u.nextpid := by
          rw [abandon]
          cases (u.proc np).kstack <;> rfl
        refine ⟨_, _, ⟨[.publish c], rfl⟩, (first _).trans fails, by simp [abandon, giveBack],
          Slots.fork_some (search.trans found) ?_ ?_ (kept.trans nextpid)⟩
        all_goals simp +contextual [ofSched, stacked, unused]

/-- `initproc` forks a child with the id 2. -/
theorem initproc_forks
    : ∃ (s : State Unit) (labels : List (Label Unit)) (s' : State Unit),
        run State.step [.switch () 0] (.boot 0) = some s ∧ run State.step labels s = some s'
        ∧ (ofSched s').entry 1 = ⟨.used, 2, some 0⟩ := by
  obtain ⟨s, reached, on, idle, free, child⟩ : ∃ s : State Unit,
      run State.step [.switch () 0] (.boot 0) = some s ∧ s.cpu () = some 0 ∧ s.call 0 = none
      ∧ s.page 1 = .free ∧ ((ofSched s).fork 0 true).entry 1 = ⟨.used, 2, some 0⟩ := by
    decide +kernel
  obtain ⟨labels, s', -, ran, -, same⟩ := fork_sched on idle false true (some 1) (by simpa using free)
  exact ⟨s, labels, s', reached, ran, same ▸ child⟩

/-- `exit` also wakes processes up. -/
theorem exit_sched (s : State κ) (c : κ) (p : Slot)
    : ofSched (exit s c p) = (ofSched s).exit p := by
  have nextpid : (exit s c p).nextpid = s.nextpid := by
    rw [exit_eq]
    rfl
  refine congr (congrArg Slots.mk (funext fun q => ?_)) nextpid
  rw [exit_proc]
  refine congrArg (Entry.mk · (s.proc q).pid _) ?_
  by_cases self : q = p
  · simp [Proc.bereft, self, phase]
  · simp only [Proc.bereft, self, if_false, ofSched]
    split
    · simp_all [phase]
    · rfl

end Sched

/-! `fork` over page tables. -/

section Kernel

open Xv6.Paging

variable {M : Machine} {k k' : Kernel}

def ofKernel (k : Kernel) : Slots where
  entry := fun q => ⟨phase (k.proc q).state, (k.proc q).pid, (k.proc q).parent⟩
  nextpid := k.nextpid

/-- The loop over `ofile` changes no other field. -/
theorem copyFiles_kernel {ofile : Fin nofile → Option Nat} {files : List (Fin nofile)}
    (ran : Returns (copyFiles ofile np files) k () k')
    : ofKernel k' = ofKernel k := by
  induction files generalizing k with
  | nil =>
    obtain ⟨-, rfl⟩ := returns_pure.mp ran
    rfl
  | cons i rest ih =>
    rw [copyFiles] at ran
    cases entry : ofile i with
    | none =>
      simp only [entry] at ran
      exact ih ran
    | some f =>
      simp only [entry] at ran
      obtain ⟨_, m, dup, ran⟩ := returns_bind.mp ran
      refine (ih (returns_modify_bind.mp ran)).trans ?_
      have dup := returns_get_bind.mp dup
      obtain ⟨_, dup⟩ | ⟨_, dup⟩ := returns_ite.mp dup
      · exact (returns_throw.mp dup).elim
      · rw [← returns_modify.mp dup]
        refine congrArg (Slots.mk · k.nextpid) (funext fun q => ?_)
        by_cases here : q = np <;> simp [here]

theorem fork_kernel {r : Option Int32} (ran : Returns (Paging.fork M p) k r k')
    : ofKernel k' = (ofKernel k).fork p r.isSome := by
  have search : (ofKernel k).unused
      = (List.finRange nproc).find? fun q => (k.proc q).state = .unused := by
    simp [Slots.unused, ofKernel]
  cases found : (List.finRange nproc).find? fun q => (k.proc q).state = .unused with
  | none =>
    have allocated : Returns Paging.allocproc k none k := by
      simp [Paging.allocproc, returns_bind, found]
    obtain ⟨-, rfl⟩ := ran.unique (allocated.bind rfl)
    exact Slots.fork_none (search.trans found)
  | some np =>
    have unused : (k.proc np).state = .unused := by simpa using List.find?_some found
    obtain ⟨-, allocated⟩ | ⟨f, rest, -, allocated⟩ := allocproc_spec found
    · obtain ⟨rfl, rfl⟩ := ran.unique (allocated.bind rfl)
      refine Slots.fork_some (search.trans found) ?_ ?_ rfl
      all_goals simp +contextual [ofKernel, Kernel.embryo, unused]
    obtain ⟨_, _, first, ran⟩ := returns_bind.mp ran
    obtain ⟨rfl, rfl⟩ := allocated.unique first
    have ran := returns_get_bind.mp ran
    split at ran
    case h_2 => exact (returns_throw.mp ran).elim
    obtain ⟨copy, _, copies, ran⟩ := returns_bind.mp ran
    obtain ⟨t, -, rfl⟩ := returns_onPaging.mp copies
    cases copy with
    | none =>
      obtain ⟨_, _, frees, ran⟩ := returns_bind.mp ran
      obtain ⟨u, -, rfl⟩ := returns_onPaging.mp frees
      have ran := returns_modify_bind.mp ran
      obtain ⟨rfl, rfl⟩ := returns_pure.mp ran
      refine Slots.fork_some (search.trans found) ?_ ?_ rfl
      all_goals simp +contextual [ofKernel, Kernel.embryo, unused]
    | some d =>
      obtain ⟨_, m, files, ran⟩ := returns_bind.mp (returns_modify_bind.mp ran)
      have ran := returns_modify_bind.mp (returns_modify_bind.mp ran)
      obtain ⟨rfl, rfl⟩ := returns_pure.mp ran
      have same := copyFiles_kernel files
      simp only [ofKernel, Kernel.embryo, Slots.mk.injEq, funext_iff, Entry.mk.injEq] at same
      have here := same.1 np
      refine Slots.fork_some (search.trans found) (fun q other => ?_) ?_ same.2
      · have there := same.1 q
        simp_all [ofKernel]
      · simp_all [ofKernel, phase]

end Kernel

end Xv6.Agreement
