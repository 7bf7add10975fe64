import Xv6.Lib.Transition
import Xv6.Param

/-! The process table of `proc.c` and the calls that create, replace and reap processes.
A call is one step. Page directories are numbered by the `setupkvm` that made them, and
`freed` counts the `freevm` calls on each; which `kalloc` fails is part of the label.
-/

namespace Xv6.Proc

open Function (update update_self update_of_ne update_idem)

inductive ProcState where
  | unused
  | embryo
  | sleeping
  | runnable
  | running
  | zombie
  deriving DecidableEq

/-- In one of the states `SLEEPING`, `RUNNABLE` and `RUNNING`. -/
def ProcState.live : ProcState → Bool
  | .sleeping | .runnable | .running => true
  | _ => false

/-- The fields of `struct proc` that these calls read. -/
structure Slot where
  state : ProcState
  pid : Int32
  parent : Option (Fin nproc)
  pgdir : Option Nat
  isthread : Bool
  killed : Bool
  deriving DecidableEq

structure Table where
  proc : Fin nproc → Slot
  nextpid : Int32
  created : Nat
  freed : Nat → Nat

/-- What `copyuvm` comes to: no directory, a directory that is freed again because some page
cannot be allocated, or a copy.
-/
inductive CopyResult where
  | noDirectory
  | noPages
  | copied
  deriving DecidableEq

/-- What `exec` comes to: an error before it has a directory, one after, or a new image. -/
inductive ExecResult where
  | noDirectory
  | badImage
  | loaded
  deriving DecidableEq

inductive Step where
  | fork (p : Fin nproc) (kstack : Bool) (copy : CopyResult)
  | clone (p : Fin nproc) (kstack : Bool)
  | exec (p : Fin nproc) (result : ExecResult)
  | exit (p : Fin nproc)
  | wait (p : Fin nproc)
  | wait2 (p : Fin nproc)
  | join (p : Fin nproc)
  | kill (pid : Int32)
  | reschedule (p : Fin nproc) (state : ProcState)
  deriving DecidableEq

/-- `userinit` takes the first slot. -/
def initproc : Fin nproc := 0

def Table.set (t : Table) (i : Fin nproc) (slot : Slot) : Table :=
  { t with proc := Function.update t.proc i slot }

/-- `freevm`; the panic on a null directory is the absence of a result. -/
def Table.freevm (t : Table) : Option Nat → Option Table
  | none => none
  | some d => some { t with freed := Function.update t.freed d (t.freed d + 1) }

/-- A directory that is made and, on an error path, freed again. -/
def Table.wasteDirectory (t : Table) : Table :=
  { t with
    created := t.created + 1
    freed := Function.update t.freed t.created (t.freed t.created + 1) }

/-- `allocproc`: the first unused slot becomes an embryo, until its stack cannot be had. -/
def allocproc (t : Table) (kstack : Bool) : Table × Option (Fin nproc) :=
  match (List.finRange nproc).find? (fun i => (t.proc i).state = .unused) with
  | none => (t, none)
  | some i =>
      let slot := { t.proc i with state := .embryo, pid := t.nextpid }
      let named := { t.set i slot with nextpid := t.nextpid + 1 }
      if kstack then (named, some i) else (named.set i { slot with state := .unused }, none)

def fork (t : Table) (p : Fin nproc) (kstack : Bool) (copy : CopyResult) : Table × Int32 :=
  match allocproc t kstack with
  | (t, none) => (t, -1)
  | (t, some np) =>
      let slot := t.proc np
      match copy with
      | .noDirectory => (t.set np { slot with pgdir := none, state := .unused }, -1)
      | .noPages =>
          (t.wasteDirectory.set np { slot with pgdir := none, state := .unused }, -1)
      | .copied =>
          let child :=
            { slot with pgdir := some t.created, parent := some p, state := .runnable }
          ({ t.set np child with created := t.created + 1 }, slot.pid)

def clone (t : Table) (p : Fin nproc) (kstack : Bool) : Table × Int32 :=
  match allocproc t kstack with
  | (t, none) => (t, -1)
  | (t, some np) =>
      let slot := t.proc np
      let child :=
        { slot with
          pgdir := (t.proc p).pgdir
          parent := some p
          isthread := true
          state := .runnable }
      (t.set np child, slot.pid)

/-- `exec` switches to the new directory and frees the old one. -/
def exec (t : Table) (p : Fin nproc) : ExecResult → Option (Table × Int32)
  | .noDirectory => some (t, -1)
  | .badImage => some (t.wasteDirectory, -1)
  | .loaded =>
      let oldpgdir := (t.proc p).pgdir
      let switched := t.set p { t.proc p with pgdir := some t.created }
      (Table.freevm { switched with created := t.created + 1 } oldpgdir).map (·, 0)

/-- `exit`: children go to `initproc` and the caller becomes a zombie. -/
def exit (t : Table) (p : Fin nproc) : Option Table :=
  if p = initproc then none
  else
    let adopted : Table :=
      { t with
        proc := fun q =>
          if (t.proc q).parent = some p then { t.proc q with parent := some initproc }
          else t.proc q }
    some (adopted.set p { adopted.proc p with state := .zombie })

/-- The fields all three reapers clear; `isthread` and `pgdir` stay behind. -/
def Table.reap (t : Table) (q : Fin nproc) : Table :=
  t.set q { t.proc q with state := .unused, pid := 0, parent := none, killed := false }

/-- The children a reaper looks at, in table order. -/
def Table.children (t : Table) (p : Fin nproc) (threads : Bool) : List (Fin nproc) :=
  (List.finRange nproc).filter fun q =>
    (t.proc q).parent = some p ∧ (threads → (t.proc q).isthread)

def Table.zombieChild (t : Table) (p : Fin nproc) (threads : Bool) : Option (Fin nproc) :=
  (t.children p threads).find? fun q => (t.proc q).state = .zombie

/-- One pass of the loop of `wait`, `wait2` and `join`: reap the first zombie, fail, or
sleep. `join` looks at threads only and does not free the directory.
-/
def reapLoop (threads : Bool) (t : Table) (p : Fin nproc) : Option (Table × Option Int32) :=
  match t.zombieChild p threads with
  | some q =>
      let pid := (t.proc q).pid
      if threads then some (t.reap q, some pid)
      else ((t.reap q).freevm (t.proc q).pgdir).map (·, some pid)
  | none =>
      if t.children p threads = [] ∨ (t.proc p).killed then some (t, some (-1))
      else some (t.set p { t.proc p with state := .sleeping }, none)

def wait := reapLoop false

/-- `wait2` differs from `wait` in the times it reports and clears, which are left out. -/
def wait2 := reapLoop false

def join := reapLoop true

def kill (t : Table) (pid : Int32) : Table × Int32 :=
  match (List.finRange nproc).find? (fun i => (t.proc i).pid = pid) with
  | none => (t, -1)
  | some i =>
      let slot := t.proc i
      let state := if slot.state = .sleeping then .runnable else slot.state
      (t.set i { slot with killed := true, state }, 0)

/-- A call by a running process. -/
def Table.calls (t : Table) (p : Fin nproc) (result : Option Table) : Option Table :=
  if (t.proc p).state = .running then result else none

/-- One step. `reschedule` stands for all moves between the three live states. -/
def step (t : Table) : Step → Option Table
  | .fork p kstack copy => t.calls p (some (fork t p kstack copy).1)
  | .clone p kstack => t.calls p (some (clone t p kstack).1)
  | .exec p result => t.calls p ((exec t p result).map (·.1))
  | .exit p => t.calls p (exit t p)
  | .wait p => t.calls p ((wait t p).map (·.1))
  | .wait2 p => t.calls p ((wait2 t p).map (·.1))
  | .join p => t.calls p ((join t p).map (·.1))
  | .kill pid => some (kill t pid).1
  | .reschedule p state =>
      if (t.proc p).state.live ∧ state.live then some (t.set p { t.proc p with state })
      else none

/-- The calls that come to `allocproc`. -/
def Step.allocates : Step → Bool
  | .fork .. | .clone .. => true
  | _ => false

/-- No other process uses the directory of slot `q`. -/
def Table.Sole (t : Table) (q : Fin nproc) : Prop :=
  ∀ r, r ≠ q → (t.proc r).state ≠ .unused → (t.proc r).pgdir ≠ (t.proc q).pgdir

/-- A directory is freed with its only user, and `join` leaves another user behind. -/
def Careful (t : Table) : Step → Prop
  | .wait p | .wait2 p => ∀ q, t.zombieChild p false = some q → t.Sole q
  | .join p => ∀ q, t.zombieChild p true = some q → ¬t.Sole q
  | .exec p result => result = .loaded → t.Sole p
  | _ => True

/-- A slot is used as before, under the same id and with the same directory. -/
structure Slot.Same (before after : Slot) : Prop where
  used : after.state = .unused ↔ before.state = .unused
  pid : after.pid = before.pid
  pgdir : after.pgdir = before.pgdir

theorem Slot.Same.refl (slot : Slot) : slot.Same slot := ⟨Iff.rfl, rfl, rfl⟩

/-- The directories are the same. -/
structure Table.SameDirectories (t t' : Table) : Prop where
  created : t'.created = t.created
  freed : t'.freed = t.freed

/-- `allocproc` has named slot `np`. -/
structure Table.Allots (t t' : Table) (np : Fin nproc) (slot : Slot) : Prop where
  unused : (t.proc np).state = .unused
  pid : slot.pid = t.nextpid
  slots : t'.proc = update t.proc np slot
  nextpid : t'.nextpid = t.nextpid + 1

/-- What a step does to the table, and when it is right for the directories. -/
inductive Moves (t t' : Table) (ok : Prop) (allocates : Bool) : Prop
  | kept (slots : ∀ i, (t.proc i).Same (t'.proc i)) (nextpid : t'.nextpid = t.nextpid)
    (dirs : t.SameDirectories t') (fine : ok)
  | wasted (same : t' = t.wasteDirectory) (fine : ok)
  | failed (np slot) (calls : allocates = true) (allots : t.Allots t' np slot)
    (still : slot.state = .unused)
    (dirs : t.SameDirectories t' ∨ t.wasteDirectory.SameDirectories t') (fine : ok)
  | forked (np slot) (calls : allocates = true) (allots : t.Allots t' np slot)
    (used : slot.state ≠ .unused) (pgdir : slot.pgdir = some t.created)
    (created : t'.created = t.created + 1) (freed : t'.freed = t.freed) (fine : ok)
  | cloned (p np slot) (calls : allocates = true) (allots : t.Allots t' np slot)
    (caller : (t.proc p).state ≠ .unused) (used : slot.state ≠ .unused)
    (pgdir : slot.pgdir = (t.proc p).pgdir) (dirs : t.SameDirectories t') (fine : ok)
  | execed (p d) (caller : (t.proc p).state ≠ .unused) (old : (t.proc p).pgdir = some d)
    (same
      : t' = { t with
          proc := update t.proc p { t.proc p with pgdir := some t.created }
          created := t.created + 1
          freed := update t.freed d (t.freed d + 1) })
    (sole : ok ↔ t.Sole p)
  | reaped (q) (threads : Bool) (zombie : (t.proc q).state = .zombie)
    (slots : t'.proc = (t.reap q).proc) (nextpid : t'.nextpid = t.nextpid)
    (created : t'.created = t.created)
    (freed
      : if threads then t'.freed = t.freed
        else ∃ d, (t.proc q).pgdir = some d ∧ t'.freed = update t.freed d (t.freed d + 1))
    (sole : ok ↔ (t.Sole q ↔ threads = false))

section Moves

variable {t t' : Table} {p : Fin nproc} {ok : Prop} {allocates : Bool}

theorem Moves.refl (fine : ok) : Moves t t ok allocates :=
  .kept (fun _ => Slot.Same.refl _) rfl ⟨rfl, rfl⟩ fine

theorem Moves.of_set (i : Fin nproc) {slot : Slot} (same : (t.proc i).Same slot) (fine : ok)
    : Moves t (t.set i slot) ok allocates := by
  refine .kept (fun j => ?_) rfl ⟨rfl, rfl⟩ fine
  rcases eq_or_ne j i with rfl | other
  · simpa [Table.set] using same
  · simpa [Table.set, other] using Slot.Same.refl _

/-- `allocproc` finds no slot, or one that it names and, without a stack, puts back. -/
theorem allocproc_cases (t : Table) (kstack : Bool)
    : allocproc t kstack = (t, none)
      ∨ ∃ np, (t.proc np).state = .unused
        ∧ allocproc t kstack
          = if kstack then
              ({ t with
                proc := update t.proc np { t.proc np with state := .embryo, pid := t.nextpid }
                nextpid := t.nextpid + 1 }, some np)
            else
              ({ t with
                proc := update t.proc np { t.proc np with state := .unused, pid := t.nextpid }
                nextpid := t.nextpid + 1 }, none) := by
  unfold allocproc
  split
  · exact .inl rfl
  · rename_i np first
    exact .inr ⟨np, by simpa using List.find?_some first, by simp [Table.set]⟩

theorem fork_moves (t : Table) (p : Fin nproc) (kstack : Bool) (copy : CopyResult)
    : Moves t (fork t p kstack copy).1 True true := by
  obtain none | ⟨np, unused, found⟩ := allocproc_cases t kstack
  · simp only [fork, none]
    exact .refl trivial
  simp only [fork, found]
  cases kstack with
  | false => exact .failed np _ rfl ⟨unused, rfl, rfl, rfl⟩ rfl (.inl ⟨rfl, rfl⟩) trivial
  | true =>
    cases copy with
    | noDirectory =>
      exact .failed np _ rfl ⟨unused, by simp, update_idem _ _ _, rfl⟩ rfl
        (.inl ⟨rfl, rfl⟩) trivial
    | noPages =>
      exact .failed np _ rfl ⟨unused, by simp, update_idem _ _ _, rfl⟩ rfl
        (.inr ⟨rfl, rfl⟩) trivial
    | copied =>
      exact .forked np _ rfl ⟨unused, by simp, update_idem _ _ _, rfl⟩ (by simp) rfl rfl
        rfl trivial

theorem clone_moves (kstack : Bool) (running : (t.proc p).state = .running)
    : Moves t (clone t p kstack).1 True true := by
  obtain none | ⟨np, unused, found⟩ := allocproc_cases t kstack
  · simp only [clone, none]
    exact .refl trivial
  have other : p ≠ np := by
    rintro rfl
    simp [running] at unused
  simp only [clone, found]
  cases kstack with
  | false => exact .failed np _ rfl ⟨unused, rfl, rfl, rfl⟩ rfl (.inl ⟨rfl, rfl⟩) trivial
  | true =>
    exact .cloned p np _ rfl ⟨unused, by simp, update_idem _ _ _, rfl⟩ (by simp [running])
      (by simp) (by simp [other]) ⟨rfl, rfl⟩ trivial

theorem exec_moves {result : ExecResult} {ret : Int32} (running : (t.proc p).state = .running)
    (done : exec t p result = some (t', ret))
    : Moves t t' (result = .loaded → t.Sole p) false := by
  cases result with
  | noDirectory =>
    cases done
    exact .refl (fun impossible => nomatch impossible)
  | badImage =>
    cases done
    exact .wasted rfl (fun impossible => nomatch impossible)
  | loaded =>
    cases old : (t.proc p).pgdir with
    | none => simp [exec, old, Table.freevm] at done
    | some d =>
      simp only [exec, old, Table.freevm, Option.map_some] at done
      cases done
      exact .execed p d (by simp [running]) old rfl (by simp)

/-- `exit` changes parents, and the state of its caller. -/
theorem exit_moves (running : (t.proc p).state = .running) (done : exit t p = some t')
    : Moves t t' True false := by
  obtain ⟨_, ⟨⟩⟩ := Option.ite_none_left_eq_some.mp done
  refine .kept (fun q => ?_) rfl ⟨rfl, rfl⟩ trivial
  rcases eq_or_ne q p with rfl | other
  · simp only [Table.set, update_self]
    split <;> exact ⟨by simp [running], rfl, rfl⟩
  · simp only [Table.set, update_of_ne other]
    split <;> exact ⟨Iff.rfl, rfl, rfl⟩

/-- A reaper takes its first zombie child off the table; `wait` and `wait2` free its
directory, `join` does not.
-/
theorem reapLoop_moves {threads : Bool} {ret : Option Int32}
    (running : (t.proc p).state = .running) (done : reapLoop threads t p = some (t', ret))
    : Moves t t' (∀ q, t.zombieChild p threads = some q → (t.Sole q ↔ threads = false)) false
    := by
  unfold reapLoop at done
  split at done
  · rename_i q found
    have zombie : (t.proc q).state = .zombie := by simpa using List.find?_some found
    cases threads with
    | true =>
      cases done
      exact .reaped q true zombie rfl rfl rfl rfl (by simp [found])
    | false =>
      obtain ⟨_, freed, ⟨⟩⟩ := Option.map_eq_some_iff.mp done
      cases old : (t.proc q).pgdir with
      | none => simp [old, Table.freevm] at freed
      | some d =>
        rw [old] at freed
        cases freed
        exact .reaped q false zombie rfl rfl rfl ⟨d, old, rfl⟩ (by simp [found])
  · rename_i none
    split at done
    · cases done
      exact .refl (by simp [none])
    · cases done
      exact .of_set p ⟨by simp [running], rfl, rfl⟩ (by simp [none])

theorem kill_moves (t : Table) (pid : Int32) : Moves t (kill t pid).1 True false := by
  unfold kill
  split
  · exact .refl trivial
  · rename_i i _
    refine .of_set i ⟨?_, rfl, rfl⟩ trivial
    by_cases asleep : (t.proc i).state = .sleeping
    · simp [asleep]
    · simp [asleep]

theorem step_moves {label : Step} (stepped : step t label = some t')
    : Moves t t' (Careful t label) label.allocates := by
  cases label with
  | fork p kstack copy =>
    obtain ⟨_, ⟨⟩⟩ := Option.ite_none_right_eq_some.mp stepped
    exact fork_moves t p kstack copy
  | clone p kstack =>
    obtain ⟨running, ⟨⟩⟩ := Option.ite_none_right_eq_some.mp stepped
    exact clone_moves kstack running
  | exec p image =>
    obtain ⟨running, done⟩ := Option.ite_none_right_eq_some.mp stepped
    obtain ⟨⟨_, ret⟩, result, ⟨⟩⟩ := Option.map_eq_some_iff.mp done
    exact exec_moves running result
  | exit p =>
    obtain ⟨running, done⟩ := Option.ite_none_right_eq_some.mp stepped
    exact exit_moves running done
  | wait | wait2 | join =>
    obtain ⟨running, done⟩ := Option.ite_none_right_eq_some.mp stepped
    obtain ⟨⟨_, ret⟩, result, ⟨⟩⟩ := Option.map_eq_some_iff.mp done
    simpa [Careful, Step.allocates] using reapLoop_moves running result
  | kill pid =>
    cases stepped
    exact kill_moves t pid
  | reschedule p state =>
    obtain ⟨⟨before, after⟩, ⟨⟩⟩ := Option.ite_none_right_eq_some.mp stepped
    refine .of_set p ⟨iff_of_false ?_ ?_, rfl, rfl⟩ trivial
    · rintro rfl
      cases after
    · intro unused
      rw [unused] at before
      cases before

end Moves

/-- After `userinit`: the first process and its directory. -/
def Table.boot : Table where
  proc := fun i =>
    if i = initproc then
      { state := .runnable, pid := 1, parent := none, pgdir := some 0, isthread := false,
        killed := false }
    else
      { state := .unused, pid := 0, parent := none, pgdir := none, isthread := false,
        killed := false }
  nextpid := 2
  created := 1
  freed := fun _ => 0

end Xv6.Proc
