import Xv6.Syscall.Args
import Xv6.Proc.Table

/-! The five system calls that store through user pointers, and which of them keep their
stores inside the caller's memory. `sys_getptable`, `sys_wait2` and `sys_pipe` take their
pointers with `argptr`, `sys_clone` and `sys_join` with `argint`.
-/

namespace Xv6.Syscall

open Xv6.Lib

variable {c : Caller} {store : Store}

/-- The fields of a process-table slot that `getptable` reports. -/
structure Entry where
  state : Proc.ProcState
  pid : Int32
  parentPid : Option Int32
  priority : Int32
  sz : UInt32
  name : List UInt8

def stateCode : Proc.ProcState → UInt32
  | .unused => 0
  | .embryo => 1
  | .sleeping => 2
  | .runnable => 3
  | .running => 4
  | .zombie => 5

/-- `safestrcpy` into a cleared buffer of `n` bytes. -/
def safestrcpy (t : List UInt8) (n : Nat) : List UInt8 :=
  let s := (t.takeWhile (· ≠ 0)).take (n - 1)
  s ++ List.replicate (n - s.length) 0

/-- The `struct proc_info` of a slot, 36 bytes. -/
def Entry.info (e : Entry) : List UInt8 :=
  if e.state = .unused then List.replicate 36 0
  else
    Bytes.ofWord e.pid.toUInt32 ++ Bytes.ofWord (e.parentPid.getD (-1)).toUInt32
      ++ Bytes.ofWord e.priority.toUInt32 ++ Bytes.ofWord e.sz
      ++ Bytes.ofWord (stateCode e.state) ++ safestrcpy e.name 16

/-- The loop of `getptable`, with the address of the next record. -/
def copyTable (c : Caller) (va : UInt32) : List Entry → Outcome
  | [] => { ret := 0, stores := [] }
  | e :: rest =>
      let copied := copyout c va e.info
      if copied.1 then
        let later := copyTable c (va + 36) rest
        { later with stores := copied.2 ++ later.stores }
      else { ret := -1, stores := copied.2 }

/-- `getptable`; `NPROC * sizeof(struct proc_info)` is 2304, and the comparison with it is
unsigned.
-/
def getptable (c : Caller) (ubuf size : UInt32) (table : Fin nproc → Entry) : Outcome :=
  if size < 2304 then .failed else copyTable c ubuf (List.ofFn table)

def sysGetptable (c : Caller) (table : Fin nproc → Entry) : Outcome :=
  match argptr c 0 2304, argint c 1 with
  | some buf, some size => getptable c buf size table
  | _, _ => .failed

/-- A zombie child with the times that `wait2` reports. -/
structure Reaped where
  pid : Int32
  retime : UInt32
  rutime : UInt32
  stime : UInt32

/-- `sys_wait2`, with the child its `wait2` finally reaps, if any. -/
def sysWait2 (c : Caller) (child : Option Reaped) : Outcome :=
  match argptr c 0 4, argptr c 1 4, argptr c 2 4, child with
  | some retime, some rutime, some stime, some p =>
      { ret := p.pid
        stores := storeWord retime p.retime ++ storeWord rutime p.rutime
          ++ storeWord stime p.stime }
  | _, _, _, _ => .failed

/-- `sys_pipe`, with the descriptors that `pipealloc` and `fdalloc` provide, if they do. -/
def sysPipe (c : Caller) (fds : Option (UInt32 × UInt32)) : Outcome :=
  match argptr c 0 8, fds with
  | some fd, some (fd0, fd1) =>
      { ret := 0, stores := storeWord fd fd0 ++ storeWord (fd + 4) fd1 }
  | _, _ => .failed

/-- The stores of `clone`: a fake return PC and the argument on the new stack. -/
def clone (arg stack : UInt32) (pid : Int32) : Outcome where
  ret := pid
  stores := storeWord (stack + 4096 - 2 * 4) 0xffffffff ++ storeWord (stack + 4096 - 4) arg

/-- `sys_clone`, with the pid of the slot that `allocproc` finds, if it does. -/
def sysClone (c : Caller) (np : Option Int32) : Outcome :=
  match argint c 0, argint c 1, argint c 2, np with
  | some _, some arg, some stack, some pid => clone arg stack pid
  | _, _, _, _ => .failed

/-- `sys_join`, with the pid and the stack of the thread its `join` reaps, if any. -/
def sysJoin (c : Caller) (thread : Option (Int32 × UInt32)) : Outcome :=
  match argint c 0, thread with
  | some stack, some (pid, value) => { ret := pid, stores := storeWord stack value }
  | _, _ => .failed

/-- A call with what the rest of the kernel contributes to it. -/
inductive Call where
  | getptable (table : Fin nproc → Entry)
  | wait2 (child : Option Reaped)
  | pipe (fds : Option (UInt32 × UInt32))
  | clone (np : Option Int32)
  | join (thread : Option (Int32 × UInt32))

variable {call : Call}

def Call.outcome (c : Caller) : Call → Outcome
  | .getptable table => sysGetptable c table
  | .wait2 child => sysWait2 c child
  | .pipe fds => sysPipe c fds
  | .clone np => sysClone c np
  | .join thread => sysJoin c thread

/-- The addresses a call is asked to store to, when its arguments can be fetched. -/
def Call.destination (c : Caller) : Call → Option (List UInt32)
  | .getptable _ => (argint c 0).map (span · 2304)
  | .wait2 _ =>
      match argint c 0, argint c 1, argint c 2 with
      | some retime, some rutime, some stime =>
          some (span retime 4 ++ span rutime 4 ++ span stime 4)
      | _, _, _ => none
  | .pipe _ => (argint c 0).map (span · 8)
  | .clone _ =>
      match argint c 0, argint c 1, argint c 2 with
      | some _, some _, some stack => some (span (stack + 4088) 8)
      | _, _, _ => none
  | .join _ => (argint c 0).map (span · 4)

/-- The destination of a call lies below the caller's `sz`. -/
def Call.Fits (c : Caller) (call : Call) : Prop :=
  ∃ dest, call.destination c = some dest ∧ ∀ a ∈ dest, a < c.sz

/-- All stores lie below `sz`, and a destination that does not fit makes the call fail
before it stores anything.
-/
def Confined (c : Caller) (call : Call) : Prop :=
  (∀ store ∈ (call.outcome c).stores, store.1 < c.sz)
  ∧ (¬call.Fits c → call.outcome c = .failed)

/-- A `clone` that gets a slot and a `join` that reaps a thread have a destination that
fits, or an argument that cannot be fetched.
-/
def Call.Careful (c : Caller) : Call → Prop
  | .clone (some pid) =>
      (Call.clone (some pid)).destination c ≠ none → (Call.clone (some pid)).Fits c
  | .join (some thread) =>
      (Call.join (some thread)).destination c ≠ none → (Call.join (some thread)).Fits c
  | _ => True

theorem confined_of_within (fits : call.Fits c)
    (within
      : ∀ dest, call.destination c = some dest
        → ∀ store ∈ (call.outcome c).stores, store.1 ∈ dest)
    : Confined c call := by
  obtain ⟨dest, found, below⟩ := fits
  refine ⟨fun store member => below _ (within dest found store member), fun misfit => ?_⟩
  exact absurd ⟨dest, found, below⟩ misfit

theorem confined_of_failed (failed : call.outcome c = .failed)
    : Confined c call := by
  refine ⟨?_, fun _ => failed⟩
  rw [failed]
  simp [Outcome.failed]

theorem length_safestrcpy (t : List UInt8) {n : Nat} (room : 0 < n)
    : (safestrcpy t n).length = n := by
  simp only [safestrcpy, List.length_append, List.length_replicate, List.length_take]
  omega

theorem Entry.length_info (e : Entry) : e.info.length = 36 := by
  unfold info
  split
  · simp
  · simp [length_safestrcpy]

/-- The records of the table go to consecutive addresses. -/
theorem copyTable_within (c : Caller) (va : UInt32) (table : List Entry)
    (member : store ∈ (copyTable c va table).stores)
    : store.1 ∈ span va (36 * table.length) := by
  induction table generalizing va with
  | nil => simp [copyTable] at member
  | cons e rest ih =>
    have here (first : store ∈ (copyout c va e.info).2)
        : store.1 ∈ span va (36 * (e :: rest).length) := by
      refine span_mono ?_ (copyout_within c va e.info first)
      rw [e.length_info, List.length_cons]
      omega
    simp only [copyTable] at member
    split at member
    · rcases List.mem_append.mp member with first | later
      · exact here first
      · have shifted := span_shift (m := 36) rfl (ih (va + 36) later)
        rwa [List.length_cons, Nat.mul_succ, Nat.add_comm]
    · exact here member

theorem getptable_confined (user : c.sz ≤ kernbase) (table : Fin nproc → Entry)
    : Confined c (.getptable table) := by
  cases accepted : argptr c 0 2304 with
  | none => exact confined_of_failed (by simp only [Call.outcome, sysGetptable, accepted])
  | some buf =>
    obtain ⟨fetched, below⟩ := argptr_fits user accepted
    cases sized : argint c 1 with
    | none => exact confined_of_failed (by simp only [Call.outcome, sysGetptable, accepted, sized])
    | some size =>
      by_cases small : size < 2304
      · exact confined_of_failed
          (by simp only [Call.outcome, sysGetptable, accepted, sized, getptable, small, if_true])
      · refine confined_of_within ⟨span buf 2304, by simp [Call.destination, fetched], below⟩ ?_
        intro dest found store member
        simp only [Call.destination, fetched, Option.map_some, Option.some.injEq] at found
        simp only [Call.outcome, sysGetptable, accepted, sized, getptable, small,
          if_false] at member
        have inside := copyTable_within c buf _ member
        rw [List.length_ofFn] at inside
        exact found ▸ inside

theorem wait2_confined (user : c.sz ≤ kernbase) (child : Option Reaped)
    : Confined c (.wait2 child) := by
  cases first : argptr c 0 4 with
  | none => exact confined_of_failed (by simp [Call.outcome, sysWait2, first])
  | some retime =>
  cases second : argptr c 1 4 with
  | none => exact confined_of_failed (by simp [Call.outcome, sysWait2, first, second])
  | some rutime =>
  cases third : argptr c 2 4 with
  | none => exact confined_of_failed (by simp [Call.outcome, sysWait2, first, second, third])
  | some stime =>
  cases child with
  | none => exact confined_of_failed (by simp [Call.outcome, sysWait2])
  | some p =>
    obtain ⟨fetched0, below0⟩ := argptr_fits user first
    obtain ⟨fetched1, below1⟩ := argptr_fits user second
    obtain ⟨fetched2, below2⟩ := argptr_fits user third
    refine confined_of_within
      ⟨_, by simp only [Call.destination, fetched0, fetched1, fetched2]; rfl, ?_⟩ ?_
    · intro a member
      rcases List.mem_append.mp member with member | member
      · rcases List.mem_append.mp member with member | member
        · exact below0 a member
        · exact below1 a member
      · exact below2 a member
    · intro dest found store member
      simp only [Call.destination, fetched0, fetched1, fetched2, Option.some.injEq] at found
      simp only [Call.outcome, sysWait2, first, second, third] at member
      rw [← found]
      rcases List.mem_append.mp member with member | member
      · rcases List.mem_append.mp member with member | member
        · exact List.mem_append_left _ (List.mem_append_left _ (mem_storeWord member))
        · exact List.mem_append_left _ (List.mem_append_right _ (mem_storeWord member))
      · exact List.mem_append_right _ (mem_storeWord member)

/-- Two adjacent words fill eight bytes. -/
theorem mem_storeWords {addr low high : UInt32}
    (member : store ∈ storeWord addr low ++ storeWord (addr + 4) high)
    : store.1 ∈ span addr 8 := by
  rcases List.mem_append.mp member with first | second
  · exact span_mono (by omega) (mem_storeWord first)
  · exact span_shift (m := 4) rfl (mem_storeWord second)

theorem pipe_confined (user : c.sz ≤ kernbase) (fds : Option (UInt32 × UInt32))
    : Confined c (.pipe fds) := by
  cases accepted : argptr c 0 8 with
  | none => exact confined_of_failed (by simp [Call.outcome, sysPipe, accepted])
  | some fd =>
    obtain ⟨fetched, below⟩ := argptr_fits user accepted
    cases fds with
    | none => exact confined_of_failed (by simp [Call.outcome, sysPipe])
    | some pair =>
      refine confined_of_within ⟨span fd 8, by simp [Call.destination, fetched], below⟩ ?_
      intro dest found store member
      simp only [Call.destination, fetched, Option.map_some, Option.some.injEq] at found
      simp only [Call.outcome, sysPipe, accepted] at member
      exact found ▸ mem_storeWords member

/-- A call that stores within its destination as soon as it can fetch its arguments is
confined exactly when the destination fits.
-/
theorem confined_iff_of_unchecked (unfetched : call.destination c = none → call.outcome c = .failed)
    (stored : call.destination c ≠ none → (call.outcome c).stores ≠ [])
    (within
      : ∀ dest, call.destination c = some dest
        → ∀ store ∈ (call.outcome c).stores, store.1 ∈ dest)
    : Confined c call ↔ (call.destination c ≠ none → call.Fits c) := by
  constructor
  · intro confined fetched
    by_contra misfit
    exact stored fetched (congrArg Outcome.stores (confined.2 misfit))
  · intro fits
    cases found : call.destination c with
    | none => exact confined_of_failed (unfetched found)
    | some dest => exact confined_of_within (fits (by simp [found])) within

theorem storeWord_ne_nil (addr w : UInt32) : storeWord addr w ≠ [] := by
  simp [storeWord, storeBytes, Bytes.ofWord]

theorem join_confined_iff (c : Caller) (thread : Int32 × UInt32)
    : Confined c (.join (some thread)) ↔ (Call.join (some thread)).Careful c := by
  cases fetched : argint c 0 with
  | none =>
    refine confined_iff_of_unchecked ?_ ?_ ?_ <;>
      simp [Call.destination, Call.outcome, sysJoin, fetched]
  | some stack =>
    refine confined_iff_of_unchecked ?_ ?_ ?_
    · simp [Call.destination, fetched]
    · simp [Call.outcome, sysJoin, fetched, storeWord_ne_nil]
    · intro dest found store member
      simp only [Call.destination, fetched, Option.map_some, Option.some.injEq] at found
      simp only [Call.outcome, sysJoin, fetched] at member
      exact found ▸ mem_storeWord member

theorem clone_confined_iff (c : Caller) (pid : Int32)
    : Confined c (.clone (some pid)) ↔ (Call.clone (some pid)).Careful c := by
  by_cases fetched : ∃ func arg stack,
      argint c 0 = some func ∧ argint c 1 = some arg ∧ argint c 2 = some stack
  · obtain ⟨func, arg, stack, first, second, third⟩ := fetched
    have low : stack + 4096 - 2 * 4 = stack + 4088 := by grind
    have high : stack + 4096 - 4 = stack + 4088 + 4 := by grind
    refine confined_iff_of_unchecked ?_ ?_ ?_
    · simp [Call.destination, first, second, third]
    · simp [Call.outcome, sysClone, first, second, third, clone, storeWord_ne_nil]
    · intro dest found store member
      simp only [Call.destination, first, second, third, Option.some.injEq] at found
      simp only [Call.outcome, sysClone, first, second, third, clone, low, high] at member
      exact found ▸ mem_storeWords member
  · have missing : (Call.clone (some pid)).destination c = none := by
      simp only [Call.destination]
      split
      · exact absurd ⟨_, _, _, ‹_›, ‹_›, ‹_›⟩ fetched
      · rfl
    have failed : (Call.clone (some pid)).outcome c = .failed := by
      simp only [Call.outcome, sysClone]
      split
      · exact absurd ⟨_, _, _, ‹_›, ‹_›, ‹_›⟩ fetched
      · rfl
    exact iff_of_true (confined_of_failed failed) fun asked => absurd missing asked

/-- A call keeps its stores inside the caller's memory exactly when it is not a `clone` or
`join` that goes through with a destination outside.
-/
theorem confined_iff_careful (c : Caller) (user : c.sz ≤ kernbase) (call : Call)
    : Confined c call ↔ call.Careful c := by
  cases call with
  | getptable table => exact iff_of_true (getptable_confined user table) trivial
  | wait2 child => exact iff_of_true (wait2_confined user child) trivial
  | pipe fds => exact iff_of_true (pipe_confined user fds) trivial
  | clone np =>
      cases np with
      | none => exact iff_of_true (confined_of_failed (by simp [Call.outcome, sysClone])) trivial
      | some pid =>
          exact clone_confined_iff c pid
  | join thread =>
      cases thread with
      | none => exact iff_of_true (confined_of_failed (by simp [Call.outcome, sysJoin])) trivial
      | some pair =>
          exact join_confined_iff c pair

/-- A process of two pages that passes the word `w` for each of its arguments. -/
def passing (w : UInt32) : Caller where
  sz := 8192
  esp := 0
  memory := fun a => (Bytes.ofWord w).getD (a.toNat % 4) 0
  userPage := fun _ => true

/-- A thread on the second page gets its two words there. -/
theorem clone_confined_secondPage
    : (passing 4096).sz ≤ kernbase ∧ Confined (passing 4096) (.clone (some 7)) := by
  have below : (span (4096 + 4088) 8).all (· < (passing 4096).sz) = true := by decide
  refine ⟨by decide, (confined_iff_careful _ (by decide) _).mpr fun _ => ?_⟩
  refine ⟨span (4096 + 4088) 8, rfl, fun a member => ?_⟩
  exact of_decide_eq_true (List.all_eq_true.mp below a member)

/-- `clone` and `join` store to a writable kernel address that the caller passes. -/
theorem kernelAddress_not_confined
    : (passing 0x80400000).sz ≤ kernbase
      ∧ ¬Confined (passing 0x80400000) (.clone (some 7))
      ∧ ¬Confined (passing 0x80400000) (.join (some (7, 0))) := by
  refine ⟨by decide, fun confined => ?_, fun confined => ?_⟩
  · have stored := confined.1 (0x80400ff8, 0xff) (by decide)
    exact absurd stored (by decide)
  · have stored := confined.1 (0x80400000, 0) (by decide)
    exact absurd stored (by decide)

end Xv6.Syscall
