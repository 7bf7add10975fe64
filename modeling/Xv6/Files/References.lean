import Xv6.Files.Custody

/-! When no call is in progress, every reference count is the number of the references that the
tables show: slots of processes, current directories and open files.
-/

namespace Xv6.Files

open Lib Fs

variable {I : Prop} {s : State} {p : Fin nproc} {f : Fin nfile} {ip : Fin ninode}

namespace State

/-- The slots of live processes that point to a file. -/
def slotsOf (s : State) (f : Fin nfile) : Finset (Fin nproc × Fin nofile) :=
  {x | (s.proc x.1).state = .live ∧ (s.proc x.1).ofile x.2 = some f}

/-- The open files of type `FD_INODE` that refer to an entry of the inode cache. -/
def filesOf (s : State) (ip : Fin ninode) : Finset (Fin nfile) :=
  {f | 0 < (s.file f).ref ∧ (s.file f).type = .inode ip}

/-- The live processes whose current directory is an entry of the inode cache. -/
def dirsOf (s : State) (ip : Fin ninode) : Finset (Fin nproc) :=
  {p | (s.proc p).state = .live ∧ (s.proc p).cwd = some ip}

end State

section Counting

variable {ι β : Type} [Fintype ι] [DecidableEq β]

omit [DecidableEq β] in
/-- What tokens that are shared out say together. -/
theorem bind_total (has : ι → Multiset Token) (part : Token → Multiset β)
    : (∑ i, has i).bind part = ∑ i, (has i).bind part := by
  let toPart : Multiset Token →+ Multiset β :=
    { toFun := fun tokens => tokens.bind part
      map_zero' := Multiset.zero_bind part
      map_add' := fun g h => Multiset.add_bind g h part }
  exact map_sum toPart has Finset.univ

theorem count_total (has : ι → Multiset Token) (part : Token → Multiset β) (b : β)
    : ((∑ i, has i).bind part).count b = ∑ i, ((has i).bind part).count b := by
  rw [bind_total, Multiset.count_sum']

theorem opened_inode (ip : Fin ninode) : opened s.file (.inode ip) = (s.filesOf ip).card := by
  have same : ∀ f, (s.file f).kind = .inode ip ↔ (s.file f).type = .inode ip := fun f => by
    unfold File.kind
    cases (s.file f).type <;> simp
  simp only [opened_eq_card, State.filesOf, same]

/-- The references of the slots of a process to a file. -/
theorem count_slots (o : Fin nofile → Option (Fin nfile)) (kinds : Fin nofile → Kind)
    : ((slots o kinds).bind fun t => t.handles.map Prod.fst).count f
      = ∑ fd, if o fd = some f then 1 else 0 := by
  unfold slots
  rw [count_total]
  refine Finset.sum_congr rfl fun fd _ => ?_
  cases o fd with
  | none => simp
  | some g => simp [Multiset.count_singleton, eq_comm]

omit [DecidableEq β] [Fintype ι] in
theorem slots_bind {o : Fin nofile → Option (Fin nfile)} {kinds : Fin nofile → Kind}
    (part : Token → Multiset β) (silent : ∀ f k, part (.file f k) = 0)
    : (slots o kinds).bind part = 0 := by
  refine Multiset.eq_zero_of_forall_notMem fun b mem => ?_
  obtain ⟨t, mem, inside⟩ := Multiset.mem_bind.mp mem
  obtain ⟨f, k, rfl⟩ := mem_slots mem
  rw [silent] at inside
  exact Multiset.notMem_zero b inside

/-- Slots say nothing but which files they refer to. -/
@[simp] theorem slots_silent (o : Fin nofile → Option (Fin nfile)) (kinds : Fin nofile → Kind)
    : (slots o kinds).bind Token.mes = 0 ∧ (slots o kinds).bind Token.refs = 0
      ∧ (slots o kinds).bind Token.views = 0 ∧ (slots o kinds).bind Token.ops = 0 :=
  ⟨slots_bind _ fun _ _ => rfl, slots_bind _ fun _ _ => rfl, slots_bind _ fun _ _ => rfl,
    slots_bind _ fun _ _ => rfl⟩

end Counting

section Resting

variable {has : Fin nproc → Multiset Token}

/-- What a process has when no call is in progress, if it runs at all. -/
def Resting (p : Fin nproc) (tokens : Multiset Token) : Prop :=
  tokens = 0 ∨ ∃ own, Idle p own ∧ tokens = {.me p} + own

theorem resting_of_quiet {c : Config} {tokens : Multiset Token} (quiet : c.Quiet)
    (own : (protocol I).Has p (c.pool p) tokens)
    : Resting p tokens := by
  cases pooled : c.pool p with
  | none =>
    rw [pooled] at own
    exact .inl own
  | some script =>
    rw [pooled, quiet p script pooled] at own
    obtain ⟨own, same, idle⟩ := own
    exact .inr ⟨own, idle, same⟩

/-- A process that rests has its table, and references for its slots and its directory; the process
table says which. Others have nothing.
-/
theorem Inv.resting (inv : Inv I s (∑ q, has q)) (rest : ∀ q, Resting q (has q)) (p : Fin nproc)
    : (s.proc p).state ≠ .live ∧ has p = 0
      ∨ (s.proc p).state = .live ∧ ∃ cwd kinds, (s.proc p).cwd = some cwd
        ∧ has p = {.me p} + ({.table p (s.proc p).ofile (some cwd)} + {.ref cwd}
          + slots (s.proc p).ofile kinds) := by
  have others : ∀ q, q ≠ p → ((has q).bind Token.mes).count p = 0 := by
    intro q other
    rcases rest q with none | ⟨own, ⟨o, cwd, kinds, _, rfl⟩, same⟩
    · simp [none]
    · simp [same, other.symm]
  have live := inv.procs.live p
  rw [count_total, Finset.sum_eq_single p (fun q _ => others q) (by simp)] at live
  rcases rest p with none | ⟨own, ⟨o, cwd, kinds, _, rfl⟩, same⟩
  · refine .inl ⟨fun isLive => ?_, none⟩
    simp [none, isLive] at live
  · right
    have isLive : (s.proc p).state = .live := by
      by_contra dead
      simp [same, dead] at live
    have table : Token.table p o (some cwd) ∈ ∑ q, has q :=
      mem_tokens.mpr ⟨p, by simp [same]⟩
    obtain ⟨ofile, here⟩ := inv.procs.table p o (some cwd)
      (Multiset.mem_bind.mpr ⟨_, table, by simp⟩)
    exact ⟨isLive, cwd, kinds, here, by rw [ofile, same]⟩

variable (inv : Inv I s (∑ q, has q)) (rest : ∀ q, Resting q (has q))

include inv rest

theorem Inv.file_ref (f : Fin nfile) : (s.file f).ref = (s.slotsOf f).card := by
  rw [inv.files.count f, Multiset.map_bind, count_total, State.slotsOf, Finset.card_filter,
    Fintype.sum_prod_type]
  refine Finset.sum_congr rfl fun p _ => ?_
  rcases inv.resting rest p with ⟨dead, none⟩ | ⟨live, cwd, kinds, _, same⟩
  · simp [dead, none]
  · simp only [same, live, true_and, ← count_slots _ kinds]
    simp

theorem Inv.inode_ref (ip : Fin ninode)
    : (s.inode ip).ref = (s.filesOf ip).card + (s.dirsOf ip).card := by
  rw [inv.cache.count ip, opened_inode, Nat.add_comm, count_total, State.dirsOf, Finset.card_filter]
  refine congrArg _ (Finset.sum_congr rfl fun p _ => ?_)
  rcases inv.resting rest p with ⟨dead, none⟩ | ⟨live, cwd, kinds, here, same⟩
  · simp [dead, none]
  · simp [same, live, here, Multiset.count_singleton, eq_comm]

theorem Inv.none_locked : (∑ q, has q).bind Token.views = 0 := by
  rw [bind_total]
  refine Finset.sum_eq_zero fun p _ => ?_
  rcases inv.resting rest p with ⟨_, none⟩ | ⟨_, cwd, kinds, _, same⟩
  · simp [none]
  · simp [same]

theorem Inv.none_outstanding : (∑ q, has q).bind Token.ops = 0 := by
  rw [bind_total]
  refine Finset.sum_eq_zero fun p _ => ?_
  rcases inv.resting rest p with ⟨_, none⟩ | ⟨_, cwd, kinds, _, same⟩
  · simp [none]
  · simp [same]

end Resting

/-- The reference counts are exact, no inode is locked and no transaction is open. -/
structure State.Settled (s : State) : Prop where
  file : ∀ f, (s.file f).ref = (s.slotsOf f).card
  inode : ∀ ip, (s.inode ip).ref = (s.filesOf ip).card + (s.dirsOf ip).card
  unique : ∀ ip jp, 0 < (s.inode ip).ref → 0 < (s.inode jp).ref
    → (s.inode ip).dev = (s.inode jp).dev → (s.inode ip).inum = (s.inode jp).inum → ip = jp
  unlocked : ∀ ip, (s.inode ip).locked = false
  outstanding : s.outstanding = 0

/-- In every run of the calls by any processes, when no call is in progress, each file has as many
references as slots of live processes point to it, and each entry of the inode cache as many as
open files and current directories of live processes. There is one entry for each inode in use, no
inode is locked, and no transaction is open.
-/
theorem references_exact {ninodes : Nat} {dinode : Nat → Nat → Dinode} {labels : List Label}
    {c : Config} (reached : run kernel.step labels (boot ninodes dinode) = some c)
    (quiet : c.Quiet)
    : c.shared.Settled := by
  obtain ⟨has, inv, each⟩ := custody (I := False) nofun reached
  have rest : ∀ q, Resting q (has q) := fun q => resting_of_quiet quiet (each q)
  refine ⟨inv.file_ref rest, inv.inode_ref rest, ?_, fun ip => ?_, ?_⟩
  · exact fun ip jp used used' dev inum => inv.cache.unique ip jp used used' ⟨dev, inum⟩
  · have lock := inv.cache.lock ip
    rw [inv.none_locked rest] at lock
    cases locked : (c.shared.inode ip).locked with
    | false => rfl
    | true => simp [locked] at lock
  · rw [inv.log, inv.none_outstanding rest, Multiset.card_zero]

/-- `initproc` has made a pipe and a child that shares its ends. -/
theorem references_exact_pipe_fork
    : ∃ c, run kernel.step (solo (.pipe true) 6 ++ solo .fork 27) (boot 200 rootOnly) = some c
        ∧ (c.shared.file 0).ref = 2 ∧ c.Quiet ∧ c.shared.Settled := by
  obtain ⟨c, reached, ref, done⟩ :
      ∃ c ∈ run kernel.step (solo (.pipe true) 6 ++ solo .fork 27) (boot 200 rootOnly),
        (c.shared.file 0).ref = 2 ∧ ∀ p, (c.pool p).all Script.isDone = true := by
    decide +kernel
  have quiet : c.Quiet := fun p script pooled => by
    have := done p
    rw [pooled] at this
    exact Script.isDone_iff.mp this
  exact ⟨c, reached, ref, quiet, references_exact reached quiet⟩

end Xv6.Files
