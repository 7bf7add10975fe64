import Xv6.Files.Invariant

/-! Every operation keeps the tables in agreement with the tokens. `inv_iff` takes the
invariant apart, so that each proof changes only the tables its operation writes. -/

namespace Xv6.Files

open Lib Fs
open Multiset (add_bind count_add count_singleton count_cons_self)

variable {I : Prop} {s s' : State} {kept : Multiset Token} {ip : Fin ninode} {f : Fin nfile}
  {k : Kind} {p : Fin nproc} {v : View} {via : Option (Fin nfile)}

section Inodes

theorem Inv.iget {dev inum : Nat} (inv : Inv I s kept) (ran : s.iget dev inum = some (ip, s'))
    : Inv I s' ({.ref ip} + kept) := by
  unfold State.iget at ran
  split at ran
  · rename_i ip' found
    cases ran
    have key := List.find?_some found
    simp only [decide_eq_true_eq] at key
    simp [inv_iff] at inv ⊢
    obtain ⟨files, cache, pipes, procs, log⟩ := inv
    refine ⟨files, cache.recount _ _ key.1 ?_ fun jp ne => by simp [ne], pipes, procs, log⟩
    rw [count_cons_self, cache.count ip]
    omega
  · rename_i absent
    split at ran
    · rename_i ip' found
      cases ran
      have unused := List.find?_some found
      simp only [decide_eq_true_eq] at unused
      have unlocked := inv.unlocked_of_unused unused
      simp [inv_iff] at inv ⊢
      obtain ⟨files, cache, pipes, procs, log⟩ := inv
      exact ⟨files, cache.recycle unused unlocked fun jp used key =>
        List.find?_eq_none.mp absent jp (List.mem_finRange jp) (by simpa using ⟨used, key⟩),
        pipes, procs, log⟩
    · cases ran

theorem Inv.idup (inv : Inv I s ({.ref ip} + kept))
    : Inv I (s.setInode ip { s.inode ip with ref := (s.inode ip).ref + 1 })
        ({.ref ip} + {.ref ip} + kept) := by
  have used : 0 < (s.inode ip).ref := inv.used_of_ref (by simp)
  simp [inv_iff] at inv ⊢
  obtain ⟨files, cache, pipes, procs, log⟩ := inv
  refine ⟨files, cache.recount _ _ used ?_ fun jp ne => by simp [ne], pipes, procs, log⟩
  have count := cache.count ip
  simp only [count_cons_self] at count ⊢
  omega

theorem Inv.dropRef (inv : Inv I s ({.ref ip} + kept))
    : Inv I (s.setInode ip { s.inode ip with ref := (s.inode ip).ref - 1 }) kept := by
  have used : 0 < (s.inode ip).ref := inv.used_of_ref (by simp)
  simp [inv_iff] at inv ⊢
  obtain ⟨files, cache, pipes, procs, log⟩ := inv
  refine ⟨files, cache.recount _ _ used ?_ fun jp ne => by simp [ne], pipes, procs, log⟩
  have count := cache.count ip
  simp only [count_cons_self] at count
  omega

theorem Inv.acquiresleep (inv : Inv I s ({carrier ip via} + kept))
    (unlocked : (s.inode ip).locked = false)
    : ∃ v : View, v.Clean I
        ∧ Inv I (s.setInode ip { s.inode ip with locked := true })
            ({.locked ip v via} + kept) := by
  classical
  have mem : carrier ip via ∈ {carrier ip via} + kept := by simp
  have used := inv.used_of_carrier mem
  have synced := fun i => inv.cache.sync i ip used unlocked
  let v : View :=
    ⟨(s.inode ip).valid, (s.inode ip).copy, decide (I ∧ (s.inode ip).valid = true)⟩
  refine ⟨v, fun valid i => ?_, ?_⟩
  · obtain ⟨same, type⟩ := synced i valid
    refine ⟨decide_eq_true ⟨i, valid⟩, type, ?_⟩
    have whole := inv.cache.whole i (s.inode ip).dev (s.inode ip).inum
    rwa [same] at whole
  · have cache := inv.cache.acquire (w := v) used unlocked
      ⟨rfl, rfl, fun known => synced (of_decide_eq_true known).1 (of_decide_eq_true known).2⟩
    cases via
    all_goals
      simp [inv_iff, carrier] at inv cache ⊢
      exact ⟨inv.1, cache, inv.2.2⟩

section

variable (inv : Inv I s ({.locked ip v via} + kept))
include inv

theorem Inv.locked
    : 0 < (s.inode ip).ref
      ∧ CacheInv I s.inode s.dinode (fun ip => opened s.file (.inode ip))
          ((Token.locked ip v via).refs + kept.bind Token.refs)
          ({(ip, v)} + kept.bind Token.views) :=
  ⟨inv.used_of_view (v := v) (by simp), by simpa using inv.cache⟩

theorem Inv.releasesleep (clean : v.Clean I)
    : Inv I (s.setInode ip { s.inode ip with locked := false }) ({carrier ip via} + kept) := by
  obtain ⟨used, held⟩ := inv.locked
  have cache := held.release used clean
  cases via
  all_goals
    simp [inv_iff, carrier] at inv cache ⊢
    exact ⟨inv.1, cache, inv.2.2⟩

/-- What the lock holder knows. -/
theorem Inv.viewed
    : v.Matches (s.inode ip) (s.onDisk ip) :=
  inv.cache.view ip v (by simp)

/-- The lock holder changes the entry. -/
theorem Inv.change {w : View} (synced : w.synced = true → s.onDisk ip = w.copy ∧ w.copy.type ≠ 0)
    : Inv I (s.setInode ip { s.inode ip with valid := w.valid, copy := w.copy })
        ({.locked ip w via} + kept) := by
  obtain ⟨used, held⟩ := inv.locked
  have cache := held.change used synced
  cases via
  all_goals
    simp [inv_iff] at inv cache ⊢
    exact ⟨inv.1, cache, inv.2.2⟩

theorem Inv.iupdate (whole : I → Whole v.copy)
    : Inv I (s.setDinode (s.inode ip).dev (s.inode ip).inum (s.inode ip).copy)
        ({.locked ip (v.sync v.copy) via} + kept) := by
  obtain ⟨used, held⟩ := inv.locked
  have cache := held.iupdate whole used fun jp w mem =>
    inv.used_of_view (v := w) (by simp [mem])
  cases via
  all_goals
    simp [inv_iff] at inv cache ⊢
    exact ⟨inv.1, cache, inv.2.2⟩

end

theorem whole_blank (type : Int16) : Whole (.blank type) := by
  intro _ bn below
  simp [Dinode.blank] at below

theorem Inv.tryAlloc {dev inum : Nat} {type : Int16} (inv : Inv I s kept)
    (free : (s.dinode dev inum).type = 0)
    : Inv I (s.setDinode dev inum (.blank type)) kept :=
  ⟨inv.files, inv.cache.alloc free (whole_blank type), inv.pipes, inv.procs, inv.log⟩

end Inodes

section OpenFiles

/-- The token is a reference to a file, to an inode or to the end of a pipe. -/
@[simp] def Token.isReference : Token → Prop
  | .file .. | .ref _ | .pend .. => True
  | _ => False

/-- A reference says nothing about the locks, pages, processes and transactions. -/
theorem Token.isReference.silent {t : Token} (isRef : t.isReference)
    : t.views = 0 ∧ (t.blanks = 0 ∧ t.pages = 0) ∧ t.mes = 0 ∧ t.embryos = 0 ∧ t.tables = 0
      ∧ t.ops = 0 := by
  cases t with
  | file | ref | pend => exact ⟨rfl, ⟨rfl, rfl⟩, rfl, rfl, rfl, rfl⟩
  | _ => exact isRef.elim

theorem bind_references {β : Type} {tokens : Multiset Token} {part : Token → Multiset β}
    (references : ∀ t ∈ tokens, t.isReference) (empty : ∀ t : Token, t.isReference → part t = 0)
    : tokens.bind part = 0 := by
  refine Multiset.eq_zero_of_forall_notMem fun b mem => ?_
  obtain ⟨t, mem, inside⟩ := Multiset.mem_bind.mp mem
  rw [empty t (references t mem)] at inside
  exact Multiset.notMem_zero b inside

/-- The files change, and the references they keep go to processes or come from them. -/
theorem Inv.setFiles {file : Fin nfile → File} {taken got : Multiset Token}
    (inv : Inv I s (taken + kept)) (references : ∀ t ∈ taken + got, t.isReference)
    (files : FileInv file (got.bind Token.handles + kept.bind Token.handles))
    (refs : ∀ ip, (got.bind Token.refs).count ip + opened file (.inode ip)
      = (taken.bind Token.refs).count ip + opened s.file (.inode ip))
    (ends : ∀ q w, (got.bind Token.ends).count (q, w) + opened file (.pipe q w)
      = (taken.bind Token.ends).count (q, w) + opened s.file (.pipe q w))
    : Inv I { s with file } (got + kept) := by
  have same : ∀ {β : Type} (part : Token → Multiset β), (∀ t : Token, t.isReference → part t = 0)
      → (got + kept).bind part = (taken + kept).bind part := by
    intro β part empty
    rw [add_bind, add_bind,
      bind_references (fun t mem => references t (Multiset.mem_add.mpr (.inl mem))) empty,
      bind_references (fun t mem => references t (Multiset.mem_add.mpr (.inr mem))) empty]
  refine ⟨?_, ?_, ?_, ?_, ?_⟩
  · rw [add_bind]
    exact files
  · rw [same Token.views fun _ isRef => isRef.silent.1]
    refine inv.cache.congr _ _ fun jp => ?_
    simp only [add_bind, count_add]
    have := refs jp
    omega
  · rw [same Token.blanks fun _ isRef => isRef.silent.2.1.1,
      same Token.pages fun _ isRef => isRef.silent.2.1.2]
    refine inv.pipes.congr _ _ fun q w => ?_
    simp only [add_bind, count_add]
    have := ends q w
    omega
  · rw [same Token.mes fun _ isRef => isRef.silent.2.2.1,
      same Token.embryos fun _ isRef => isRef.silent.2.2.2.1,
      same Token.tables fun _ isRef => isRef.silent.2.2.2.2.1]
    exact inv.procs
  · rw [same Token.ops fun _ isRef => isRef.silent.2.2.2.2.2]
    exact inv.log

theorem Inv.filealloc (inv : Inv I s kept) (free : (s.file f).ref = 0)
    : Inv I (s.setFile f { s.file f with ref := 1 }) ({.file f .none} + kept) := by
  obtain ⟨files, count⟩ := inv.files.alloc free
  have before : Inv I s (0 + kept) := by rwa [zero_add]
  refine before.setFiles (by simp) (by simpa using files) (fun ip => ?_) fun q w => ?_
  · simp [count]
  · simp [count]

theorem Inv.filedup (inv : Inv I s ({.file f k} + kept)) (made : k ≠ .none)
    : Inv I (s.setFile f { s.file f with ref := (s.file f).ref + 1 })
        ({.file f k} + {.file f k} + kept) := by
  have held : FileInv s.file ({(f, k)} + kept.bind Token.handles) := by simpa using inv.files
  obtain ⟨files, count⟩ := held.recount ((s.file f).ref + 1) ({(f, k)} + {(f, k)}) (by simp)
    (Nat.succ_pos _) (.inl made) (by rw [held.ref_pos.2]; simp; omega)
  refine inv.setFiles (by simp) (by simpa using files) (fun ip => ?_) fun q w => ?_
  · simp [count]
  · simp [count]

/-- The first section of `fileclose`. -/
theorem Inv.filedrop {last : Option File} (inv : Inv I s ({.file f k} + kept))
    (ran : s.filedrop f = some (last, s'))
    : last = none ∧ Inv I s' (0 + kept)
      ∨ ∃ ff, last = some ff ∧ ff.kind = k ∧ Inv I s' (payload k + kept) := by
  have held : FileInv s.file ({(f, k)} + kept.bind Token.handles) := by simpa using inv.files
  obtain ⟨kind, ref⟩ := held.ref_pos
  unfold State.filedrop at ran
  split at ran
  · cases ran
  · split at ran
    · rename_i more
      cases ran
      refine .inl ⟨rfl, ?_⟩
      have made : k ≠ .none := by
        rintro rfl
        have := held.single f (kind_eq_none.mp kind)
        omega
      obtain ⟨files, count⟩ := held.recount ((s.file f).ref - 1) 0 (by simp) (by omega)
        (.inl made) (by rw [ref]; simp)
      refine inv.setFiles (by simp) (by simpa using files) (fun ip => ?_) fun q w => ?_
      · simp [count]
      · simp [count]
    · rename_i less
      cases ran
      refine .inr ⟨s.file f, rfl, kind, ?_⟩
      obtain ⟨files, count⟩ := held.last (by omega)
      refine inv.setFiles ?_ ?_ (fun ip => ?_) fun q w => ?_
      · cases k <;> simp [payload]
      · cases k <;> simpa [payload] using files
      · rw [← count (.inode ip)]
        cases k <;> simp [payload, count_singleton, eq_comm, Nat.add_comm]
      · rw [← count (.pipe q w)]
        cases k <;> simp [payload, count_singleton, eq_comm, Nat.add_comm, and_comm]

theorem Inv.setInodeFile {readable writable : Bool}
    (inv : Inv I s ({.file f .none} + {.ref ip} + kept))
    : Inv I (s.setFile f { ref := (s.file f).ref, type := .inode ip, readable, writable })
        ({.file f (.inode ip)} + kept) := by
  have held : FileInv s.file ({(f, .none)} + kept.bind Token.handles) := by
    simpa using inv.files
  obtain ⟨files, count⟩ := held.install
    { ref := (s.file f).ref, type := .inode ip, readable, writable } rfl (by simp)
  refine inv.setFiles (by simp) (by simpa [File.kind] using files) (fun jp => ?_) fun q w => ?_
  · rw [count _ (by simp)]
    simp [File.kind, count_singleton, eq_comm, Nat.add_comm]
  · rw [count _ (by simp)]
    simp [File.kind]

end OpenFiles

section Pipes

variable {q : Nat} {w : Bool}

theorem Inv.kalloc (inv : Inv I s kept)
    : Inv I { s with made := s.made + 1 } ({.blank s.made} + kept) := by
  simp [inv_iff] at inv ⊢
  obtain ⟨files, cache, pipes, procs, log⟩ := inv
  exact ⟨files, cache, pipes.kalloc, procs, log⟩

theorem Inv.closeEnd (inv : Inv I s ({.pend q w} + kept))
    : Inv I (s.closeEnd q w).2
        ((if (s.closeEnd q w).1 then {.page q} else 0) + kept) := by
  simp [inv_iff] at inv
  obtain ⟨files, cache, pipes, procs, log⟩ := inv
  have pipes := pipes.close
  by_cases shut : ((s.pipe q).close w).isShut = true
  · rw [State.closeEnd, if_pos shut]
    rw [if_pos shut] at pipes
    simpa [inv_iff] using ⟨files, cache, pipes, procs, log⟩
  · rw [State.closeEnd, if_neg shut]
    rw [if_neg shut, zero_add] at pipes
    simpa [inv_iff] using ⟨files, cache, pipes, procs, log⟩

theorem Inv.kfree (inv : Inv I s ({.page q} + kept))
    : Inv I (s.setPipe q { s.pipe q with kfrees := (s.pipe q).kfrees + 1 }) (0 + kept) := by
  simp [inv_iff] at inv ⊢
  obtain ⟨files, cache, pipes, procs, log⟩ := inv
  exact ⟨files, cache, pipes.kfree, procs, log⟩

theorem Inv.initPipe {f0 f1 : Fin nfile} {input : Input}
    (inv : Inv I s ({.blank q} + {.file f0 .none} + {.file f1 .none} + kept))
    (ran : exec (.initPipe q f0 f1) input s = some ((), s'))
    : Inv I s' ({.file f0 (.pipe q false)} + {.file f1 (.pipe q true)} + kept) := by
  have held : FileInv s.file ({(f0, .none)} + ({(f1, .none)} + kept.bind Token.handles)) := by
    simpa using inv.files
  have ne : f1 ≠ f0 := by
    rintro rfl
    have single := held.single f1 (kind_eq_none.mp held.ref_pos.1)
    have ref := held.ref_pos.2
    simp at ref
    omega
  obtain ⟨files, count⟩ := held.install (.ofPipe (s.file f0).ref q false) rfl (by simp [File.ofPipe])
  rw [add_left_comm] at files
  obtain ⟨files', count'⟩ := files.install (.ofPipe (s.file f1).ref q true) (by simp [ne, File.ofPipe])
    (by simp [File.ofPipe])
  rw [add_left_comm] at files'
  have cache : CacheInv I s.inode s.dinode (fun ip => opened s.file (.inode ip))
      (kept.bind Token.refs) (kept.bind Token.views) := by
    simpa using inv.cache
  have pages : PipeInv s.pipe s.made (fun q w => opened s.file (.pipe q w))
      (kept.bind Token.ends) ({q} + kept.bind Token.blanks) (kept.bind Token.pages) := by
    simpa using inv.pipes
  simp only [exec, State.setPipe, State.setFile, Function.update_of_ne ne, Option.some.injEq,
    Prod.mk.injEq, true_and] at ran
  subst ran
  refine ⟨by simpa [File.ofPipe, File.kind] using files', ?_, ?_, by simpa using inv.procs,
    by simpa using inv.log⟩
  · have tied := cache.congr (fun ip => opened (Function.update
      (Function.update s.file f0 (.ofPipe (s.file f0).ref q false)) f1
      (.ofPipe (s.file f1).ref q true)) (.inode ip)) (kept.bind Token.refs) fun jp => ?_
    · simpa using tied
    · rw [count' _ (by simp), count _ (by simp)]
      simp [File.ofPipe, File.kind]
  · have tied := pages.init (fun r w => opened (Function.update
      (Function.update s.file f0 (.ofPipe (s.file f0).ref q false)) f1
      (.ofPipe (s.file f1).ref q true)) (.pipe r w)) fun r w => ?_
    · simpa using tied
    · rw [count' _ (by simp), count _ (by simp)]
      cases w <;> simp [File.ofPipe, File.kind, eq_comm]

end Pipes

section Processes

variable {o o' : Fin nofile → Option (Fin nfile)} {c c' : Option (Fin ninode)}

theorem Inv.setTable (inv : Inv I s ({.table p o c} + kept))
    : Inv I (s.setProc p { s.proc p with ofile := o', cwd := c' })
        ({.table p o' c'} + kept) := by
  simp [inv_iff] at inv ⊢
  obtain ⟨files, cache, pipes, procs, log⟩ := inv
  exact ⟨files, cache, pipes, procs.setTable, log⟩

/-- What a process knows of a table that it may use. -/
theorem Inv.tabled (inv : Inv I s ({.table p o c} + kept))
    : (s.proc p).ofile = o ∧ (s.proc p).cwd = c :=
  inv.procs.table p o c (by simp)

theorem Inv.allocproc (inv : Inv I s kept) (unused : (s.proc p).state = .unused)
    : Inv I (s.setProc p { s.proc p with state := .embryo })
        ({.embryo p} + {.table p (fun _ => none) none} + kept) := by
  simp [inv_iff] at inv ⊢
  obtain ⟨files, cache, pipes, procs, log⟩ := inv
  exact ⟨files, cache, pipes, procs.alloc unused, log⟩

theorem Inv.freeproc (inv : Inv I s ({.embryo p} + {.table p (fun _ => none) none} + kept))
    : Inv I (s.setProc p { s.proc p with state := .unused }) (0 + kept) := by
  simp [inv_iff] at inv ⊢
  obtain ⟨files, cache, pipes, procs, log⟩ := inv
  exact ⟨files, cache, pipes, procs.free, log⟩

theorem Inv.reap (inv : Inv I s kept) (zombie : (s.proc p).state = .zombie)
    : Inv I (s.setProc p { s.proc p with state := .unused }) kept :=
  ⟨inv.files, inv.cache, inv.pipes, inv.procs.reap zombie, inv.log⟩

theorem Inv.born (inv : Inv I s ({.embryo p} + kept))
    : Token.me p ∉ kept ∧ Inv I (s.born p) ({.me p} + kept) := by
  simp [inv_iff] at inv
  obtain ⟨files, cache, pipes, procs, log⟩ := inv
  obtain ⟨fresh, procs⟩ := procs.born
  refine ⟨fun mem => fresh (Multiset.mem_bind.mpr ⟨_, mem, by simp⟩), ?_⟩
  simpa [inv_iff] using ⟨files, cache, pipes, procs, log⟩

theorem Inv.dead (inv : Inv I s ({.me p} + {.table p (fun _ => none) none} + kept))
    : Inv I (s.dead p) kept := by
  simp [inv_iff] at inv ⊢
  obtain ⟨files, cache, pipes, procs, log⟩ := inv
  exact ⟨files, cache, pipes, procs.dead, log⟩

end Processes

theorem Inv.beginOp (inv : Inv I s kept)
    : Inv I { s with outstanding := s.outstanding + 1 } ({.op} + kept) := by
  simpa [inv_iff, Nat.add_comm] using inv

theorem Inv.endOp (inv : Inv I s ({.op} + kept))
    : Inv I { s with outstanding := s.outstanding - 1 } (0 + kept) := by
  simp [inv_iff] at inv ⊢
  obtain ⟨files, cache, pipes, procs, log⟩ := inv
  exact ⟨files, cache, pipes, procs, Nat.sub_eq_of_eq_add log⟩

/-- Every operation keeps the tables in agreement with the tokens. -/
theorem exec_obeys {o : Op} {taken : Multiset Token} {given : o.Res → Multiset Token → Prop}
    {input : Input} {r : o.Res} (spec : Spec I o taken given) (inv : Inv I s (taken + kept))
    (ran : exec o input s = some (r, s'))
    : ∃ got, given r got ∧ Inv I s' (got + kept) := by
  cases spec with
  | choose | getInode | ninodes =>
    cases ran
    exact ⟨0, rfl, inv⟩
  | data n =>
    simp only [exec] at ran
    split at ran
    · rename_i length
      cases ran
      exact ⟨0, ⟨length, rfl⟩, inv⟩
    · cases ran
  | panic => cases ran
  | getOfile p fd o c | getCwd p o c =>
    cases ran
    obtain ⟨rfl, rfl⟩ := inv.tabled
    exact ⟨_, ⟨rfl, rfl⟩, inv⟩
  | setOfile p fd f o c | setCwd p ip o c =>
    cases ran
    obtain ⟨rfl, rfl⟩ := inv.tabled
    exact ⟨_, rfl, inv.setTable⟩
  | fdalloc p f o c =>
    obtain ⟨rfl, rfl⟩ := inv.tabled
    simp only [exec] at ran
    split at ran
    · cases ran
      exact ⟨_, .inl ⟨rfl, rfl⟩, inv⟩
    · rename_i fd found
      cases ran
      exact ⟨_, .inr ⟨fd, rfl, by simpa using List.find?_some found, rfl⟩, inv.setTable⟩
  | allocproc =>
    rw [zero_add] at inv
    simp only [exec] at ran
    split at ran
    · cases ran
      exact ⟨0, .inl ⟨rfl, rfl⟩, by rwa [zero_add]⟩
    · rename_i p found
      cases ran
      exact ⟨_, .inr ⟨p, rfl, rfl⟩, inv.allocproc (by simpa using List.find?_some found)⟩
  | freeproc p =>
    cases ran
    exact ⟨0, rfl, inv.freeproc⟩
  | reap p =>
    simp only [exec] at ran
    split at ran
    · rename_i zombie
      cases ran
      exact ⟨0, rfl, inv.reap zombie⟩
    · cases ran
      exact ⟨0, rfl, inv⟩
  | filealloc =>
    rw [zero_add] at inv
    simp only [exec] at ran
    split at ran
    · cases ran
      exact ⟨0, .inl ⟨rfl, rfl⟩, by rwa [zero_add]⟩
    · rename_i f found
      cases ran
      exact ⟨_, .inr ⟨f, rfl, rfl⟩, inv.filealloc (by simpa using List.find?_some found)⟩
  | filedup f k made =>
    simp only [exec] at ran
    split at ran
    · cases ran
    · cases ran
      exact ⟨_, rfl, inv.filedup made⟩
  | filedrop f k =>
    obtain ⟨rfl, inv'⟩ | ⟨ff, rfl, kind, inv'⟩ := inv.filedrop ran
    · exact ⟨0, .inl ⟨rfl, rfl⟩, inv'⟩
    · exact ⟨_, .inr ⟨ff, rfl, kind, rfl⟩, inv'⟩
  | getFile f k =>
    cases ran
    exact ⟨_, ⟨inv.files.kind f k (by simp), rfl⟩, inv⟩
  | setInodeFile f ip readable writable =>
    cases ran
    exact ⟨_, rfl, inv.setInodeFile⟩
  | iget dev inum =>
    rw [zero_add] at inv
    exact ⟨_, rfl, inv.iget ran⟩
  | idup ip =>
    cases ran
    exact ⟨_, rfl, inv.idup⟩
  | getLocked ip v via =>
    cases ran
    exact ⟨_, ⟨inv.viewed.valid, inv.viewed.copy, rfl⟩, inv⟩
  | acquiresleep ip via =>
    simp only [exec] at ran
    split at ran
    · cases ran
    · rename_i unlocked
      cases ran
      obtain ⟨v, clean, inv'⟩ := inv.acquiresleep (by simpa using unlocked)
      exact ⟨_, ⟨v, clean, rfl⟩, inv'⟩
  | releasesleep ip via v clean =>
    cases ran
    exact ⟨_, rfl, inv.releasesleep clean⟩
  | load ip v via =>
    cases ran
    refine ⟨_, ⟨s.onDisk ip, fun i => inv.cache.whole i _ _, rfl⟩, ?_⟩
    have changed := inv.change (w := v.sync (s.onDisk ip)) fun synced =>
      ⟨rfl, of_decide_eq_true synced⟩
    have valid : (v.sync (s.onDisk ip)).valid = (s.inode ip).valid := inv.viewed.valid.symm
    rwa [valid] at changed
  | setValid ip valid via v =>
    cases ran
    refine ⟨_, rfl, ?_⟩
    have copy := inv.viewed.copy
    have changed := inv.change (w := { v with valid }) fun synced => by
      simpa [copy] using inv.viewed.synced synced
    rw [← copy] at changed ⊢
    exact changed
  | setCopy ip copy v via =>
    cases ran
    refine ⟨_, rfl, ?_⟩
    have changed := inv.change (w := v.store copy) fun synced => by simp [View.store] at synced
    have valid : (v.store copy).valid = (s.inode ip).valid := inv.viewed.valid.symm
    rwa [valid] at changed
  | iupdate ip via v whole =>
    cases ran
    exact ⟨_, rfl, inv.iupdate whole⟩
  | dropRef ip =>
    cases ran
    exact ⟨0, rfl, by simpa using inv.dropRef⟩
  | tryAlloc dev inum type =>
    simp only [exec] at ran
    split at ran
    · rename_i free
      cases ran
      exact ⟨0, rfl, inv.tryAlloc free⟩
    · cases ran
      exact ⟨0, rfl, inv⟩
  | balloc =>
    simp only [exec] at ran
    split at ran
    · cases ran
    · rename_i nonzero
      cases ran
      exact ⟨0, ⟨nonzero, rfl⟩, inv⟩
  | beginOp =>
    rw [zero_add] at inv
    cases ran
    exact ⟨_, rfl, inv.beginOp⟩
  | endOp =>
    cases ran
    exact ⟨0, rfl, inv.endOp⟩
  | kalloc =>
    rw [zero_add] at inv
    simp only [exec] at ran
    split at ran
    · cases ran
      exact ⟨0, .inl ⟨rfl, rfl⟩, by rwa [zero_add]⟩
    · cases ran
      exact ⟨_, .inr ⟨_, rfl, rfl⟩, inv.kalloc⟩
  | initPipe q f0 f1 => exact ⟨_, rfl, inv.initPipe ran⟩
  | pipeSection q f writable =>
    cases ran
    exact ⟨_, rfl, inv⟩
  | closeEnd q writable =>
    cases ran
    exact ⟨_, rfl, inv.closeEnd⟩
  | kfree q =>
    cases ran
    exact ⟨0, rfl, inv.kfree⟩

end Xv6.Files
