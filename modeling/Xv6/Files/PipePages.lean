import Xv6.Files.Custody

/-! The page of a pipe lives as long as its ends: from `pipealloc` until both ends were closed, and
it is then freed once.
-/

namespace Xv6.Files

open Lib Fs

variable {I : Prop} {c c' : Config} {s s' : State} {q : Nat} {w : Bool}

/-- An open file is the read end or the write end of a pipe. -/
def File.IsEnd (file : File) (q : Nat) (writable : Bool) : Prop :=
  0 < file.ref ∧ file.type = .pipe q ∧ file.writable = writable

/-- The next step of a process is the operation `o`. -/
def AboutTo (c : Config) (p : Fin nproc) (o : Op) : Prop := ∃ next, c.pool p = some (.op o next)

/-- The page that an operation on pipes acts on. -/
def Op.page : Op → Option Nat
  | .initPipe q .. | .pipeSection q | .closeEnd q _ | .kfree q => some q
  | _ => none

/-- The operations on the page of a pipe; no others change it. -/
theorem exec_pipe {o : Op} {input : Input} {r : o.Res} (ran : exec o input s = some (r, s'))
    (q : Nat)
    : s'.pipe q = s.pipe q
      ∨ (∃ f0 f1, o = .initPipe q f0 f1
        ∧ s'.pipe q = { s.pipe q with
            readopen := true, writeopen := true, inits := (s.pipe q).inits + 1 })
      ∨ (∃ w, o = .closeEnd q w ∧ s'.pipe q = (s.pipe q).close w)
      ∨ (o = .kfree q ∧ s'.pipe q = { s.pipe q with kfrees := (s.pipe q).kfrees + 1 }) := by
  cases o with
  | initPipe r f0 f1 =>
    cases ran
    by_cases same : q = r
    · subst same
      exact .inr (.inl ⟨f0, f1, rfl, Function.update_self ..⟩)
    · exact .inl (Function.update_of_ne same ..)
  | closeEnd r w =>
    cases ran
    by_cases same : q = r
    · subst same
      exact .inr (.inr (.inl ⟨w, rfl, Function.update_self ..⟩))
    · exact .inl (Function.update_of_ne same ..)
  | kfree r =>
    cases ran
    by_cases same : q = r
    · subst same
      exact .inr (.inr (.inr ⟨rfl, Function.update_self ..⟩))
    · exact .inl (Function.update_of_ne same ..)
  | panic => cases ran
  | data | reap | filedup | acquiresleep | tryAlloc | balloc | kalloc =>
    simp only [exec] at ran
    split at ran
    all_goals first | cases ran; exact .inl rfl | cases ran
  | fdalloc | allocproc | filealloc =>
    simp only [exec] at ran
    split at ran
    all_goals cases ran; exact .inl rfl
  | filedrop =>
    simp only [exec, State.filedrop] at ran
    split at ran
    · cases ran
    · split at ran
      all_goals cases ran; exact .inl rfl
  | iget =>
    simp only [exec, State.iget] at ran
    split at ran
    · cases ran
      exact .inl rfl
    · split at ran
      · cases ran
        exact .inl rfl
      · cases ran
  | _ =>
    cases ran
    exact .inl rfl

section Counters

variable {pipe : Nat → Pipe} {made : Nat} {files : Nat → Bool → Nat}
  {ends : Multiset (Nat × Bool)} {blanks pages : Multiset Nat}

section

variable (inv : PipeInv pipe made files ends blanks pages)
include inv

theorem PipeInv.inits_le (q : Nat)
    : (pipe q).inits ≤ 1 := by
  have blank := inv.blank q
  have small := Bool.toNat_le (decide (q < made))
  omega

theorem PipeInv.kfrees_le (q : Nat)
    : (pipe q).kfrees ≤ (pipe q).inits := by
  have page := inv.page q
  omega

theorem PipeInv.isShut_of_kfrees (freed : (pipe q).kfrees ≠ 0)
    : (pipe q).isShut = true := by
  have page := inv.page q
  have small := inv.inits_le q
  cases shut : (pipe q).isShut with
  | true => rfl
  | false =>
    rw [shut, Bool.not_false, Bool.toNat_true] at page
    omega

/-- The page of a pipe that is closed has not been freed while a process has it. -/
theorem PipeInv.isShut_of_page (mem : q ∈ pages)
    : (pipe q).isShut = true ∧ (pipe q).kfrees = 0 := by
  have page := inv.page q
  have small := inv.inits_le q
  have counted := Multiset.count_pos.mpr mem
  cases shut : (pipe q).isShut with
  | true => exact ⟨rfl, by omega⟩
  | false =>
    rw [shut, Bool.not_false, Bool.toNat_true] at page
    omega

/-- A page with an open end has not been freed. -/
theorem PipeInv.kfrees_of_isOpen (isOpen : (pipe q).isOpen w = true)
    : (pipe q).kfrees = 0 := by
  by_contra freed
  have shut := inv.isShut_of_kfrees freed
  rw [isShut_eq_false isOpen] at shut
  cases shut

theorem PipeInv.isOpen_iff
    : (pipe q).isOpen w = true ↔ 0 < files q w ∨ (q, w) ∈ ends := by
  have flag := inv.flag q w
  rw [← Multiset.count_pos]
  cases isOpen : (pipe q).isOpen w with
  | true =>
    rw [isOpen, Bool.toNat_true] at flag
    simp only [true_iff]
    omega
  | false =>
    rw [isOpen, Bool.toNat_false] at flag
    simp only [Bool.false_eq_true, false_iff]
    omega

end

theorem kind_eq_pipe {file : File}
    : file.kind = .pipe q w ↔ file.type = .pipe q ∧ file.writable = w := by
  unfold File.kind
  cases file.type <;> simp

theorem opened_pipe_pos : 0 < opened s.file (.pipe q w) ↔ ∃ f, (s.file f).IsEnd q w := by
  rw [opened_eq_card, Finset.card_pos]
  simp only [Finset.Nonempty, Finset.mem_filter, Finset.mem_univ, true_and, kind_eq_pipe]
  rfl

theorem end_unique (one : opened s.file (.pipe q w) ≤ 1) {f g : Fin nfile}
    (first : (s.file f).IsEnd q w) (second : (s.file g).IsEnd q w)
    : f = g := by
  rw [opened_eq_card] at one
  refine Finset.card_le_one.mp one f ?_ g ?_
  · simpa [kind_eq_pipe, File.IsEnd] using first
  · simpa [kind_eq_pipe, File.IsEnd] using second

end Counters

section Pending

variable {tokens : Multiset Token} {t : Token}

theorem idle_cold {p : Fin nproc} (idle : Idle p tokens)
    : (protocol I).Cold tokens := by
  obtain ⟨o, ip, kinds, _, rfl⟩ := idle
  exact Protocol.Resting.cold

/-- The operation that deals with the end of a pipe that was closed, or with a page. -/
def Token.handler : Token → Op → Prop
  | .pend q w, o => o = .closeEnd q w
  | .page q, o => o = .kfree q
  | .blank q, o => ∃ f0 f1, o = .initPipe q f0 f1
  | _, _ => True

theorem Spec.handler {o : Op} {taken : Multiset Token} {given : o.Res → Multiset Token → Prop}
    (spec : Spec I o taken given) (mem : t ∈ taken)
    : t.handler o := by
  cases spec with
  | closeEnd | kfree =>
    rw [Multiset.mem_singleton.mp mem]
    rfl
  | initPipe q f0 f1 =>
    simp only [Multiset.mem_add, Multiset.mem_singleton] at mem
    rcases mem with (rfl | rfl) | rfl
    · exact ⟨f0, f1, rfl⟩
    · trivial
    · trivial
  | acquiresleep ip via =>
    rw [Multiset.mem_singleton.mp mem]
    cases via <;> trivial
  | freeproc | setInodeFile =>
    simp only [Multiset.mem_add, Multiset.mem_singleton] at mem
    rcases mem with rfl | rfl
    all_goals trivial
  | choose | data | panic | allocproc | reap | filealloc | iget | getInode | ninodes | tryAlloc
  | balloc | beginOp | kalloc => exact absurd mem (Multiset.notMem_zero t)
  | _ =>
    rw [Multiset.mem_singleton.mp mem]
    trivial

theorem mem_ends
    : (q, w) ∈ tokens.bind Token.ends ↔ Token.pend q w ∈ tokens := by
  refine Multiset.mem_bind.trans ⟨fun ⟨t, mem, inside⟩ => ?_, fun mem => ⟨_, mem, by simp⟩⟩
  cases t with
  | pend r x =>
    cases Multiset.mem_singleton.mp inside
    exact mem
  | _ => simp at inside

theorem mem_pages
    : q ∈ tokens.bind Token.pages ↔ Token.page q ∈ tokens := by
  refine Multiset.mem_bind.trans ⟨fun ⟨t, mem, inside⟩ => ?_, fun mem => ⟨_, mem, by simp⟩⟩
  cases t with
  | page r =>
    cases Multiset.mem_singleton.mp inside
    exact mem
  | _ => simp at inside

/-- A process has the end of a pipe that was closed, or a page, only to deal with it next. -/
theorem handled {has : Fin nproc → Multiset Token}
    (each : ∀ p, (protocol I).Has p (c.pool p) (has p)) (mem : t ∈ ∑ p, has p)
    (hot : t.cold = false)
    : ∃ p o, AboutTo c p o ∧ t.handler o := by
  obtain ⟨p, o, next, taken, given, running, spec, among⟩ :=
    taken_of_hot each mem (by simp [hot]) (by simp [protocol]) (fun _ _ => idle_cold)
      (by simp [protocol])
  exact ⟨p, o, ⟨next, running⟩, Spec.handler spec among⟩

end Pending

/-- A page in the life of a pipe. An end is open as long as its file is, and until the process that
closed the file has run `pipeclose`. The page becomes a pipe once and is freed once, by the process
that closed the second end; nobody uses it after that.
-/
structure PipeLife (c : Config) (q : Nat) : Prop where
  isOpen : ∀ w, (c.shared.pipe q).isOpen w = true
    ↔ (∃ f, (c.shared.file f).IsEnd q w) ∨ ∃ p, AboutTo c p (.closeEnd q w)
  single : ∀ w f g, (c.shared.file f).IsEnd q w → (c.shared.file g).IsEnd q w → f = g
  last : ∀ w p f, AboutTo c p (.closeEnd q w) → ¬(c.shared.file f).IsEnd q w
  inits_le : (c.shared.pipe q).inits ≤ 1
  kfrees_le : (c.shared.pipe q).kfrees ≤ (c.shared.pipe q).inits
  shut : (c.shared.pipe q).kfrees = 1 → (c.shared.pipe q).isShut = true
  due : (c.shared.pipe q).inits = 1 → (c.shared.pipe q).isShut = true
    → (c.shared.pipe q).kfrees = 1 ∨ ∃ p, AboutTo c p (.kfree q)
  unused : (c.shared.pipe q).kfrees = 1 → ∀ p o, AboutTo c p o → o.page ≠ some q

/-- What a step does to a page. -/
structure PipeStep (c c' : Config) (label : Label) (q : Nat) : Prop where
  created : (c'.shared.pipe q).inits ≠ (c.shared.pipe q).inits
    → ∀ w, (c'.shared.pipe q).isOpen w = true
  opened : ∀ w, (c.shared.pipe q).isOpen w = false → (c'.shared.pipe q).isOpen w = true
    → (c.shared.pipe q).inits = 0 ∧ (c'.shared.pipe q).inits = 1
  closed : ∀ w, (c.shared.pipe q).isOpen w = true → (c'.shared.pipe q).isOpen w = false
    → ∃ p input, label = .move p input ∧ AboutTo c p (.closeEnd q w)
  freed : (c'.shared.pipe q).kfrees ≠ (c.shared.pipe q).kfrees
    → (c.shared.pipe q).kfrees = 0 ∧ (c'.shared.pipe q).kfrees = 1
      ∧ (c.shared.pipe q).isShut = true
      ∧ ∃ p input, label = .move p input ∧ AboutTo c p (.kfree q)

section Life

variable {o : Op} {p : Fin nproc} {label : Label}

section

variable (custody : c.Custody (protocol I) (Inv I))
include custody

/-- The invariant where a process is about to perform an operation. -/
theorem taken_of_aboutTo (next : AboutTo c p o)
    : ∃ taken given kept, Spec I o taken given ∧ Inv I c.shared (taken + kept) := by
  obtain ⟨_, running⟩ := next
  exact custody.taken running

/-- An end that is about to be closed is open, but its file is not. -/
theorem open_of_closeEnd (next : AboutTo c p (.closeEnd q w))
    : (c.shared.pipe q).isOpen w = true ∧ opened c.shared.file (.pipe q w) = 0 := by
  obtain ⟨_, _, kept, spec, inv⟩ := taken_of_aboutTo custody next
  cases spec
  have pending : (q, w) ∈ ({Token.pend q w} + kept).bind Token.ends := by simp
  have isOpen := inv.pipes.isOpen_iff.mpr (.inr pending)
  have flag := inv.pipes.flag q w
  rw [isOpen, Bool.toNat_true] at flag
  have counted := Multiset.count_pos.mpr pending
  exact ⟨isOpen, by omega⟩

/-- A page that an operation acts on has not been freed. -/
theorem kfrees_of_page (next : AboutTo c p o) (acts : o.page = some q)
    : (c.shared.pipe q).kfrees = 0 := by
  obtain ⟨taken, _, kept, spec, inv⟩ := taken_of_aboutTo custody next
  cases spec with
  | initPipe r f0 f1 =>
    cases acts
    have never := inv.pipes.inits_eq_zero (q := q) (by simp)
    have bound := inv.pipes.kfrees_le q
    omega
  | pipeSection r f w =>
    cases acts
    have held := opened_pos (k := .pipe q w) inv.files (f := f) (by simp)
    exact inv.pipes.kfrees_of_isOpen (inv.pipes.isOpen_iff.mpr (.inl held))
  | closeEnd r w =>
    cases acts
    exact inv.pipes.kfrees_of_isOpen (open_of_closeEnd custody next).1
  | kfree r =>
    cases acts
    exact (inv.pipes.isShut_of_page (by simp)).2
  | _ => cases acts

theorem pipeLife (q : Nat) : PipeLife c q := by
  obtain ⟨has, inv, each⟩ := id custody
  have bound := inv.pipes.inits_le q
  have bound' := inv.pipes.kfrees_le q
  refine ⟨fun w => ?_, fun w f g => ?_, fun w p f next isEnd => ?_, bound, bound', fun freed => ?_,
    fun made shut => ?_, fun freed p o next acts => ?_⟩
  · rw [inv.pipes.isOpen_iff, opened_pipe_pos]
    refine or_congr_right ⟨fun mem => ?_, fun ⟨p, next⟩ => ?_⟩
    · obtain ⟨p, o, next, rfl⟩ := handled each (mem_ends.mp mem) rfl
      exact ⟨p, next⟩
    · obtain ⟨isOpen, none⟩ := open_of_closeEnd custody next
      exact (inv.pipes.isOpen_iff.mp isOpen).resolve_left (by omega)
  · have flag := inv.pipes.flag q w
    have small := Bool.toNat_le ((c.shared.pipe q).isOpen w)
    exact end_unique (by omega)
  · have none := (open_of_closeEnd custody next).2
    have some := opened_pipe_pos.mpr ⟨f, isEnd⟩
    omega
  · exact inv.pipes.isShut_of_kfrees (by omega)
  · have page := inv.pipes.page q
    rw [made, shut, Bool.not_true, Bool.toNat_false] at page
    by_cases mem : q ∈ (∑ p, has p).bind Token.pages
    · obtain ⟨p, o, next, rfl⟩ := handled each (mem_pages.mp mem) rfl
      exact .inr ⟨p, next⟩
    · rw [Multiset.count_eq_zero.mpr mem] at page
      exact .inl (by omega)
  · have := kfrees_of_page custody next acts
    omega

end

theorem PipeStep.of_eq (same : c'.shared.pipe q = c.shared.pipe q)
    : PipeStep c c' label q := by
  refine ⟨fun changed => ?_, fun w was now => ?_, fun w was now => ?_, fun changed => ?_⟩
  · exact absurd (by rw [same]) changed
  · rw [same, was] at now
    cases now
  · rw [same, was] at now
    cases now
  · exact absurd (by rw [same]) changed

theorem pipeStep (custody : c.Custody (protocol I) (Inv I))
    (stepped : kernel.step c label = some c') (q : Nat)
    : PipeStep c c' label q := by
  obtain ⟨p, call, rfl, idle, rfl⟩ | ⟨p, input, o, next, r, s, rfl, running, ran, rfl⟩
    | ⟨p, input, child, next, rfl, running, rfl⟩ | ⟨p, input, rfl, running, rfl⟩ :=
      kernel.step_cases stepped
  · exact .of_eq rfl
  · have about : AboutTo c p o := ⟨next, running⟩
    rcases exec_pipe ran q with same | ⟨f0, f1, rfl, made⟩ | ⟨w, rfl, shut⟩ | ⟨rfl, freed⟩
    · exact .of_eq same
    · -- the page becomes a pipe
      obtain ⟨_, _, kept, spec, inv⟩ := taken_of_aboutTo custody about
      cases spec
      have never := inv.pipes.inits_eq_zero (q := q) (by simp)
      have both : ∀ w, (s.pipe q).isOpen w = true := fun w => by
        rw [made]
        cases w <;> rfl
      refine ⟨fun _ => both, fun w _ _ => ⟨never, ?_⟩, fun w _ now => ?_, fun changed => ?_⟩
      · simp [made, never]
      · simp [both] at now
      · simp [made] at changed
    · -- an end is closed
      have kept : (s.pipe q).inits = (c.shared.pipe q).inits
          ∧ (s.pipe q).kfrees = (c.shared.pipe q).kfrees := by
        rw [shut]
        cases w <;> exact ⟨rfl, rfl⟩
      have ends : ∀ w', (s.pipe q).isOpen w' = (decide (w' ≠ w) && (c.shared.pipe q).isOpen w') :=
        fun w' => by rw [shut, isOpen_close]
      refine ⟨fun changed => absurd kept.1 changed, fun w' was now => ?_, fun w' was now => ?_,
        fun changed => absurd kept.2 changed⟩
      · simp [ends, was] at now
      · obtain rfl : w' = w := by simpa [ends, was] using now
        exact ⟨p, input, rfl, about⟩
    · -- the page is freed
      obtain ⟨_, _, kept, spec, inv⟩ := taken_of_aboutTo custody about
      have never := kfrees_of_page custody about rfl
      have same : ∀ w, (s.pipe q).isOpen w = (c.shared.pipe q).isOpen w := fun w => by
        rw [freed]
        rfl
      refine ⟨fun changed => ?_, fun w was now => ?_, fun w was now => ?_, fun _ => ?_⟩
      · simp [freed] at changed
      · simp [same, was] at now
      · simp [same, was] at now
      · refine ⟨never, by simp [freed, never], ?_, p, input, rfl, about⟩
        cases spec
        exact (inv.pipes.isShut_of_page (by simp)).1
  · exact .of_eq rfl
  · exact .of_eq rfl

end Life

/-- The page of a pipe lives exactly as long as its ends. In every run, whatever fails, the end of
a pipe is open from the creation of the pipe until the last reference to its file was dropped and
`pipeclose` has run for it. The page is given to `kfree` once, when both ends are closed, and no
`piperead`, `pipewrite` or `pipeclose` acts on it afterwards.
-/
theorem pipePage_lifetime {ninodes : Nat} {dinode : Nat → Nat → Dinode} {labels : List Label}
    (reached : run kernel.step labels (boot ninodes dinode) = some c) (q : Nat)
    : PipeLife c q
      ∧ ∀ label c', kernel.step c label = some c' → PipeStep c c' label q := by
  have custody := custody (I := False) nofun reached
  exact ⟨pipeLife custody q, fun _ _ stepped => pipeStep custody stepped q⟩

/-- `initproc` makes a pipe and closes both ends. -/
theorem pipePage_lifetime_close
    : ∃ c, run kernel.step
          (solo (.pipe true) 6 ++ solo (.close (some 0)) 4 ++ solo (.close (some 1)) 5)
          (boot 200 rootOnly) = some c
        ∧ (c.shared.pipe 0).kfrees = 1 ∧ PipeLife c 0
        ∧ ∀ label c', kernel.step c label = some c' → PipeStep c c' label 0 := by
  obtain ⟨c, reached, freed⟩ : ∃ c ∈ run kernel.step
      (solo (.pipe true) 6 ++ solo (.close (some 0)) 4 ++ solo (.close (some 1)) 5)
      (boot 200 rootOnly), (c.shared.pipe 0).kfrees = 1 := by
    decide +kernel
  exact ⟨c, reached, freed, pipePage_lifetime reached 0⟩

end Xv6.Files
