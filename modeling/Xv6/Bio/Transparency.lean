import Xv6.Bio.Commits

/-! The buffer cache is transparent, commits included.
A commit is a straight-line program; what is left of it says which blocks it still writes, and
with the contents of the blocks, which contents it leaves.
-/

namespace Xv6.Bio

open Xv6.Lib
open Option (ite_none_right_eq_some ite_none_left_eq_some map_eq_some_iff)
open Xv6.Logging (LogHeader GroupState groupStep Grouped)
open Function (update update_self update_of_ne update_apply)

variable {start : UInt32} {size tail : Nat}

/-- What the rest of a commit depends on: the blocks of its two buffers, the data of the one it
writes, the header and the contents of all blocks.
-/
structure Regs where
  block : Side → UInt32
  data : Block
  lh : LogHeader
  contents : UInt32 → Block

/-- The meaning of one access. -/
def Instr.effect (r : Regs) : Instr → Regs
  | .bget side blockno => { r with block := update r.block side blockno }
  | .bread .target => { r with data := r.contents (r.block .target) }
  | .memmove => { r with data := r.contents (r.block .source) }
  | .head => { r with data := r.lh.encode r.data }
  | .bwrite => { r with contents := update r.contents (r.block .target) r.data }
  | .clear => { r with lh := { r.lh with n := 0 } }
  | .acquiresleep _ | .bread .source | .releasesleep _ | .brelse _ => r

/-- The registers after a part of a commit. -/
def Regs.after (r : Regs) (program : List Instr) : Regs :=
  program.foldl (fun r instr => instr.effect r) r

/-- The block of the target after an access. -/
def Instr.aim (target : UInt32) : Instr → UInt32
  | .bget .target blockno => blockno
  | _ => target

theorem effect_target (instr : Instr) (r : Regs)
    : (instr.effect r).block .target = instr.aim (r.block .target) := by
  cases instr with
  | bget side blockno => cases side <;> simp [Instr.effect, Instr.aim]
  | bread side => cases side <;> rfl
  | _ => rfl

theorem effect_lh {instr : Instr} (r : Regs) (notClear : instr ≠ .clear)
    : (instr.effect r).lh = r.lh := by
  cases instr with
  | bread side => cases side <;> rfl
  | clear => exact absurd rfl notClear
  | _ => rfl

/-- The blocks that the rest of a commit writes, with the block of its target so far. -/
def dues : List Instr → UInt32 → List UInt32
  | [], _ => []
  | instr :: rest, target =>
      (if instr = .bwrite then [target] else []) ++ dues rest (instr.aim target)

/-- At every point of the rest of a commit, the blocks outside of the log have these contents. -/
def Harmless (outside : UInt32 → Prop) (given : UInt32 → Block) : List Instr → Regs → Prop
  | [], r => ∀ b, outside b → r.contents b = given b
  | instr :: rest, r =>
      (∀ b, outside b → r.contents b = given b) ∧ Harmless outside given rest (instr.effect r)

theorem inLog_start (positive : 0 < size) : InLog start size start := by
  simpa [InLog] using positive

theorem inLog_logBlock (start : UInt32) (inside : tail + 1 < size)
    : InLog start size (logBlock start tail) := by
  have bound := start.toNat_lt
  simp only [InLog, logBlock, UInt32.toNat_sub, UInt32.toNat_add, UInt32.toNat_ofNat',
    UInt32.toNat_one]
  omega

theorem logBlock_inj {first second : Nat} (low : first < 2 ^ 32) (high : second < 2 ^ 32)
    (same : logBlock start first = logBlock start second)
    : first = second := by
  have bound := start.toNat_lt
  have equal := congrArg UInt32.toNat same
  simp only [logBlock, UInt32.toNat_add, UInt32.toNat_ofNat', UInt32.toNat_one] at equal
  omega

theorem logBlock_ne_start (inside : tail + 1 < 2 ^ 32)
    : logBlock start tail ≠ start := by
  intro same
  have bound := start.toNat_lt
  have equal := congrArg UInt32.toNat same
  simp only [logBlock, UInt32.toNat_add, UInt32.toNat_ofNat', UInt32.toNat_one] at equal
  omega

section Commit

variable {outside : UInt32 → Prop} {given : UInt32 → Block} {start : UInt32} {lh : LogHeader}
  {r : Regs}

theorem Harmless.now {program : List Instr} (harmless : Harmless outside given program r)
    : ∀ b, outside b → r.contents b = given b := by
  cases program with
  | nil => exact harmless
  | cons instr rest => exact harmless.1

theorem harmless_append {first rest : List Instr}
    : Harmless outside given (first ++ rest) r
      ↔ Harmless outside given first r
        ∧ Harmless outside given rest (r.after first) := by
  induction first generalizing r with
  | nil => exact ⟨fun rest => ⟨rest.now, rest⟩, fun both => both.2⟩
  | cons instr first ih =>
    simp only [List.cons_append, Harmless, Regs.after, List.foldl_cons, ih]
    exact and_assoc.symm

/-- A loop keeps what its passes keep. -/
theorem harmless_flatMap (pass : Nat → List Instr) {motive : Nat → Regs → Prop} (n : Nat)
    (now : ∀ i r, motive i r → ∀ b, outside b → r.contents b = given b)
    (passes
      : ∀ i r, i < n → motive i r
          → Harmless outside given (pass i) r ∧ motive (i + 1) (r.after (pass i)))
    (start : motive 0 r)
    : Harmless outside given ((List.range n).flatMap pass) r
      ∧ motive n (r.after ((List.range n).flatMap pass)) := by
  induction n with
  | zero => exact ⟨now 0 r start, start⟩
  | succ n ih =>
    obtain ⟨before, reached⟩ := ih fun i r bound => passes i r (Nat.lt_succ_of_lt bound)
    obtain ⟨last, next⟩ := passes n _ (Nat.lt_succ_self n) reached
    rw [List.range_succ, List.flatMap_append, List.flatMap_singleton, harmless_append]
    simp only [Regs.after, List.foldl_append] at last next ⊢
    exact ⟨⟨before, last⟩, next⟩

/-- Outside of the log nothing has changed, and the first log blocks are copies. -/
structure Copied (outside : UInt32 → Prop) (given : UInt32 → Block) (start : UInt32)
    (lh : LogHeader) (done : Nat) (r : Regs) : Prop where
  same : ∀ b, outside b → r.contents b = given b
  copied : ∀ tail, tail < done → r.contents (logBlock start tail) = given (lh.block tail)

/-- A part of a commit writes one block, at one point. -/
structure Writes (program : List Instr) (r : Regs) (k : UInt32) (data : Block) : Prop where
  contents : (r.after program).contents = update r.contents k data
  harmless
    : ∀ outside given, (∀ b, outside b → r.contents b = given b)
        → (∀ b, outside b → (r.after program).contents b = given b)
        → Harmless outside given program r

theorem writeLogPass_writes (start : UInt32) (lh : LogHeader) (tail : Nat) (r : Regs)
    : Writes (writeLogPass start lh tail) r (logBlock start tail) (r.contents (lh.block tail)) := by
  constructor <;> simp +contextual [writeLogPass, Side.read, Side.brelse, Harmless, Regs.after,
    Instr.effect]

theorem installPass_writes (start : UInt32) (lh : LogHeader) (tail : Nat) (r : Regs)
    : Writes (installPass start lh tail) r (lh.block tail) (r.contents (logBlock start tail)) := by
  constructor <;> simp +contextual [installPass, Side.read, Side.brelse, Harmless, Regs.after,
    Instr.effect]

theorem writeHead_writes (start : UInt32) (r : Regs)
    : Writes (writeHead start) r start (r.lh.encode (r.contents start)) := by
  constructor <;> simp +contextual [writeHead, Side.read, Side.brelse, Harmless, Regs.after,
    Instr.effect]

/-- A write that puts into a home block what it has, or into a log block what it is for. -/
theorem Copied.write {program : List Instr} {k : UInt32} {data : Block} {done more : Nat}
    (copied : Copied outside given start lh done r) (writes : Writes program r k data)
    (home : outside k → data = given k)
    (logs : ∀ tail, tail < more
      → (logBlock start tail = k ∧ data = given (lh.block tail))
        ∨ (logBlock start tail ≠ k ∧ tail < done))
    : Harmless outside given program r ∧ Copied outside given start lh more (r.after program) := by
  have next : Copied outside given start lh more (r.after program) := by
    refine ⟨fun b isOutside => ?_, fun tail bound => ?_⟩
    · rw [writes.contents]
      by_cases same : b = k
      · rw [same, update_self]
        exact home (same ▸ isOutside)
      · rw [update_of_ne same]
        exact copied.same b isOutside
    · rw [writes.contents]
      obtain ⟨same, written⟩ | ⟨other, earlier⟩ := logs tail bound
      · rw [same, update_self, written]
      · rw [update_of_ne other]
        exact copied.copied tail earlier
  exact ⟨writes.harmless _ _ copied.same next.same, next⟩

-- A log that has room for a header whose home blocks lie outside of it.
variable {size : Nat} (room : lh.n < size) (fits : size ≤ 2 ^ 32)
  (homes : ∀ tail, tail < lh.n → ¬ InLog start size (lh.block tail))

/-- What holds between the loops of a commit. -/
abbrev Between (given : UInt32 → Block) (start : UInt32) (size : Nat) (lh : LogHeader)
    : Nat → Regs → Prop :=
  Copied (fun b => ¬ InLog start size b) given start lh

include room fits in
theorem writeHead_harmless (copied : Between given start size lh lh.n r)
    : Harmless (fun b => ¬ InLog start size b) given (writeHead start) r
      ∧ Between given start size lh lh.n (r.after (writeHead start)) :=
  copied.write (writeHead_writes start r)
    (fun outside => absurd (inLog_start (by omega)) outside)
    (fun tail bound => .inr ⟨logBlock_ne_start (by omega), bound⟩)

include room fits homes in
theorem writeLog_harmless (same : ∀ b, ¬ InLog start size b → r.contents b = given b)
    : Harmless (fun b => ¬ InLog start size b) given
        ((List.range lh.n).flatMap (writeLogPass start lh)) r
      ∧ Between given start size lh lh.n
          (r.after ((List.range lh.n).flatMap (writeLogPass start lh))) := by
  refine harmless_flatMap (writeLogPass start lh) (motive := Between given start size lh) lh.n
    (fun _ _ copied => copied.same) (fun tail r bound copied => ?_)
    ⟨same, fun tail none => absurd none (Nat.not_lt_zero tail)⟩
  refine copied.write (writeLogPass_writes start lh tail r)
    (fun outside => absurd (inLog_logBlock start (by omega)) outside) fun earlier below => ?_
  by_cases last : earlier = tail
  · rw [last]
    exact .inl ⟨rfl, copied.same _ (homes tail bound)⟩
  · exact .inr ⟨fun equal => last (logBlock_inj (by omega) (by omega) equal), by omega⟩

include room homes in
theorem install_harmless (copied : Between given start size lh lh.n r)
    : Harmless (fun b => ¬ InLog start size b) given
        ((List.range lh.n).flatMap (installPass start lh)) r
      ∧ Between given start size lh lh.n
          (r.after ((List.range lh.n).flatMap (installPass start lh))) := by
  refine harmless_flatMap (installPass start lh)
    (motive := fun _ => Between given start size lh lh.n) lh.n
    (fun _ _ copied => copied.same) (fun tail r bound copied => ?_) copied
  refine copied.write (installPass_writes start lh tail r) (fun _ => copied.copied tail bound)
    fun other below => .inr ⟨fun isHome => homes tail bound ?_, below⟩
  rw [← isHome]
  exact inLog_logBlock start (by omega)

omit room in
include fits homes in
/-- A commit changes no block outside of the log. -/
theorem commit_harmless (room : 0 < lh.n → lh.n < size)
    (same : ∀ b, ¬ InLog start size b → r.contents b = given b)
    : Harmless (fun b => ¬ InLog start size b) given (commit start lh) r := by
  unfold commit
  split
  case isFalse => exact ⟨same, same⟩
  rename_i positive
  obtain ⟨logged, copied⟩ := writeLog_harmless (room positive) fits homes same
  obtain ⟨headed, copied⟩ := writeHead_harmless (room positive) fits copied
  obtain ⟨installed, copied⟩ := install_harmless (room positive) homes copied
  have cleared : Between given start size lh lh.n (Instr.clear.effect _) :=
    ⟨copied.same, copied.copied⟩
  simp only [harmless_append, Regs.after, List.foldl_append, List.foldl_cons, List.foldl_nil]
  exact ⟨⟨⟨⟨logged, headed⟩, installed⟩, copied.same, cleared.same⟩,
    (writeHead_harmless (room positive) fits cleared).1⟩

end Commit

variable {b target : UInt32}

theorem mem_dues_append {first rest : List Instr}
    (due : b ∈ dues first target ∨ ∀ later, b ∈ dues rest later)
    : b ∈ dues (first ++ rest) target := by
  induction first generalizing target with
  | nil => exact due.elim (fun none => nomatch none) (fun later => later target)
  | cons instr first ih =>
    rw [dues, List.mem_append] at due
    rw [List.cons_append, dues, List.mem_append]
    rcases due with (now | left) | right
    · exact .inl now
    · exact .inr (ih (.inl left))
    · exact .inr (ih (.inr right))

/-- A commit writes every block of the header to its home. -/
theorem mem_dues_commit {lh : LogHeader} (logged : b ∈ lh.logged)
    : b ∈ dues (commit start lh) target := by
  obtain ⟨tail, bound, home⟩ := List.mem_map.mp logged
  have positive : 0 < lh.n := Nat.zero_lt_of_lt (List.mem_range.mp bound)
  have pass : ∀ later, b ∈ dues (installPass start lh tail) later := by
    simp [installPass, Side.read, Side.brelse, dues, Instr.aim, home]
  obtain ⟨before, after, split⟩ := List.append_of_mem bound
  have installs : ∀ later, b ∈ dues ((List.range lh.n).flatMap (installPass start lh)) later := by
    intro later
    rw [split, List.flatMap_append, List.flatMap_cons]
    exact mem_dues_append (.inr fun later => mem_dues_append (.inl (pass later)))
  rw [commit, if_pos positive, List.append_assoc, List.append_assoc]
  exact mem_dues_append (.inr fun later => mem_dues_append (.inl (installs later)))

variable {ι : Type}

/-- The buffers of the committer hold the blocks and the data that the registers say. -/
structure Linked (cache : Cache (ι ⊕ Side)) (block : Side → UInt32) (data : Block) : Prop where
  block
    : ∀ side x, (cache.use (.inr side)).on = some x
        → (cache.buf x).dev = 1 ∧ (cache.buf x).blockno = block side
  data
    : ∀ x changed, cache.use (.inr .target) = .ready x changed → (cache.buf x).data = data
  source : ∀ x changed, cache.use (.inr .source) = .ready x changed → changed = false

theorem ready_eq_some {s : Cache (ι ⊕ Side)} {c : ι ⊕ Side} {buf : Buf (ι ⊕ Side)}
    (found : s.ready c = some buf)
    : ∃ x changed, s.use c = .ready x changed ∧ s.buf x = buf := by
  unfold Cache.ready at found
  split at found
  case h_2 => cases found
  rename_i x changed ready
  exact ⟨x, changed, ready, Option.some.inj found⟩

section Accesses

variable [DecidableEq ι] [Fintype ι] {s t : Cache (ι ⊕ Side)} {block : Side → UInt32}
  {data : Block} {action : Action}
variable {side : Side} {moved : Block} {instr : Instr} {lh : LogHeader}

section

variable (linked : Linked s block data) (coherent : Coherent s)
include linked coherent

/-- The accesses of a client leave the buffers of the committer alone. -/
theorem Linked.client {c : ι} (moves : Moves s t (.inl c) action)
    : Linked t block data := by
  have places : ∀ side, t.use (.inr side) = s.use (.inr side) := fun side =>
    moves.use_of_ne (by simp)
  refine ⟨fun side x on => ?_, fun x changed ready => ?_, fun x changed ready => ?_⟩
  · obtain ⟨before, dev, blockno⟩ | ⟨impossible, _⟩ := moves.on coherent on
    · rw [dev, blockno]
      exact linked.block side x before
    · cases impossible
  · rw [places] at ready
    rw [moves.data coherent (by simp) ready]
    exact linked.data x changed ready
  · exact linked.source x changed (places .source ▸ ready)

/-- An access of the committer that is not a `bget` keeps its blocks. -/
theorem Linked.block_of_move (moves : Moves s t (.inr side) action)
    (notGet : ∀ dev blockno, action ≠ .bget dev blockno) (which : Side) (x : BufId)
    (on : (t.use (.inr which)).on = some x)
    : (t.buf x).dev = 1 ∧ (t.buf x).blockno = block which := by
  obtain ⟨before, dev, blockno⟩ | ⟨_, asked⟩ := moves.on coherent on
  · rw [dev, blockno]
    exact linked.block which x before
  · exact absurd asked (notGet _ _)

/-- The registers after an access of the committer. -/
theorem Linked.access {next : Side → UInt32} (moves : Moves s t (.inr side) action)
    (blocks : ∀ which x, (t.use (.inr which)).on = some x
      → (t.buf x).dev = 1 ∧ (t.buf x).blockno = next which)
    (target : side = .target → ∀ x changed, t.use (.inr .target) = .ready x changed
      → (t.buf x).data = moved)
    (source : side = .source → moved = data
      ∧ ∀ x changed, t.use (.inr .source) = .ready x changed → changed = false)
    : Linked t next moved := by
  refine ⟨blocks, fun x changed ready => ?_, fun x changed ready => ?_⟩
  · cases side with
    | target => exact target rfl x changed ready
    | source =>
      rw [moves.use_of_ne (by simp)] at ready
      rw [(source rfl).1, moves.data coherent (by simp) ready]
      exact linked.data x changed ready
  · cases side with
    | target =>
      rw [moves.use_of_ne (by simp)] at ready
      exact linked.source x changed ready
    | source => exact (source rfl).2 x changed ready

/-- An access that does not end in `bread`. -/
theorem Linked.access_of_not_ready {next : Side → UInt32} (moves : Moves s t (.inr side) action)
    (notReady : ∀ x changed, t.use (.inr side) ≠ .ready x changed)
    (blocks : ∀ which x, (t.use (.inr which)).on = some x
      → (t.buf x).dev = 1 ∧ (t.buf x).blockno = next which)
    : Linked t next data := by
  refine linked.access coherent moves blocks ?_ ?_
  · intro isTarget x changed ready
    subst isTarget
    exact absurd ready (notReady x changed)
  · intro isSource
    subst isSource
    exact ⟨rfl, fun x changed ready => absurd ready (notReady x changed)⟩

theorem Linked.bget {blockno : UInt32} (moves : Moves s t (.inr side) (.bget 1 blockno))
    (calm : t.panic = none)
    : Linked t (update block side blockno) data := by
  obtain ⟨idle, notReady, _⟩ := moves.leaves calm
  refine linked.access_of_not_ready coherent moves notReady fun which x on => ?_
  obtain ⟨before, dev, same⟩ | ⟨which', asked⟩ := moves.on coherent on
  · have other : which ≠ side := by
      intro isSide
      rw [isSide, idle] at before
      cases before
    rw [dev, same, update_of_ne other]
    exact linked.block which x before
  · cases which'
    injection asked with dev same
    exact ⟨dev.symm, by rw [update_self, same]⟩

end

/-- The data that the committer puts into its target. -/
theorem Linked.modify (linked : Linked s block data) (coherent : Coherent s)
    (moves : Moves s t (.inr .target) (.modify moved)) (calm : t.panic = none)
    : Linked t block moved ∧ t.contents = s.contents := by
  obtain ⟨⟨x, place, filled⟩, contents⟩ := moves.leaves calm
  refine ⟨linked.access coherent moves (linked.block_of_move coherent moves (by simp)) ?_
    (fun isSource => nomatch isSource), contents⟩
  intro _ y changed ready
  rw [place] at ready
  cases ready
  exact filled

/-- Every access has its meaning. -/
theorem exec_linked (linked : Linked s block data) (coherent : Coherent s)
    (ran : instr.exec lh s = some t) (calm : t.panic = none)
    : Linked t (instr.effect ⟨block, data, lh, s.contents⟩).block
        (instr.effect ⟨block, data, lh, s.contents⟩).data
      ∧ t.contents = (instr.effect ⟨block, data, lh, s.contents⟩).contents := by
  cases instr with
  | bget side blockno =>
    have moves : Moves s t (.inr side) (.bget 1 blockno) := act_moves coherent ran
    exact ⟨linked.bget coherent moves calm, (moves.leaves calm).2.2⟩
  | acquiresleep side | releasesleep side | brelse side =>
    rw [Instr.exec] at ran
    have moves := act_moves coherent ran
    obtain ⟨notReady, contents⟩ := moves.leaves calm
    exact ⟨linked.access_of_not_ready coherent moves notReady
      (linked.block_of_move coherent moves (by simp)), contents⟩
  | bread side =>
    have moves : Moves s t (.inr side) .bread := act_moves coherent ran
    obtain ⟨⟨x, place⟩, contents⟩ := moves.leaves calm
    have blocks := linked.block_of_move coherent moves (by simp)
    cases side with
    | target =>
      refine ⟨linked.access coherent moves blocks ?_ (fun isSource => nomatch isSource), contents⟩
      intro _ y changed ready
      rw [place] at ready
      cases ready
      have read := ((moves.coherent coherent).data_of_ready place).2
      rw [read, contents, (blocks .target x (by rw [place]; rfl)).2]
      rfl
    | source =>
      refine ⟨linked.access coherent moves blocks (fun isTarget => nomatch isTarget) ?_, contents⟩
      intro _
      refine ⟨rfl, fun y changed ready => ?_⟩
      rw [place] at ready
      cases ready
      rfl
  | memmove =>
    obtain ⟨buf, found, acted⟩ := Option.bind_eq_some_iff.mp ran
    obtain ⟨x, changed, ready, same⟩ := ready_eq_some found
    obtain rfl := linked.source x changed ready
    have read := (coherent.data_of_ready ready).2
    rw [(linked.block .source x (by rw [ready]; rfl)).2, same] at read
    rw [read] at acted
    exact linked.modify coherent (act_moves coherent acted) calm
  | head =>
    obtain ⟨buf, found, acted⟩ := Option.bind_eq_some_iff.mp ran
    obtain ⟨x, changed, ready, same⟩ := ready_eq_some found
    rw [← same, linked.data x changed ready] at acted
    exact linked.modify coherent (act_moves coherent acted) calm
  | bwrite =>
    have moves : Moves s t (.inr .target) .bwrite := act_moves coherent ran
    obtain ⟨x, changed, ready, place, kept, _, contents⟩ := moves.leaves calm
    have filled := linked.data x changed ready
    refine ⟨linked.access coherent moves (linked.block_of_move coherent moves (by simp)) ?_
      (fun isSource => nomatch isSource), ?_⟩
    · intro _ y changed' ready'
      rw [place] at ready'
      cases ready'
      exact kept.trans filled
    · rw [contents, filled, (linked.block .target x (by rw [ready]; rfl)).2]
      rfl
  | clear =>
    cases ran
    exact ⟨linked, rfl⟩

/-- The move of the committer that an access other than `log.lh.n = 0` is. -/
theorem exec_moves (coherent : Coherent s) (ran : instr.exec lh s = some t)
    : (instr = .clear ∧ t = s)
      ∨ ∃ side action, action ≠ .logDirty
        ∧ Moves s t (.inr side) action
        ∧ (instr = .bwrite → side = .target ∧ action = .bwrite) := by
  cases instr with
  | bget side | acquiresleep side | bread side | releasesleep side | brelse side =>
    rw [Instr.exec] at ran
    exact .inr ⟨side, _, by simp, act_moves coherent ran, by simp⟩
  | memmove | head =>
    obtain ⟨buf, _, acted⟩ := Option.bind_eq_some_iff.mp ran
    exact .inr ⟨.target, _, by simp, act_moves coherent acted, by simp⟩
  | bwrite => exact .inr ⟨.target, .bwrite, by simp, act_moves coherent ran, fun _ => ⟨rfl, rfl⟩⟩
  | clear =>
    cases ran
    exact .inl ⟨rfl, rfl⟩

/-- An access of the committer cleans the block it writes and makes no buffer dirty. -/
theorem exec_due {rest : List Instr} (linked : Linked s block data) (coherent : Coherent s)
    (ran : instr.exec lh s = some t) (calm : t.panic = none)
    (due : ∀ x, (s.buf x).dirty = true → (s.buf x).blockno ∈ dues (instr :: rest) (block .target))
    (x : BufId) (dirty : (t.buf x).dirty = true)
    : (t.buf x).blockno
        ∈ dues rest ((instr.effect ⟨block, data, lh, s.contents⟩).block .target) := by
  rw [effect_target]
  obtain ⟨isClear, same⟩ | ⟨side, action, notLog, moves, isWrite⟩ := exec_moves coherent ran
  · subst same isClear
    exact due x dirty
  · have before := moves.dirty notLog dirty
    have was := due x before
    rw [(moves.block (.inr before)).2]
    rw [dues, List.mem_append] at was
    refine was.resolve_left fun written => ?_
    by_cases writes : instr = .bwrite
    · obtain ⟨rfl, rfl⟩ := isWrite writes
      obtain ⟨y, changed, ready, _, _, clean, _⟩ := moves.leaves calm
      rw [if_pos writes, List.mem_singleton] at written
      -- the dirty buffer of the block that is written is the one that is written
      have valid := coherent.ready _ y changed ready
      have same : x = y := coherent.toListed.unique (.inr (.inr before)) (.inr (.inl valid))
        ((coherent.onDisk x (coherent.dirty x before)).1.trans (coherent.onDisk y valid).1.symm)
        (written.trans (linked.block .target y (by rw [ready]; rfl)).2.symm)
      rw [same, clean] at dirty
      cases dirty
    · rw [if_neg writes] at written
      cases written

end Accesses

section Runs

variable {π : Type} {quota : Nat} {s t : State π ι} {label : Label π ι} {block : Side → UInt32}
  {data : Block} {c : ι} {action : Action} {cache : Cache (ι ⊕ Side)} {p : π}
  {buf : Buf (ι ⊕ Side)} {group : GroupState π}

/-- The registers of the committer, and where the dirty blocks are recorded: in the header, or
in the rest of the commit.
-/
structure Tracks (s : State π ι) (block : Side → UInt32) (data : Block) : Prop where
  linked : Linked s.cache block data
  free
    : s.group.committing = false
        → s.program = []
          ∧ ∀ x, (s.cache.buf x).dirty = true → (s.cache.buf x).blockno ∈ s.group.lh.logged
  due
    : s.group.committing = true
        → ∀ x, (s.cache.buf x).dirty = true
            → (s.cache.buf x).blockno ∈ dues s.program (block .target)

/-- Outside of the log the blocks have the contents that the clients gave, and keep them through
the rest of the commit.
-/
structure Mirrors (s : State π ι) (block : Side → UInt32) (data : Block) : Prop where
  harmless
    : Harmless (fun b => ¬ InLog s.start s.group.size b) s.given s.program
        ⟨block, data, s.group.lh, s.cache.contents⟩
  homes : ∀ b ∈ s.group.lh.logged, ¬ InLog s.start s.group.size b
  room : 0 < s.group.lh.n → s.group.lh.n < s.group.size
  fits : s.group.size ≤ 2 ^ 32

/-- No client writes to the disk while a commit runs, and the blocks of operations lie outside
of the log, which has room for them.
-/
def Apart (s : State π ι) : Label π ι → Prop
  | .client _ .bwrite => s.group.committing = false
  | .logWriteAppend _ c =>
      ∀ buf ∈ s.cache.ready (.inl c),
        ¬ InLog s.start s.group.size buf.blockno ∧ s.group.lh.n + 1 < s.group.size
  | _ => True

instance (s : State π ι) (label : Label π ι) : Decidable (Apart s label) := by
  cases label with
  | client c action => cases action <;> dsimp only [Apart] <;> infer_instance
  | _ => dsimp only [Apart]; infer_instance

/-- A section of the lock that leaves the header and the commit alone. -/
theorem section_tracks (lh : group.lh = s.group.lh)
    (committing : group.committing = s.group.committing) (tracks : Tracks s block data)
    : Tracks { s with group } block data := by
  refine ⟨tracks.linked, ?_, ?_⟩
  · simp only [committing, lh]
    exact tracks.free
  · simp only [committing]
    exact tracks.due

theorem Mirrors.section (mirrors : Mirrors s block data) (lh : group.lh = s.group.lh)
    (size : group.size = s.group.size)
    : Mirrors { s with group } block data := by
  refine ⟨?_, ?_, ?_, size ▸ mirrors.fits⟩
  · simpa only [size, lh] using mirrors.harmless
  · simpa only [size, lh] using mirrors.homes
  · simpa only [size, lh] using mirrors.room

section

variable [DecidableEq π] [Fintype π] [Fintype ι]

structure Sound (s : State π ι) : Prop where
  coherent : Coherent s.cache
  grouped : Grouped s.group

/-- Only the committer moves during a commit. -/
theorem Sound.free_of_moved {locked} (sound : Sound s)
    (moved : groupStep quota s.group locked = some group)
    (notClear : ∀ q, locked ≠ .commitClear q) (notDone : ∀ q, locked ≠ .commitDone q)
    : s.group.committing = false := by
  refine Bool.eq_false_iff.mpr fun busy => ?_
  obtain ⟨q, same⟩ | ⟨q, same⟩ := sound.grouped.commits_of_closed busy moved
  · exact notClear q same
  · exact notDone q same

/-- `end_op`: the last operation hands the header over to its commit. -/
theorem endOp_tracks (sound : Sound s) (moved : groupStep quota s.group (.endOp p) = some group)
    (tracks : Tracks s block data)
    : Tracks
        { s with
          group
          program := if group.op p = .committing then commit s.start group.lh else s.program }
        block data
      ∧ (Mirrors s block data
        → Mirrors
            { s with
              group
              program := if group.op p = .committing then commit s.start group.lh else s.program }
            block data) := by
  have free := sound.free_of_moved moved (by simp) (by simp)
  obtain ⟨_, after, lh⟩ := Logging.groupEnd_spec moved free
  obtain ⟨size, _⟩ := Logging.groupStep_lh moved
  by_cases commits : group.op p = .committing
  · have busy := ((sound.grouped.step moved).closed_of_inCommit (p := p) (by rw [commits]; rfl)).1
    rw [if_pos commits]
    refine ⟨⟨tracks.linked, fun isFree => ?_, fun _ x dirty => ?_⟩, fun mirrors => ?_⟩
    · exact Bool.noConfusion (busy.symm.trans isFree)
    · rw [lh]
      exact mem_dues_commit ((tracks.free free).2 x dirty)
    · have harmless := mirrors.harmless
      rw [(tracks.free free).1] at harmless
      refine ⟨?_, by simpa only [size, lh] using mirrors.homes,
        by simpa only [size, lh] using mirrors.room, size ▸ mirrors.fits⟩
      simp only [size, lh]
      refine commit_harmless mirrors.fits (fun tail bound => ?_) mirrors.room harmless
      exact mirrors.homes _ (List.mem_map.mpr ⟨tail, List.mem_range.mpr bound, rfl⟩)
  · rw [if_neg commits]
    exact ⟨section_tracks lh ((after.resolve_left commits).trans free.symm) tracks,
      fun mirrors => mirrors.section lh size⟩

/-- The end of a commit: every block of the transaction was written. -/
theorem done_tracks (sound : Sound s) (moved : groupStep quota s.group (.commitDone p) = some group)
    (finished : s.program = []) (tracks : Tracks s block data)
    : (∀ x, (s.cache.buf x).dirty = false)
      ∧ Tracks { s with group } block data
      ∧ (Mirrors s block data → Mirrors { s with group } block data) := by
  obtain ⟨committed, free⟩ := Logging.groupDone_spec moved
  obtain ⟨size, lh⟩ := Logging.groupStep_lh moved
  have busy := (sound.grouped.closed_of_inCommit (p := p) (by rw [committed]; rfl)).1
  have clean : ∀ x, (s.cache.buf x).dirty = false := by
    intro x
    refine Bool.eq_false_iff.mpr fun dirty => ?_
    have due := tracks.due busy x dirty
    rw [finished] at due
    cases due
  refine ⟨clean, ⟨tracks.linked, fun _ => ⟨finished, fun x dirty => ?_⟩, fun isBusy => ?_⟩,
    fun mirrors => mirrors.section lh size⟩
  · exact Bool.noConfusion ((clean x).symm.trans dirty)
  · exact Bool.noConfusion (free.symm.trans isBusy)

theorem init_sound (start size disksize : UInt32) (disk : UInt32 → Block)
    : Sound (State.init π ι start size disksize disk) :=
  ⟨binit_coherent disk disksize, Grouped.init π size.toNat⟩

end

variable [DecidableEq ι]

theorem clientStep_spec (stepped : clientStep s c action = some t)
    : action ≠ .logDirty
      ∧ ∃ cache, act s.cache (.inl c) action = some cache
        ∧ t = { s with cache, given := s.gives c action } := by
  cases action
  case logDirty => cases stepped
  all_goals
    obtain ⟨cache, acted, same⟩ := map_eq_some_iff.mp stepped
    exact ⟨by simp, cache, acted, same.symm⟩

/-- A client passes on its buffer, and the cache and the record agree on what it gave. -/
theorem mirrors_given (moves : Moves s.cache cache (.inl c) action) (calm : cache.panic = none)
    (gives : action = .bwrite ∨ action = .logDirty) (b : UInt32)
    (same : s.cache.contents b = s.given b)
    : cache.contents b = s.pass c b := by
  obtain ⟨x, changed, ready, contents⟩
      : ∃ x changed, s.cache.use (.inl c) = .ready x changed
          ∧ cache.contents
            = update s.cache.contents (s.cache.buf x).blockno (s.cache.buf x).data := by
    have leaves := moves.leaves calm
    obtain rfl | rfl := gives
    · obtain ⟨x, changed, ready, _, _, _, contents⟩ := leaves
      exact ⟨x, changed, ready, contents⟩
    · obtain ⟨x, changed, ready, _, _, contents⟩ := leaves
      exact ⟨x, changed, ready, contents⟩
  rw [contents]
  simp only [State.pass, Cache.ready, ready, update_apply, same]

/-- The device and block of the last call of `bread` by a client. -/
def requested (c : ι) (labels : List (Label π ι)) : Option (UInt32 × UInt32) :=
  labels.foldl
    (fun asked label =>
      match label with
      | .client d (.bget dev blockno) => if d = c then some (dev, blockno) else asked
      | _ => asked)
    none

theorem requested_concat (c : ι) (labels : List (Label π ι)) (label : Label π ι)
    : requested c (labels ++ [label])
      = match label with
        | .client d (.bget dev blockno) => if d = c then some (dev, blockno) else requested c labels
        | _ => requested c labels := by
  simp [requested]

theorem requested_of_other (c : ι) (labels : List (Label π ι))
    (other : ∀ dev blockno, label ≠ .client c (.bget dev blockno))
    : requested c (labels ++ [label]) = requested c labels := by
  rw [requested_concat]
  split
  · rename_i d dev blockno
    exact if_neg fun isSelf => other dev blockno (by rw [isSelf])
  · rfl

section

variable [Fintype ι]

/-- A step of a client other than `log_write`. -/
theorem client_tracks (coherent : Coherent s.cache) (stepped : clientStep s c action = some t)
    (tracks : Tracks s block data)
    : Tracks t block data := by
  obtain ⟨notLog, cache, acted, rfl⟩ := clientStep_spec stepped
  have moves := act_moves coherent acted
  have was : ∀ x, (cache.buf x).dirty = true
      → (s.cache.buf x).dirty = true ∧ (cache.buf x).blockno = (s.cache.buf x).blockno :=
    fun x dirty => ⟨moves.dirty notLog dirty, (moves.block (.inr (moves.dirty notLog dirty))).2⟩
  refine ⟨tracks.linked.client coherent moves, fun free => ?_, fun busy x dirty => ?_⟩
  · refine ⟨(tracks.free free).1, fun x dirty => ?_⟩
    exact (was x dirty).2 ▸ (tracks.free free).2 x (was x dirty).1
  · exact (was x dirty).2 ▸ tracks.due busy x (was x dirty).1

theorem client_mirrors (coherent : Coherent s.cache) (stepped : clientStep s c action = some t)
    (calm : t.cache.panic = none) (tracks : Tracks s block data) (mirrors : Mirrors s block data)
    (apart : Apart s (.client c action))
    : Mirrors t block data := by
  obtain ⟨notLog, cache, acted, rfl⟩ := clientStep_spec stepped
  have moves := act_moves coherent acted
  refine ⟨?_, mirrors.homes, mirrors.room, mirrors.fits⟩
  have harmless := mirrors.harmless
  cases action with
  | bwrite =>
    rw [(tracks.free apart).1] at harmless ⊢
    exact fun b outside => mirrors_given moves calm (.inl rfl) b (harmless b outside)
  | _ =>
    rw [moves.contents (by simp) notLog]
    exact harmless

end

variable [DecidableEq π]

theorem step_running (stepped : step quota s label = some t)
    : s.group.panic = none ∧ s.cache.panic = none := by
  obtain ⟨calm, _⟩ := ite_none_left_eq_some.mp stepped
  simpa using calm

theorem commitInstr_spec (stepped : commitInstr quota s p = some t)
    : (s.group.op p).inCommit = 1
      ∧ ∃ instr rest, s.program = instr :: rest
        ∧ ((instr = .clear ∧ ∃ group, groupStep quota s.group (.commitClear p) = some group
            ∧ t = { s with group, program := rest })
          ∨ (instr ≠ .clear ∧ ∃ cache, instr.exec s.group.lh s.cache = some cache
            ∧ t = { s with cache, program := rest })) := by
  unfold commitInstr at stepped
  split at stepped
  · cases stepped
  rename_i instr rest program
  obtain ⟨inCommit, stepped⟩ := ite_none_right_eq_some.mp stepped
  obtain ⟨cache, ran, stepped⟩ := Option.bind_eq_some_iff.mp stepped
  refine ⟨inCommit, instr, rest, program, ?_⟩
  split at stepped
  · rename_i isClear
    obtain ⟨group, moved, same⟩ := map_eq_some_iff.mp stepped
    exact .inl ⟨isClear, group, moved, same.symm⟩
  · rename_i notClear
    exact .inr ⟨notClear, cache, ran, (Option.some.inj stepped).symm⟩

variable [Fintype π] [Fintype ι]

/-- What one step is for the log and for the cache. -/
theorem step_parts (sound : Sound s) (stepped : step quota s label = some t)
    : t.start = s.start
      ∧ (t.group = s.group ∨ ∃ locked, groupStep quota s.group locked = some t.group)
      ∧ (t.cache = s.cache
        ∨ ∃ d action, Moves s.cache t.cache d action
          ∧ ∀ c dev blockno, d = .inl c → action = .bget dev blockno
            → label = .client c (.bget dev blockno)) := by
  obtain ⟨_, stepped⟩ := ite_none_left_eq_some.mp stepped
  cases label with
  | client c action =>
    obtain ⟨_, cache, acted, rfl⟩ := clientStep_spec stepped
    refine ⟨rfl, .inl rfl,
      .inr ⟨_, _, act_moves sound.coherent acted, fun d dev blockno same isGet => ?_⟩⟩
    cases same
    rw [isGet]
  | beginOp | endOp =>
    obtain ⟨group, moved, rfl⟩ := map_eq_some_iff.mp stepped
    exact ⟨rfl, .inr ⟨_, moved⟩, .inl rfl⟩
  | logWriteCheck p c =>
    obtain ⟨buf, _, stepped⟩ := Option.bind_eq_some_iff.mp stepped
    obtain ⟨group, moved, rfl⟩ := map_eq_some_iff.mp stepped
    exact ⟨rfl, .inr ⟨_, moved⟩, .inl rfl⟩
  | logWriteAppend p c =>
    obtain ⟨buf, _, stepped⟩ := Option.bind_eq_some_iff.mp stepped
    obtain ⟨group, moved, stepped⟩ := Option.bind_eq_some_iff.mp stepped
    obtain ⟨cache, acted, rfl⟩ := map_eq_some_iff.mp stepped
    exact ⟨rfl, .inr ⟨_, moved⟩, .inr ⟨_, _, act_moves sound.coherent acted, by simp⟩⟩
  | commit p =>
    obtain ⟨_, instr, rest, _, ⟨_, group, moved, same⟩ | ⟨notClear, cache, ran, same⟩⟩ :=
      commitInstr_spec stepped
    · subst same
      exact ⟨rfl, .inr ⟨_, moved⟩, .inl rfl⟩
    · subst same
      obtain ⟨isClear, _⟩ | ⟨side, action, _, moves, _⟩ := exec_moves sound.coherent ran
      · exact absurd isClear notClear
      · exact ⟨rfl, .inl rfl, .inr ⟨_, _, moves, by simp⟩⟩
  | commitDone p =>
    obtain ⟨_, stepped⟩ := ite_none_right_eq_some.mp stepped
    obtain ⟨group, moved, rfl⟩ := map_eq_some_iff.mp stepped
    exact ⟨rfl, .inr ⟨_, moved⟩, .inl rfl⟩

theorem step_sound (sound : Sound s) (stepped : step quota s label = some t)
    : Sound t := by
  obtain ⟨_, group, cache⟩ := step_parts sound stepped
  constructor
  · obtain same | ⟨c, action, moves, _⟩ := cache
    · exact same ▸ sound.coherent
    · exact moves.coherent sound.coherent
  · obtain same | ⟨locked, moved⟩ := group
    · exact same ▸ sound.grouped
    · exact sound.grouped.step moved

section

variable (sound : Sound s) (found : s.cache.ready (.inl c) = some buf)
  (moved : groupStep quota s.group (.logWriteAppend p buf.blockno) = some group)
include sound found moved

/-- `log_write` records its block in the header and pins its buffer. -/
theorem append_tracks (moves : Moves s.cache cache (.inl c) .logDirty) (calm : cache.panic = none)
    (tracks : Tracks s block data)
    : s.group.committing = false
      ∧ Tracks { s with group, cache, given := s.pass c } block data := by
  obtain ⟨x, changed, ready, same⟩ := ready_eq_some found
  obtain ⟨y, _, ready', _, away, _⟩ := moves.leaves calm
  rw [ready] at ready'
  cases ready'
  have free := sound.free_of_moved moved (by simp) (by simp)
  have still : group.committing = false :=
    (Logging.groupStep_committing moved (by simp) (by simp)).trans free
  refine ⟨free, tracks.linked.client sound.coherent moves, fun _ => ?_, fun busy => ?_⟩
  · refine ⟨(tracks.free free).1, fun z dirty => ?_⟩
    by_cases isPinned : z = x
    · have used := sound.coherent.toHeld.refcnt_pos (c := .inl c) (x := x) (by rw [ready]; rfl)
      rw [isPinned, (moves.block (.inl used)).2, same]
      exact Logging.groupAppend_logged moved
    · rw [away z isPinned] at dirty ⊢
      exact Logging.groupStep_logged moved (by simp) ((tracks.free free).2 z dirty)
  · rw [still] at busy
    cases busy

theorem append_mirrors (moves : Moves s.cache cache (.inl c) .logDirty) (calm : cache.panic = none)
    (tracks : Tracks s block data) (mirrors : Mirrors s block data)
    (apart : Apart s (.logWriteAppend p c))
    : Mirrors { s with group, cache, given := s.pass c } block data := by
  obtain ⟨outside, room⟩ := apart buf found
  obtain ⟨free, _⟩ := append_tracks sound found moved moves calm tracks
  obtain ⟨size, lh⟩ := Logging.groupStep_lh moved
  have harmless := mirrors.harmless
  rw [(tracks.free free).1] at harmless
  refine ⟨?_, fun b logged => ?_, fun _ => ?_, size ▸ mirrors.fits⟩
  · simp only [(tracks.free free).1, size]
    exact fun b isOutside => mirrors_given moves calm (.inr rfl) b (harmless b isOutside)
  · simp only [lh, size] at logged ⊢
    have member := LogHeader.mem_absorb.mp (List.mem_toFinset.mpr logged)
    rw [List.mem_toFinset] at member
    obtain same | earlier := member
    · exact same ▸ outside
    · exact mirrors.homes b earlier
  · have grown : (s.group.lh.absorb buf.blockno).n ≤ s.group.lh.n + 1 := by
      simp only [LogHeader.absorb]
      split <;> omega
    simp only [lh, size]
    omega

end

/-- The next access of a commit. -/
theorem commit_tracks (sound : Sound s) (stepped : commitInstr quota s p = some t)
    (calm : t.cache.panic = none) (tracks : Tracks s block data)
    : ∃ next moved, Tracks t next moved ∧ (Mirrors s block data → Mirrors t next moved) := by
  obtain ⟨inCommit, instr, rest, program, cases⟩ := commitInstr_spec stepped
  have busy := (sound.grouped.closed_of_inCommit inCommit).1
  have due := tracks.due busy
  rw [program] at due
  obtain ⟨isClear, group, moved, same⟩ | ⟨notClear, cache, ran, same⟩ := cases
  · subst same isClear
    obtain ⟨size, lh⟩ := Logging.groupStep_lh moved
    have still := (Logging.groupStep_committing moved (by simp) (by simp)).trans busy
    refine ⟨block, data, ⟨tracks.linked, fun isFree => ?_, fun _ => due⟩, fun mirrors => ?_⟩
    · exact Bool.noConfusion (still.symm.trans isFree)
    · have harmless := mirrors.harmless
      rw [program] at harmless
      refine ⟨?_, ?_, ?_, size ▸ mirrors.fits⟩
      · simp only [size, lh]
        exact harmless.2
      · simp [lh, LogHeader.logged]
      · simp [lh]
  · subst same
    obtain ⟨linked, contents⟩ := exec_linked tracks.linked sound.coherent ran calm
    refine ⟨_, _, ⟨linked, fun isFree => ?_, fun _ => ?_⟩, fun mirrors => ?_⟩
    · exact Bool.noConfusion (busy.symm.trans isFree)
    · exact exec_due tracks.linked sound.coherent ran calm due
    · have harmless := mirrors.harmless
      rw [program] at harmless
      refine ⟨?_, mirrors.homes, mirrors.room, mirrors.fits⟩
      have lh := effect_lh ⟨block, data, s.group.lh, s.cache.contents⟩ notClear
      have after := harmless.2
      generalize instr.effect ⟨block, data, s.group.lh, s.cache.contents⟩ = next at lh contents after
      obtain ⟨block', data', lh', contents'⟩ := next
      subst lh contents
      exact after

theorem step_tracks (sound : Sound s) (stepped : step quota s label = some t)
    (calm : t.cache.panic = none) (tracks : Tracks s block data)
    : ∃ next moved, Tracks t next moved
        ∧ (Mirrors s block data → Apart s label → Mirrors t next moved) := by
  obtain ⟨_, stepped⟩ := ite_none_left_eq_some.mp stepped
  cases label with
  | client c action =>
    exact ⟨block, data, client_tracks sound.coherent stepped tracks,
      client_mirrors sound.coherent stepped calm tracks⟩
  | beginOp p =>
    obtain ⟨group, moved, rfl⟩ := map_eq_some_iff.mp stepped
    obtain ⟨size, lh⟩ := Logging.groupStep_lh moved
    exact ⟨block, data,
      section_tracks lh (Logging.groupStep_committing moved (by simp) (by simp)) tracks,
      fun mirrors _ => mirrors.section lh size⟩
  | logWriteCheck p c =>
    obtain ⟨buf, _, stepped⟩ := Option.bind_eq_some_iff.mp stepped
    obtain ⟨group, moved, rfl⟩ := map_eq_some_iff.mp stepped
    obtain ⟨size, lh⟩ := Logging.groupStep_lh moved
    exact ⟨block, data,
      section_tracks lh (Logging.groupStep_committing moved (by simp) (by simp)) tracks,
      fun mirrors _ => mirrors.section lh size⟩
  | logWriteAppend p c =>
    obtain ⟨buf, found, stepped⟩ := Option.bind_eq_some_iff.mp stepped
    obtain ⟨group, moved, stepped⟩ := Option.bind_eq_some_iff.mp stepped
    obtain ⟨cache, acted, rfl⟩ := map_eq_some_iff.mp stepped
    have moves := act_moves sound.coherent acted
    exact ⟨block, data, (append_tracks sound found moved moves calm tracks).2,
      append_mirrors sound found moved moves calm tracks⟩
  | endOp p =>
    obtain ⟨group, moved, rfl⟩ := map_eq_some_iff.mp stepped
    obtain ⟨next, mirrors⟩ := endOp_tracks sound moved tracks
    exact ⟨block, data, next, fun before _ => mirrors before⟩
  | commit p =>
    obtain ⟨next, moved, after, mirrors⟩ := commit_tracks sound stepped calm tracks
    exact ⟨next, moved, after, fun before _ => mirrors before⟩
  | commitDone p =>
    obtain ⟨finished, stepped⟩ := ite_none_right_eq_some.mp stepped
    obtain ⟨group, moved, rfl⟩ := map_eq_some_iff.mp stepped
    obtain ⟨_, next, mirrors⟩ := done_tracks sound moved finished tracks
    exact ⟨block, data, next, fun before _ => mirrors before⟩

/-- The invariant of a run: the buffers of clients are those they asked for. -/
structure Reached (labels : List (Label π ι)) (s : State π ι) : Prop extends Sound s where
  asked
    : ∀ c x, (s.cache.use (.inl c)).on = some x
        → requested c labels = some ((s.cache.buf x).dev, (s.cache.buf x).blockno)

theorem bget_idle {κ : Type} [DecidableEq κ] {before after : Cache κ} {c : κ}
    {dev blockno : UInt32} (acted : act before c (.bget dev blockno) = some after)
    : before.use c = .idle := by
  obtain ⟨_, acted⟩ := ite_none_left_eq_some.mp acted
  exact (ite_none_right_eq_some.mp acted).1

theorem Reached.step {labels : List (Label π ι)} (before : Reached labels s)
    (stepped : step quota s label = some t)
    : Reached (labels ++ [label]) t := by
  refine ⟨step_sound before.toSound stepped, fun c x on => ?_⟩
  by_cases asks : ∃ dev blockno, label = .client c (.bget dev blockno)
  · obtain ⟨dev, blockno, rfl⟩ := asks
    obtain ⟨_, stepped⟩ := ite_none_left_eq_some.mp stepped
    obtain ⟨_, cache, acted, rfl⟩ := clientStep_spec stepped
    have idle := bget_idle acted
    obtain ⟨was, _⟩ | ⟨_, asked⟩ := (act_moves before.coherent acted).on before.coherent on
    · rw [idle] at was
      cases was
    · injection asked with dev blockno
      simp [requested_concat, dev, blockno]
  · have other : ∀ dev blockno, label ≠ .client c (.bget dev blockno) :=
      fun dev blockno isGet => asks ⟨dev, blockno, isGet⟩
    rw [requested_of_other c labels other]
    obtain ⟨_, _, same | ⟨d, action, moves, isClient⟩⟩ := step_parts before.toSound stepped
    · rw [same] at on ⊢
      exact before.asked c x on
    · obtain ⟨was, dev, blockno⟩ | ⟨isSelf, asked⟩ := moves.on before.coherent on
      · rw [dev, blockno]
        exact before.asked c x was
      · exact absurd (isClient c _ _ isSelf.symm asked) (other _ _)

section Init

variable {start size disksize : UInt32} {disk : UInt32 → Block} {labels : List (Label π ι)}

section

variable (reached : run (step quota) labels (State.init π ι start size disksize disk) = some s)
include reached

theorem run_reached
    : Reached labels s := by
  refine run_induction ⟨init_sound start size disksize disk, fun c x on => ?_⟩
    (fun labels s label t _ before stepped => before.step stepped) reached
  cases on

/-- The registers along a run, until a panic. -/
theorem run_tracks (calm : s.cache.panic = none)
    : ∃ block data, Tracks s block data
        ∧ (Along (step quota) Apart labels (State.init π ι start size disksize disk)
          → Mirrors s block data) := by
  refine run_induction
    (motive := fun labels s => s.cache.panic = none → ∃ block data, Tracks s block data
      ∧ (Along (step quota) Apart labels (State.init π ι start size disksize disk)
        → Mirrors s block data)) (fun _ => ?_) ?_ reached calm
  · refine ⟨fun _ => 0, fun _ => 0, ⟨⟨?_, ?_, ?_⟩, fun _ => ⟨rfl, ?_⟩, ?_⟩, fun _ => ⟨?_, ?_, ?_, ?_⟩⟩
    · intro side x on
      cases on
    · intro x changed ready
      cases ready
    · intro x changed ready
      cases ready
    · intro x dirty
      cases dirty
    · intro busy
      cases busy
    · intro b _
      rfl
    · simp [State.init, GroupState.init, LogHeader.logged]
    · simp [State.init, GroupState.init]
    · exact Nat.le_of_lt size.toNat_lt
  · intro labels s label t ran before stepped calm
    obtain ⟨block, data, tracks, mirrors⟩ := before (step_running stepped).2
    obtain ⟨next, moved, after, mirrored⟩ :=
      step_tracks (run_reached ran).toSound stepped calm tracks
    refine ⟨next, moved, after, fun along => ?_⟩
    obtain ⟨earlier, apart⟩ := (along_concat ran).mp along
    exact mirrored (mirrors earlier) apart

/-- The log stays where it is. -/
theorem run_start
    : s.start = start ∧ s.group.size = size.toNat := by
  refine run_induction (motive := fun _ s => s.start = start ∧ s.group.size = size.toNat)
    ⟨rfl, rfl⟩ (fun labels s label t ran before stepped => ?_) reached
  obtain ⟨sameStart, group, _⟩ := step_parts (run_reached ran).toSound stepped
  refine ⟨sameStart.trans before.1, ?_⟩
  obtain same | ⟨locked, moved⟩ := group
  · exact same ▸ before.2
  · exact (Logging.groupStep_lh moved).1.trans before.2

end

/-- In every run of clients, operations and commits: what a client reads are the contents last
passed to `bwrite` or `log_write` for the block it asked for, which are those that the clients
gave unless it is a block of the log or a client interferes with a commit; no two live buffers
cache the same block; a buffer that is referenced or dirty keeps its block; and the end of a
commit leaves nothing dirty.
-/
theorem cache_transparent
    (reached : run (step quota) labels (State.init π ι start size disksize disk) = some s)
    : (∀ c x, s.cache.use (.inl c) = .ready x false
        → ∃ b, requested c labels = some (1, b)
          ∧ (s.cache.buf x).data = s.cache.contents b
          ∧ (s.cache.panic = none
            → Along (step quota) Apart labels (State.init π ι start size disksize disk)
            → ¬ InLog start size.toNat b
            → (s.cache.buf x).data = s.given b))
      ∧ (∀ x y, (s.cache.buf x).Live → (s.cache.buf y).Live
        → (s.cache.buf x).dev = (s.cache.buf y).dev
        → (s.cache.buf x).blockno = (s.cache.buf y).blockno
        → x = y)
      ∧ (∀ label t x, step quota s label = some t
        → 0 < (s.cache.buf x).refcnt ∨ (s.cache.buf x).dirty = true
        → (t.cache.buf x).dev = (s.cache.buf x).dev
          ∧ (t.cache.buf x).blockno = (s.cache.buf x).blockno)
      ∧ (∀ p t, step quota s (.commitDone p) = some t → ∀ x, (t.cache.buf x).dirty = false) := by
  have invariant := run_reached reached
  refine ⟨fun c x ready => ?_, fun x y live other dev block => ?_, fun label t x stepped used => ?_,
    fun p t stepped => ?_⟩
  · obtain ⟨dev, read⟩ := invariant.coherent.data_of_ready ready
    refine ⟨_, dev ▸ invariant.asked c x (by rw [ready]; rfl), read, fun calm along outside => ?_⟩
    obtain ⟨block, data, _, mirrors⟩ := run_tracks reached calm
    obtain ⟨sameStart, sameSize⟩ := run_start reached
    rw [← sameStart, ← sameSize] at outside
    exact read.trans ((mirrors along).harmless.now _ outside)
  · exact invariant.coherent.toListed.unique live other dev block
  · obtain ⟨_, _, same | ⟨d, action, moves, _⟩⟩ := step_parts invariant.toSound stepped
    · rw [same]
      exact ⟨rfl, rfl⟩
    · exact moves.block used
  · obtain ⟨block, data, tracks, _⟩ := run_tracks reached (step_running stepped).2
    obtain ⟨_, stepped⟩ := Option.ite_none_left_eq_some.mp stepped
    obtain ⟨finished, stepped⟩ := Option.ite_none_right_eq_some.mp stepped
    obtain ⟨group, moved, rfl⟩ := Option.map_eq_some_iff.mp stepped
    exact (done_tracks invariant.toSound moved finished tracks).1

end Init

end Runs

/-- One client logs a change of block 50, the commit writes it, and the client reads it again. -/
def loggedChange : List (Label (Fin 1) (Fin 1)) :=
  [.beginOp 0, .client 0 (.bget 1 50), .client 0 .acquiresleep, .client 0 .bread,
    .client 0 (.modify fun _ => 7), .logWriteCheck 0 0, .logWriteAppend 0 0,
    .client 0 .releasesleep, .client 0 .brelse, .endOp 0]
  ++ List.replicate 39 (.commit 0)
  ++ [.commitDone 0, .client 0 (.bget 1 50), .client 0 .acquiresleep, .client 0 .bread]

theorem loggedChange_transparent
    : ∃ s, run (step 10) loggedChange (State.init (Fin 1) (Fin 1) 2 31 1000 fun _ _ => 0) = some s
        ∧ (s.cache.buf 0).data = s.given 50
        ∧ s.given 50 0 = 7
        ∧ (s.cache.buf 0).dirty = false := by
  obtain ⟨s, reached, ready, calm, seven, clean⟩ : ∃ s ∈ run (step 10) loggedChange
        (State.init (Fin 1) (Fin 1) 2 31 1000 fun _ _ => 0),
      s.cache.use (.inl 0) = .ready 0 false ∧ s.cache.panic = none ∧ s.given 50 0 = 7
        ∧ (s.cache.buf 0).dirty = false := by
    decide +kernel
  have apart : Along (step 10) Apart loggedChange
      (State.init (Fin 1) (Fin 1) 2 31 1000 fun _ _ => 0) := by
    decide +kernel
  obtain ⟨b, asked, _, mirrored⟩ := (cache_transparent reached).1 0 0 ready
  have fifty : b = 50 := by
    have last : requested 0 loggedChange = some (1, 50) := by decide +kernel
    rw [last] at asked
    exact (Prod.mk.inj (Option.some.inj asked)).2.symm
  subst fifty
  exact ⟨s, reached, mirrored calm apart (by decide), seven, clean⟩

end Xv6.Bio
