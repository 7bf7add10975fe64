import Xv6.Bio.Model

/-! The buffer cache is transparent: every action of a user keeps the cache coherent.
A buffer in use is the first of the list that caches its block, so that a block has one such
buffer; its data are the contents of the block unless its holder has changed them; and only a
dirty buffer differs from the disk.
-/

namespace Xv6.Bio

open Xv6.Lib
open Function (update update_self update_of_ne update_eq_self)

/-- The buffer a user has a reference to. -/
def Use.on : Use → Option BufId
  | .waiting x | .locked x | .ready x _ | .released x => some x
  | .idle => none

/-- The buffer a user has locked. -/
def Use.holds : Use → Option BufId
  | .locked x | .ready x _ => some x
  | _ => none

/-- The references of a user to a buffer. -/
def Use.refs (x : BufId) (use : Use) : Nat := if use.on = some x then 1 else 0

variable {ι : Type}

/-- Referenced, `B_VALID` or `B_DIRTY`. -/
def Buf.Live (buf : Buf ι) : Prop := 0 < buf.refcnt ∨ buf.valid = true ∨ buf.dirty = true

/-- The list has all buffers, and a live one is the first that caches its block. -/
structure Listed (s : Cache ι) : Prop where
  nodup : s.order.Nodup
  all : ∀ x, x ∈ s.order
  first
    : ∀ x, (s.buf x).Live
        → s.order.find? (fun y => (s.buf y).caches (s.buf x).dev (s.buf x).blockno) = some x

/-- `refcnt` counts the users of a buffer; the lock has its holder, who read the buffer. -/
structure Held [Fintype ι] (s : Cache ι) : Prop where
  count : ∀ x, (s.buf x).refcnt = total (Use.refs x) s.use
  lock : ∀ x c, (s.buf x).lock = some c ↔ (s.use c).holds = some x
  ready : ∀ c x changed, s.use c = .ready x changed → (s.buf x).valid = true

/-- A valid buffer has the contents of its block, which the disk has unless it is dirty. -/
structure Faithful (s : Cache ι) : Prop where
  onDisk : ∀ x, (s.buf x).valid = true → (s.buf x).dev = 1 ∧ (s.buf x).blockno < s.disksize
  dirty : ∀ x, (s.buf x).dirty = true → (s.buf x).valid = true
  data
    : ∀ x, (s.buf x).valid = true
        → (∀ c, s.use c ≠ .ready x true)
        → (s.buf x).data = s.contents (s.buf x).blockno
  disk
    : ∀ b, s.disk b ≠ s.contents b
        → ∃ x, (s.buf x).dirty = true ∧ (s.buf x).dev = 1 ∧ (s.buf x).blockno = b

structure Coherent [Fintype ι] (s : Cache ι) : Prop extends Listed s, Held s, Faithful s

theorem caches_iff {buf : Buf ι} {dev blockno : UInt32}
    : buf.caches dev blockno = true ↔ buf.dev = dev ∧ buf.blockno = blockno := by
  simp [Buf.caches]

variable {s t : Cache ι} {x : BufId}

/-- Two live buffers cache different blocks. -/
theorem Listed.unique (listed : Listed s) {y : BufId} (live : (s.buf x).Live)
    (other : (s.buf y).Live) (dev : (s.buf x).dev = (s.buf y).dev)
    (blockno : (s.buf x).blockno = (s.buf y).blockno)
    : x = y := by
  have first := listed.first x live
  have second := listed.first y other
  rw [dev, blockno] at first
  exact Option.some.inj (first.symm.trans second)

/-- Buffers that keep their blocks and do not come alive keep their places. -/
theorem Listed.keep (listed : Listed s) (order : t.order = s.order)
    (dev : ∀ x, (t.buf x).dev = (s.buf x).dev)
    (blockno : ∀ x, (t.buf x).blockno = (s.buf x).blockno)
    (live : ∀ x, (t.buf x).Live → (s.buf x).Live)
    : Listed t := by
  refine ⟨order ▸ listed.nodup, order ▸ listed.all, fun x alive => ?_⟩
  have same : (fun y => (t.buf y).caches (t.buf x).dev (t.buf x).blockno)
      = fun y => (s.buf y).caches (s.buf x).dev (s.buf x).blockno := by
    funext y
    simp only [Buf.caches, dev, blockno]
  rw [order, same]
  exact listed.first x (live x alive)

/-- A buffer may move to the front if no other live one has its block. -/
theorem Listed.front (listed : Listed s) (buf : t.buf = s.buf) (order : t.order = touch x s.order)
    (only : ∀ y, (s.buf y).Live → (s.buf x).caches (s.buf y).dev (s.buf y).blockno = true → y = x)
    : Listed t := by
  refine ⟨order ▸ nodup_touch listed.nodup, order ▸ mem_touch listed.all, fun y live => ?_⟩
  rw [buf] at live ⊢
  rw [order]
  cases found : (s.buf x).caches (s.buf y).dev (s.buf y).blockno with
  | true =>
    have same := only y live found
    rw [same] at found ⊢
    exact find?_touch_self found
  | false =>
    have skipped
        : (touch x s.order).find? (fun z => (s.buf z).caches (s.buf y).dev (s.buf y).blockno)
          = s.order.find? fun z => (s.buf z).caches (s.buf y).dev (s.buf y).blockno :=
      find?_touch_of_not found
    exact skipped.trans (listed.first y live)

/-- The list, the disk and the contents stay. -/
structure Quiet (s t : Cache ι) : Prop where
  order : t.order = s.order
  disk : t.disk = s.disk
  contents : t.contents = s.contents

/-- Where the disk differs from the contents, the buffer or another one is dirty. -/
theorem Quiet.differs (quiet : Quiet s t) (faithful : Faithful s) (x : BufId) {b : UInt32}
    (differs : t.disk b ≠ t.contents b)
    : ((s.buf x).dirty = true ∧ (s.buf x).dev = 1 ∧ (s.buf x).blockno = b)
      ∨ ∃ y, y ≠ x ∧ (s.buf y).dirty = true ∧ (s.buf y).dev = 1 ∧ (s.buf y).blockno = b := by
  rw [quiet.disk, quiet.contents] at differs
  obtain ⟨y, isDirty, isBlock⟩ := faithful.disk b differs
  by_cases same : y = x
  · exact .inl (same ▸ ⟨isDirty, isBlock⟩)
  · exact .inr ⟨y, same, isDirty, isBlock⟩

/-- `iderw` panics, or it writes a dirty buffer and reads into another. -/
theorem iderw_cases (s : Cache ι) (x : BufId)
    : (∃ panic, iderw s x = { s with panic := some panic })
      ∨ ((s.buf x).dev = 1
        ∧ (s.buf x).blockno < s.disksize
        ∧ iderw s x
          = if (s.buf x).dirty then
              { s.setBuf x { s.buf x with dirty := false, valid := true } with
                disk := update s.disk (s.buf x).blockno (s.buf x).data }
            else s.setBuf x { s.buf x with data := s.disk (s.buf x).blockno, valid := true }) := by
  unfold iderw
  simp only
  split
  · exact .inl ⟨_, rfl⟩
  split
  · exact .inl ⟨_, rfl⟩
  split
  · exact .inl ⟨_, rfl⟩
  split
  · exact .inl ⟨_, rfl⟩
  rename_i disk1 inRange
  exact .inr ⟨not_not.mp disk1, UInt32.not_le.mp inRange, rfl⟩

section Users

variable [Fintype ι] {c : ι}

theorem Use.on_of_holds {use : Use} (holds : use.holds = some x) : use.on = some x := by
  cases use <;> simp_all [Use.holds, Use.on]

theorem Held.refcnt_pos (held : Held s) (on : (s.use c).on = some x) : 0 < (s.buf x).refcnt := by
  have bound := le_total (Use.refs x) s.use c
  have one : Use.refs x (s.use c) = 1 := by simp [Use.refs, on]
  have count := held.count x
  omega

/-- A buffer without references has no users. -/
theorem Held.on_ne (held : Held s) (none : (s.buf x).refcnt = 0) (d : ι)
    : (s.use d).on ≠ some x := by
  intro on
  have zero := total_eq_zero ((held.count x).symm.trans none) d
  simp [Use.refs, on] at zero

/-- Only what a panic stops is different after it. -/
theorem Coherent.panicked (coherent : Coherent s) (panic : Option Panic)
    : Coherent { s with panic } :=
  ⟨⟨coherent.nodup, coherent.all, coherent.first⟩, ⟨coherent.count, coherent.lock, coherent.ready⟩,
    ⟨coherent.onDisk, coherent.dirty, coherent.data, coherent.disk⟩⟩

/-- A block that no valid buffer caches has its contents on the disk. -/
theorem Coherent.disk_eq (coherent : Coherent s) (live : (s.buf x).Live) (dev : (s.buf x).dev = 1)
    (clean : (s.buf x).dirty = false)
    : s.disk (s.buf x).blockno = s.contents (s.buf x).blockno := by
  by_contra differs
  obtain ⟨y, dirty, onDisk, block⟩ := coherent.disk _ differs
  have same : y = x := coherent.toListed.unique (.inr (.inr dirty)) live (onDisk.trans dev.symm) block
  rw [same, clean] at dirty
  cases dirty

/-- What a user reads are the contents of the block, until it changes them. -/
theorem Coherent.data_of_ready (coherent : Coherent s) (ready : s.use c = .ready x false)
    : (s.buf x).dev = 1 ∧ (s.buf x).data = s.contents (s.buf x).blockno := by
  have valid := coherent.ready c x false ready
  refine ⟨(coherent.onDisk x valid).1, coherent.data x valid fun d other => ?_⟩
  -- the lock has one holder, and it has changed nothing
  have mine := (coherent.lock x c).mpr (by rw [ready]; rfl)
  have locked := (coherent.lock x d).mpr (by rw [other]; rfl)
  have same : c = d := Option.some.inj (mine.symm.trans locked)
  rw [← same, ready] at other
  cases other

theorem binit_coherent (disk : UInt32 → Block) (disksize : UInt32)
    : Coherent (Cache.binit ι disk disksize) := by
  refine ⟨⟨?_, fun x => ?_, fun x live => ?_⟩, ⟨fun x => ?_, fun x c => ?_, fun c x changed => ?_⟩,
    ⟨fun x valid => (nomatch valid), fun x dirty => (nomatch dirty),
      fun x valid => (nomatch valid), fun b differs => absurd rfl differs⟩⟩
  · exact List.nodup_reverse.mpr (List.nodup_finRange nbuf)
  · exact List.mem_reverse.mpr (List.mem_finRange x)
  · simp [Buf.Live, Cache.binit] at live
  · simp [Cache.binit, total, Use.refs, Use.on]
  · simp [Cache.binit, Use.holds]
  · simp [Cache.binit]

end Users

section Actions

variable [DecidableEq ι] {c : ι} {next : Buf ι} {use : Use}

/-- User `c` makes one step and changes at most buffer `x`. -/
structure Edits (s t : Cache ι) (c : ι) (x : BufId) (next : Buf ι) (use : Use) : Prop where
  buf : t.buf = update s.buf x next
  use : t.use = update s.use c use
  disksize : t.disksize = s.disksize
  panic : t.panic = s.panic

/-- The data of buffer `x` become the contents of its block, in a dirty buffer or on the disk. -/
structure Gives (s t : Cache ι) (c : ι) (x : BufId) (dirty : Bool) : Prop
    extends Edits s t c x { s.buf x with dirty, valid := true } (.ready x false) where
  order : t.order = s.order
  contents : t.contents = update s.contents (s.buf x).blockno (s.buf x).data
  disk
    : t.disk
      = if dirty then s.disk
        else update s.disk (s.buf x).blockno (s.buf x).data

/-- What an action of a user does. -/
inductive Moves (s t : Cache ι) (c : ι) : Action → Prop where
  | panicked {action : Action} (panic : Panic) (stopped : t = { s with panic := some panic })
    : Moves s t c action
  | hit {dev blockno : UInt32} {x : BufId} (idle : s.use c = .idle)
    (found : (s.order.find? fun y => (s.buf y).caches dev blockno) = some x)
    (edits : Edits s t c x { s.buf x with refcnt := (s.buf x).refcnt + 1 } (.waiting x))
    (quiet : Quiet s t)
    : Moves s t c (.bget dev blockno)
  | recycled {dev blockno : UInt32} {x : BufId} (idle : s.use c = .idle)
    (missing : ∀ y, (s.buf y).caches dev blockno = false) (unused : (s.buf x).unused = true)
    (edits : Edits s t c x
      { s.buf x with dev, blockno, valid := false, dirty := false, refcnt := 1 } (.waiting x))
    (quiet : Quiet s t)
    : Moves s t c (.bget dev blockno)
  | acquired {x : BufId} (waits : s.use c = .waiting x) (free : (s.buf x).lock = none)
    (edits : Edits s t c x { s.buf x with lock := some c } (.locked x)) (quiet : Quiet s t)
    : Moves s t c .acquiresleep
  | cached {x : BufId} (locked : s.use c = .locked x) (valid : (s.buf x).valid = true)
    (edits : Edits s t c x (s.buf x) (.ready x false)) (quiet : Quiet s t)
    : Moves s t c .bread
  | filled {x : BufId} (locked : s.use c = .locked x) (invalid : (s.buf x).valid = false)
    (clean : (s.buf x).dirty = false) (dev : (s.buf x).dev = 1)
    (inRange : (s.buf x).blockno < s.disksize)
    (edits : Edits s t c x { s.buf x with data := s.disk (s.buf x).blockno, valid := true }
      (.ready x false))
    (quiet : Quiet s t)
    : Moves s t c .bread
  | modified {x : BufId} {changed : Bool} {data : Block} (ready : s.use c = .ready x changed)
    (edits : Edits s t c x { s.buf x with data } (.ready x true)) (quiet : Quiet s t)
    : Moves s t c (.modify data)
  | written {x : BufId} {changed : Bool} (ready : s.use c = .ready x changed)
    (gives : Gives s t c x false)
    : Moves s t c .bwrite
  | logged {x : BufId} {changed : Bool} (ready : s.use c = .ready x changed)
    (gives : Gives s t c x true)
    : Moves s t c .logDirty
  | unlocked {x : BufId} (ready : s.use c = .ready x false)
    (edits : Edits s t c x { s.buf x with lock := none } (.released x)) (quiet : Quiet s t)
    : Moves s t c .releasesleep
  | dropped {x : BufId} (released : s.use c = .released x)
    (edits : Edits s t c x { s.buf x with refcnt := (s.buf x).refcnt - 1 } .idle)
    (order : t.order = s.order ∨ t.order = touch x s.order) (disk : t.disk = s.disk)
    (contents : t.contents = s.contents)
    : Moves s t c .brelse

theorem Edits.here (edits : Edits s t c x next use) : t.buf x = next := by
  rw [edits.buf, update_self]

variable {y : BufId} {d : ι} {dev blockno : UInt32} {action : Action}

section

variable (edits : Edits s t c x next use)
include edits

theorem Edits.away (other : y ≠ x)
    : t.buf y = s.buf y := by
  rw [edits.buf, update_of_ne other]

/-- What holds of all buffers after the step. -/
theorem Edits.all {P : BufId → Buf ι → Prop} (here : P x next) (away : ∀ y, y ≠ x → P y (s.buf y))
    (y : BufId)
    : P y (t.buf y) := by
  by_cases same : y = x
  · rw [same, edits.here]
    exact here
  · rw [edits.away same]
    exact away y same

/-- A field that the step leaves alone in one buffer has not changed in any. -/
theorem Edits.field {α : Type} (field : Buf ι → α) (same : field next = field (s.buf x)) (y : BufId)
    : field (t.buf y) = field (s.buf y) :=
  edits.all (P := fun y buf => field buf = field (s.buf y)) same (fun _ _ => rfl) y

/-- Changes that wait for `bwrite` or `log_write` still wait, unless they are the user's. -/
theorem Edits.changed (given : s.use c ≠ .ready y true) (reads : s.use d = .ready y true)
    : t.use d = .ready y true := by
  have other : d ≠ c := by
    intro isSelf
    exact given (isSelf ▸ reads)
  rw [edits.use, update_of_ne other, reads]

/-- A step that gives no buffer another block and wakes none up. -/
theorem Edits.listed (listed : Listed s) (order : t.order = s.order)
    (dev : next.dev = (s.buf x).dev) (blockno : next.blockno = (s.buf x).blockno)
    (live : next.Live → (s.buf x).Live)
    : Listed t :=
  listed.keep order (edits.field Buf.dev dev) (edits.field Buf.blockno blockno)
    (edits.all (P := fun y buf => buf.Live → (s.buf y).Live) live fun _ _ => id)

/-- The contents after the step, which may change those of the block of the buffer. -/
theorem Edits.faithful (faithful : Faithful s)
    (onDisk : next.valid = true → next.dev = 1 ∧ next.blockno < s.disksize)
    (dirty : next.dirty = true → next.valid = true)
    (data : next.valid = true → (∀ d, t.use d ≠ .ready x true)
      → next.data = t.contents next.blockno)
    (others : ∀ y, y ≠ x → (s.buf y).valid = true
      → t.contents (s.buf y).blockno = s.contents (s.buf y).blockno)
    (given : ∀ y, y ≠ x → s.use c ≠ .ready y true)
    (disk : ∀ b, t.disk b ≠ t.contents b
      → (next.dirty = true ∧ next.dev = 1 ∧ next.blockno = b)
        ∨ ∃ y, y ≠ x ∧ (s.buf y).dirty = true ∧ (s.buf y).dev = 1 ∧ (s.buf y).blockno = b)
    : Faithful t := by
  refine ⟨fun y valid => ?_, fun y isDirty => ?_, fun y valid passed => ?_, fun b differs => ?_⟩
  · rw [edits.disksize]
    exact edits.all (P := fun _ buf => buf.valid = true → buf.dev = 1 ∧ buf.blockno < s.disksize)
      onDisk (fun y _ => faithful.onDisk y) y valid
  · exact edits.all (P := fun _ buf => buf.dirty = true → buf.valid = true) dirty
      (fun y _ => faithful.dirty y) y isDirty
  · by_cases same : y = x
    · rw [same, edits.here] at valid ⊢
      exact data valid (same ▸ passed)
    · rw [edits.away same] at valid ⊢
      rw [others y same valid]
      exact faithful.data y valid fun d reads => passed d (edits.changed (given y same) reads)
  · obtain isNext | ⟨y, same, isOther⟩ := disk b differs
    · exact ⟨x, by rw [edits.here]; exact isNext⟩
    · exact ⟨y, by rw [edits.away same]; exact isOther⟩

/-- A step that changes neither flags nor data, of a user that has nothing to pass on. -/
theorem Edits.faithful_same (faithful : Faithful s) (valid : next.valid = (s.buf x).valid)
    (dirty : next.dirty = (s.buf x).dirty) (dev : next.dev = (s.buf x).dev)
    (blockno : next.blockno = (s.buf x).blockno) (data : next.data = (s.buf x).data)
    (quiet : Quiet s t) (given : ∀ y, s.use c ≠ .ready y true)
    : Faithful t := by
  refine edits.faithful faithful (fun isValid => ?_) (fun isDirty => ?_)
    (fun isValid passed => ?_) (fun y _ _ => by rw [quiet.contents]) (fun y _ => given y)
    (fun b differs => ?_)
  · rw [dev, blockno]
    exact faithful.onDisk x (valid ▸ isValid)
  · rw [valid]
    exact faithful.dirty x (dirty ▸ isDirty)
  · rw [data, blockno, quiet.contents]
    exact faithful.data x (valid ▸ isValid) fun d reads => passed d (edits.changed (given x) reads)
  · rw [dirty, dev, blockno]
    exact quiet.differs faithful x differs

variable [Fintype ι]

/-- The users after the step: the counts, the locks and the buffers that were read. -/
theorem Edits.held (held : Held s)
    (refcnt : next.refcnt + Use.refs x (s.use c) = (s.buf x).refcnt + Use.refs x use)
    (before : ∀ y, (s.use c).on = some y → y = x) (after : ∀ y, use.on = some y → y = x)
    (self : next.lock = some c ↔ use.holds = some x)
    (others : ∀ d, d ≠ c → (next.lock = some d ↔ (s.buf x).lock = some d))
    (ready : (∃ y changed, use = .ready y changed) → next.valid = true)
    (valid : (∃ d, (s.use d).on = some x) → (s.buf x).valid = true → next.valid = true)
    : Held t := by
  refine ⟨fun y => ?_, fun y d => ?_, fun d y changed reads => ?_⟩
  · have exchanged := total_update (Use.refs y) s.use c use
    have count := held.count y
    rw [edits.use]
    by_cases same : y = x
    · rw [same, edits.here]
      rw [same] at exchanged count
      omega
    · rw [edits.away same]
      have left : Use.refs y (s.use c) = 0 := if_neg fun on => same (before y on)
      have none : Use.refs y use = 0 := if_neg fun on => same (after y on)
      omega
  · rw [edits.use]
    by_cases isSelf : d = c
    · rw [isSelf, update_self]
      by_cases same : y = x
      · rw [same, edits.here]
        exact self
      · rw [edits.away same, held.lock]
        exact ⟨fun holds => absurd (before y (Use.on_of_holds holds)) same,
          fun holds => absurd (after y (Use.on_of_holds holds)) same⟩
    · rw [update_of_ne isSelf, ← held.lock]
      by_cases same : y = x
      · rw [same, edits.here]
        exact others d isSelf
      · rw [edits.away same]
  · by_cases isSelf : d = c
    · rw [edits.use, isSelf, update_self] at reads
      have same : y = x := after y (by rw [reads]; rfl)
      rw [same, edits.here]
      exact ready ⟨y, changed, reads⟩
    · rw [edits.use, update_of_ne isSelf] at reads
      by_cases same : y = x
      · rw [same] at reads
        rw [same, edits.here]
        exact valid ⟨d, by rw [reads]; rfl⟩ (held.ready d x changed reads)
      · rw [edits.away same]
        exact held.ready d y changed reads

/-- A user that has its buffer locked goes on with it. -/
theorem Edits.held_on (held : Held s) (on : (s.use c).on = some x) (still : use.on = some x)
    (holds : use.holds = (s.use c).holds) (refcnt : next.refcnt = (s.buf x).refcnt)
    (lock : next.lock = (s.buf x).lock) (valid : next.valid = true)
    : Held t := by
  refine edits.held held ?_ (by simp [on, eq_comm]) (by simp [still, eq_comm]) ?_
    (fun d _ => by rw [lock]) (fun _ => valid) (fun _ _ => valid)
  · simp [on, still, refcnt, Use.refs]
  · rw [lock, holds, held.lock]

end

/-! What a move leaves alone. -/

theorem Moves.contents (moves : Moves s t c action) (notWrite : action ≠ .bwrite)
    (notLog : action ≠ .logDirty)
    : t.contents = s.contents := by
  cases moves with
  | panicked _ stopped => rw [stopped]
  | written _ _ => exact absurd rfl notWrite
  | logged _ _ => exact absurd rfl notLog
  | dropped _ _ _ _ contents => exact contents
  | hit _ _ _ quiet | recycled _ _ _ _ quiet | acquired _ _ _ quiet | cached _ _ _ quiet
  | filled _ _ _ _ _ _ quiet | modified _ _ quiet | unlocked _ _ quiet => exact quiet.contents

/-- Where an action leaves its user, and the contents of the blocks. -/
def Action.Leaves (s t : Cache ι) (c : ι) : Action → Prop
  | .bget _ _ => s.use c = .idle ∧ (∀ x changed, t.use c ≠ .ready x changed) ∧ t.contents = s.contents
  | .acquiresleep | .releasesleep | .brelse =>
      (∀ x changed, t.use c ≠ .ready x changed) ∧ t.contents = s.contents
  | .bread => (∃ x, t.use c = .ready x false) ∧ t.contents = s.contents
  | .modify data => (∃ x, t.use c = .ready x true ∧ (t.buf x).data = data) ∧ t.contents = s.contents
  | .bwrite =>
      ∃ x changed, s.use c = .ready x changed
        ∧ t.use c = .ready x false
        ∧ (t.buf x).data = (s.buf x).data
        ∧ (t.buf x).dirty = false
        ∧ t.contents = update s.contents (s.buf x).blockno (s.buf x).data
  | .logDirty =>
      ∃ x changed, s.use c = .ready x changed
        ∧ t.use c = .ready x false
        ∧ (∀ y, y ≠ x → t.buf y = s.buf y)
        ∧ t.contents = update s.contents (s.buf x).blockno (s.buf x).data

theorem Moves.leaves (moves : Moves s t c action) (calm : t.panic = none)
    : action.Leaves s t c := by
  have place : ∀ {x next use}, Edits s t c x next use → t.use c = use := fun edits => by
    rw [edits.use, update_self]
  cases moves with
  | panicked panic stopped =>
    rw [stopped] at calm
    cases calm
  | hit idle _ edits quiet | recycled idle _ _ edits quiet =>
    exact ⟨idle, by simp [place edits], quiet.contents⟩
  | acquired _ _ edits quiet | unlocked _ edits quiet =>
    exact ⟨by simp [place edits], quiet.contents⟩
  | cached _ _ edits quiet | filled _ _ _ _ _ edits quiet =>
    exact ⟨⟨_, place edits⟩, quiet.contents⟩
  | modified _ edits quiet => exact ⟨⟨_, place edits, by rw [edits.here]⟩, quiet.contents⟩
  | written ready gives =>
    exact ⟨_, _, ready, place gives.toEdits, by rw [gives.here], by rw [gives.here], gives.contents⟩
  | logged ready gives =>
    exact ⟨_, _, ready, place gives.toEdits, fun y other => gives.away other, gives.contents⟩
  | dropped _ edits _ _ contents => exact ⟨by simp [place edits], contents⟩

/-- What all moves have in common: the buffer keeps its block unless it was unused, and its
data unless it was not valid or is the user's own.
-/
structure Frame (s t : Cache ι) (c : ι) (action : Action) (x : BufId) (next : Buf ι)
    (place : Use) : Prop extends Edits s t c x next place where
  block
    : (next.dev = (s.buf x).dev ∧ next.blockno = (s.buf x).blockno) ∨ (s.buf x).unused = true
  data : next.data = (s.buf x).data ∨ (s.buf x).valid = false ∨ (s.use c).holds = some x
  dirty : next.dirty = true → (s.buf x).dirty = true ∨ action = .logDirty
  on
    : ∀ y, place.on = some y
        → (s.use c).on = some y ∨ (y = x ∧ action = .bget next.dev next.blockno)

section

variable (moves : Moves s t c action)
include moves

theorem Moves.frame
    : (∃ panic, t = { s with panic := some panic })
      ∨ ∃ x next use, Frame s t c action x next use := by
  cases moves with
  | panicked panic stopped => exact .inl ⟨panic, stopped⟩
  | @hit dev blockno x idle found edits quiet =>
    have holds : (s.buf x).caches dev blockno = true := by simpa using List.find?_some found
    obtain ⟨sameDev, sameBlock⟩ := caches_iff.mp holds
    exact .inr ⟨_, _, _, edits, .inl ⟨rfl, rfl⟩, .inl rfl, .inl,
      fun y on => .inr ⟨(Option.some.inj on).symm, by rw [sameDev, sameBlock]⟩⟩
  | recycled idle missing unused edits quiet =>
    exact .inr ⟨_, _, _, edits, .inr unused, .inl rfl, fun dirty => (nomatch dirty),
      fun y on => .inr ⟨(Option.some.inj on).symm, rfl⟩⟩
  | acquired has _ edits | cached has _ edits | unlocked has edits =>
    exact .inr ⟨_, _, _, edits, .inl ⟨rfl, rfl⟩, .inl rfl, .inl, fun y on => .inl (has ▸ on)⟩
  | filled locked invalid clean dev inRange edits quiet =>
    exact .inr ⟨_, _, _, edits, .inl ⟨rfl, rfl⟩, .inr (.inl invalid), .inl,
      fun y on => .inl (locked ▸ on)⟩
  | modified ready edits quiet =>
    exact .inr ⟨_, _, _, edits, .inl ⟨rfl, rfl⟩, .inr (.inr (ready ▸ rfl)), .inl,
      fun y on => .inl (ready ▸ on)⟩
  | written ready gives =>
    exact .inr ⟨_, _, _, gives.toEdits, .inl ⟨rfl, rfl⟩, .inl rfl, fun dirty => (nomatch dirty),
      fun y on => .inl (ready ▸ on)⟩
  | logged ready gives =>
    exact .inr ⟨_, _, _, gives.toEdits, .inl ⟨rfl, rfl⟩, .inl rfl, fun _ => .inr rfl,
      fun y on => .inl (ready ▸ on)⟩
  | dropped released edits order disk contents =>
    exact .inr ⟨_, _, _, edits, .inl ⟨rfl, rfl⟩, .inl rfl, .inl, fun y on => (nomatch on)⟩

/-- A buffer is the one that the move edits, or stays as it is. -/
theorem Moves.buf (y : BufId)
    : t.buf y = s.buf y ∨ ∃ next use, Frame s t c action y next use := by
  obtain ⟨panic, stopped⟩ | ⟨x, next, use, frame⟩ := moves.frame
  · exact .inl (by rw [stopped])
  · by_cases same : y = x
    · exact .inr ⟨next, use, same ▸ frame⟩
    · exact .inl (frame.away same)

theorem Moves.use_of_ne (other : d ≠ c)
    : t.use d = s.use d := by
  obtain ⟨panic, stopped⟩ | ⟨x, next, use, frame⟩ := moves.frame
  · rw [stopped]
  · rw [frame.use, update_of_ne other]

/-- Only a buffer that nobody uses and that is not dirty gets another block. -/
theorem Moves.block (used : 0 < (s.buf y).refcnt ∨ (s.buf y).dirty = true)
    : (t.buf y).dev = (s.buf y).dev ∧ (t.buf y).blockno = (s.buf y).blockno := by
  obtain same | ⟨next, use, frame⟩ := moves.buf y
  · rw [same]
    exact ⟨rfl, rfl⟩
  · rw [frame.here]
    refine frame.block.resolve_right fun unused => ?_
    obtain ⟨none, clean⟩ : (s.buf y).refcnt = 0 ∧ (s.buf y).dirty = false := by
      simpa [Buf.unused] using unused
    cases used with
    | inl referenced => omega
    | inr dirty => exact Bool.noConfusion (clean.symm.trans dirty)

theorem Moves.dirty (notLog : action ≠ .logDirty) (dirty : (t.buf y).dirty = true)
    : (s.buf y).dirty = true := by
  obtain same | ⟨next, use, frame⟩ := moves.buf y
  · rwa [same] at dirty
  · rw [frame.here] at dirty
    exact (frame.dirty dirty).resolve_right notLog

variable [Fintype ι]

/-- A buffer that one user has read keeps its data in the steps of the others. -/
theorem Moves.data {changed : Bool} (coherent : Coherent s) (other : d ≠ c)
    (ready : s.use d = .ready y changed)
    : (t.buf y).data = (s.buf y).data := by
  obtain same | ⟨next, use, frame⟩ := moves.buf y
  · rw [same]
  · rw [frame.here]
    refine frame.data.resolve_right fun free => ?_
    cases free with
    | inl invalid =>
      have valid := coherent.ready d y changed ready
      exact Bool.noConfusion (invalid.symm.trans valid)
    | inr holds =>
      have mine := (coherent.lock y c).mpr holds
      have locked := (coherent.lock y d).mpr (by rw [ready]; rfl)
      exact other (Option.some.inj (locked.symm.trans mine))

/-- A user stays with its buffer, and the buffer with its block, from `bget` on. -/
theorem Moves.on (coherent : Coherent s) (on : (t.use d).on = some y)
    : ((s.use d).on = some y
        ∧ (t.buf y).dev = (s.buf y).dev
        ∧ (t.buf y).blockno = (s.buf y).blockno)
      ∨ (d = c ∧ action = .bget (t.buf y).dev (t.buf y).blockno) := by
  have stays : (s.use d).on = some y → _ := fun before =>
    moves.block (.inl (coherent.toHeld.refcnt_pos before))
  by_cases isSelf : d = c
  · subst isSelf
    obtain ⟨panic, stopped⟩ | ⟨x, next, use, frame⟩ := moves.frame
    · rw [stopped] at on
      exact .inl ⟨on, stays on⟩
    · rw [frame.use, update_self] at on
      obtain before | ⟨same, asked⟩ := frame.on y on
      · exact .inl ⟨before, stays before⟩
      · rw [same, frame.here]
        exact .inr ⟨rfl, asked⟩
  · rw [moves.use_of_ne isSelf] at on
    exact .inl ⟨on, stays on⟩

end

/-! Every action is one of these moves. -/

theorem bget_moves (all : ∀ x, x ∈ s.order) (got : bget s c dev blockno = some t)
    : Moves s t c (.bget dev blockno) := by
  obtain ⟨idle, got⟩ := Option.ite_none_right_eq_some.mp got
  split at got
  · rename_i x found
    cases got
    exact .hit idle found ⟨rfl, rfl, rfl, rfl⟩ ⟨rfl, rfl, rfl⟩
  · rename_i missing
    have absent : ∀ y, (s.buf y).caches dev blockno = false := fun y => by
      simpa using List.find?_eq_none.mp missing y (all y)
    split at got
    · rename_i x found
      have unused : (s.buf x).unused = true := by simpa using List.find?_some found
      cases got
      exact .recycled idle absent unused ⟨rfl, rfl, rfl, rfl⟩ ⟨rfl, rfl, rfl⟩
    · cases got
      exact .panicked .noBuffers rfl

theorem bread_moves (dirty : ∀ x, (s.buf x).dirty = true → (s.buf x).valid = true)
    (running : s.panic = none) (read : bread s c = some t)
    : Moves s t c .bread := by
  unfold bread at read
  split at read
  case h_2 => cases read
  rename_i x locked
  split at read
  · rename_i valid
    cases read
    exact .cached locked valid ⟨(update_eq_self x s.buf).symm, rfl, rfl, rfl⟩
      ⟨rfl, rfl, rfl⟩
  · rename_i invalid
    have clean : (s.buf x).dirty = false :=
      Bool.eq_false_iff.mpr fun isDirty => invalid (dirty x isDirty)
    obtain ⟨panic, panicked⟩ | ⟨dev, inRange, filled⟩ := iderw_cases s x
    · simp only [panicked, Option.isSome_some, if_true, Option.some.injEq] at read
      exact .panicked panic read.symm
    · rw [clean, if_neg Bool.false_ne_true] at filled
      have accepted : ¬ (iderw s x).panic.isSome = true := by
        rw [filled]
        simp [Cache.setBuf, running]
      simp only [if_neg accepted, Option.some.injEq] at read
      rw [filled] at read
      subst read
      exact .filled locked (by simpa using invalid) clean dev inRange ⟨rfl, rfl, rfl, rfl⟩
        ⟨rfl, rfl, rfl⟩

variable [Fintype ι]

section

variable (coherent : Coherent s)
include coherent

/-- `bwrite` by the holder of a buffer that it has read. -/
theorem bwrite_eq {changed : Bool} (running : s.panic = none) (ready : s.use c = .ready x changed)
    : bwrite s c
      = some
          ({ s.setBuf x { s.buf x with dirty := false, valid := true } with
              disk := update s.disk (s.buf x).blockno (s.buf x).data
              contents := update s.contents (s.buf x).blockno (s.buf x).data }.setUse c
            (.ready x false)) := by
  obtain ⟨dev, inRange⟩ := coherent.onDisk x (coherent.ready c x changed ready)
  have locked : (s.buf x).lock = some c := (coherent.lock x c).mpr (by rw [ready]; rfl)
  have notBeyond : ¬ s.disksize ≤ (s.buf x).blockno := UInt32.not_le.mpr inRange
  simp [bwrite, ready, iderw, Cache.setBuf, Cache.give, Cache.setUse, dev, locked, notBeyond,
    running]

theorem act_moves (acted : act s c action = some t)
    : Moves s t c action := by
  obtain ⟨running, acted⟩ := Option.ite_none_left_eq_some.mp acted
  have running := Option.not_isSome_iff_eq_none.mp running
  cases action with
  | bget dev blockno => exact bget_moves coherent.all acted
  | acquiresleep =>
    simp only [acquiresleep] at acted
    split at acted
    case h_2 => cases acted
    rename_i x waits
    obtain ⟨free, acted⟩ := Option.ite_none_right_eq_some.mp acted
    cases acted
    exact .acquired waits free ⟨rfl, rfl, rfl, rfl⟩ ⟨rfl, rfl, rfl⟩
  | bread => exact bread_moves coherent.dirty running acted
  | modify data =>
    simp only [modify] at acted
    split at acted
    case h_2 => cases acted
    rename_i x changed ready
    cases acted
    exact .modified ready ⟨rfl, rfl, rfl, rfl⟩ ⟨rfl, rfl, rfl⟩
  | bwrite =>
    cases holds : s.use c with
    | ready x changed =>
      simp only [bwrite_eq coherent running holds] at acted
      cases acted
      exact .written holds ⟨⟨rfl, rfl, rfl, rfl⟩, rfl, rfl, rfl⟩
    | _ => simp [bwrite, holds] at acted
  | logDirty =>
    simp only [logDirty] at acted
    split at acted
    case h_2 => cases acted
    rename_i x changed ready
    have valid := coherent.ready c x changed ready
    cases acted
    refine .logged ready ⟨⟨?_, rfl, rfl, rfl⟩, rfl, ?_, rfl⟩
    · simp [Cache.setUse, Cache.give, Cache.setBuf, valid]
    · simp [Cache.setUse, Cache.give, Cache.setBuf]
  | releasesleep =>
    simp only [releasesleep] at acted
    split at acted
    case h_2 => cases acted
    rename_i x ready
    cases acted
    exact .unlocked ready ⟨rfl, rfl, rfl, rfl⟩ ⟨rfl, rfl, rfl⟩
  | brelse =>
    simp only [brelse] at acted
    split at acted
    case h_2 => cases acted
    rename_i x released
    split at acted
    · cases acted
      exact .dropped released ⟨rfl, rfl, rfl, rfl⟩ (.inr rfl) rfl rfl
    · cases acted
      exact .dropped released ⟨rfl, rfl, rfl, rfl⟩ (.inl rfl) rfl rfl

/-! Every move keeps the cache coherent. -/

/-- `bget` finds the block: the first buffer that caches it gets one more user. -/
theorem hit_coherent (idle : s.use c = .idle)
    (found : (s.order.find? fun y => (s.buf y).caches dev blockno) = some x)
    (edits : Edits s t c x { s.buf x with refcnt := (s.buf x).refcnt + 1 } (.waiting x))
    (quiet : Quiet s t)
    : Coherent t := by
  have holds : (s.buf x).caches dev blockno = true := by
    simpa using List.find?_some found
  obtain ⟨sameDev, sameBlock⟩ := caches_iff.mp holds
  have devs := edits.field Buf.dev rfl
  have blocks := edits.field Buf.blockno rfl
  refine ⟨⟨quiet.order ▸ coherent.nodup, quiet.order ▸ coherent.all, fun y live => ?_⟩, ?_, ?_⟩
  · simp only [Buf.caches, quiet.order, devs, blocks]
    by_cases here : y = x
    · rw [here, sameDev, sameBlock]
      exact found
    · rw [edits.away here] at live
      exact coherent.first y live
  · refine edits.held coherent.toHeld ?_ (by simp [idle, Use.on]) (by simp [Use.on, eq_comm]) ?_
      (fun d _ => Iff.rfl) (fun reads => nomatch reads) (fun _ valid => valid)
    · simp [idle, Use.refs, Use.on]
    · simp [coherent.lock, idle, Use.holds]
  · exact edits.faithful_same coherent.toFaithful rfl rfl rfl rfl rfl quiet (by simp [idle])

/-- `bget` takes a buffer that nobody uses and that is not dirty for a block that no buffer
caches.
-/
theorem recycle_coherent (idle : s.use c = .idle)
    (missing : ∀ y, (s.buf y).caches dev blockno = false) (unused : (s.buf x).unused = true)
    (edits : Edits s t c x
      { s.buf x with dev, blockno, valid := false, dirty := false, refcnt := 1 } (.waiting x))
    (quiet : Quiet s t)
    : Coherent t := by
  obtain ⟨none, clean⟩ : (s.buf x).refcnt = 0 ∧ (s.buf x).dirty = false := by
    simpa [Buf.unused] using unused
  refine ⟨⟨quiet.order ▸ coherent.nodup, quiet.order ▸ coherent.all, fun y live => ?_⟩, ?_, ?_⟩
  · rw [quiet.order]
    by_cases here : y = x
    · refine find?_of_unique (coherent.all y) (caches_iff.mpr ⟨rfl, rfl⟩) fun z caches => ?_
      by_contra other
      rw [here, edits.here, edits.away (here ▸ other)] at caches
      exact Bool.noConfusion ((missing z).symm.trans caches)
    · rw [edits.away here] at live ⊢
      refine find?_of_wider (coherent.first y live) (fun z caches => ?_)
        (by rw [edits.away here]; exact caches_iff.mpr ⟨rfl, rfl⟩)
      by_cases there : z = x
      · rw [there, edits.here] at caches
        obtain ⟨sameDev, sameBlock⟩ := caches_iff.mp caches
        have cached := caches_iff.mpr ⟨sameDev.symm, sameBlock.symm⟩
        exact Bool.noConfusion ((missing y).symm.trans cached)
      · rwa [edits.away there] at caches
  · refine edits.held coherent.toHeld ?_ (by simp [idle, Use.on]) (by simp [Use.on, eq_comm]) ?_
      (fun d _ => Iff.rfl) (fun reads => nomatch reads) (fun used => ?_)
    · simp [idle, Use.refs, Use.on, none]
    · simp [coherent.lock, idle, Use.holds]
    · obtain ⟨d, on⟩ := used
      exact absurd on (coherent.toHeld.on_ne none d)
  · refine edits.faithful coherent.toFaithful (fun valid => nomatch valid)
      (fun dirty => nomatch dirty) (fun valid => nomatch valid)
      (fun _ _ _ => by rw [quiet.contents]) (by simp [idle]) fun b differs => .inr ?_
    exact (quiet.differs coherent.toFaithful x differs).resolve_left (by simp [clean])

/-- A step that changes nothing but the lock and the place of its user. -/
theorem relocked_coherent {lock : Option ι} (quiet : Quiet s t)
    (edits : Edits s t c x { s.buf x with lock } use) (on : (s.use c).on = some x)
    (still : use.on = some x) (given : ∀ y, s.use c ≠ .ready y true)
    (self : lock = some c ↔ use.holds = some x)
    (others : ∀ d, d ≠ c → (lock = some d ↔ (s.buf x).lock = some d))
    (ready : (∃ y changed, use = .ready y changed) → (s.buf x).valid = true)
    : Coherent t := by
  refine ⟨edits.listed coherent.toListed quiet.order rfl rfl id, ?_,
    edits.faithful_same coherent.toFaithful rfl rfl rfl rfl rfl quiet given⟩
  refine edits.held coherent.toHeld ?_ (by simp [on, eq_comm]) (by simp [still, eq_comm]) self
    others ready (fun _ valid => valid)
  simp [on, still, Use.refs]

/-- `bread` of a buffer that is not valid yet. -/
theorem filled_coherent (locked : s.use c = .locked x) (dev : (s.buf x).dev = 1)
    (inRange : (s.buf x).blockno < s.disksize) (clean : (s.buf x).dirty = false)
    (edits : Edits s t c x { s.buf x with data := s.disk (s.buf x).blockno, valid := true }
      (.ready x false)) (quiet : Quiet s t)
    : Coherent t := by
  have used : (s.buf x).Live := .inl (coherent.toHeld.refcnt_pos (by rw [locked]; rfl))
  refine ⟨edits.listed coherent.toListed quiet.order rfl rfl (fun _ => used), ?_, ?_⟩
  · exact edits.held_on coherent.toHeld (by rw [locked]; rfl) rfl (by rw [locked]; rfl) rfl rfl rfl
  · refine edits.faithful coherent.toFaithful (fun _ => ⟨dev, inRange⟩) (fun _ => rfl)
      (fun _ _ => ?_) (fun y _ _ => by rw [quiet.contents]) (by simp [locked]) (fun b differs => ?_)
    · rw [quiet.contents]
      exact coherent.disk_eq used dev clean
    · exact .inr ((quiet.differs coherent.toFaithful x differs).resolve_left (by simp [clean]))

theorem modified_coherent {changed : Bool} {data : Block} (ready : s.use c = .ready x changed)
    (edits : Edits s t c x { s.buf x with data } (.ready x true)) (quiet : Quiet s t)
    : Coherent t := by
  have valid := coherent.ready c x changed ready
  refine ⟨edits.listed coherent.toListed quiet.order rfl rfl id, ?_, ?_⟩
  · exact edits.held_on coherent.toHeld (by rw [ready]; rfl) rfl (by rw [ready]; rfl) rfl rfl valid
  · refine edits.faithful coherent.toFaithful (coherent.onDisk x) (coherent.dirty x)
      (fun _ given => ?_) (fun y _ _ => by rw [quiet.contents])
      (fun y other => by simp [ready, Ne.symm other])
      (fun b differs => quiet.differs coherent.toFaithful x differs)
    exact absurd (by rw [edits.use, update_self]) (given c)

theorem given_coherent {changed dirty : Bool} (ready : s.use c = .ready x changed)
    (gives : Gives s t c x dirty)
    : Coherent t := by
  obtain ⟨edits, order, contents, disk⟩ := gives
  have valid := coherent.ready c x changed ready
  obtain ⟨dev, inRange⟩ := coherent.onDisk x valid
  have live : (s.buf x).Live := .inr (.inl valid)
  refine ⟨edits.listed coherent.toListed order rfl rfl (fun _ => live), ?_, ?_⟩
  · exact edits.held_on coherent.toHeld (by rw [ready]; rfl) rfl (by rw [ready]; rfl) rfl rfl rfl
  · refine edits.faithful coherent.toFaithful (fun _ => ⟨dev, inRange⟩) (fun _ => rfl)
      (fun _ _ => by rw [contents, update_self]) (fun y other isValid => ?_)
      (fun y other => by simp [ready, Ne.symm other]) (fun b differs => ?_)
    · -- another valid buffer caches another block
      have apart : (s.buf y).blockno ≠ (s.buf x).blockno := fun block =>
        other (coherent.toListed.unique (.inr (.inl isValid)) live
          ((coherent.onDisk y isValid).1.trans dev.symm) block)
      rw [contents, update_of_ne apart]
    · by_cases block : (s.buf x).blockno = b
      · cases dirty with
        | true => exact .inl ⟨rfl, dev, block⟩
        | false => simp [disk, contents, block] at differs
      · have unequal : s.disk b ≠ s.contents b := by
          rw [contents, update_of_ne (Ne.symm block), disk] at differs
          split at differs
          · exact differs
          · rwa [update_of_ne (Ne.symm block)] at differs
        obtain ⟨y, isDirty, onDisk, isBlock⟩ := coherent.disk b unequal
        exact .inr ⟨y, fun same => block (same ▸ isBlock), isDirty, onDisk, isBlock⟩

/-- The reference is dropped, and the buffer may move to the front. -/
theorem dropped_coherent (released : s.use c = .released x)
    (edits : Edits s t c x { s.buf x with refcnt := (s.buf x).refcnt - 1 } .idle)
    (order : t.order = s.order ∨ t.order = touch x s.order) (disk : t.disk = s.disk)
    (contents : t.contents = s.contents)
    : Coherent t := by
  have used : 0 < (s.buf x).refcnt := coherent.toHeld.refcnt_pos (by rw [released]; rfl)
  have unlocked : (s.buf x).lock ≠ some c := by
    simp [coherent.lock, released, Use.holds]
  have stayed : Edits s { t with order := s.order } c x
      { s.buf x with refcnt := (s.buf x).refcnt - 1 } .idle :=
    ⟨edits.buf, edits.use, edits.disksize, edits.panic⟩
  have listed := stayed.listed coherent.toListed rfl rfl rfl (fun _ => .inl used)
  have held := edits.held coherent.toHeld
    (by simp only [released, Use.refs, Use.on, if_true, reduceCtorEq, if_false]; omega)
    (by simp [released, Use.on, eq_comm]) (by simp [Use.on])
    (by simpa [Use.holds] using unlocked) (fun d _ => Iff.rfl) (fun reads => nomatch reads)
    (fun _ valid => valid)
  have faithful := stayed.faithful_same coherent.toFaithful rfl rfl rfl rfl rfl
    ⟨rfl, disk, contents⟩ (by simp [released])
  refine ⟨?_, held, ⟨faithful.onDisk, faithful.dirty, faithful.data, faithful.disk⟩⟩
  cases order with
  | inl same => exact ⟨same ▸ listed.nodup, same ▸ listed.all, same ▸ listed.first⟩
  | inr front =>
    refine listed.front rfl front fun y live caches => ?_
    -- In the state before, `x` is in use, so that no other live buffer has its block.
    by_contra other
    rw [stayed.here, stayed.away other] at caches
    rw [stayed.away other] at live
    obtain ⟨sameDev, sameBlock⟩ := caches_iff.mp caches
    exact other (coherent.toListed.unique live (.inl used) sameDev.symm sameBlock.symm)

end

theorem Moves.coherent (moves : Moves s t c action) (coherent : Coherent s)
    : Coherent t := by
  cases moves with
  | panicked panic stopped => exact stopped ▸ coherent.panicked _
  | hit idle found edits quiet => exact hit_coherent coherent idle found edits quiet
  | recycled idle missing unused edits quiet =>
    exact recycle_coherent coherent idle missing unused edits quiet
  | acquired waits free edits quiet =>
    exact relocked_coherent coherent quiet edits (by rw [waits]; rfl) rfl (by simp [waits])
      (by simp [Use.holds]) (fun d other => by simp [free, Ne.symm other])
      (fun reads => nomatch reads)
  | cached locked valid edits quiet =>
    exact relocked_coherent coherent quiet edits (by rw [locked]; rfl) rfl (by simp [locked])
      (by simp [coherent.lock, locked, Use.holds]) (fun d _ => Iff.rfl) (fun _ => valid)
  | filled locked invalid clean dev inRange edits quiet =>
    exact filled_coherent coherent locked dev inRange clean edits quiet
  | modified ready edits quiet => exact modified_coherent coherent ready edits quiet
  | written ready gives | logged ready gives => exact given_coherent coherent ready gives
  | @unlocked x ready edits quiet =>
    have mine : (s.buf x).lock = some c := (coherent.lock x c).mpr (by rw [ready]; rfl)
    exact relocked_coherent coherent quiet edits (by rw [ready]; rfl) rfl (by simp [ready])
      (by simp [Use.holds]) (fun d other => by simp [mine, Ne.symm other])
      (fun reads => nomatch reads)
  | dropped released edits order disk contents =>
    exact dropped_coherent coherent released edits order disk contents

end Actions

end Xv6.Bio
