import Xv6.Bio.Coherence
import Xv6.Logging.Commit

/-! The buffer cache under the log.
Clients use buffers inside and outside of operations, `log_write` pins what they change, and the
process that ends the last operation runs `commit`, which reads and writes log blocks and home
blocks through the same cache, one access at a time.
-/

namespace Xv6.Bio

open Xv6.Lib
open Xv6.Logging (LogHeader GroupState groupStep Op)

/-- The two buffers of `commit`: the one it writes and the one it copies from. -/
inductive Side where
  | target
  | source
  deriving DecidableEq

instance : Fintype Side := ⟨{.target, .source}, fun side => by cases side <;> simp⟩

/-- The accesses of `commit` to the cache, and its `log.lh.n = 0`. -/
inductive Instr where
  | bget (side : Side) (blockno : UInt32)
  | acquiresleep (side : Side)
  | bread (side : Side)
  | memmove
  | head
  | bwrite
  | releasesleep (side : Side)
  | brelse (side : Side)
  | clear
  deriving DecidableEq

/-- `bread`, from `bget` to the transfer. -/
def Side.read (side : Side) (blockno : UInt32) : List Instr :=
  [.bget side blockno, .acquiresleep side, .bread side]

def Side.brelse (side : Side) : List Instr := [.releasesleep side, .brelse side]

/-- The log block `log.start+tail+1`. -/
def logBlock (start : UInt32) (tail : Nat) : UInt32 := start + UInt32.ofNat tail + 1

/-- The block is the header block or one of the log blocks. -/
def InLog (start : UInt32) (size : Nat) (b : UInt32) : Prop := (b - start).toNat < size

instance (start : UInt32) (size : Nat) (b : UInt32) : Decidable (InLog start size b) :=
  inferInstanceAs (Decidable (_ < _))

/-- One pass of the loop of `write_log`. -/
def writeLogPass (start : UInt32) (lh : LogHeader) (tail : Nat) : List Instr :=
  Side.target.read (logBlock start tail) ++ Side.source.read (lh.block tail)
    ++ [.memmove, .bwrite] ++ Side.source.brelse ++ Side.target.brelse

/-- One pass of the loop of `install_trans`. -/
def installPass (start : UInt32) (lh : LogHeader) (tail : Nat) : List Instr :=
  Side.source.read (logBlock start tail) ++ Side.target.read (lh.block tail)
    ++ [.memmove, .bwrite] ++ Side.source.brelse ++ Side.target.brelse

def writeHead (start : UInt32) : List Instr :=
  Side.target.read start ++ [.head, .bwrite] ++ Side.target.brelse

/-- `commit`; of an empty transaction only the assignment is left, which changes nothing. -/
def commit (start : UInt32) (lh : LogHeader) : List Instr :=
  if 0 < lh.n then
    (List.range lh.n).flatMap (writeLogPass start lh) ++ writeHead start
      ++ (List.range lh.n).flatMap (installPass start lh) ++ [.clear] ++ writeHead start
  else [.clear]

/-- Processes `π` use the log, clients `ι` and the committer use the cache; `program` is what is
left of a commit. `given` records what the clients last passed to `bwrite` or `log_write`.
-/
structure State (π ι : Type) where
  group : GroupState π
  start : UInt32
  cache : Cache (ι ⊕ Side)
  program : List Instr
  given : UInt32 → Block

/-- Steps of clients, sections of `log.lock`, and accesses of a commit. `log_write` is called by
a process for the buffer that a client holds.
-/
inductive Label (π ι : Type) where
  | client (c : ι) (action : Action)
  | beginOp (p : π)
  | logWriteCheck (p : π) (c : ι)
  | logWriteAppend (p : π) (c : ι)
  | endOp (p : π)
  | commit (p : π)
  | commitDone (p : π)

variable {π ι : Type}

/-- The buffer that a user has read, with its data. -/
def Cache.ready {κ : Type} (s : Cache κ) (c : κ) : Option (Buf κ) :=
  match s.use c with
  | .ready x _ => some (s.buf x)
  | _ => none

/-- What the clients gave, after one of them passes on its buffer. -/
def State.pass (s : State π ι) (c : ι) : UInt32 → Block :=
  match s.cache.ready (.inl c) with
  | some buf => Function.update s.given buf.blockno buf.data
  | none => s.given

/-- An action of a client passes its buffer on if it is `bwrite`. -/
def State.gives (s : State π ι) (c : ι) : Action → UInt32 → Block
  | .bwrite => s.pass c
  | _ => s.given

variable [DecidableEq π] [DecidableEq ι]

/-- One access of a commit to the cache. -/
def Instr.exec (lh : LogHeader) (cache : Cache (ι ⊕ Side)) : Instr → Option (Cache (ι ⊕ Side))
  | .bget side blockno => act cache (.inr side) (.bget 1 blockno)
  | .acquiresleep side => act cache (.inr side) .acquiresleep
  | .bread side => act cache (.inr side) .bread
  | .memmove =>
      (cache.ready (.inr .source)).bind fun from_ =>
        act cache (.inr .target) (.modify from_.data)
  | .head =>
      (cache.ready (.inr .target)).bind fun hb =>
        act cache (.inr .target) (.modify (lh.encode hb.data))
  | .bwrite => act cache (.inr .target) .bwrite
  | .releasesleep side => act cache (.inr side) .releasesleep
  | .brelse side => act cache (.inr side) .brelse
  | .clear => some cache

/-- A client uses the cache; `B_DIRTY` is set by `log_write` only. -/
def clientStep (s : State π ι) (c : ι) : Action → Option (State π ι)
  | .logDirty => none
  | action =>
      (act s.cache (.inl c) action).map fun cache => { s with cache, given := s.gives c action }

/-- The committer makes its next access. -/
def commitInstr (quota : Nat) (s : State π ι) (p : π) : Option (State π ι) :=
  match s.program with
  | [] => none
  | instr :: rest =>
      if (s.group.op p).inCommit = 1 then
        (instr.exec s.group.lh s.cache).bind fun cache =>
          if instr = .clear then
            (groupStep quota s.group (.commitClear p)).map fun group =>
              { s with group, program := rest }
          else some { s with cache, program := rest }
      else none

/-- One step; a panic stops the machine. -/
def step (quota : Nat) (s : State π ι) (label : Label π ι) : Option (State π ι) :=
  if s.group.panic.isSome ∨ s.cache.panic.isSome then none
  else
    match label with
    | .client c action => clientStep s c action
    | .beginOp p => (groupStep quota s.group (.beginOp p)).map fun group => { s with group }
    | .logWriteCheck p c =>
        (s.cache.ready (.inl c)).bind fun buf =>
          (groupStep quota s.group (.logWriteCheck p buf.blockno)).map fun group =>
            { s with group }
    | .logWriteAppend p c =>
        (s.cache.ready (.inl c)).bind fun buf =>
          (groupStep quota s.group (.logWriteAppend p buf.blockno)).bind fun group =>
            (act s.cache (.inl c) .logDirty).map fun cache =>
              { s with group, cache, given := s.pass c }
    | .endOp p =>
        (groupStep quota s.group (.endOp p)).map fun group =>
          { s with
            group
            program := if group.op p = .committing then commit s.start group.lh else s.program }
    | .commit p => commitInstr quota s p
    | .commitDone p =>
        if s.program = [] then
          (groupStep quota s.group (.commitDone p)).map fun group => { s with group }
        else none

/-- The machine after `binit` and `initlog`, on a disk with an empty log. -/
def State.init (π ι : Type) (start size disksize : UInt32) (disk : UInt32 → Block)
    : State π ι where
  group := .init π size.toNat
  start := start
  cache := .binit _ disk disksize
  program := []
  given := disk

end Xv6.Bio
