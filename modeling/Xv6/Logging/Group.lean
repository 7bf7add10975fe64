import Xv6.Logging.Model
import Xv6.Lib.Transition

/-! Group commit: the interleaving of `begin_op`, `log_write` and `end_op` of `log.c`.
Each section under `log.lock` is one step; `log_write` makes its checks before it takes the
lock, so the check and the update of the header are separate steps.
-/

namespace Xv6.Logging

/-- The panics of `begin_op`, `log_write` and `end_op`. -/
inductive Panic where
  | tooBigTransaction
  | outsideOfTrans
  | logCommitting
  deriving DecidableEq

/-- Where a process is with respect to the log. `logged` records the distinct blocks its
current operation has passed to `log_write`.
-/
inductive Op where
  | idle
  | running (logged : Finset UInt32)
  | logging (logged : Finset UInt32) (b : UInt32)
  | committing
  | committed
  deriving DecidableEq

/-- `struct log` and the positions of the processes that use it. -/
structure GroupState (ι : Type) where
  size : Nat
  outstanding : Nat
  committing : Bool
  lh : LogHeader
  op : ι → Op
  panic : Option Panic

/-- One critical section, or one unlocked check, of a process. -/
inductive GroupStep (ι : Type) where
  | beginOp (p : ι)
  | logWriteCheck (p : ι) (b : UInt32)
  | logWriteAppend (p : ι) (b : UInt32)
  | endOp (p : ι)
  | commitClear (p : ι)
  | commitDone (p : ι)
  deriving DecidableEq

/-- The slot the absorption loop of `log_write` stops at. -/
def LogHeader.slot (lh : LogHeader) (b : UInt32) : Nat :=
  ((List.range lh.n).find? (fun i => lh.block i == b)).getD lh.n

/-- The update of `log.lh` in `log_write`: absorb, or append one slot. -/
def LogHeader.absorb (lh : LogHeader) (b : UInt32) : LogHeader where
  n := if lh.slot b = lh.n then lh.n + 1 else lh.n
  block := Function.update lh.block (lh.slot b) b

variable {ι : Type} [DecidableEq ι]

/-- The state with process `p` at `op`. -/
def GroupState.at (s : GroupState ι) (p : ι) (op : Op) : GroupState ι :=
  { s with op := Function.update s.op p op }

/-- `begin_op`: admit the operation, or sleep (no step) while it may exhaust the log. -/
def beginOp (s : GroupState ι) (p : ι) : Option (GroupState ι) :=
  if s.op p ≠ .idle then none
  else if s.committing then none
  else if s.lh.n + (s.outstanding + 1) * maxOpBlocks > logSize then none
  else some { s.at p (.running ∅) with outstanding := s.outstanding + 1 }

/-- The two unlocked checks of `log_write`; the operation stays within `quota` blocks. -/
def logWriteCheck (quota : Nat) (s : GroupState ι) (p : ι) (b : UInt32)
    : Option (GroupState ι) :=
  match s.op p with
  | .running logged =>
      if quota < (insert b logged).card then none
      else if s.lh.n ≥ logSize ∨ s.lh.n + 1 ≥ s.size then
        some { s with panic := some .tooBigTransaction }
      else if s.outstanding < 1 then some { s with panic := some .outsideOfTrans }
      else some (s.at p (.logging logged b))
  | _ => none

/-- The locked part of `log_write`. -/
def logWriteAppend (s : GroupState ι) (p : ι) (b : UInt32) : Option (GroupState ι) :=
  match s.op p with
  | .logging logged pending =>
      if pending = b then
        some { s.at p (.running (insert b logged)) with lh := s.lh.absorb b }
      else none
  | _ => none

/-- `end_op` up to its first release of `log.lock`. -/
def endOp (s : GroupState ι) (p : ι) : Option (GroupState ι) :=
  match s.op p with
  | .running _ =>
      if s.committing then
        some { s with outstanding := s.outstanding - 1, panic := some .logCommitting }
      else if s.outstanding - 1 = 0 then
        some { s.at p .committing with outstanding := s.outstanding - 1, committing := true }
      else some { s.at p .idle with outstanding := s.outstanding - 1 }
  | _ => none

/-- `commit` up to its assignment `log.lh.n = 0`. -/
def commitClear (s : GroupState ι) (p : ι) : Option (GroupState ι) :=
  if s.op p = .committing then some { s.at p .committed with lh := { s.lh with n := 0 } }
  else none

/-- The last section of `end_op`. -/
def commitDone (s : GroupState ι) (p : ι) : Option (GroupState ι) :=
  if s.op p = .committed then some { s.at p .idle with committing := false } else none

/-- One step of the group; a panic stops the machine. -/
def groupStep (quota : Nat) (s : GroupState ι) (label : GroupStep ι)
    : Option (GroupState ι) :=
  if s.panic.isSome then none
  else
    match label with
    | .beginOp p => beginOp s p
    | .logWriteCheck p b => logWriteCheck quota s p b
    | .logWriteAppend p b => logWriteAppend s p b
    | .endOp p => endOp s p
    | .commitClear p => commitClear s p
    | .commitDone p => commitDone s p

/-- The log after `initlog` on an image with `nlog = size`. -/
def GroupState.init (ι : Type) (size : Nat) : GroupState ι where
  size := size
  outstanding := 0
  committing := false
  lh := { n := 0, block := fun _ => 0 }
  op := fun _ => .idle
  panic := none

end Xv6.Logging
