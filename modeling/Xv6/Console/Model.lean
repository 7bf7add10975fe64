import Xv6.Lib.Ring
import Xv6.Lib.Transition
import Xv6.Param

/-! The input side of `console.c`: `consoleintr` edits a ring of characters with three counters
that wrap, and `consoleread` takes characters out. A section under `cons.lock` is one step.
-/

namespace Xv6.Console

open Xv6.Lib
open Function (update)

abbrev inputBuf : Nat := 128

/-- `C(x)`, for a letter. -/
def control (letter : Char) : Int32 := Int32.ofNat letter.toNat - 64

def newline : UInt8 := 10

/-- `C('D')` as a character of the buffer. -/
def endOfFile : UInt8 := 4

/-- `input`. -/
structure Input where
  buf : Fin inputBuf → UInt8
  r : UInt32
  w : UInt32
  e : UInt32

/-- `input.buf[i % INPUT_BUF]`. -/
def Input.at (input : Input) (i : UInt32) : UInt8 := input.buf (Ring.slot inputBuf i.toNat)

/-- What has been typed and not been read. -/
def Input.edited (input : Input) : Ring UInt8 inputBuf := ⟨input.buf, input.r, input.e⟩

/-- The part of it that readers may have. -/
def Input.ready (input : Input) : Ring UInt8 inputBuf := ⟨input.buf, input.r, input.w⟩

/-- The loop for `^U`; each pass takes one character of the line. -/
def killLine : Nat → Input → Input
  | 0, input => input
  | passes + 1, input =>
      if input.e ≠ input.w ∧ input.at (input.e - 1) ≠ newline then
        killLine passes { input with e := input.e - 1 }
      else input

def backspace (input : Input) : Input :=
  if input.e ≠ input.w then { input with e := input.e - 1 } else input

/-- `input.buf[input.e++ % INPUT_BUF] = c`. -/
def Input.store (input : Input) (c : Int32) : Input :=
  { input with
    buf := update input.buf (Ring.slot inputBuf input.e.toNat) c.toUInt32.toUInt8
    e := input.e + 1 }

/-- The body of the loop of `consoleintr`, and whether it calls `wakeup(&input.r)`. -/
def consoleChar (input : Input) (c : Int32) : Input × Bool :=
  if c = control 'P' then (input, false)
  else if c = control 'U' then (killLine (input.e - input.w).toNat input, false)
  else if c = control 'H' ∨ c = 0x7f then (backspace input, false)
  else if c ≠ 0 ∧ input.e - input.r < 128 then
    let c := if c = 13 then 10 else c
    let stored := input.store c
    if c = 10 ∨ c = control 'D' ∨ stored.e = stored.r + 128 then
      ({ stored with w := stored.e }, true)
    else (stored, false)
  else (input, false)

/-- How a section of `consoleread` ends: asleep with `n` characters to go, or with a result. -/
inductive Outcome where
  | sleeps (n : Nat) (dst : List UInt8)
  | returns (dst : List UInt8)
  | fails
  deriving DecidableEq

/-- The loop of `consoleread`. The last result is what it has consumed: `^D` is put back if the
call has characters to return.
-/
def readLoop (killed : Bool) (target : Nat)
    : Nat → List UInt8 → Input → Input × Outcome × List UInt8
  | 0, dst, input => (input, .returns dst, [])
  | n + 1, dst, input =>
      if input.r = input.w then (input, if killed then .fails else .sleeps (n + 1) dst, [])
      else
        let c := input.at input.r
        let next := { input with r := input.r + 1 }
        if c = endOfFile then
          if n + 1 < target then ({ next with r := next.r - 1 }, .returns dst, [])
          else (next, .returns dst, [c])
        else if c = newline then (next, .returns (dst ++ [c]), [c])
        else
          let rest := readLoop killed target n (dst ++ [c]) next
          (rest.1, rest.2.1, c :: rest.2.2)

/-- A process in `consoleread`: asleep on `&input.r`, or woken up and before its `acquire`. -/
inductive Reader where
  | out
  | asleep (target n : Nat) (dst : List UInt8)
  | woken (target n : Nat) (dst : List UInt8)
  deriving DecidableEq

/-- The console and its readers. The histories of what was committed, consumed and returned are
written here and read nowhere.
-/
structure State (ρ : Type) where
  input : Input
  reader : ρ → Reader
  killed : ρ → Bool
  committed : List UInt8
  consumed : List UInt8
  returned : List (List UInt8)

def Reader.wake : Reader → Reader
  | .asleep target n dst => .woken target n dst
  | reader => reader

variable {ρ : Type}

/-- One character of `consoleintr`. Characters that become readable are committed. -/
def typed (s : State ρ) (c : Int32) : State ρ :=
  match consoleChar s.input c with
  | (input, false) => { s with input }
  | (input, true) =>
      { s with
        input
        reader := fun p => (s.reader p).wake
        committed := s.committed ++ input.ready.contents.drop s.input.ready.count }

/-- The loop of `consoleintr`, until `getc` has no more characters. -/
def consoleintr (s : State ρ) : List Int32 → State ρ
  | [] => s
  | c :: rest => if c < 0 then s else consoleintr (typed s c) rest

variable [DecidableEq ρ]

/-- A section of `consoleread`. -/
def readSection (s : State ρ) (p : ρ) (target n : Nat) (dst : List UInt8) : State ρ :=
  let done := readLoop (s.killed p) target n dst s.input
  let after := { s with input := done.1, consumed := s.consumed ++ done.2.2 }
  match done.2.1 with
  | .sleeps n dst =>
      { after with reader := update s.reader p (.asleep target n dst) }
  | .returns dst =>
      { after with reader := update s.reader p .out, returned := s.returned ++ [dst] }
  | .fails => { after with reader := update s.reader p .out }

inductive Label (ρ : Type) where
  | consoleintr (getc : List Int32)
  | consoleread (p : ρ) (n : Nat)
  | resume (p : ρ)
  | kill (p : ρ)

def step (s : State ρ) : Label ρ → Option (State ρ)
  | .consoleintr getc => some (consoleintr s getc)
  | .consoleread p n => if s.reader p = .out then some (readSection s p n n []) else none
  | .resume p =>
      match s.reader p with
      | .woken target n dst => some (readSection s p target n dst)
      | _ => none
  | .kill p =>
      some { s with
        killed := update s.killed p true
        reader := update s.reader p (s.reader p).wake }

def State.start : State ρ where
  input := ⟨fun _ => 0, 0, 0, 0⟩
  reader := fun _ => .out
  killed := fun _ => false
  committed := []
  consumed := []
  returned := []

end Xv6.Console
