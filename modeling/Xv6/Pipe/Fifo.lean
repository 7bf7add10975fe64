import Xv6.Pipe.Model

/-! A pipe hands out the bytes it was given, in their order.
Only the two loops touch the buffer. What one of them puts in or takes out goes to the end of
`stored` or of `handed`, and the buffer is what lies between.
-/

namespace Xv6.Pipe

open Xv6.Lib

/-- The size divides 2 ^ 32, so that slots go on in order when a counter wraps. -/
theorem pipesize_dvd : pipesize ∣ 2 ^ 32 := ⟨8388608, rfl⟩

theorem pipesize_lt : pipesize < 2 ^ 32 := by decide

section Loops

variable {user : Nat → UInt8} {ring : Ring UInt8 pipesize}

theorem isFull_iff_count : ring.isFull = true ↔ ring.count = pipesize :=
  Ring.isFull_iff pipesize_lt ring

/-- The stores go behind what the buffer has. -/
theorem storeLoop_contents (user : Nat → UInt8) (left i : Nat) (bounded : ring.count ≤ pipesize)
    : (storeLoop user left i ring).1.count ≤ pipesize
      ∧ (storeLoop user left i ring).1.contents
        = ring.contents ++ (storeLoop user left i ring).2.2 := by
  induction left generalizing i ring with
  | zero => simp [storeLoop, bounded]
  | succ left ih =>
    by_cases full : ring.isFull = true
    · simp [storeLoop, full, bounded]
    · have room : ring.count < pipesize :=
        Nat.lt_of_le_of_ne bounded fun same => full (isFull_iff_count.mpr same)
      have counted := Ring.count_put (Nat.lt_trans (Nat.succ_lt_succ room) (by decide)) (user i)
      have stored := Ring.contents_put pipesize_dvd pipesize_lt room (user i)
      have below : (ring.put (user i)).count ≤ pipesize := by omega
      obtain ⟨boundedAfter, contents⟩ := ih (i + 1) below
      simp only [storeLoop, full, Bool.false_eq_true, if_false]
      refine ⟨boundedAfter, ?_⟩
      rw [contents, stored, List.append_assoc]
      rfl

/-- The stores end with the data, or early with a full pipe. -/
theorem storeLoop_stops (user : Nat → UInt8) (left i : Nat) (ring : Ring UInt8 pipesize)
    : (storeLoop user left i ring).2.1 ≤ i + left
      ∧ ((storeLoop user left i ring).2.1 < i + left
        → (storeLoop user left i ring).1.isFull = true) := by
  induction left generalizing i ring with
  | zero => simp [storeLoop]
  | succ left ih =>
    by_cases full : ring.isFull = true
    · simp [storeLoop, full]
    · obtain ⟨le, stops⟩ := ih (i + 1) (ring.put (user i))
      simp only [storeLoop, full, Bool.false_eq_true, if_false]
      exact ⟨by omega, fun early => stops (by omega)⟩

theorem storeLoop_of_full (left i : Nat) (full : ring.isFull = true)
    : (storeLoop user left i ring).1 = ring := by
  cases left with
  | zero => rfl
  | succ left => simp [storeLoop, full]

/-- The copies come from the front of the buffer. -/
theorem copyLoop_contents (left : Nat) (bounded : ring.count ≤ pipesize)
    : (copyLoop left ring).1.count ≤ pipesize
      ∧ ring.contents = (copyLoop left ring).2 ++ (copyLoop left ring).1.contents := by
  induction left generalizing ring with
  | zero => simp [copyLoop, bounded]
  | succ left ih =>
    by_cases empty : ring.isEmpty = true
    · simp [copyLoop, empty, bounded]
    · have some : ring.count ≠ 0 := fun zero => empty ((Ring.isEmpty_iff ring).mpr zero)
      have counted := Ring.count_drop some
      have below : ring.drop.count ≤ pipesize := by omega
      obtain ⟨boundedAfter, contents⟩ := ih below
      simp only [copyLoop, empty, Bool.false_eq_true, if_false]
      refine ⟨boundedAfter, ?_⟩
      rw [Ring.contents_drop pipesize_dvd some, contents]
      rfl

end Loops

variable {ι : Type} [DecidableEq ι]
variable {s t : PipeState ι} {label : PipeStep ι}

/-- The buffer holds what was stored and not handed out yet. -/
structure PipeState.Fifo (s : PipeState ι) : Prop where
  bounded : s.ring.count ≤ pipesize
  order : s.stored = s.handed ++ s.ring.contents

theorem pipewrite_fifo (fifo : s.Fifo) (p : ι) (user : Nat → UInt8) (i : Nat) (n : Int32)
    : (pipewrite s p user i n).Fifo := by
  obtain ⟨bounded, contents⟩ := storeLoop_contents user (n.toInt - i).toNat i fifo.bounded
  refine ⟨bounded, ?_⟩
  have ringAfter : (pipewrite s p user i n).ring = (storeLoop user (n.toInt - i).toNat i s.ring).1 :=
    rfl
  show s.stored ++ _ = s.handed ++ _
  rw [ringAfter, contents, fifo.order, List.append_assoc]

theorem piperead_fifo (fifo : s.Fifo) (p : ι) (n : Int32)
    : (piperead s p n).Fifo := by
  unfold piperead
  split
  · exact ⟨fifo.bounded, fifo.order⟩
  · obtain ⟨bounded, contents⟩ := copyLoop_contents n.toInt.toNat fifo.bounded
    refine ⟨bounded, ?_⟩
    show s.stored = (s.handed ++ _) ++ _
    rw [List.append_assoc, ← contents, fifo.order]

/-- A step runs the section of a call, or leaves the bytes alone. -/
theorem pipeStep_fifo (fifo : s.Fifo) (stepped : pipeStep s label = some t)
    : t.Fifo := by
  cases pipeStep_moves stepped with
  | @ran _ p user c _ _ made =>
    subst made
    cases c with
    | read n => exact piperead_fifo fifo p n
    | write i n => exact pipewrite_fifo fifo p user i n
  | went _ _ _ made | closing _ _ made =>
    subst made
    exact ⟨fifo.bounded, fifo.order⟩
  | killed made | reused made =>
    subst made
    exact ⟨fifo.bounded, fifo.order⟩
  | copied made | closed made =>
    obtain ⟨_, ⟨⟩⟩ := Option.ite_none_right_eq_some.mp made
    exact ⟨fifo.bounded, fifo.order⟩

theorem pipealloc_fifo (data : Fin pipesize → UInt8) (p : ι)
    : (PipeState.pipealloc data p).Fifo where
  bounded := by simp [PipeState.pipealloc, Ring.count]
  order := by simp [PipeState.pipealloc, Ring.contents, Ring.count]

/-- In every state of every run, at most `pipesize` bytes are buffered, by counters that wrap;
what readers were handed, followed by the buffer, is what writers stored.
-/
theorem handed_append_buffered {data : Fin pipesize → UInt8} {owner : ι}
    {labels : List (PipeStep ι)} {s : PipeState ι}
    (reached : run pipeStep labels (.pipealloc data owner) = some s)
    : (s.ring.nwrite - s.ring.nread).toNat ≤ pipesize
      ∧ s.handed <+: s.stored
      ∧ s.stored = s.handed ++ s.ring.contents
      ∧ s.ring.contents.length = (s.ring.nwrite - s.ring.nread).toNat := by
  have fifo : s.Fifo := run_invariant (fun _ _ _ fifo stepped => pipeStep_fifo fifo stepped)
    (pipealloc_fifo data owner) reached
  exact ⟨fifo.bounded, ⟨_, fifo.order.symm⟩, fifo.order, Ring.length_contents s.ring⟩

/-- A write of three bytes, of which a read takes two. -/
def threeInTwoOut : List (PipeStep (Fin 1)) :=
  [.write 0 3 fun i => UInt8.ofNat (65 + i), .wakeup 0, .unlock 0 (.returns 3), .read 0 2]

theorem threeInTwoOut_fifo
    : ∃ s,
        run pipeStep threeInTwoOut (.pipealloc (fun _ => 0) 0) = some s
        ∧ s.handed = [65, 66]
        ∧ s.stored = [65, 66, 67]
        ∧ s.stored = s.handed ++ s.ring.contents := by
  obtain ⟨s, reached, handed, stored⟩ :
      ∃ s ∈ run pipeStep threeInTwoOut (.pipealloc (fun _ => 0) 0),
        s.handed = [65, 66] ∧ s.stored = [65, 66, 67] := by
    decide
  exact ⟨s, reached, handed, stored, (handed_append_buffered reached).2.2.1⟩

end Xv6.Pipe
