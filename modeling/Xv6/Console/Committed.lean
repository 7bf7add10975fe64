import Xv6.Console.Model

/-! Input that was committed reaches the readers, whole and in order: editing stays behind `w`,
and the ring never runs over what has not been read.
-/

namespace Xv6.Console

open Xv6.Lib

theorem inputBuf_dvd : inputBuf ∣ 2 ^ 32 := ⟨2 ^ 25, rfl⟩

/-- The three counters are in order, at most one round apart. -/
structure Input.Bounded (input : Input) : Prop where
  order : input.ready.count ≤ input.edited.count
  room : input.edited.count ≤ inputBuf

variable {input : Input}
variable {next : Input} {target n : Nat} {dst : List UInt8}

/-! Typing. -/

theorem Input.ready_contents (order : input.ready.count ≤ input.edited.count)
    : input.ready.contents = input.edited.contents.take input.ready.count := by
  have shorter : List.range input.ready.count
      = (List.range input.edited.count).take input.ready.count := by
    rw [List.take_range, Nat.min_eq_left order]
  rw [Ring.contents, Ring.contents, ← List.map_take, ← shorter]
  rfl

/-- The distance of `e` from `w`, or from `r`, when a character is taken back. -/
theorem toNat_pred {high low : UInt32} (apart : high ≠ low)
    : (high - 1 - low).toNat + 1 = (high - low).toNat := by
  rw [ne_eq, ← UInt32.toNat_inj] at apart
  simp only [UInt32.toNat_sub, UInt32.toNat_one]
  have above := high.toNat_lt
  have below := low.toNat_lt
  omega

/-- Only `e` has changed, and it has come closer to `w` without passing it. -/
structure Retreats (input next : Input) : Prop where
  only : next = { input with e := next.e }
  order : next.ready.count ≤ next.edited.count
  back : next.edited.count ≤ input.edited.count

theorem Retreats.refl (bounded : input.Bounded) : Retreats input input :=
  ⟨rfl, bounded.order, Nat.le_refl _⟩

theorem Retreats.bounded (retreats : Retreats input next) (bounded : input.Bounded)
    : next.Bounded :=
  ⟨retreats.order, Nat.le_trans retreats.back bounded.room⟩

theorem Retreats.trans {middle : Input} (first : Retreats input middle)
    (second : Retreats middle next)
    : Retreats input next where
  only := by
    rw [second.only, first.only]
  order := second.order
  back := Nat.le_trans second.back first.back

theorem retreats_pred (bounded : input.Bounded) (apart : input.e ≠ input.w)
    : Retreats input { input with e := input.e - 1 } := by
  have order := bounded.order
  simp only [Input.ready, Input.edited, Ring.count] at order
  -- If nothing were between `r` and `e`, then `w` would be there too.
  have unread : input.e ≠ input.r := by
    intro same
    rw [ne_eq, ← UInt32.toNat_inj] at apart
    rw [same, UInt32.sub_self, UInt32.toNat_zero, UInt32.toNat_sub] at order
    have read := input.r.toNat_lt
    have written := input.w.toNat_lt
    rw [same] at apart
    omega
  have fewer := toNat_pred unread
  have strict : (input.w - input.r).toNat ≠ (input.e - input.r).toNat := by
    intro same
    have equal := UInt32.toNat_inj.mp same
    exact apart (UInt32.sub_left_inj input.r |>.mp equal).symm
  refine ⟨rfl, ?_, ?_⟩ <;> simp only [Input.ready, Input.edited, Ring.count] <;> omega

theorem backspace_retreats (bounded : input.Bounded) : Retreats input (backspace input) := by
  unfold backspace
  split
  · rename_i apart
    exact retreats_pred bounded apart
  · exact .refl bounded

theorem killLine_retreats (passes : Nat) (bounded : input.Bounded)
    : Retreats input (killLine passes input) := by
  induction passes generalizing input with
  | zero => exact .refl bounded
  | succ passes ih =>
    unfold killLine
    split
    · rename_i test
      have first := retreats_pred bounded test.1
      exact first.trans (ih (first.bounded bounded))
    · exact .refl bounded

/-- The loop for `^U` ends by its own test. -/
theorem killLine_stops (passes : Nat) (enough : (input.e - input.w).toNat ≤ passes)
    : (killLine passes input).e = (killLine passes input).w
      ∨ (killLine passes input).at ((killLine passes input).e - 1) = newline := by
  induction passes generalizing input with
  | zero =>
    refine .inl (UInt32.toNat_inj.mp ?_)
    simp only [UInt32.toNat_sub] at enough
    have edited := input.e.toNat_lt
    have written := input.w.toNat_lt
    simp only [killLine]
    omega
  | succ passes ih =>
    unfold killLine
    split
    · rename_i test
      have fewer := toNat_pred test.1
      exact ih (by dsimp only; omega)
    · rename_i test
      rw [not_and_or, not_not, not_not] at test
      exact test

theorem store_edited (input : Input) (c : Int32)
    : (input.store c).edited = input.edited.put c.toUInt32.toUInt8 := rfl

/-- A character that fits does not touch those before it. -/
theorem store_bounded (bounded : input.Bounded) (fits : input.edited.count < inputBuf)
    (c : Int32)
    : (input.store c).Bounded ∧ (input.store c).ready.contents = input.ready.contents := by
  have counted : (input.store c).edited.count = input.edited.count + 1 := by
    rw [store_edited]
    exact Ring.count_put (Nat.lt_trans (Nat.succ_lt_succ fits) (by decide)) _
  have same : (input.store c).ready.count = input.ready.count := rfl
  have order := bounded.order
  have stored : (input.store c).Bounded := ⟨by omega, by omega⟩
  refine ⟨stored, ?_⟩
  rw [Input.ready_contents stored.order, Input.ready_contents order, store_edited,
    Ring.contents_put inputBuf_dvd (by decide) fits, same]
  exact List.take_append_of_le_length (by rw [Ring.length_contents]; exact order)

theorem commit_bounded (bounded : input.Bounded)
    : { input with w := input.e }.Bounded
      ∧ { input with w := input.e }.ready.contents
        = input.ready.contents
          ++ { input with w := input.e }.ready.contents.drop input.ready.count := by
  refine ⟨⟨Nat.le_refl _, bounded.room⟩, ?_⟩
  rw [Input.ready_contents bounded.order]
  exact (List.take_append_drop _ _).symm

/-- A character keeps the counters in order and what is ready; more is ready only if the readers
are woken up.
-/
structure CharSpec (input : Input) (done : Input × Bool) : Prop where
  bounded : done.1.Bounded
  read : done.1.r = input.r
  quiet : done.2 = false → done.1.w = input.w ∧ done.1.ready.contents = input.ready.contents
  ready
    : done.1.ready.contents
      = input.ready.contents ++ done.1.ready.contents.drop input.ready.count

theorem CharSpec.of_quiet (bounded : next.Bounded) (read : next.r = input.r)
    (written : next.w = input.w) (ready : next.ready.contents = input.ready.contents)
    : CharSpec input (next, false) where
  bounded := bounded
  read := read
  quiet := fun _ => ⟨written, ready⟩
  ready := by
    rw [ready, List.drop_of_length_le (by rw [Ring.length_contents]), List.append_nil]

theorem Retreats.charSpec (retreats : Retreats input next) (bounded : input.Bounded)
    : CharSpec input (next, false) := by
  have only := retreats.only
  refine .of_quiet (retreats.bounded bounded) ?_ ?_ ?_ <;> rw [only]
  rfl

theorem consoleChar_spec (bounded : input.Bounded) (c : Int32)
    : CharSpec input (consoleChar input c) := by
  unfold consoleChar
  split
  · exact (Retreats.refl bounded).charSpec bounded
  split
  · exact (killLine_retreats _ bounded).charSpec bounded
  split
  · exact (backspace_retreats bounded).charSpec bounded
  split
  · rename_i typed
    have fits : input.edited.count < inputBuf := UInt32.lt_iff_toNat_lt.mp typed.2
    dsimp only
    generalize (if c = 13 then 10 else c) = char
    obtain ⟨stored, same⟩ := store_bounded bounded fits char
    split
    · obtain ⟨committed, ready⟩ := commit_bounded stored
      rw [same] at ready
      exact ⟨committed, rfl, fun quiet => by simp at quiet, ready⟩
    · refine .of_quiet stored ?_ ?_ same <;> rfl
  · exact (Retreats.refl bounded).charSpec bounded

/-! Reading. -/

/-- A section of `consoleread` consumes from the front of what is ready. It goes to sleep only
when nothing is left.
-/
structure ReadSpec (input : Input) (done : Input × Outcome × List UInt8) : Prop where
  bounded : done.1.Bounded
  ready : input.ready.contents = done.2.2 ++ done.1.ready.contents
  sleeps : ∀ n dst, done.2.1 = .sleeps n dst → done.1.r = done.1.w

theorem ReadSpec.of_none {outcome : Outcome} (bounded : input.Bounded)
    (sleeps : ∀ n dst, outcome = .sleeps n dst → input.r = input.w)
    : ReadSpec input (input, outcome, []) :=
  ⟨bounded, rfl, sleeps⟩

/-- One character is read. -/
theorem read_one (bounded : input.Bounded) (some : input.r ≠ input.w)
    : { input with r := input.r + 1 }.Bounded
      ∧ input.ready.contents
        = input.at input.r :: { input with r := input.r + 1 }.ready.contents := by
  have nonempty : input.ready.count ≠ 0 := by
    intro empty
    have test := (Ring.isEmpty_iff input.ready).mpr empty
    exact some (beq_iff_eq.mp test)
  have order := bounded.order
  have room := bounded.room
  have ready := Ring.count_drop nonempty
  have edited := Ring.count_drop (r := input.edited) (by omega)
  refine ⟨⟨?_, ?_⟩, Ring.contents_drop inputBuf_dvd nonempty⟩
  · change input.ready.drop.count ≤ input.edited.drop.count
    omega
  · change input.edited.drop.count ≤ inputBuf
    omega

theorem readLoop_spec (killed : Bool) (target n : Nat) (dst : List UInt8)
    (bounded : input.Bounded)
    : ReadSpec input (readLoop killed target n dst input) := by
  induction n generalizing dst input with
  | zero => exact .of_none bounded (by simp)
  | succ n ih =>
    unfold readLoop
    split
    · rename_i empty
      exact .of_none bounded fun _ _ _ => empty
    · rename_i some
      obtain ⟨next, front⟩ := read_one bounded some
      dsimp only
      split
      · split
        · -- `r` is back where it was.
          rw [UInt32.add_sub_cancel]
          exact .of_none bounded (by simp)
        · exact ⟨next, front, by simp⟩
      · split
        · exact ⟨next, front, by simp⟩
        · obtain ⟨rest, ready, sleeps⟩ := ih (dst ++ [input.at input.r]) next
          exact ⟨rest, by rw [front, ready]; rfl, sleeps⟩

/-- What a call of `consoleread` has so far is not a whole line. -/
structure Progress (target n : Nat) (dst : List UInt8) : Prop where
  unfinished : newline ∉ dst
  length : dst.length + n = target

/-- At most one line, and not more than was asked for. -/
structure OneLine (target : Nat) (dst : List UInt8) : Prop where
  line : newline ∉ dst.dropLast
  length : dst.length ≤ target

theorem Progress.oneLine (progress : Progress target n dst)
    : OneLine target dst :=
  ⟨fun member => progress.unfinished (List.dropLast_subset dst member), by
    have length := progress.length
    omega⟩

theorem readLoop_lines (input : Input) (killed : Bool) (progress : Progress target n dst)
    : (∀ left more, (readLoop killed target n dst input).2.1 = .sleeps left more
        → Progress target left more)
      ∧ ∀ line, (readLoop killed target n dst input).2.1 = .returns line
        → OneLine target line := by
  induction n generalizing dst input with
  | zero =>
    refine ⟨by simp [readLoop], fun line returned => ?_⟩
    cases returned
    exact progress.oneLine
  | succ n ih =>
    have length := progress.length
    unfold readLoop
    split
    · cases killed with
      | true => simp
      | false => simpa using progress
    · dsimp only
      split
      · split <;> simpa using progress.oneLine
      · split
        · rename_i ends
          refine ⟨by simp, fun line returned => ?_⟩
          cases returned
          exact ⟨by simpa using progress.unfinished, by simp; omega⟩
        · rename_i continues
          refine ih _ ⟨?_, by simp; omega⟩
          simp only [List.mem_append, List.mem_singleton, not_or]
          exact ⟨progress.unfinished, Ne.symm continues⟩

/-! The console and its readers. -/

/-- Who sleeps has nothing to read, and what is ready is what was committed and not consumed. -/
structure Sound {ρ : Type} (s : State ρ) : Prop where
  bounded : s.input.Bounded
  history : s.committed = s.consumed ++ s.input.ready.contents
  sleepers : ∀ p target n dst, s.reader p = .asleep target n dst → s.input.r = s.input.w
  asleep : ∀ p target n dst, s.reader p = .asleep target n dst → Progress target n dst
  woken : ∀ p target n dst, s.reader p = .woken target n dst → Progress target n dst
  lines : ∀ line ∈ s.returned, newline ∉ line.dropLast

variable {ρ : Type} {s t : State ρ} {p : ρ}

theorem Reader.wake_ne_asleep (reader : Reader) (target n : Nat) (dst : List UInt8)
    : reader.wake ≠ .asleep target n dst := by
  cases reader <;> simp [wake]

theorem Reader.of_wake {reader : Reader} (woken : reader.wake = .woken target n dst)
    : reader = .asleep target n dst ∨ reader = .woken target n dst := by
  cases reader with
  | out => cases woken
  | asleep => exact .inl (by cases woken; rfl)
  | woken => exact .inr woken

theorem Sound.typed (sound : Sound s) (c : Int32) : Sound (typed s c) := by
  obtain ⟨bounded, read, quiet, ready⟩ := consoleChar_spec sound.bounded c
  unfold Console.typed
  cases done : consoleChar s.input c with
  | mk input woke =>
    rw [done] at bounded read quiet ready
    cases woke with
    | false =>
      obtain ⟨written, same⟩ := quiet rfl
      exact { sound with
        bounded := bounded
        history := by rw [sound.history, ← same]
        sleepers := fun p target n dst asleep =>
          read.trans ((sound.sleepers p target n dst asleep).trans written.symm) }
    | true =>
      exact {
        bounded := bounded
        history := by
          dsimp only at ready ⊢
          rw [sound.history, List.append_assoc, ← ready]
        sleepers := fun p target n dst asleep =>
          absurd asleep ((s.reader p).wake_ne_asleep target n dst)
        asleep := fun p target n dst asleep =>
          absurd asleep ((s.reader p).wake_ne_asleep target n dst)
        woken := fun p target n dst woken =>
          (Reader.of_wake woken).elim (sound.asleep p target n dst)
            (sound.woken p target n dst)
        lines := sound.lines
      }

theorem Sound.consoleintr (sound : Sound s) (getc : List Int32)
    : Sound (consoleintr s getc) := by
  induction getc generalizing s with
  | nil => exact sound
  | cons c rest ih =>
    unfold Console.consoleintr
    split
    · exact sound
    · exact ih (sound.typed c)

variable [DecidableEq ρ]

/-- A reader is out again, or goes on with a call that is not finished. -/
theorem Sound.move (sound : Sound s) {consumed : List UInt8} {reader : Reader}
    {returned : List (List UInt8)} (bounded : input.Bounded)
    (history : s.committed = consumed ++ input.ready.contents)
    (drained : s.input.r = s.input.w → input.r = input.w)
    (sleeper : ∀ target n dst, reader = .asleep target n dst → input.r = input.w)
    (asleep : ∀ target n dst, reader = .asleep target n dst → Progress target n dst)
    (woken : ∀ target n dst, reader = .woken target n dst → Progress target n dst)
    (lines : ∀ line ∈ returned, newline ∉ line.dropLast)
    : Sound { s with
        input, consumed, returned, reader := Function.update s.reader p reader } := by
  refine ⟨bounded, history, fun q => ?_, fun q => ?_, fun q => ?_, lines⟩
  all_goals rcases eq_or_ne q p with rfl | other
  · simpa using sleeper
  · simp only [Function.update_of_ne other]
    exact fun target n dst was => drained (sound.sleepers q target n dst was)
  · simpa using asleep
  · simpa [other] using sound.asleep q
  · simpa using woken
  · simpa [other] using sound.woken q

theorem Sound.readSection (sound : Sound s) (progress : Progress target n dst)
    : Sound (readSection s p target n dst) := by
  obtain ⟨bounded, ready, sleeps⟩ := readLoop_spec (s.killed p) target n dst sound.bounded
  obtain ⟨unfinished, line⟩ := readLoop_lines s.input (s.killed p) progress
  unfold Console.readSection
  generalize readLoop (s.killed p) target n dst s.input = done at *
  have history : s.committed = (s.consumed ++ done.2.2) ++ done.1.ready.contents := by
    rw [sound.history, ready, List.append_assoc]
  -- Nothing can be consumed while another reader sleeps.
  have drained : s.input.r = s.input.w → done.1.r = done.1.w := by
    intro empty
    have none : s.input.ready.contents = [] := by
      rw [← List.length_eq_zero_iff, Ring.length_contents]
      exact (Ring.isEmpty_iff s.input.ready).mp (beq_iff_eq.mpr empty)
    have left : done.1.ready.contents = [] := by
      rw [none] at ready
      exact (List.append_eq_nil_iff.mp ready.symm).2
    have count := congrArg List.length left
    rw [Ring.length_contents] at count
    exact beq_iff_eq.mp ((Ring.isEmpty_iff done.1.ready).mpr count)
  dsimp only
  cases outcome : done.2.1 with
  | sleeps left more =>
    refine sound.move bounded history drained ?_ ?_ (by simp) sound.lines
    · exact fun _ _ _ _ => sleeps left more outcome
    · intro _ _ _ same
      cases same
      exact unfinished left more outcome
  | returns bytes =>
    refine sound.move bounded history drained (by simp) (by simp) (by simp) ?_
    intro other member
    rcases List.mem_append.mp member with before | now
    · exact sound.lines other before
    · rw [List.mem_singleton.mp now]
      exact (line bytes outcome).line
  | fails => exact sound.move bounded history drained (by simp) (by simp) (by simp) sound.lines

theorem Sound.step (sound : Sound s) {label : Label ρ} (stepped : step s label = some t)
    : Sound t := by
  cases label with
  | consoleintr getc =>
    cases stepped
    exact sound.consoleintr getc
  | consoleread p n =>
    obtain ⟨_, ⟨⟩⟩ := Option.ite_none_right_eq_some.mp stepped
    exact sound.readSection ⟨List.not_mem_nil, Nat.zero_add n⟩
  | resume p =>
    simp only [Console.step] at stepped
    cases found : s.reader p with
    | woken target n dst =>
      rw [found] at stepped
      cases stepped
      exact sound.readSection (sound.woken p target n dst found)
    | out | asleep _ _ _ =>
      rw [found] at stepped
      cases stepped
  | kill p =>
    cases stepped
    have killed : Sound { s with killed := Function.update s.killed p true } :=
      ⟨sound.bounded, sound.history, sound.sleepers, sound.asleep, sound.woken, sound.lines⟩
    refine killed.move sound.bounded sound.history id ?_ ?_ ?_ sound.lines
    · exact fun target n dst same => absurd same (Reader.wake_ne_asleep _ target n dst)
    · exact fun target n dst same => absurd same (Reader.wake_ne_asleep _ target n dst)
    · exact fun target n dst same => (Reader.of_wake same).elim (sound.asleep p target n dst)
        (sound.woken p target n dst)

omit [DecidableEq ρ] in
theorem start_sound : Sound (State.start : State ρ) where
  bounded := ⟨Nat.le_refl _, by simp [State.start, Input.edited, Ring.count]⟩
  history := by simp [State.start, Input.ready, Ring.contents, Ring.count]
  sleepers := fun _ _ _ _ asleep => by cases asleep
  asleep := fun _ _ _ _ asleep => by cases asleep
  woken := fun _ _ _ _ woken => by cases woken
  lines := fun _ member => by cases member

/-- `^U`, `^H` and the delete key. -/
def Edits (c : Int32) : Prop := c = control 'U' ∨ c = control 'H' ∨ c = 0x7f

theorem consoleChar_edits {c : Int32} (edits : Edits c) (bounded : input.Bounded)
    : ∃ next, consoleChar input c = (next, false) ∧ Retreats input next := by
  rcases edits with rfl | rfl | rfl
  · exact ⟨_, rfl, killLine_retreats _ bounded⟩
  · exact ⟨_, rfl, backspace_retreats bounded⟩
  · exact ⟨_, rfl, backspace_retreats bounded⟩

/-- The counters stay in order within one round. An editing key moves `e` back, not beyond `w`,
and changes nothing else. A sleeping reader has nothing to read. What was committed is what was
consumed and then what is ready, and every read returns at most one line.
-/
theorem console_keeps_committed {labels : List (Label ρ)}
    (reached : run step labels State.start = some s)
    : (s.input.w - s.input.r).toNat ≤ (s.input.e - s.input.r).toNat
      ∧ (s.input.e - s.input.r).toNat ≤ inputBuf
      ∧ (∀ c, Edits c →
          ∃ e, consoleChar s.input c = ({ s.input with e }, false)
            ∧ (s.input.w - s.input.r).toNat ≤ (e - s.input.r).toNat
            ∧ (e - s.input.r).toNat ≤ (s.input.e - s.input.r).toNat)
      ∧ (∀ p target n dst, s.reader p = .asleep target n dst → s.input.r = s.input.w)
      ∧ s.committed = s.consumed ++ s.input.ready.contents
      ∧ s.consumed <+: s.committed
      ∧ ∀ line ∈ s.returned, newline ∉ line.dropLast := by
  have sound : Sound s :=
    run_invariant (motive := Sound) (fun _ _ _ sound stepped => sound.step stepped) start_sound
      reached
  refine ⟨sound.bounded.order, sound.bounded.room, ?_, sound.sleepers, sound.history, ?_,
    sound.lines⟩
  · intro c edits
    obtain ⟨next, done, only, order, back⟩ := consoleChar_edits edits sound.bounded
    rw [only] at order back
    refine ⟨next.e, ?_, order, back⟩
    rw [done, ← only]
  · rw [sound.history]
    exact List.prefix_append _ _

/-- A reader waits; `ab`, a backspace, `c`, a newline and `^D` are typed; it reads `ac` and the
newline, and the next read finds the end of the file.
-/
def session : List (Label Bool) :=
  [.consoleread true 10, .consoleintr [97, 98, 8, 99, 13, 4, -1], .resume true,
    .consoleread false 10]

theorem session_keeps_committed
    : ∃ s : State Bool, run step session State.start = some s
        ∧ s.returned = [[97, 99, 10], []]
        ∧ s.committed = [97, 99, 10, 4]
        ∧ s.consumed <+: s.committed := by
  obtain ⟨s, reached, returned, committed⟩ : ∃ s ∈ run step session (State.start : State Bool),
      s.returned = [[97, 99, 10], []] ∧ s.committed = [97, 99, 10, 4] := by
    decide +kernel
  exact ⟨s, reached, returned, committed, (console_keeps_committed reached).2.2.2.2.2.1⟩

end Xv6.Console
