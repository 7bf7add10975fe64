import Mathlib

/-! `strtok` of `lsh.c`. The buffer holds a string and its NUL, and a pointer is an index into it;
an access behind the NUL has no result.
-/

namespace Xv6.Lsh

/-- The first loop of `strtok`, over the bytes from `s` on; `some none` is `return 0`. -/
def skipDelims (delim : List UInt8) : (s : Nat) → List UInt8 → Option (Option Nat)
  | _, [] => none
  | s, ch :: rest =>
      if ch = 0 then some none
      else if ch ∈ delim then skipDelims delim (s + 1) rest
      else some (some s)

def strcspn (chars : List UInt8) : List UInt8 → Option Nat
  | [] => none
  | c :: rest => if c = 0 ∨ c ∈ chars then some 0 else (strcspn chars rest).map (· + 1)

/-- `strtok`, with the pointer `s` or `lasts` that it starts from. It returns the token, the buffer
and the new `lasts`.
-/
def strtok (delim buf : List UInt8) (s : Nat) : Option (Option (Nat × List UInt8 × Nat)) := do
  match ← skipDelims delim s (buf.drop s) with
  | none => pure none
  | some token =>
      let lasts := token + (← strcspn delim (buf.drop token))
      if (← buf[lasts]?) ≠ 0 then pure (some (token, buf.set lasts 0, lasts + 1))
      else pure (some (token, buf, lasts))

/-- The calls of `strtok` until it returns 0: all tokens, and the buffer. -/
def strtokAll (delim : List UInt8) : (calls : Nat) → List UInt8 → Nat
    → Option (List Nat × List UInt8)
  | 0, _, _ => none
  | calls + 1, buf, s => do
      match ← strtok delim buf s with
      | none => pure ([], buf)
      | some (token, buf, lasts) =>
          let (tokens, buf) ← strtokAll delim calls buf lasts
          pure (token :: tokens, buf)

/-- A maximal run of bytes other than delimiters starts at `p`. -/
def Starts (delim text : List UInt8) (p : Nat) : Prop :=
  (∃ c, text[p]? = some c ∧ c ∉ delim) ∧ ∀ c, 0 < p → text[p - 1]? = some c → c ∈ delim

/-- The word that starts at `p`. -/
def wordAt (delim text : List UInt8) (p : Nat) : List UInt8 :=
  (text.drop p).takeWhile (· ∉ delim)

section Tokens

variable {delim ds w rest text before : List UInt8} {i c : Nat}

theorem skipDelims_append (delims : ∀ c ∈ ds, c ≠ 0 ∧ c ∈ delim)
    : skipDelims delim i (ds ++ rest) = skipDelims delim (i + ds.length) rest := by
  induction ds generalizing i with
  | nil => rfl
  | cons d ds ih =>
    obtain ⟨⟨nonzero, isDelim⟩, delims⟩ := List.forall_mem_cons.mp delims
    rw [List.cons_append, skipDelims, if_neg nonzero, if_pos isDelim, ih delims,
      List.length_cons, Nat.add_right_comm, Nat.add_assoc]

theorem strcspn_append {c : UInt8} (word : ∀ c ∈ w, c ≠ 0 ∧ c ∉ delim) (stop : c = 0 ∨ c ∈ delim)
    : strcspn delim (w ++ c :: rest) = some w.length := by
  induction w with
  | nil => exact if_pos stop
  | cons x w ih =>
    obtain ⟨⟨nonzero, isWord⟩, word⟩ := List.forall_mem_cons.mp word
    rw [List.cons_append, strcspn, if_neg (by simp [nonzero, isWord]), ih word, Option.map_some,
      List.length_cons]

theorem split_while (p : UInt8 → Prop) [DecidablePred p] (text : List UInt8)
    : ∃ first rest, text = first ++ rest ∧ (∀ c ∈ first, p c) ∧ ∀ c ∈ rest.head?, ¬ p c := by
  induction text with
  | nil => exact ⟨[], [], rfl, by simp, by simp⟩
  | cons c text ih =>
    by_cases holds : p c
    · obtain ⟨first, rest, rfl, all, stops⟩ := ih
      exact ⟨c :: first, rest, rfl, List.forall_mem_cons.mpr ⟨holds, all⟩, stops⟩
    · exact ⟨[], c :: text, rfl, by simp, by simpa using holds⟩

theorem not_starts (delims : ∀ c ∈ ds, c ∈ delim) (p : Nat) : ¬ Starts delim ds p := by
  rintro ⟨⟨c, here, word⟩, -⟩
  exact word (delims c (List.mem_of_getElem? here))

/-- Behind delimiters and a word, the runs of the rest. -/
theorem starts_iff {p : Nat} (delims : ∀ c ∈ ds, c ∈ delim) (word : ∀ c ∈ w, c ∉ delim)
    (nonempty : w ≠ []) (stops : ∀ c ∈ rest.head?, c ∈ delim)
    : Starts delim (ds ++ (w ++ rest)) p
      ↔ p = ds.length ∨ ∃ q, p = ds.length + (w.length + 1) + q ∧ Starts delim rest.tail q := by
  have length := List.length_pos_iff.mpr nonempty
  have first : (ds ++ (w ++ rest))[ds.length]? = some w[0] := by grind
  unfold Starts
  rcases Nat.lt_trichotomy p ds.length with low | rfl | high
  · grind
  · grind
  · by_cases inside : p ≤ ds.length + w.length
    · cases rest <;> grind
    · obtain ⟨q, rfl⟩ :=
        Nat.exists_eq_add_of_le (m := ds.length + (w.length + 1)) (n := p) (by omega)
      cases rest <;> cases q <;> grind

/-- `strtok` finds nothing in delimiters. -/
theorem strtokAll_delims {calls : Nat} (delims : ∀ c ∈ ds, c ≠ 0 ∧ c ∈ delim)
    : strtokAll delim (calls + 1) (before ++ (ds ++ [0])) before.length
      = some ([], before ++ (ds ++ [0])) := by
  simp [strtokAll, strtok, skipDelims_append delims, skipDelims]

/-- `strtok` takes the next word and puts a NUL behind it. -/
theorem strtok_word {d : UInt8} (delims : ∀ c ∈ ds, c ≠ 0 ∧ c ∈ delim)
    (word : ∀ c ∈ w, c ≠ 0 ∧ c ∉ delim) (nonempty : w ≠ []) (stop : d = 0 ∨ d ∈ delim)
    : strtok delim (before ++ (ds ++ (w ++ d :: rest))) before.length
      = some (some ((before ++ ds).length, before ++ ds ++ (w ++ 0 :: rest),
          (before ++ ds).length + w.length + if d = 0 then 0 else 1)) := by
  have found : skipDelims delim before.length (ds ++ (w ++ d :: rest))
      = some (some (before ++ ds).length) := by
    obtain ⟨c, w, rfl⟩ := List.exists_cons_of_ne_nil nonempty
    obtain ⟨nonzero, isWord⟩ := word c (List.mem_cons_self ..)
    rw [skipDelims_append delims, List.cons_append, skipDelims, if_neg nonzero, if_neg isWord,
      List.length_append]
  rw [strtok, List.drop_left, found, ← List.append_assoc before]
  generalize before ++ ds = start
  have behind : (start ++ (w ++ d :: rest))[start.length + w.length]? = some d := by grind
  have cut : (start ++ (w ++ d :: rest)).set (start.length + w.length) 0 = start ++ (w ++ 0 :: rest) := by
    grind
  simp only [Option.bind_eq_bind, Option.bind_some, List.drop_left, strcspn_append word stop,
    behind, cut]
  by_cases zero : d = 0 <;> simp [zero]

theorem strtokAll_cons {buf next out : List UInt8} {s token lasts calls : Nat} {tokens : List Nat}
    (taken : strtok delim buf s = some (some (token, next, lasts)))
    (later : strtokAll delim calls next lasts = some (tokens, out))
    : strtokAll delim (calls + 1) buf s = some (token :: tokens, out) := by
  simp [strtokAll, taken, later]

/-- The tokens of the rest of the buffer, and what is left there. -/
theorem strtokAll_eq {calls : Nat} (clean : 0 ∉ text) (enough : text.length < calls)
    : ∃ tokens out,
        strtokAll delim calls (before ++ (text ++ [0])) before.length = some (tokens, before ++ out)
        ∧ tokens.Pairwise (· < ·)
        ∧ (∀ p, p ∈ tokens ↔ ∃ q, p = before.length + q ∧ Starts delim text q)
        ∧ ∀ q, Starts delim text q → wordAt delim text q ++ [0] <+: out.drop q := by
  induction calls generalizing before text with
  | zero => cases enough
  | succ calls ih =>
    obtain ⟨ds, words, rfl, delims, first⟩ := split_while (· ∈ delim) text
    have delims' : ∀ c ∈ ds, c ≠ 0 ∧ c ∈ delim := fun c mem =>
      ⟨fun zero => clean (by simp [← zero, mem]), delims c mem⟩
    obtain ⟨w, rest, rfl, word, stops⟩ := split_while (· ∉ delim) words
    have word' : ∀ c ∈ w, c ≠ 0 ∧ c ∉ delim := fun c mem =>
      ⟨fun zero => clean (by simp [← zero, mem]), word c mem⟩
    rcases eq_or_ne w [] with rfl | nonempty
    · have ended : rest = [] := by
        cases rest <;> simp_all
      subst ended
      refine ⟨[], ds ++ [0], ?_, .nil, by simp [not_starts delims], by simp [not_starts delims]⟩
      have none : strtokAll delim (calls + 1) (before ++ (ds ++ [0])) before.length = _ :=
        strtokAll_delims delims'
      simpa using none
    · have length := List.length_pos_iff.mpr nonempty
      rw [List.length_append, List.length_append] at enough
      replace stops : ∀ c ∈ rest.head?, c ∈ delim := fun c head => not_not.mp (stops c head)
      -- what the later calls find behind the word
      obtain ⟨tokens, out, ran, order, found, words⟩ : ∃ tokens out,
          strtokAll delim (calls + 1) (before ++ (ds ++ (w ++ (rest ++ [0])))) before.length
            = some ((before ++ ds).length :: tokens, before ++ (ds ++ (w ++ 0 :: out)))
          ∧ tokens.Pairwise (· < ·)
          ∧ (∀ p, p ∈ tokens
            ↔ ∃ q, p = before.length + (ds.length + (w.length + 1) + q) ∧ Starts delim rest.tail q)
          ∧ ∀ q, Starts delim rest.tail q → wordAt delim rest.tail q ++ [0] <+: out.drop q := by
        rcases rest with _ | ⟨d, rest⟩
        · refine ⟨[], [], ?_, .nil, by simp [Starts], by simp [Starts]⟩
          obtain ⟨calls, rfl⟩ : ∃ k, calls = k + 1 := ⟨calls - 1, by omega⟩
          have taken : strtok delim (before ++ (ds ++ (w ++ [0]))) before.length = _ :=
            strtok_word delims' word' nonempty (.inl rfl)
          have ended : strtokAll delim (calls + 1) (before ++ ds ++ w ++ ([] ++ [0])) _ = _ :=
            strtokAll_delims (by simp)
          exact strtokAll_cons taken (by simpa [Nat.add_assoc] using ended)
        · have isDelim : d ∈ delim := stops d rfl
          have nonzero : d ≠ 0 := fun zero => clean (by simp [zero])
          have taken : strtok delim (before ++ (ds ++ (w ++ d :: (rest ++ [0])))) before.length = _ :=
            strtok_word delims' word' nonempty (.inr isDelim)
          obtain ⟨tokens, out, ran, order, found, words⟩ :=
            @ih rest (before ++ ds ++ w ++ [0]) (by simp_all)
              (by rw [List.length_cons] at enough; omega)
          refine ⟨tokens, out, ?_, order, fun p => ?_, words⟩
          · exact strtokAll_cons taken (by simpa [nonzero, Nat.add_assoc] using ran)
          · simp [found, Nat.add_assoc]
      have starts := fun p => starts_iff (p := p) delims word nonempty stops
      refine ⟨_, ds ++ (w ++ 0 :: out), by simpa using ran,
        List.pairwise_cons.mpr ⟨fun p mem => ?_, order⟩, fun p => ?_, fun q start => ?_⟩
      · obtain ⟨q, rfl, -⟩ := (found p).mp mem
        omega
      · simp only [List.mem_cons, found, starts]
        grind
      · rcases (starts q).mp start with rfl | ⟨q, rfl, inner⟩
        · have stop : (w ++ rest).takeWhile (· ∉ delim) = w := by
            rw [List.takeWhile_append_of_pos (by simpa using word)]
            cases rest <;> simp_all
          rw [wordAt, List.drop_left, List.drop_left, stop]
          exact ⟨out, by simp⟩
        · have behind : ∀ t : List UInt8,
              (ds ++ (w ++ t)).drop (ds.length + (w.length + 1) + q) = t.tail.drop q := fun t => by
            rw [Nat.add_assoc, ← List.drop_drop, List.drop_left, Nat.add_assoc, ← List.drop_drop,
              List.drop_left, ← List.drop_drop, List.drop_one]
          rw [wordAt, behind, behind]
          exact words q inner

end Tokens

/-- `strtok` finds the maximal runs of bytes other than delimiters, in order, and leaves each of
them with a NUL behind it.
-/
theorem strtok_words (delim : List UInt8) {s : List UInt8} (clean : 0 ∉ s)
    : ∃ tokens buf, strtokAll delim (s.length + 1) (s ++ [0]) 0 = some (tokens, buf)
        ∧ tokens.Pairwise (· < ·)
        ∧ (∀ p, p ∈ tokens ↔ Starts delim s p)
        ∧ ∀ p ∈ tokens, wordAt delim s p ++ [0] <+: buf.drop p := by
  obtain ⟨tokens, buf, ran, order, starts, words⟩ :=
    @strtokAll_eq delim s [] (s.length + 1) clean (Nat.lt_succ_self _)
  have found : ∀ p, p ∈ tokens ↔ Starts delim s p := by simpa using starts
  exact ⟨tokens, buf, ran, order, found, fun p mem => words p ((found p).mp mem)⟩

theorem strtok_words_two
    : ∃ tokens buf, strtokAll [32] 4 [97, 32, 98, 0] 0 = some (tokens, buf)
        ∧ ∀ p ∈ tokens, wordAt [32] [97, 32, 98] p ++ [0] <+: buf.drop p := by
  obtain ⟨tokens, buf, ran, -, -, words⟩ := @strtok_words [32] [97, 32, 98] (by decide)
  exact ⟨tokens, buf, ran, words⟩

end Xv6.Lsh
