import Xv6.Fs.Progress

/-! A directory as a map from names to inode numbers, under `dirlink`, `dirlookup` and the
removal of entries.
-/

namespace Xv6.Fs

open Lib

/-! Names that `namecmp` does not tell apart are those that `strncpy` stores alike. -/

section Names

variable {n : Nat} {t p q name other : List UInt8} {de : Dirent}

theorem strncpy_of_head (head : t.headD 0 ≠ 0)
    : strncpy (n + 1) t = t.headD 0 :: strncpy n t.tail :=
  if_neg head

theorem strncpy_of_end (head : t.headD 0 = 0)
    : strncpy (n + 1) t = List.replicate (n + 1) 0 :=
  if_pos head

theorem strncmp_eq_zero_iff (n : Nat) (p q : List UInt8)
    : strncmp n p q = 0 ↔ strncpy n p = strncpy n q := by
  induction n generalizing p q with
  | zero => exact iff_of_true rfl rfl
  | succ n ih =>
    unfold strncmp
    by_cases first : p.headD 0 = 0
    · rw [if_neg (fun both => both.1 first), strncpy_of_end first, first]
      by_cases second : q.headD 0 = 0
      · rw [strncpy_of_end second, second]
        exact iff_of_true rfl rfl
      · rw [strncpy_of_head second, List.replicate_succ]
        constructor
        · intro zero
          refine absurd (UInt8.toNat_inj.mp ?_) second
          change ((0 : Nat) : Int) - _ = 0 at zero
          change (q.headD 0).toNat = 0
          omega
        · intro same
          exact absurd (List.cons.inj same).1.symm second
    · by_cases heads : p.headD 0 = q.headD 0
      · rw [if_pos ⟨first, heads⟩, ih, strncpy_of_head first,
          strncpy_of_head (heads ▸ first), heads, List.cons_inj_right]
      · rw [if_neg fun both => heads both.2, strncpy_of_head first]
        constructor
        · intro zero
          refine absurd (UInt8.toNat_inj.mp ?_) heads
          omega
        · intro same
          by_cases second : q.headD 0 = 0
          · rw [strncpy_of_end second, List.replicate_succ] at same
            exact absurd (List.cons.inj same).1 first
          · rw [strncpy_of_head second] at same
            exact absurd (List.cons.inj same).1 heads

theorem strncpy_strncpy (n : Nat) (t : List UInt8)
    : strncpy n (strncpy n t) = strncpy n t := by
  induction n generalizing t with
  | zero => rfl
  | succ n ih =>
    by_cases head : t.headD 0 = 0
    · rw [strncpy_of_end head, strncpy_of_end rfl]
    · have head' : (t.headD 0 :: strncpy n t.tail).headD 0 ≠ 0 := head
      rw [strncpy_of_head head, strncpy_of_head head', List.tail_cons, ih, List.headD_cons]

theorem namecmp_eq_zero_iff
    : namecmp p q = 0 ↔ strncpy dirsiz p = strncpy dirsiz q :=
  strncmp_eq_zero_iff ..

theorem namecmp_strncpy
    : namecmp p (strncpy dirsiz q) = 0 ↔ namecmp p q = 0 := by
  rw [namecmp_eq_zero_iff, namecmp_eq_zero_iff, strncpy_strncpy]

/-- An entry is found under all names that are equal to one it is found under. -/
theorem Dirent.Matches.congr (found : de.Matches name) (same : namecmp other name = 0)
    : de.Matches other :=
  ⟨found.1, namecmp_eq_zero_iff.mpr
    ((namecmp_eq_zero_iff.mp same).trans (namecmp_eq_zero_iff.mp found.2))⟩

theorem Dirent.Matches.same (found : de.Matches name) (found' : de.Matches other)
    : namecmp other name = 0 :=
  namecmp_eq_zero_iff.mpr
    ((namecmp_eq_zero_iff.mp found'.2).trans (namecmp_eq_zero_iff.mp found.2).symm)

end Names

/-- A directory of whole entries, of which no two in use have equal names. -/
structure Node.Tidy (n : Node) : Prop where
  directory : n.type = tDir
  whole : n.contents.length = direntSize * n.entryCount
  distinct
    : ∀ j k, j < n.entryCount → k < n.entryCount → (n.entry j).inum ≠ 0 → (n.entry k).inum ≠ 0
      → namecmp (n.entry j).name (n.entry k).name = 0 → j = k

section Lookup

variable {n : Node} {k : Nat} {name : List UInt8}

/-- Equal names stand for the same inode. -/
theorem Node.lookup_congr {other : List UInt8} (same : namecmp other name = 0)
    : n.lookup other = n.lookup name := by
  have back : namecmp name other = 0 :=
    namecmp_eq_zero_iff.mpr (namecmp_eq_zero_iff.mp same).symm
  have both : ∀ k, (n.entry k).Matches other ↔ (n.entry k).Matches name :=
    fun k => ⟨fun found => found.congr back, fun found => found.congr same⟩
  simp only [Node.lookup, both]

theorem Node.Tidy.unique (tidy : n.Tidy) {j : Nat} (inside : j < n.entryCount)
    (inside' : k < n.entryCount) (found : (n.entry j).Matches name)
    (found' : (n.entry k).Matches name)
    : j = k :=
  tidy.distinct j k inside inside' found.1 found'.1 (namecmp_eq_zero_iff.mpr
    ((namecmp_eq_zero_iff.mp found.2).symm.trans (namecmp_eq_zero_iff.mp found'.2)))

/-- The number that a name stands for is in its only entry. -/
theorem Node.Tidy.lookup_eq_some_iff (tidy : n.Tidy) {x : Nat}
    : n.lookup name = some x
      ↔ ∃ k, k < n.entryCount ∧ (n.entry k).Matches name ∧ (n.entry k).inum.toNat = x := by
  refine ⟨Node.exists_of_lookup, ?_⟩
  rintro ⟨k, inside, found, rfl⟩
  refine Node.lookup_of_first inside found fun j below found' => ?_
  exact absurd (tidy.unique (Nat.lt_trans below inside) inside found' found) (Nat.ne_of_lt below)

/-- Replacing or appending one entry, whose name no other entry in use has. -/
theorem Node.Tidy.setEntry (tidy : n.Tidy) (de : Dirent) (stored : de.name.length = dirsiz)
    (inside : k ≤ n.entryCount)
    (fresh
      : ∀ j, j < n.entryCount → j ≠ k → (n.entry j).inum ≠ 0 → de.inum ≠ 0
        → namecmp (n.entry j).name de.name ≠ 0)
    : (n.setEntry k de).Tidy
      ∧ ∀ y x, (n.setEntry k de).lookup y = some x
          ↔ de.Matches y ∧ de.inum.toNat = x
            ∨ ∃ j, j < n.entryCount ∧ j ≠ k ∧ (n.entry j).Matches y
              ∧ (n.entry j).inum.toNat = x := by
  have low : direntSize * k ≤ n.contents.length := by
    rw [tidy.whole]
    exact Nat.mul_le_mul_left _ inside
  have here := Node.entry_setEntry_same stored low
  have there := fun j => Node.entry_setEntry_ne (j := j) stored low
  have count := Node.entryCount_setEntry stored low
  have tidy' : (n.setEntry k de).Tidy := by
    refine ⟨tidy.directory, ?_, fun i j below below' usedI usedJ same => ?_⟩
    · rw [count, Node.setEntry, length_splice low, Dirent.length_toBytes stored, tidy.whole,
        ← Nat.mul_max_mul_left]
      rfl
    · rw [count] at below below'
      by_contra ne
      rcases eq_or_ne i k with rfl | other
      · rw [here] at usedI same
        rw [there j (Ne.symm ne)] at usedJ same
        refine fresh j (by omega) (Ne.symm ne) usedJ usedI ?_
        rw [namecmp_eq_zero_iff] at same ⊢
        exact same.symm
      · rw [there i other] at usedI same
        rcases eq_or_ne j k with rfl | other'
        · rw [here] at usedJ same
          exact fresh i (by omega) other usedI usedJ same
        · rw [there j other'] at usedJ same
          exact ne (tidy.distinct i j (by omega) (by omega) usedI usedJ same)
  refine ⟨tidy', fun y x => ?_⟩
  rw [tidy'.lookup_eq_some_iff, count]
  constructor
  · rintro ⟨j, below, found, number⟩
    rcases eq_or_ne j k with rfl | other
    · rw [here] at found number
      exact .inl ⟨found, number⟩
    · rw [there j other] at found number
      exact .inr ⟨j, by omega, other, found, number⟩
  · rintro (⟨found, number⟩ | ⟨j, below, other, found, number⟩)
    · exact ⟨k, by omega, by rwa [here], by rwa [here]⟩
    · exact ⟨j, by omega, by rwa [there j other], by rwa [there j other]⟩

/-- An entry for a new name, in an empty place or at the end. -/
theorem Node.Tidy.add (tidy : n.Tidy) {inum : UInt16} (used : inum ≠ 0)
    (absent : n.lookup name = none)
    (place : k < n.entryCount ∧ (n.entry k).inum = 0 ∨ k = n.entryCount)
    : (n.setEntry k ⟨inum, strncpy dirsiz name⟩).Tidy
      ∧ ∀ y, (n.setEntry k ⟨inum, strncpy dirsiz name⟩).lookup y
          = if namecmp y name = 0 then some inum.toNat else n.lookup y := by
  have lacks := Node.lookup_eq_none_iff.mp absent
  obtain ⟨tidy', looks⟩ := tidy.setEntry (k := k) ⟨inum, strncpy dirsiz name⟩
    (length_strncpy ..) (by omega) fun j below _ usedJ _ same =>
      lacks j below ⟨usedJ, by
        rw [namecmp_strncpy, namecmp_eq_zero_iff] at same
        exact namecmp_eq_zero_iff.mpr same.symm⟩
  refine ⟨tidy', fun y => Option.ext fun x => ?_⟩
  rw [looks]
  split
  · rename_i same
    simp only [Option.some.injEq]
    constructor
    · rintro (⟨_, number⟩ | ⟨j, below, _, found, _⟩)
      · exact number
      · rw [namecmp_eq_zero_iff] at same
        exact absurd (found.congr (namecmp_eq_zero_iff.mpr same.symm)) (lacks j below)
    · exact fun number => .inl ⟨⟨used, namecmp_strncpy.mpr same⟩, number⟩
  · rename_i other
    rw [tidy.lookup_eq_some_iff]
    constructor
    · rintro (⟨found, _⟩ | ⟨j, below, _, found, number⟩)
      · exact absurd (namecmp_strncpy.mp found.2) other
      · exact ⟨j, below, found, number⟩
    · rintro ⟨j, below, found, number⟩
      refine .inr ⟨j, below, ?_, found, number⟩
      rintro rfl
      rcases place with ⟨_, empty⟩ | rfl
      · exact found.1 empty
      · exact Nat.lt_irrefl _ below

/-- Overwriting the entry of a name with zeros removes the name. -/
theorem Node.Tidy.remove (tidy : n.Tidy) (inside : k < n.entryCount)
    (found : (n.entry k).Matches name)
    : (n.setEntry k ⟨0, List.replicate dirsiz 0⟩).Tidy
      ∧ ∀ y, (n.setEntry k ⟨0, List.replicate dirsiz 0⟩).lookup y
          = if namecmp y name = 0 then none else n.lookup y := by
  obtain ⟨tidy', looks⟩ := tidy.setEntry ⟨0, List.replicate dirsiz 0⟩
    (List.length_replicate ..) (Nat.le_of_lt inside) fun _ _ _ _ empty => absurd rfl empty
  refine ⟨tidy', fun y => Option.ext fun x => ?_⟩
  rw [looks]
  split
  · rename_i same
    simp only [reduceCtorEq, iff_false]
    rintro (⟨empty, _⟩ | ⟨j, below, other, found', _⟩)
    · exact empty.1 rfl
    · exact other (tidy.unique below inside found' (found.congr same))
  · rename_i differs
    rw [tidy.lookup_eq_some_iff]
    constructor
    · rintro (⟨empty, _⟩ | ⟨j, below, _, found', number⟩)
      · exact absurd rfl empty.1
      · exact ⟨j, below, found', number⟩
    · rintro ⟨j, below, found', number⟩
      refine .inr ⟨j, below, ?_, found', number⟩
      rintro rfl
      exact differs (found.same found')

end Lookup

/-- Calls on a directory whose lock the caller holds; `release` is the `iput` of an inode that
was found.
-/
inductive DirOp where
  | link (name : List UInt8) (inum : Nat)
  | lookup (name : List UInt8)
  | remove (name : List UInt8)
  | release (inum : Nat)

/-- Results of the calls; a name is found with its inode and the offset of its entry. -/
inductive DirAnswer where
  | linked (success : Bool)
  | found (place : Option (Nat × Nat))
  | removed (success : Bool)
  | released
  deriving DecidableEq

/-- The part of `sys_unlink` that looks a name up and clears its entry. -/
def clearEntry (dp : Nat) (name : List UInt8) : FsM Bool := do
  let present ← dirlookup dp name
  match present with
  | none => pure false
  | some (_, off) => do
      let written ← writei dp (List.replicate direntSize 0) off
      if written = some direntSize then pure true else panic .unlinkWritei

def DirOp.exec (dp : Nat) : DirOp → FsM DirAnswer
  | .link name inum => do
      let success ← dirlink dp name inum
      pure (.linked success)
  | .lookup name => do
      let place ← dirlookup dp name
      pure (.found place)
  | .remove name => do
      let success ← clearEntry dp name
      pure (.removed success)
  | .release inum => do
      iput inum
      pure .released

/-- A call that returns. -/
def dirStep (dp : Nat) (s : State) (op : DirOp) : Option State :=
  match op.exec dp s with
  | .ok (_, s') => some s'
  | .error _ => none

/-- Names and the inode numbers they stand for. -/
abbrev DirMap := List UInt8 → Option Nat

/-- The map after a call. Equal names are those that `namecmp` does not tell apart. -/
def DirMap.after (m : DirMap) : DirOp → DirMap
  | .link name inum =>
      if m name = none then fun y => if namecmp y name = 0 then some inum else m y else m
  | .remove name => fun y => if namecmp y name = 0 then none else m y
  | .lookup _ | .release _ => m

/-- The result that a call should have on a directory `n` that stands for `m`. -/
def DirMap.Answers (m : DirMap) (n : Node) : DirOp → DirAnswer → Prop
  | .link name _, .linked success => success = true ↔ m name = none
  | .lookup name, .found place =>
      place.map Prod.fst = m name
      ∧ ∀ x off, place = some (x, off)
          → ∃ k, k < n.entryCount ∧ off = direntSize * k ∧ (n.entry k).Matches name
            ∧ (n.entry k).inum.toNat = x
  | .remove name, .removed success => success = true ↔ m name ≠ none
  | .release _, .released => True
  | _, _ => False

/-- What a call needs to return: an entry of the inode cache for an inode that it finds, the
lock of which the caller does not hold if the call drops it again, and for a new name an empty
entry or room to grow.
-/
def DirOp.Ready (dp : Nat) (s : State) : DirOp → Prop
  | .link name inum =>
      1 ≤ inum ∧ inum ≤ 65535
      ∧ (∀ x, (s.node dp).lookup name = some x → s.Room x ∧ (s.icache x).locked = false)
      ∧ ((s.node dp).lookup name = none
        → (∃ k, k < (s.node dp).entryCount ∧ ((s.node dp).entry k).inum = 0)
          ∨ (s.node dp).contents.length + direntSize ≤ maxfile * bsize ∧ s.Spare)
  | .lookup name | .remove name => ∀ x, (s.node dp).lookup name = some x → s.Room x
  | .release inum =>
      (s.icache inum).locked = false
      ∧ ¬((s.icache inum).valid = true ∧ (s.icache inum).copy.nlink = 0
        ∧ (s.icache inum).ref = 1)

/-- A call that returned with the right answer, from a directory in `s` to one in `s'`. -/
structure DirOp.Done (dp : Nat) (s : State) (op : DirOp) (answer : DirAnswer) (s' : State)
    : Prop where
  returns : Returns (op.exec dp) s answer s'
  shows : s'.Shows dp
  tidy : (s'.node dp).Tidy
  map : (s'.node dp).lookup = DirMap.after (s.node dp).lookup op
  answer : DirMap.Answers (s.node dp).lookup (s.node dp) op answer
  reuse
    : (∃ k, k < (s.node dp).entryCount ∧ ((s.node dp).entry k).inum = 0)
      → (s'.node dp).contents.length = (s.node dp).contents.length

section Calls

variable {s s' : State} {dp : Nat}
variable {op : DirOp} {name : List UInt8}

theorem dirStep_eq_some_iff
    : dirStep dp s op = some s' ↔ ∃ answer, Returns (op.exec dp) s answer s' := by
  unfold dirStep Returns
  cases op.exec dp s with
  | error e => simp
  | ok result => simp [Prod.ext_iff]

/-- Calls that only take and drop references. -/
theorem DirOp.Done.of_bookkept {answer : DirAnswer} (shown : s.Shows dp) (tidy : (s.node dp).Tidy)
    (kept : Bookkept s s') (ran : Returns (op.exec dp) s answer s')
    (same : DirMap.after (s.node dp).lookup op = (s.node dp).lookup)
    (right : DirMap.Answers (s.node dp).lookup (s.node dp) op answer)
    : op.Done dp s answer s' where
  returns := ran
  shows := kept.shows shown
  tidy := by rwa [kept.node]
  map := by rw [kept.node, same]
  answer := right
  reuse := by
    rw [kept.node]
    exact fun _ => rfl

theorem dirlookup_bookkept {place : Option (Nat × Nat)} (shown : s.Shows dp)
    (tidy : (s.node dp).Tidy) (ran : Returns (dirlookup dp name) s place s')
    : Bookkept s s' ∧ DirMap.Answers (s.node dp).lookup (s.node dp) (.lookup name) (.found place) := by
  obtain ⟨_, ⟨rfl, rfl, _, none⟩ | ⟨k, inside, found, first, rfl, got⟩⟩ :=
    dirlookup_returns shown ran
  · refine ⟨⟨rfl, rfl, fun _ => rfl⟩, ?_, fun _ _ impossible => nomatch impossible⟩
    exact (Node.lookup_eq_none_iff.mpr none).symm
  · refine ⟨(iget_bookkept got).1, (Node.lookup_of_first inside found first).symm, ?_⟩
    rintro x off ⟨⟩
    exact ⟨k, inside, rfl, found, rfl⟩

theorem returns_map {α β : Type} {m : FsM α} {f : α → β} {a : α} (ran : Returns m s a s')
    : Returns (do let a ← m; pure (f a)) s (f a) s' :=
  returns_bind.mpr ⟨a, s', ran, returns_pure.mpr ⟨rfl, rfl⟩⟩

section

variable (shown : s.Shows dp) (tidy : (s.node dp).Tidy)
include shown tidy

theorem link_done {inum : Nat} (ready : (DirOp.link name inum).Ready dp s)
    : ∃ answer s', (DirOp.link name inum).Done dp s answer s' := by
  obtain ⟨positive, small, present, absent⟩ := ready
  obtain ⟨success, s', ran⟩ : Completes (dirlink dp name inum) s :=
    dirlink_completes shown tidy.directory tidy.whole present absent
  refine ⟨.linked success, s', ?_⟩
  obtain ⟨_, ⟨rfl, k, m, inside, found, got, put⟩ | ⟨rfl, lacks, k, low, place, stored⟩⟩ :=
    dirlink_returns shown ran
  · have isThere : (s.node dp).lookup name ≠ none := fun none =>
      Node.lookup_eq_none_iff.mp none k inside found
    refine .of_bookkept shown tidy (iget_iput_bookkept got put) (returns_map ran)
      (if_neg isThere) ?_
    exact iff_of_false Bool.false_ne_true isThere
  · have isAbsent := Node.lookup_eq_none_iff.mpr lacks
    have number : (UInt16.ofNat inum).toNat = inum := Nat.mod_eq_of_lt (by omega)
    have used : UInt16.ofNat inum ≠ 0 := by
      intro zero
      rw [zero] at number
      exact Nat.ne_of_lt positive number
    have node : s'.node dp
        = (s.node dp).setEntry k ⟨UInt16.ofNat inum, strncpy dirsiz name⟩ := by
      rw [stored.node, Function.update_self]
    obtain ⟨tidy', looks⟩ := tidy.add used isAbsent (place.imp_right And.left)
    rw [number] at looks
    refine ⟨returns_map ran, stored.shows, node ▸ tidy', ?_, iff_of_true rfl isAbsent, ?_⟩
    · rw [node, DirMap.after, if_pos isAbsent]
      exact funext looks
    · rintro ⟨j, below, empty⟩
      have inside : k < (s.node dp).entryCount := by
        rcases place with ⟨inside, _⟩ | ⟨_, full⟩
        · exact inside
        · exact absurd empty (full j below)
      rw [node, tidy'.whole, Node.entryCount_setEntry (length_strncpy ..) low,
        Nat.max_eq_left inside, tidy.whole]

/-- Writing zeros over an entry returns and clears it. -/
theorem clear_stored {k : Nat} (inside : k < (s.node dp).entryCount)
    : ∃ s', Returns (writei dp (List.replicate direntSize 0) (direntSize * k)) s
        (some direntSize) s'
      ∧ Stored s dp
          (Function.update s.node dp ((s.node dp).setEntry k ⟨0, List.replicate dirsiz 0⟩))
          s' := by
  have data : (s.node dp).type ≠ tDev := by
    rw [tidy.directory]
    decide
  have longest := shown.length_le
  have whole := tidy.whole
  generalize zeros : List.replicate direntSize (0 : UInt8) = src
  have length : src.length = direntSize := zeros ▸ List.length_replicate ..
  have room : direntSize * k % bsize + src.length ≤ bsize
      ∧ direntSize * k + src.length ≤ (s.node dp).contents.length
      ∧ direntSize * k < (s.node dp).contents.length := by
    rw [length]
    simp only [direntSize, bsize] at *
    omega
  obtain ⟨fits, within, below⟩ := room
  obtain ⟨written, s', wrote⟩ :=
    writei_completes shown data fits (.inl below)
  rcases writei_returns shown data wrote with ⟨rfl, _⟩ | ⟨rfl, _, stored⟩
  · exact nomatch writei_written shown data below.le (Nat.le_trans within longest) wrote
  · refine ⟨s', length ▸ wrote, ?_⟩
    rw [← zeros] at stored
    exact stored

theorem remove_done (ready : (DirOp.remove name).Ready dp s)
    : ∃ answer s', (DirOp.remove name).Done dp s answer s' := by
  obtain ⟨place, m, looked⟩ := dirlookup_completes shown tidy.directory tidy.whole ready
  obtain ⟨kept, same, entry⟩ := dirlookup_bookkept shown tidy looked
  cases place with
  | none =>
    have ran : Returns (clearEntry dp name) s false m :=
      returns_bind.mpr ⟨none, m, looked, returns_pure.mpr ⟨rfl, rfl⟩⟩
    refine ⟨.removed false, m, .of_bookkept shown tidy kept (returns_map ran) ?_ ?_⟩
    · funext y
      refine ite_eq_right_iff.mpr fun equal => ?_
      rw [Node.lookup_congr equal, ← same]
      rfl
    · exact iff_of_false Bool.false_ne_true fun isThere => isThere same.symm
  | some place =>
    obtain ⟨x, off⟩ := place
    obtain ⟨k, inside, rfl, found, _⟩ := entry x off rfl
    have node := kept.node
    obtain ⟨s', wrote, stored⟩ := clear_stored (kept.shows shown) (node.symm ▸ tidy)
      (node.symm ▸ inside)
    have ran : Returns (clearEntry dp name) s true s' :=
      returns_bind.mpr ⟨_, m, looked, returns_bind.mpr ⟨_, s', wrote,
        returns_ite.mpr (.inl ⟨rfl, returns_pure.mpr ⟨rfl, rfl⟩⟩)⟩⟩
    have cleared : s'.node dp = (s.node dp).setEntry k ⟨0, List.replicate dirsiz 0⟩ := by
      rw [stored.node, Function.update_self, node]
    obtain ⟨tidy', looks⟩ := tidy.remove inside found
    refine ⟨.removed true, s', returns_map ran, stored.shows, cleared ▸ tidy', ?_,
      iff_of_true rfl fun isNone => ?_, fun _ => ?_⟩
    · rw [cleared]
      exact funext looks
    · exact nomatch same.trans isNone
    · have low : direntSize * k ≤ (s.node dp).contents.length := by
        rw [tidy.whole]
        exact Nat.mul_le_mul_left _ inside.le
      rw [cleared, tidy'.whole, Node.entryCount_setEntry (List.length_replicate ..) low,
        Nat.max_eq_left inside, tidy.whole]

/-- Every call that is ready returns with the right answer. -/
theorem DirOp.exists_done (ready : op.Ready dp s)
    : ∃ answer s', op.Done dp s answer s' := by
  cases op with
  | link name inum => exact link_done shown tidy ready
  | lookup name =>
    obtain ⟨place, s', ran⟩ := dirlookup_completes shown tidy.directory tidy.whole ready
    obtain ⟨kept, right⟩ := dirlookup_bookkept shown tidy ran
    exact ⟨_, s', .of_bookkept shown tidy kept (returns_map ran) rfl right⟩
  | remove name => exact remove_done shown tidy ready
  | release inum =>
    obtain ⟨unlocked, stays⟩ := ready
    obtain ⟨_, s', ran⟩ := iput_completes unlocked stays
    exact ⟨.released, s',
      .of_bookkept shown tidy (iput_bookkept stays ran) (returns_map ran) rfl trivial⟩

end

/-- In every run of ready calls the directory is the map that the calls describe, without equal
names, and every further ready call returns with the answer of the map, takes an empty entry
before the directory grows, and leaves other names alone.
-/
theorem directory_is_map {ops : List DirOp} {start : State} (shown : start.Shows dp)
    (tidy : (start.node dp).Tidy) (reached : run (dirStep dp) ops start = some s)
    (along : Along (dirStep dp) (DirOp.Ready dp) ops start)
    : (s.node dp).Tidy
      ∧ (s.node dp).lookup = ops.foldl DirMap.after (start.node dp).lookup
      ∧ ∀ op : DirOp, op.Ready dp s → ∃ answer s', op.Done dp s answer s' := by
  have holds : s.Shows dp ∧ (s.node dp).Tidy
      ∧ (s.node dp).lookup = ops.foldl DirMap.after (start.node dp).lookup := by
    refine along_induction
      (motive := fun ops s => s.Shows dp ∧ (s.node dp).Tidy
        ∧ (s.node dp).lookup = ops.foldl DirMap.after (start.node dp).lookup)
      ⟨shown, tidy, rfl⟩ ?_ reached along
    rintro ops s op s' ⟨shown, tidy, map⟩ ready stepped
    obtain ⟨answer, last, done⟩ := DirOp.exists_done shown tidy ready
    obtain ⟨_, ran⟩ := dirStep_eq_some_iff.mp stepped
    obtain ⟨_, rfl⟩ := done.returns.unique ran
    refine ⟨done.shows, done.tidy, ?_⟩
    rw [done.map, map, List.foldl_concat]
  obtain ⟨shown, tidy, map⟩ := holds
  exact ⟨tidy, map, fun op ready => DirOp.exists_done shown tidy ready⟩

end Calls

section Evaluation

instance State.decidableUnused (s : State) (b : Nat) : Decidable (s.Unused b) :=
  inferInstanceAs (Decidable (_ ∧ _))

instance State.decidableRoom (s : State) (inum : Nat) : Decidable (s.Room inum) :=
  inferInstanceAs (Decidable (_ ∨ _))

instance State.decidableSpare (s : State) : Decidable s.Spare :=
  decidable_of_iff
    (∃ b, b < s.sb.size ∧ ∃ c, c < s.sb.size ∧ b ≠ c ∧ s.Unused b ∧ s.Unused c)
    ⟨fun ⟨b, _, c, _, spare⟩ => ⟨b, c, spare⟩,
      fun ⟨b, c, ne, first, second⟩ => ⟨b, first.1, c, second.1, ne, first, second⟩⟩

abbrev decidableOfFound {α : Type} (found : Option α) (p : α → Prop) [DecidablePred p]
    : Decidable (∀ x, found = some x → p x) :=
  match found with
  | none => isTrue fun _ impossible => nomatch impossible
  | some x => decidable_of_iff (p x) ⟨fun holds _ same => Option.some.inj same ▸ holds,
      fun all => all x rfl⟩

instance DirOp.decidableReady (dp : Nat) (s : State) (op : DirOp) : Decidable (op.Ready dp s) :=
  match op with
  | .link _ _ => inferInstanceAs (Decidable (_ ∧ _ ∧ _ ∧ (_ → _)))
  | .lookup _ | .remove _ => decidableOfFound _ _
  | .release _ => inferInstanceAs (Decidable (_ ∧ _))

instance Node.decidableTidy (n : Node) : Decidable n.Tidy :=
  decidable_of_iff
    (n.type = tDir ∧ n.contents.length = direntSize * n.entryCount
      ∧ ∀ j, j < n.entryCount → ∀ k, k < n.entryCount → (n.entry j).inum ≠ 0
        → (n.entry k).inum ≠ 0 → namecmp (n.entry j).name (n.entry k).name = 0 → j = k)
    ⟨fun ⟨directory, whole, distinct⟩ =>
        ⟨directory, whole, fun j k below below' => distinct j below k below'⟩,
      fun tidy => ⟨tidy.directory, tidy.whole, fun j below k below' =>
        tidy.distinct j k below below'⟩⟩

/-- The empty image after `ilock` of its root. -/
def lockedRoot : State :=
  match ilock rootino emptyImage with
  | .ok (_, s) => s
  | .error _ => emptyImage

theorem lockedRoot_shows : lockedRoot.Shows rootino := by
  have locked : (ilock rootino emptyImage).isOk = true := by decide +kernel
  unfold lockedRoot
  cases ran : ilock rootino emptyImage with
  | error e =>
    rw [ran] at locked
    cases locked
  | ok result =>
    obtain ⟨⟨⟩, s⟩ := result
    obtain ⟨cached, leads⟩ := ilock_returns (boot_wf emptyImage_wellFormed).quiet ran
    refine leads.quiet.shows ⟨?_, ?_⟩
    · rw [leads.flags, Function.update_self]
      exact cached
    · rw [leads.flags, Function.update_self]

/-- Names up to and beyond 14 bytes come and go, for an inode number past the inode table. -/
def comeAndGo : List DirOp :=
  [.link [97] 300, .lookup [97], .release 300, .link (List.replicate 20 98) 2,
    .remove (List.replicate 15 98), .link [99] 65535]

theorem lockedRoot_is_map
    : ∃ s, run (dirStep rootino) comeAndGo lockedRoot = some s
      ∧ (s.node rootino).Tidy
      ∧ (s.node rootino).lookup [97] = some 300
      ∧ (s.node rootino).lookup (List.replicate 14 98) = none
      ∧ ∀ op : DirOp, op.Ready rootino s → ∃ answer s', op.Done rootino s answer s' := by
  have along : Along (dirStep rootino) (DirOp.Ready rootino) comeAndGo lockedRoot := by
    decide +kernel
  obtain ⟨s, reached, found, removed⟩ : ∃ s ∈ run (dirStep rootino) comeAndGo lockedRoot,
      (s.node rootino).lookup [97] = some 300
        ∧ (s.node rootino).lookup (List.replicate 14 98) = none := by
    decide +kernel
  obtain ⟨tidy, _, ready⟩ :=
    directory_is_map lockedRoot_shows (by decide +kernel) reached along
  exact ⟨s, reached, tidy, found, removed, ready⟩

/-- `dirlink` of `.`, which is there, waits for the lock that the caller holds instead of
failing; `link` of any file to `.` gets there.
-/
theorem dirlink_dot_deadlocks
    : lockedRoot.Shows rootino ∧ (lockedRoot.node rootino).Tidy
      ∧ (lockedRoot.node rootino).lookup dot = some rootino
      ∧ Stops (dirlink rootino dot 2) lockedRoot .deadlock
      ∧ ∃ s, run fsStep [.create rootino [97]] emptyImage = some s
        ∧ Stops (link rootino [97] dot) s .deadlock := by
  refine ⟨lockedRoot_shows, ?_, ?_, ?_, ?_⟩
  all_goals decide +kernel

end Evaluation

end Xv6.Fs
