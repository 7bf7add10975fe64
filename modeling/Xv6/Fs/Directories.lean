import Xv6.Fs.Inodes
import Xv6.Fs.Path

/-! Directories as lists of entries: what `dirlookup`, `dirlink` and `isdirempty` read and
write.
-/

namespace Xv6.Fs

open Lib

/-- Entry `k` of a directory. -/
def Node.entry (n : Node) (k : Nat) : Dirent :=
  .ofBytes (record direntSize n.contents k)

/-- The number of whole entries of a directory. -/
def Node.entryCount (n : Node) : Nat :=
  n.contents.length / direntSize

/-- The directory with entry `k` replaced or appended. -/
def Node.setEntry (n : Node) (k : Nat) (de : Dirent) : Node :=
  { n with contents := splice n.contents (direntSize * k) de.toBytes }

/-- The entry is in use and has the name. -/
def Dirent.Matches (name : List UInt8) (de : Dirent) : Prop :=
  de.inum ≠ 0 ∧ namecmp name de.name = 0

instance Dirent.decidableMatches (name : List UInt8) (de : Dirent)
    : Decidable (de.Matches name) :=
  inferInstanceAs (Decidable (_ ∧ _))

/-- The inode that a name stands for: that of its first entry. -/
def Node.lookup (n : Node) (name : List UInt8) : Option Nat :=
  ((List.range n.entryCount).find? fun k => decide ((n.entry k).Matches name)).map
    fun k => (n.entry k).inum.toNat

theorem length_strncpy (n : Nat) (t : List UInt8) : (strncpy n t).length = n := by
  induction n generalizing t with
  | zero => rfl
  | succ n ih =>
    unfold strncpy
    split
    · simp
    · simp [ih]

theorem Dirent.ofBytes_toBytes (de : Dirent) : Dirent.ofBytes de.toBytes = de := by
  have bound := de.inum.toNat_lt
  have inum : UInt16.ofNat (de.inum.toNat % 2 ^ 8 + 256 * (de.inum.toNat / 256 % 2 ^ 8))
      = de.inum := by
    apply UInt16.toNat_inj.mp
    simp only [UInt16.toNat_ofNat']
    omega
  obtain ⟨number, name⟩ := de
  simpa [Dirent.ofBytes, Dirent.toBytes, Bytes.ofShort] using inum

theorem Dirent.length_toBytes {de : Dirent} (whole : de.name.length = dirsiz)
    : de.toBytes.length = direntSize := by
  rw [Dirent.toBytes, List.length_append, whole, Bytes.length_ofShort]
  rfl

/-- No entry of the directory has the name. -/
def Node.Lacks (n : Node) (name : List UInt8) : Prop :=
  ∀ k, k < n.entryCount → ¬(n.entry k).Matches name

section Entries

variable {n : Node} {k j : Nat} {de : Dirent}
variable {name : List UInt8}

section

variable (whole : de.name.length = dirsiz) (low : direntSize * k ≤ n.contents.length)
include whole low

theorem Node.entry_setEntry_same
    : (n.setEntry k de).entry k = de := by
  rw [Node.entry, Node.setEntry, record_splice_same low (Dirent.length_toBytes whole),
    Dirent.ofBytes_toBytes]

theorem Node.entry_setEntry_ne (ne : j ≠ k)
    : (n.setEntry k de).entry j = n.entry j := by
  rw [Node.entry, Node.setEntry, record_splice_ne low (Dirent.length_toBytes whole) ne, Node.entry]

theorem Node.entryCount_setEntry
    : (n.setEntry k de).entryCount = max n.entryCount (k + 1) := by
  rw [Node.entryCount, Node.setEntry, length_splice low, Dirent.length_toBytes whole,
    Node.entryCount]
  simp only [direntSize] at *
  omega

end

theorem Node.lookup_eq_none_iff : n.lookup name = none ↔ n.Lacks name := by
  simp [Node.lookup, Node.Lacks]

theorem Node.lookup_of_first (inside : k < n.entryCount) (found : (n.entry k).Matches name)
    (first : ∀ j, j < k → ¬(n.entry j).Matches name)
    : n.lookup name = some (n.entry k).inum.toNat := by
  have search : (List.range n.entryCount).find?
      (fun j => decide ((n.entry j).Matches name)) = some k := by
    rw [List.find?_range_eq_some]
    exact ⟨decide_eq_true found, List.mem_range.mpr inside,
      fun j below => by simpa using first j below⟩
  rw [Node.lookup, search, Option.map_some]

/-- A name that is looked up has an entry. -/
theorem Node.exists_of_lookup {inum : Nat} (found : n.lookup name = some inum)
    : ∃ k, k < n.entryCount ∧ (n.entry k).Matches name
      ∧ (n.entry k).inum.toNat = inum := by
  obtain ⟨k, search, rfl⟩ := Option.map_eq_some_iff.mp found
  exact ⟨k, List.mem_range.mp (List.mem_of_find?_eq_some search),
    by simpa using List.find?_some search, rfl⟩

end Entries

section Reading

variable {s s' : State} {dp : Nat} {name : List UInt8}
variable {i n : Nat} {r : Bool}

/-- Reading one entry returns it, or panics. -/
theorem readDirent_returns {site : Panic} {k : Nat} {de : Dirent} (shown : s.Shows dp)
    (data : (s.node dp).type ≠ tDev)
    (ran : Returns (readDirent site dp (direntSize * k)) s de s')
    : s' = s ∧ k < (s.node dp).entryCount ∧ de = (s.node dp).entry k := by
  obtain ⟨bytes, m, read, ran⟩ := returns_bind.mp ran
  obtain ⟨rfl, rfl | rfl⟩ := readi_returns shown data read
  · exact (returns_panic.mp ran).elim
  · obtain ⟨whole, ran⟩ := returns_assert.mp ran
    obtain ⟨rfl, rfl⟩ := returns_pure.mp ran
    refine ⟨rfl, ?_, rfl⟩
    simp only [List.length_take, List.length_drop] at whole
    simp only [Node.entryCount, direntSize] at *
    omega

/-- The loop of `dirlookup` finds the first matching entry and gets its inode. -/
theorem lookupLoop_returns {r : Option (Nat × Nat)} (shown : s.Shows dp)
    (data : (s.node dp).type ≠ tDev)
    (ran : Returns (lookupLoop dp name ((List.range' i n).map (direntSize * ·))) s r s')
    : (r = none ∧ s' = s
        ∧ ∀ k, i ≤ k → k < i + n
          → k < (s.node dp).entryCount ∧ ¬((s.node dp).entry k).Matches name)
      ∨ ∃ k, i ≤ k ∧ k < (s.node dp).entryCount ∧ ((s.node dp).entry k).Matches name
        ∧ (∀ j, i ≤ j → j < k → ¬((s.node dp).entry j).Matches name)
        ∧ r = some (((s.node dp).entry k).inum.toNat, direntSize * k)
        ∧ Returns (iget ((s.node dp).entry k).inum.toNat) s
            ((s.node dp).entry k).inum.toNat s' := by
  induction n generalizing i with
  | zero =>
    obtain ⟨rfl, rfl⟩ := returns_pure.mp ran
    exact .inl ⟨rfl, rfl, fun k low high => by omega⟩
  | succ n ih =>
    rw [List.range'_succ, List.map_cons] at ran
    obtain ⟨de, m, read, ran⟩ := returns_bind.mp ran
    obtain ⟨rfl, inside, rfl⟩ := readDirent_returns shown data read
    rcases returns_ite.mp ran with ⟨found, ran⟩ | ⟨other, ran⟩
    · obtain ⟨ip, got, rfl⟩ := returns_bind_pure.mp ran
      obtain ⟨rfl, _⟩ := iget_effect got
      exact .inr ⟨i, Nat.le_refl i, inside, found, fun j low high => by omega, rfl, got⟩
    · rcases ih ran with ⟨rfl, rfl, none⟩ | ⟨k, low, high, found, first, rfl, got⟩
      · refine .inl ⟨rfl, rfl, fun k low high => ?_⟩
        rcases Nat.eq_or_lt_of_le low with rfl | later
        · exact ⟨inside, other⟩
        · exact none k later (by omega)
      · refine .inr ⟨k, by omega, high, found, fun j from' below => ?_, rfl, got⟩
        rcases Nat.eq_or_lt_of_le from' with rfl | later
        · exact other
        · exact first j later below

/-- The entries a loop over the directory visits, if it visits whole ones only. -/
theorem entryCount_of_visited {n : Node}
    (whole
      : ∀ k, 0 ≤ k → k < 0 + ((n.contents.length + 15) / direntSize - 0) → k < n.entryCount)
    : n.contents.length = direntSize * n.entryCount
      ∧ (n.contents.length + 15) / direntSize = n.entryCount := by
  have last := whole ((n.contents.length + 15) / direntSize - 1)
  simp only [Node.entryCount, direntSize] at *
  omega

/-- `dirlookup` finds the first matching entry of a directory and gets its inode. -/
theorem dirlookup_returns {r : Option (Nat × Nat)} (shown : s.Shows dp)
    (ran : Returns (dirlookup dp name) s r s')
    : (s.node dp).type = tDir
      ∧ ((r = none ∧ s' = s
          ∧ (s.node dp).contents.length = direntSize * (s.node dp).entryCount
          ∧ (s.node dp).Lacks name)
        ∨ ∃ k, k < (s.node dp).entryCount ∧ ((s.node dp).entry k).Matches name
          ∧ (∀ j, j < k → ¬((s.node dp).entry j).Matches name)
          ∧ r = some (((s.node dp).entry k).inum.toNat, direntSize * k)
          ∧ Returns (iget ((s.node dp).entry k).inum.toNat) s
              ((s.node dp).entry k).inum.toNat s') := by
  obtain ⟨type, _, size⟩ := shown.copy_fields
  have ran := returns_getInode_bind.mp ran
  obtain ⟨directory, ran⟩ := returns_check.mp ran
  have directory : (s.node dp).type = tDir := by rwa [type, not_not] at directory
  have data : (s.node dp).type ≠ tDev := by
    rw [directory]
    decide
  refine ⟨directory, ?_⟩
  rw [size, direntOffsets] at ran
  rcases lookupLoop_returns shown data ran with ⟨rfl, rfl, none⟩ | ⟨k, _, rest⟩
  · obtain ⟨whole, count⟩ := entryCount_of_visited fun k low high => (none k low high).1
    exact .inl ⟨rfl, rfl, whole, fun k below => (none k (Nat.zero_le k) (by omega)).2⟩
  · obtain ⟨high, found, first, result, got⟩ := rest
    exact .inr ⟨k, high, found, fun j => first j (Nat.zero_le j), result, got⟩

section

variable (shown : s.Shows dp) (data : (s.node dp).type ≠ tDev)
include shown data

/-- The second loop of `dirlink` finds an empty entry or the end of the directory. -/
theorem emptyLoop_returns {last off : Nat}
    (ran : Returns (emptyLoop dp last ((List.range' i n).map (direntSize * ·))) s off s')
    : s' = s
      ∧ (off = last ∧ (∀ k, i ≤ k → k < i + n → ((s.node dp).entry k).inum ≠ 0)
        ∨ ∃ k, k < (s.node dp).entryCount ∧ ((s.node dp).entry k).inum = 0
          ∧ off = direntSize * k) := by
  induction n generalizing i with
  | zero =>
    obtain ⟨rfl, rfl⟩ := returns_pure.mp ran
    exact ⟨rfl, .inl ⟨rfl, fun k low high => by omega⟩⟩
  | succ n ih =>
    rw [List.range'_succ, List.map_cons] at ran
    obtain ⟨de, m, read, ran⟩ := returns_bind.mp ran
    obtain ⟨rfl, inside, rfl⟩ := readDirent_returns shown data read
    rcases returns_ite.mp ran with ⟨empty, ran⟩ | ⟨full, ran⟩
    · obtain ⟨rfl, rfl⟩ := returns_pure.mp ran
      exact ⟨rfl, .inr ⟨i, inside, empty, rfl⟩⟩
    · obtain ⟨rfl, ⟨rfl, rest⟩ | found⟩ := ih ran
      · refine ⟨rfl, .inl ⟨rfl, fun k low high => ?_⟩⟩
        rcases Nat.eq_or_lt_of_le low with rfl | later
        · exact full
        · exact rest k later (by omega)
      · exact ⟨rfl, .inr found⟩

/-- The loop of `isdirempty`. -/
theorem emptyFrom_returns
    (ran : Returns (emptyFrom dp ((List.range' i n).map (direntSize * ·))) s r s')
    : s' = s
      ∧ (r = true → ∀ k, i ≤ k → k < i + n → ((s.node dp).entry k).inum = 0) := by
  induction n generalizing i with
  | zero =>
    obtain ⟨rfl, rfl⟩ := returns_pure.mp ran
    exact ⟨rfl, fun _ k low high => by omega⟩
  | succ n ih =>
    rw [List.range'_succ, List.map_cons] at ran
    obtain ⟨de, m, read, ran⟩ := returns_bind.mp ran
    obtain ⟨rfl, _, rfl⟩ := readDirent_returns shown data read
    rcases returns_ite.mp ran with ⟨_, ran⟩ | ⟨empty, ran⟩
    · obtain ⟨rfl, rfl⟩ := returns_pure.mp ran
      exact ⟨rfl, fun impossible => nomatch impossible⟩
    · obtain ⟨rfl, rest⟩ := ih ran
      refine ⟨rfl, fun isTrue k low high => ?_⟩
      rcases Nat.eq_or_lt_of_le low with rfl | later
      · exact not_not.mp empty
      · exact rest isTrue k later (by omega)

theorem isdirempty_returns (ran : Returns (isdirempty dp) s r s')
    : s' = s
      ∧ (r = true
        → ∀ k, 2 ≤ k → k < (s.node dp).entryCount → ((s.node dp).entry k).inum = 0) := by
  obtain ⟨_, _, size⟩ := shown.copy_fields
  have ran := returns_getInode_bind.mp ran
  rw [size, direntOffsets] at ran
  obtain ⟨rfl, empty⟩ := emptyFrom_returns shown data ran
  refine ⟨rfl, fun isTrue k low high => empty isTrue k low ?_⟩
  simp only [Node.entryCount, direntSize] at *
  omega

end

/-- `dirlink` finds the name and drops the inode again, or writes an entry into an empty
place, or at the end of a directory without one.
-/
theorem dirlink_returns {inum : Nat} (shown : s.Shows dp)
    (ran : Returns (dirlink dp name inum) s r s')
    : (s.node dp).type = tDir
      ∧ ((r = false
          ∧ ∃ k m, k < (s.node dp).entryCount ∧ ((s.node dp).entry k).Matches name
            ∧ Returns (iget ((s.node dp).entry k).inum.toNat) s
                ((s.node dp).entry k).inum.toNat m
            ∧ Returns (iput ((s.node dp).entry k).inum.toNat) m () s')
        ∨ r = true
          ∧ (s.node dp).Lacks name
          ∧ ∃ k, direntSize * k ≤ (s.node dp).contents.length
            ∧ (k < (s.node dp).entryCount ∧ ((s.node dp).entry k).inum = 0
              ∨ k = (s.node dp).entryCount
                ∧ ∀ j, j < (s.node dp).entryCount → ((s.node dp).entry j).inum ≠ 0)
            ∧ Stored s dp
                (Function.update s.node dp
                  ((s.node dp).setEntry k ⟨UInt16.ofNat inum, strncpy dirsiz name⟩))
                s') := by
  obtain ⟨found, m, looked, rest⟩ := returns_bind.mp ran
  clear ran
  obtain ⟨directory, result⟩ := dirlookup_returns shown looked
  have data : (s.node dp).type ≠ tDev := by
    rw [directory]
    decide
  refine ⟨directory, ?_⟩
  rcases result with ⟨rfl, rfl, whole, none⟩ | ⟨k, high, found, _, rfl, got⟩
  · obtain ⟨_, _, size⟩ := shown.copy_fields
    have ran := returns_getInode_bind.mp rest
    simp only [size, direntOffsets] at ran
    obtain ⟨off, m, scanned, writing⟩ := returns_bind.mp ran
    obtain ⟨rfl, place⟩ := emptyLoop_returns shown data scanned
    obtain ⟨written, last, wrote, ran⟩ := returns_bind.mp writing
    obtain ⟨isSome, ran⟩ := returns_assert.mp ran
    obtain ⟨rfl, rfl⟩ := returns_pure.mp ran
    refine .inr ⟨rfl, none, ?_⟩
    have room : ∃ k, off = direntSize * k
        ∧ (k < (m.node dp).entryCount ∧ ((m.node dp).entry k).inum = 0
          ∨ k = (m.node dp).entryCount
            ∧ ∀ j, j < (m.node dp).entryCount → ((m.node dp).entry j).inum ≠ 0) := by
      rcases place with ⟨rfl, full⟩ | ⟨k, inside, empty, rfl⟩
      · refine ⟨(m.node dp).entryCount, ?_, .inr ⟨rfl, fun j below => full j ?_ ?_⟩⟩ <;>
          simp only [Node.entryCount, direntSize] at * <;> omega
      · exact ⟨k, rfl, .inl ⟨inside, empty⟩⟩
    obtain ⟨k, rfl, room⟩ := room
    rcases writei_returns shown data wrote with ⟨rfl, _⟩ | ⟨_, low, stored⟩
    · cases isSome
    · exact ⟨k, low, room, stored⟩
  · obtain ⟨_, put, rfl⟩ := returns_bind_pure.mp rest
    exact .inl ⟨rfl, k, m, high, found, got, put⟩

end Reading

end Xv6.Fs
