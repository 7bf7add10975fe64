import Xv6.Fs.Directories

/-! Path lookups and the puts at the end of every call.
They keep the file system well formed, give back the references they take, and change no
file but by freeing inodes without links that nobody else uses.
-/

namespace Xv6.Fs

open Lib
open Function (update update_self update_of_ne)

/-- Every entry of every directory names an inode of the inode table. -/
def InRange (ninodes : Nat) (nodes : Nat → Node) : Prop :=
  ∀ dp, (nodes dp).type = tDir → ∀ k, k < (nodes dp).entryCount
    → ((nodes dp).entry k).inum.toNat < ninodes

/-- The image is sound, the cache agrees with it, and directories stay inside the table. -/
structure State.Wf (s : State) : Prop where
  quiet : s.Quiet
  inRange : InRange s.sb.ninodes s.node

/-- The references to an inode. -/
def State.refs (s : State) (inum : Nat) : Nat :=
  (s.flags inum).ref

/-- One reference to `a`, counted at `x`. -/
def hit (a x : Nat) : Nat :=
  if x = a then 1 else 0

/-- The reference in a result, counted at `x`. -/
def hitSome (r : Option Nat) (x : Nat) : Nat :=
  if r = some x then 1 else 0

@[simp] theorem hit_self (a : Nat) : hit a a = 1 :=
  if_pos rfl

@[simp] theorem hitSome_some (a x : Nat) : hitSome (some a) x = hit a x := by
  simp [hitSome, hit, eq_comm]

section InRange

variable {ninodes dp k : Nat} {nodes : Nat → Node} {n : Node}

/-- Replacing one file by one whose entries are in range. -/
theorem InRange.set (inRange : InRange ninodes nodes)
    (entries : n.type = tDir → ∀ k, k < n.entryCount → (n.entry k).inum.toNat < ninodes)
    : InRange ninodes (update nodes dp n) := by
  intro inum
  rcases eq_or_ne inum dp with rfl | ne
  · rw [update_self]
    exact entries
  · rw [update_of_ne ne]
    exact inRange inum

theorem InRange.setEntry (inRange : InRange ninodes nodes) {de : Dirent}
    (whole : de.name.length = dirsiz) (low : direntSize * k ≤ (nodes dp).contents.length)
    (place : k < (nodes dp).entryCount ∨ k = (nodes dp).entryCount)
    (small : de.inum.toNat < ninodes)
    : InRange ninodes (update nodes dp ((nodes dp).setEntry k de)) := by
  refine inRange.set fun directory j below => ?_
  rw [Node.entryCount_setEntry whole low] at below
  rcases eq_or_ne j k with rfl | ne
  · rwa [Node.entry_setEntry_same whole low]
  · rw [Node.entry_setEntry_ne whole low ne]
    exact inRange dp directory j (by omega)

theorem State.Wf.nodesAfterPut {s : State} (wf : s.Wf) (ip : Nat)
    : InRange s.sb.ninodes (s.nodesAfterPut ip) := by
  unfold State.nodesAfterPut
  split
  · exact wf.inRange.set fun impossible => absurd impossible (by decide)
  · exact wf.inRange

end InRange

/-- Some directory has an entry for `x`. -/
def Named (nodes : Nat → Node) (x : Nat) : Prop :=
  ∃ dp k, (nodes dp).type = tDir ∧ k < (nodes dp).entryCount
    ∧ ((nodes dp).entry k).inum ≠ 0 ∧ ((nodes dp).entry k).inum.toNat = x

/-- An inode that a call can get hold of: one in use, the root, or one with an entry. -/
def State.Known (s : State) (x : Nat) : Prop :=
  0 < s.refs x ∨ x = rootino ∨ Named s.node x

/-- Between `s` and `s'` the files stay as they are, but for inodes without links to which
there are no references beyond those of the running call; `base` counts the references that
are not its own.
-/
structure Passing (base : Nat → Nat) (s s' : State) : Prop where
  wf : s'.Wf
  sb : s'.sb = s.sb
  node
    : ∀ x, s'.node x = s.node x ∨ s'.node x = .free ∧ (s.node x).nlink = 0 ∧ base x = 0
  valid : ∀ x, 0 < base x → (s.flags x).valid = true → (s'.flags x).valid = true
  freed : ∀ x, s'.node x ≠ s.node x → s.Known x
  used : ∀ x, 0 < s'.refs x → s.Known x
  disk : s'.node = s.node → s'.disk = s.disk

/-- No inode is locked. -/
def State.Unlocked (s : State) : Prop :=
  ∀ x, (s.flags x).locked = false

/-- The one locked inode. -/
structure State.OnlyLocked (s : State) (ip : Nat) : Prop where
  locked : (s.flags ip).locked = true
  others : ∀ x, x ≠ ip → (s.flags x).locked = false

/-- The inode a path leads to from `ip`, with `parent` the directory of its last element and
that element: what `walk` finds as long as no file changes.
-/
def resolve (parent : Bool) (nodes : Nat → Node)
    : List (List UInt8) → Nat → Option (Nat × List UInt8)
  | [], ip => if parent then none else some (ip, [])
  | name :: rest, ip =>
      if (nodes ip).type ≠ tDir then none
      else if parent ∧ rest = [] then some (ip, name)
      else
        match (nodes ip).lookup name with
        | none => none
        | some next => resolve parent nodes rest next

section Passing

variable {base : Nat → Nat} {s s' m : State} {ip : Nat}
variable {x r cwd : Nat} {nodes : Nat → Node} {flags : Nat → Flags} {u : Unit} {parent : Bool}
  {path : List UInt8}

theorem Passing.refl (base : Nat → Nat) (wf : s.Wf) : Passing base s s :=
  ⟨wf, rfl, fun _ => .inl rfl, fun _ _ valid => valid, fun _ changed => absurd rfl changed,
    fun _ => .inl, fun _ => rfl⟩

/-- What a call can get hold of later it could get hold of before. -/
theorem Passing.known (passing : Passing base s s') (known : s'.Known x)
    : s.Known x := by
  rcases known with used | root | ⟨dp, k, directory, inside, entry⟩
  · exact passing.used x used
  · exact .inr (.inl root)
  · rcases passing.node dp with same | ⟨freed, _⟩
    · rw [same] at directory inside entry
      exact .inr (.inr ⟨dp, k, directory, inside, entry⟩)
    · rw [freed] at directory
      cases directory

/-- A freed file stays free, so nothing changed in between if nothing changed at the end. -/
theorem Passing.node_eq_of_trans (first : Passing base s m) (second : Passing base m s')
    (same : s'.node = s.node)
    : m.node = s.node := by
  funext x
  rcases first.node x with same' | ⟨freed, _⟩
  · exact same'
  · rw [freed, ← same]
    rcases second.node x with same' | ⟨freed', _⟩
    · rw [same', freed]
    · exact freed'.symm

theorem Passing.trans (first : Passing base s m) (second : Passing base m s')
    : Passing base s s' where
  wf := second.wf
  sb := second.sb.trans first.sb
  node := by
    intro x
    rcases first.node x with same | ⟨freed, unlinked, unused⟩
    · rw [← same]
      exact second.node x
    · refine .inr ⟨?_, unlinked, unused⟩
      rcases second.node x with same | ⟨freed', _⟩
      · exact same.trans freed
      · exact freed'
  valid := fun x used valid => second.valid x used (first.valid x used valid)
  freed := by
    intro x changed
    by_cases between : m.node x = s.node x
    · exact first.known (second.freed x (between ▸ changed))
    · exact first.freed x between
  used := fun x used => first.known (second.used x used)
  disk := by
    intro same
    have between := first.node_eq_of_trans second same
    rw [second.disk (same.trans between.symm), first.disk between]

theorem Leads.refs (leads : Leads s nodes flags s') (x : Nat)
    : s'.refs x = (flags x).ref := by
  rw [State.refs, leads.flags]

theorem Leads.wf (leads : Leads s nodes flags s') (inRange : InRange s.sb.ninodes nodes)
    : s'.Wf :=
  ⟨leads.quiet, by rwa [leads.sb, leads.node]⟩

/-- Only the bookkeeping changed. -/
theorem Leads.passing (leads : Leads s s.node flags s') (wf : s.Wf)
    (valid : ∀ x, 0 < base x → (s.flags x).valid = true → (flags x).valid = true)
    (used : ∀ x, 0 < (flags x).ref → s.Known x) (disk : s'.disk = s.disk)
    : Passing base s s' where
  wf := leads.wf wf.inRange
  sb := leads.sb
  node := fun x => .inl (by rw [leads.node])
  valid := by
    rw [leads.flags]
    exact valid
  freed := fun x changed => absurd (by rw [leads.node]) changed
  used := by
    intro x
    rw [leads.refs]
    exact used x
  disk := fun _ => disk

theorem refs_gain (s : State) (ip x : Nat)
    : ((update s.flags ip (s.flags ip).gain) x).ref = s.refs x + hit ip x := by
  rcases eq_or_ne x ip with rfl | ne
  · rw [update_self, hit_self, Flags.gain, State.refs]
    split <;> simp_all
  · simp [hit, ne, State.refs]

theorem valid_gain (used : 0 < s.refs ip) (x : Nat)
    : ((update s.flags ip (s.flags ip).gain) x).valid = (s.flags x).valid := by
  rcases eq_or_ne x ip with rfl | ne
  · rw [update_self, Flags.gain, if_pos (show 0 < (s.flags x).ref from used)]
  · rw [update_of_ne ne]

theorem gain_passing (wf : s.Wf) (owned : base ip ≤ s.refs ip) (known : s.Known ip)
    (leads : Leads s s.node (update s.flags ip (s.flags ip).gain) s')
    (disk : s'.disk = s.disk)
    : Passing base s s' ∧ ∀ x, s'.refs x = s.refs x + hit ip x := by
  refine ⟨leads.passing wf (fun x used valid => ?_) (fun x used => ?_) disk, fun x => ?_⟩
  · rcases eq_or_ne x ip with rfl | ne
    · rwa [valid_gain (Nat.lt_of_lt_of_le used owned)]
    · rwa [update_of_ne ne]
  · rcases eq_or_ne x ip with rfl | ne
    · exact known
    · rw [update_of_ne ne] at used
      exact .inl used
  · rw [leads.refs, refs_gain]

theorem iget_passing (wf : s.Wf) (inside : ip < s.sb.ninodes) (owned : base ip ≤ s.refs ip)
    (known : s.Known ip) (ran : Returns (iget ip) s r s')
    : Passing base s s' ∧ ∀ x, s'.refs x = s.refs x + hit ip x := by
  obtain ⟨rfl, leads⟩ := iget_returns wf.quiet inside ran
  exact gain_passing wf owned known leads (iget_bookkept ran).1.disk

theorem ilock_passing (base : Nat → Nat) (wf : s.Wf) (ran : Returns (ilock ip) s u s')
    : Passing base s s' ∧ (∀ x, s'.refs x = s.refs x) ∧ s'.Loaded ip ∧ s'.node = s.node
      ∧ ∀ x, s.Loaded x → s'.Loaded x := by
  obtain ⟨positive, leads⟩ := ilock_returns wf.quiet ran
  have there : s'.flags ip = ⟨(s.flags ip).ref, true, true⟩ := by
    rw [leads.flags, update_self]
  have elsewhere : ∀ x, x ≠ ip → s'.flags x = s.flags x := fun x ne => by
    rw [leads.flags, update_of_ne ne]
  refine ⟨leads.passing wf (fun x _ valid => ?_) (fun x used => ?_) (ilock_disk ran),
    fun x => ?_, ?_, leads.node, fun x loaded => ?_⟩
  · rcases eq_or_ne x ip with rfl | ne
    · rw [update_self]
    · rwa [update_of_ne ne]
  · rcases eq_or_ne x ip with rfl | ne
    · exact .inl positive
    · rw [update_of_ne ne] at used
      exact .inl used
  · rcases eq_or_ne x ip with rfl | ne
    · rw [State.refs, there, State.refs]
    · rw [State.refs, elsewhere x ne, State.refs]
  · exact ⟨by rw [there]; exact positive, by rw [there]⟩
  · rcases eq_or_ne x ip with rfl | ne
    · exact ⟨by rw [there]; exact positive, by rw [there]⟩
    · exact ⟨by rw [elsewhere x ne]; exact loaded.ref, by rw [elsewhere x ne]; exact loaded.valid⟩

theorem iunlock_passing (base : Nat → Nat) (wf : s.Wf) (ran : Returns (iunlock ip) s u s')
    : Passing base s s' ∧ (∀ x, s'.refs x = s.refs x) ∧ s'.node = s.node
      ∧ ∀ x, (s'.flags x).valid = (s.flags x).valid := by
  have leads := iunlock_returns wf.quiet ran
  have same : ∀ x, (s'.flags x).ref = (s.flags x).ref ∧ (s'.flags x).valid = (s.flags x).valid := by
    intro x
    rw [leads.flags]
    rcases eq_or_ne x ip with rfl | ne
    · rw [update_self]
      exact ⟨rfl, rfl⟩
    · rw [update_of_ne ne]
      exact ⟨rfl, rfl⟩
  refine ⟨leads.passing wf (fun x _ valid => ?_) (fun x used => ?_)
    (iunlock_bookkept ran).disk, fun x => (same x).1, leads.node, fun x => (same x).2⟩
  · rw [← leads.flags, (same x).2]
    exact valid
  · rw [← leads.flags, (same x).1] at used
    exact .inl used

section

variable {f : Nat → Nat} (counts : ∀ x, s.refs x = f x + hit ip x)
include counts

theorem refs_pos : 0 < s.refs ip := by
  rw [counts, hit_self]
  exact Nat.succ_pos _

theorem refs_afterPut (x : Nat) : (s.flagsAfterPut ip x).ref = f x := by
  have count := counts x
  unfold State.flagsAfterPut State.refs at *
  rcases eq_or_ne x ip with rfl | ne
  · rw [hit_self] at count
    simp only [update_self]
    omega
  · simpa [hit, ne] using count

/-- The last step of `iput` and `iunlockput` gives a reference back; `f` counts the others. -/
theorem put_passing (wf : s.Wf) (owned : ∀ x, base x ≤ f x)
    (leads : Leads s (s.nodesAfterPut ip) (s.flagsAfterPut ip) s')
    (disk : ¬s.Frees ip → s'.disk = s.disk)
    : Passing base s s' ∧ ∀ x, s'.refs x = f x := by
  have cached := refs_pos counts
  have unused : s.Frees ip → base ip = 0 := by
    rintro ⟨_, _, last⟩
    have last : s.refs ip = 1 := last
    have count := counts ip
    have bound := owned ip
    rw [hit_self] at count
    omega
  have after : ∀ x, s'.refs x = f x := fun x => by rw [leads.refs, refs_afterPut counts]
  refine ⟨⟨leads.wf (wf.nodesAfterPut ip), leads.sb, fun x => ?_, fun x used valid => ?_,
    fun x changed => ?_, fun x used => ?_, fun same => disk fun frees => ?_⟩, after⟩
  · rw [leads.node]
    unfold State.nodesAfterPut
    split
    · rename_i frees
      rcases eq_or_ne x ip with rfl | ne
      · rw [update_self]
        exact .inr ⟨rfl, frees.2.1, unused frees⟩
      · rw [update_of_ne ne]
        exact .inl rfl
    · exact .inl rfl
  · rw [leads.flags]
    unfold State.flagsAfterPut
    rcases eq_or_ne x ip with rfl | ne
    · have keeps : ¬s.Frees x := fun frees => by
        have zero := unused frees
        omega
      simp [keeps, valid]
    · rwa [update_of_ne ne]
  · rcases eq_or_ne x ip with rfl | ne
    · exact .inl cached
    · refine absurd ?_ changed
      rw [leads.node]
      unfold State.nodesAfterPut
      split
      · exact update_of_ne ne ..
      · rfl
  · rw [after] at used
    exact .inl (by rw [counts]; omega)
  · -- an inode that is freed was allocated before
    have used := (wf.quiet.shows ⟨cached, frees.1⟩).used
    rw [leads.node, State.nodesAfterPut, if_pos frees] at same
    have type := congrArg Node.type (congrFun same ip)
    rw [update_self, State.node_type s (wf.quiet.inside ip cached)] at type
    exact used type.symm

end

theorem State.Unlocked.ilock (unlocked : s.Unlocked) (quiet : s.Quiet)
    (ran : Returns (ilock ip) s u s')
    : s'.OnlyLocked ip := by
  obtain ⟨_, leads⟩ := ilock_returns quiet ran
  constructor
  · rw [leads.flags, update_self]
  · intro x ne
    rw [leads.flags, update_of_ne ne]
    exact unlocked x

theorem State.OnlyLocked.iunlock (only : s.OnlyLocked ip) (quiet : s.Quiet)
    (ran : Returns (iunlock ip) s u s')
    : s'.Unlocked := by
  have leads := iunlock_returns quiet ran
  intro x
  rw [leads.flags]
  rcases eq_or_ne x ip with rfl | ne
  · rw [update_self]
  · rw [update_of_ne ne]
    exact only.others x ne

theorem locked_afterPut (others : x ≠ ip → (s.flags x).locked = false)
    : (s.flagsAfterPut ip x).locked = false := by
  unfold State.flagsAfterPut
  rcases eq_or_ne x ip with rfl | ne
  · rw [update_self]
  · rw [update_of_ne ne]
    exact others ne

theorem State.Unlocked.iput (unlocked : s.Unlocked) (quiet : s.Quiet) (cached : 0 < s.refs ip)
    (ran : Returns (iput ip) s u s')
    : s'.Unlocked := by
  intro x
  rw [(iput_returns quiet cached ran).flags]
  exact locked_afterPut fun _ => unlocked x

theorem State.OnlyLocked.iunlockput (only : s.OnlyLocked ip) (quiet : s.Quiet)
    (cached : 0 < s.refs ip) (ran : Returns (iunlockput ip) s u s')
    : s'.Unlocked := by
  intro x
  rw [(iunlockput_returns quiet cached ran).flags]
  exact locked_afterPut (only.others x)

/-- A new reference leaves the locks as they are. -/
theorem Leads.locked_gain (leads : Leads s s.node (update s.flags ip (s.flags ip).gain) s')
    : (s'.flags x).locked = (s.flags x).locked := by
  rw [leads.flags]
  rcases eq_or_ne x ip with rfl | ne
  · rw [update_self, Flags.gain]
    split <;> rfl
  · rw [update_of_ne ne]

theorem State.OnlyLocked.congr (only : s.OnlyLocked ip)
    (same : ∀ x, (s'.flags x).locked = (s.flags x).locked)
    : s'.OnlyLocked ip :=
  ⟨by rw [same, only.locked], fun x ne => by rw [same, only.others x ne]⟩

section

variable {f : Nat → Nat} (wf : s.Wf) (counts : ∀ x, s.refs x = f x + hit ip x)
  (owned : ∀ x, base x ≤ f x)
include wf counts owned

theorem iput_passing (ran : Returns (iput ip) s u s')
    : Passing base s s' ∧ ∀ x, s'.refs x = f x :=
  have cached := refs_pos counts
  put_passing counts wf owned (iput_returns wf.quiet cached ran)
    fun keeps => iput_disk wf.quiet cached keeps ran

theorem iunlockput_passing (ran : Returns (iunlockput ip) s u s')
    : Passing base s s' ∧ ∀ x, s'.refs x = f x :=
  have cached := refs_pos counts
  put_passing counts wf owned (iunlockput_returns wf.quiet cached ran)
    fun keeps => iunlockput_disk wf.quiet cached keeps ran

end

/-- One reference is the caller's. -/
theorem counts_of_pos (positive : 0 < s.refs ip) (x : Nat)
    : s.refs x = s.refs x - hit ip x + hit ip x := by
  rcases eq_or_ne x ip with rfl | ne
  · rw [hit_self]
    omega
  · simp [hit, ne]

/-- An inode that was found is locked. -/
theorem Passing.ilock (passing : Passing base s m)
    (refs : ∀ x, m.refs x = s.refs x + hitSome (some ip) x) (ran : Returns (ilock ip) m u s')
    : Passing base s s' ∧ (∀ x, s'.refs x = s.refs x + hit ip x) ∧ s'.Loaded ip
      ∧ s'.node = m.node ∧ (s'.node = s.node → m.node = s.node) := by
  obtain ⟨passing', refs', loaded, node, _⟩ := ilock_passing base passing.wf ran
  exact ⟨passing.trans passing', fun x => by rw [refs', refs, hitSome_some], loaded, node,
    passing.node_eq_of_trans passing'⟩

/-- A loaded inode stays loaded when a reference is taken. -/
theorem loaded_gain (leads : Leads s nodes (update s.flags ip (s.flags ip).gain) s')
    (loaded : s.Loaded x)
    : s'.Loaded x := by
  constructor
  · rw [leads.flags, refs_gain]
    exact Nat.lt_of_lt_of_le loaded.ref (Nat.le_add_right ..)
  · rw [leads.flags]
    rcases eq_or_ne x ip with rfl | ne
    · rw [valid_gain loaded.ref]
      exact loaded.valid
    · rw [update_of_ne ne]
      exact loaded.valid

/-- `dirlookup` finds nothing, or takes a reference to the inode of the first match. -/
theorem dirlookup_passing {dp : Nat} {name : List UInt8} {r : Option (Nat × Nat)}
    (base : Nat → Nat) (wf : s.Wf) (loaded : s.Loaded dp)
    (owned : ∀ x, base x ≤ s.refs x)
    (ran : Returns (dirlookup dp name) s r s')
    : (s.node dp).type = tDir ∧ r.map Prod.fst = (s.node dp).lookup name
      ∧ ((r = none ∧ s' = s
          ∧ (s.node dp).contents.length = direntSize * (s.node dp).entryCount
          ∧ (s.node dp).Lacks name)
        ∨ ∃ k, k < (s.node dp).entryCount ∧ ((s.node dp).entry k).Matches name
          ∧ r = some (((s.node dp).entry k).inum.toNat, direntSize * k)
          ∧ Passing base s s' ∧ s'.node = s.node
          ∧ (∀ x, s'.refs x = s.refs x + hit ((s.node dp).entry k).inum.toNat x)
          ∧ (∀ x, s.Loaded x → s'.Loaded x)
          ∧ ∀ x, (s'.flags x).locked = (s.flags x).locked) := by
  obtain ⟨directory, result⟩ := dirlookup_returns (wf.quiet.shows loaded) ran
  refine ⟨directory, ?_⟩
  rcases result with ⟨rfl, none⟩ | ⟨k, inside, found, first, rfl, got⟩
  · exact ⟨(Node.lookup_eq_none_iff.mpr none.2.2).symm, .inl ⟨rfl, none⟩⟩
  · refine ⟨(Node.lookup_of_first inside found first).symm, ?_⟩
    have leads := (iget_returns wf.quiet (wf.inRange dp directory k inside) got).2
    have known : s.Known ((s.node dp).entry k).inum.toNat :=
      .inr (.inr ⟨dp, k, directory, inside, found.1, rfl⟩)
    obtain ⟨passing, refs⟩ := gain_passing wf (owned _) known leads (iget_bookkept got).1.disk
    exact .inr ⟨k, inside, found, rfl, passing, leads.node, refs, fun x => loaded_gain leads,
      fun x => leads.locked_gain⟩

/-- The walk along a path moves its one reference from `ip` to the result. -/
theorem walk_returns {names : List (List UInt8)} {r : Option (Nat × List UInt8)} {f : Nat → Nat}
    (wf : s.Wf) (counts : ∀ x, s.refs x = f x + hit ip x) (owned : ∀ x, base x ≤ f x)
    (ran : Returns (walk parent names ip) s r s')
    : Passing base s s'
      ∧ (∀ x, s'.refs x = f x + hitSome (r.map Prod.fst) x)
      ∧ (∀ dp name, parent = true → r = some (dp, name)
        → s'.Loaded dp ∧ (s'.node dp).type = tDir)
      ∧ (s'.node = s.node → r = resolve parent s.node names ip)
      ∧ (s.Unlocked → s'.Unlocked) := by
  induction names generalizing s ip with
  | nil =>
    rcases returns_ite.mp ran with ⟨isParent, ran⟩ | ⟨notParent, ran⟩
    · obtain ⟨_, put, rfl⟩ := returns_bind_pure.mp ran
      obtain ⟨passing, refs⟩ := iput_passing wf counts owned put
      exact ⟨passing, refs, nofun, fun _ => by simp [resolve, isParent],
        fun unlocked => unlocked.iput wf.quiet (refs_pos counts) put⟩
    · obtain ⟨rfl, rfl⟩ := returns_pure.mp ran
      exact ⟨.refl base wf, fun x => by simp [counts], fun _ _ isParent => absurd isParent notParent,
        fun _ => by simp [resolve, notParent], id⟩
  | cons name names ih =>
    obtain ⟨_, m, locked, rest⟩ := returns_bind.mp ran
    clear ran
    obtain ⟨passing, refs, loaded, node, _⟩ := ilock_passing base wf locked
    have ran := returns_getInode_bind.mp rest
    have counts' : ∀ x, m.refs x = f x + hit ip x := fun x => by rw [refs, counts]
    have only := fun (unlocked : s.Unlocked) => unlocked.ilock wf.quiet locked
    have type := (passing.wf.quiet.shows loaded).copy_fields.1
    rcases returns_ite.mp ran with ⟨other, ran⟩ | ⟨directory, ran⟩
    · obtain ⟨_, put, rfl⟩ := returns_bind_pure.mp ran
      obtain ⟨passing', refs'⟩ := iunlockput_passing passing.wf counts' owned put
      rw [type, node] at other
      exact ⟨passing.trans passing', refs', nofun, fun _ => by simp [resolve, other],
        fun unlocked => (only unlocked).iunlockput passing.wf.quiet (refs_pos counts') put⟩
    have directory : (m.node ip).type = tDir := by rwa [type, not_not] at directory
    rcases returns_ite.mp ran with ⟨ends, ran⟩ | ⟨deeper, ran⟩
    · obtain ⟨_, unlocked, rfl⟩ := returns_bind_pure.mp ran
      obtain ⟨passing', refs', node', valid'⟩ := iunlock_passing base passing.wf unlocked
      refine ⟨passing.trans passing', fun x => by simp [refs', counts'], ?_, fun _ => ?_,
        fun before => (only before).iunlock passing.wf.quiet unlocked⟩
      · rintro dp name' _ found
        cases found
        refine ⟨⟨?_, by rw [valid']; exact loaded.valid⟩, by rwa [node']⟩
        have same := refs' ip
        simp only [State.refs] at same
        rw [same]
        exact loaded.ref
      · rw [resolve, if_neg (by rw [← node, directory]; simp), if_pos ends]
    · have unfolded : resolve parent s.node (name :: names) ip
          = match (m.node ip).lookup name with
            | none => none
            | some next => resolve parent s.node names next := by
        rw [resolve, if_neg (by rw [← node, directory]; simp), if_neg deeper, node]
      obtain ⟨found, next, looked, rest⟩ := returns_bind.mp ran
      obtain ⟨_, lookup, result⟩ := dirlookup_passing base passing.wf loaded
        (fun x => by rw [counts']; exact Nat.le_add_right_of_le (owned x)) looked
      rw [← lookup] at unfolded
      obtain ⟨_, last, put, rest⟩ := returns_bind.mp rest
      rcases result with ⟨rfl, same, _⟩ | ⟨k, _, _, rfl, passing', node', refs', _, locks⟩
      · rw [same] at put
        obtain ⟨passing', refs'⟩ := iunlockput_passing passing.wf counts' owned put
        obtain ⟨rfl, rfl⟩ := returns_pure.mp rest
        exact ⟨passing.trans passing', refs', nofun, fun _ => unfolded.symm, fun unlocked =>
          (only unlocked).iunlockput passing.wf.quiet (refs_pos counts') put⟩
      · generalize ((m.node ip).entry k).inum.toNat = target at *
        have counts'' : ∀ x, next.refs x = f x + hit target x + hit ip x := fun x => by
          rw [refs', counts', Nat.add_right_comm]
        obtain ⟨passing'', refs''⟩ := iunlockput_passing passing'.wf counts''
          (fun x => Nat.le_add_right_of_le (owned x)) put
        obtain ⟨tail, refs₃, parents, resolved, released⟩ := ih passing''.wf refs'' rest
        have before := (passing.trans passing').trans passing''
        refine ⟨before.trans tail, refs₃, parents, fun same => ?_, fun unlocked =>
          released (((only unlocked).congr locks).iunlockput passing'.wf.quiet
            (refs_pos counts'') put)⟩
        have between := before.node_eq_of_trans tail same
        rw [unfolded, resolved (same.trans between.symm), between]
        rfl

/-- What the caller still holds is neither freed nor unloaded. -/
theorem Passing.loaded (passing : Passing base s s') (held : 0 < base x) (loaded : s.Loaded x)
    (refs : base x ≤ s'.refs x)
    : s'.Loaded x ∧ s'.node x = s.node x := by
  refine ⟨⟨Nat.lt_of_lt_of_le held refs, passing.valid x held loaded.valid⟩, ?_⟩
  rcases passing.node x with same | ⟨_, _, unused⟩
  · exact same
  · omega

/-- Where a path starts. -/
def startOf (cwd : Nat) (path : List UInt8) : Nat :=
  if path.head? = some 47 then rootino else cwd

section

variable (base) (wf : s.Wf) (owned : ∀ x, base x ≤ s.refs x)
include wf owned

theorem startInode_passing (current : 0 < s.refs cwd) (ran : Returns (startInode cwd path) s r s')
    : r = startOf cwd path ∧ Passing base s s' ∧ s'.node = s.node
      ∧ ∀ x, s'.refs x = s.refs x + hit (startOf cwd path) x := by
  unfold startOf
  rcases returns_ite.mp ran with ⟨absolute, ran⟩ | ⟨relative, ran⟩
  · rw [if_pos absolute]
    obtain ⟨rfl, leads⟩ := iget_returns wf.quiet wf.quiet.sound.layout.root ran
    obtain ⟨passing, refs⟩ := gain_passing wf (owned _) (.inr (.inl rfl)) leads
      (iget_bookkept ran).1.disk
    exact ⟨rfl, passing, leads.node, refs⟩
  · rw [if_neg relative]
    obtain ⟨rfl, leads⟩ := idup_returns wf.quiet current ran
    obtain ⟨passing, refs⟩ := gain_passing wf (owned _) (.inl current) leads
      (idup_bookkept ran).disk
    exact ⟨rfl, passing, leads.node, refs⟩

/-- A path lookup takes one reference, to its result. -/
theorem namex_returns {r : Option (Nat × List UInt8)} (current : 0 < s.refs cwd)
    (ran : Returns (namex cwd path parent) s r s')
    : Passing base s s'
      ∧ (∀ x, s'.refs x = s.refs x + hitSome (r.map Prod.fst) x)
      ∧ (∀ dp name, parent = true → r = some (dp, name)
        → s'.Loaded dp ∧ (s'.node dp).type = tDir)
      ∧ (s'.node = s.node
        → r = resolve parent s.node (elements path.length path) (startOf cwd path)) := by
  obtain ⟨ip, m, started, ran⟩ := returns_bind.mp ran
  obtain ⟨rfl, passing, node, refs⟩ := startInode_passing base wf owned current started
  obtain ⟨passing', refs', parents, resolved, _⟩ := walk_returns passing.wf refs owned ran
  refine ⟨passing.trans passing', refs', parents, fun same => ?_⟩
  rw [resolved (same.trans node.symm), node]

theorem namei_returns {r : Option Nat} (current : 0 < s.refs cwd)
    (ran : Returns (namei cwd path) s r s')
    : Passing base s s' ∧ (∀ x, s'.refs x = s.refs x + hitSome r x)
      ∧ (s'.node = s.node
        → r = (resolve false s.node (elements path.length path) (startOf cwd path)).map
            Prod.fst) := by
  obtain ⟨found, walked, rfl⟩ := returns_bind_pure.mp ran
  obtain ⟨passing, refs, _, resolved⟩ := namex_returns base wf owned current walked
  exact ⟨passing, refs, fun same => congrArg _ (resolved same)⟩

end

end Passing

end Xv6.Fs
