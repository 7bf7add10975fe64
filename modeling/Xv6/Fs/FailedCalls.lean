import Xv6.Fs.Ownership

/-! What the system calls on names leave behind when they return `-1`: `sys_link`,
`sys_unlink`, `sys_mkdir`, `sys_mknod`, `sys_chdir` and `sys_open` with their arguments and
the tables of open files.
-/

namespace Xv6.Fs

open Lib
open Function (update update_self update_of_ne update_idem)

/-- The field `type` of `struct file`, with the inode of an `FD_INODE`. -/
inductive FileType where
  | none
  | pipe
  | inode (ip : Nat)
  deriving DecidableEq

/-- `struct file`. -/
structure File where
  ref : Nat
  type : FileType
  readable : Bool
  writable : Bool
  off : Nat
  deriving DecidableEq

/-- The calling process and the table of open files. -/
structure Caller where
  cwd : Nat
  ofile : Fin nofile → Option (Fin nfile)
  ftable : Fin nfile → File

def Caller.setFile (c : Caller) (f : Fin nfile) (file : File) : Caller :=
  { c with ftable := update c.ftable f file }

def filealloc (c : Caller) : Option (Fin nfile × Caller) :=
  ((List.finRange nfile).find? fun f => (c.ftable f).ref = 0).map fun f =>
    (f, c.setFile f { c.ftable f with ref := 1 })

def fdalloc (c : Caller) (f : Fin nfile) : Option (Fin nofile × Caller) :=
  ((List.finRange nofile).find? fun fd => c.ofile fd = none).map fun fd =>
    (fd, { c with ofile := update c.ofile fd (some f) })

/-- `fileclose` of a file with a reference. The ends of pipes are not on disk. -/
def fileclose (c : Caller) (f : Fin nfile) : FsM Caller :=
  if 1 < (c.ftable f).ref then
    pure (c.setFile f { c.ftable f with ref := (c.ftable f).ref - 1 })
  else do
    match (c.ftable f).type with
    | .inode ip => iput ip
    | .none | .pipe => pure ()
    pure (c.setFile f { c.ftable f with ref := 0, type := .none })

/-- The first part of `sys_open`: the inode, locked and with a reference. -/
def openInode (cwd : Nat) (path : List UInt8) (omode : UInt32) : FsM (Option Nat) :=
  if omode &&& oCreate ≠ 0 then create cwd path tFile 0 0
  else do
    let found ← namei cwd path
    match found with
    | none => pure none
    | some ip => do
        ilock ip
        let entry ← getInode ip
        if entry.copy.type = tDir ∧ omode ≠ 0 then do
          iunlockput ip
          pure none
        else pure (some ip)

/-- The second part of `sys_open`: a file and a descriptor for the inode. -/
def openFile (c : Caller) (ip : Nat) (omode : UInt32) : FsM (Option Nat × Caller) :=
  match filealloc c with
  | none => do
      iunlockput ip
      pure (none, c)
  | some (f, c) =>
      match fdalloc c f with
      | none => do
          let c ← fileclose c f
          iunlockput ip
          pure (none, c)
      | some (fd, c) => do
          iunlock ip
          pure (some fd, c.setFile f
            { ref := (c.ftable f).ref
              type := .inode ip
              readable := omode &&& oWronly = 0
              writable := omode &&& oWronly ≠ 0 ∨ omode &&& oRdwr ≠ 0
              off := 0 })

/-- What follows `create` in `sys_mkdir` and `sys_mknod`. -/
def dropMade (c : Caller) : Option Nat → FsM (Option Nat × Caller)
  | none => pure (none, c)
  | some ip => do
      iunlockput ip
      pure (some 0, c)

/-- `sys_chdir` after the path has been fetched. -/
def chdir (c : Caller) (path : List UInt8) : FsM (Option Nat × Caller) := do
  let found ← namei c.cwd path
  match found with
  | none => pure (none, c)
  | some ip => do
      ilock ip
      let entry ← getInode ip
      if entry.copy.type ≠ tDir then do
        iunlockput ip
        pure (none, c)
      else do
        iunlock ip
        iput c.cwd
        pure (some 0, { c with cwd := ip })

/-- The calls; an argument is `none` when `argstr` or `argint` fails. -/
inductive FsCall where
  | link (old new : Option (List UInt8))
  | unlink (path : Option (List UInt8))
  | mkdir (path : Option (List UInt8))
  | mknod (path : Option (List UInt8)) (major minor : Option Int32)
  | chdir (path : Option (List UInt8))
  | open (path : Option (List UInt8)) (omode : Option UInt32)

/-- A call; the result `none` is `-1`. -/
def FsCall.exec (c : Caller) : FsCall → FsM (Option Nat × Caller)
  | .link (some old) (some new) => do
      let linked ← Fs.link c.cwd old new
      pure (if linked then some 0 else none, c)
  | .unlink (some path) => do
      let removed ← Fs.unlink c.cwd path
      pure (if removed then some 0 else none, c)
  | .mkdir (some path) => do
      let made ← create c.cwd path tDir 0 0
      dropMade c made
  | .mknod (some path) (some major) (some minor) => do
      let made ← create c.cwd path tDev major.toInt16 minor.toInt16
      dropMade c made
  | .chdir (some path) => Fs.chdir c path
  | .open (some path) (some omode) => do
      let found ← openInode c.cwd path omode
      match found with
      | none => pure (none, c)
      | some ip => openFile c ip omode
  | _ => pure (none, c)

/-- Everything that a file system has on disk is as before: the inodes with their link
counts, sizes and contents, among them the directories, and the bitmap.
-/
structure Unchanged (s s' : State) : Prop where
  node : s'.node = s.node
  bitmap : s'.bitmap = s.bitmap

/-- The root and every inode with an entry has a link, or it is in use. -/
def State.Linked (s : State) : Prop :=
  ∀ x, x = rootino ∨ Named s.node x → (s.node x).type ≠ 0 → (s.node x).nlink = 0 → 0 < s.refs x

/-- Every inode without links that a call can get hold of is in use by others. -/
def State.Guarded (s : State) (base : Nat → Nat) : Prop :=
  ∀ x, s.Known x → (s.node x).type ≠ 0 → (s.node x).nlink = 0 → 0 < base x

section Unchanged

variable {s s' m : State} {base : Nat → Nat} {ip : Nat}

theorem State.Linked.guarded (linked : s.Linked) : s.Guarded s.refs := by
  rintro x (used | known) allocated unlinked
  · exact used
  · exact linked x known allocated unlinked

theorem State.node_eq_free {x : Nat} (unused : (s.node x).type = 0) : s.node x = .free := by
  unfold State.node State.nodeOf at *
  split
  · rename_i allocated
    rw [if_pos allocated] at unused
    exact absurd unused allocated.2
  · rfl

/-- Lookups and puts change nothing when there is nothing to free. -/
theorem Passing.unchanged (passing : Passing base s s') (guarded : s.Guarded base)
    : Unchanged s s' := by
  have node : s'.node = s.node := by
    funext x
    by_contra changed
    have known := passing.freed x changed
    rcases passing.node x with same | ⟨freed, unlinked, unused⟩
    · exact changed same
    · by_cases allocated : (s.node x).type = 0
      · exact changed (freed.trans (State.node_eq_free allocated).symm)
      · exact Nat.ne_of_gt (guarded x known allocated unlinked) unused
  refine ⟨node, funext fun b => ?_⟩
  rw [State.bitmap, State.bitmap, passing.disk node, passing.sb]

/-- A change of a link count gives no call a hold on further inodes. -/
theorem Edits.known_of_links {n : Int16} {x : Nat}
    (edits : Edits s (update s.node ip { s.node ip with nlink := n }) s')
    (known : s'.Known x)
    : s.Known x := by
  rcases known with used | root | ⟨dp, k, directory, inside, entry⟩
  · rw [edits.refs] at used
    exact .inl used
  · exact .inr (.inl root)
  · refine .inr (.inr ⟨dp, k, ?_⟩)
    rw [edits.node] at directory inside entry
    rcases eq_or_ne dp ip with rfl | ne
    · rw [update_self] at directory inside entry
      exact ⟨directory, inside, entry⟩
    · rw [update_of_ne ne] at directory inside entry
      exact ⟨directory, inside, entry⟩

/-- A link that was made and taken back leaves no trace. -/
theorem LinkUndone.unchanged {first second : State} (guarded : s.Guarded s.refs)
    (known : ∀ x, first.Known x → s.Known x) (node : first.node = s.node)
    (bitmap : first.bitmap = s.bitmap)
    (raised
      : Edits first
          (update first.node ip { first.node ip with nlink := (first.node ip).nlink + 1 })
          second)
    (bitmap' : second.bitmap = first.bitmap)
    (passing : Passing (fun x => s.refs x + hit ip x) second m)
    (undone : LinkUndone s.refs ip m s')
    : Unchanged s s' := by
  obtain ⟨third, fourth, passing', loaded, lowered, bitmap₃, last⟩ := undone
  -- while the count is raised, the reference of the call guards the file
  have guarded₂ : second.Guarded fun x => s.refs x + hit ip x := by
    intro x there allocated unlinked
    rw [raised.node, node] at allocated unlinked
    rcases eq_or_ne x ip with rfl | ne
    · change 0 < s.refs x + hit x x
      rw [hit_self]
      exact Nat.succ_pos _
    · rw [update_of_ne ne] at allocated unlinked
      exact Nat.lt_of_lt_of_le (guarded x (known x (raised.known_of_links there)) allocated
        unlinked) (Nat.le_add_right ..)
  have between := (passing.trans passing').unchanged guarded₂
  have restored : fourth.node = s.node := by
    rw [lowered.node, between.node, raised.node, node, update_self, update_idem]
    simp
  have guarded₄ : fourth.Guarded s.refs := by
    intro x there
    rw [restored]
    exact guarded x (known x (raised.known_of_links
      ((passing.trans passing').known (lowered.known_of_links there))))
  have final := last.unchanged guarded₄
  refine ⟨final.node.trans restored, ?_⟩
  rw [final.bitmap, bitmap₃, between.bitmap, bitmap', bitmap]

end Unchanged

/-- There is no free `struct file`, or no free descriptor. -/
def Caller.Full (c : Caller) : Prop :=
  (∀ f, (c.ftable f).ref ≠ 0) ∨ ∀ fd, c.ofile fd ≠ none

/-- `create` would make the last element of the path. -/
def State.Lacks (s : State) (cwd : Nat) (path : List UInt8) : Prop :=
  ∃ dp name,
    resolve true s.node (elements path.length path) (startOf cwd path) = some (dp, name)
    ∧ (s.node dp).lookup name = none

/-- `sys_open` with `O_CREATE` of a new name, without room for an open file. -/
def FsCall.Strands (c : Caller) (s : State) : FsCall → Prop
  | .open (some path) (some omode) => omode &&& oCreate ≠ 0 ∧ c.Full ∧ s.Lacks c.cwd path
  | _ => False

section Calls

variable {s s' : State} {c c' : Caller}
variable {cwd : Nat} {path : List UInt8} {omode : UInt32}

/-- A call whose result `-1` is that of a Boolean function. -/
theorem failed_of_bool {m : FsM Bool}
    (ran : Returns (do let done ← m; pure (if done then some 0 else none, c)) s (none, c') s')
    : Returns m s false s' := by
  obtain ⟨done, ran, result⟩ := returns_bind_pure.mp ran
  cases done with
  | true => cases result
  | false => exact ran

/-- A call that cannot fetch its arguments. -/
theorem unchanged_of_pure (ran : Returns (pure (none, c) : FsM (Option Nat × Caller)) s (none, c') s')
    : Unchanged s s' := by
  obtain ⟨_, rfl⟩ := returns_pure.mp ran
  exact ⟨rfl, rfl⟩

theorem link_unchanged {old new : List UInt8} (wf : s.Wf) (linked : s.Linked)
    (current : 0 < s.refs cwd) (ran : Returns (link cwd old new) s false s')
    : Unchanged s s' := by
  have guarded := linked.guarded
  obtain ⟨_, ⟨_, passing⟩ | ⟨m, _, _, ip, passing, _, _, _, raised, bitmap, passing', _, result⟩⟩ :=
    link_returns s.refs wf (fun _ => Nat.le_refl _) current ran
  · exact passing.unchanged guarded
  · have before := passing.unchanged guarded
    rcases result with ⟨_, undone⟩ | ⟨impossible, _⟩
    · exact undone.unchanged guarded (fun x => passing.known) before.node before.bitmap raised
        bitmap passing'
    · cases impossible

theorem unlink_unchanged (wf : s.Wf) (linked : s.Linked) (current : 0 < s.refs cwd)
    (ran : Returns (unlink cwd path) s false s')
    : Unchanged s s' := by
  obtain ⟨_, ⟨_, passing⟩ | ⟨impossible, _⟩⟩ :=
    unlink_returns s.refs wf (fun _ => Nat.le_refl _) current ran
  · exact passing.unchanged linked.guarded
  · cases impossible

/-- `sys_mkdir` and `sys_mknod`. -/
theorem make_unchanged {type major minor : Int16} (wf : s.Wf) (linked : s.Linked)
    (current : 0 < s.refs c.cwd) (typed : type ≠ 0)
    (ran
      : Returns (do let made ← create c.cwd path type major minor; dropMade c made) s
          (none, c') s')
    : Unchanged s s' := by
  obtain ⟨made, m, created, rest⟩ := returns_bind.mp ran
  obtain ⟨_, result⟩ := create_returns s.refs wf (fun _ => Nat.le_refl _) current typed created
  cases made with
  | none =>
    obtain ⟨_, rfl⟩ := returns_pure.mp rest
    rcases result with ⟨passing, _⟩ | ⟨_, _, _, _, _, impossible, _⟩
    · exact passing.unchanged linked.guarded
    · cases impossible
  | some ip =>
    obtain ⟨_, _, ⟨⟩⟩ := returns_bind_pure.mp rest

theorem chdir_unchanged (wf : s.Wf) (linked : s.Linked) (current : 0 < s.refs c.cwd)
    (ran : Returns (chdir c path) s (none, c') s')
    : Unchanged s s' := by
  obtain ⟨found, m, walked, rest⟩ := returns_bind.mp ran
  obtain ⟨passing, refs, _⟩ := namei_returns s.refs wf (fun _ => Nat.le_refl _) current walked
  cases found with
  | none =>
    obtain ⟨_, rfl⟩ := returns_pure.mp rest
    exact passing.unchanged linked.guarded
  | some ip =>
    obtain ⟨_, m', locked, rest⟩ := returns_bind.mp rest
    obtain ⟨before, counts, _⟩ := passing.ilock refs locked
    have rest := returns_getInode_bind.mp rest
    rcases returns_ite.mp rest with ⟨_, rest⟩ | ⟨_, rest⟩
    · obtain ⟨_, put, _⟩ := returns_bind_pure.mp rest
      obtain ⟨passing', _⟩ := iunlockput_passing before.wf counts (fun _ => Nat.le_refl _) put
      exact (before.trans passing').unchanged linked.guarded
    · obtain ⟨_, _, _, rest⟩ := returns_bind.mp rest
      obtain ⟨_, _, ⟨⟩⟩ := returns_bind_pure.mp rest

/-- The second part of `sys_open` fails when a table is full, and drops the inode. -/
theorem openFile_failed {ip : Nat} (closed : ∀ f, (c.ftable f).ref = 0 → (c.ftable f).type = .none)
    (ran : Returns (openFile c ip omode) s (none, c') s')
    : c.Full ∧ Returns (iunlockput ip) s () s' := by
  unfold openFile at ran
  cases files : filealloc c with
  | none =>
    rw [files] at ran
    obtain ⟨_, put, _⟩ := returns_bind_pure.mp ran
    refine ⟨.inl fun f => ?_, put⟩
    rw [filealloc, Option.map_eq_none_iff, List.find?_eq_none] at files
    simpa using files f (List.mem_finRange f)
  | some result =>
    obtain ⟨f, c₁⟩ := result
    rw [files] at ran
    obtain ⟨g, search, same⟩ := Option.map_eq_some_iff.mp files
    cases same
    have unused : (c.ftable f).ref = 0 := by simpa using List.find?_some search
    cases slots : fdalloc (c.setFile f { c.ftable f with ref := 1 }) f with
    | none =>
      simp only [slots] at ran
      rw [fdalloc, Option.map_eq_none_iff, List.find?_eq_none] at slots
      refine ⟨.inr fun fd empty => slots fd (List.mem_finRange fd) (decide_eq_true empty), ?_⟩
      obtain ⟨_, m, shut, ran⟩ := returns_bind.mp ran
      obtain ⟨_, put, _⟩ := returns_bind_pure.mp ran
      have fresh : (c.setFile f { c.ftable f with ref := 1 }).ftable f
          = { c.ftable f with ref := 1 } := update_self ..
      unfold fileclose at shut
      rw [fresh] at shut
      rcases returns_ite.mp shut with ⟨shared, _⟩ | ⟨_, shut⟩
      · exact absurd shared (Nat.lt_irrefl 1)
      · simp only [closed f unused] at shut
        obtain ⟨_, rfl⟩ := returns_pure.mp shut
        exact put
    | some result =>
      simp only [slots] at ran
      obtain ⟨_, _, ⟨⟩⟩ := returns_bind_pure.mp ran

/-- A file that `create` has just made. -/
structure Made (s : State) (cwd : Nat) (path : List UInt8) (ip : Nat) (m : State) : Prop where
  lacks : s.Lacks cwd path
  unused : (s.node ip).type = 0
  type : (m.node ip).type = tFile
  nlink : (m.node ip).nlink = 1

/-- The first part of `sys_open` only looks the path up, or it makes a file. -/
theorem openInode_returns {r : Option Nat} (wf : s.Wf) (linked : s.Linked)
    (current : 0 < s.refs cwd) (ran : Returns (openInode cwd path omode) s r s')
    : s'.Wf ∧ (∀ x, s'.refs x = s.refs x + hitSome r x)
      ∧ (Passing s.refs s s' ∧ (omode &&& oCreate ≠ 0 → ¬s.Lacks cwd path)
        ∨ omode &&& oCreate ≠ 0 ∧ ∃ ip, r = some ip ∧ Made s cwd path ip s') := by
  have guarded := linked.guarded
  rcases returns_ite.mp ran with ⟨creating, ran⟩ | ⟨plain, ran⟩
  · obtain ⟨refs, result⟩ :=
      create_returns s.refs wf (fun _ => Nat.le_refl _) current (by decide) ran
    rcases result with ⟨passing, found⟩
      | ⟨m, m', dp, name, ip, rfl, passing, resolved, _, directory, _, created, passing'⟩
    · refine ⟨passing.wf, refs, .inl ⟨passing, fun _ => ?_⟩⟩
      rintro ⟨dp, name, leads, absent⟩
      exact found (passing.unchanged guarded).node dp name leads absent
    · refine ⟨passing'.wf, refs, .inr ⟨creating, ip, rfl, ?_⟩⟩
      have node := (passing.unchanged guarded).node
      have ne : ip ≠ dp := by
        rintro rfl
        exact nomatch created.unused.symm.trans directory
      obtain ⟨k, child, _, _, file, nodes⟩ := created.node
      have made : m'.node ip = .made tFile 0 0 := by
        rw [nodes, update_of_ne ne, update_self, file (by decide)]
      have kept : s'.node ip = m'.node ip := by
        rcases passing'.node ip with same | ⟨_, _, unused⟩
        · exact same
        · rw [hit_self] at unused
          cases unused
      refine ⟨⟨dp, name, resolved node, ?_⟩, ?_, by rw [kept, made]; rfl, by rw [kept, made]; rfl⟩
      · rw [← node]
        exact Node.lookup_eq_none_iff.mpr created.lacks
      · rw [← node]
        exact created.unused
  · obtain ⟨found, m, walked, rest⟩ := returns_bind.mp ran
    obtain ⟨passing, refs, _⟩ := namei_returns s.refs wf (fun _ => Nat.le_refl _) current walked
    cases found with
    | none =>
      obtain ⟨rfl, rfl⟩ := returns_pure.mp rest
      exact ⟨passing.wf, refs, .inl ⟨passing, fun creating => absurd creating plain⟩⟩
    | some ip =>
      obtain ⟨_, m', locked, rest⟩ := returns_bind.mp rest
      obtain ⟨before, counts, _⟩ := passing.ilock refs locked
      have rest := returns_getInode_bind.mp rest
      rcases returns_ite.mp rest with ⟨_, rest⟩ | ⟨_, rest⟩
      · obtain ⟨_, put, rfl⟩ := returns_bind_pure.mp rest
        obtain ⟨passing', refs'⟩ :=
          iunlockput_passing before.wf counts (fun _ => Nat.le_refl _) put
        exact ⟨passing'.wf, refs', .inl ⟨before.trans passing',
          fun creating => absurd creating plain⟩⟩
      · obtain ⟨rfl, rfl⟩ := returns_pure.mp rest
        refine ⟨before.wf, fun x => by rw [counts, hitSome_some], .inl ⟨before,
          fun creating => absurd creating plain⟩⟩

/-- A failing `sys_open` changes nothing, unless it has made the file already. -/
theorem open_unchanged (wf : s.Wf) (linked : s.Linked) (current : 0 < s.refs c.cwd)
    (closed : ∀ f, (c.ftable f).ref = 0 → (c.ftable f).type = .none)
    (ran : Returns ((FsCall.open (some path) (some omode)).exec c) s (none, c') s')
    : Unchanged s s' ↔ ¬(FsCall.open (some path) (some omode)).Strands c s := by
  obtain ⟨found, m, opened, rest⟩ := returns_bind.mp ran
  obtain ⟨wf', refs, result⟩ := openInode_returns wf linked current opened
  cases found with
  | none =>
    obtain ⟨_, rfl⟩ := returns_pure.mp rest
    rcases result with ⟨passing, present⟩ | ⟨_, _, impossible, _⟩
    · exact iff_of_true (passing.unchanged linked.guarded)
        fun strands => present strands.1 strands.2.2
    · cases impossible
  | some ip =>
    obtain ⟨full, put⟩ := openFile_failed closed rest
    simp only [hitSome_some] at refs
    obtain ⟨passing', _⟩ := iunlockput_passing wf' refs (fun _ => Nat.le_refl _) put
    rcases result with ⟨passing, present⟩ | ⟨creating, _, same, made⟩
    · exact iff_of_true ((passing.trans passing').unchanged linked.guarded)
        fun strands => present strands.1 strands.2.2
    · cases same
      refine iff_of_false (fun unchanged => ?_) (not_not.mpr ⟨creating, full, made.lacks⟩)
      -- the new file has a link, so the put does not free it
      have kept : s'.node ip = m.node ip := by
        rcases passing'.node ip with same | ⟨_, unlinked, _⟩
        · exact same
        · exact nomatch made.nlink.symm.trans unlinked
      have type := congrArg Node.type (congrFun unchanged.node ip)
      rw [kept, made.type, made.unused] at type
      cases type

/-- A call that returns `-1` leaves the disk as it was, except for `sys_open` with `O_CREATE`
of a name that its directory does not have, when there is no free file or descriptor.
-/
theorem failed_unchanged {call : FsCall} (wf : s.Wf) (linked : s.Linked)
    (current : 0 < s.refs c.cwd)
    (closed : ∀ f, (c.ftable f).ref = 0 → (c.ftable f).type = .none)
    (ran : Returns (call.exec c) s (none, c') s')
    : Unchanged s s' ↔ ¬call.Strands c s := by
  match call with
  | .open (some path) (some omode) => exact open_unchanged wf linked current closed ran
  | .link (some old) (some new) =>
      exact iff_of_true (link_unchanged wf linked current (failed_of_bool ran)) id
  | .unlink (some path) =>
      exact iff_of_true (unlink_unchanged wf linked current (failed_of_bool ran)) id
  | .mkdir (some path) => exact iff_of_true (make_unchanged wf linked current (by decide) ran) id
  | .mknod (some path) (some major) (some minor) =>
      exact iff_of_true (make_unchanged wf linked current (by decide) ran) id
  | .chdir (some path) => exact iff_of_true (chdir_unchanged wf linked current ran) id
  | .open none _ | .open (some _) none | .link none _ | .link (some _) none | .unlink none
  | .mkdir none | .mknod none _ _ | .mknod (some _) none _ | .mknod (some _) (some _) none
  | .chdir none => exact iff_of_true (unchanged_of_pure ran) id

end Calls

/-- A process in the root with no open files, and one that has used all its descriptors. -/
def idleCaller : Caller where
  cwd := rootino
  ofile := fun _ => none
  ftable := fun _ =>
    { ref := 0, type := .none, readable := false, writable := false, off := 0 }

def busyCaller : Caller :=
  { idleCaller.setFile 0
      { ref := nofile, type := .pipe, readable := true, writable := false, off := 0 } with
    ofile := fun _ => some 0 }

theorem emptyImage_linked : emptyImage.Linked := by
  have only : ∀ x, x < 4 → (emptyImage.node x).type ≠ 0 → x = rootino := by decide +kernel
  have counted : (emptyImage.node rootino).nlink ≠ 0 := by decide +kernel
  intro x _ allocated unlinked
  by_cases inside : x < 4
  · exact absurd (only x inside allocated ▸ unlinked) counted
  · rw [State.node, State.nodeOf, if_neg fun both => inside both.1] at allocated
    exact absurd rfl allocated

/-- A call on the empty image that fails, with a property of the image afterwards. -/
theorem exists_of_fails (call : FsCall) (c : Caller) (p : State → Bool)
    (fails
      : (match call.exec c emptyImage with
        | .ok ((none, _), s') => p s'
        | _ => false) = true)
    : ∃ c' s', Returns (call.exec c) emptyImage (none, c') s' ∧ p s' = true := by
  unfold Returns
  generalize call.exec c emptyImage = ended at fails ⊢
  cases ended with
  | error e => cases fails
  | ok result =>
    obtain ⟨⟨r, c'⟩, s'⟩ := result
    cases r with
    | some n => cases fails
    | none => exact ⟨c', s', rfl, fails⟩

/-- Opening a file that is not there fails. -/
theorem open_missing_unchanged
    : ∃ c' s', Returns ((FsCall.open (some [97]) (some 0)).exec idleCaller) emptyImage
        (none, c') s'
      ∧ Unchanged emptyImage s' := by
  obtain ⟨c', s', ran, _⟩ := exists_of_fails (.open (some [97]) (some 0)) idleCaller
    (fun _ => true) (by decide +kernel)
  refine ⟨c', s', ran, (failed_unchanged (boot_wf emptyImage_wellFormed) emptyImage_linked
    (by decide +kernel) (fun _ _ => rfl) ran).mpr ?_⟩
  rintro ⟨creating, _⟩
  exact creating (by decide)

/-- With all descriptors in use, `open` with `O_CREATE` fails and leaves a new file behind. -/
theorem open_create_strands
    : ∃ c' s', Returns ((FsCall.open (some [97]) (some oCreate)).exec busyCaller) emptyImage
        (none, c') s'
      ∧ ¬Unchanged emptyImage s' := by
  obtain ⟨c', s', ran, made⟩ := exists_of_fails (.open (some [97]) (some oCreate))
    busyCaller (fun s => decide ((s.node 2).type = tFile)) (by decide +kernel)
  refine ⟨c', s', ran, fun unchanged => ?_⟩
  have type := of_decide_eq_true made
  rw [unchanged.node] at type
  revert type
  decide +kernel

end Xv6.Fs
