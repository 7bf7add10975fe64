import Xv6.Fs.FailedCalls
import Xv6.Fs.Progress

/-! Path resolution is lookup, component by component.
`skipelem` takes the components off a path, and `namei` and `nameiparent` look them up in turn;
on a directory tree they return, with one reference to their result and no lock.
-/

namespace Xv6.Fs

open Lib
open Function (update update_self update_of_ne)

/-- The components of a path: the runs of bytes other than `'/'`, cut to `DIRSIZ` bytes. -/
def components (path : List UInt8) : List (List UInt8) :=
  ((path.splitOn 47).filter (· ≠ [])).map (List.take dirsiz)

/-- One lookup in the directory `ip`. -/
def child (nodes : Nat → Node) (ip : Nat) (name : List UInt8) : Option Nat :=
  if (nodes ip).type = tDir then (nodes ip).lookup name else none

/-- The inode that a list of components leads to. -/
def descend (nodes : Nat → Node) (ip : Nat) (names : List (List UInt8)) : Option Nat :=
  names.foldlM (child nodes) ip

/-- The directory of the last component, and this component. -/
def descendParent (nodes : Nat → Node) (ip : Nat) (names : List (List UInt8))
    : Option (Nat × List UInt8) :=
  names.getLast?.bind fun last =>
    (descend nodes ip names.dropLast).bind fun dp =>
      if (nodes dp).type = tDir then some (dp, last) else none

/-! Components. -/

section Components

variable {path : List UInt8}

@[simp] theorem components_nil : components [] = [] := by
  simp [components]

theorem components_slash (path : List UInt8) : components (47 :: path) = components path := by
  simp [components, List.splitOn, List.splitOnP_cons_eq_if_modifyHead]

/-- Leading slashes do not matter. -/
theorem components_dropWhile (path : List UInt8)
    : components (path.dropWhile (· == 47)) = components path := by
  induction path with
  | nil => rfl
  | cons byte path ih =>
    by_cases slash : byte = 47
    · rw [slash, List.dropWhile_cons_of_pos (by decide), ih, components_slash]
    · rw [List.dropWhile_cons_of_neg (by simpa using slash)]

/-- The first component of a path that does not start with a slash. -/
theorem components_of_ne_slash (nonempty : path ≠ []) (first : path.head? ≠ some 47)
    : components path
      = (path.takeWhile (· != 47)).take dirsiz :: components (path.dropWhile (· != 47)) := by
  have run : path.takeWhile (· != 47) ≠ [] := by
    cases path with
    | nil => exact absurd rfl nonempty
    | cons byte path =>
      have other : byte ≠ 47 := by simpa using first
      simp [other]
  have plain : ∀ byte ∈ path.takeWhile (· != 47), (byte == 47) = false := by
    intro byte member
    have all := List.all_takeWhile (p := (· != 47)) (l := path)
    simpa using List.all_eq_true.mp all byte member
  have whole := List.takeWhile_append_dropWhile (p := (· != 47)) (l := path)
  rcases tail : path.dropWhile (· != 47) with _ | ⟨byte, rest⟩
  · rw [tail, List.append_nil] at whole
    rw [whole] at plain
    rw [components, List.splitOn, List.splitOnP_eq_singleton plain, whole]
    simp [nonempty]
  · have slash : byte = 47 := by
      have head := List.head?_dropWhile_not (· != 47) path
      rw [tail] at head
      simpa using head
    subst slash
    rw [tail] at whole
    conv_lhs => rw [components, ← whole, List.splitOn,
      List.splitOnP_append_cons_of_forall_mem plain _ (by rfl)]
    rw [components_slash]
    simp [components, List.splitOn, run]

theorem components_eq_nil_iff (first : path.head? ≠ some 47)
    : components path = [] ↔ path = [] := by
  constructor
  · intro none
    by_contra nonempty
    rw [components_of_ne_slash nonempty first] at none
    cases none
  · rintro rfl
    exact components_nil

theorem head?_dropWhile_slash (path : List UInt8)
    : (path.dropWhile (· == 47)).head? ≠ some 47 := by
  have head := List.head?_dropWhile_not (· == 47) path
  intro slash
  rw [slash] at head
  cases head

/-- `skipelem` fails at the end of the path. -/
theorem skipelem_eq_none (none : skipelem path = none)
    : components path = [] := by
  unfold skipelem at none
  split at none
  · rename_i empty
    rw [← components_dropWhile, empty, components_nil]
  · cases none

/-- `skipelem` takes off one component; the rest is shorter and starts with another one. -/
theorem skipelem_eq_some {rest name : List UInt8} (some : skipelem path = some (rest, name))
    : components path = name :: components rest ∧ rest.length < path.length
      ∧ rest.head? ≠ Option.some 47 := by
  unfold skipelem at some
  split at some
  · cases some
  · rename_i nonempty
    simp only [Option.some.injEq, Prod.mk.injEq] at some
    obtain ⟨rfl, rfl⟩ := some
    have first := head?_dropWhile_slash path
    generalize stripped : path.dropWhile (· == 47) = s at *
    have shorter : s.length ≤ path.length := stripped ▸ (List.dropWhile_sublist _).length_le
    refine ⟨?_, ?_, head?_dropWhile_slash _⟩
    · rw [← components_dropWhile, stripped, components_of_ne_slash nonempty first,
        components_dropWhile]
    · cases s with
      | nil => exact absurd rfl nonempty
      | cons byte s =>
        have other : byte ≠ 47 := by simpa using first
        have tail : ((byte :: s).dropWhile (· != 47)).length ≤ s.length := by
          rw [List.dropWhile_cons_of_pos (by simpa using other)]
          exact (List.dropWhile_sublist _).length_le
        have last := (List.dropWhile_sublist (l := (byte :: s).dropWhile (· != 47))
          (· == 47)).length_le
        rw [List.length_cons] at shorter
        omega

/-- The loop over `skipelem` ends, and yields the components. -/
theorem elements_eq_components {fuel : Nat} (enough : path.length ≤ fuel)
    : elements fuel path = components path := by
  induction fuel generalizing path with
  | zero =>
    obtain rfl := List.eq_nil_of_length_eq_zero (Nat.le_zero.mp enough)
    exact components_nil.symm
  | succ fuel ih =>
    rw [elements]
    cases taken : skipelem path with
    | none => exact (skipelem_eq_none taken).symm
    | some result =>
      obtain ⟨rest, name⟩ := result
      obtain ⟨split, shorter, _⟩ := skipelem_eq_some taken
      have tail : elements fuel rest = components rest := ih (by omega)
      rw [split, ← tail]

end Components

/-! The loop of `namex`. -/

/-- The loop of `namex` as it stands in the source: one component is taken off in each round, and
the last one is told by the empty rest of the path.
-/
def namexLoop (parent : Bool) : (fuel : Nat) → (path : List UInt8) → (ip : Nat)
    → FsM (Option (Nat × List UInt8))
  | 0, _, _ => pure none
  | fuel + 1, path, ip =>
      match skipelem path with
      | none =>
          if parent then do
            iput ip
            pure none
          else pure (some (ip, []))
      | some (rest, name) => do
          ilock ip
          let entry ← getInode ip
          if entry.copy.type ≠ tDir then do
            iunlockput ip
            pure none
          else if parent ∧ rest = [] then do
            iunlock ip
            pure (some (ip, name))
          else do
            let found ← dirlookup ip name
            iunlockput ip
            match found with
            | none => pure none
            | some (next, _) => namexLoop parent fuel rest next

/-- The walk over the components is the loop. -/
theorem namexLoop_eq_walk {parent : Bool} {fuel : Nat} {path : List UInt8} (ip : Nat)
    (enough : path.length < fuel)
    : namexLoop parent fuel path ip = walk parent (components path) ip := by
  induction fuel generalizing path ip with
  | zero => cases enough
  | succ fuel ih =>
    rw [namexLoop]
    cases taken : skipelem path with
    | none => rw [skipelem_eq_none taken, walk]
    | some result =>
      obtain ⟨rest, name⟩ := result
      obtain ⟨split, shorter, first⟩ := skipelem_eq_some taken
      have tail : namexLoop parent fuel rest = walk parent (components rest) :=
        funext fun next => ih next (by omega)
      simp only [split, walk, components_eq_nil_iff first]
      exact tail ▸ rfl

section Descent

variable {nodes : Nat → Node}

/-- `namei` follows the components. -/
theorem resolve_eq_descend (names : List (List UInt8)) (ip : Nat)
    : (resolve false nodes names ip).map Prod.fst = descend nodes ip names := by
  induction names generalizing ip with
  | nil => rfl
  | cons name rest ih =>
    rw [resolve, descend, List.foldlM_cons, child]
    by_cases directory : (nodes ip).type = tDir
    · rw [if_neg (not_not.mpr directory), if_neg (by simp), if_pos directory]
      cases (nodes ip).lookup name with
      | none => rfl
      | some next => exact ih next
    · rw [if_pos directory, if_neg directory]
      rfl

/-- The first of several components. -/
theorem descendParent_cons (ip : Nat) (name : List UInt8) {rest : List (List UInt8)}
    (more : rest ≠ [])
    : descendParent nodes ip (name :: rest)
      = (child nodes ip name).bind fun next => descendParent nodes next rest := by
  obtain ⟨second, rest, rfl⟩ := List.exists_cons_of_ne_nil more
  simp only [descendParent, descend, List.getLast?_cons_cons, List.dropLast_cons_cons,
    List.foldlM_cons]
  cases child nodes ip name with
  | none => cases (second :: rest).getLast? <;> rfl
  | some next => rfl

/-- `nameiparent` follows all components but the last. -/
theorem resolve_eq_descendParent (names : List (List UInt8)) (ip : Nat)
    : resolve true nodes names ip = descendParent nodes ip names := by
  induction names generalizing ip with
  | nil => rfl
  | cons name rest ih =>
    rw [resolve]
    by_cases last : rest = []
    · subst last
      by_cases directory : (nodes ip).type = tDir <;>
        simp [descendParent, descend, directory]
    · rw [descendParent_cons ip name last, if_neg (c := _ ∧ _) (fun both => last both.2), child]
      by_cases directory : (nodes ip).type = tDir
      · rw [if_neg (not_not.mpr directory), if_pos directory]
        cases (nodes ip).lookup name with
        | none => rfl
        | some next => exact ih next
      · rw [if_pos directory, if_neg directory]
        rfl

end Descent

section Locks

variable {s s' : State}

theorem startInode_unlocked {cwd r : Nat} {path : List UInt8} (wf : s.Wf)
    (current : 0 < s.refs cwd) (unlocked : s.Unlocked)
    (ran : Returns (startInode cwd path) s r s')
    : s'.Unlocked := by
  intro x
  rcases returns_ite.mp ran with ⟨_, ran⟩ | ⟨_, ran⟩
  · rw [(iget_returns wf.quiet wf.quiet.sound.layout.root ran).2.locked_gain]
    exact unlocked x
  · rw [(idup_returns wf.quiet current ran).2.locked_gain]
    exact unlocked x

end Locks

/-! The calls return. -/

/-- The files are a directory tree: directories consist of whole entries, and every inode that a
call can get hold of is allocated and has links, or is in use by somebody else.
-/
structure State.Tree (s : State) : Prop where
  wf : s.Wf
  linked : s.Linked
  whole
    : ∀ dp, (s.node dp).type = tDir
      → (s.node dp).contents.length = direntSize * (s.node dp).entryCount
  allocated : ∀ x, s.Known x → (s.node x).type ≠ 0

/-- A call that started in `s` has one reference of its own, to `ip`, and no lock. -/
structure Walking (s : State) (ip : Nat) (m : State) : Prop where
  wf : m.Wf
  node : m.node = s.node
  refs : ∀ x, m.refs x = s.refs x + hit ip x
  unlocked : m.Unlocked
  inUse : m.inUse = s.inUse + if s.refs ip = 0 then 1 else 0
  known : s.Known ip

section Completes

variable {s s' m : State} {ip : Nat}
variable {u : Unit} {parent : Bool} {cwd : Nat} {path : List UInt8} {r : Option (Nat × List UInt8)}

section

variable (tree : s.Tree)
include tree

/-- The references of the call are never the last ones to an inode without links. -/
theorem State.Tree.not_frees (node : m.node = s.node) (known : s.Known ip)
    (held : s.refs ip < m.refs ip)
    : ¬m.Frees ip := by
  rintro ⟨_, unlinked, last⟩
  rw [node] at unlinked
  have last : m.refs ip = 1 := last
  have used := tree.linked.guarded ip known (tree.allocated ip known) unlinked
  omega

/-- `iput` of a reference of the call. -/
theorem State.Tree.iput_completes (wf : m.Wf) (node : m.node = s.node) (known : s.Known ip)
    (held : s.refs ip < m.refs ip) (unlocked : m.Unlocked)
    : Completes (iput ip) m :=
  Fs.iput_completes (unlocked ip) (wf.quiet.kept_of_not_frees (Nat.zero_lt_of_lt held)
    (tree.not_frees node known held))

/-- `iunlockput` of a reference of the call. -/
theorem State.Tree.iunlockput_completes (wf : m.Wf) (node : m.node = s.node) (known : s.Known ip)
    (held : s.refs ip < m.refs ip) (only : m.OnlyLocked ip)
    : Completes (iunlockput ip) m := by
  refine (iunlock_completes (Nat.zero_lt_of_lt held) only.locked).bind fun _ n released => ?_
  obtain ⟨passing, refs, node', _⟩ := iunlock_passing (fun _ => 0) wf released
  exact tree.iput_completes passing.wf (node'.trans node) known (by rwa [refs])
    (only.iunlock wf.quiet released)

/-- What `iunlockput` of a reference of the call leaves. -/
theorem State.Tree.iunlockput_returns (wf : m.Wf) (node : m.node = s.node) (known : s.Known ip)
    (held : s.refs ip < m.refs ip) (ran : Returns (iunlockput ip) m u s')
    : s'.node = s.node ∧ s'.inUse = if m.refs ip = 1 then m.inUse - 1 else m.inUse := by
  obtain ⟨_, n, released, put⟩ := returns_bind.mp ran
  obtain ⟨passing, refs, node', _⟩ := iunlock_passing (fun _ => 0) wf released
  have held' : s.refs ip < n.refs ip := by rwa [refs]
  have keeps := tree.not_frees (node'.trans node) known held'
  have cached : 0 < n.refs ip := Nat.zero_lt_of_lt held'
  have same : n.inUse = m.inUse := by
    rw [iunlock_kept released]
    rfl
  constructor
  · rw [(iput_returns passing.wf.quiet cached put).node, State.nodesAfterPut, if_neg keeps,
      node', node]
  · have counted := (iput_kept (passing.wf.quiet.kept_of_not_frees cached keeps) put).2
    change s'.inUse = if n.refs ip = 1 then n.inUse - 1 else n.inUse at counted
    rw [counted, refs, same]

/-- One round: the directory is looked up under its lock and put. -/
theorem Walking.descends {name : List UInt8} {n next last : State} {k : Nat}
    (walking : Walking s ip m) (locked : Returns (ilock ip) m () n)
    (directory : (n.node ip).type = tDir) (inside : k < (n.node ip).entryCount)
    (found : ((n.node ip).entry k).Matches name)
    (got
      : Returns (iget ((n.node ip).entry k).inum.toNat) n ((n.node ip).entry k).inum.toNat next)
    (put : Returns (iunlockput ip) next u last)
    : Walking s ((n.node ip).entry k).inum.toNat last := by
  obtain ⟨passing, refs, _, node, _⟩ := ilock_passing (fun _ => 0) walking.wf locked
  have leads := (iget_returns passing.wf.quiet (passing.wf.inRange ip directory k inside) got).2
  have counted := iget_inUse got
  have known : s.Known ((n.node ip).entry k).inum.toNat := by
    refine .inr (.inr ?_)
    rw [← walking.node, ← node]
    exact ⟨ip, k, directory, inside, found.1, rfl⟩
  generalize ((n.node ip).entry k).inum.toNat = target at *
  have gained : ∀ x, next.refs x = s.refs x + hit target x + hit ip x := by
    intro x
    rw [leads.refs, refs_gain, refs, walking.refs, Nat.add_right_comm]
  have wf : next.Wf := leads.wf passing.wf.inRange
  have node' : next.node = s.node := leads.node.trans (node.trans walking.node)
  have only := walking.unlocked.ilock walking.wf.quiet locked
  have only' := only.congr fun x => leads.locked_gain (x := x)
  have held : s.refs ip < next.refs ip := by
    rw [gained, hit_self]
    omega
  have ⟨(passing' : Passing (fun _ => 0) next last), refs'⟩ :=
    iunlockput_passing wf gained (fun _ => Nat.zero_le _) put
  obtain ⟨node'', inUse⟩ := tree.iunlockput_returns wf node' walking.known held put
  refine
    { wf := passing'.wf
      node := node''
      refs := refs'
      unlocked := only'.iunlockput wf.quiet (Nat.zero_lt_of_lt held) put
      inUse := ?_
      known := known }
  · change next.inUse = n.inUse + if n.refs target = 0 then 1 else 0 at counted
    rw [inUse, counted, (ilock_kept locked).2, walking.inUse, gained, hit_self, refs, walking.refs]
    rcases eq_or_ne target ip with rfl | ne
    · rw [hit_self]
      simp
    · have apart : hit ip target = 0 := if_neg ne
      have apart' : hit target ip = 0 := if_neg ne.symm
      rw [apart, apart']
      split <;> simp_all

/-- The walk returns if the cache has room for two more inodes. -/
theorem walk_completes {names : List (List UInt8)} (room : s.inUse + 2 ≤ ninode)
    (walking : Walking s ip m)
    : Completes (walk parent names ip) m := by
  induction names generalizing m ip with
  | nil =>
    refine .ite (fun _ => ?_) fun _ => completes_pure ..
    have held : s.refs ip < m.refs ip := by simp [walking.refs]
    exact (tree.iput_completes walking.wf walking.node walking.known held
      walking.unlocked).bind_pure
  | cons name names ih =>
    have held : s.refs ip < m.refs ip := by simp [walking.refs]
    have allocated : (m.dinode ip).type ≠ 0 := by
      intro free
      have used := tree.allocated ip walking.known
      rw [← walking.node, State.node, State.nodeOf, if_neg fun both => both.2 free] at used
      exact used rfl
    refine (ilock_completes (Nat.zero_lt_of_lt held) (walking.unlocked ip) allocated).bind
      fun _ n locked => ?_
    obtain ⟨passing, refs, loaded, node, _⟩ := ilock_passing (fun _ => 0) walking.wf locked
    have only := walking.unlocked.ilock walking.wf.quiet locked
    have node' : n.node = s.node := node.trans walking.node
    have held' : s.refs ip < n.refs ip := by rwa [refs]
    have put := tree.iunlockput_completes passing.wf node' walking.known held' only
    have type := (passing.wf.quiet.shows loaded).copy_fields.1
    refine completes_getInode (.ite (fun _ => put.bind_pure)
      fun directory => .ite (fun _ => ?_) fun _ => ?_)
    · exact (iunlock_completes (Nat.zero_lt_of_lt held') only.locked).bind_pure
    · have directory : (n.node ip).type = tDir := by rwa [type, not_not] at directory
      have spare : n.inUse < ninode := by
        have counted := walking.inUse
        rw [← (ilock_kept locked).2] at counted
        split at counted <;> omega
      have whole := tree.whole ip (node' ▸ directory)
      rw [← node'] at whole
      refine (dirlookup_completes (passing.wf.quiet.shows loaded) directory whole
        fun _ _ => .inr spare).bind fun found next looked => ?_
      obtain ⟨_, result⟩ := dirlookup_returns (passing.wf.quiet.shows loaded) looked
      rcases result with ⟨rfl, rfl, _⟩ | ⟨k, inside, matched, _, rfl, got⟩
      · exact put.bind_pure
      · have leads := (iget_returns passing.wf.quiet
          (passing.wf.inRange ip directory k inside) got).2
        have still : s.refs ip < next.refs ip := by
          rw [leads.refs, refs_gain]
          omega
        refine (tree.iunlockput_completes (leads.wf passing.wf.inRange)
          (leads.node.trans node') walking.known still
          (only.congr fun _ => leads.locked_gain)).bind
          fun _ last put => ih ?_
        exact walking.descends tree locked directory inside matched got put

theorem Walking.startInode {r : Nat} (current : 0 < s.refs cwd) (unlocked : s.Unlocked)
    (ran : Returns (startInode cwd path) s r m)
    : Walking s r m := by
  obtain ⟨rfl, passing, node, refs⟩ :=
    startInode_passing s.refs tree.wf (fun _ => le_rfl) current ran
  refine ⟨passing.wf, node, refs, startInode_unlocked tree.wf current unlocked ran, ?_, ?_⟩
  · unfold startOf
    rcases returns_ite.mp ran with ⟨absolute, ran⟩ | ⟨relative, ran⟩
    · rw [if_pos absolute]
      exact iget_inUse ran
    · rw [if_neg relative, if_neg (Nat.ne_of_gt current)]
      have ran := returns_getInode_bind.mp ran
      have ran := returns_setInode_bind.mp ran
      obtain ⟨_, rfl⟩ := returns_pure.mp ran
      rfl
  · unfold startOf
    split
    · exact .inr (.inl rfl)
    · exact .inl current

theorem namex_completes (current : 0 < s.refs cwd) (unlocked : s.Unlocked)
    (room : s.inUse + 2 ≤ ninode)
    : Completes (namex cwd path parent) s := by
  have started : Completes (Fs.startInode cwd path) s := by
    refine .ite (fun _ => iget_completes (.inr (by omega))) fun _ => ?_
    exact completes_getInode ((completes_setInode ..).bind_pure)
  exact started.bind fun ip m ran =>
    walk_completes tree room (.startInode tree current unlocked ran)

theorem namex_unlocked (current : 0 < s.refs cwd) (unlocked : s.Unlocked)
    (ran : Returns (namex cwd path parent) s r s')
    : s'.Unlocked := by
  obtain ⟨ip, m, started, walked⟩ := returns_bind.mp ran
  have walking := Walking.startInode tree current unlocked started
  exact (walk_returns walking.wf walking.refs (fun _ => le_rfl) walked).2.2.2.2 walking.unlocked

end

/-- What a lookup leaves: one reference, to its result, and no lock. -/
structure LookedUp (s : State) (result : Option Nat) (s' : State) : Prop where
  node : s'.node = s.node
  refs : ∀ x, s'.refs x = s.refs x + hitSome result x
  unlocked : s'.Unlocked

theorem namex_lookedUp (tree : s.Tree) (current : 0 < s.refs cwd) (unlocked : s.Unlocked)
    (ran : Returns (namex cwd path parent) s r s')
    : r = resolve parent s.node (components path) (startOf cwd path)
      ∧ LookedUp s (r.map Prod.fst) s' := by
  obtain ⟨passing, refs, _, resolved⟩ :=
    namex_returns s.refs tree.wf (fun _ => le_rfl) current ran
  have same := (passing.unchanged tree.linked.guarded).node
  rw [elements_eq_components le_rfl] at resolved
  exact ⟨resolved same, same, refs, namex_unlocked tree current unlocked ran⟩

/-- Path resolution is lookup, component by component. -/
theorem path_resolution {cwd : Nat} (tree : s.Tree) (current : 0 < s.refs cwd)
    (unlocked : s.Unlocked) (path : List UInt8)
    : (∀ fuel, path.length ≤ fuel → elements fuel path = components path)
      ∧ (∀ parent fuel ip, path.length < fuel
        → namexLoop parent fuel path ip = walk parent (components path) ip)
      ∧ (∀ r s', Returns (namei cwd path) s r s'
        → r = descend s.node (startOf cwd path) (components path) ∧ LookedUp s r s')
      ∧ (∀ r s', Returns (nameiparent cwd path) s r s'
        → r = descendParent s.node (startOf cwd path) (components path)
          ∧ LookedUp s (r.map Prod.fst) s')
      ∧ (s.inUse + 2 ≤ ninode
        → Completes (namei cwd path) s ∧ Completes (nameiparent cwd path) s) := by
  refine ⟨fun fuel enough => elements_eq_components enough,
    fun parent fuel ip enough => namexLoop_eq_walk ip enough, fun r s' ran => ?_,
    fun r s' ran => ?_, fun room => ⟨?_, namex_completes tree current unlocked room⟩⟩
  · obtain ⟨found, walked, rfl⟩ := returns_bind_pure.mp ran
    obtain ⟨rfl, left⟩ := namex_lookedUp tree current unlocked walked
    exact ⟨resolve_eq_descend .., left⟩
  · obtain ⟨rfl, left⟩ := namex_lookedUp tree current unlocked ran
    exact ⟨resolve_eq_descendParent .., left⟩
  · exact (namex_completes tree current unlocked room).bind_pure

end Completes

theorem emptyImage_tree : emptyImage.Tree := by
  have outside : ∀ x, ¬x < 4 → emptyImage.node x = .free := by
    intro x outside
    rw [State.node, State.nodeOf, if_neg fun both => outside both.1]
  have isRoot : ∀ dp, (emptyImage.node dp).type = tDir → dp = rootino := by
    intro dp directory
    by_cases inside : dp < 4
    · have only : ∀ x, x < 4 → (emptyImage.node x).type = tDir → x = rootino := by decide +kernel
      exact only dp inside directory
    · rw [outside dp inside] at directory
      exact absurd directory (by decide)
  have used : (emptyImage.node rootino).type ≠ 0 := by decide +kernel
  refine ⟨boot_wf emptyImage_wellFormed, emptyImage_linked, fun dp directory => ?_, ?_⟩
  · rw [isRoot dp directory]
    decide +kernel
  · rintro x (held | rfl | ⟨dp, k, directory, inside, _, rfl⟩)
    · have root : x = rootino := by
        by_contra other
        simp [State.refs, State.flags, emptyImage, boot, other] at held
      rwa [root]
    · exact used
    · rw [isRoot dp directory] at inside ⊢
      have entries : ∀ j, j < (emptyImage.node rootino).entryCount
          → ((emptyImage.node rootino).entry j).inum.toNat = rootino := by decide +kernel
      rwa [entries k inside]

/-- In an empty root, `/.//..` is the root. -/
theorem path_resolution_root
    : ∃ s', Returns (namei rootino [47, 46, 47, 47, 46, 46]) emptyImage (some rootino) s'
      ∧ LookedUp emptyImage (some rootino) s' := by
  have current : 0 < emptyImage.refs rootino := by decide +kernel
  obtain ⟨_, _, namei, _, completes⟩ := path_resolution emptyImage_tree current (fun _ => rfl)
    [47, 46, 47, 47, 46, 46]
  obtain ⟨r, s', ran⟩ := (completes (by decide +kernel)).1
  obtain ⟨result, left⟩ := namei r s' ran
  have root : descend emptyImage.node (startOf rootino [47, 46, 47, 47, 46, 46])
      (components [47, 46, 47, 47, 46, 46]) = some rootino := by decide +kernel
  rw [root] at result
  exact ⟨s', result ▸ ran, result ▸ left⟩

end Xv6.Fs
