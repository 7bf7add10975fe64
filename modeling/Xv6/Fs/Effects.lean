import Xv6.Fs.Calls

/-! What `create`, `sys_link` and `sys_unlink` do to the files.
Each call is a chain of edits, which change given files, and of lookups and puts, which
change none but those they free.
-/

namespace Xv6.Fs

open Lib
open Function (update update_self update_of_ne update_idem update_eq_self update_comm)

/-- The files become `nodes`; the inode cache keeps its references. -/
structure Edits (s : State) (nodes : Nat → Node) (s' : State) : Prop where
  leads : Leads s nodes s.flags s'
  inRange : InRange s.sb.ninodes nodes

/-- `k` is where `dirlink` may write: an empty entry or the end of the directory. -/
structure Node.Vacant (n : Node) (k : Nat) : Prop where
  low : direntSize * k ≤ n.contents.length
  place : k < n.entryCount ∧ (n.entry k).inum = 0 ∨ k = n.entryCount

/-- The directory with the entry that `dirlink` writes. -/
def Node.addEntry (n : Node) (k inum : Nat) (name : List UInt8) : Node :=
  n.setEntry k ⟨UInt16.ofNat inum, strncpy dirsiz name⟩

/-- The entry that `sys_unlink` writes. -/
def Dirent.empty : Dirent where
  inum := 0
  name := List.replicate dirsiz 0

section Edits

variable {s s' m : State} {nodes : Nat → Node} {ip dp : Nat}
variable {edit : Dinode → Dinode} {u v : Unit} {name : List UInt8} {inum : Nat}

theorem Edits.wf (edits : Edits s nodes s') : s'.Wf :=
  edits.leads.wf edits.inRange

theorem Edits.node (edits : Edits s nodes s') : s'.node = nodes :=
  edits.leads.node

theorem Edits.refs (edits : Edits s nodes s') (x : Nat) : s'.refs x = s.refs x :=
  edits.leads.refs x

theorem Edits.loaded {x : Nat} (edits : Edits s nodes s') (loaded : s.Loaded x)
    : s'.Loaded x :=
  ⟨by rw [edits.leads.flags]; exact loaded.ref, by rw [edits.leads.flags]; exact loaded.valid⟩

theorem Edits.trans {last : State} {nodes' : Nat → Node} (first : Edits s nodes m)
    (second : Edits m nodes' last)
    : Edits s nodes' last where
  leads := by
    have leads := first.leads.trans second.leads
    rwa [first.leads.flags] at leads
  inRange := by
    rw [← first.leads.sb]
    exact second.inRange

theorem Edits.refl (wf : s.Wf) : Edits s s.node s :=
  ⟨⟨wf.quiet, rfl, rfl, rfl⟩, wf.inRange⟩

/-- Changing the counters of an inode edits no entry. -/
theorem store_edits (wf : s.Wf) (loaded : s.Loaded ip)
    (fields
      : ∀ d, edit d = { d with
          major := (edit d).major, minor := (edit d).minor, nlink := (edit d).nlink })
    (assigned : Returns (assign ip edit) s u m) (updated : Returns (iupdate ip) m v s')
    : Edits s
        (update s.node ip
          { s.node ip with
            major := (edit (s.dinode ip)).major
            minor := (edit (s.dinode ip)).minor
            nlink := (edit (s.dinode ip)).nlink })
        s' :=
  ⟨store_leads wf.quiet loaded fields assigned updated, wf.inRange.set (wf.inRange ip)⟩

/-- `ip->nlink = f(ip->nlink); iupdate(ip)`. -/
theorem links_edits (f : Int16 → Int16) (wf : s.Wf) (loaded : s.Loaded ip)
    (assigned : Returns (assign ip fun d => { d with nlink := f d.nlink }) s u m)
    (updated : Returns (iupdate ip) m v s')
    : Edits s (update s.node ip { s.node ip with nlink := f (s.node ip).nlink }) s' := by
  have edits := store_edits wf loaded (fun _ => rfl) assigned updated
  have fields : (s.dinode ip).major = (s.node ip).major ∧ (s.dinode ip).minor = (s.node ip).minor
      ∧ (s.dinode ip).nlink = (s.node ip).nlink := by
    rw [(wf.quiet.shows loaded).node_eq]
    exact ⟨rfl, rfl, rfl⟩
  simpa only [fields] using edits

/-- Storing an inode leaves the bitmap alone. -/
theorem links_bitmap (wf : s.Wf) (loaded : s.Loaded ip)
    (assigned : Returns (assign ip edit) s u m) (updated : Returns (iupdate ip) m v s')
    : s'.bitmap = s.bitmap := by
  obtain rfl := returns_assign.mp assigned
  have updated := returns_get_bind.mp updated
  obtain rfl := returns_logWrite.mp updated
  exact funext fun b => State.bitmap_write_ne
    (wf.quiet.sound.layout.iblock_ne_bblock (wf.quiet.inside ip loaded.ref)).symm

/-- `dirlink` that succeeds adds one entry. -/
theorem dirlink_edits (wf : s.Wf) (loaded : s.Loaded dp) (inside : inum < s.sb.ninodes)
    (ran : Returns (dirlink dp name inum) s true s')
    : (s.node dp).type = tDir ∧ (s.node dp).Lacks name
      ∧ ∃ k, (s.node dp).Vacant k
        ∧ Edits s (update s.node dp ((s.node dp).addEntry k inum name)) s' := by
  obtain ⟨directory, ⟨impossible, _⟩ | ⟨_, lacks, k, low, place, stored⟩⟩ :=
    dirlink_returns (wf.quiet.shows loaded) ran
  · cases impossible
  · have place := place.imp_right And.left
    refine ⟨directory, lacks, k, ⟨low, place⟩, stored.leads wf.quiet, ?_⟩
    refine wf.inRange.setEntry (length_strncpy ..) low (by tauto) ?_
    rw [UInt16.toNat_ofNat']
    exact Nat.lt_of_le_of_lt (Nat.mod_le ..) inside

/-- `dirlink` that finds the name takes and drops a reference. -/
theorem dirlink_passing (base : Nat → Nat) (wf : s.Wf) (loaded : s.Loaded dp)
    (owned : ∀ x, base x ≤ s.refs x) (ran : Returns (dirlink dp name inum) s false s')
    : Passing base s s' ∧ ∀ x, s'.refs x = s.refs x := by
  obtain ⟨directory, ⟨_, k, m, inside, found, got, put⟩ | ⟨impossible, _⟩⟩ :=
    dirlink_returns (wf.quiet.shows loaded) ran
  · generalize target : ((s.node dp).entry k).inum.toNat = x at got put
    have bound : x < s.sb.ninodes := target ▸ wf.inRange dp directory k inside
    have known : s.Known x := .inr (.inr ⟨dp, k, directory, inside, found.1, target⟩)
    obtain ⟨passing, refs⟩ := iget_passing wf bound (owned x) known got
    obtain ⟨passing', refs'⟩ := iput_passing passing.wf refs owned put
    exact ⟨passing.trans passing', refs'⟩
  · cases impossible

end Edits

/-- `n'` is `n` with the entries `.` and `..` that `create` writes. -/
def Node.WithDots (n : Node) (ip dp : Nat) (n' : Node) : Prop :=
  ∃ j k, n.Vacant j ∧ (n.addEntry j ip dot).Vacant k
    ∧ n' = (n.addEntry j ip dot).addEntry k dp dotdot

/-- A new inode before `create` writes entries into it. -/
def Node.made (type major minor : Int16) : Node where
  type := type
  major := major
  minor := minor
  nlink := 1
  contents := []

/-- The directory `dp` after `create` made an inode of the type in it. -/
def Node.withChild (n : Node) (type : Int16) (k ip : Nat) (name : List UInt8) : Node :=
  { n with nlink := if type = tDir then n.nlink + 1 else n.nlink }.addEntry k ip name

/-- `create` has made the inode `ip` and its entry `name` in `dp`. -/
structure Created (s : State) (dp : Nat) (name : List UInt8) (type major minor : Int16)
    (ip : Nat) (m : State) : Prop where
  unused : (s.node ip).type = 0
  positive : 0 < ip
  inside : ip < s.sb.ninodes
  lacks : (s.node dp).Lacks name
  wf : m.Wf
  sb : m.sb = s.sb
  refs : ∀ x, m.refs x = s.refs x + hit ip x
  loaded : m.Loaded ip
  kept : ∀ x, s.Loaded x → m.Loaded x
  node
    : ∃ k child, (s.node dp).Vacant k
      ∧ (type = tDir → (Node.made type major minor).WithDots ip dp child)
      ∧ (type ≠ tDir → child = Node.made type major minor)
      ∧ m.node
        = update (update s.node ip child) dp
            ((s.node dp).withChild type k ip name)

section Create

variable {s s' m : State} {base : Nat → Nat} {dp ip : Nat} {name : List UInt8}
variable {type major minor : Int16}

theorem createDots_edits {u : Unit} (wf : s.Wf) (parent : s.Loaded dp) (child : s.Loaded ip)
    (ne : dp ≠ ip) (ran : Returns (createDots type dp ip) s u s')
    : ∃ n, (type = tDir → (s.node ip).WithDots ip dp n)
      ∧ (type ≠ tDir → n = s.node ip)
      ∧ Edits s
          (update
            (update s.node ip n) dp
            { s.node dp with
              nlink := if type = tDir then (s.node dp).nlink + 1 else (s.node dp).nlink })
          s' := by
  rcases returns_ite.mp ran with ⟨directory, ran⟩ | ⟨other, ran⟩
  · obtain ⟨_, m₁, assigned, ran⟩ := returns_bind.mp ran
    obtain ⟨_, m₂, updated, ran⟩ := returns_bind.mp ran
    have counted := links_edits (· + 1) wf parent assigned updated
    obtain ⟨first, m₃, linked, ran⟩ := returns_bind.mp ran
    obtain ⟨rfl, ran⟩ := returns_assert.mp ran
    obtain ⟨second, m₄, linked', ran⟩ := returns_bind.mp ran
    obtain ⟨rfl, ran⟩ := returns_assert.mp ran
    obtain ⟨_, rfl⟩ := returns_pure.mp ran
    have sb₂ : m₂.sb = s.sb := counted.leads.sb
    obtain ⟨_, _, j, vacant, dots⟩ := dirlink_edits counted.wf (counted.loaded child)
      (sb₂ ▸ wf.quiet.inside ip child.ref) linked
    have sb₃ : m₃.sb = s.sb := dots.leads.sb.trans sb₂
    obtain ⟨_, _, k, vacant', dots'⟩ := dirlink_edits dots.wf
      (dots.loaded (counted.loaded child)) (sb₃ ▸ wf.quiet.inside dp parent.ref) linked'
    have same : m₂.node ip = s.node ip := by
      rw [counted.node, update_of_ne ne.symm]
    rw [dots.node, update_self, same] at vacant'
    rw [same] at vacant
    refine ⟨_, fun _ => ⟨j, k, vacant, vacant', rfl⟩, absurd directory, ?_⟩
    have edits := (counted.trans dots).trans dots'
    rw [dots.node, update_self, update_idem, same, counted.node, update_comm ne] at edits
    simpa only [directory, if_true] using edits
  · obtain ⟨_, rfl⟩ := returns_pure.mp ran
    refine ⟨_, fun directory => absurd directory other, fun _ => rfl, ?_⟩
    simpa only [other, if_false, update_eq_self] using Edits.refl wf

/-- `create` makes an inode and enters it; what is left is the put of the directory. -/
theorem createIn_returns (wf : s.Wf) (parent : s.Loaded dp)
    (directory : (s.node dp).type = tDir) (typed : type ≠ 0)
    (ran : Returns (createIn dp name type major minor) s ip s')
    : ∃ m, Created s dp name type major minor ip m ∧ Returns (iunlockput dp) m () s' := by
  obtain ⟨inum, m₁, allocated, ran⟩ := returns_bind.mp ran
  obtain ⟨positive, inside, unused, leads⟩ := ialloc_returns wf.quiet typed allocated
  have ne : dp ≠ inum := by
    rintro rfl
    rw [directory] at unused
    cases unused
  have wf₁ : m₁.Wf := leads.wf (wf.inRange.set fun _ k below => by
    simp [Node.blank, Node.entryCount] at below)
  obtain ⟨_, m₂, locked, ran⟩ := returns_bind.mp ran
  obtain ⟨held, refs, loaded, node, kept⟩ := ilock_passing (fun _ => 0) wf₁ locked
  obtain ⟨_, m₃, assigned, ran⟩ := returns_bind.mp ran
  obtain ⟨_, m₄, updated, ran⟩ := returns_bind.mp ran
  have named := store_edits held.wf loaded (fun _ => rfl) assigned updated
  obtain ⟨_, m₅, dotted, rest⟩ := returns_bind.mp ran
  have parent₄ : m₄.Loaded dp := named.loaded (kept dp (loaded_gain leads parent))
  obtain ⟨n, isDir, notDir, dots⟩ := createDots_edits named.wf parent₄ (named.loaded loaded) ne dotted
  obtain ⟨linked, m₆, entered, ran⟩ := returns_bind.mp rest
  obtain ⟨rfl, ran⟩ := returns_assert.mp ran
  obtain ⟨_, put, rfl⟩ := returns_bind_pure.mp ran
  have sb₂ : m₂.sb = s.sb := held.sb.trans leads.sb
  have sb₅ : m₅.sb = s.sb := dots.leads.sb.trans (named.leads.sb.trans sb₂)
  obtain ⟨_, lacks, k, vacant, entry⟩ := dirlink_edits dots.wf (dots.loaded parent₄)
    (sb₅ ▸ inside) entered
  have edits := (named.trans dots).trans entry
  have made : m₄.node inum = Node.made type major minor := by
    rw [named.node, update_self, node, leads.node, update_self]
    rfl
  have before : m₄.node dp = s.node dp := by
    rw [named.node, update_of_ne ne, node, leads.node, update_of_ne ne]
  have dir : m₅.node dp = { s.node dp with
      nlink := if type = tDir then (s.node dp).nlink + 1 else (s.node dp).nlink } := by
    rw [dots.node, update_self, before]
  rw [dir] at lacks vacant
  refine ⟨m₆, ?_, put⟩
  exact {
    unused := unused
    positive := positive
    inside := inside
    lacks := lacks
    wf := edits.wf
    sb := edits.leads.sb.trans sb₂
    refs := fun x => by rw [edits.refs, refs, leads.refs, refs_gain]
    loaded := edits.loaded loaded
    kept := fun x there => edits.loaded (kept x (loaded_gain leads there))
    node := by
      refine ⟨k, n, ⟨vacant.low, vacant.place⟩, made ▸ isDir, made ▸ notDir, ?_⟩
      rw [edits.node, dir, dots.node, update_idem, named.node, node, leads.node]
      simp only [update_idem]
      rfl }

/-- The part of `create` for a name that is there: the puts of the directory and, unless a
file was asked for and found, of the inode.
-/
theorem createOver_returns {r : Option Nat} {f : Nat → Nat} (wf : s.Wf)
    (counts : ∀ x, s.refs x = f x + hit ip x + hit dp x) (owned : ∀ x, base x ≤ f x)
    (ran : Returns (createOver dp ip type) s r s')
    : Passing base s s' ∧ ∀ x, s'.refs x = f x + hitSome r x := by
  obtain ⟨_, m, put, rest⟩ := returns_bind.mp ran
  clear ran
  obtain ⟨passing, refs⟩ := iunlockput_passing wf counts
    (fun x => Nat.le_add_right_of_le (owned x)) put
  obtain ⟨_, m', locked, ran⟩ := returns_bind.mp rest
  obtain ⟨passing', refs', _⟩ := ilock_passing base passing.wf locked
  have counts' : ∀ x, m'.refs x = f x + hit ip x := fun x => by rw [refs', refs]
  have ran := returns_getInode_bind.mp ran
  rcases returns_ite.mp ran with ⟨_, ran⟩ | ⟨_, ran⟩
  · obtain ⟨rfl, rfl⟩ := returns_pure.mp ran
    exact ⟨passing.trans passing', fun x => by rw [counts', hitSome_some]⟩
  · obtain ⟨_, put', rfl⟩ := returns_bind_pure.mp ran
    obtain ⟨passing'', refs''⟩ := iunlockput_passing passing'.wf counts' owned put'
    exact ⟨(passing.trans passing').trans passing'', refs''⟩

/-- `create` leaves the files alone, or makes one inode and its entry. -/
theorem create_returns {cwd : Nat} {path : List UInt8} {r : Option Nat} (base : Nat → Nat)
    (wf : s.Wf) (owned : ∀ x, base x ≤ s.refs x) (current : 0 < s.refs cwd)
    (typed : type ≠ 0) (ran : Returns (create cwd path type major minor) s r s')
    : (∀ x, s'.refs x = s.refs x + hitSome r x)
      ∧ (Passing base s s'
          ∧ (s'.node = s.node
            → ∀ dp name,
                resolve true s.node (elements path.length path) (startOf cwd path)
                  = some (dp, name)
                → (s.node dp).lookup name ≠ none)
        ∨ ∃ m m' dp name ip, r = some ip ∧ Passing base s m
          ∧ (m.node = s.node
            → resolve true s.node (elements path.length path) (startOf cwd path)
              = some (dp, name))
          ∧ m.Loaded dp ∧ (m.node dp).type = tDir ∧ (∀ x, base x ≤ m.refs x)
          ∧ Created m dp name type major minor ip m'
          ∧ Passing (fun x => base x + hit ip x) m' s') := by
  obtain ⟨found, m₁, walked, rest⟩ := returns_bind.mp ran
  clear ran
  obtain ⟨passing, refs, parents, resolved⟩ := namex_returns base wf owned current walked
  rcases found with _ | ⟨dp, name⟩
  · obtain ⟨rfl, rfl⟩ := returns_pure.mp rest
    refine ⟨refs, .inl ⟨passing, fun same dp name leads => ?_⟩⟩
    exact nomatch (resolved same).trans leads
  · obtain ⟨_, directory⟩ := parents dp name rfl rfl
    obtain ⟨_, m₂, locked, rest⟩ := returns_bind.mp rest
    obtain ⟨before, counts, loaded, node₂, start⟩ := passing.ilock refs locked
    have owned₂ : ∀ x, base x ≤ m₂.refs x := fun x => by
      rw [counts]
      exact Nat.le_add_right_of_le (owned x)
    obtain ⟨present, m₃, looked, making⟩ := returns_bind.mp rest
    clear rest
    obtain ⟨_, lookup, ⟨rfl, rfl, _⟩ | ⟨k, _, _, rfl, passing₃, _, refs₃, _⟩⟩ :=
      dirlookup_passing base before.wf loaded owned₂ looked
    · obtain ⟨ip, made, rfl⟩ := returns_bind_pure.mp making
      obtain ⟨m₅, created, put⟩ := createIn_returns before.wf loaded (by rwa [node₂]) typed made
      have counts₅ : ∀ x, m₅.refs x = s.refs x + hit ip x + hit dp x := fun x => by
        rw [created.refs, counts, Nat.add_right_comm]
      obtain ⟨passing₄, refs₄⟩ := iunlockput_passing created.wf counts₅
        (fun x => Nat.add_le_add_right (owned x) _) put
      exact ⟨fun x => by rw [refs₄, hitSome_some], .inr ⟨m₃, m₅, dp, name, ip, rfl, before,
        fun same => (resolved (start same)).symm, loaded, by rwa [node₂], owned₂, created,
        passing₄⟩⟩
    · generalize ((m₂.node dp).entry k).inum.toNat = ip at *
      have counts₃ : ∀ x, m₃.refs x = s.refs x + hit ip x + hit dp x := fun x => by
        rw [refs₃, counts, Nat.add_right_comm]
      obtain ⟨passing₄, refs₄⟩ := createOver_returns passing₃.wf counts₃ owned making
      have after := passing₃.trans passing₄
      refine ⟨refs₄, .inl ⟨before.trans after, fun same dp' name' leads => ?_⟩⟩
      have start := start (before.node_eq_of_trans after same)
      cases (resolved start).trans leads
      rw [← start, ← node₂, ← lookup]
      exact nofun

end Create

/-- The link count of `ip` is lowered again, as at the label `bad` of `sys_link`. -/
def LinkUndone (base : Nat → Nat) (ip : Nat) (s s' : State) : Prop :=
  ∃ m m', Passing (fun x => base x + hit ip x) s m ∧ m.Loaded ip
    ∧ Edits m
        (update m.node ip { m.node ip with nlink := (m.node ip).nlink - 1 }) m'
    ∧ m'.bitmap = m.bitmap
    ∧ Passing base m' s'

/-- The directory of the new path gets an entry for `ip`. -/
def LinkMade (base : Nat → Nat) (cwd ip : Nat) (path : List UInt8) (s s' : State) : Prop :=
  ∃ m m' dp name k, Passing (fun x => base x + hit ip x) s m
    ∧ (m.node = s.node
      → resolve true s.node (elements path.length path) (startOf cwd path) = some (dp, name))
    ∧ m.Loaded dp ∧ (m.node dp).type = tDir ∧ (m.node dp).Lacks name ∧ (m.node dp).Vacant k
    ∧ Edits m (update m.node dp ((m.node dp).addEntry k ip name)) m'
    ∧ Passing base m' s'

section Link

variable {s s' : State} {base : Nat → Nat} {cwd ip : Nat} {path : List UInt8} {r : Bool}

section

variable {f : Nat → Nat} (wf : s.Wf) (counts : ∀ x, s.refs x = f x + hit ip x)
  (owned : ∀ x, base x ≤ f x)
include wf counts owned

theorem linkBad_returns (ran : Returns (linkBad ip) s r s')
    : r = false ∧ LinkUndone base ip s s' ∧ ∀ x, s'.refs x = f x := by
  obtain ⟨_, m, locked, ran⟩ := returns_bind.mp ran
  obtain ⟨passing, refs, loaded, _⟩ := ilock_passing (fun x => base x + hit ip x) wf locked
  obtain ⟨_, _, assigned, ran⟩ := returns_bind.mp ran
  obtain ⟨_, m', updated, ran⟩ := returns_bind.mp ran
  have edits := links_edits (· - 1) passing.wf loaded assigned updated
  obtain ⟨_, put, rfl⟩ := returns_bind_pure.mp ran
  have counts' : ∀ x, m'.refs x = f x + hit ip x := fun x => by rw [edits.refs, refs, counts]
  obtain ⟨passing', refs'⟩ := iunlockput_passing edits.wf counts' owned put
  have bitmap : m'.bitmap = m.bitmap := links_bitmap passing.wf loaded assigned updated
  exact ⟨rfl, ⟨m, m', passing, loaded, edits, bitmap, passing'⟩, refs'⟩

/-- The second half of `sys_link` enters `ip`, or takes the link back. -/
theorem linkInto_returns (current : 0 < s.refs cwd) (ran : Returns (linkInto cwd ip path) s r s')
    : (r = false ∧ LinkUndone base ip s s' ∨ r = true ∧ LinkMade base cwd ip path s s')
      ∧ ∀ x, s'.refs x = f x := by
  obtain ⟨found, m₁, walked, rest⟩ := returns_bind.mp ran
  clear ran
  have held : ∀ x, base x + hit ip x ≤ s.refs x := fun x => by
    rw [counts]
    exact Nat.add_le_add_right (owned x) _
  obtain ⟨passing, refs, parents, resolved⟩ :=
    namex_returns (fun x => base x + hit ip x) wf held current walked
  rcases found with _ | ⟨dp, name⟩
  · have counts₁ : ∀ x, m₁.refs x = f x + hit ip x := fun x => (refs x).trans (counts x)
    obtain ⟨rfl, ⟨m, m', first, undone⟩, refs'⟩ := linkBad_returns passing.wf counts₁ owned rest
    exact ⟨.inl ⟨rfl, m, m', passing.trans first, undone⟩, refs'⟩
  · obtain ⟨_, m₂, locked, rest⟩ := returns_bind.mp rest
    obtain ⟨before, counts₂, loaded, _, start⟩ := passing.ilock refs locked
    obtain ⟨linked, m₃, entering, rest⟩ := returns_bind.mp rest
    obtain ⟨_, m₄, put, ending⟩ := returns_bind.mp rest
    clear rest
    cases linked with
    | true =>
      obtain ⟨_, put', rfl⟩ := returns_bind_pure.mp ending
      have inside : ip < m₂.sb.ninodes :=
        before.sb ▸ wf.quiet.inside ip (refs_pos counts)
      obtain ⟨directory, lacks, k, vacant, edits⟩ :=
        dirlink_edits before.wf loaded inside entering
      have counts₃ : ∀ x, m₃.refs x = f x + hit ip x + hit dp x := fun x => by
        rw [edits.refs, counts₂, counts]
      obtain ⟨passing₄, refs₄⟩ := iunlockput_passing edits.wf counts₃
        (fun x => Nat.le_add_right_of_le (owned x)) put
      obtain ⟨passing₅, refs₅⟩ := iput_passing passing₄.wf refs₄ owned put'
      exact ⟨.inr ⟨rfl, m₂, m₃, dp, name, k, before, fun same => (resolved (start same)).symm,
        loaded, directory, lacks, vacant, edits, passing₄.trans passing₅⟩, refs₅⟩
    | false =>
      have held₂ : ∀ x, base x + hit ip x ≤ m₂.refs x := fun x => by
        rw [counts₂]
        exact Nat.le_add_right_of_le (held x)
      obtain ⟨passing₃, refs₃⟩ := dirlink_passing _ before.wf loaded held₂ entering
      have counts₃ : ∀ x, m₃.refs x = f x + hit ip x + hit dp x := fun x => by
        rw [refs₃, counts₂, counts]
      obtain ⟨passing₄, refs₄⟩ := iunlockput_passing passing₃.wf counts₃
        (fun x => Nat.add_le_add_right (owned x) _) put
      obtain ⟨rfl, ⟨m, m', first, undone⟩, refs'⟩ :=
        linkBad_returns passing₄.wf refs₄ owned ending
      exact ⟨.inl ⟨rfl, m, m', ((before.trans passing₃).trans passing₄).trans first, undone⟩, refs'⟩

end

/-- `sys_link` leaves the files alone, or raises the link count of a file and then enters it
or takes the link back.
-/
theorem link_returns {old new : List UInt8} (base : Nat → Nat) (wf : s.Wf)
    (owned : ∀ x, base x ≤ s.refs x) (current : 0 < s.refs cwd)
    (ran : Returns (link cwd old new) s r s')
    : (∀ x, s'.refs x = s.refs x)
      ∧ (r = false ∧ Passing base s s'
        ∨ ∃ m m' m'' ip, Passing base s m
          ∧ (m.node = s.node
            → (resolve false s.node (elements old.length old) (startOf cwd old)).map Prod.fst
              = some ip)
          ∧ m.Loaded ip ∧ (m.node ip).type ≠ tDir
          ∧ Edits m
              (update m.node ip { m.node ip with nlink := (m.node ip).nlink + 1 }) m'
          ∧ m'.bitmap = m.bitmap
          ∧ Passing (fun x => base x + hit ip x) m' m'' ∧ m''.node = m'.node
          ∧ (r = false ∧ LinkUndone base ip m'' s'
            ∨ r = true ∧ LinkMade base cwd ip new m'' s')) := by
  obtain ⟨found, m₁, walked, rest⟩ := returns_bind.mp ran
  clear ran
  obtain ⟨passing, refs, resolved⟩ := namei_returns base wf owned current walked
  rcases found with _ | ip
  · obtain ⟨rfl, rfl⟩ := returns_pure.mp rest
    exact ⟨refs, .inl ⟨rfl, passing⟩⟩
  · obtain ⟨_, m₂, locked, rest⟩ := returns_bind.mp rest
    obtain ⟨before, counts, loaded, _, start⟩ := passing.ilock refs locked
    have ran := returns_getInode_bind.mp rest
    have type := (before.wf.quiet.shows loaded).copy_fields.1
    rcases returns_ite.mp ran with ⟨_, ran⟩ | ⟨other, ran⟩
    · obtain ⟨_, put, rfl⟩ := returns_bind_pure.mp ran
      obtain ⟨passing₃, refs₃⟩ := iunlockput_passing before.wf counts owned put
      exact ⟨refs₃, .inl ⟨rfl, before.trans passing₃⟩⟩
    · rw [type] at other
      obtain ⟨_, _, assigned, ran⟩ := returns_bind.mp ran
      obtain ⟨_, m₃, updated, ran⟩ := returns_bind.mp ran
      have edits := links_edits (· + 1) before.wf loaded assigned updated
      obtain ⟨_, m₄, unlocked, ending⟩ := returns_bind.mp ran
      obtain ⟨passing₄, refs₄, node₄, _⟩ :=
        iunlock_passing (fun x => base x + hit ip x) edits.wf unlocked
      have counts₄ : ∀ x, m₄.refs x = s.refs x + hit ip x := fun x => by
        rw [refs₄, edits.refs, counts]
      have current₄ : 0 < m₄.refs cwd := by
        rw [counts₄]
        omega
      obtain ⟨result, refs₅⟩ := linkInto_returns passing₄.wf counts₄ owned current₄ ending
      exact ⟨refs₅, .inr ⟨m₂, m₃, m₄, ip, before, fun same => (resolved (start same)).symm, loaded,
        other, edits, links_bitmap before.wf loaded assigned updated, passing₄, node₄, result⟩⟩

end Link

/-- The directory `dp` after `sys_unlink` cleared entry `k`, which named a file of the type. -/
def Node.withoutChild (n : Node) (type : Int16) (k : Nat) : Node :=
  { n with nlink := if type = tDir then n.nlink - 1 else n.nlink }.setEntry k .empty

/-- `sys_unlink` clears entry `k` of `dp`, puts `dp`, and lowers the link count of `ip`. -/
def EntryRemoved (base : Nat → Nat) (dp k ip : Nat) (s s' : State) : Prop :=
  ∃ m₁ m₂ m₃,
    Edits s (update s.node dp ((s.node dp).withoutChild (s.node ip).type k)) m₁
    ∧ Passing (fun x => base x + hit ip x) m₁ m₂ ∧ m₂.Loaded ip
    ∧ Edits m₂
        (update m₂.node ip { m₂.node ip with nlink := (m₂.node ip).nlink - 1 }) m₃
    ∧ Passing base m₃ s'

section Unlink

variable {s s' : State} {base f : Nat → Nat} {dp ip k : Nat} {r : Bool}

theorem removable_returns (wf : s.Wf) (loaded : s.Loaded ip)
    (ran : Returns (removable ip) s r s')
    : s' = s
      ∧ (r = true → (s.node ip).type = tDir
        → ∀ k, 2 ≤ k → k < (s.node ip).entryCount → ((s.node ip).entry k).inum = 0) := by
  have ran := returns_getInode_bind.mp ran
  rw [(wf.quiet.shows loaded).copy_fields.1] at ran
  rcases returns_ite.mp ran with ⟨directory, ran⟩ | ⟨other, ran⟩
  · obtain ⟨rfl, empty⟩ := isdirempty_returns (wf.quiet.shows loaded)
      (by rw [directory]; decide) ran
    exact ⟨rfl, fun isTrue _ => empty isTrue⟩
  · obtain ⟨rfl, rfl⟩ := returns_pure.mp ran
    exact ⟨rfl, fun _ directory => absurd directory other⟩

/-- Clearing an entry. -/
theorem clearEntry_edits {written : Option Nat} (wf : s.Wf) (loaded : s.Loaded dp)
    (directory : (s.node dp).type = tDir) (inside : k < (s.node dp).entryCount)
    (ran : Returns (writei dp (List.replicate direntSize 0) (direntSize * k)) s written s')
    (complete : written = some direntSize)
    : Edits s (update s.node dp ((s.node dp).setEntry k .empty)) s' := by
  rcases writei_leads wf.quiet loaded (by rw [directory]; decide) ran
    with ⟨rfl, _⟩ | ⟨_, low, leads⟩
  · cases complete
  · refine ⟨leads, wf.inRange.setEntry (List.length_replicate ..) low (.inl inside) ?_⟩
    exact Nat.lt_of_le_of_lt (by decide) wf.quiet.sound.layout.root

theorem dropParentLink_edits {u : Unit} (wf : s.Wf) (parent : s.Loaded dp)
    (child : s.Loaded ip) (ran : Returns (dropParentLink dp ip) s u s')
    : Edits s
        (update s.node dp
          { s.node dp with
            nlink := if (s.node ip).type = tDir then (s.node dp).nlink - 1
              else (s.node dp).nlink })
        s' := by
  have ran := returns_getInode_bind.mp ran
  rw [(wf.quiet.shows child).copy_fields.1] at ran
  rcases returns_ite.mp ran with ⟨directory, ran⟩ | ⟨other, ran⟩
  · obtain ⟨_, m, assigned, updated⟩ := returns_bind.mp ran
    simpa only [directory, if_true] using links_edits (· - 1) wf parent assigned updated
  · obtain ⟨_, rfl⟩ := returns_pure.mp ran
    simpa only [other, if_false, update_eq_self] using Edits.refl wf

theorem removeEntry_returns (wf : s.Wf) (parent : s.Loaded dp) (child : s.Loaded ip)
    (directory : (s.node dp).type = tDir) (inside : k < (s.node dp).entryCount)
    (counts : ∀ x, s.refs x = f x + hit ip x + hit dp x) (owned : ∀ x, base x ≤ f x)
    (ran : Returns (removeEntry dp ip (direntSize * k)) s r s')
    : r = true ∧ EntryRemoved base dp k ip s s' ∧ ∀ x, s'.refs x = f x := by
  obtain ⟨written, m₁, cleared, ran⟩ := returns_bind.mp ran
  obtain ⟨complete, ran⟩ := returns_assert.mp ran
  have clearing := clearEntry_edits wf parent directory inside cleared complete
  obtain ⟨_, m₂, dropped, ran⟩ := returns_bind.mp ran
  have dropping := dropParentLink_edits clearing.wf (clearing.loaded parent)
    (clearing.loaded child) dropped
  have edits := clearing.trans dropping
  have type : (m₁.node ip).type = (s.node ip).type := by
    rw [clearing.node]
    rcases eq_or_ne ip dp with rfl | ne
    · rw [update_self]
      rfl
    · rw [update_of_ne ne]
  rw [type, clearing.node, update_self, update_idem] at edits
  obtain ⟨_, m₃, put, ran⟩ := returns_bind.mp ran
  have counts₂ : ∀ x, m₂.refs x = f x + hit ip x + hit dp x := fun x => by
    rw [edits.refs, counts]
  have held : ∀ x, base x + hit ip x ≤ f x + hit ip x := fun x =>
    Nat.add_le_add_right (owned x) _
  obtain ⟨passing, refs⟩ := iunlockput_passing edits.wf counts₂ held put
  have loaded := (passing.loaded (by simp) (edits.loaded child) (by rw [refs]; exact held ip)).1
  obtain ⟨_, _, assigned, ran⟩ := returns_bind.mp ran
  obtain ⟨_, m₄, updated, ran⟩ := returns_bind.mp ran
  have lowering := links_edits (· - 1) passing.wf loaded assigned updated
  obtain ⟨_, put', rfl⟩ := returns_bind_pure.mp ran
  have counts₄ : ∀ x, m₄.refs x = f x + hit ip x := fun x => by rw [lowering.refs, refs]
  obtain ⟨passing', refs'⟩ := iunlockput_passing lowering.wf counts₄ owned put'
  exact ⟨rfl, ⟨m₂, m₃, m₄, edits, passing, loaded, lowering, passing'⟩, refs'⟩

/-- The file that an entry names, as `sys_unlink` finds it before it removes the entry. -/
structure Removable (s : State) (dp ip : Nat) : Prop where
  parent : s.Loaded dp
  child : s.Loaded ip
  linked : 1 ≤ (s.node ip).nlink
  empty
    : (s.node ip).type = tDir
      → ∀ k, 2 ≤ k → k < (s.node ip).entryCount → ((s.node ip).entry k).inum = 0

theorem unlinkEntry_returns (wf : s.Wf) (parent : s.Loaded dp)
    (directory : (s.node dp).type = tDir) (inside : k < (s.node dp).entryCount)
    (counts : ∀ x, s.refs x = f x + hit dp x + hit ip x) (owned : ∀ x, base x ≤ f x)
    (ran : Returns (unlinkEntry dp ip (direntSize * k)) s r s')
    : (∀ x, s'.refs x = f x)
      ∧ (r = false ∧ Passing base s s'
        ∨ r = true ∧ ∃ m, Passing base s m ∧ m.node = s.node ∧ Removable m dp ip
          ∧ EntryRemoved base dp k ip m s') := by
  obtain ⟨_, m, locked, rest⟩ := returns_bind.mp ran
  clear ran
  obtain ⟨passing, refs, loaded, node, kept⟩ := ilock_passing base wf locked
  have counts₁ : ∀ x, m.refs x = f x + hit dp x + hit ip x := fun x => by rw [refs, counts]
  obtain ⟨_, _, got, ran⟩ := returns_bind.mp rest
  clear rest
  obtain ⟨rfl, rfl⟩ := returns_getInode.mp got
  rw [(passing.wf.quiet.shows loaded).copy_fields.2.1] at ran
  obtain ⟨linked, ran⟩ := returns_check.mp ran
  obtain ⟨empty, m', tested, ending⟩ := returns_bind.mp ran
  clear ran
  obtain ⟨rfl, isEmpty⟩ := removable_returns passing.wf loaded tested
  rcases returns_ite.mp ending with ⟨rfl, ran⟩ | ⟨_, ran⟩
  · have swapped : ∀ x, m'.refs x = f x + hit ip x + hit dp x := fun x => by
      rw [counts₁, Nat.add_right_comm]
    obtain ⟨rfl, removed, refs'⟩ := removeEntry_returns passing.wf (kept dp parent) loaded
      (by rwa [node]) (by rwa [node]) swapped owned ran
    exact ⟨refs', .inr ⟨rfl, m', passing, node,
      ⟨kept dp parent, loaded, Int16.not_lt.mp linked, isEmpty rfl⟩, removed⟩⟩
  · obtain ⟨_, m₂, put, ran⟩ := returns_bind.mp ran
    obtain ⟨_, put', rfl⟩ := returns_bind_pure.mp ran
    obtain ⟨passing₂, refs₂⟩ := iunlockput_passing passing.wf counts₁
      (fun x => Nat.le_add_right_of_le (owned x)) put
    obtain ⟨passing₃, refs₃⟩ := iunlockput_passing passing₂.wf refs₂ owned put'
    exact ⟨refs₃, .inl ⟨rfl, (passing.trans passing₂).trans passing₃⟩⟩

/-- `sys_unlink` leaves the files alone, or removes an entry that is not `.` or `..`. -/
theorem unlink_returns {cwd : Nat} {path : List UInt8} (base : Nat → Nat) (wf : s.Wf)
    (owned : ∀ x, base x ≤ s.refs x) (current : 0 < s.refs cwd)
    (ran : Returns (unlink cwd path) s r s')
    : (∀ x, s'.refs x = s.refs x)
      ∧ (r = false ∧ Passing base s s'
        ∨ r = true ∧ ∃ m dp name k, Passing base s m
          ∧ (m.node = s.node
            → resolve true s.node (elements path.length path) (startOf cwd path)
              = some (dp, name))
          ∧ (m.node dp).type = tDir
          ∧ ¬namecmp name dot = 0 ∧ ¬namecmp name dotdot = 0
          ∧ k < (m.node dp).entryCount ∧ ((m.node dp).entry k).Matches name
          ∧ (m.node dp).lookup name = some ((m.node dp).entry k).inum.toNat
          ∧ Removable m dp ((m.node dp).entry k).inum.toNat
          ∧ EntryRemoved base dp k ((m.node dp).entry k).inum.toNat m s') := by
  obtain ⟨found, m₁, walked, rest⟩ := returns_bind.mp ran
  clear ran
  obtain ⟨passing, refs, parents, resolved⟩ := namex_returns base wf owned current walked
  rcases found with _ | ⟨dp, name⟩
  · obtain ⟨rfl, rfl⟩ := returns_pure.mp rest
    exact ⟨refs, .inl ⟨rfl, passing⟩⟩
  · obtain ⟨_, directory⟩ := parents dp name rfl rfl
    obtain ⟨_, m₂, locked, rest⟩ := returns_bind.mp rest
    obtain ⟨before, counts, loaded, node₂, start⟩ := passing.ilock refs locked
    -- every early return is one put of the directory
    have putting : ∀ {last : State}, Returns (iunlockput dp) m₂ () last
        → (∀ x, last.refs x = s.refs x) ∧ Passing base s last := by
      intro last put
      obtain ⟨passing₃, refs₃⟩ := iunlockput_passing before.wf counts owned put
      exact ⟨refs₃, before.trans passing₃⟩
    rcases returns_ite.mp rest with ⟨_, ran⟩ | ⟨ordinary, ran⟩
    · obtain ⟨_, put, rfl⟩ := returns_bind_pure.mp ran
      exact ⟨(putting put).1, .inl ⟨rfl, (putting put).2⟩⟩
    · obtain ⟨present, m₃, looked, ending⟩ := returns_bind.mp ran
      clear ran rest
      obtain ⟨_, lookup, result⟩ := dirlookup_passing base before.wf loaded
        (fun x => by rw [counts]; exact Nat.le_add_right_of_le (owned x)) looked
      rcases result with ⟨rfl, rfl, _⟩ | ⟨k, inside, found, rfl, passing₃, node₃, refs₃, kept, _⟩
      · obtain ⟨_, put, rfl⟩ := returns_bind_pure.mp ending
        exact ⟨(putting put).1, .inl ⟨rfl, (putting put).2⟩⟩
      · have directory₃ : (m₃.node dp).type = tDir := by rwa [node₃, node₂]
        rw [← node₃] at inside found lookup refs₃ ending
        have counts₃ : ∀ x, m₃.refs x
            = s.refs x + hit dp x + hit ((m₃.node dp).entry k).inum.toNat x := fun x => by
          rw [refs₃, counts]
        obtain ⟨refs₄, result⟩ := unlinkEntry_returns passing₃.wf (kept dp loaded) directory₃
          inside counts₃ owned ending
        refine ⟨refs₄, ?_⟩
        rcases result with ⟨rfl, passing₄⟩ | ⟨rfl, m, passing₄, node₄, removable, removed⟩
        · exact .inl ⟨rfl, (before.trans passing₃).trans passing₄⟩
        · have after := passing₃.trans passing₄
          rw [← node₄] at directory₃ inside found lookup removable removed
          exact .inr ⟨rfl, m, dp, name, k, before.trans after, fun same =>
              (resolved (start (before.node_eq_of_trans after same))).symm, directory₃,
            fun isDot => ordinary (.inl isDot), fun isDotdot => ordinary (.inr isDotdot),
            inside, found, lookup.symm, removable, removed⟩

end Unlink

end Xv6.Fs
