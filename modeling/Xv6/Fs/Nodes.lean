import Xv6.Fs.Freeing
import Xv6.Lib.Records

/-! Files as their users see them, and what each operation on inodes does to them.
Between operations the cached inodes agree with the disk; `Leads` states the effect of an
operation on the files and on the inode cache.
-/

namespace Xv6.Fs

open Lib
open Function (update update_self update_of_ne update_idem update_eq_self)

/-- What an inode says, without the location of its blocks. -/
@[ext] structure Node where
  type : Int16
  major : Int16
  minor : Int16
  nlink : Int16
  contents : List UInt8
  deriving DecidableEq

/-- A free inode. -/
def Node.free : Node where
  type := 0
  major := 0
  minor := 0
  nlink := 0
  contents := []

/-- The file in inode `inum` of `table`. -/
def State.nodeOf (s : State) (table : Nat → Dinode) (inum : Nat) : Node :=
  if inum < s.sb.ninodes ∧ (table inum).type ≠ 0 then
    { type := (table inum).type
      major := (table inum).major
      minor := (table inum).minor
      nlink := (table inum).nlink
      contents := (List.range (table inum).size.toNat).map (s.byte table inum) }
  else .free

/-- The file in inode `inum` on disk. -/
def State.node (s : State) (inum : Nat) : Node :=
  s.nodeOf s.dinode inum

/-- The bookkeeping fields of an entry of the inode cache. -/
@[ext] structure Flags where
  ref : Nat
  locked : Bool
  valid : Bool
  deriving DecidableEq

def State.flags (s : State) (inum : Nat) : Flags where
  ref := (s.icache inum).ref
  locked := (s.icache inum).locked
  valid := (s.icache inum).valid

/-- The image is sound and every inode in use is cached as it is on disk. -/
structure State.Quiet (s : State) : Prop where
  sound : s.Sound s.dinode
  inside : ∀ inum, 0 < (s.flags inum).ref → inum < s.sb.ninodes
  cached
    : ∀ inum, 0 < (s.flags inum).ref → (s.flags inum).valid = true
      → (s.icache inum).copy = s.dinode inum ∧ (s.dinode inum).type ≠ 0

/-- An operation ends quietly with these files and this bookkeeping. -/
structure Leads (s : State) (nodes : Nat → Node) (flags : Nat → Flags) (s' : State)
    : Prop where
  quiet : s'.Quiet
  sb : s'.sb = s.sb
  node : s'.node = nodes
  flags : s'.flags = flags

section Bytes

variable {s s' : State} {t t' : Nat → Dinode} {ip : Nat}
variable {inum x : Nat}

theorem State.Sound.present (sound : s.Sound t) (inside : inum < s.sb.ninodes)
    (used : (t inum).type ≠ 0) (below : x < (t inum).size.toNat)
    : s.Present t inum x := by
  apply sound.covered inum inside used
  simp only [bsize]
  omega

/-- Bytes are read through the places and the data blocks. -/
theorem State.Sound.byte_congr (sound : s.Sound t)
    (held : ∀ place, s'.held t' place = s.held t place)
    (data : ∀ c, s.sb.firstData ≤ c → s'.disk c = s.disk c) (present : s.Present t inum x)
    : s'.byte t' inum x = s.byte t inum x := by
  have block : s'.fileBlock t' inum (x / bsize) = s.fileBlock t inum (x / bsize) := by
    simp only [State.fileBlock, held]
  rw [State.byte, block, data _ (sound.fileBlock_marked present).1, State.byte]

/-- A file is unchanged when its inode is, up to addresses, and its bytes are. -/
theorem State.nodeOf_congr (sb : s'.sb = s.sb)
    (fields
      : inum < s.sb.ninodes
        → t' inum = { t inum with addrs := (t' inum).addrs })
    (bytes
      : inum < s.sb.ninodes → (t inum).type ≠ 0 → ∀ x, x < (t inum).size.toNat
        → s'.byte t' inum x = s.byte t inum x)
    : s'.nodeOf t' inum = s.nodeOf t inum := by
  unfold State.nodeOf
  rw [sb]
  by_cases inside : inum < s.sb.ninodes
  · have fields := fields inside
    have type : (t' inum).type = (t inum).type := by rw [fields]
    have size : (t' inum).size = (t inum).size := by rw [fields]
    rw [type, size]
    split
    · rename_i allocated
      have contents := List.map_congr_left
        (fun x member => bytes inside allocated.2 x (List.mem_range.mp member))
      rw [contents, fields]
    · rfl
  · simp [inside]

theorem State.nodeOf_of_allocated (inside : ip < s.sb.ninodes) (used : (t ip).type ≠ 0)
    : s.nodeOf t ip =
      { type := (t ip).type
        major := (t ip).major
        minor := (t ip).minor
        nlink := (t ip).nlink
        contents := (List.range (t ip).size.toNat).map (s.byte t ip) } :=
  if_pos ⟨inside, used⟩

theorem State.node_type (s : State) (inside : inum < s.sb.ninodes)
    : (s.node inum).type = (s.dinode inum).type := by
  unfold State.node State.nodeOf
  split
  · rfl
  · rename_i free
    have zero : (s.dinode inum).type = 0 := by
      by_contra used
      exact free ⟨inside, used⟩
    exact zero.symm

end Bytes

/-- Inode `ip` is in use and has been read from disk. -/
structure State.Loaded (s : State) (ip : Nat) : Prop where
  ref : 0 < (s.flags ip).ref
  valid : (s.flags ip).valid = true

/-- The image is sound and the cached inode `ip` is the one on disk, which is allocated. -/
structure State.Shows (s : State) (ip : Nat) : Prop where
  sound : s.Sound s.dinode
  inside : ip < s.sb.ninodes
  copy : (s.icache ip).copy = s.dinode ip
  used : (s.dinode ip).type ≠ 0

/-- An operation changed the file in inode `ip` only, in the cache and on disk. -/
structure Stored (s : State) (ip : Nat) (nodes : Nat → Node) (s' : State) : Prop where
  shows : s'.Shows ip
  sb : s'.sb = s.sb
  node : s'.node = nodes
  flags : s'.flags = s.flags
  dinode : ∀ inum, inum < s.sb.ninodes → inum ≠ ip → s'.dinode inum = s.dinode inum
  others : ∀ inum, inum ≠ ip → s'.icache inum = s.icache inum
  inUse : s'.inUse = s.inUse

section Cache

variable {s s' : State} {ip : Nat}
variable {m : State} {d : Dinode} {v : Unit}

theorem State.Quiet.shows (quiet : s.Quiet) (loaded : s.Loaded ip) : s.Shows ip where
  sound := quiet.sound
  inside := quiet.inside ip loaded.ref
  copy := (quiet.cached ip loaded.ref loaded.valid).1
  used := (quiet.cached ip loaded.ref loaded.valid).2

theorem State.Quiet.copy (quiet : s.Quiet) (loaded : s.Loaded ip)
    : (s.icache ip).copy = s.dinode ip :=
  (quiet.shows loaded).copy

theorem State.Quiet.used (quiet : s.Quiet) (loaded : s.Loaded ip) : (s.dinode ip).type ≠ 0 :=
  (quiet.shows loaded).used

/-- A change of one loaded file leaves the others cached as they are on disk. -/
theorem Stored.leads {nodes : Nat → Node} (stored : Stored s ip nodes s') (quiet : s.Quiet)
    : Leads s nodes s.flags s' := by
  refine ⟨⟨stored.shows.sound, ?_, ?_⟩, stored.sb, stored.node, stored.flags⟩
  · rw [stored.flags, stored.sb]
    exact quiet.inside
  · intro inum
    rw [stored.flags]
    intro positive valid
    rcases eq_or_ne inum ip with rfl | ne
    · exact ⟨stored.shows.copy, stored.shows.used⟩
    · rw [stored.others inum ne, stored.dinode inum (quiet.inside inum positive) ne]
      exact quiet.cached inum positive valid

theorem State.Shows.opened (shown : s.Shows ip) : s.Opened s.dinode ip :=
  { shown.sound with inside := shown.inside, used := shown.used, copy := shown.copy }

theorem State.Shows.node_eq (shown : s.Shows ip)
    : s.node ip =
      { type := (s.dinode ip).type
        major := (s.dinode ip).major
        minor := (s.dinode ip).minor
        nlink := (s.dinode ip).nlink
        contents := (List.range (s.dinode ip).size.toNat).map (s.byte s.dinode ip) } :=
  State.nodeOf_of_allocated shown.inside shown.used

/-- The cached fields of a loaded inode are those of its file. -/
theorem State.Shows.copy_fields (shown : s.Shows ip)
    : (s.icache ip).copy.type = (s.node ip).type ∧ (s.icache ip).copy.nlink = (s.node ip).nlink
      ∧ (s.icache ip).copy.size.toNat = (s.node ip).contents.length := by
  rw [shown.copy, shown.node_eq]
  simp

@[simp] theorem State.setInode_dinode (s : State) (ip : Nat) (entry : Inode)
    : (s.setInode ip entry).dinode = s.dinode := rfl

@[simp] theorem State.setInode_node (s : State) (ip : Nat) (entry : Inode)
    : (s.setInode ip entry).node = s.node := rfl

@[simp] theorem State.setInode_sb (s : State) (ip : Nat) (entry : Inode)
    : (s.setInode ip entry).sb = s.sb := rfl

@[simp] theorem State.setInode_icache_same (s : State) (ip : Nat) (entry : Inode)
    : (s.setInode ip entry).icache ip = entry :=
  update_self ..

theorem State.setInode_icache_ne {inum : Nat} (ne : inum ≠ ip) (entry : Inode)
    : (s.setInode ip entry).icache inum = s.icache inum :=
  update_of_ne ne ..

theorem State.setInode_flags (s : State) (ip : Nat) (entry : Inode)
    : (s.setInode ip entry).flags
      = update s.flags ip ⟨entry.ref, entry.locked, entry.valid⟩ := by
  funext inum
  rcases eq_or_ne inum ip with rfl | ne
  · simp [State.flags, State.setInode]
  · simp [State.flags, State.setInode, update_of_ne ne]

/-- The cache may change in any way that keeps loaded entries equal to the disk. -/
theorem State.Quiet.setInode (quiet : s.Quiet) {entry : Inode}
    (inside : 0 < entry.ref → ip < s.sb.ninodes)
    (copy
      : 0 < entry.ref → entry.valid = true
        → entry.copy = s.dinode ip ∧ (s.dinode ip).type ≠ 0)
    : (s.setInode ip entry).Quiet where
  sound := { quiet.sound with }
  inside := by
    intro inum
    rw [State.setInode_flags]
    rcases eq_or_ne inum ip with rfl | ne
    · rw [update_self]
      exact inside
    · rw [update_of_ne ne]
      exact quiet.inside inum
  cached := by
    intro inum
    rw [State.setInode_flags]
    rcases eq_or_ne inum ip with rfl | ne
    · rw [update_self, State.setInode_icache_same]
      exact copy
    · rw [update_of_ne ne, State.setInode_icache_ne ne]
      exact quiet.cached inum

/-- Storing inode `ip` of the table `t` on disk, which has the others already, makes `t` the
table on disk.
-/
theorem State.Sound.stored {t : Nat → Dinode} (sound : m.Sound t) (inside : ip < m.sb.ninodes)
    (value : t ip = d) (others : ∀ inum, inum < m.sb.ninodes → inum ≠ ip → m.dinode inum = t inum)
    (written
      : m.write (iblock m.sb ip) (setDinode (m.disk (iblock m.sb ip)) (ip % ipb) d) = s')
    : s'.Sound s'.dinode ∧ (∀ inum, inum < m.sb.ninodes → s'.dinode inum = t inum)
      ∧ s'.node = m.nodeOf t := by
  have table : ∀ inum, inum < m.sb.ninodes → s'.dinode inum = t inum := by
    intro inum within
    rw [← written, State.dinode_setDinode]
    rcases eq_or_ne inum ip with rfl | ne
    · rw [update_self, value]
    · rw [update_of_ne ne]
      exact others inum within ne
  generalize setDinode (m.disk (iblock m.sb ip)) (ip % ipb) d = blk at written
  subst written
  have held : ∀ place, (m.write (iblock m.sb ip) blk).held
      (m.write (iblock m.sb ip) blk).dinode place = m.held t place := fun place =>
    (State.held_table_congr (s := m.write (iblock m.sb ip) blk) table place).trans
      (State.held_setDinode sound.layout sound inside blk place)
  refine ⟨(sound.write_inode inside blk).table_congr table, table, funext fun inum => ?_⟩
  refine State.nodeOf_congr rfl (fun within => by rw [table inum within]) ?_
  intro within usedHere x below
  refine sound.byte_congr held (fun c low => State.write_disk_ne ?_)
    (sound.present within usedHere below)
  have region := sound.layout.iblock_region inside
  have start := sound.layout.bmapstart_lt
  omega

/-- `iupdate` of a cached inode `d` with which the image is sound: the disk has it too. -/
theorem iupdate_returns (shown : s.Shows ip) (sb : m.sb = s.sb) (flags : m.flags = s.flags)
    (others : ∀ inum, inum ≠ ip → m.icache inum = s.icache inum) (inUse : m.inUse = s.inUse)
    (copy : (m.icache ip).copy = d)
    (dinode : ∀ inum, inum < s.sb.ninodes → m.dinode inum = s.dinode inum)
    (sound : m.Sound (update s.dinode ip d)) (used : d.type ≠ 0)
    (ran : Returns (iupdate ip) m v s')
    : Stored s ip (m.nodeOf (update s.dinode ip d)) s' := by
  have ran := returns_get_bind.mp ran
  have written := returns_logWrite.mp ran
  have cache : s'.icache = m.icache := written ▸ rfl
  have sb' : s'.sb = s.sb := written ▸ sb
  have flags' : s'.flags = s.flags := written ▸ flags
  have inUse' : s'.inUse = s.inUse := written ▸ inUse
  rw [copy] at written
  obtain ⟨stored, table, node⟩ := sound.stored (sb ▸ shown.inside)
    (update_self ..) (fun inum within ne => by
      rw [update_of_ne ne]
      exact dinode inum (sb ▸ within))
    written
  have here : s'.dinode ip = d := by rw [table ip (sb ▸ shown.inside), update_self]
  refine ⟨⟨stored, sb' ▸ shown.inside, ?_, ?_⟩, sb', node, flags', ?_, ?_, inUse'⟩
  · rw [cache, copy, here]
  · rw [here]
    exact used
  · intro inum within ne
    rw [table inum (sb ▸ within), update_of_ne ne]
  · intro inum ne
    rw [cache, others inum ne]

/-- `ip->field = value; iupdate(ip)` for fields other than type, size and addresses. -/
theorem store_leads {edit : Dinode → Dinode} {u : Unit} (quiet : s.Quiet) (loaded : s.Loaded ip)
    (fields
      : ∀ d, edit d = { d with
          major := (edit d).major, minor := (edit d).minor, nlink := (edit d).nlink })
    (assigned : Returns (assign ip edit) s u m) (updated : Returns (iupdate ip) m v s')
    : Leads s
        (update s.node ip
          { s.node ip with
            major := (edit (s.dinode ip)).major
            minor := (edit (s.dinode ip)).minor
            nlink := (edit (s.dinode ip)).nlink })
        s.flags s' := by
  have inside := quiet.inside ip loaded.ref
  have used := quiet.used loaded
  cases returns_assign.mp assigned
  rw [quiet.copy loaded] at updated
  generalize value : edit (s.dinode ip) = d at *
  have fields : d = { s.dinode ip with major := d.major, minor := d.minor, nlink := d.nlink } := by
    rw [← value]
    exact fields _
  have type : d.type = (s.dinode ip).type := by rw [fields]
  have size : d.size = (s.dinode ip).size := by rw [fields]
  have addrs : d.addrs = (s.dinode ip).addrs := by rw [fields]
  have flags : (s.setInode ip { s.icache ip with copy := d }).flags = s.flags := by
    rw [State.setInode_flags]
    exact update_eq_self ip s.flags
  have stored := quiet.sound.set_fields (d := d) used (type ▸ used) addrs (fun bn below =>
    quiet.sound.covered ip inside used bn (size ▸ below))
  have leads : Leads s (s.nodeOf (update s.dinode ip d)) s.flags s' :=
    (iupdate_returns (m := s.setInode ip { s.icache ip with copy := d })
      (quiet.shows loaded) rfl flags (fun inum ne => State.setInode_icache_ne ne _) rfl
      (congrArg Inode.copy (State.setInode_icache_same ..)) (fun _ _ => rfl)
      { stored with } (type ▸ used) updated).leads quiet
  refine { leads with node := leads.node.trans (funext fun inum => ?_) }
  have bytes : ∀ x, s.Present s.dinode inum x
      → s.byte (update s.dinode ip d) inum x = s.byte s.dinode inum x :=
    fun x present => quiet.sound.byte_congr (State.held_set_fields used (type ▸ used) addrs)
      (fun _ _ => rfl) present
  rcases eq_or_ne inum ip with rfl | ne
  · rw [update_self, State.nodeOf_of_allocated inside (by simpa [type] using used),
      (quiet.shows loaded).node_eq]
    simp only [update_self, type, size, Node.mk.injEq, true_and]
    apply List.map_congr_left
    intro x member
    exact bytes x (quiet.sound.present inside used (List.mem_range.mp member))
  · rw [update_of_ne ne]
    refine State.nodeOf_congr rfl (fun _ => by rw [update_of_ne ne]) ?_
    exact fun within usedHere x below => bytes x (quiet.sound.present within usedHere below)

end Cache

section Transfer

variable {s s' m : State} {ip off : Nat} {d d' : Dinode} {src : List UInt8}
variable {r : Option Nat}

section

variable (wrote : Wrote s s.dinode ip d m src off)
include wrote

/-- Every byte below the new end of the file has a block. -/
theorem Wrote.present (shown : s.Shows ip) {x : Nat}
    (below : x < max (s.dinode ip).size.toNat (off + src.length))
    (low : off ≤ (s.dinode ip).size.toNat)
    : m.Present (update s.dinode ip d) ip x := by
  have before : x < (s.dinode ip).size.toNat → s.Present s.dinode ip x :=
    shown.sound.present shown.inside shown.used
  by_cases middle : off ≤ x ∧ x < off + src.length
  · have written := (wrote.written (x - off) (by omega)).1
    rwa [Nat.add_sub_cancel' middle.1] at written
  · exact (wrote.kept ip x (before (by omega)) fun _ => by omega).1

/-- The bytes of a file after a write, byte by byte. -/
theorem Wrote.contents (shown : s.Shows ip) (low : off ≤ (s.dinode ip).size.toNat)
    : (List.range (max (s.dinode ip).size.toNat (off + src.length))).map
        (m.byte (update s.dinode ip d) ip)
      = splice ((List.range (s.dinode ip).size.toNat).map (s.byte s.dinode ip)) off src := by
  have inside := shown.inside
  have used := shown.used
  apply List.ext_getElem
  · simp only [splice, List.length_map, List.length_range, List.length_append, List.length_take,
      List.length_drop]
    omega
  · intro x within _
    simp only [List.length_map, List.length_range] at within
    simp only [List.getElem_map, List.getElem_range, splice, List.append_assoc]
    -- before, inside and after the written range
    rcases Nat.lt_or_ge x off with before | after
    · have kept := wrote.kept ip x (shown.sound.present inside used (by omega)) fun _ => .inl before
      rw [kept.2, List.getElem_append_left (by simp; omega)]
      simp
    rcases Nat.lt_or_ge x (off + src.length) with middle | beyond
    · have written := wrote.written (x - off) (by omega)
      have position : off + (x - off) = x := by omega
      rw [position] at written
      rw [written.2, List.getElem_append_right (by simp; omega),
        List.getElem_append_left (by simp; omega)]
      simp [Nat.min_eq_left low]
    · have kept := wrote.kept ip x (shown.sound.present inside used (by omega)) fun _ => .inr beyond
      rw [kept.2, List.getElem_append_right (by simp; omega),
        List.getElem_append_right (by simp; omega)]
      simp only [List.length_take, List.length_map, List.length_range, List.getElem_drop,
        List.getElem_map, List.getElem_range]
      congr 1
      omega

/-- A write changes the contents of one file. -/
theorem Wrote.nodeOf (shown : s.Shows ip) (low : off ≤ (s.dinode ip).size.toNat)
    (fields : d' = { d with size := d'.size })
    (size : d'.size.toNat = max (s.dinode ip).size.toNat (off + src.length))
    : m.nodeOf (update s.dinode ip d')
      = update s.node ip
          { s.node ip with contents := splice (s.node ip).contents off src } := by
  have inside := shown.inside
  have used := shown.used
  have original : d.type = (s.dinode ip).type := by rw [wrote.fields]
  have type : d'.type = d.type := by rw [fields]
  have typed : (update s.dinode ip d ip).type ≠ 0 := by
    rw [update_self, original]
    exact used
  have held : ∀ place, m.held (update s.dinode ip d') place
      = m.held (update s.dinode ip d) place := by
    intro place
    rw [← update_idem (a := ip) d d' s.dinode]
    refine State.held_set_fields typed (type ▸ original ▸ used) ?_ place
    rw [update_self, fields]
  have bytes : ∀ inum x, m.Present (update s.dinode ip d) inum x
      → m.byte (update s.dinode ip d') inum x
        = m.byte (update s.dinode ip d) inum x :=
    fun inum x present => wrote.sound.byte_congr held (fun _ _ => rfl) present
  funext inum
  rcases eq_or_ne inum ip with rfl | ne
  · have inside' : inum < m.sb.ninodes := wrote.sb ▸ inside
    rw [update_self, shown.node_eq, State.nodeOf_of_allocated inside' (by
      rw [update_self, type, original]
      exact used)]
    simp only [update_self, size]
    rw [← wrote.contents shown low]
    refine Node.ext ?_ ?_ ?_ ?_ ?_
    · exact type.trans original
    · rw [fields, wrote.fields]
    · rw [fields, wrote.fields]
    · rw [fields, wrote.fields]
    · apply List.map_congr_left
      intro x member
      exact bytes inum x (wrote.present shown (List.mem_range.mp member) low)
  · rw [update_of_ne ne]
    refine State.nodeOf_congr wrote.sb (fun _ => by rw [update_of_ne ne]) ?_
    intro within usedHere x below
    obtain ⟨present, same⟩ := wrote.kept inum x (shown.sound.present within usedHere below)
      fun here => absurd here ne
    exact (bytes inum x present).trans same

theorem Wrote.flags : m.flags = s.flags := by
  funext inum
  rcases eq_or_ne inum ip with rfl | ne
  · simp [State.flags, wrote.entry]
  · simp [State.flags, wrote.icache, update_of_ne ne]

end

/-- A write within the file leaves the inode as it is. -/
theorem Wrote.stored_within (wrote : Wrote s s.dinode ip (s.dinode ip) m src off)
    (shown : s.Shows ip) (within : off + src.length ≤ (s.dinode ip).size.toNat)
    : Stored s ip
        (update s.node ip
          { s.node ip with contents := splice (s.node ip).contents off src })
        m := by
  have sound := wrote.sound
  have node : m.nodeOf (update s.dinode ip (s.dinode ip)) = _ :=
    wrote.nodeOf shown (by omega) rfl (by omega)
  have cache := wrote.icache
  rw [← shown.copy, update_eq_self] at cache
  rw [update_eq_self] at sound node
  have table : ∀ inum, inum < m.sb.ninodes → m.dinode inum = s.dinode inum :=
    fun inum below => wrote.dinode inum (wrote.sb ▸ below)
  have here : m.dinode ip = s.dinode ip := wrote.dinode ip shown.inside
  refine ⟨⟨sound.table_congr table, wrote.sb ▸ shown.inside, ?_, ?_⟩, wrote.sb, ?_, wrote.flags,
    fun inum below _ => wrote.dinode inum below, fun inum _ => by rw [cache], wrote.inUse⟩
  · rw [cache, here, shown.copy]
  · rw [here]
    exact shown.used
  · rw [← node]
    funext inum
    refine State.nodeOf_congr rfl (fun below => by rw [table inum below]) ?_
    intro below used x small
    exact sound.byte_congr (State.held_table_congr table) (fun _ _ => rfl)
      (sound.present below used small)

/-- A write past the end of the file, followed by the update of its size. -/
theorem Wrote.stored_grown {u v : Unit} {next : State}
    (wrote : Wrote s s.dinode ip d m src off) (shown : s.Shows ip)
    (low : off ≤ (s.dinode ip).size.toNat) (small : off + src.length < 2 ^ 32)
    (grows : (s.dinode ip).size.toNat < off + src.length)
    (assigned
      : Returns (assign ip fun d => { d with size := UInt32.ofNat (off + src.length) }) m u next)
    (updated : Returns (iupdate ip) next v s')
    : Stored s ip
        (update s.node ip
          { s.node ip with contents := splice (s.node ip).contents off src })
        s' := by
  cases returns_assign.mp assigned
  rw [wrote.entry] at updated
  generalize grown : ({ d with size := UInt32.ofNat (off + src.length) } : Dinode) = d' at updated
  have fields : d' = { d with size := d'.size } := by rw [← grown]
  have size : d'.size.toNat = off + src.length := by
    rw [← grown]
    exact Nat.mod_eq_of_lt small
  have original : d.type = (s.dinode ip).type := by rw [wrote.fields]
  have type : d'.type = d.type := by rw [fields]
  have typed : (update s.dinode ip d ip).type ≠ 0 := by
    rw [update_self, original]
    exact shown.used
  have sound := wrote.sound.set_fields (d := d') typed (by
      rw [type, original]
      exact shown.used) (by rw [update_self, fields]) (by
    intro bn below
    have present := wrote.present shown (x := bn * bsize) (by omega) low
    rwa [State.Present, Nat.mul_div_cancel bn (by decide)] at present)
  rw [update_idem] at sound
  have flags : (m.setInode ip { s.icache ip with copy := d' }).flags = s.flags := by
    rw [State.setInode_flags, wrote.flags]
    exact update_eq_self ip s.flags
  have stored : Stored s ip (m.nodeOf (update s.dinode ip d')) s' :=
    iupdate_returns (m := m.setInode ip { s.icache ip with copy := d' }) shown wrote.sb
      flags (fun inum ne => by
        rw [State.setInode_icache_ne ne, wrote.icache, update_of_ne ne])
      wrote.inUse (congrArg Inode.copy (State.setInode_icache_same ..)) wrote.dinode
      { sound with } (type ▸ original ▸ shown.used) updated
  rw [wrote.nodeOf shown low fields (by omega)] at stored
  exact stored

/-- `writei` on a file or directory, with its three tests as one. -/
theorem returns_writei (shown : s.Shows ip) (data : (s.node ip).type ≠ tDev)
    : Returns (writei ip src off) s r s'
      ↔ Returns
          (if (s.node ip).contents.length < off ∨ maxfile * bsize < off + src.length then pure none
            else do
              let last ← writeLoop ip src.length src off
              growTo ip src.length last
              pure (some src.length))
          s r s' := by
  obtain ⟨type, _, size⟩ := shown.copy_fields
  refine returns_get_bind.trans ?_
  simp only [type, data, if_false, size]
  by_cases large : maxfile * bsize < off + src.length
  · simp [large]
  · have small : ¬off + src.length ≥ 2 ^ 32 := by
      simp only [maxfile, bsize] at large
      omega
    simp only [large, small, if_false]

/-- `writei` on a file or directory fails, or replaces bytes of its contents. -/
theorem writei_returns (shown : s.Shows ip) (data : (s.node ip).type ≠ tDev)
    (ran : Returns (writei ip src off) s r s')
    : (r = none ∧ s' = s)
      ∨ r = some src.length ∧ off ≤ (s.node ip).contents.length
        ∧ Stored s ip
            (update s.node ip
              { s.node ip with contents := splice (s.node ip).contents off src })
            s' := by
  obtain ⟨_, _, size⟩ := shown.copy_fields
  rcases returns_ite.mp ((returns_writei shown data).mp ran) with ⟨_, ran⟩ | ⟨fits, ran⟩
  · obtain ⟨rfl, rfl⟩ := returns_pure.mp ran
    exact .inl ⟨rfl, rfl⟩
  obtain ⟨last, m, loop, ran⟩ := returns_bind.mp ran
  obtain ⟨d, wrote, rfl, unchanged⟩ := writeLoop_returns (Nat.le_refl _) shown.opened loop
  obtain ⟨_, grown, rfl⟩ := returns_bind_pure.mp ran
  simp only [maxfile, bsize] at fits
  rw [shown.copy] at size
  rw [← size] at fits ⊢
  refine .inr ⟨rfl, by omega, ?_⟩
  have grown := returns_getInode_bind.mp grown
  have kept : (m.icache ip).copy.size = (s.dinode ip).size := by
    rw [wrote.entry, wrote.fields]
  rw [kept] at grown
  rcases returns_ite.mp grown with ⟨grows, grown⟩ | ⟨stays, grown⟩
  · obtain ⟨_, next, assigned, updated⟩ := returns_bind.mp grown
    exact wrote.stored_grown shown (by omega) (by omega) grows.2 assigned updated
  · obtain ⟨_, rfl⟩ := returns_pure.mp grown
    have same : d = s.dinode ip := unchanged fun k below =>
      shown.sound.present shown.inside shown.used (by omega)
    subst same
    exact wrote.stored_within shown (by omega)

theorem writei_leads (quiet : s.Quiet) (loaded : s.Loaded ip) (data : (s.node ip).type ≠ tDev)
    (ran : Returns (writei ip src off) s r s')
    : (r = none ∧ s' = s)
      ∨ r = some src.length ∧ off ≤ (s.node ip).contents.length
        ∧ Leads s
            (update s.node ip
              { s.node ip with contents := splice (s.node ip).contents off src })
            s.flags s' := by
  rcases writei_returns (quiet.shows loaded) data ran with failed | ⟨written, low, stored⟩
  · exact .inl failed
  · exact .inr ⟨written, low, stored.leads quiet⟩

/-- `writei` does not fail at an offset inside the file, or at its end, and within the largest
size.
-/
theorem writei_written (shown : s.Shows ip) (data : (s.node ip).type ≠ tDev)
    (low : off ≤ (s.node ip).contents.length) (fits : off + src.length ≤ maxfile * bsize)
    (ran : Returns (writei ip src off) s r s')
    : r = some src.length := by
  rcases returns_ite.mp ((returns_writei shown data).mp ran) with ⟨outside, _⟩ | ⟨_, ran⟩
  · omega
  obtain ⟨_, _, _, ran⟩ := returns_bind.mp ran
  obtain ⟨_, _, _, ran⟩ := returns_bind.mp ran
  exact (returns_pure.mp ran).1.symm

/-- `writei` fails outside the file and beyond the largest size, and then does nothing. -/
theorem writei_fails (shown : s.Shows ip) (data : (s.node ip).type ≠ tDev)
    (outside : (s.node ip).contents.length < off ∨ maxfile * bsize < off + src.length)
    : Returns (writei ip src off) s none s := by
  rw [returns_writei shown data, if_pos outside]
  exact returns_pure.mpr ⟨rfl, rfl⟩

/-- `readi` on a file or directory returns bytes of its contents, or fails. -/
theorem readi_reads (off n : Nat) (shown : s.Shows ip) (data : (s.node ip).type ≠ tDev)
    : Returns (readi ip off n) s
        (if (s.node ip).contents.length < off ∨ 2 ^ 32 ≤ off + n then none
          else some (((s.node ip).contents.drop off).take n))
        s := by
  obtain ⟨type, _, size⟩ := shown.copy_fields
  refine returns_get_bind.mpr ?_
  simp only [type, data, if_false, size, ge_iff_le, gt_iff_lt]
  by_cases outside : (s.node ip).contents.length < off ∨ 2 ^ 32 ≤ off + n
  · simp only [outside, if_true]
    exact returns_pure.mpr ⟨rfl, rfl⟩
  simp only [outside, if_false]
  rw [shown.copy] at size
  have read : Returns (readLoop ip n off (min n ((s.node ip).contents.length - off))) s _ s :=
    readLoop_finds (Nat.min_le_left ..) shown.opened fun k below =>
      shown.sound.present shown.inside shown.used (by omega)
  refine read.bind (returns_pure.mpr ⟨congrArg some ?_, rfl⟩)
  rw [shown.node_eq]
  apply List.ext_getElem
  · simp
  · intro k _ _
    simp

/-- `readi` on a file or directory fails, or returns bytes of its contents. -/
theorem readi_returns {n : Nat} {r : Option (List UInt8)} (shown : s.Shows ip)
    (data : (s.node ip).type ≠ tDev)
    (ran : Returns (readi ip off n) s r s')
    : s' = s ∧ (r = none ∨ r = some (((s.node ip).contents.drop off).take n)) := by
  obtain ⟨rfl, rfl⟩ := ran.unique (readi_reads off n shown data)
  exact ⟨rfl, ite_eq_or_eq ..⟩

end Transfer

end Xv6.Fs
