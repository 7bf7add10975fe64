import Xv6.Fs.Nodes

/-! The operations of the inode cache: `iget`, `idup`, `ilock`, `iunlock`, `iput` and
`ialloc`, as effects on files and bookkeeping.
-/

namespace Xv6.Fs

open Lib
open Function (update update_self update_of_ne update_idem update_eq_self)

/-- One more reference; an entry that had none is recycled. -/
def Flags.gain (f : Flags) : Flags :=
  if 0 < f.ref then { f with ref := f.ref + 1 } else { f with ref := 1, valid := false }

/-- `iput` would free the inode: no links and no other reference. -/
def State.Frees (s : State) (ip : Nat) : Prop :=
  (s.flags ip).valid = true ∧ (s.node ip).nlink = 0 ∧ (s.flags ip).ref = 1

instance State.decidableFrees (s : State) (ip : Nat) : Decidable (s.Frees ip) :=
  inferInstanceAs (Decidable (_ ∧ _ ∧ _))

/-- The files after `iput`. -/
def State.nodesAfterPut (s : State) (ip : Nat) : Nat → Node :=
  if s.Frees ip then update s.node ip .free else s.node

/-- The bookkeeping of an entry after `iput`. -/
def State.flagsAfterPut (s : State) (ip : Nat) : Nat → Flags :=
  update s.flags ip
    { ref := (s.flags ip).ref - 1
      locked := false
      valid := (s.flags ip).valid && !decide (s.Frees ip) }

section References

variable {s s' : State} {ip : Nat}
variable {nodes : Nat → Node} {flags : Nat → Flags} {r inum : Nat} {u : Unit}

theorem Leads.trans {nodes' : Nat → Node} {flags' : Nat → Flags} {last : State}
    (first : Leads s nodes flags s') (second : Leads s' nodes' flags' last)
    : Leads s nodes' flags' last :=
  { second with sb := second.sb.trans first.sb }

/-- The number of cache entries in use concerns `iget` only. -/
theorem Leads.setInUse (leads : Leads s nodes flags s') (n : Nat)
    : Leads s nodes flags { s' with inUse := n } :=
  ⟨⟨{ leads.quiet.sound with }, leads.quiet.inside, leads.quiet.cached⟩, leads.sb, leads.node,
    leads.flags⟩

theorem State.Quiet.leads_setInode (quiet : s.Quiet) (ip : Nat) (entry : Inode)
    (inside : 0 < entry.ref → ip < s.sb.ninodes)
    (copy
      : 0 < entry.ref → entry.valid = true
        → entry.copy = s.dinode ip ∧ (s.dinode ip).type ≠ 0)
    : Leads s s.node (update s.flags ip ⟨entry.ref, entry.locked, entry.valid⟩)
        (s.setInode ip entry) :=
  ⟨quiet.setInode inside copy, rfl, rfl, State.setInode_flags ..⟩

/-- `iget` adds a reference, or recycles an unused entry. -/
theorem iget_effect (ran : Returns (iget ip) s r s')
    : r = ip
      ∧ (0 < (s.icache ip).ref
          ∧ s' = s.setInode ip { s.icache ip with ref := (s.icache ip).ref + 1 }
        ∨ (s.icache ip).ref = 0
          ∧ s' = { s.setInode ip { s.icache ip with ref := 1, valid := false } with
                   inUse := s.inUse + 1 }) := by
  have ran := returns_get_bind.mp ran
  rcases returns_ite.mp ran with ⟨cached, ran⟩ | ⟨unused, ran⟩
  · have ran := returns_setInode_bind.mp ran
    obtain ⟨rfl, rfl⟩ := returns_pure.mp ran
    exact ⟨rfl, .inl ⟨cached, rfl⟩⟩
  · obtain ⟨_, ran⟩ := returns_assert.mp ran
    have ran := returns_modify_bind.mp (returns_setInode_bind.mp ran)
    obtain ⟨rfl, rfl⟩ := returns_pure.mp ran
    exact ⟨rfl, .inr ⟨Nat.eq_zero_of_not_pos unused, rfl⟩⟩

theorem iget_returns (quiet : s.Quiet) (inside : ip < s.sb.ninodes) (ran : Returns (iget ip) s r s')
    : r = ip ∧ Leads s s.node (update s.flags ip (s.flags ip).gain) s' := by
  obtain ⟨same, ⟨cached, rfl⟩ | ⟨unused, rfl⟩⟩ := iget_effect ran
  · have leads := quiet.leads_setInode ip
      { s.icache ip with ref := (s.icache ip).ref + 1 }
      (fun _ => inside) (fun _ => quiet.cached ip cached)
    exact ⟨same, by rwa [Flags.gain, if_pos (show 0 < (s.flags ip).ref from cached)]⟩
  · have leads := quiet.leads_setInode ip
      { s.icache ip with ref := 1, valid := false }
      (fun _ => inside) (fun _ impossible => nomatch impossible)
    refine ⟨same, Leads.setInUse ?_ _⟩
    rwa [Flags.gain, if_neg (show ¬0 < (s.flags ip).ref from Nat.not_lt.mpr unused.le)]

theorem idup_returns (quiet : s.Quiet) (cached : 0 < (s.flags ip).ref)
    (ran : Returns (idup ip) s r s')
    : r = ip ∧ Leads s s.node (update s.flags ip (s.flags ip).gain) s' := by
  have ran := returns_getInode_bind.mp ran
  obtain ⟨_, set, rfl⟩ := returns_bind_pure.mp ran
  cases returns_setInode.mp set
  refine ⟨rfl, ?_⟩
  have leads := quiet.leads_setInode ip
    { s.icache ip with ref := (s.icache ip).ref + 1 }
    (fun _ => quiet.inside ip cached) (fun _ => quiet.cached ip cached)
  rwa [Flags.gain, if_pos cached]

theorem acquiresleep_returns (ran : Returns (acquiresleep ip) s u s')
    : s' = s.setInode ip { s.icache ip with locked := true } := by
  have ran := returns_getInode_bind.mp ran
  rcases returns_ite.mp ran with ⟨_, ran⟩ | ⟨_, ran⟩
  · exact (returns_throw.mp ran).elim
  · exact (returns_setInode.mp ran).symm

theorem releasesleep_returns (ran : Returns (releasesleep ip) s u s')
    : s' = s.setInode ip { s.icache ip with locked := false } := by
  have ran := returns_getInode_bind.mp ran
  exact (returns_setInode.mp ran).symm

/-- `ilock` takes the lock of a referenced inode and reads the inode if it has to. -/
theorem ilock_effect (ran : Returns (ilock ip) s u s')
    : 0 < (s.icache ip).ref
      ∧ ((s.icache ip).valid = true ∧ s' = s.setInode ip { s.icache ip with locked := true }
        ∨ (s.dinode ip).type ≠ 0
          ∧ s' = s.setInode ip
              { s.icache ip with locked := true, valid := true, copy := s.dinode ip }) := by
  have ran := returns_getInode_bind.mp ran
  obtain ⟨referenced, ran⟩ := returns_check.mp ran
  refine ⟨Nat.pos_of_ne_zero fun zero => referenced (by rw [zero]; decide), ?_⟩
  obtain ⟨_, m, acquired, ran⟩ := returns_bind.mp ran
  cases acquiresleep_returns acquired
  have ran := returns_get_bind.mp ran
  rw [State.setInode_icache_same, State.setInode_dinode] at ran
  rcases returns_ite.mp ran with ⟨valid, ran⟩ | ⟨_, ran⟩
  · obtain ⟨_, rfl⟩ := returns_pure.mp ran
    exact .inl ⟨valid, rfl⟩
  · have ran := returns_setInode_bind.mp ran
    obtain ⟨used, ran⟩ := returns_check.mp ran
    obtain ⟨_, rfl⟩ := returns_pure.mp ran
    simp only [State.setInode, update_idem]
    exact .inr ⟨used, trivial⟩

/-- `ilock` returns with the inode loaded. -/
theorem ilock_returns (quiet : s.Quiet) (ran : Returns (ilock ip) s u s')
    : 0 < (s.flags ip).ref
      ∧ Leads s s.node
          (update s.flags ip ⟨(s.flags ip).ref, true, true⟩) s' := by
  obtain ⟨positive, ⟨valid, rfl⟩ | ⟨used, rfl⟩⟩ := ilock_effect ran
  all_goals refine ⟨positive, ?_⟩
  · have leads := quiet.leads_setInode ip { s.icache ip with locked := true }
      (fun _ => quiet.inside ip positive) (fun _ => quiet.cached ip positive)
    rwa [valid] at leads
  · exact quiet.leads_setInode ip
      { s.icache ip with locked := true, valid := true, copy := s.dinode ip }
      (fun _ => quiet.inside ip positive) (fun _ _ => ⟨rfl, used⟩)

theorem ilock_loaded (quiet : s.Quiet) (ran : Returns (ilock ip) s u s')
    : s'.Loaded ip := by
  obtain ⟨cached, taken⟩ := ilock_returns quiet ran
  have flags : s'.flags ip = ⟨(s.flags ip).ref, true, true⟩ := by
    rw [taken.flags, update_self]
  exact ⟨by rw [flags]; exact cached, by rw [flags]⟩

theorem iunlock_kept (ran : Returns (iunlock ip) s u s')
    : s' = s.setInode ip { s.icache ip with locked := false } := by
  have ran := returns_getInode_bind.mp ran
  obtain ⟨_, ran⟩ := returns_check.mp ran
  exact releasesleep_returns ran

theorem iunlock_returns (quiet : s.Quiet) (ran : Returns (iunlock ip) s u s')
    : Leads s s.node
        (update s.flags ip { s.flags ip with locked := false }) s' := by
  rw [iunlock_kept ran]
  exact quiet.leads_setInode ip { s.icache ip with locked := false } (quiet.inside ip)
    (quiet.cached ip)

/-- Truncating one file leaves the bytes of the others. -/
theorem Truncated.nodeOf_ne {d d' : Dinode} (truncated : Truncated s s.dinode ip d s')
    (quiet : s.Quiet) (ne : inum ≠ ip)
    : s'.nodeOf (update s.dinode ip d') inum = s.node inum := by
  refine State.nodeOf_congr truncated.sb (fun _ => by rw [update_of_ne ne]) ?_
  intro inside used x below
  have present := quiet.sound.present inside used below
  have held : s'.held (update s.dinode ip d') (inum, fileSlot (x / bsize))
      = s.held s.dinode (inum, fileSlot (x / bsize)) :=
    State.held_congr truncated.sb (update_of_ne ne ..) fun pointed =>
      truncated.data _ (quiet.sound.marked_of_held pointed).1
  have block : s'.fileBlock (update s.dinode ip d') inum (x / bsize)
      = s.fileBlock s.dinode inum (x / bsize) := by
    simp only [State.fileBlock, held]
  rw [State.byte, block, truncated.data _ (quiet.sound.fileBlock_marked present).1, State.byte]

/-- `itrunc`, `type = 0`, `iupdate` and `valid = 0` on a loaded inode. -/
theorem reclaim_frees (quiet : s.Quiet) (loaded : s.Loaded ip)
    (ran
      : Returns
          (do
            itrunc ip
            assign ip fun d => { d with type := 0 }
            iupdate ip
            let entry ← getInode ip
            setInode ip { entry with valid := false }) s u s')
    : Leads s (update s.node ip .free)
        (update s.flags ip { s.flags ip with valid := false }) s' := by
  have inside := quiet.inside ip loaded.ref
  obtain ⟨_, m, shortened, ran⟩ := returns_bind.mp ran
  have truncated := itrunc_returns quiet.sound inside (quiet.used loaded) (quiet.copy loaded)
    shortened
  have ran := returns_assign_bind.mp ran
  have entry : m.icache ip = { s.icache ip with copy := (s.dinode ip).truncated } := by
    rw [truncated.icache, update_self]
  rw [entry] at ran
  generalize cleared : ({ (s.dinode ip).truncated with type := 0 } : Dinode) = d at ran
  have addrs : ∀ i, d.addrs i = 0 := by
    rw [← cleared]
    exact fun _ => rfl
  have size : d.size = 0 := by
    rw [← cleared]
    rfl
  have type : d.type = 0 := by rw [← cleared]
  have unowned : ∀ slot,
      m.held (update s.dinode ip (s.dinode ip).truncated) (ip, slot) = 0 := by
    intro slot
    cases slot <;> simp [State.held, Dinode.block, Dinode.truncated]
  have sound := (truncated.sound.set_empty (d := d) unowned addrs size).2
  rw [update_idem] at sound
  obtain ⟨_, last, updated, ran⟩ := returns_bind.mp ran
  have updated := returns_get_bind.mp updated
  have written := returns_logWrite.mp updated
  rw [State.setInode_icache_same] at written
  have cache : last.icache = update m.icache ip { s.icache ip with copy := d } := by
    rw [← written]
    rfl
  have sb : last.sb = s.sb := by
    rw [← written]
    exact truncated.sb
  obtain ⟨stored, table, node⟩ := State.Sound.stored
    (m := m.setInode ip { s.icache ip with copy := d })
    (t := update s.dinode ip d) { sound with } (truncated.sb ▸ inside)
    (update_self ..)
    (fun inum within ne => by
      rw [update_of_ne ne, State.setInode_dinode,
        truncated.dinode inum (truncated.sb ▸ within), update_of_ne ne])
    written
  have ran := returns_getInode_bind.mp ran
  cases returns_setInode.mp ran
  have entry' : last.icache ip = { s.icache ip with copy := d } := by
    rw [cache, update_self]
  have others : ∀ inum, inum ≠ ip → last.icache inum = s.icache inum := by
    intro inum ne
    rw [cache, update_of_ne ne, truncated.icache, update_of_ne ne]
  have flags : last.flags = s.flags := by
    funext inum
    rcases eq_or_ne inum ip with rfl | ne
    · simp only [State.flags, entry']
    · simp only [State.flags, others inum ne]
  rw [entry']
  refine ⟨⟨{ stored with }, ?_, ?_⟩, sb, ?_, ?_⟩
  · intro inum
    rw [State.setInode_flags, flags, State.setInode_sb, sb]
    rcases eq_or_ne inum ip with rfl | ne
    · exact fun _ => inside
    · rw [update_of_ne ne]
      exact quiet.inside inum
  · intro inum
    rw [State.setInode_flags, flags, State.setInode_dinode]
    rcases eq_or_ne inum ip with rfl | ne
    · simp
    · rw [update_of_ne ne, State.setInode_icache_ne ne, others inum ne]
      intro positive valid
      rw [table inum (truncated.sb ▸ quiet.inside inum positive), update_of_ne ne]
      exact quiet.cached inum positive valid
  · rw [State.setInode_node, node]
    funext inum
    rcases eq_or_ne inum ip with rfl | ne
    · rw [update_self, State.nodeOf, if_neg]
      rw [update_self, type]
      exact fun allocated => allocated.2 rfl
    · rw [update_of_ne ne]
      exact truncated.nodeOf_ne quiet ne
  · rw [State.setInode_flags, flags]
    rfl

/-- The part of `iput` under the sleep-lock frees an inode without links that has no other
reference.
-/
theorem reclaim_returns (quiet : s.Quiet) (cached : 0 < (s.flags ip).ref)
    (ran : Returns (reclaim ip) s u s')
    : Leads s (s.nodesAfterPut ip)
        (update s.flags ip
          { s.flags ip with valid := (s.flags ip).valid && !decide (s.Frees ip) }) s' := by
  have ran := returns_getInode_bind.mp ran
  have links : (s.icache ip).valid = true → (s.icache ip).copy.nlink = (s.node ip).nlink :=
    fun valid => (quiet.shows ⟨cached, valid⟩).copy_fields.2.1
  rcases returns_ite.mp ran with ⟨⟨valid, nlink, ref⟩, ran⟩ | ⟨stays, ran⟩
  · have frees : s.Frees ip := ⟨valid, links valid ▸ nlink, ref⟩
    rw [State.nodesAfterPut, if_pos frees, decide_eq_true frees, Bool.not_true, Bool.and_false]
    exact reclaim_frees quiet ⟨cached, valid⟩ ran
  · have keeps : ¬s.Frees ip := by
      rintro ⟨valid, nlink, ref⟩
      exact stays ⟨valid, (links valid).trans nlink, ref⟩
    obtain ⟨_, rfl⟩ := returns_pure.mp ran
    rw [State.nodesAfterPut, if_neg keeps, decide_eq_false keeps, Bool.not_false, Bool.and_true]
    exact ⟨quiet, rfl, rfl, (update_eq_self ip s.flags).symm⟩

theorem dropRef_returns (quiet : s.Quiet) (ran : Returns (dropRef ip) s u s')
    : Leads s s.node
        (update s.flags ip { s.flags ip with ref := (s.flags ip).ref - 1 }) s' := by
  have ran := returns_getInode_bind.mp ran
  have ran := returns_setInode_bind.mp ran
  cases returns_modify.mp ran
  have before : 0 < (s.icache ip).ref - 1 → 0 < (s.flags ip).ref :=
    fun positive => Nat.lt_of_lt_of_le positive (Nat.sub_le ..)
  exact (quiet.leads_setInode ip { s.icache ip with ref := (s.icache ip).ref - 1 }
    (fun positive => quiet.inside ip (before positive))
    fun positive => quiet.cached ip (before positive)).setInUse _

/-- `iput` drops one reference and frees the inode if that was the last and it has no links.
-/
theorem iput_returns (quiet : s.Quiet) (cached : 0 < (s.flags ip).ref)
    (ran : Returns (iput ip) s u s')
    : Leads s (s.nodesAfterPut ip) (s.flagsAfterPut ip) s' := by
  obtain ⟨_, m, acquired, ran⟩ := returns_bind.mp ran
  cases acquiresleep_returns acquired
  have taken := quiet.leads_setInode ip { s.icache ip with locked := true }
    (quiet.inside ip) (quiet.cached ip)
  generalize s.setInode ip { s.icache ip with locked := true } = m at taken ran
  have flags : m.flags ip = ⟨(s.flags ip).ref, true, (s.flags ip).valid⟩ := by
    rw [taken.flags, update_self]
    rfl
  have frees : m.Frees ip ↔ s.Frees ip := by
    simp only [State.Frees, flags, taken.node]
  obtain ⟨_, m', reclaimed, ran⟩ := returns_bind.mp ran
  have freed := reclaim_returns taken.quiet (by rwa [flags]) reclaimed
  obtain ⟨_, next, released, ran⟩ := returns_bind.mp ran
  cases releasesleep_returns released
  have open' := freed.quiet.leads_setInode ip { m'.icache ip with locked := false }
    (freed.quiet.inside ip) (freed.quiet.cached ip)
  have dropped := dropRef_returns open'.quiet ran
  have entry : m'.flags ip
      = ⟨(s.flags ip).ref, true, (s.flags ip).valid && !decide (s.Frees ip)⟩ := by
    simp only [freed.flags, update_self, flags, frees]
  refine ⟨dropped.quiet, dropped.sb.trans (freed.sb.trans taken.sb), ?_, ?_⟩
  · rw [dropped.node, open'.node, freed.node]
    simp only [State.nodesAfterPut, frees, taken.node]
  · rw [dropped.flags, open'.flags, update_idem, update_self, freed.flags,
      update_idem, taken.flags, update_idem]
    have ref := congrArg Flags.ref entry
    have valid := congrArg Flags.valid entry
    simp only [State.flags] at ref valid
    simp only [State.flagsAfterPut, ref, valid]
    rfl

theorem iunlockput_returns (quiet : s.Quiet) (cached : 0 < (s.flags ip).ref)
    (ran : Returns (iunlockput ip) s u s')
    : Leads s (s.nodesAfterPut ip) (s.flagsAfterPut ip) s' := by
  obtain ⟨_, m, unlocked, ran⟩ := returns_bind.mp ran
  have leads := iunlock_returns quiet unlocked
  have flags : m.flags ip = { s.flags ip with locked := false } := by
    rw [leads.flags, update_self]
  have put := iput_returns leads.quiet (by rwa [flags]) ran
  have frees : m.Frees ip ↔ s.Frees ip := by
    simp only [State.Frees, flags, leads.node]
  refine ⟨put.quiet, put.sb.trans leads.sb, ?_, ?_⟩
  · rw [put.node]
    simp only [State.nodesAfterPut, frees, leads.node]
  · rw [put.flags]
    simp only [State.flagsAfterPut, flags, frees]
    rw [leads.flags, update_idem]

/-- A file that `ialloc` has just made. -/
def Node.blank (type : Int16) : Node where
  type := type
  major := 0
  minor := 0
  nlink := 0
  contents := []

/-- `ialloc` turns a free inode into an empty one of the given type. -/
theorem ialloc_returns {type : Int16} (quiet : s.Quiet) (typed : type ≠ 0)
    (ran : Returns (ialloc type) s inum s')
    : 0 < inum ∧ inum < s.sb.ninodes ∧ (s.node inum).type = 0
      ∧ Leads s (update s.node inum (.blank type))
          (update s.flags inum (s.flags inum).gain) s' := by
  have ran := returns_get_bind.mp ran
  split at ran
  · exact (returns_throw.mp ran).elim
  rename_i free found
  have range := List.mem_range'.mp (List.mem_of_find?_eq_some found)
  have unused : (s.dinode free).type = 0 := by simpa using List.find?_some found
  obtain ⟨_, m, wrote, ran⟩ := returns_bind.mp ran
  have written := returns_logWrite.mp wrote
  have inside : free < s.sb.ninodes := by
    obtain ⟨i, below, rfl⟩ := range
    omega
  have positive : 0 < free := by
    obtain ⟨i, below, rfl⟩ := range
    omega
  have unowned : ∀ slot, s.held s.dinode (free, slot) = 0 :=
    fun slot => if_neg fun allocated => allocated.2 unused
  obtain ⟨held, sound⟩ := quiet.sound.set_empty (d := .blank type) unowned (fun _ => rfl) rfl
  obtain ⟨stored, table, node⟩ := sound.stored inside (update_self ..)
    (fun inum _ ne => by rw [update_of_ne ne]) written
  have sb : m.sb = s.sb := by rw [← written]; rfl
  have cache : m.icache = s.icache := by rw [← written]; rfl
  have flags : m.flags = s.flags := by
    funext inum
    simp only [State.flags, cache]
  -- no loaded entry of the cache is a free inode
  have loaded : ∀ inum, 0 < (s.flags inum).ref → (s.flags inum).valid = true → inum ≠ free := by
    intro inum referenced valid same
    exact quiet.used ⟨referenced, valid⟩ (same ▸ unused)
  have made : Leads s (update s.node free (.blank type)) s.flags m := by
    refine ⟨⟨stored, ?_, ?_⟩, sb, ?_, flags⟩
    · rw [flags, sb]
      exact quiet.inside
    · intro inum
      rw [flags, cache]
      intro referenced valid
      rw [table inum (quiet.inside inum referenced), update_of_ne (loaded inum referenced valid)]
      exact quiet.cached inum referenced valid
    · rw [node]
      funext inum
      rcases eq_or_ne inum free with rfl | ne
      · rw [update_self, State.nodeOf_of_allocated inside (by
          rw [update_self]
          exact typed), update_self]
        rfl
      · rw [update_of_ne ne]
        refine State.nodeOf_congr rfl (fun _ => by rw [update_of_ne ne]) ?_
        intro within used x below
        exact quiet.sound.byte_congr held (fun _ _ => rfl)
          (quiet.sound.present within used below)
  obtain ⟨rfl, got⟩ := iget_returns made.quiet (sb ▸ inside) ran
  rw [made.flags, made.node] at got
  refine ⟨positive, inside, ?_, made.trans got⟩
  rw [State.node_type s inside, unused]

end References

/-- Only references, locks and `valid` fields of the inode cache changed. -/
structure Bookkept (s s' : State) : Prop where
  disk : s'.disk = s.disk
  sb : s'.sb = s.sb
  copy : ∀ ip, (s'.icache ip).copy = (s.icache ip).copy

section Bookkeeping

variable {s s' m : State} {ip inum : Nat}
variable {r : Nat} {u : Unit}

theorem Bookkept.dinode (kept : Bookkept s s') : s'.dinode = s.dinode := by
  funext inum
  simp only [State.dinode, kept.disk, kept.sb]

theorem Bookkept.held (kept : Bookkept s s') (t : Nat → Dinode) : s'.held t = s.held t := by
  funext place
  simp only [State.held, kept.disk, kept.sb]

theorem Bookkept.node (kept : Bookkept s s') : s'.node = s.node := by
  have byte : s'.byte s.dinode = s.byte s.dinode := by
    funext inum x
    simp only [State.byte, State.fileBlock, kept.held, kept.disk]
  funext inum
  simp only [State.node, State.nodeOf, kept.dinode, kept.sb, byte]

theorem Bookkept.shows (kept : Bookkept s s') (shown : s.Shows ip) : s'.Shows ip where
  sound := by
    rw [kept.dinode]
    refine shown.sound.of_same kept.sb (by rw [kept.disk]) (fun c _ => ?_)
      (congrFun (kept.held _)) fun _ used => ⟨used, rfl⟩
    simp only [State.bitmap, kept.disk, kept.sb]
  inside := kept.sb ▸ shown.inside
  copy := by rw [kept.copy, kept.dinode, shown.copy]
  used := kept.dinode ▸ shown.used

theorem Bookkept.trans {last : State} (first : Bookkept s m) (second : Bookkept m last)
    : Bookkept s last :=
  ⟨second.disk.trans first.disk, second.sb.trans first.sb,
    fun ip => (second.copy ip).trans (first.copy ip)⟩

theorem Bookkept.setInUse (kept : Bookkept s s') (n : Nat)
    : Bookkept s { s' with inUse := n } :=
  ⟨kept.disk, kept.sb, kept.copy⟩

theorem bookkept_setInode {entry : Inode} (copy : entry.copy = (s.icache ip).copy)
    : Bookkept s (s.setInode ip entry) := by
  refine ⟨rfl, rfl, fun inum => ?_⟩
  rcases eq_or_ne inum ip with rfl | ne
  · rw [State.setInode_icache_same, copy]
  · rw [State.setInode_icache_ne ne]

/-- After `iget` the inode has another reference, or it has not been read from disk. -/
theorem iget_bookkept (got : Returns (iget inum) s inum m)
    : Bookkept s m ∧ (m.icache inum).locked = (s.icache inum).locked
      ∧ ((m.icache inum).valid = true → (m.icache inum).ref ≠ 1) := by
  obtain ⟨_, ⟨cached, rfl⟩ | ⟨_, rfl⟩⟩ := iget_effect got
  · refine ⟨bookkept_setInode rfl, ?_, fun _ => ?_⟩
    · rw [State.setInode_icache_same]
    · rw [State.setInode_icache_same]
      exact Nat.ne_of_gt (Nat.succ_lt_succ cached)
  · refine ⟨.setInUse (bookkept_setInode (by rfl)) _, ?_, fun valid => ?_⟩
    · change ((s.setInode inum _).icache inum).locked = _
      rw [State.setInode_icache_same]
    · change ((s.setInode inum _).icache inum).valid = true at valid
      rw [State.setInode_icache_same] at valid
      cases valid

/-- `iget` uses an entry of the cache for an inode that had no reference. -/
theorem iget_inUse (got : Returns (iget inum) s r m)
    : m.inUse = s.inUse + if (s.icache inum).ref = 0 then 1 else 0 := by
  obtain ⟨_, ⟨cached, rfl⟩ | ⟨unused, rfl⟩⟩ := iget_effect got
  · rw [if_neg (Nat.ne_of_gt cached)]
    rfl
  · rw [if_pos unused]

section

variable
  (kept : ¬((s.icache ip).valid = true ∧ (s.icache ip).copy.nlink = 0 ∧ (s.icache ip).ref = 1))
  (put : Returns (iput ip) s u s')
include kept put

/-- `iput` that does not free the inode; the last reference gives the entry back. -/
theorem iput_kept
    : Bookkept s s' ∧ s'.inUse = if (s.icache ip).ref = 1 then s.inUse - 1 else s.inUse := by
  obtain ⟨_, _, acquired, put⟩ := returns_bind.mp put
  obtain rfl := acquiresleep_returns acquired
  obtain ⟨_, _, reclaimed, put⟩ := returns_bind.mp put
  have reclaimed := returns_getInode_bind.mp reclaimed
  rw [State.setInode_icache_same, if_neg kept] at reclaimed
  obtain ⟨_, rfl⟩ := returns_pure.mp reclaimed
  obtain ⟨_, _, released, dropped⟩ := returns_bind.mp put
  obtain rfl := releasesleep_returns released
  have dropped := returns_getInode_bind.mp dropped
  have dropped := returns_setInode_bind.mp dropped
  obtain rfl := returns_modify.mp dropped
  refine ⟨.setInUse (((bookkept_setInode (by rfl)).trans (bookkept_setInode (by rfl))).trans
    (bookkept_setInode (by rfl))) _, ?_⟩
  rw [State.setInode_icache_same, State.setInode_icache_same]
  rfl

theorem iput_bookkept
    : Bookkept s s' :=
  (iput_kept kept put).1

end

/-- Locking an inode may read it from disk, and writes nothing. -/
theorem ilock_kept (ran : Returns (ilock ip) s u s')
    : s'.disk = s.disk ∧ s'.inUse = s.inUse := by
  obtain ⟨_, ⟨_, rfl⟩ | ⟨_, rfl⟩⟩ := ilock_effect ran
  all_goals exact ⟨rfl, rfl⟩

theorem ilock_disk (ran : Returns (ilock ip) s u s') : s'.disk = s.disk :=
  (ilock_kept ran).1

theorem iunlock_bookkept (ran : Returns (iunlock ip) s u s') : Bookkept s s' := by
  rw [iunlock_kept ran]
  exact bookkept_setInode (by rfl)

theorem idup_bookkept (ran : Returns (idup ip) s r s') : Bookkept s s' := by
  have ran := returns_getInode_bind.mp ran
  have ran := returns_setInode_bind.mp ran
  obtain ⟨_, rfl⟩ := returns_pure.mp ran
  exact bookkept_setInode (by rfl)

section

variable (quiet : s.Quiet) (cached : 0 < (s.flags ip).ref) (keeps : ¬s.Frees ip)
include quiet cached keeps

/-- The cached fields decide whether `iput` frees the inode. -/
theorem State.Quiet.kept_of_not_frees
    : ¬((s.icache ip).valid = true ∧ (s.icache ip).copy.nlink = 0 ∧ (s.icache ip).ref = 1) := by
  rintro ⟨valid, unlinked, last⟩
  rw [(quiet.shows ⟨cached, valid⟩).copy_fields.2.1] at unlinked
  exact keeps ⟨valid, unlinked, last⟩

/-- A put that frees nothing writes nothing. -/
theorem iput_disk (ran : Returns (iput ip) s u s')
    : s'.disk = s.disk :=
  (iput_bookkept (quiet.kept_of_not_frees cached keeps) ran).disk

theorem iunlockput_disk (ran : Returns (iunlockput ip) s u s')
    : s'.disk = s.disk := by
  obtain ⟨_, m, unlocked, put⟩ := returns_bind.mp ran
  have leads := iunlock_returns quiet unlocked
  have flags : m.flags ip = { s.flags ip with locked := false } := by
    rw [leads.flags, update_self]
  have keeps' : ¬m.Frees ip := by
    unfold State.Frees
    rw [flags, leads.node]
    exact keeps
  have cached' : 0 < (m.flags ip).ref := by
    rw [flags]
    exact cached
  exact (iput_disk leads.quiet cached' keeps' put).trans (iunlock_bookkept unlocked).disk

end

end Bookkeeping

end Xv6.Fs
