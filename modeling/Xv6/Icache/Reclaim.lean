import Xv6.Icache.Model
import Xv6.Lib.ProcessSum

/-! When the last `iput` reclaims an unlinked inode. `iput` decides with the count it read in
an earlier section, so a reclaim is certain only while some reference has not been through
that test.
-/

namespace Xv6.Icache

open Xv6.Lib

/-- Inside `iput`, whose reference is still counted in `ip->ref`. -/
def Proc.weight (proc : Proc) : Nat := proc.refs + if proc.position.free then 0 else 1

/-- Holds `ip->lock`. -/
def Position.Holding (position : Position) : Prop := position ≠ .out ∧ position ≠ .dropping

/-- Has seen `ip->valid` set and keeps it so by holding the lock. -/
def Position.Loaded (position : Position) : Prop :=
  position = .locked ∨ ∃ r, position = .putChecked r

theorem Position.Loaded.holding {position : Position} (loaded : position.Loaded)
    : position.Holding := by
  rcases loaded with rfl | ⟨r, rfl⟩ <;> simp [Holding]

/-- Owns a reference that the test of `iput` has not passed over. -/
def Proc.Pending (proc : Proc) : Prop :=
  0 < proc.refs ∨ proc.position = .putLocked ∨ proc.position = .putChecked 1

theorem Proc.Pending.weight_pos {proc : Proc} (pending : proc.Pending)
    : 0 < proc.weight := by
  rcases pending with refs | locked | checked
  · exact Nat.add_pos_left refs _
  · simp [weight, locked, Position.free]
  · simp [weight, checked, Position.free]

variable {ι : Type}

/-- On disk the inode has its original blocks, or is free with all of them released. -/
def State.Content (original : Finset UInt32) (s : State ι) : Prop :=
  s.disk.type ≠ 0 ∧ s.disk.blocks = original
  ∨ s.disk.type = 0 ∧ s.disk.blocks = ∅ ∧ Disjoint original s.bitmap

@[simp] theorem State.load_spec (s : State ι)
    : s.load.proc = s.proc ∧ s.load.ref = s.ref ∧ s.load.lock = s.lock
      ∧ s.load.valid = true := by
  unfold State.load
  split
  · rename_i valid
    exact ⟨rfl, rfl, rfl, valid⟩
  · exact ⟨rfl, rfl, rfl, rfl⟩

variable [Fintype ι]

/-- The invariant: an unlinked inode that is not free has a reference that will free it. -/
structure Tracked (original : Finset UInt32) (s : State ι) : Prop where
  counted : s.ref = total Proc.weight s.proc
  holder : ∀ p, (s.proc p).position.Holding → s.lock = some p
  owner : ∀ p, (s.proc p).position = .locked → 0 < (s.proc p).refs
  loaded : ∀ p, (s.proc p).position.Loaded → s.valid = true
  agree : s.valid = true → s.cached = s.disk
  content : s.Content original
  pending
    : s.disk.type ≠ 0 → s.disk.nlink = 0 → s.valid = true ∧ ∃ p, (s.proc p).Pending

theorem Tracked.unused {disk : Inode} (bitmap : Finset UInt32) (allocated : disk.type ≠ 0)
    (linked : disk.nlink ≠ 0)
    : Tracked disk.blocks (State.unused ι disk bitmap) where
  counted := by simp [State.unused, total, Proc.weight, Position.free]
  holder := by simp [State.unused, Position.Holding]
  owner := by simp [State.unused]
  loaded := by simp [State.unused, Position.Loaded]
  agree := by simp [State.unused]
  content := Or.inl ⟨allocated, rfl⟩
  pending := fun _ unlinked => absurd unlinked linked

variable {original : Finset UInt32} {s : State ι}

section

variable (tracked : Tracked original s) (unused : s.ref = 0) (p : ι)
include tracked unused p

/-- A cache entry without references is used by nobody. -/
theorem Tracked.idle
    : (s.proc p).weight = 0 :=
  total_eq_zero (tracked.counted ▸ unused) p

theorem Tracked.not_loaded
    : ¬(s.proc p).position.Loaded := by
  have idle := tracked.idle unused p
  rintro (locked | ⟨r, checked⟩)
  · have owns := tracked.owner p locked
    simp only [Proc.weight] at idle
    omega
  · simp [Proc.weight, checked, Position.free] at idle

theorem Tracked.not_pending
    : ¬(s.proc p).Pending := by
  intro pending
  have idle := tracked.idle unused p
  have positive := pending.weight_pos
  omega

end

variable {q p : ι} {t : State ι}

/-- Only one process holds the lock. -/
theorem Tracked.holder_unique (tracked : Tracked original s) (holds : (s.proc p).position.Holding)
    (other : q ≠ p)
    : ¬(s.proc q).position.Holding := by
  intro also
  have same := (tracked.holder p holds).symm.trans (tracked.holder q also)
  exact other (Option.some.inj same).symm

theorem Tracked.load (tracked : Tracked original s) : Tracked original s.load := by
  unfold State.load
  split
  · exact tracked
  · exact { tracked with
      loaded := fun _ _ => rfl
      agree := fun _ => rfl
      pending := fun allocated unlinked => ⟨rfl, (tracked.pending allocated unlinked).2⟩ }

/-- Dropping a link makes the caller's own reference the pending one. -/
theorem Tracked.unlink (tracked : Tracked original s) {updated : Inode} (locked : (s.proc p).position = .locked)
    (type : updated.type = s.cached.type) (blocks : updated.blocks = s.cached.blocks)
    : Tracked original { s with cached := updated, disk := updated } := by
  have valid := tracked.loaded p (Or.inl locked)
  have agree := tracked.agree valid
  refine { tracked with
    agree := fun _ => rfl
    content := ?_
    pending := fun _ _ => ⟨valid, p, Or.inl (tracked.owner p locked)⟩ }
  have content := tracked.content
  simp only [State.Content] at content ⊢
  rwa [type, blocks, agree]

/-- Between `iput`s, an unreferenced inode without links is free and owns no block. -/
def Reclaimed (original : Finset UInt32) (s : State ι) : Prop :=
  (∀ p, (s.proc p).position.free = true) → s.ref = 0 → s.disk.nlink = 0
  → s.disk.type = 0 ∧ s.disk.blocks = ∅ ∧ Disjoint original s.bitmap

theorem Tracked.reclaimed (tracked : Tracked original s) : Reclaimed original s := by
  intro _ unused unlinked
  rcases tracked.content with ⟨allocated, _⟩ | freed
  · obtain ⟨_, p, pending⟩ := tracked.pending allocated unlinked
    exact absurd pending (tracked.not_pending unused p)
  · exact freed

variable [DecidableEq ι]

omit [Fintype ι] in
/-- One more reference for `p` changes nobody's position. -/
theorem State.gain_spec (s : State ι) (p q : ι)
    : ((s.gain p).proc q).position = (s.proc q).position
      ∧ (s.proc q).refs ≤ ((s.gain p).proc q).refs := by
  by_cases same : q = p
  · subst same
    simp [State.gain, State.at]
  · simp [State.gain, State.at, same]

omit [Fintype ι] in
theorem Proc.Pending.gain (pending : (s.proc q).Pending) (p : ι)
    : ((s.gain p).proc q).Pending := by
  obtain ⟨same, more⟩ := s.gain_spec p q
  rcases pending with refs | other
  · exact Or.inl (by omega)
  · exact Or.inr (by rwa [same])

theorem State.total_gain (s : State ι) (p : ι)
    : total Proc.weight (s.gain p).proc = total Proc.weight s.proc + 1 := by
  have exchanged := total_update Proc.weight s.proc p
    { s.proc p with refs := (s.proc p).refs + 1 }
  simp only [Proc.weight] at exchanged
  simp only [State.gain, State.at]
  omega

/-- A counted new reference keeps the invariant. -/
theorem Tracked.gain (tracked : Tracked original s) (p : ι)
    : Tracked original { s.gain p with ref := s.ref + 1 } where
  counted := by rw [s.total_gain p, tracked.counted]
  holder := fun q => by
    rw [(s.gain_spec p q).1]
    exact tracked.holder q
  owner := fun q => by
    rw [(s.gain_spec p q).1]
    exact fun locked => Nat.lt_of_lt_of_le (tracked.owner q locked) (s.gain_spec p q).2
  loaded := fun q => by
    rw [(s.gain_spec p q).1]
    exact tracked.loaded q
  agree := tracked.agree
  content := tracked.content
  pending := fun allocated unlinked =>
    have ⟨valid, q, pending⟩ := tracked.pending allocated unlinked
    ⟨valid, q, pending.gain p⟩

/-- The rule for a step that only moves one process, the lock and the count. -/
theorem Tracked.move (tracked : Tracked original s) {next : Proc} {lock : Option ι} {ref : Nat}
    (counted : ref + (s.proc p).weight = s.ref + next.weight)
    (holder : next.position.Holding → lock = some p)
    (others : ∀ q, q ≠ p → (s.proc q).position.Holding → lock = some q)
    (owner : next.position = .locked → 0 < next.refs)
    (loaded : next.position.Loaded → s.valid = true)
    (pending
      : s.disk.type ≠ 0 → s.disk.nlink = 0
        → next.Pending ∨ ∃ q, q ≠ p ∧ (s.proc q).Pending)
    : Tracked original { s.at p next with lock, ref } where
  counted := by
    have exchanged := total_update Proc.weight s.proc p next
    have before := tracked.counted
    simp only [State.at]
    omega
  holder := by
    simp only [State.at]
    exact (Function.forall_update_iff _
      fun q (proc : Proc) => proc.position.Holding → lock = some q).mpr
      ⟨holder, others⟩
  owner := by
    simp only [State.at]
    exact (Function.forall_update_iff _
      fun _ (proc : Proc) => proc.position = .locked → 0 < proc.refs).mpr
      ⟨owner, fun q _ => tracked.owner q⟩
  loaded := by
    simp only [State.at]
    exact (Function.forall_update_iff _
      fun _ (proc : Proc) => proc.position.Loaded → s.valid = true).mpr
      ⟨loaded, fun q _ => tracked.loaded q⟩
  agree := tracked.agree
  content := tracked.content
  pending := by
    intro allocated unlinked
    refine ⟨(tracked.pending allocated unlinked).1, ?_⟩
    rcases pending allocated unlinked with own | ⟨q, other, pending⟩
    · exact ⟨p, by simpa [State.at] using own⟩
    · exact ⟨q, by simpa [State.at, other] using pending⟩

section

variable (tracked : Tracked original s)
include tracked

/-- The reclaim releases all blocks; nobody else can have the inode loaded. -/
theorem Tracked.reclaim {r : Nat} (checked : (s.proc p).position = .putChecked r)
    : Tracked original
        { s.reclaim.at p { s.proc p with position := .dropping } with lock := none } := by
  have holds : (s.proc p).position.Holding := by simp [checked, Position.Holding]
  have valid := tracked.loaded p (Or.inr ⟨r, checked⟩)
  have agree := tracked.agree valid
  have released : Disjoint original (s.bitmap \ s.cached.blocks) := by
    rw [agree]
    rcases tracked.content with ⟨_, whole⟩ | ⟨_, _, disjoint⟩
    · rw [whole]
      exact Finset.disjoint_sdiff
    · exact Finset.disjoint_of_subset_right Finset.sdiff_subset disjoint
  have exchanged := total_update Proc.weight s.proc p { s.proc p with position := .dropping }
  have before := tracked.counted
  simp only [Proc.weight, checked, Position.free] at exchanged
  exact {
    counted := by
      simp only [State.at, State.reclaim]
      simp only [Bool.false_eq_true, if_false] at exchanged
      omega
    holder := by
      simp only [State.at]
      exact (Function.forall_update_iff _
        fun q (proc : Proc) => proc.position.Holding → none = some q).mpr
        ⟨fun holding => absurd rfl holding.2,
          fun q other also => absurd also (tracked.holder_unique holds other)⟩
    owner := by
      simp only [State.at]
      exact (Function.forall_update_iff _
        fun _ (proc : Proc) => proc.position = .locked → 0 < proc.refs).mpr
        ⟨fun locked => (nomatch locked), fun q _ => tracked.owner q⟩
    loaded := by
      simp only [State.at]
      refine (Function.forall_update_iff _
        fun _ (proc : Proc) => proc.position.Loaded → s.reclaim.valid = true).mpr ⟨?_, ?_⟩
      · rintro (locked | ⟨_, again⟩)
        · cases locked
        · cases again
      · intro q other loaded
        exact absurd loaded.holding (tracked.holder_unique holds other)
    agree := fun impossible => (nomatch impossible)
    content := Or.inr ⟨rfl, rfl, released⟩
    pending := fun allocated => absurd rfl allocated
  }

/-- A recycled cache entry is not valid, and nobody depended on it. -/
theorem Tracked.recycle (unused : s.ref = 0) (p : ι)
    : Tracked original { s.gain p with ref := 1, valid := false } := by
  have gained := tracked.gain p
  rw [unused] at gained
  exact { gained with
    loaded := fun q loaded => by
      rw [(s.gain_spec p q).1] at loaded
      exact absurd loaded (tracked.not_loaded unused q)
    agree := fun impossible => (nomatch impossible)
    pending := fun allocated unlinked =>
      have ⟨_, q, pending⟩ := tracked.pending allocated unlinked
      absurd pending (tracked.not_pending unused q) }

/-- A process that `iput` has passed over leaves the pending reference to another owner. -/
theorem Tracked.other_pending (notLocked : (s.proc p).position ≠ .putLocked)
    (notLast : (s.proc p).position ≠ .putChecked 1) (allocated : s.disk.type ≠ 0)
    (unlinked : s.disk.nlink = 0)
    : 0 < (s.proc p).refs ∨ ∃ q, q ≠ p ∧ (s.proc q).Pending := by
  obtain ⟨_, q, pending⟩ := tracked.pending allocated unlinked
  by_cases same : q = p
  · subst same
    rcases pending with owns | locked | last
    · exact Or.inl owns
    · exact absurd locked notLocked
    · exact absurd last notLast
  · exact Or.inr ⟨q, same, pending⟩

/-- `iput` gives up the lock without freeing the inode. -/
theorem Tracked.passOver (holds : (s.proc p).position.Holding)
    (inside : (s.proc p).position.free = false)
    (pending
      : s.disk.type ≠ 0 → s.disk.nlink = 0
        → 0 < (s.proc p).refs ∨ ∃ q, q ≠ p ∧ (s.proc q).Pending)
    : Tracked original
        { s.at p { s.proc p with position := .dropping } with lock := none } := by
  refine tracked.move ?_ (fun holding => absurd rfl holding.2) ?_
    (fun again => (nomatch again)) (by simp [Position.Loaded]) ?_
  · simp only [Proc.weight, inside, State.at_ref]
    rfl
  · exact fun q other also => absurd also (tracked.holder_unique holds other)
  · exact fun allocated unlinked => (pending allocated unlinked).imp_left Or.inl

end

/-- When `iput` reads the count, it is the only reference, or some process still owns one
that no `iput` has started to drop.
-/
def Careful (s : State ι) : Step ι → Prop
  | .iputReadRef _ => s.ref = 1 ∨ ∃ q, 0 < (s.proc q).refs
  | _ => True

instance (s : State ι) (label : Step ι) : Decidable (Careful s label) := by
  cases label <;> dsimp only [Careful] <;> infer_instance

section

variable (tracked : Tracked original s)
include tracked

theorem Tracked.ilock (stepped : ilock s p = some t)
    : Tracked original t := by
  obtain ⟨⟨out, owns, free, _⟩, ⟨⟩⟩ := Option.ite_none_right_eq_some.mp stepped
  obtain ⟨_, _, lock, valid⟩ := s.load_spec
  refine tracked.load.move ?_ (fun _ => rfl) ?_ (fun _ => owns) (fun _ => valid) ?_
  · simp [Proc.weight, out, Position.free]
  · intro q _ holds
    have held := tracked.load.holder q holds
    rw [lock, free] at held
    cases held
  · exact fun _ _ => Or.inl (Or.inl owns)

theorem Tracked.iunlock (stepped : iunlock s p = some t)
    : Tracked original t := by
  obtain ⟨locked, ⟨⟩⟩ := Option.ite_none_right_eq_some.mp stepped
  have holds : (s.proc p).position.Holding := by simp [locked, Position.Holding]
  have owns := tracked.owner p locked
  refine tracked.move ?_ (fun holding => absurd rfl holding.1) ?_ (fun _ => owns)
    (by simp [Position.Loaded]) (fun _ _ => Or.inl (Or.inl owns))
  · simp [Proc.weight, locked, Position.free]
  · exact fun q other also => absurd also (tracked.holder_unique holds other)

theorem Tracked.iputLock (stepped : iputLock s p = some t)
    : Tracked original t := by
  obtain ⟨⟨out, owns, free⟩, ⟨⟩⟩ := Option.ite_none_right_eq_some.mp stepped
  refine tracked.move ?_ (fun _ => rfl) ?_ (fun locked => (nomatch locked))
    (by simp [Position.Loaded]) (fun _ _ => Or.inl (Or.inr (Or.inl rfl)))
  · simp only [Proc.weight, out, Position.free, State.at_ref, if_true, Bool.false_eq_true, if_false]
    omega
  · intro q _ holds
    have held := tracked.holder q holds
    rw [free] at held
    cases held

/-- The test of a careful `iput` leaves a pending reference: its own, or another one. -/
theorem Tracked.iputReadRef (careful : s.ref = 1 ∨ ∃ q, 0 < (s.proc q).refs)
    (stepped : iputReadRef s p = some t)
    : Tracked original t := by
  obtain ⟨⟨locked, valid, _⟩, ⟨⟩⟩ := Option.ite_none_right_eq_some.mp stepped
  have holds : (s.proc p).position.Holding := by simp [locked, Position.Holding]
  refine tracked.move ?_ (fun _ => tracked.holder p holds) (fun q _ => tracked.holder q)
    (fun again => (nomatch again)) (fun _ => valid) ?_
  · simp [Proc.weight, locked, Position.free]
  · intro _ _
    rcases careful with only | ⟨q, owns⟩
    · exact Or.inl (Or.inr (Or.inr (by rw [only])))
    · by_cases same : q = p
      · subst same
        exact Or.inl (Or.inl owns)
      · exact Or.inr ⟨q, same, Or.inl owns⟩

theorem Tracked.iputUnlock (stepped : iputUnlock s p = some t)
    : Tracked original t := by
  simp only [Icache.iputUnlock] at stepped
  split at stepped
  · rename_i locked
    obtain ⟨keep, ⟨⟩⟩ := Option.ite_none_left_eq_some.mp stepped
    refine tracked.passOver (by simp [locked, Position.Holding]) (by rw [locked]; rfl) ?_
    intro allocated unlinked
    have valid := (tracked.pending allocated unlinked).1
    exact absurd ⟨valid, by rw [tracked.agree valid, unlinked]⟩ keep
  · rename_i r checked
    split at stepped
    · cases stepped
      exact tracked.reclaim checked
    · rename_i more
      cases stepped
      refine tracked.passOver (by simp [checked, Position.Holding]) (by rw [checked]; rfl) ?_
      exact tracked.other_pending (by simp [checked]) (by simp [checked, more])
  · cases stepped

theorem Tracked.iputDrop (stepped : iputDrop s p = some t)
    : Tracked original t := by
  obtain ⟨dropping, ⟨⟩⟩ := Option.ite_none_right_eq_some.mp stepped
  have weight : (s.proc p).weight = (s.proc p).refs + 1 := by
    simp [Proc.weight, dropping, Position.free]
  have bound := le_total Proc.weight s.proc p
  have counted := tracked.counted
  refine tracked.move ?_ (fun holding => absurd rfl holding.1) (fun q _ => tracked.holder q)
    (fun again => (nomatch again)) (by simp [Position.Loaded]) ?_
  · simp only [Proc.weight, dropping, Position.free, if_true, Bool.false_eq_true, if_false]
    omega
  · intro allocated unlinked
    exact (tracked.other_pending (by simp [dropping]) (by simp [dropping]) allocated
      unlinked).imp_left Or.inl

/-- A careful step keeps the invariant. -/
theorem Tracked.step {label : Step ι} (careful : Careful s label) (stepped : step s label = some t)
    : Tracked original t := by
  cases label with
  | iget p =>
    simp only [Icache.step, iget] at stepped
    split at stepped
    · split at stepped
      · cases stepped
        exact tracked.gain p
      · cases stepped
        exact tracked.recycle (by omega) p
    · cases stepped
  | idup p q =>
    obtain ⟨_, ⟨⟩⟩ := Option.ite_none_right_eq_some.mp stepped
    exact tracked.gain q
  | ilock p => exact tracked.ilock stepped
  | unlink p =>
    obtain ⟨⟨locked, _⟩, ⟨⟩⟩ := Option.ite_none_right_eq_some.mp stepped
    exact tracked.unlink locked rfl rfl
  | iunlock p => exact tracked.iunlock stepped
  | iputLock p => exact tracked.iputLock stepped
  | iputReadRef p => exact tracked.iputReadRef careful stepped
  | iputUnlock p => exact tracked.iputUnlock stepped
  | iputDrop p => exact tracked.iputDrop stepped

end

/-- Unlinked inodes are reclaimed in every run whose `iput`s read the count carefully. -/
theorem reclaimed_of_careful {disk : Inode} {bitmap : Finset UInt32} {labels : List (Step ι)}
    {t : State ι} (allocated : disk.type ≠ 0) (linked : disk.nlink ≠ 0)
    (reached : run Icache.step labels (.unused ι disk bitmap) = some t)
    (careful : Along Icache.step Careful labels (.unused ι disk bitmap))
    : Reclaimed disk.blocks t := by
  have tracked : Tracked disk.blocks t :=
    along_induction (motive := fun _ s => Tracked disk.blocks s)
      (Tracked.unused bitmap allocated linked)
      (fun _ _ _ _ tracked careful stepped => tracked.step careful stepped) reached careful
  exact tracked.reclaimed

/-- A file with one link and one block. -/
def oneLink : Inode := { type := 2, nlink := 1, blocks := {70} }

/-- Both processes look the file up and the first one unlinks it. -/
def unlinkShared : List (Step (Fin 2)) :=
  [.iget 0, .iget 1, .ilock 0, .unlink 0, .iunlock 0]

def iput (p : Fin 2) : List (Step (Fin 2)) :=
  [.iputLock p, .iputReadRef p, .iputUnlock p, .iputDrop p]

/-- One `iput` after the other frees the file. -/
theorem sequentialIputs_reclaimed
    : ∃ t, run Icache.step (unlinkShared ++ iput 0 ++ iput 1) (.unused (Fin 2) oneLink {70})
            = some t
        ∧ Reclaimed oneLink.blocks t := by
  obtain ⟨t, reached⟩ : ∃ t, run Icache.step (unlinkShared ++ iput 0 ++ iput 1)
      (.unused (Fin 2) oneLink {70}) = some t := by decide
  exact ⟨t, reached, reclaimed_of_careful (by decide) (by decide) reached (by decide)⟩

/-- Two `iput`s that both read the count before either drops its reference leak the file. -/
theorem crossedIputs_not_reclaimed
    : ∃ t, run Icache.step
            (unlinkShared
              ++ [.iputLock 0, .iputReadRef 0, .iputUnlock 0]
              ++ [.iputLock 1, .iputReadRef 1, .iputUnlock 1]
              ++ [.iputDrop 0, .iputDrop 1])
            (.unused (Fin 2) oneLink {70})
            = some t
        ∧ ¬Reclaimed oneLink.blocks t := by
  refine ⟨_, rfl, ?_⟩
  intro reclaimed
  have freed := reclaimed (by decide) rfl rfl
  exact absurd freed.1 (by decide)

end Xv6.Icache
