import Xv6.Files.Tokens
import Xv6.Lib.ProcessSum

/-! The tables agree with the tokens of all processes together: every counter is the number of
references that exist, and a lock, a table and a pipe end have one owner.
-/

namespace Xv6.Files

open Lib Fs
open Function (update update_self update_of_ne update_eq_self)
open Multiset (count_add count_singleton count_singleton_self mem_map_of_mem)

section Parts

/-! What a token says about each of the tables. -/

@[simp] def Token.handles : Token → Multiset (Fin nfile × Kind)
  | .file f k => {(f, k)}
  | .locked ip _ (some f) => {(f, .inode ip)}
  | _ => 0

@[simp] def Token.refs : Token → Multiset (Fin ninode)
  | .ref ip | .locked ip _ none => {ip}
  | _ => 0

@[simp] def Token.views : Token → Multiset (Fin ninode × View)
  | .locked ip v _ => {(ip, v)}
  | _ => 0

@[simp] def Token.ends : Token → Multiset (Nat × Bool)
  | .pend q writable => {(q, writable)}
  | _ => 0

@[simp] def Token.blanks : Token → Multiset Nat
  | .blank q => {q}
  | _ => 0

@[simp] def Token.pages : Token → Multiset Nat
  | .page q => {q}
  | _ => 0

@[simp] def Token.mes : Token → Multiset (Fin nproc)
  | .me p => {p}
  | _ => 0

@[simp] def Token.embryos : Token → Multiset (Fin nproc)
  | .embryo p => {p}
  | _ => 0

@[simp] def Token.tables
    : Token → Multiset (Fin nproc × (Fin nofile → Option (Fin nfile)) × Option (Fin ninode))
  | .table p o c => {(p, o, c)}
  | _ => 0

@[simp] def Token.ops : Token → Multiset Unit
  | .op => {()}
  | _ => 0

end Parts

theorem count_fst_eq_zero {α β : Type} [DecidableEq α] {pairs : Multiset (α × β)} {a : α}
    (none : ∀ b, (a, b) ∉ pairs)
    : (pairs.map Prod.fst).count a = 0 := by
  refine Multiset.count_eq_zero.mpr fun mem => ?_
  obtain ⟨⟨_, b⟩, paired, rfl⟩ := Multiset.mem_map.mp mem
  exact none b paired

theorem mem_pair_add {α β : Type} {pairs : Multiset (α × β)} {a a' : α} {b b' : β}
    : (a', b') ∈ {(a, b)} + pairs ↔ a' = a ∧ b' = b ∨ (a', b') ∈ pairs := by
  simp

section Files

/-- Whether a file counts among the open files of a kind. -/
def File.counts (file : File) (k : Kind) : Nat := if 0 < file.ref ∧ file.kind = k then 1 else 0

/-- The number of open files of a kind. -/
def opened (file : Fin nfile → File) (k : Kind) : Nat :=
  total (fun file => file.counts k) file

/-- The reference counts of the files, given who has what. A file that is being made has a single
reference.
-/
structure FileInv (file : Fin nfile → File) (held : Multiset (Fin nfile × Kind)) : Prop where
  count : ∀ f, (file f).ref = (held.map Prod.fst).count f
  kind : ∀ f k, (f, k) ∈ held → (file f).kind = k
  closed : ∀ f, (file f).ref = 0 → (file f).type = .none
  single : ∀ f, (file f).type = .none → (file f).ref ≤ 1

variable {file : Fin nfile → File} {held : Multiset (Fin nfile × Kind)} {f : Fin nfile} {k : Kind}

theorem opened_update (file : Fin nfile → File) (f : Fin nfile) (new : File) (k : Kind)
    : opened (update file f new) k + (file f).counts k
      = opened file k + new.counts k := by
  have changed := total_update (fun file : File => file.counts k) file f new
  exact changed

theorem opened_eq_card (file : Fin nfile → File) (k : Kind)
    : opened file k
      = (Finset.univ.filter fun f => 0 < (file f).ref ∧ (file f).kind = k).card := by
  unfold opened total File.counts
  exact (Finset.card_filter ..).symm

theorem opened_pos (inv : FileInv file held) (mem : (f, k) ∈ held) : 0 < opened file k := by
  have counted : 0 < (held.map Prod.fst).count f :=
    Multiset.count_pos.mpr (mem_map_of_mem Prod.fst mem)
  have one : (file f).counts k = 1 := by
    rw [File.counts, if_pos ⟨inv.count f ▸ counted, inv.kind f k mem⟩]
  calc 0 < (file f).counts k := by rw [one]; exact Nat.one_pos
    _ ≤ opened file k := le_total (fun file => file.counts k) file f

theorem kind_eq_none {file : File} : file.kind = .none ↔ file.type = .none := by
  unfold File.kind
  cases file.type <;> simp

/-- One file changes together with the references to it. -/
theorem FileInv.set {old got : Multiset (Fin nfile × Kind)} (inv : FileInv file (old + held))
    (new : File) (only : ∀ g k, (g, k) ∈ old + got → g = f)
    (count
      : new.ref + (old.map Prod.fst).count f = (file f).ref + (got.map Prod.fst).count f)
    (kind : ∀ k, (f, k) ∈ got + held → new.kind = k) (closed : new.ref = 0 → new.type = .none)
    (single : new.type = .none → new.ref ≤ 1)
    : FileInv (update file f new) (got + held) := by
  have elsewhere : ∀ g, g ≠ f
      → (old.map Prod.fst).count g = 0 ∧ (got.map Prod.fst).count g = 0 := fun g ne =>
    ⟨count_fst_eq_zero fun k mem => ne (only g k (Multiset.mem_add.mpr (.inl mem))),
      count_fst_eq_zero fun k mem => ne (only g k (Multiset.mem_add.mpr (.inr mem)))⟩
  have before := inv.count
  simp only [Multiset.map_add, count_add] at before
  refine ⟨fun g => ?_, fun g k mem => ?_, fun g => ?_, fun g => ?_⟩
  · rw [Multiset.map_add, count_add]
    by_cases same : g = f
    · subst same
      rw [update_self]
      have := before g
      omega
    · rw [update_of_ne same, before g, (elsewhere g same).1, (elsewhere g same).2]
  · by_cases same : g = f
    · subst same
      rw [update_self]
      exact kind k mem
    · rw [update_of_ne same]
      refine inv.kind g k (Multiset.mem_add.mpr (.inr ?_))
      refine (Multiset.mem_add.mp mem).resolve_left fun inGot => same (only g k ?_)
      exact Multiset.mem_add.mpr (.inr inGot)
  · by_cases same : g = f
    · subst same
      rw [update_self]
      exact closed
    · rw [update_of_ne same]
      exact inv.closed g
  · by_cases same : g = f
    · subst same
      rw [update_self]
      exact single
    · rw [update_of_ne same]
      exact inv.single g

theorem FileInv.ref_pos (inv : FileInv file ({(f, k)} + held))
    : (file f).kind = k ∧ (file f).ref = 1 + (held.map Prod.fst).count f := by
  refine ⟨inv.kind f k (by simp), ?_⟩
  have count := inv.count f
  rwa [Multiset.map_add, Multiset.map_singleton, count_add,
    count_singleton_self] at count

/-- `filealloc` takes a file without references. -/
theorem FileInv.alloc (inv : FileInv file held) (free : (file f).ref = 0)
    : FileInv (update file f { file f with ref := 1 }) ({(f, .none)} + held)
      ∧ ∀ k, k ≠ .none
          → opened (update file f { file f with ref := 1 }) k = opened file k := by
  have type := inv.closed f free
  have kind : (file f).kind = .none := kind_eq_none.mpr type
  constructor
  · have before : FileInv file (0 + held) := by simpa using inv
    have none : (held.map Prod.fst).count f = 0 := (inv.count f).symm.trans free
    refine before.set _ (fun g k mem => ?_) ?_ (fun k mem => ?_) (fun empty => by cases empty)
      fun _ => Nat.le_refl 1
    · simp only [zero_add, Multiset.mem_singleton, Prod.mk.injEq] at mem
      exact mem.1
    · simp [free]
    · rcases mem_pair_add.mp mem with ⟨-, rfl⟩ | mem
      · exact kind
      · exact absurd (mem_map_of_mem Prod.fst mem) (Multiset.count_eq_zero.mp none)
  · intro k other
    have total := opened_update file f { file f with ref := 1 } k
    have new : File.counts { file f with ref := 1 } k = 0 :=
      if_neg fun both => other (both.2.symm.trans kind)
    have old : (file f).counts k = 0 := if_neg fun both => Nat.ne_of_gt both.1 free
    omega

/-- The number of references changes, but stays positive. -/
theorem FileInv.recount (inv : FileInv file ({(f, k)} + held)) (n : Nat)
    (got : Multiset (Fin nfile × Kind)) (only : ∀ x ∈ got, x = (f, k)) (positive : 0 < n)
    (made : k ≠ .none ∨ n ≤ 1) (count : n = got.card + (held.map Prod.fst).count f)
    : FileInv (update file f { file f with ref := n }) (got + held)
      ∧ ∀ k, opened (update file f { file f with ref := n }) k = opened file k := by
  obtain ⟨kind, ref⟩ := inv.ref_pos
  constructor
  · refine inv.set _ (fun g k' mem => ?_) ?_ (fun k' mem => ?_) (fun empty => ?_) fun type => ?_
    · rcases Multiset.mem_add.mp mem with mem | mem
      · exact (Prod.mk.inj (Multiset.mem_singleton.mp mem)).1
      · exact (Prod.mk.inj (only _ mem)).1
    · have all : (got.map Prod.fst).count f = got.card := by
        rw [Multiset.eq_replicate.mpr ⟨rfl, only⟩]
        simp
      simp only [all, Multiset.map_singleton, count_singleton_self]
      omega
    · rcases Multiset.mem_add.mp mem with mem | mem
      · rw [(Prod.mk.inj (only _ mem)).2]
        exact kind
      · exact inv.kind f k' (Multiset.mem_add.mpr (.inr mem))
    · exact absurd empty (Nat.ne_of_gt positive)
    · refine made.resolve_left fun other => other ?_
      rw [← kind]
      exact kind_eq_none.mpr type
  · intro k'
    have total := opened_update file f { file f with ref := n } k'
    have same : File.counts { file f with ref := n } k' = (file f).counts k' := by
      have old : 0 < (file f).ref := by omega
      simp only [File.counts, positive, old, true_and]
      rfl
    omega

/-- The last reference to a file is dropped. -/
theorem FileInv.last (inv : FileInv file ({(f, k)} + held)) (one : (file f).ref = 1)
    : FileInv (update file f { file f with ref := 0, type := .none }) held
      ∧ ∀ k', opened (update file f { file f with ref := 0, type := .none }) k'
          + (if k = k' then 1 else 0) = opened file k' := by
  obtain ⟨kind, ref⟩ := inv.ref_pos
  constructor
  · rw [← zero_add held]
    refine inv.set _ (fun g k' mem => ?_) (by simp [one]) (fun k' mem => ?_) (fun _ => rfl)
      fun _ => Nat.zero_le 1
    · simp only [add_zero, Multiset.mem_singleton, Prod.mk.injEq] at mem
      exact mem.1
    · rw [zero_add] at mem
      have : 0 < (held.map Prod.fst).count f :=
        Multiset.count_pos.mpr (mem_map_of_mem Prod.fst mem)
      omega
  · intro k'
    have total := opened_update file f { file f with ref := 0, type := .none } k'
    have new : File.counts { file f with ref := 0, type := .none } k' = 0 :=
      if_neg fun both => Nat.lt_irrefl 0 both.1
    have old : (file f).counts k' = if k = k' then 1 else 0 := by
      simp [File.counts, one, kind]
    omega

/-- A file that is being made gets its type. -/
theorem FileInv.install (inv : FileInv file ({(f, .none)} + held)) (new : File)
    (ref : new.ref = (file f).ref) (made : new.type ≠ .none)
    : FileInv (update file f new) ({(f, new.kind)} + held)
      ∧ ∀ k, k ≠ .none
          → opened (update file f new) k
            = opened file k + if new.kind = k then 1 else 0 := by
  obtain ⟨kind, count⟩ := inv.ref_pos
  have single := inv.single f (kind_eq_none.mp kind)
  constructor
  · refine inv.set new (fun g k' mem => ?_) ?_ (fun k' mem => ?_) (fun empty => ?_)
      fun type => absurd type made
    · simp only [Multiset.mem_add, Multiset.mem_singleton, Prod.mk.injEq] at mem
      exact mem.elim And.left And.left
    · simp [ref]
    · rcases mem_pair_add.mp mem with ⟨-, rfl⟩ | mem
      · rfl
      · have : 0 < (held.map Prod.fst).count f :=
          Multiset.count_pos.mpr (mem_map_of_mem Prod.fst mem)
        omega
    · omega
  · intro k other
    have total := opened_update file f new k
    have old : (file f).counts k = 0 := if_neg fun both => other (both.2.symm.trans kind)
    have now : new.counts k = if new.kind = k then 1 else 0 := by
      have : 0 < new.ref := by omega
      simp [File.counts, this]
    omega

end Files

section Cache

/-- Two entries of the inode cache stand for the same disk inode. -/
def Inode.SameKey (i j : Inode) : Prop := i.dev = j.dev ∧ i.inum = j.inum

/-- What the lock holder knows of an entry is so, `disk` being the disk inode. -/
structure View.Matches (v : View) (i : Inode) (disk : Dinode) : Prop where
  valid : i.valid = v.valid
  copy : i.copy = v.copy
  synced : v.synced = true → disk = i.copy ∧ i.copy.type ≠ 0

/-- An entry with a reference that nobody has locked is as on disk. -/
def Inode.Synced (i : Inode) (disk : Dinode) : Prop :=
  0 < i.ref → i.locked = false → i.valid = true → disk = i.copy ∧ i.copy.type ≠ 0

/-- The inode cache, given the references and the locks that processes have and the number of open
files that refer to each entry.
-/
structure CacheInv (I : Prop) (inode : Fin ninode → Inode) (dinode : Nat → Nat → Dinode)
    (files : Fin ninode → Nat) (refs : Multiset (Fin ninode))
    (views : Multiset (Fin ninode × View)) : Prop where
  count : ∀ ip, (inode ip).ref = refs.count ip + files ip
  lock : ∀ ip, (views.map Prod.fst).count ip = if (inode ip).locked then 1 else 0
  view : ∀ ip v, (ip, v) ∈ views → v.Matches (inode ip) (dinode (inode ip).dev (inode ip).inum)
  sync : I → ∀ ip, (inode ip).Synced (dinode (inode ip).dev (inode ip).inum)
  unique : ∀ ip jp, 0 < (inode ip).ref → 0 < (inode jp).ref → (inode ip).SameKey (inode jp)
    → ip = jp
  whole : I → ∀ dev inum, Whole (dinode dev inum)

variable {I : Prop} {inode : Fin ninode → Inode} {dinode : Nat → Nat → Dinode}
  {files : Fin ninode → Nat} {refs refs' : Multiset (Fin ninode)}
  {views views' : Multiset (Fin ninode × View)} {ip : Fin ninode} {v : View}
variable {dev inum : Nat} {w : View} {d : Dinode}

/-- References may move between processes and files. -/
theorem CacheInv.congr (inv : CacheInv I inode dinode files refs views)
    (files' : Fin ninode → Nat) (refs' : Multiset (Fin ninode))
    (count : ∀ jp, refs'.count jp + files' jp = refs.count jp + files jp)
    : CacheInv I inode dinode files' refs' views :=
  ⟨fun jp => (inv.count jp).trans (count jp).symm, inv.lock, inv.view, inv.sync, inv.unique,
    inv.whole⟩

/-- One entry changes together with the references and locks of it. -/
theorem CacheInv.set (inv : CacheInv I inode dinode files refs views) (new : Inode)
    (count : refs'.count ip + files ip = new.ref)
    (counts : ∀ jp, jp ≠ ip → refs'.count jp = refs.count jp)
    (lock : (views'.map Prod.fst).count ip = if new.locked then 1 else 0)
    (locks : ∀ jp, jp ≠ ip → (views'.map Prod.fst).count jp = (views.map Prod.fst).count jp)
    (others : ∀ jp v, jp ≠ ip → (jp, v) ∈ views' → (jp, v) ∈ views)
    (view : ∀ v, (ip, v) ∈ views' → v.Matches new (dinode new.dev new.inum))
    (sync : I → new.Synced (dinode new.dev new.inum))
    (unique : 0 < new.ref → ∀ jp, jp ≠ ip → 0 < (inode jp).ref → ¬(inode jp).SameKey new)
    : CacheInv I (update inode ip new) dinode files refs' views' := by
  have elsewhere : ∀ {jp}, jp ≠ ip → update inode ip new jp = inode jp :=
    fun ne => update_of_ne ne ..
  have here : update inode ip new ip = new := update_self ..
  refine ⟨fun jp => ?_, fun jp => ?_, fun jp v mem => ?_, fun i jp => ?_, fun jp kp => ?_,
    inv.whole⟩
  · by_cases same : jp = ip
    · rw [same, here, count]
    · rw [elsewhere same, counts jp same, inv.count]
  · by_cases same : jp = ip
    · rw [same, here, lock]
    · rw [elsewhere same, locks jp same, inv.lock]
  · by_cases same : jp = ip
    · subst same
      rw [here]
      exact view v mem
    · rw [elsewhere same]
      exact inv.view jp v (others jp v same mem)
  · by_cases same : jp = ip
    · rw [same, here]
      exact sync i
    · rw [elsewhere same]
      exact inv.sync i jp
  · intro used used' key
    by_cases first : jp = ip <;> by_cases second : kp = ip
    · rw [first, second]
    · rw [first, here] at used key
      rw [elsewhere second] at used' key
      exact absurd ⟨key.1.symm, key.2.symm⟩ (unique used kp second used')
    · rw [elsewhere first] at used key
      rw [second, here] at used' key
      exact absurd key (unique used' jp first used)
    · rw [elsewhere first] at used key
      rw [elsewhere second] at used' key
      exact inv.unique jp kp used used' key

/-- Nobody else knows anything about an entry that a process has locked. -/
theorem CacheInv.holder (inv : CacheInv I inode dinode files refs ({(ip, v)} + views))
    : (inode ip).locked = true ∧ ∀ w, (ip, w) ∉ views := by
  have lock := inv.lock ip
  simp only [Multiset.map_add, Multiset.map_singleton, count_add,
    count_singleton_self] at lock
  split at lock
  · rename_i locked
    refine ⟨locked, fun w mem => ?_⟩
    have : 0 < (views.map Prod.fst).count ip :=
      Multiset.count_pos.mpr (mem_map_of_mem Prod.fst mem)
    omega
  · omega

/-- Nobody knows anything for sure about an entry that nobody has locked. -/
theorem CacheInv.unviewed (inv : CacheInv I inode dinode files refs views)
    (unlocked : (inode ip).locked = false) (w : View)
    : (ip, w) ∉ views := by
  have none : (views.map Prod.fst).count ip = 0 := by
    rw [inv.lock ip, unlocked]
    rfl
  exact fun mem => Multiset.count_eq_zero.mp none (mem_map_of_mem Prod.fst mem)

theorem CacheInv.recount (inv : CacheInv I inode dinode files refs views) (n : Nat)
    (refs' : Multiset (Fin ninode)) (used : 0 < (inode ip).ref)
    (count : refs'.count ip + files ip = n)
    (counts : ∀ jp, jp ≠ ip → refs'.count jp = refs.count jp)
    : CacheInv I (update inode ip { inode ip with ref := n }) dinode files refs' views := by
  refine inv.set { inode ip with ref := n } count counts (inv.lock ip) (fun _ _ => rfl)
    (fun _ _ _ mem => mem) (fun v mem => ?_) (fun i _ => inv.sync i ip used) ?_
  · obtain ⟨valid, copy, synced⟩ := inv.view ip v mem
    exact ⟨valid, copy, synced⟩
  · intro _ jp ne used' key
    exact ne (inv.unique jp ip used' used key)

/-- `iget` gives an unused entry to an inode that is not in the cache. -/
theorem CacheInv.recycle (inv : CacheInv I inode dinode files refs views)
    (unused : (inode ip).ref = 0) (unlocked : (inode ip).locked = false)
    (absent : ∀ jp, 0 < (inode jp).ref → ¬((inode jp).dev = dev ∧ (inode jp).inum = inum))
    : CacheInv I
        (update inode ip
          { inode ip with dev := dev, inum := inum, ref := 1, valid := false })
        dinode files ({ip} + refs) views := by
  refine inv.set _ ?_ (fun jp ne => by simp [ne]) (inv.lock ip) (fun _ _ => rfl)
    (fun _ _ _ mem => mem) (fun v mem => absurd mem (inv.unviewed unlocked v))
    (fun _ _ _ valid => by cases valid) ?_
  · have count := inv.count ip
    rw [unused] at count
    rw [count_add, count_singleton_self]
    dsimp only
    omega
  · exact fun _ jp _ used key => absent jp used key

/-- The entry of a locked inode is changed by the process that has locked it. -/
theorem CacheInv.change (inv : CacheInv I inode dinode files refs ({(ip, v)} + views))
    (used : 0 < (inode ip).ref)
    (synced : w.synced = true
      → dinode (inode ip).dev (inode ip).inum = w.copy ∧ w.copy.type ≠ 0)
    : CacheInv I (update inode ip { inode ip with valid := w.valid, copy := w.copy })
        dinode files refs ({(ip, w)} + views) := by
  obtain ⟨locked, only⟩ := inv.holder
  refine inv.set _ (inv.count ip).symm (fun _ _ => rfl) ?_ (fun jp ne => by simp)
    (fun jp u ne mem => ?_) (fun u mem => ?_) (fun _ _ unlocked => ?_) ?_
  · simpa using inv.lock ip
  · rw [mem_pair_add] at mem ⊢
    exact mem.imp_left fun same => absurd same.1 ne
  · obtain ⟨-, rfl⟩ := (mem_pair_add.mp mem).resolve_right (only u)
    exact ⟨rfl, rfl, synced⟩
  · simp [locked] at unlocked
  · exact fun _ jp ne used' key => ne (inv.unique jp ip used' used key)

theorem CacheInv.acquire (inv : CacheInv I inode dinode files refs views)
    (used : 0 < (inode ip).ref) (unlocked : (inode ip).locked = false)
    (matching : w.Matches (inode ip) (dinode (inode ip).dev (inode ip).inum))
    : CacheInv I (update inode ip { inode ip with locked := true }) dinode files refs
        ({(ip, w)} + views) := by
  refine inv.set _ (inv.count ip).symm (fun _ _ => rfl) ?_ (fun jp ne => by simp [ne])
    (fun jp u ne mem => ?_) (fun u mem => ?_) (fun _ _ unlocked => by cases unlocked) ?_
  · simp [count_fst_eq_zero (inv.unviewed unlocked)]
  · exact (mem_pair_add.mp mem).resolve_left fun same => ne same.1
  · rcases mem_pair_add.mp mem with ⟨-, rfl⟩ | mem
    · exact ⟨matching.valid, matching.copy, matching.synced⟩
    · exact absurd mem (inv.unviewed unlocked u)
  · exact fun _ jp ne used' key => ne (inv.unique jp ip used' used key)

theorem CacheInv.release (inv : CacheInv I inode dinode files refs ({(ip, v)} + views))
    (used : 0 < (inode ip).ref) (clean : v.Clean I)
    : CacheInv I (update inode ip { inode ip with locked := false }) dinode files refs
        views := by
  obtain ⟨locked, only⟩ := inv.holder
  obtain ⟨valid, copy, synced⟩ := inv.view ip v (by simp)
  refine inv.set _ (inv.count ip).symm (fun _ _ => rfl) (count_fst_eq_zero only)
    (fun jp ne => by simp [ne]) (fun jp u ne mem => Multiset.mem_add.mpr (.inr mem))
    (fun u mem => absurd mem (only u)) (fun i _ _ valid' => ?_) ?_
  · exact synced (clean (valid ▸ valid') i).synced
  · exact fun _ jp ne used' key => ne (inv.unique jp ip used' used key)

theorem update_update_apply {α : Type} (g : Nat → Nat → α) (a b a' b' : Nat) (x : α)
    : update g a (update (g a) b x) a' b'
      = if a' = a ∧ b' = b then x else g a' b' := by
  by_cases first : a' = a
  · subst first
    by_cases second : b' = b <;> simp [second]
  · simp [first]

/-- A disk inode changes that no entry without a lock, and no known view, is the same as. -/
theorem CacheInv.write (inv : CacheInv I inode dinode files refs views) (dev inum : Nat)
    (whole : I → Whole d)
    (view : ∀ jp w, (jp, w) ∈ views → w.synced = true → (inode jp).dev = dev
      → (inode jp).inum = inum → d = (inode jp).copy ∧ (inode jp).copy.type ≠ 0)
    (sync : I → ∀ jp, 0 < (inode jp).ref → (inode jp).locked = false → (inode jp).valid = true
      → ¬((inode jp).dev = dev ∧ (inode jp).inum = inum))
    : CacheInv I inode (update dinode dev (update (dinode dev) inum d)) files
        refs views := by
  refine ⟨inv.count, inv.lock, fun jp w mem => ?_, fun i jp used unlocked valid => ?_, inv.unique,
    fun i dev' inum' => ?_⟩
  · obtain ⟨valid, copy, synced⟩ := inv.view jp w mem
    refine ⟨valid, copy, fun isSynced => ?_⟩
    rw [update_update_apply]
    split
    · rename_i key
      exact view jp w mem isSynced key.1 key.2
    · exact synced isSynced
  · rw [update_update_apply, if_neg (sync i jp used unlocked valid)]
    exact inv.sync i jp used unlocked valid
  · rw [update_update_apply]
    split
    · exact whole i
    · exact inv.whole i dev' inum'

/-- `ialloc` takes a disk inode that is not in use. -/
theorem CacheInv.alloc (inv : CacheInv I inode dinode files refs views)
    (free : (dinode dev inum).type = 0) (whole : Whole d)
    : CacheInv I inode (update dinode dev (update (dinode dev) inum d)) files
        refs views := by
  refine inv.write dev inum (fun _ => whole) ?_ ?_
  · rintro jp w mem synced rfl rfl
    obtain ⟨same, used⟩ := (inv.view jp w mem).synced synced
    rw [same] at free
    exact absurd free used
  · rintro i jp used unlocked valid ⟨rfl, rfl⟩
    obtain ⟨same, type⟩ := inv.sync i jp used unlocked valid
    rw [same] at free
    exact type free

/-- `iupdate` by the process that has locked the inode. -/
theorem CacheInv.iupdate (inv : CacheInv I inode dinode files refs ({(ip, v)} + views))
    (whole : I → Whole v.copy) (used : 0 < (inode ip).ref)
    (lockers : ∀ jp w, (jp, w) ∈ views → 0 < (inode jp).ref)
    : CacheInv I inode
        (update dinode (inode ip).dev
          (update (dinode (inode ip).dev) (inode ip).inum (inode ip).copy))
        files refs ({(ip, v.sync v.copy)} + views) := by
  obtain ⟨locked, only⟩ := inv.holder
  obtain ⟨valid, copy, _⟩ := inv.view ip v (by simp)
  -- nobody else has a view of this disk inode
  have apart : ∀ jp, jp ≠ ip → 0 < (inode jp).ref → ¬(inode jp).SameKey (inode ip) :=
    fun jp ne used' key => ne (inv.unique jp ip used' used key)
  have forgotten : CacheInv I inode dinode files refs ({(ip, v.store v.copy)} + views) := by
    have changed := inv.change (w := v.store v.copy) used (by simp [View.store])
    have same : { inode ip with valid := (v.store v.copy).valid, copy := (v.store v.copy).copy }
        = inode ip := by
      rw [View.store, ← valid, ← copy]
    rwa [same, update_eq_self] at changed
  have written := forgotten.write (inode ip).dev (inode ip).inum (copy ▸ whole) ?_ ?_
  · have changed := written.change (w := v.sync v.copy) used ?_
    · have same : { inode ip with valid := (v.sync v.copy).valid, copy := (v.sync v.copy).copy }
          = inode ip := by
        rw [View.sync, ← valid, ← copy]
      rwa [same, update_eq_self] at changed
    · intro synced
      rw [update_update_apply, if_pos ⟨rfl, rfl⟩]
      exact ⟨copy, of_decide_eq_true synced⟩
  · intro jp w mem synced dev inum
    simp only [Multiset.mem_add, Multiset.mem_singleton, Prod.mk.injEq] at mem
    rcases mem with ⟨rfl, rfl⟩ | mem
    · simp [View.store] at synced
    · refine absurd ⟨dev, inum⟩ (apart jp ?_ (lockers jp w mem))
      rintro rfl
      exact only w mem
  · intro _ jp used' unlocked _ key
    refine apart jp ?_ used' key
    rintro rfl
    simp [locked] at unlocked

end Cache

section Pipes

/-- The pipes, given the ends that were closed, the pages that are no pipes yet or no more, and the
number of open files of each end. A page becomes a pipe once, and is freed once.
-/
structure PipeInv (pipe : Nat → Pipe) (made : Nat) (files : Nat → Bool → Nat)
    (ends : Multiset (Nat × Bool)) (blanks pages : Multiset Nat) : Prop where
  flag : ∀ q w, ((pipe q).isOpen w).toNat = ends.count (q, w) + files q w
  blank : ∀ q, blanks.count q + (pipe q).inits = (decide (q < made)).toNat
  page : ∀ q, pages.count q + (!(pipe q).isShut).toNat + (pipe q).kfrees = (pipe q).inits

variable {pipe : Nat → Pipe} {made : Nat} {files : Nat → Bool → Nat}
  {ends : Multiset (Nat × Bool)} {blanks pages : Multiset Nat} {q : Nat} {w : Bool}

theorem isOpen_of_isShut {pi : Pipe} (shut : pi.isShut = true) : pi.isOpen w = false := by
  cases w <;> simp_all [Pipe.isShut, Pipe.isOpen]

theorem isOpen_close (pi : Pipe) (w w' : Bool)
    : (pi.close w).isOpen w' = (decide (w' ≠ w) && pi.isOpen w') := by
  cases w <;> cases w' <;> rfl

theorem isShut_eq_false {pi : Pipe} (isOpen : pi.isOpen w = true) : pi.isShut = false := by
  cases w <;> simp_all [Pipe.isShut, Pipe.isOpen]

section

variable (inv : PipeInv pipe made files ends blanks pages)
include inv

theorem PipeInv.congr (files' : Nat → Bool → Nat) (ends' : Multiset (Nat × Bool))
    (count : ∀ q w, ends'.count (q, w) + files' q w = ends.count (q, w) + files q w)
    : PipeInv pipe made files' ends' blanks pages :=
  ⟨fun q w => (inv.flag q w).trans (count q w).symm, inv.blank, inv.page⟩

/-- One pipe changes together with the tokens for it. -/
theorem PipeInv.set (new : Pipe) {files' : Nat → Bool → Nat} {ends' : Multiset (Nat × Bool)}
    {blanks' pages' : Multiset Nat}
    (flag : ∀ w, (new.isOpen w).toNat = ends'.count (q, w) + files' q w)
    (blank : blanks'.count q + new.inits = (decide (q < made)).toNat)
    (page : pages'.count q + (!new.isShut).toNat + new.kfrees = new.inits)
    (same : ∀ r, r ≠ q → (∀ w, ends'.count (r, w) + files' r w = ends.count (r, w) + files r w)
      ∧ blanks'.count r = blanks.count r ∧ pages'.count r = pages.count r)
    : PipeInv (update pipe q new) made files' ends' blanks' pages' := by
  refine ⟨fun r w => ?_, fun r => ?_, fun r => ?_⟩ <;> by_cases isSelf : r = q
  · rw [isSelf, update_self, flag]
  · rw [update_of_ne isSelf, inv.flag, (same r isSelf).1]
  · rw [isSelf, update_self, blank]
  · rw [update_of_ne isSelf, (same r isSelf).2.1, inv.blank]
  · rw [isSelf, update_self, page]
  · rw [update_of_ne isSelf, (same r isSelf).2.2, inv.page]

theorem PipeInv.kalloc
    : PipeInv pipe (made + 1) files ends ({made} + blanks) pages := by
  refine ⟨inv.flag, fun q => ?_, inv.page⟩
  have blank := inv.blank q
  rw [count_add, count_singleton]
  rcases Nat.lt_trichotomy q made with less | rfl | more
  · simp only [less, decide_true, Nat.lt_succ_of_lt less, if_neg (Nat.ne_of_lt less)] at blank ⊢
    omega
  · simp only [lt_irrefl, decide_false, Nat.lt_succ_self, decide_true, if_true,
      Bool.toNat_false, Bool.toNat_true] at blank ⊢
    omega
  · have above : ¬q < made + 1 := by omega
    have above' : ¬q < made := by omega
    simp only [above, above', decide_false, if_neg (Nat.ne_of_gt more)] at blank ⊢
    omega

/-- A page that is no pipe yet has never been one. -/
theorem PipeInv.inits_eq_zero (mem : q ∈ blanks)
    : (pipe q).inits = 0 := by
  have blank := inv.blank q
  have counted := Multiset.count_pos.mpr mem
  have small := Bool.toNat_le (decide (q < made))
  omega

theorem PipeInv.isShut_of_inits (never : (pipe q).inits = 0)
    : (pipe q).isShut = true := by
  have page := inv.page q
  cases shut : (pipe q).isShut with
  | true => rfl
  | false =>
    rw [shut, Bool.not_false, Bool.toNat_true] at page
    omega

end

theorem PipeInv.init (inv : PipeInv pipe made files ends ({q} + blanks) pages)
    (files' : Nat → Bool → Nat) (count : ∀ r w, files' r w = files r w + if r = q then 1 else 0)
    : PipeInv (update pipe q
          { pipe q with readopen := true, writeopen := true, inits := (pipe q).inits + 1 })
        made files' ends blanks pages := by
  have never := inv.inits_eq_zero (q := q) (by simp)
  have shut := inv.isShut_of_inits never
  have blank := inv.blank q
  have page := inv.page q
  rw [count_add, count_singleton_self] at blank
  rw [shut, Bool.not_true, Bool.toNat_false] at page
  refine inv.set _ (fun w => ?_) ?_ ?_ fun r ne => ⟨fun w => by simp [count, ne], by simp [ne], rfl⟩
  · have flag := inv.flag q w
    rw [isOpen_of_isShut shut, Bool.toNat_false] at flag
    rw [count, if_pos rfl]
    cases w <;> simp [Pipe.isOpen] <;> omega
  · dsimp only
    omega
  · simp [Pipe.isShut]
    omega

theorem PipeInv.close (inv : PipeInv pipe made files ({(q, w)} + ends) blanks pages)
    : PipeInv (update pipe q ((pipe q).close w)) made files ends blanks
        ((if ((pipe q).close w).isShut then {q} else 0) + pages) := by
  have was : (pipe q).isOpen w = true := by
    have flag := inv.flag q w
    rw [count_add, count_singleton_self] at flag
    cases isOpen : (pipe q).isOpen w with
    | true => rfl
    | false =>
      rw [isOpen, Bool.toNat_false] at flag
      omega
  have kept : ((pipe q).close w).inits = (pipe q).inits
      ∧ ((pipe q).close w).kfrees = (pipe q).kfrees := by
    cases w <;> exact ⟨rfl, rfl⟩
  refine inv.set _ (fun w' => ?_) (kept.1 ▸ inv.blank q) ?_
    fun r ne => ⟨fun w' => by simp [ne], rfl, ?_⟩
  · have flag := inv.flag q w'
    rw [count_add, count_singleton] at flag
    rw [isOpen_close]
    by_cases end' : w' = w
    · subst end'
      simp [was] at flag ⊢
      omega
    · simpa [end'] using flag
  · have page := inv.page q
    rw [isShut_eq_false was] at page
    rw [count_add, kept.1, kept.2]
    cases shut : ((pipe q).close w).isShut <;> simp at page ⊢ <;> omega
  · split <;> simp [ne]

theorem PipeInv.kfree (inv : PipeInv pipe made files ends blanks ({q} + pages))
    : PipeInv (update pipe q { pipe q with kfrees := (pipe q).kfrees + 1 }) made files
        ends blanks pages := by
  refine inv.set _ (inv.flag q) (inv.blank q) ?_ fun r ne => ⟨fun _ => rfl, rfl, by simp [ne]⟩
  have page := inv.page q
  rw [count_add, count_singleton_self] at page
  change _ + (!(pipe q).isShut).toNat + ((pipe q).kfrees + 1) = (pipe q).inits
  omega

end Pipes

section Processes

variable {proc : Fin nproc → Proc} {mes embryos : Multiset (Fin nproc)}
  {tables : Multiset (Fin nproc × (Fin nofile → Option (Fin nfile)) × Option (Fin ninode))}
  {p : Fin nproc} {o o' : Fin nofile → Option (Fin nfile)} {c c' : Option (Fin ninode)}

/-- The process table, given the live processes, those being made, and the tables in use. The
others have no files and no directory.
-/
structure ProcInv (proc : Fin nproc → Proc) (mes embryos : Multiset (Fin nproc))
    (tables : Multiset (Fin nproc × (Fin nofile → Option (Fin nfile)) × Option (Fin ninode)))
    : Prop where
  live : ∀ p, mes.count p = if (proc p).state = .live then 1 else 0
  embryo : ∀ p, embryos.count p = if (proc p).state = .embryo then 1 else 0
  owner : ∀ p, (tables.map Prod.fst).count p
    = if (proc p).state = .live ∨ (proc p).state = .embryo then 1 else 0
  table : ∀ p o c, (p, o, c) ∈ tables → (proc p).ofile = o ∧ (proc p).cwd = c
  empty : ∀ p, (proc p).state = .unused ∨ (proc p).state = .zombie
    → (proc p).ofile = (fun _ => none) ∧ (proc p).cwd = none

/-- One process changes together with the tokens for it. -/
theorem ProcInv.set (inv : ProcInv proc mes embryos tables) (new : Proc)
    {mes' embryos' : Multiset (Fin nproc)}
    {tables' : Multiset (Fin nproc × (Fin nofile → Option (Fin nfile)) × Option (Fin ninode))}
    (counts : mes'.count p = (if new.state = .live then 1 else 0)
      ∧ embryos'.count p = (if new.state = .embryo then 1 else 0)
      ∧ (tables'.map Prod.fst).count p
        = if new.state = .live ∨ new.state = .embryo then 1 else 0)
    (same : ∀ q, q ≠ p → mes'.count q = mes.count q ∧ embryos'.count q = embryos.count q
      ∧ (tables'.map Prod.fst).count q = (tables.map Prod.fst).count q)
    (others : ∀ q o c, q ≠ p → (q, o, c) ∈ tables' → (q, o, c) ∈ tables)
    (table : ∀ o c, (p, o, c) ∈ tables' → new.ofile = o ∧ new.cwd = c)
    (empty : new.state = .unused ∨ new.state = .zombie
      → new.ofile = (fun _ => none) ∧ new.cwd = none)
    : ProcInv (update proc p new) mes' embryos' tables' := by
  have elsewhere : ∀ {q}, q ≠ p → update proc p new q = proc q :=
    fun ne => update_of_ne ne ..
  have here : update proc p new p = new := update_self ..
  refine ⟨fun q => ?_, fun q => ?_, fun q => ?_, fun q o c mem => ?_, fun q => ?_⟩ <;>
    by_cases isSelf : q = p
  · rw [isSelf, here, counts.1]
  · rw [elsewhere isSelf, (same q isSelf).1, inv.live]
  · rw [isSelf, here, counts.2.1]
  · rw [elsewhere isSelf, (same q isSelf).2.1, inv.embryo]
  · rw [isSelf, here, counts.2.2]
  · rw [elsewhere isSelf, (same q isSelf).2.2, inv.owner]
  · subst isSelf
    rw [here]
    exact table o c mem
  · rw [elsewhere isSelf]
    exact inv.table q o c (others q o c isSelf mem)
  · rw [isSelf, here]
    exact empty
  · rw [elsewhere isSelf]
    exact inv.empty q

theorem ProcInv.counts (inv : ProcInv proc mes embryos tables) {state : ProcState}
    (is : (proc p).state = state)
    : mes.count p = (if state = .live then 1 else 0)
      ∧ embryos.count p = (if state = .embryo then 1 else 0)
      ∧ (tables.map Prod.fst).count p = if state = .live ∨ state = .embryo then 1 else 0 :=
  is ▸ ⟨inv.live p, inv.embryo p, inv.owner p⟩

theorem ProcInv.state_embryo (inv : ProcInv proc mes ({p} + embryos) tables)
    : (proc p).state = .embryo := by
  have embryo := inv.embryo p
  by_contra other
  simp [other] at embryo

/-- Nobody else may use the table of a process that someone uses. -/
theorem ProcInv.holder (inv : ProcInv proc mes embryos ({(p, o, c)} + tables))
    : ((proc p).state = .live ∨ (proc p).state = .embryo) ∧ ∀ o c, (p, o, c) ∉ tables := by
  have owner := inv.owner p
  simp only [Multiset.map_add, Multiset.map_singleton, count_add,
    count_singleton_self] at owner
  split at owner
  · rename_i active
    refine ⟨active, fun o c mem => ?_⟩
    have : 0 < (tables.map Prod.fst).count p :=
      Multiset.count_pos.mpr (mem_map_of_mem Prod.fst mem)
    omega
  · omega

theorem ProcInv.setTable (inv : ProcInv proc mes embryos ({(p, o, c)} + tables))
    : ProcInv (update proc p { proc p with ofile := o', cwd := c' }) mes embryos
        ({(p, o', c')} + tables) := by
  obtain ⟨active, only⟩ := inv.holder
  refine inv.set _ (by simpa using inv.counts (p := p) rfl) (fun q ne => by simp [ne])
    (fun q o c ne mem => ?_) (fun o c mem => ?_) (fun inactive => ?_)
  · rw [mem_pair_add] at mem ⊢
    exact mem.imp_left fun same => absurd same.1 ne
  · obtain ⟨-, same⟩ := (mem_pair_add.mp mem).resolve_right (only o c)
    cases same
    exact ⟨rfl, rfl⟩
  · rcases active with live | embryo
    · simp [live] at inactive
    · simp [embryo] at inactive

/-- `allocproc` takes a slot that is not in use. -/
theorem ProcInv.alloc (inv : ProcInv proc mes embryos tables) (unused : (proc p).state = .unused)
    : ProcInv (update proc p { proc p with state := .embryo }) mes ({p} + embryos)
        ({(p, (fun _ => none), none)} + tables) := by
  have counts := inv.counts unused
  simp only [reduceCtorEq, or_self, if_false] at counts
  refine inv.set _ (by simp [counts]) (fun q ne => by simp [ne])
    (fun q o c ne mem => (mem_pair_add.mp mem).resolve_left fun here => ne here.1)
    (fun o c mem => ?_) (fun inactive => by simp at inactive)
  rcases mem_pair_add.mp mem with ⟨-, same⟩ | mem
  · cases same
    exact inv.empty p (.inl unused)
  · exact absurd (mem_map_of_mem Prod.fst mem) (Multiset.count_eq_zero.mp counts.2.2)

/-- A slot is given back: by a `fork` that fails, or by `wait`. -/
theorem ProcInv.free (inv : ProcInv proc mes ({p} + embryos) ({(p, (fun _ => none), none)} + tables))
    : ProcInv (update proc p { proc p with state := .unused }) mes embryos tables := by
  obtain ⟨_, only⟩ := inv.holder
  have counts := inv.counts inv.state_embryo
  simp at counts
  exact inv.set _ (by simp [counts]) (fun q ne => by simp [ne])
    (fun q o c _ mem => Multiset.mem_add.mpr (.inr mem)) (fun o c mem => absurd mem (only o c))
    fun _ => inv.table p (fun _ => none) none (by simp)

theorem ProcInv.reap (inv : ProcInv proc mes embryos tables) (zombie : (proc p).state = .zombie)
    : ProcInv (update proc p { proc p with state := .unused }) mes embryos tables :=
  inv.set _ (by simpa using inv.counts zombie) (fun _ _ => ⟨rfl, rfl, rfl⟩) (fun _ _ _ _ mem => mem)
    (inv.table p) fun _ => inv.empty p (.inr zombie)

theorem ProcInv.born (inv : ProcInv proc mes ({p} + embryos) tables)
    : p ∉ mes
      ∧ ProcInv (update proc p { proc p with state := .live }) ({p} + mes) embryos
          tables := by
  have counts := inv.counts inv.state_embryo
  simp at counts
  exact ⟨counts.1, inv.set _ (by simp [counts]) (fun q ne => by simp [ne]) (fun _ _ _ _ mem => mem)
    (inv.table p) fun inactive => by simp at inactive⟩

theorem ProcInv.dead (inv : ProcInv proc ({p} + mes) embryos ({(p, (fun _ => none), none)} + tables))
    : ProcInv (update proc p { proc p with state := .zombie }) mes embryos tables := by
  obtain ⟨_, only⟩ := inv.holder
  have state : (proc p).state = .live := by
    have live := inv.live p
    by_contra other
    simp [other] at live
  have counts := inv.counts state
  simp at counts
  exact inv.set _ (by simp [counts]) (fun q ne => by simp [ne])
    (fun q o c _ mem => Multiset.mem_add.mpr (.inr mem)) (fun o c mem => absurd mem (only o c))
    fun _ => inv.table p (fun _ => none) none (by simp)

end Processes

/-- The tables, given the tokens of all processes together. -/
@[mk_iff]
structure Inv (I : Prop) (s : State) (tokens : Multiset Token) : Prop where
  files : FileInv s.file (tokens.bind Token.handles)
  cache : CacheInv I s.inode s.dinode (fun ip => opened s.file (.inode ip))
    (tokens.bind Token.refs) (tokens.bind Token.views)
  pipes : PipeInv s.pipe s.made (fun q w => opened s.file (.pipe q w))
    (tokens.bind Token.ends) (tokens.bind Token.blanks) (tokens.bind Token.pages)
  procs : ProcInv s.proc (tokens.bind Token.mes) (tokens.bind Token.embryos)
    (tokens.bind Token.tables)
  log : s.outstanding = (tokens.bind Token.ops).card

section Used

variable {I : Prop} {s : State} {tokens : Multiset Token} {ip : Fin ninode}

/-- An inode that someone refers to, or has locked, has a reference. -/
theorem Inv.used_of_ref (inv : Inv I s tokens) (mem : ip ∈ tokens.bind Token.refs)
    : 0 < (s.inode ip).ref := by
  rw [inv.cache.count ip]
  exact Nat.add_pos_left (Multiset.count_pos.mpr mem) _

theorem Inv.used_of_file {f : Fin nfile} (inv : Inv I s tokens)
    (mem : (f, .inode ip) ∈ tokens.bind Token.handles)
    : 0 < (s.inode ip).ref := by
  rw [inv.cache.count ip]
  exact Nat.add_pos_right _ (opened_pos inv.files mem)

theorem Inv.used_of_carrier {via : Option (Fin nfile)} (inv : Inv I s tokens)
    (mem : carrier ip via ∈ tokens)
    : 0 < (s.inode ip).ref := by
  cases via with
  | none => exact inv.used_of_ref (Multiset.mem_bind.mpr ⟨_, mem, by simp [carrier]⟩)
  | some f => exact inv.used_of_file (f := f) (Multiset.mem_bind.mpr ⟨_, mem, by simp [carrier]⟩)

theorem Inv.used_of_view {v : View} (inv : Inv I s tokens)
    (mem : (ip, v) ∈ tokens.bind Token.views)
    : 0 < (s.inode ip).ref := by
  obtain ⟨t, mem, viewed⟩ := Multiset.mem_bind.mp mem
  cases t with
  | locked jp w via =>
    simp only [Token.views, Multiset.mem_singleton, Prod.mk.injEq] at viewed
    obtain ⟨rfl, rfl⟩ := viewed
    cases via with
    | none => exact inv.used_of_ref (Multiset.mem_bind.mpr ⟨_, mem, by simp⟩)
    | some f => exact inv.used_of_file (f := f) (Multiset.mem_bind.mpr ⟨_, mem, by simp⟩)
  | _ => simp at viewed

theorem Inv.unlocked_of_unused (inv : Inv I s tokens) (unused : (s.inode ip).ref = 0)
    : (s.inode ip).locked = false := by
  cases locked : (s.inode ip).locked with
  | false => rfl
  | true =>
    have lock := inv.cache.lock ip
    rw [locked, if_pos rfl] at lock
    obtain ⟨⟨_, v⟩, viewed, rfl⟩ := Multiset.mem_map.mp
      (Multiset.count_pos.mp (by omega : 0 < ((tokens.bind Token.views).map Prod.fst).count ip))
    exact absurd unused (Nat.ne_of_gt (inv.used_of_view viewed))

end Used

end Xv6.Files
