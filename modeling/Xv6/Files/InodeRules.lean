import Xv6.Files.Tokens

/-! What the functions of `fs.c` do with the tokens of their caller: an inode that is locked is
unlocked with its fields written back, and every reference that is taken is given back or
returned.
-/

namespace Xv6.Files

open Lib Fs Protocol

/-- A process with the tokens `pre` can run the script, and then has tokens as in `post`. -/
abbrev Obeys (I : Prop) (p : Fin nproc) {α : Type} (pre : Multiset Token) (script : Sys α)
    (post : α → Multiset Token → Prop) : Prop :=
  (protocol I).Triple p pre script post

variable {I : Prop} {p : Fin nproc} {α : Type} {ip : Fin ninode} {via : Option (Fin nfile)}
  {v : View}

@[simp] theorem protocol_cold (I : Prop) (t : Token) : (protocol I).cold t ↔ t.cold = true :=
  Iff.rfl

instance : (protocol I).Resting {.me p} := ⟨by simp⟩
instance : (protocol I).Resting {.embryo p} := ⟨by simp⟩
instance : (protocol I).Resting {.table p o c} := ⟨by simp⟩
instance : (protocol I).Resting {.file f kind} := ⟨by simp⟩
instance : (protocol I).Resting {.ref ip} := ⟨by simp⟩
instance : (protocol I).Resting {.locked ip v via} := ⟨by simp⟩
instance : (protocol I).Resting {.op} := ⟨by simp⟩
instance : (protocol I).Resting {carrier ip via} := ⟨by cases via <;> simp [carrier]⟩

theorem perform_rule {o : Op} {pre : Multiset Token} {given : o.Res → Multiset Token → Prop}
    (spec : Spec I o pre given)
    : Obeys I p pre (perform o) given :=
  .perform spec

theorem panic_rule {h : Multiset Token} {post : α → Multiset Token → Prop}
    [cold : (protocol I).Resting h]
    : Obeys I p h panic post :=
  fun kept coldKept => ⟨0, h + kept, _, .panic, (zero_add _).symm, cold_add.mpr ⟨cold.cold, coldKept⟩,
    fun r => nomatch r⟩

/-- A process has locked an inode and has nothing to write back. -/
abbrev Held (I : Prop) (ip : Fin ninode) (via : Option (Fin nfile)) (tokens : Multiset Token)
    : Prop :=
  ∃ v : View, v.Sound I ∧ tokens = {.locked ip v via}

section Locks

variable {β : Type} {pre h g : Multiset Token} {script : Sys α} {next : α → Sys β}
  {post : β → Multiset Token → Prop} {mid : View → α → Multiset Token}

/-- A script is called that leaves an inode locked. -/
theorem held_call (triple : Obeys I p pre script fun a got => ∃ v : View, v.Sound I ∧ got = mid v a)
    (split : h = pre + g)
    (rest : ∀ a (v : View), v.Sound I → Obeys I p (mid v a + g) (next a) post)
    [(protocol I).Resting g]
    : Obeys I p h (script >>= next) post :=
  triple.call split (fun a _ ⟨v, sound, same⟩ => same ▸ rest a v sound)

theorem held_bind (triple : Obeys I p pre script fun a got => ∃ v : View, v.Sound I ∧ got = mid v a)
    (rest : ∀ a (v : View), v.Sound I → Obeys I p (mid v a) (next a) post)
    : Obeys I p pre (script >>= next) post :=
  triple.bind fun a _ ⟨v, sound, same⟩ => same ▸ rest a v sound

/-- The holder of the lock reads the entry. -/
theorem getLocked_rule {next : Inode → Sys β}
    (rest : ∀ i, i.valid = v.valid → i.copy = v.copy → Obeys I p {.locked ip v via} (next i) post)
    : Obeys I p {.locked ip v via} (getInode ip >>= next) post := by
  refine .bind (.perform (.getLocked ip v via)) ?_
  rintro i _ ⟨valid, copy, rfl⟩
  exact rest i valid copy

theorem loadInode_rule (clean : v.Clean I)
    : Obeys I p {.locked ip v via} (loadInode ip) fun _ => Held I ip via := by
  refine getLocked_rule fun i valid copy => ?_
  split
  · rename_i isValid
    rw [valid] at isValid
    exact .done ⟨v, ⟨isValid, clean isValid⟩, rfl⟩
  · refine .bind (.perform (.load ip v via)) ?_
    rintro _ _ ⟨d, whole, rfl⟩
    refine .seq (.perform (.setValid ip true via (v.sync d))) fun _ => ?_
    refine getLocked_rule fun i _ copy => ?_
    split
    · exact panic_rule
    · rename_i used
      rw [copy] at used
      refine .done ⟨_, ⟨rfl, fun i => ⟨?_, used, whole i⟩⟩, rfl⟩
      exact decide_eq_true used

theorem ilock_rule (via : Option (Fin nfile))
    : Obeys I p {carrier ip via} (ilock ip) fun _ => Held I ip via := by
  refine .ask (.perform (.getInode ip)) fun i => ?_
  split
  · exact panic_rule
  · refine .bind (.perform (.acquiresleep ip via)) ?_
    rintro _ _ ⟨v, clean, rfl⟩
    exact loadInode_rule clean

theorem iunlock_rule (clean : v.Clean I)
    : Obeys I p {.locked ip v via} (iunlock ip) fun _ got => got = {carrier ip via} := by
  refine getLocked_rule fun i _ _ => ?_
  split
  · exact panic_rule
  · exact .perform (.releasesleep ip via v clean)

end Locks

section Reclaim

/-- A store to a locked inode. -/
theorem assign_rule (update : Dinode → Dinode)
    : Obeys I p {.locked ip v via} (assign ip update) fun _ got =>
        got = {.locked ip (v.store (update v.copy)) via} := by
  refine getLocked_rule fun i _ copy => ?_
  rw [copy]
  exact .perform (.setCopy ip _ v via)

theorem iupdate_rule (valid : v.valid = true) (used : I → v.copy.type ≠ 0)
    (whole : I → Whole v.copy)
    : Obeys I p {.locked ip v via} (iupdate ip) fun _ => Held I ip via := by
  refine (perform_rule (.iupdate ip via v whole)).mono ?_
  rintro _ _ rfl
  refine ⟨_, ?_, rfl⟩
  exact ⟨valid, fun i => ⟨decide_eq_true (used i), used i, whole i⟩⟩

theorem freeAddrs_rule (ks : List (Fin 13))
    : Obeys I p {.locked ip v via} (freeAddrs ip ks) fun _ got =>
        ∃ w : View, w.valid = v.valid ∧ w.copy.type = v.copy.type ∧ got = {.locked ip w via} := by
  induction ks generalizing v with
  | nil => exact .done ⟨v, rfl, rfl, rfl⟩
  | cons k rest ih =>
    refine getLocked_rule fun i _ copy => ?_
    split
    · exact ih
    · refine .seq (.perform (.setCopy ip _ v via)) fun _ => ?_
      refine ih.mono ?_
      rintro _ _ ⟨w, valid, type, rfl⟩
      exact ⟨w, valid, by rw [type, View.store, copy]; rfl, rfl⟩

/-- An inode of size 0 has no holes. -/
theorem whole_empty {d : Dinode} (empty : d.size = 0) : Whole d := by
  intro _ bn below
  simp [empty] at below

theorem itrunc_rule (sound : v.Sound I)
    : Obeys I p {.locked ip v via} (itrunc ip) fun _ => Held I ip via := by
  refine .bind (freeAddrs_rule _) ?_
  rintro _ _ ⟨u, valid, type, rfl⟩
  refine .bind (freeAddrs_rule _) ?_
  rintro _ _ ⟨w, valid', type', rfl⟩
  refine .seq (assign_rule _) fun _ => ?_
  have used : I → w.copy.type ≠ 0 := fun i => by
    rw [type', type]
    exact (sound.kept i).used
  exact iupdate_rule (valid'.trans (valid.trans sound.valid)) used fun _ => whole_empty rfl

theorem reclaim_rule (clean : v.Clean I)
    : Obeys I p {.locked ip v via} (reclaim ip) fun _ got =>
        ∃ w : View, w.Clean I ∧ got = {.locked ip w via} := by
  refine getLocked_rule fun i valid copy => ?_
  split
  · rename_i freed
    rw [valid] at freed
    refine getLocked_rule fun r _ _ => ?_
    split
    · refine held_bind (itrunc_rule ⟨freed.1, clean freed.1⟩) fun _ w sound => ?_
      refine .seq (assign_rule _) fun _ => ?_
      -- the inode is free from here on, and its entry not valid
      refine .seq (.perform (.iupdate ip via _ fun _ used => absurd rfl used)) fun _ => ?_
      refine (perform_rule (.setValid ip false via _)).mono ?_
      rintro _ _ rfl
      refine ⟨_, ?_, rfl⟩
      intro valid
      cases valid
    · exact .done ⟨v, clean, rfl⟩
  · exact .done ⟨v, clean, rfl⟩

theorem iput_rule : Obeys I p {.ref ip} (iput ip) fun _ got => got = 0 := by
  refine .bind (.perform (.acquiresleep ip none)) ?_
  rintro _ _ ⟨v, clean, rfl⟩
  refine .bind (reclaim_rule clean) ?_
  rintro _ _ ⟨w, clean', rfl⟩
  refine .seq (.perform (.releasesleep ip none w clean')) fun _ => ?_
  exact .perform (.dropRef ip)

theorem iunlockput_rule (clean : v.Clean I)
    : Obeys I p {.locked ip v none} (iunlockput ip) fun _ got => got = 0 := by
  refine .seq (iunlock_rule clean) fun _ => ?_
  exact iput_rule

end Reclaim

section Allocation

variable {dev : Nat} {type : Int16}

theorem allocLoop_rule (inums : List Nat)
    : Obeys I p 0 (allocLoop dev type inums) fun ip got => got = {.ref ip} := by
  induction inums with
  | nil => exact panic_rule
  | cons inum rest ih =>
    refine .seq (.perform (.tryAlloc dev inum type)) fun free => ?_
    split
    · exact .perform (.iget dev inum)
    · exact ih

theorem ialloc_rule
    : Obeys I p 0 (ialloc dev type) fun ip got => got = {.ref ip} := by
  refine .seq (.perform .ninodes) fun n => ?_
  exact allocLoop_rule _

/-- The fields of an inode after blocks were allocated for it. -/
structure View.Grown (v w : View) : Prop where
  valid : w.valid = v.valid
  type : w.copy.type = v.copy.type
  size : w.copy.size = v.copy.size
  addrs : ∀ k, v.copy.addrs k ≠ 0 → w.copy.addrs k ≠ 0

theorem View.Grown.refl (v : View) : v.Grown v := ⟨rfl, rfl, rfl, fun _ nonzero => nonzero⟩

theorem View.Grown.trans {u w : View} (first : v.Grown u) (second : u.Grown w) : v.Grown w :=
  ⟨second.valid.trans first.valid, second.type.trans first.type, second.size.trans first.size,
    fun k nonzero => second.addrs k (first.addrs k nonzero)⟩

theorem addrOrAlloc_rule (k : Fin 13)
    : Obeys I p {.locked ip v via} (addrOrAlloc ip k) fun _ got =>
        ∃ w : View, v.Grown w ∧ w.copy.addrs k ≠ 0 ∧ (v.copy.addrs k ≠ 0 → w = v)
          ∧ got = {.locked ip w via} := by
  refine getLocked_rule fun i _ copy => ?_
  rw [copy]
  split
  · rename_i zero
    refine .call (.perform .balloc) (zero_add _).symm ?_
    rintro addr _ ⟨nonzero, rfl⟩
    rw [zero_add]
    refine (perform_rule (.setCopy ip _ v via)).mono ?_
    rintro _ _ rfl
    refine ⟨_, ?_, ?_, fun used => absurd zero used, rfl⟩
    · refine ⟨rfl, rfl, rfl, fun j used => ?_⟩
      by_cases same : j = k
      · simpa [View.store, Dinode.setAddr, same] using nonzero
      · simpa [View.store, Dinode.setAddr, same] using used
    · simpa [View.store, Dinode.setAddr] using nonzero
  · rename_i nonzero
    exact .done ⟨v, .refl v, nonzero, fun _ => rfl, rfl⟩

theorem bmap_rule (bn : Nat)
    : Obeys I p {.locked ip v via} (bmap ip bn) fun _ got =>
        ∃ w : View, v.Grown w ∧ w.copy.addrs (addrSlot bn) ≠ 0
          ∧ (v.copy.addrs (addrSlot bn) ≠ 0 → w = v) ∧ got = {.locked ip w via} := by
  unfold bmap
  split
  · rename_i direct
    rw [addrSlot, if_pos direct]
    exact addrOrAlloc_rule _
  · rename_i indirect
    rw [addrSlot, if_neg indirect]
    split
    · exact addrOrAlloc_rule _
    · exact panic_rule

end Allocation

section Contents

variable {off n : Nat}

/-- Reading up to the size of a file allocates no blocks. -/
theorem readLoop_rule (fuel : Nat) (valid : v.valid = true)
    (kept : I → v.Kept ∧ off + n ≤ v.copy.size.toNat)
    : Obeys I p {.locked ip v via} (readLoop ip fuel off n) fun _ got =>
        ∃ w : View, w.valid = true ∧ (I → w = v) ∧ got = {.locked ip w via} := by
  induction fuel generalizing v off n with
  | zero => exact .done ⟨v, valid, fun _ => rfl, rfl⟩
  | succ fuel ih =>
    unfold readLoop
    split
    · exact .done ⟨v, valid, fun _ => rfl, rfl⟩
    · rename_i more
      refine .bind (bmap_rule _) ?_
      rintro _ _ ⟨w, grown, _, same, rfl⟩
      have eq : I → w = v := fun i => by
        obtain ⟨⟨_, used, whole⟩, inside⟩ := kept i
        refine same (whole used _ ?_)
        have := Nat.div_mul_le_self off bsize
        omega
      refine .call (.perform (.data _)) (zero_add _).symm ?_
      rintro bytes _ ⟨_, rfl⟩
      rw [zero_add]
      refine .bind (ih (grown.valid.trans valid) fun i => ?_) ?_
      · rw [eq i]
        refine ⟨(kept i).1, ?_⟩
        have := (kept i).2
        omega
      · rintro rest _ ⟨u, valid', eq', rfl⟩
        exact .done ⟨u, valid', fun i => (eq' i).trans (eq i), rfl⟩

theorem consoleread_rule (sound : v.Sound I)
    : Obeys I p {.locked ip v via} (consoleread ip n) fun _ => Held I ip via := by
  refine .seq (iunlock_rule fun _ => sound.kept) fun _ => ?_
  refine .ask (.perform .choose) fun count => ?_
  split
  · refine .call (.perform (.data count)) (zero_add _).symm ?_
    rintro bytes _ ⟨_, rfl⟩
    rw [zero_add]
    refine held_bind (ilock_rule via) fun _ w sound' => ?_
    exact .done ⟨w, sound', rfl⟩
  · refine held_bind (ilock_rule via) fun _ w sound' => ?_
    exact .done ⟨w, sound', rfl⟩

theorem consolewrite_rule (sound : v.Sound I)
    : Obeys I p {.locked ip v via} (consolewrite ip n) fun _ => Held I ip via := by
  refine .seq (iunlock_rule fun _ => sound.kept) fun _ => ?_
  refine held_bind (ilock_rule via) fun _ w sound' => ?_
  exact .done ⟨w, sound', rfl⟩

theorem readi_rule (sound : v.Sound I)
    : Obeys I p {.locked ip v via} (readi ip off n) fun _ => Held I ip via := by
  refine getLocked_rule fun i _ copy => ?_
  rw [copy]
  split
  · split
    · exact consoleread_rule sound
    · exact .done ⟨v, sound, rfl⟩
  · split
    · exact .done ⟨v, sound, rfl⟩
    · rename_i inside
      refine .bind (readLoop_rule n sound.valid fun i => ⟨sound.kept i, ?_⟩) ?_
      · omega
      · rintro bytes _ ⟨w, valid, eq, rfl⟩
        exact .done ⟨w, ⟨valid, fun i => eq i ▸ sound.kept i⟩, rfl⟩

/-- The first `n` bytes of the file have blocks. -/
def View.FilledTo (v : View) (n : Nat) : Prop :=
  ∀ bn, bn * bsize < n → v.copy.addrs (addrSlot bn) ≠ 0

/-- A write that stays in the block of `off` reaches no other block that starts after `off`. -/
theorem block_before {m bn : Nat} (small : m ≤ bsize - off % bsize) (below : bn * bsize < off + m)
    (other : bn ≠ off / bsize)
    : bn * bsize < off := by
  unfold bsize at *
  omega

/-- The copying loop of `writei` fills the file, and changes the addresses only if it grows. -/
theorem writeLoop_rule {fuel : Nat} (enough : n ≤ fuel)
    : Obeys I p {.locked ip v via} (writeLoop ip fuel off n) fun last got =>
        last = off + n ∧ ∃ w : View, v.Grown w ∧ (v.FilledTo off → w.FilledTo last)
          ∧ (v.FilledTo v.copy.size.toNat → w = v ∨ v.copy.size.toNat < last)
          ∧ got = {.locked ip w via} := by
  induction fuel generalizing v off n with
  | zero =>
    obtain rfl := Nat.le_zero.mp enough
    exact .done ⟨rfl, v, .refl v, id, fun _ => .inl rfl, rfl⟩
  | succ fuel ih =>
    unfold writeLoop
    split
    · rename_i none
      subst none
      exact .done ⟨rfl, v, .refl v, id, fun _ => .inl rfl, rfl⟩
    · rename_i more
      refine .bind (bmap_rule _) ?_
      rintro _ _ ⟨u, grown, nonzero, same, rfl⟩
      have start := Nat.div_mul_le_self off bsize
      have small := Nat.mod_lt off (show bsize > 0 by decide)
      refine (ih (by omega)).mono ?_
      rintro last _ ⟨rfl, w, grown', fills, changes, rfl⟩
      refine ⟨by omega, w, grown.trans grown', fun filled => fills fun bn below => ?_,
        fun filled => ?_, rfl⟩
      · by_cases here : bn = off / bsize
        · exact here ▸ nonzero
        · exact grown.addrs _ (filled bn (block_before (Nat.min_le_right ..) below here))
      · by_cases present : v.copy.addrs (addrSlot (off / bsize)) = 0
        · have beyond : v.copy.size.toNat ≤ off / bsize * bsize :=
            Nat.le_of_not_lt fun below => filled _ below present
          right
          omega
        · obtain rfl := same present
          exact changes filled

/-- The end of `writei`: the fields are written back if they have changed. -/
theorem growTo_rule {w : View} (sound : v.Sound I) (grown : v.Grown w)
    (small : off ≤ maxfile * bsize) (filled : I → w.FilledTo off)
    (changed : I → w = v ∨ v.copy.size.toNat < off) (more : v.copy.size.toNat < off → 0 < n)
    : Obeys I p {.locked ip w via} (growTo ip n off) fun _ => Held I ip via := by
  refine getLocked_rule fun i _ copy => ?_
  rw [copy, grown.size]
  split
  · rename_i grows
    refine .seq (.perform (.setCopy ip _ w via)) fun _ => ?_
    have size : (UInt32.ofNat off).toNat = off :=
      UInt32.toNat_ofNat_of_lt (Nat.lt_of_le_of_lt small (by decide))
    have used : I → w.copy.type ≠ 0 := fun i => by
      rw [grown.type]
      exact (sound.kept i).used
    have whole : I → Whole { w.copy with size := UInt32.ofNat off } := fun i _ bn below => by
      refine filled i bn ?_
      rwa [← size]
    exact iupdate_rule (grown.valid.trans sound.valid) used whole
  · rename_i stays
    refine .done ⟨w, ⟨grown.valid.trans sound.valid, fun i => ?_⟩, rfl⟩
    rcases changed i with rfl | beyond
    · exact sound.kept i
    · exact absurd ⟨more beyond, beyond⟩ stays

theorem writei_rule (sound : v.Sound I)
    : Obeys I p {.locked ip v via} (writei ip off n) fun _ => Held I ip via := by
  refine getLocked_rule fun i _ copy => ?_
  rw [copy]
  split
  · split
    · exact consolewrite_rule sound
    · exact .done ⟨v, sound, rfl⟩
  · split
    · exact .done ⟨v, sound, rfl⟩
    · split
      · exact .done ⟨v, sound, rfl⟩
      · rename_i inside short
        refine .bind (writeLoop_rule (Nat.le_refl n)) ?_
        rintro last _ ⟨rfl, w, grown, fills, changes, rfl⟩
        have filled : I → v.FilledTo v.copy.size.toNat := fun i =>
          (sound.kept i).whole (sound.kept i).used
        refine .bind (growTo_rule sound grown (by omega) (fun i => fills fun bn below => ?_)
          (fun i => changes (filled i)) (fun _ => by omega)) ?_
        · exact filled i bn (by omega)
        · rintro _ _ ⟨u, sound', rfl⟩
          exact .done ⟨u, sound', rfl⟩

end Contents

section Directories

variable {name : List UInt8}

/-- The reference that a lookup returns. -/
def refOf {β : Type} : Option (Fin ninode × β) → Multiset Token
  | none => 0
  | some (ip, _) => {.ref ip}

instance {β : Type} (found : Option (Fin ninode × β)) : (protocol I).Resting (refOf found) :=
  ⟨by cases found <;> simp [refOf]⟩

instance (found : Option (Fin ninode))
    : (protocol I).Resting (found.elim 0 fun ip => {.ref ip}) := ⟨by cases found <;> simp⟩

theorem readDirent_rule {off : Nat} (sound : v.Sound I)
    : Obeys I p {.locked ip v via} (readDirent ip off) fun _ => Held I ip via := by
  refine held_bind (readi_rule sound) fun bytes w sound' => ?_
  cases bytes with
  | none => exact panic_rule
  | some bytes =>
    dsimp only
    split
    · exact .done ⟨w, sound', rfl⟩
    · exact panic_rule

theorem lookupLoop_rule (offs : List Nat) (sound : v.Sound I)
    : Obeys I p {.locked ip v via} (lookupLoop ip name offs) fun found got =>
        ∃ w : View, w.Sound I ∧ got = {.locked ip w via} + refOf found := by
  induction offs generalizing v with
  | nil => exact .done ⟨v, sound, (add_zero _).symm⟩
  | cons off rest ih =>
    refine held_bind (readDirent_rule sound) fun de w sound' => ?_
    split
    · refine getLocked_rule fun d _ _ => ?_
      refine .gain (.perform (.iget _ _)) fun jp => ?_
      exact .done ⟨w, sound', add_comm ..⟩
    · exact ih sound'

theorem dirlookup_rule (sound : v.Sound I)
    : Obeys I p {.locked ip v via} (dirlookup ip name) fun found got =>
        ∃ w : View, w.Sound I ∧ got = {.locked ip w via} + refOf found := by
  refine getLocked_rule fun d _ _ => ?_
  split
  · exact panic_rule
  · exact lookupLoop_rule _ sound

theorem emptyLoop_rule {last : Nat} (offs : List Nat) (sound : v.Sound I)
    : Obeys I p {.locked ip v via} (emptyLoop ip last offs) fun _ => Held I ip via := by
  induction offs generalizing v with
  | nil => exact .done ⟨v, sound, rfl⟩
  | cons off rest ih =>
    refine held_bind (readDirent_rule sound) fun de w sound' => ?_
    split
    · exact .done ⟨w, sound', rfl⟩
    · exact ih sound'

theorem dirlink_rule (sound : v.Sound I)
    : Obeys I p {.locked ip v via} (dirlink ip name) fun _ => Held I ip via := by
  refine held_bind (dirlookup_rule sound) fun found w sound' => ?_
  cases found with
  | some place =>
    refine .spend iput_rule (add_comm ..) fun _ => ?_
    exact .done ⟨w, sound', rfl⟩
  | none =>
    rw [refOf, add_zero]
    refine getLocked_rule fun d _ _ => ?_
    refine held_bind (emptyLoop_rule _ sound') fun off u sound'' => ?_
    refine held_bind (writei_rule sound'') fun written x sound => ?_
    split
    · exact .done ⟨x, sound, rfl⟩
    · exact panic_rule

end Directories

section Paths

variable {o : Fin nofile → Option (Fin nfile)} {c : Fin ninode}
variable {parent : Bool} {path : List UInt8}

/-- The table of a process with its current directory, which path names may start from. -/
def home (p : Fin nproc) (o : Fin nofile → Option (Fin nfile)) (c : Fin ninode)
    : Multiset Token :=
  {.table p o (some c)} + {.ref c}

instance : (protocol I).Resting (home p o c) := ⟨by simp [home]⟩

theorem cwdOf_rule
    : Obeys I p (home p o c) (cwdOf p) fun ip got => ip = c ∧ got = home p o c := by
  refine .call (.perform (.getCwd p o (some c))) rfl ?_
  rintro cwd _ ⟨rfl, rfl⟩
  exact .done ⟨rfl, rfl⟩

theorem walk_rule (names : List (List UInt8))
    : Obeys I p {.ref ip} (walk parent names ip) fun found got => got = refOf found := by
  induction names generalizing ip with
  | nil =>
    unfold walk
    split
    · refine .seq iput_rule fun _ => ?_
      exact .done rfl
    · exact .done rfl
  | cons name rest ih =>
    refine held_bind (ilock_rule none) fun _ v sound => ?_
    refine getLocked_rule fun i _ _ => ?_
    split
    · refine .seq (iunlockput_rule fun _ => sound.kept) fun _ => ?_
      exact .done rfl
    · split
      · refine .seq (iunlock_rule fun _ => sound.kept) fun _ => ?_
        exact .done rfl
      · refine held_bind (dirlookup_rule sound) fun found w sound' => ?_
        refine .spend (iunlockput_rule fun _ => sound'.kept) rfl fun _ => ?_
        cases found with
        | none => exact .done rfl
        | some place => exact ih

theorem startInode_rule
    : Obeys I p (home p o c) (startInode p path) fun ip got => got = {.ref ip} + home p o c := by
  unfold startInode
  split
  · refine .last (perform_rule (.iget rootdev rootino)) (zero_add _).symm ?_
    rintro ip _ rfl
    rfl
  · refine .bind cwdOf_rule ?_
    rintro ip _ ⟨rfl, rfl⟩
    refine .use (.perform (.idup ip)) (add_comm ..) fun _ => ?_
    refine .done ?_
    rw [home, add_assoc, add_comm {Token.ref ip} {Token.table p o (some ip)}]

theorem namex_rule
    : Obeys I p (home p o c) (namex p path parent) fun found got =>
        got = refOf found + home p o c := by
  refine .seq startInode_rule fun ip => ?_
  refine .last (walk_rule _) rfl ?_
  rintro found _ rfl
  rfl

theorem namei_rule
    : Obeys I p (home p o c) (namei p path) fun found got =>
        got = found.elim 0 (fun ip => {.ref ip}) + home p o c := by
  refine .seq namex_rule fun found => ?_
  refine .done ?_
  cases found <;> rfl

end Paths

end Xv6.Files
