import Xv6.Files.InodeRules

/-! What the system calls do with the tokens of their caller. A process that has, before a call,
one reference for each of its slots and one for its current directory has the same after it.
-/

namespace Xv6.Files

open Lib Fs Protocol
open Function (update update_self update_of_ne update_idem update_eq_self)

variable {I : Prop} {p : Fin nproc} {α : Type} {ip : Fin ninode} {f : Fin nfile} {k : Kind}
  {q : Nat} {w : Bool} {o : Fin nofile → Option (Fin nfile)} {c : Fin ninode}
  {kinds : Fin nofile → Kind} {fd : Fin nofile} {v : View}

section Pipes

theorem pipeclose_rule : Obeys I p {.pend q w} (pipeclose q w) fun _ got => got = 0 := by
  refine .seq (.perform (.closeEnd q w)) fun both => ?_
  split
  · exact .perform (.kfree q)
  · exact .done rfl

theorem pipeSections_rule (sleeps : Nat)
    : Obeys I p {.file f (.pipe q w)} (pipeSections q sleeps) fun _ got =>
        got = {.file f (.pipe q w)} := by
  induction sleeps with
  | zero => exact .perform (.pipeSection q f w)
  | succ sleeps ih =>
    refine .seq (.perform (.pipeSection q f w)) fun _ => ?_
    exact ih

theorem piperw_rule
    : Obeys I p {.file f (.pipe q w)} (piperw q) fun _ got => got = {.file f (.pipe q w)} := by
  refine .ask (.perform .choose) fun sleeps => ?_
  refine .seq (pipeSections_rule sleeps) fun _ => ?_
  refine .gain (.perform .choose) fun r => ?_
  exact .done (zero_add _)

end Pipes

section OpenFiles

theorem fileclose_rule : Obeys I p {.file f k} (fileclose f) fun _ got => got = 0 := by
  refine .bind (.perform (.filedrop f k)) ?_
  rintro last _ (⟨rfl, rfl⟩ | ⟨ff, rfl, rfl, rfl⟩)
  · exact .done rfl
  · unfold File.kind
    dsimp only
    cases ff.type with
    | none => exact .done rfl
    | pipe q => exact pipeclose_rule
    | inode ip =>
      change Obeys I p {.ref ip} _ _
      refine .gain (.perform .beginOp) fun _ => ?_
      refine .spend iput_rule (add_comm ..) fun _ => ?_
      exact .perform .endOp

theorem pipealloc_rule
    : Obeys I p 0 pipealloc fun made got =>
        made = none ∧ got = 0
        ∨ ∃ f0 f1 q, made = some (f0, f1)
          ∧ got = {.file f0 (.pipe q false)} + {.file f1 (.pipe q true)} := by
  refine .bind (.perform .filealloc) ?_
  rintro _ _ (⟨rfl, rfl⟩ | ⟨f0, rfl, rfl⟩)
  · exact .done (.inl ⟨rfl, rfl⟩)
  refine .call (.perform .filealloc) (zero_add _).symm ?_
  rintro _ _ (⟨rfl, rfl⟩ | ⟨f1, rfl, rfl⟩)
  · rw [zero_add]
    refine .seq fileclose_rule fun _ => ?_
    exact .done (.inl ⟨rfl, rfl⟩)
  refine .call (.perform .kalloc) (zero_add _).symm ?_
  rintro _ _ (⟨rfl, rfl⟩ | ⟨q, rfl, rfl⟩)
  · rw [zero_add]
    refine .spend fileclose_rule (add_comm ..) fun _ => ?_
    refine .seq fileclose_rule fun _ => ?_
    exact .done (.inl ⟨rfl, rfl⟩)
  · rw [add_comm {Token.file f1 .none}, ← add_assoc]
    refine .seq (.perform (.initPipe q f0 f1)) fun _ => ?_
    exact .done (.inr ⟨f0, f1, q, rfl, rfl⟩)

theorem fileread_rule {n : Nat}
    : Obeys I p {.file f k} (fileread f n) fun _ got => got = {.file f k} := by
  refine .bind (.perform (.getFile f k)) ?_
  rintro file _ ⟨rfl, rfl⟩
  split
  · exact .done rfl
  · unfold File.kind
    cases file.type with
    | none => exact panic_rule
    | pipe q => exact piperw_rule
    | inode ip =>
      refine held_bind (ilock_rule (some f)) fun _ v sound => ?_
      refine .ask (.perform .choose) fun off => ?_
      refine held_bind (readi_rule sound) fun r w sound' => ?_
      refine .seq (iunlock_rule fun _ => sound'.kept) fun _ => ?_
      exact .done rfl

theorem writeChunks_rule (fuel n : Nat)
    : Obeys I p {.file f (.inode ip)} (writeChunks ip fuel n) fun _ got =>
        got = {.file f (.inode ip)} := by
  induction fuel generalizing n with
  | zero => exact .done rfl
  | succ fuel ih =>
    unfold writeChunks
    split
    · exact .done rfl
    refine .gain (.perform .beginOp) fun _ => ?_
    refine held_call (ilock_rule (some f)) (add_comm ..) fun _ v sound => ?_
    refine .ask (.perform .choose) fun off => ?_
    refine held_call (writei_rule sound) rfl fun r w sound' => ?_
    refine .use (iunlock_rule fun _ => sound'.kept) rfl fun _ => ?_
    refine .spend (.perform .endOp) (add_comm ..) fun _ => ?_
    cases r with
    | none => exact .done rfl
    | some r =>
      dsimp only
      split
      · exact ih _
      · exact panic_rule

theorem filewrite_rule {n : Nat}
    : Obeys I p {.file f k} (filewrite f n) fun _ got => got = {.file f k} := by
  refine .bind (.perform (.getFile f k)) ?_
  rintro file _ ⟨rfl, rfl⟩
  split
  · exact .done rfl
  · unfold File.kind
    cases file.type with
    | none => exact panic_rule
    | pipe q => exact piperw_rule
    | inode ip =>
      refine .seq (writeChunks_rule n n) fun written => ?_
      exact .done rfl

end OpenFiles

/-- The end of an operation, as the last step of a call. -/
theorem endOp_rule {r : α} {post : α → Multiset Token → Prop} {h g : Multiset Token}
    (split : h = {.op} + g) (holds : post r g) [(protocol I).Resting g]
    : Obeys I p h (do endOp; pure r) post := by
  refine .spend (.perform .endOp) split fun _ => ?_
  exact .done holds

section Links

variable {via : Option (Fin nfile)} {dp : Fin ninode} {path : List UInt8} {off : Nat}

/-- A store to fields other than the type, the size and the addresses is written back. -/
theorem writeBack_rule {d : Dinode} (sound : v.Sound I) (type : d.type = v.copy.type)
    (size : d.size = v.copy.size) (addrs : d.addrs = v.copy.addrs)
    : Obeys I p {.locked ip (v.store d) via} (iupdate ip) fun _ => Held I ip via := by
  have used : I → d.type ≠ 0 := fun i => type ▸ (sound.kept i).used
  have whole : I → Whole d := fun i => by
    unfold Whole
    rw [type, size, addrs]
    exact (sound.kept i).whole
  exact iupdate_rule sound.valid used whole

theorem update_rule {rest : Sys α} {post : α → Multiset Token → Prop} {h g : Multiset Token}
    {edit : Dinode → Dinode} (sound : v.Sound I) (split : h = {.locked ip v via} + g)
    (after : ∀ w : View, w.Sound I → Obeys I p ({.locked ip w via} + g) rest post)
    [(protocol I).Resting g]
    (same : ∀ d, (edit d).type = d.type ∧ (edit d).size = d.size ∧ (edit d).addrs = d.addrs
      := by exact fun _ => ⟨rfl, rfl, rfl⟩)
    : Obeys I p h (do assign ip edit; iupdate ip; rest) post := by
  obtain ⟨type, size, addrs⟩ := same v.copy
  refine .use (assign_rule edit) split fun _ => ?_
  exact held_call (writeBack_rule sound type size addrs) rfl fun _ => after

theorem linkBad_rule : Obeys I p ({.ref ip} + {.op}) (linkBad ip) fun _ got => got = 0 := by
  refine held_call (ilock_rule none) rfl fun _ v sound => ?_
  refine update_rule sound rfl fun w sound' => ?_
  refine .spend (iunlockput_rule fun _ => sound'.kept) rfl fun _ => ?_
  exact endOp_rule (add_zero _).symm rfl

theorem linkEntry_rule {name : List UInt8} (sound : v.Sound I)
    : Obeys I p {.locked dp v none} (linkEntry dp ip name) fun _ => Held I dp none := by
  refine .gain (.perform (.getInode dp)) fun d => ?_
  refine .gain (.perform (.getInode ip)) fun i => ?_
  rw [zero_add, zero_add]
  split
  · exact .done ⟨v, sound, rfl⟩
  · exact dirlink_rule sound

theorem linkInto_rule
    : Obeys I p (home p o c + ({.ref ip} + {.op})) (linkInto p ip path) fun _ got =>
        got = home p o c := by
  refine .use namex_rule rfl fun found => ?_
  match found with
  | none => exact .last linkBad_rule (add_comm ..) (by simp [refOf])
  | some (dp, name) =>
    refine held_call (g := home p o c + ({.ref ip} + {.op})) (ilock_rule none) (add_assoc ..) fun _ v sound => ?_
    refine held_call (linkEntry_rule sound) rfl fun linked w sound' => ?_
    refine .spend (iunlockput_rule fun _ => sound'.kept) rfl fun _ => ?_
    split
    · refine .use (g := {.op} + home p o c) iput_rule (by abel) fun _ => ?_
      exact endOp_rule (g := home p o c) (by abel) rfl
    · exact .last linkBad_rule (add_comm ..) (by simp)

theorem sysLink_rule {old new : List UInt8}
    : Obeys I p (home p o c) (sysLink p old new) fun _ got => got = home p o c := by
  refine .gain (.perform .beginOp) fun _ => ?_
  refine .use namei_rule (add_comm ..) fun found => ?_
  cases found with
  | none =>
    exact endOp_rule (add_comm ..) rfl
  | some ip =>
    refine held_call (g := home p o c + {.op}) (ilock_rule none) (add_assoc ..) fun _ v sound => ?_
    refine .ask (.perform (.getInode ip)) fun i => ?_
    split
    · refine .use (iunlockput_rule fun _ => sound.kept) rfl fun _ => ?_
      exact endOp_rule (g := home p o c) (by abel) rfl
    · refine update_rule sound rfl fun w sound' => ?_
      refine .use (iunlock_rule fun _ => sound'.kept) rfl fun _ => ?_
      exact .last (g := 0) linkInto_rule (by simp only [carrier]; abel) (by simp)

theorem emptyFrom_rule (offs : List Nat) (sound : v.Sound I)
    : Obeys I p {.locked ip v none} (emptyFrom ip offs) fun _ => Held I ip none := by
  induction offs generalizing v with
  | nil => exact .done ⟨v, sound, rfl⟩
  | cons off rest ih =>
    refine held_bind (readDirent_rule sound) fun de w sound' => ?_
    split
    · exact .done ⟨w, sound', rfl⟩
    · exact ih sound'

theorem removable_rule (sound : v.Sound I)
    : Obeys I p {.locked ip v none} (removable ip) fun _ => Held I ip none := by
  refine getLocked_rule fun i _ _ => ?_
  split
  · refine getLocked_rule fun d _ _ => ?_
    exact emptyFrom_rule _ sound
  · exact .done ⟨v, sound, rfl⟩

theorem dropParentLink_rule (sound : v.Sound I)
    : Obeys I p {.locked dp v none} (dropParentLink dp ip) fun _ => Held I dp none := by
  refine .ask (.perform (.getInode ip)) fun i => ?_
  split
  · refine .seq (assign_rule _) fun _ => ?_
    exact writeBack_rule sound rfl rfl rfl
  · exact .done ⟨v, sound, rfl⟩

theorem removeEntry_rule {w : View} (sound : v.Sound I) (sound' : w.Sound I)
    : Obeys I p ({.locked dp v none} + ({.locked ip w none} + {.op})) (removeEntry dp ip off)
        fun _ got => got = 0 := by
  refine held_call (writei_rule sound) rfl fun written u sound => ?_
  split
  · refine held_call (dropParentLink_rule sound) rfl fun _ x sound => ?_
    refine .spend (iunlockput_rule fun _ => sound.kept) rfl fun _ => ?_
    refine update_rule sound' rfl fun y sound' => ?_
    refine .spend (iunlockput_rule fun _ => sound'.kept) rfl fun _ => ?_
    exact endOp_rule (add_zero _).symm rfl
  · exact panic_rule

theorem unlinkBad_rule (sound : v.Sound I)
    : Obeys I p ({.locked dp v none} + {.op}) (unlinkBad dp) fun _ got => got = 0 := by
  refine .spend (iunlockput_rule fun _ => sound.kept) rfl fun _ => ?_
  exact endOp_rule (add_zero _).symm rfl

theorem unlinkEntry_rule (sound : v.Sound I)
    : Obeys I p ({.locked dp v none} + {.ref ip} + {.op}) (unlinkEntry dp ip off)
        fun _ got => got = 0 := by
  refine held_call (g := {.locked dp v none} + {.op}) (ilock_rule none)
    (by simp only [carrier]; abel) fun _ w sound' => ?_
  refine .ask (.perform (.getInode ip)) fun i => ?_
  split
  · exact panic_rule
  · refine held_call (removable_rule sound') rfl fun empty u sound' => ?_
    split
    · exact .last (g := 0) (removeEntry_rule sound sound') (by abel) (by simp)
    · refine .spend (iunlockput_rule fun _ => sound'.kept) rfl fun _ => ?_
      exact unlinkBad_rule sound

theorem sysUnlink_rule
    : Obeys I p (home p o c) (sysUnlink p path) fun _ got => got = home p o c := by
  refine .gain (.perform .beginOp) fun _ => ?_
  refine .use namex_rule (add_comm ..) fun found => ?_
  match found with
  | none =>
    exact endOp_rule (add_comm ..) (by simp [refOf])
  | some (dp, name) =>
    refine held_call (g := {.op} + home p o c) (ilock_rule none)
      (by simp only [carrier, refOf]; abel) fun _ v sound => ?_
    split
    · exact .last (unlinkBad_rule sound) (add_assoc ..).symm (by simp)
    · refine held_call (dirlookup_rule sound) rfl fun present w sound' => ?_
      match present with
      | none =>
        exact .last (g := home p o c) (unlinkBad_rule sound') (by simp only [refOf]; abel) (by simp)
      | some (ip, off) =>
        exact .last (unlinkEntry_rule sound') (add_assoc ..).symm (by simp)

end Links

section Create

variable {dp : Fin ninode} {type major minor : Int16} {path : List UInt8} {omode : UInt32}

theorem createDots_rule {w : View} (sound : v.Sound I) (sound' : w.Sound I)
    : Obeys I p ({.locked dp v none} + {.locked ip w none}) (createDots type dp ip) fun _ got =>
        ∃ x y : View, x.Sound I ∧ y.Sound I
          ∧ got = {.locked dp x none} + {.locked ip y none} := by
  unfold createDots
  split
  · refine update_rule sound rfl fun x soundX => ?_
    refine held_call (dirlink_rule sound') (add_comm ..) fun first u soundU => ?_
    split
    · refine held_call (dirlink_rule soundU) rfl fun second y soundY => ?_
      split
      · exact .done ⟨x, y, soundX, soundY, add_comm ..⟩
      · exact panic_rule
    · exact panic_rule
  · exact .done ⟨v, w, sound, sound', rfl⟩

theorem createIn_rule {name : List UInt8} (sound : v.Sound I)
    : Obeys I p {.locked dp v none} (createIn dp name type major minor) fun ip =>
        Held I ip none := by
  refine .ask (.perform (.getInode dp)) fun d => ?_
  refine .gain ialloc_rule fun ip => ?_
  refine held_call (ilock_rule none) rfl fun _ u soundU => ?_
  refine update_rule soundU rfl fun w soundW => ?_
  rw [add_comm]
  refine .bind (createDots_rule sound soundW) ?_
  rintro _ _ ⟨x, y, soundX, soundY, rfl⟩
  refine held_call (dirlink_rule soundX) rfl fun linked z soundZ => ?_
  split
  · refine .use (iunlockput_rule fun _ => soundZ.kept) rfl fun _ => ?_
    exact .done ⟨y, soundY, zero_add _⟩
  · exact panic_rule

/-- The inode that `create` returns, if any, is locked and has a reference. -/
def Made (I : Prop) : Option (Fin ninode) → Multiset Token → Prop
  | none, tokens => tokens = 0
  | some ip, tokens => Held I ip none tokens

theorem createOver_rule (sound : v.Sound I)
    : Obeys I p ({.locked dp v none} + {.ref ip}) (createOver dp ip type) (Made I) := by
  refine .spend (iunlockput_rule fun _ => sound.kept) rfl fun _ => ?_
  refine held_bind (ilock_rule none) fun _ w sound' => ?_
  refine getLocked_rule fun i _ _ => ?_
  split
  · exact .done ⟨w, sound', rfl⟩
  · refine .seq (iunlockput_rule fun _ => sound'.kept) fun _ => ?_
    exact .done rfl

theorem create_rule
    : Obeys I p (home p o c) (create p path type major minor) fun made got =>
        ∃ part, Made I made part ∧ got = part + home p o c := by
  refine .seq namex_rule fun found => ?_
  match found with
  | none => exact .done ⟨0, rfl, rfl⟩
  | some (dp, name) =>
    refine held_call (ilock_rule none) rfl fun _ v sound => ?_
    refine held_call (dirlookup_rule sound) rfl fun present w sound' => ?_
    match present with
    | some (ip, off) =>
      exact .last (createOver_rule sound') rfl fun made part held =>
        ⟨part, held, rfl⟩
    | none =>
      refine .call (createIn_rule sound') (congrArg (· + _) (add_zero _)) ?_
      rintro ip part held
      exact .done ⟨part, held, rfl⟩

theorem openInode_rule
    : Obeys I p (home p o c) (openInode p path omode) fun made got =>
        ∃ part, Made I made part ∧ got = part + home p o c := by
  unfold openInode
  split
  · exact create_rule
  refine .seq namei_rule fun found => ?_
  cases found with
  | none => exact .done ⟨0, rfl, rfl⟩
  | some ip =>
    refine held_call (ilock_rule none) rfl fun _ v sound => ?_
    refine .ask (.perform (.getInode ip)) fun i => ?_
    split
    · refine .use (iunlockput_rule fun _ => sound.kept) rfl fun _ => ?_
      exact .done ⟨0, rfl, rfl⟩
    · exact .done ⟨_, ⟨v, sound, rfl⟩, rfl⟩

theorem openFile_rule {cwd : Option (Fin ninode)} (sound : v.Sound I)
    : Obeys I p ({.locked ip v none} + {.table p o cwd} + {.op}) (openFile p ip omode)
        fun _ got => got = {.table p o cwd}
          ∨ ∃ fd f, o fd = none
            ∧ got = {.file f (.inode ip)} + {.table p (update o fd (some f)) cwd} := by
  refine .call (.perform .filealloc) (zero_add _).symm ?_
  rintro _ _ (⟨rfl, rfl⟩ | ⟨f, rfl, rfl⟩)
  · refine .use (g := {.table p o cwd} + {.op}) (iunlockput_rule fun _ => sound.kept) (by abel) fun _ => ?_
    exact endOp_rule (g := {.table p o cwd}) (by abel) (.inl rfl)
  refine .call (g := {.file f .none} + {.locked ip v none} + {.op})
    (.perform (.fdalloc p f o cwd)) (by abel) ?_
  rintro _ _ (⟨rfl, rfl⟩ | ⟨fd, rfl, empty, rfl⟩)
  · refine .use (g := {.locked ip v none} + {.table p o cwd} + {.op}) fileclose_rule (by abel) fun _ => ?_
    refine .use (g := {.table p o cwd} + {.op}) (iunlockput_rule fun _ => sound.kept) (by abel) fun _ => ?_
    exact endOp_rule (g := {.table p o cwd}) (by abel) (.inl rfl)
  · refine .use (g := {.table p (update o fd (some f)) cwd} + {.file f .none} + {.op})
      (iunlock_rule fun _ => sound.kept) (by abel) fun _ => ?_
    refine .use (g := {.file f .none} + {.ref ip}
      + {.table p (update o fd (some f)) cwd}) (.perform .endOp)
      (by simp only [carrier]; abel) fun _ => ?_
    rw [zero_add]
    refine .use (.perform (.setInodeFile f ip _ _)) rfl fun _ => ?_
    exact .done (.inr ⟨fd, f, empty, rfl⟩)

theorem sysOpen_rule
    : Obeys I p (home p o c) (sysOpen p path omode) fun _ got => got = home p o c
        ∨ ∃ fd f ip, o fd = none
          ∧ got = {.file f (.inode ip)} + home p (update o fd (some f)) c := by
  refine .gain (.perform .beginOp) fun _ => ?_
  refine .call openInode_rule (add_comm ..) ?_
  rintro found _ ⟨part, made, rfl⟩
  cases found with
  | none =>
    obtain rfl : part = 0 := made
    exact endOp_rule (g := home p o c) (by abel) (.inl rfl)
  | some ip =>
    obtain ⟨v, sound, rfl⟩ := made
    refine .last (g := {.ref c}) (openFile_rule sound) (by unfold home; abel) ?_
    rintro r _ (rfl | ⟨fd, f, empty, rfl⟩)
    · exact .inl rfl
    · exact .inr ⟨fd, f, ip, empty, add_assoc ..⟩

theorem make_rule {args : Option (List UInt8 × Int16 × Int16)}
    : Obeys I p (home p o c) (make p type args) fun _ got => got = home p o c := by
  refine .gain (.perform .beginOp) fun _ => ?_
  match args with
  | none =>
    exact endOp_rule rfl rfl
  | some (path, major, minor) =>
    refine .call create_rule (add_comm ..) ?_
    rintro made _ ⟨part, held, rfl⟩
    cases made with
    | none =>
      obtain rfl : part = 0 := held
      exact endOp_rule (g := home p o c) (by abel) rfl
    | some ip =>
      obtain ⟨v, sound, rfl⟩ := held
      refine .use (g := home p o c + {.op}) (iunlockput_rule fun _ => sound.kept) (by abel) fun _ => ?_
      exact endOp_rule (g := home p o c) (by abel) rfl

theorem sysChdir_rule {path : Option (List UInt8)}
    : Obeys I p (home p o c) (sysChdir p path) fun _ got => ∃ c', got = home p o c' := by
  refine .gain (.perform .beginOp) fun _ => ?_
  cases path with
  | none =>
    exact endOp_rule rfl ⟨c, rfl⟩
  | some path =>
    refine .use namei_rule (add_comm ..) fun found => ?_
    cases found with
    | none =>
      exact endOp_rule (add_comm ..) ⟨c, rfl⟩
    | some ip =>
      refine held_call (g := home p o c + {.op}) (ilock_rule none) (add_assoc ..) fun _ v sound => ?_
      refine .ask (.perform (.getInode ip)) fun i => ?_
      split
      · refine .use (iunlockput_rule fun _ => sound.kept) rfl fun _ => ?_
        exact endOp_rule (g := home p o c) (by abel) ⟨c, rfl⟩
      · refine .use (iunlock_rule fun _ => sound.kept) rfl fun _ => ?_
        refine .call (g := {.ref ip} + {.op}) cwdOf_rule (by simp only [carrier]; abel) ?_
        rintro cwd _ ⟨rfl, rfl⟩
        refine .use (g := {.table p o (some cwd)} + {.ref ip} + {.op}) iput_rule
          (by unfold home; abel) fun _ => ?_
        refine .spend (g := {.table p o (some cwd)} + {.ref ip}) (.perform .endOp) (by abel) fun _ => ?_
        refine .use (.perform (.setCwd p (some ip) o (some cwd))) rfl fun _ => ?_
        exact .done ⟨ip, rfl⟩

end Create

section Exec

theorem loaduvm_rule (fuel off sz : Nat) (sound : v.Sound I)
    : Obeys I p {.locked ip v none} (loaduvm ip fuel off sz) fun _ => Held I ip none := by
  induction fuel generalizing off sz v with
  | zero => exact .done ⟨v, sound, rfl⟩
  | succ fuel ih =>
    unfold loaduvm
    split
    · exact .done ⟨v, sound, rfl⟩
    refine held_bind (readi_rule sound) fun read w sound' => ?_
    split
    · exact ih _ _ sound'
    · exact .done ⟨w, sound', rfl⟩

theorem loadHeader_rule (off : Nat) (sound : v.Sound I)
    : Obeys I p {.locked ip v none} (loadHeader ip off) fun _ => Held I ip none := by
  refine held_bind (readi_rule sound) fun read w sound' => ?_
  cases read with
  | none => exact .done ⟨w, sound', rfl⟩
  | some read =>
    dsimp only
    split
    · exact .done ⟨w, sound', rfl⟩
    split
    · exact .done ⟨w, sound', rfl⟩
    refine .ask (.perform .choose) fun mapped => ?_
    split
    · exact .done ⟨w, sound', rfl⟩
    · exact loaduvm_rule _ _ _ sound'

theorem loadHeaders_rule (phnum off : Nat) (sound : v.Sound I)
    : Obeys I p {.locked ip v none} (loadHeaders ip phnum off) fun _ => Held I ip none := by
  induction phnum generalizing off v with
  | zero => exact .done ⟨v, sound, rfl⟩
  | succ phnum ih =>
    refine held_bind (loadHeader_rule off sound) fun loaded w sound' => ?_
    split
    · exact ih _ sound'
    · exact .done ⟨w, sound', rfl⟩

theorem loadImage_rule (sound : v.Sound I)
    : Obeys I p {.locked ip v none} (loadImage ip) fun _ => Held I ip none := by
  refine held_bind (readi_rule sound) fun read w sound' => ?_
  cases read with
  | none => exact .done ⟨w, sound', rfl⟩
  | some elf =>
    dsimp only
    split
    · exact .done ⟨w, sound', rfl⟩
    refine .ask (.perform .choose) fun pgdir => ?_
    split
    · exact .done ⟨w, sound', rfl⟩
    · exact loadHeaders_rule _ _ sound'

theorem sysExec_rule {path : Option (List UInt8)}
    : Obeys I p (home p o c) (sysExec p path) fun _ got => got = home p o c := by
  cases path with
  | none => exact .done rfl
  | some path =>
    refine .gain (.perform .beginOp) fun _ => ?_
    refine .use namei_rule (add_comm ..) fun found => ?_
    cases found with
    | none =>
      exact endOp_rule (add_comm ..) rfl
    | some ip =>
      refine held_call (g := home p o c + {.op}) (ilock_rule none) (add_assoc ..) fun _ v sound => ?_
      refine held_call (loadImage_rule sound) rfl fun loaded w sound' => ?_
      refine .use (iunlockput_rule fun _ => sound'.kept) rfl fun _ => ?_
      refine .spend (g := home p o c) (.perform .endOp) (by abel) fun _ => ?_
      split
      · refine .gain (.perform .choose) fun stack => ?_
        exact .done (zero_add _)
      · exact .done rfl

end Exec

section Descriptors

variable {arg : Option (Fin nofile)}

theorem mem_slots {t : Token} (mem : t ∈ slots o kinds) : ∃ f k, t = .file f k := by
  obtain ⟨fd, _, mem⟩ := Multiset.mem_sum.mp mem
  cases held : o fd with
  | none => simp [held] at mem
  | some f =>
    simp only [held, Option.elim_some, Multiset.mem_singleton] at mem
    exact ⟨f, kinds fd, mem⟩

instance : (protocol I).Resting (slots o kinds) where
  cold := by
    intro t mem
    obtain ⟨f, k, rfl⟩ := mem_slots mem
    simp

/-- The reference of a slot, and those of the others. -/
theorem slots_take (held : o fd = some f)
    : slots o kinds = {.file f (kinds fd)} + slots (update o fd none) kinds := by
  have split : ∀ o', slots o' kinds = (o' fd).elim 0 (fun f => {Token.file f (kinds fd)})
      + ∑ i ∈ Finset.univ \ {fd}, (o' i).elim 0 fun f => {Token.file f (kinds i)} :=
    fun _ => Finset.sum_eq_add_sum_sdiff_singleton_of_mem (Finset.mem_univ fd) _
  rw [split o, split (update o fd none), held, update_self, Option.elim_none,
    zero_add, Option.elim_some]
  refine congrArg _ (Finset.sum_congr rfl fun i other => ?_)
  rw [update_of_ne (by simpa using other)]

/-- A slot that was free has been filled. -/
theorem slots_put (empty : o fd = none)
    : slots (update o fd (some f)) (update kinds fd k)
      = {.file f k} + slots o kinds := by
  rw [slots_take (update_self fd (some f) o), update_self, update_idem, ← empty, update_eq_self]
  refine congrArg _ (Finset.sum_congr rfl fun i _ => ?_)
  by_cases same : i = fd
  · simp [same, empty]
  · rw [update_of_ne same]

theorem idle_iff {h : Multiset Token}
    : Idle p h ↔ ∃ o c kinds, (∀ fd, kinds fd ≠ .none) ∧ h = home p o c + slots o kinds :=
  Iff.rfl

theorem made_update (fd : Fin nofile) (made : ∀ fd, kinds fd ≠ .none) (kind : k ≠ .none)
    (i : Fin nofile)
    : update kinds fd k i ≠ .none := by
  by_cases same : i = fd
  · simpa [same] using kind
  · simpa [same] using made i

/-- A slot that was free has been filled with a file of its own. -/
theorem idle_put (made : ∀ fd, kinds fd ≠ .none) (empty : o fd = none) (kind : k ≠ .none)
    : Idle p ({.file f k} + home p (update o fd (some f)) c + slots o kinds) := by
  refine ⟨update o fd (some f), c, _, made_update fd made kind, ?_⟩
  rw [slots_put empty]
  unfold home
  abel

theorem argfd_rule
    : Obeys I p (home p o c) (argfd p arg) fun found got =>
        got = home p o c ∧ (∀ fd f, found = some (fd, f) → o fd = some f) := by
  cases arg with
  | none => exact .done ⟨rfl, nofun⟩
  | some fd =>
    refine .call (.perform (.getOfile p fd o (some c))) rfl ?_
    rintro r _ ⟨rfl, rfl⟩
    refine .done ⟨rfl, fun i f found => ?_⟩
    obtain ⟨g, held, same⟩ := Option.map_eq_some_iff.mp found
    cases same
    exact held

theorem sysDup_rule (made : ∀ fd, kinds fd ≠ .none)
    : Obeys I p (home p o c + slots o kinds) (sysDup p arg) fun _ => Idle p := by
  refine .call argfd_rule rfl ?_
  rintro found _ ⟨rfl, slot⟩
  match found with
  | none => exact .done ⟨o, c, kinds, made, rfl⟩
  | some (fd, f) =>
    have held := slot fd f rfl
    refine .call (g := {.ref c} + slots o kinds) (.perform (.fdalloc p f o (some c)))
      (by unfold home; abel) ?_
    rintro _ _ (⟨rfl, rfl⟩ | ⟨fd', rfl, empty, rfl⟩)
    · exact .done ⟨o, c, kinds, made, (add_assoc ..).symm⟩
    · refine .use (g := home p (update o fd' (some f)) c
        + slots (update o fd none) kinds) (.perform (.filedup f (kinds fd) (made fd)))
        (by rw [slots_take held]; unfold home; abel) fun _ => ?_
      refine .done ?_
      have more := idle_put (p := p) (c := c) (f := f) made empty (made fd)
      rw [slots_take held] at more
      convert more using 1
      abel

/-- `sys_read` and `sys_write` leave the file as it is. -/
theorem withFile_rule {n : Option Nat} {act : Fin nfile → Nat → Sys (Option Nat)}
    (rule : ∀ f k n, Obeys I p {.file f k} (act f n) fun _ got => got = {.file f k})
    : Obeys I p (home p o c + slots o kinds)
        (do
          let found ← argfd p arg
          match found, n with
          | some (_, f), some n => act f n
          | _, _ => pure none)
        fun _ got => got = home p o c + slots o kinds := by
  refine .call argfd_rule rfl ?_
  rintro found _ ⟨rfl, slot⟩
  match found, n with
  | none, _ | some _, none => exact .done rfl
  | some (fd, f), some n =>
    have held := slot fd f rfl
    refine .last (g := home p o c + slots (update o fd none) kinds)
      (rule f (kinds fd) n) (by rw [slots_take held]; abel) ?_
    rintro r _ rfl
    rw [slots_take held]
    abel

theorem sysClose_rule (made : ∀ fd, kinds fd ≠ .none)
    : Obeys I p (home p o c + slots o kinds) (sysClose p arg) fun _ => Idle p := by
  refine .call argfd_rule rfl ?_
  rintro found _ ⟨rfl, slot⟩
  match found with
  | none => exact .done ⟨o, c, kinds, made, rfl⟩
  | some (fd, f) =>
    have held := slot fd f rfl
    refine .use (g := {.ref c} + slots o kinds) (.perform (.setOfile p fd none o (some c)))
      (by unfold home; abel) fun _ => ?_
    refine .use (g := home p (update o fd none) c
      + slots (update o fd none) kinds) fileclose_rule
      (by rw [slots_take held]; unfold home; abel) fun _ => ?_
    exact .done ⟨_, c, kinds, made, zero_add _⟩

theorem sysPipe_rule {fds : Bool} (made : ∀ fd, kinds fd ≠ .none)
    : Obeys I p (home p o c + slots o kinds) (sysPipe p fds) fun _ => Idle p := by
  unfold sysPipe
  split
  · exact .done ⟨o, c, kinds, made, rfl⟩
  refine .call pipealloc_rule (zero_add _).symm ?_
  rintro _ _ (⟨rfl, rfl⟩ | ⟨rf, wf, q, rfl, rfl⟩)
  · exact .done ⟨o, c, kinds, made, zero_add _⟩
  -- both files are closed again
  have undo : Obeys I p ({.file rf (.pipe q false)} + {.file wf (.pipe q true)}
      + (home p o c + slots o kinds)) (do fileclose rf; fileclose wf; pure (none : Option Nat))
      fun _ => Idle p := by
    refine .spend fileclose_rule (add_assoc ..) fun _ => ?_
    refine .use fileclose_rule rfl fun _ => ?_
    exact .done ⟨o, c, kinds, made, zero_add _⟩
  refine .call (g := {.file rf (.pipe q false)} + {.file wf (.pipe q true)} + {.ref c}
    + slots o kinds) (.perform (.fdalloc p rf o (some c))) (by unfold home; abel) ?_
  rintro _ _ (⟨rfl, rfl⟩ | ⟨fd0, rfl, empty, rfl⟩)
  · convert undo using 1
    unfold home
    abel
  refine .call (.perform (.fdalloc p wf _ (some c))) rfl ?_
  rintro _ _ (⟨rfl, rfl⟩ | ⟨fd1, rfl, empty', rfl⟩)
  · refine .use (.perform (.setOfile p fd0 none _ (some c))) rfl fun _ => ?_
    rw [update_idem, ← empty, update_eq_self]
    convert undo using 1
    unfold home
    abel
  · refine .done ?_
    have made' := made_update fd0 made (k := .pipe q false) nofun
    have both := idle_put (p := p) (c := c) (f := wf) made' empty' (k := .pipe q true) nofun
    rw [slots_put empty] at both
    convert both using 1
    unfold home
    abel

end Descriptors

section Processes

theorem allocproc_rule
    : Obeys I p 0 allocproc fun np got =>
        np = none ∧ got = 0
        ∨ ∃ q, np = some q ∧ got = {.embryo q} + {.table q (fun _ => none) none} := by
  refine .bind (.perform .allocproc) ?_
  rintro _ _ (⟨rfl, rfl⟩ | ⟨np, rfl, rfl⟩)
  · exact .done (.inl ⟨rfl, rfl⟩)
  refine .ask (.perform .choose) fun kstack => ?_
  split
  · refine .seq (.perform (.freeproc np)) fun _ => ?_
    exact .done (.inl ⟨rfl, rfl⟩)
  · exact .done (.inr ⟨np, rfl, rfl⟩)

section

variable (made : ∀ fd, kinds fd ≠ .none)
include made

/-- The child has one reference for each slot that was copied; a slot is copied once. -/
theorem copyFiles_rule {np : Fin nproc} {o' : Fin nofile → Option (Fin nfile)}
    (slotList : List (Fin nofile)) (once : slotList.Nodup) (free : ∀ i ∈ slotList, o' i = none)
    : Obeys I p (home p o c + slots o kinds + ({.table np o' none} + slots o' kinds))
        (copyFiles p np slotList) fun _ got => ∃ copied,
          got = home p o c + slots o kinds + ({.table np copied none} + slots copied kinds) := by
  induction slotList generalizing o' with
  | nil => exact .done ⟨o', rfl⟩
  | cons i rest ih =>
    obtain ⟨fresh, once⟩ := List.nodup_cons.mp once
    have free' : ∀ j ∈ rest, o' j = none := fun j mem => free j (List.mem_cons_of_mem i mem)
    refine .call (g := {.ref c} + slots o kinds + ({.table np o' none} + slots o' kinds))
      (.perform (.getOfile p i o (some c))) (by unfold home; abel) ?_
    rintro r _ ⟨rfl, rfl⟩
    cases held : o i with
    | none =>
      convert ih once free' using 1
      unfold home
      abel
    | some f =>
      refine .use (g := home p o c + slots (update o i none) kinds
        + ({.table np o' none} + slots o' kinds)) (.perform (.filedup f (kinds i) (made i)))
        (by rw [slots_take held]; unfold home; abel) fun _ => ?_
      have put : slots (update o' i (some f)) (update kinds i (kinds i))
          = {.file f (kinds i)} + slots o' kinds := slots_put (free i (by simp))
      rw [update_eq_self] at put
      refine .use (g := home p o c + slots o kinds
        + slots (update o' i (some f)) kinds)
        (.perform (.setOfile np i (some f) o' none))
        (by rw [put, slots_take held]; abel) fun _ => ?_
      have free'' : ∀ j ∈ rest, update o' i (some f) j = none := by
        intro j mem
        have other : j ≠ i := fun same => fresh (same ▸ mem)
        rw [update_of_ne other]
        exact free' j mem
      convert ih once free'' using 1
      abel

theorem launch_rule {np : Fin nproc}
    : Obeys I p ({.embryo np} + {.table np (fun _ => none) none} + (home p o c + slots o kinds))
        (launch p np) fun _ => Idle p := by
  have bare : slots (fun _ => none) kinds = 0 := Finset.sum_const_zero
  refine .call (g := {.embryo np}) (copyFiles_rule (o := o) (c := c) made (List.finRange nofile)
    (List.nodup_finRange nofile) fun _ _ => rfl) (by rw [bare]; abel) ?_
  rintro _ _ ⟨copied, rfl⟩
  refine .call (g := slots o kinds + ({.table np copied none} + slots copied kinds)
    + {.embryo np}) cwdOf_rule (by abel) ?_
  rintro cwd _ ⟨rfl, rfl⟩
  refine .use (g := {.table p o (some cwd)} + slots o kinds
    + ({.table np copied none} + slots copied kinds) + {.embryo np}) (.perform (.idup cwd))
    (by unfold home; abel) fun _ => ?_
  refine .use (g := home p o cwd + slots o kinds + {.ref cwd} + slots copied kinds
    + {.embryo np}) (.perform (.setCwd np (some cwd) copied none)) (by unfold home; abel) fun _ => ?_
  have child : Idle np ({.table np copied (some cwd)} + {.ref cwd} + slots copied kinds) :=
    ⟨copied, cwd, kinds, made, rfl⟩
  refine .fork (g := home p o cwd + slots o kinds) ?_ child
    (.done ⟨o, cwd, kinds, made, rfl⟩)
  change _ = {Token.embryo np} + _ + _
  abel

theorem fork_rule
    : Obeys I p (home p o c + slots o kinds) (fork p) fun _ => Idle p := by
  refine .call allocproc_rule (zero_add _).symm ?_
  rintro _ _ (⟨rfl, rfl⟩ | ⟨np, rfl, rfl⟩)
  · exact .done ⟨o, c, kinds, made, zero_add _⟩
  refine .ask (.perform .choose) fun pgdir => ?_
  split
  · refine .use (.perform (.freeproc np)) rfl fun _ => ?_
    exact .done ⟨o, c, kinds, made, zero_add _⟩
  · exact launch_rule made

theorem clone_rule
    : Obeys I p (home p o c + slots o kinds) (clone p) fun _ => Idle p := by
  refine .call allocproc_rule (zero_add _).symm ?_
  rintro _ _ (⟨rfl, rfl⟩ | ⟨np, rfl, rfl⟩)
  · exact .done ⟨o, c, kinds, made, zero_add _⟩
  · exact launch_rule made

end

/-- The slots that were closed are empty, and stay so. -/
theorem closeFiles_rule (slotList : List (Fin nofile))
    : Obeys I p (home p o c + slots o kinds) (closeFiles p slotList) fun _ got => ∃ left,
        (∀ fd, fd ∈ slotList ∨ o fd = none → left fd = none)
          ∧ got = home p left c + slots left kinds := by
  induction slotList generalizing o with
  | nil => exact .done ⟨o, by simp, rfl⟩
  | cons fd rest ih =>
    refine .call (g := {.ref c} + slots o kinds) (.perform (.getOfile p fd o (some c)))
      (by unfold home; abel) ?_
    rintro r _ ⟨rfl, rfl⟩
    cases held : o fd with
    | none =>
      rw [← add_assoc]
      refine ih.mono fun _ _ ⟨left, empty, same⟩ => ⟨left, fun i closed => ?_, same⟩
      refine empty i (closed.elim (fun mem => ?_) .inr)
      exact (List.mem_cons.mp mem).symm.imp_right fun same => by rw [same, held]
    | some f =>
      refine .use (g := home p o c + slots (update o fd none) kinds) fileclose_rule
        (by rw [slots_take held]; unfold home; abel) fun _ => ?_
      refine .use (g := {.ref c} + slots (update o fd none) kinds)
        (.perform (.setOfile p fd none o (some c))) (by unfold home; abel) fun _ => ?_
      rw [← add_assoc]
      refine ih.mono fun _ _ ⟨left, empty, same⟩ => ⟨left, fun i closed => ?_, same⟩
      refine empty i ?_
      by_cases this : i = fd
      · exact .inr (by rw [this, update_self])
      · rw [update_of_ne this]
        exact closed.imp_left fun mem => (List.mem_cons.mp mem).resolve_left this

/-- A process that ends has no reference left. -/
theorem exit_rule
    : (protocol I).Safe p (exit p) (fun _ => Idle p) (home p o c + slots o kinds) := by
  unfold exit
  split
  · exact (panic_rule).safe
  refine (closeFiles_rule (List.finRange nofile)).safe.bind ?_
  rintro _ _ ⟨left, empty, rfl⟩
  obtain rfl : left = fun _ => none := funext fun fd => empty fd (.inl (List.mem_finRange fd))
  have bare : slots (fun _ => none) kinds = 0 := Finset.sum_const_zero
  rw [bare, add_zero]
  refine .call (.perform .beginOp) (zero_add _).symm ?_
  rintro _ _ rfl
  refine .call cwdOf_rule (add_comm ..) ?_
  rintro cwd _ ⟨rfl, rfl⟩
  refine .call (g := {.table p (fun _ => none) (some cwd)} + {.op}) iput_rule
    (by unfold home; abel) ?_
  rintro _ _ rfl
  refine .call (g := {.table p (fun _ => none) (some cwd)}) (.perform .endOp) (by abel) ?_
  rintro _ _ rfl
  rw [zero_add]
  refine (perform_rule (.setCwd p none _ _)).safe.bind ?_
  rintro _ _ rfl
  rfl

theorem wait_rule : Obeys I p 0 wait fun _ got => got = 0 := by
  refine .seq (.perform .choose) fun child => ?_
  refine .seq (.perform (.reap _)) fun found => ?_
  exact .done rfl

end Processes

/-- After a call, a process has one reference for each of its slots and for its directory, as
before. One case for each call.
-/
theorem syscall_rule (call : Call) {h : Multiset Token} (idle : Idle p h)
    : (protocol I).Safe p (syscall p call) (fun _ => Idle p) h := by
  obtain ⟨o, c, kinds, made, rfl⟩ := idle_iff.mp idle
  have still : ∀ {script : Sys (Option Nat)} {post : Option Nat → Multiset Token → Prop},
      Obeys I p (home p o c) script post
      → (∀ r got, post r got → Idle p (got + slots o kinds))
      → (protocol I).Safe p script (fun _ => Idle p) (home p o c + slots o kinds) :=
    fun rule ends => (Triple.last rule rfl ends).safe
  match call with
  | .open none | .link none | .unlink none => exact idle
  | .open (some (path, omode)) =>
    refine still sysOpen_rule ?_
    rintro r _ (rfl | ⟨fd, f, ip, empty, rfl⟩)
    · exact idle
    · exact idle_put made empty nofun
  | .close fd => exact (sysClose_rule made).safe
  | .dup fd => exact (sysDup_rule made).safe
  | .pipe fds => exact (sysPipe_rule made).safe
  | .read fd n =>
    refine (withFile_rule fun f k n => fileread_rule).safe.mono ?_
    rintro r _ rfl
    exact idle
  | .write fd n =>
    refine (withFile_rule fun f k n => filewrite_rule).safe.mono ?_
    rintro r _ rfl
    exact idle
  | .mkdir path => exact still make_rule fun _ _ same => same ▸ idle
  | .mknod args => exact still make_rule fun _ _ same => same ▸ idle
  | .link (some (old, new)) => exact still sysLink_rule fun _ _ same => same ▸ idle
  | .unlink (some path) => exact still sysUnlink_rule fun _ _ same => same ▸ idle
  | .chdir path =>
    refine still sysChdir_rule ?_
    rintro r _ ⟨c', rfl⟩
    exact ⟨o, c', kinds, made, rfl⟩
  | .exec path => exact still sysExec_rule fun _ _ same => same ▸ idle
  | .fork => exact (fork_rule made).safe
  | .clone => exact (clone_rule made).safe
  | .exit => exact exit_rule
  | .wait =>
    refine (Triple.last wait_rule (zero_add _).symm fun _ _ same => ?_).safe
    rw [same, zero_add]
    exact idle

end Xv6.Files
