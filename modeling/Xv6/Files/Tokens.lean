import Xv6.Files.Calls
import Xv6.Lib.Protocol

/-! The references, locks and transactions that a process has, as tokens, and what each operation
does with them. The inode cache is followed closely only on a disk whose files have no holes,
which is what `I` says.
-/

namespace Xv6.Files

open Lib Fs

section Tokens

/-- What a file with a reference refers to. -/
inductive Kind where
  | none
  | inode (ip : Fin ninode)
  | pipe (q : Nat) (writable : Bool)
  deriving DecidableEq

def File.kind (file : File) : Kind :=
  match file.type with
  | .none => .none
  | .inode ip => .inode ip
  | .pipe q => .pipe q file.writable

/-- The process that has locked an inode knows the fields of its entry, and whether they are what
is on disk, where the inode is in use.
-/
structure View where
  valid : Bool
  copy : Dinode
  synced : Bool

/-- What a process may have. `embryo p` is the right to start process `p`, and `table p` the right
to use its `ofile` and `cwd`; `file f` and `ref ip` are counted references. A locked inode keeps
the reference it was locked with: one of the process, or that of the file `via`. `pend q` is an
end of a pipe whose file was closed, `blank q` a page that is no pipe yet, and `page q` the page of
a pipe that is closed.
-/
inductive Token where
  | me (p : Fin nproc)
  | embryo (p : Fin nproc)
  | table (p : Fin nproc) (ofile : Fin nofile → Option (Fin nfile)) (cwd : Option (Fin ninode))
  | file (f : Fin nfile) (kind : Kind)
  | ref (ip : Fin ninode)
  | locked (ip : Fin ninode) (view : View) (via : Option (Fin nfile))
  | op
  | pend (q : Nat) (writable : Bool)
  | blank (q : Nat)
  | page (q : Nat)

/-- The end of a pipe that was closed, and a page that is no pipe, are dealt with at once. -/
def Token.cold : Token → Bool
  | .pend .. | .blank _ | .page _ => false
  | _ => true

@[simp] theorem Token.cold_eq
    : (∀ p, (Token.me p).cold = true) ∧ (∀ p, (Token.embryo p).cold = true)
      ∧ (∀ p o c, (Token.table p o c).cold = true) ∧ (∀ f k, (Token.file f k).cold = true)
      ∧ (∀ ip, (Token.ref ip).cold = true) ∧ (∀ ip v via, (Token.locked ip v via).cold = true)
      ∧ Token.op.cold = true :=
  ⟨fun _ => rfl, fun _ => rfl, fun _ _ _ => rfl, fun _ _ => rfl, fun _ => rfl, fun _ _ _ => rfl, rfl⟩

/-- The reference that an inode is locked with. -/
def carrier (ip : Fin ninode) : Option (Fin nfile) → Token
  | none => .ref ip
  | some f => .file f (.inode ip)

/-- What a file has kept when its last reference is dropped. -/
def payload : Kind → Multiset Token
  | .none => 0
  | .inode ip => {.ref ip}
  | .pipe q writable => {.pend q writable}

/-- The references of the slots of a process. -/
def slots (ofile : Fin nofile → Option (Fin nfile)) (kinds : Fin nofile → Kind)
    : Multiset Token :=
  ∑ fd, (ofile fd).elim 0 fun f => {Token.file f (kinds fd)}

/-- What a process has between its calls. A file in a slot is not one that is being made. -/
def Idle (p : Fin nproc) (tokens : Multiset Token) : Prop :=
  ∃ ofile ip kinds, (∀ fd, kinds fd ≠ .none)
    ∧ tokens = {.table p ofile (some ip)} + {.ref ip} + slots ofile kinds

end Tokens

section Views

/-- The place of the address of block `bn` in `addrs`. -/
def addrSlot (bn : Nat) : Fin 13 := if bn < ndirect then Fin.ofNat 13 bn else 12

/-- A disk inode without holes: its blocks, up to its size, have an address. -/
def Whole (d : Dinode) : Prop :=
  d.type ≠ 0 → ∀ bn, bn * bsize < d.size.toNat → d.addrs (addrSlot bn) ≠ 0

/-- The entry is as on disk, where the inode is in use and has no holes. -/
structure View.Kept (v : View) : Prop where
  synced : v.synced = true
  used : v.copy.type ≠ 0
  whole : Whole v.copy

/-- An entry that may be unlocked: if it is valid, it has been written back. -/
def View.Clean (I : Prop) (v : View) : Prop := v.valid = true → I → v.Kept

/-- An entry after `ilock`. -/
structure View.Sound (I : Prop) (v : View) : Prop where
  valid : v.valid = true
  kept : I → v.Kept

/-- The fields that a store changes are no longer known to be on disk. -/
def View.store (v : View) (copy : Dinode) : View := ⟨v.valid, copy, false⟩

/-- The fields are those on disk; others do not change a disk inode that is in use. -/
def View.sync (v : View) (copy : Dinode) : View := ⟨v.valid, copy, copy.type ≠ 0⟩

end Views

/-- What an operation takes and gives. -/
inductive Spec (I : Prop)
    : (o : Op) → Multiset Token → (o.Res → Multiset Token → Prop) → Prop
  | choose : Spec I .choose 0 fun _ got => got = 0
  | data (n) : Spec I (.data n) 0 fun bytes got => bytes.length = n ∧ got = 0
  | panic : Spec I .panic 0 fun _ _ => False
  | getOfile (p fd o c)
    : Spec I (.getOfile p fd) {.table p o c} fun r got => r = o fd ∧ got = {.table p o c}
  | setOfile (p fd f o c)
    : Spec I (.setOfile p fd f) {.table p o c} fun _ got =>
        got = {.table p (Function.update o fd f) c}
  | fdalloc (p f o c)
    : Spec I (.fdalloc p f) {.table p o c} fun r got =>
        r = none ∧ got = {.table p o c}
        ∨ ∃ fd, r = some fd ∧ o fd = none ∧ got = {.table p (Function.update o fd (some f)) c}
  | getCwd (p o c)
    : Spec I (.getCwd p) {.table p o c} fun r got => r = c ∧ got = {.table p o c}
  | setCwd (p ip o c)
    : Spec I (.setCwd p ip) {.table p o c} fun _ got => got = {.table p o ip}
  | allocproc
    : Spec I .allocproc 0 fun r got =>
        r = none ∧ got = 0
        ∨ ∃ p, r = some p ∧ got = {.embryo p} + {.table p (fun _ => none) none}
  | freeproc (p)
    : Spec I (.freeproc p) ({.embryo p} + {.table p (fun _ => none) none}) fun _ got => got = 0
  | reap (p) : Spec I (.reap p) 0 fun _ got => got = 0
  | filealloc
    : Spec I .filealloc 0 fun r got =>
        r = none ∧ got = 0 ∨ ∃ f, r = some f ∧ got = {.file f .none}
  | filedup (f k) (made : k ≠ .none)
    : Spec I (.filedup f) {.file f k} fun _ got => got = {.file f k} + {.file f k}
  | filedrop (f k)
    : Spec I (.filedrop f) {.file f k} fun r got =>
        r = none ∧ got = 0 ∨ ∃ ff, r = some ff ∧ ff.kind = k ∧ got = payload k
  | getFile (f k)
    : Spec I (.getFile f) {.file f k} fun r got => r.kind = k ∧ got = {.file f k}
  | setInodeFile (f ip readable writable)
    : Spec I (.setInodeFile f ip readable writable) ({.file f .none} + {.ref ip})
        fun _ got => got = {.file f (.inode ip)}
  | iget (dev inum) : Spec I (.iget dev inum) 0 fun ip got => got = {.ref ip}
  | idup (ip) : Spec I (.idup ip) {.ref ip} fun _ got => got = {.ref ip} + {.ref ip}
  | getInode (ip) : Spec I (.getInode ip) 0 fun _ got => got = 0
  | getLocked (ip v via)
    : Spec I (.getInode ip) {.locked ip v via} fun r got =>
        r.valid = v.valid ∧ r.copy = v.copy ∧ got = {.locked ip v via}
  | acquiresleep (ip via)
    : Spec I (.acquiresleep ip) {carrier ip via} fun _ got =>
        ∃ v : View, v.Clean I ∧ got = {.locked ip v via}
  | releasesleep (ip via) (v : View) (clean : v.Clean I)
    : Spec I (.releasesleep ip) {.locked ip v via} fun _ got => got = {carrier ip via}
  | load (ip v via)
    : Spec I (.load ip) {.locked ip v via} fun _ got =>
        ∃ d, (I → Whole d) ∧ got = {.locked ip (v.sync d) via}
  | setValid (ip valid via) (v : View)
    : Spec I (.setValid ip valid) {.locked ip v via} fun _ got =>
        got = {.locked ip { v with valid } via}
  | setCopy (ip copy v via)
    : Spec I (.setCopy ip copy) {.locked ip v via} fun _ got =>
        got = {.locked ip (v.store copy) via}
  | iupdate (ip via) (v : View) (whole : I → Whole v.copy)
    : Spec I (.iupdate ip) {.locked ip v via} fun _ got => got = {.locked ip (v.sync v.copy) via}
  | dropRef (ip) : Spec I (.dropRef ip) {.ref ip} fun _ got => got = 0
  | ninodes : Spec I .ninodes 0 fun _ got => got = 0
  | tryAlloc (dev inum type) : Spec I (.tryAlloc dev inum type) 0 fun _ got => got = 0
  | balloc : Spec I .balloc 0 fun b got => b ≠ 0 ∧ got = 0
  | beginOp : Spec I .beginOp 0 fun _ got => got = {.op}
  | endOp : Spec I .endOp {.op} fun _ got => got = 0
  | kalloc
    : Spec I .kalloc 0 fun r got => r = none ∧ got = 0 ∨ ∃ q, r = some q ∧ got = {.blank q}
  | initPipe (q f0 f1)
    : Spec I (.initPipe q f0 f1) ({.blank q} + {.file f0 .none} + {.file f1 .none})
        fun _ got => got = {.file f0 (.pipe q false)} + {.file f1 (.pipe q true)}
  | pipeSection (q f writable)
    : Spec I (.pipeSection q) {.file f (.pipe q writable)} fun _ got =>
        got = {.file f (.pipe q writable)}
  | closeEnd (q writable)
    : Spec I (.closeEnd q writable) {.pend q writable} fun both got =>
        got = if both then {.page q} else 0
  | kfree (q) : Spec I (.kfree q) {.page q} fun _ got => got = 0

/-- The protocol that all calls follow. -/
def protocol (I : Prop) : Protocol (Fin nproc) Op Op.Res Token where
  spec := Spec I
  me := .me
  seed := .embryo
  last p := {.table p (fun _ => none) none}
  idle := Idle
  cold t := t.cold = true

end Xv6.Files
