import Xv6.Bio.Coherence
import Xv6.Lib.Links

/-! The list of the buffer cache as it is linked: `binit`, `bget` and `brelse` over `prev` and
`next`. The links form the list of `Bio.Model`, in the order of the last releases.
-/

namespace Xv6.Bio

open Xv6.Lib
open Function (update update_self update_of_ne)

/-- The cache with its links. `released` has the time when a buffer last lost its last user; no
function looks at it, nor at `order`.
-/
structure LinkedCache (ι : Type) extends Cache ι where
  links : Links BufId
  released : BufId → Option Nat
  clock : Nat

/-- The loop of `binit`, from the head alone. -/
def binitLinks : Links BufId := (List.finRange nbuf).foldl Links.insert ⟨fun _ => none, fun _ => none⟩

def LinkedCache.binit (ι : Type) (disk : UInt32 → Block) (disksize : UInt32) : LinkedCache ι where
  toCache := Cache.binit ι disk disksize
  links := binitLinks
  released := fun _ => none
  clock := 0

/-- `t` is a later time of release than `u`, which may be that of a buffer never released. -/
def Later (t u : Option Nat) : Prop := ∀ n, u = some n → ∃ m, t = some m ∧ n < m

/-- The links form one ring of all buffers, in the order of their releases. -/
structure Lru {ι : Type} (s : LinkedCache ι) : Prop where
  forms : s.links.Forms s.order
  nodup : s.order.Nodup
  all : ∀ x, x ∈ s.order
  recent : s.order.Pairwise fun x y => Later (s.released x) (s.released y)
  past : ∀ x t, s.released x = some t → t < s.clock

variable {ι : Type} {s t : LinkedCache ι} {c : ι} {x : BufId} {dev blockno : UInt32}
  {action : Action}

theorem insert_forms {l : Links BufId} {order new : List BufId} (forms : l.Forms order)
    (nodup : (new.reverse ++ order).Nodup)
    : (new.foldl Links.insert l).Forms (new.reverse ++ order) := by
  induction new generalizing l order with
  | nil => exact forms
  | cons b new ih =>
    rw [List.reverse_cons, List.append_assoc, List.singleton_append] at nodup ⊢
    obtain ⟨-, inner, -⟩ := List.nodup_append.mp nodup
    obtain ⟨outside, inner⟩ := List.nodup_cons.mp inner
    exact ih (forms.insert inner outside) nodup

theorem binit_lru (disk : UInt32 → Block) (disksize : UInt32)
    : Lru (LinkedCache.binit ι disk disksize) where
  forms := by
    have nodup := List.nodup_reverse.mpr (List.nodup_finRange nbuf)
    have empty : Links.Forms (⟨fun _ => none, fun _ => none⟩ : Links BufId) [] :=
      List.isChain_pair.mpr ⟨rfl, rfl⟩
    have forms := @insert_forms _ [] (List.finRange nbuf) empty (by simpa using nodup)
    simpa [LinkedCache.binit, Cache.binit, binitLinks] using forms
  nodup := List.nodup_reverse.mpr (List.nodup_finRange nbuf)
  all := fun x => List.mem_reverse.mpr (List.mem_finRange x)
  recent := List.pairwise_of_forall fun _ _ => nofun
  past := nofun

/-- A buffer that its last user releases comes first. -/
theorem Lru.front (lru : Lru s) (order : t.order = touch x s.order)
    (links : t.links = (s.links.unlink x).insert x)
    (released : t.released = update s.released x (some s.clock)) (clock : t.clock = s.clock + 1)
    : Lru t := by
  have others : ∀ y ∈ s.order.erase x, t.released y = s.released y := fun y mem => by
    rw [released, update_of_ne ((List.Nodup.mem_erase_iff lru.nodup).mp mem).1]
  have here : t.released x = some s.clock := by rw [released, update_self]
  refine ⟨?_, order ▸ nodup_touch lru.nodup, order ▸ mem_touch lru.all, ?_, fun y n time => ?_⟩
  · obtain ⟨before, after, split⟩ := List.append_of_mem (lru.all x)
    have nodup := lru.nodup
    have forms := lru.forms
    rw [split] at nodup forms
    have erased : s.order.erase x = before ++ after := by
      rw [split, List.erase_append_right _ (by grind), List.erase_cons_head]
    rw [links, order, touch, erased]
    exact (forms.unlink nodup).insert (by grind) (by grind)
  · rw [order, touch, List.pairwise_cons]
    refine ⟨fun y mem n time => ?_, ?_⟩
    · rw [others y mem] at time
      exact ⟨s.clock, here, lru.past y n time⟩
    · refine (lru.recent.sublist List.erase_sublist).imp_of_mem fun y z later => ?_
      rwa [others _ y, others _ z]
  · rw [clock]
    by_cases same : y = x
    · rw [same, here, Option.some_inj] at time
      omega
    · have before := lru.past y n (by rwa [released, update_of_ne same] at time)
      omega

theorem Lru.keep {b : Cache ι} (lru : Lru s) (order : b.order = s.order)
    : Lru { s with toCache := b } where
  forms := order ▸ lru.forms
  nodup := order ▸ lru.nodup
  all := order ▸ lru.all
  recent := order ▸ lru.recent
  past := lru.past

variable [DecidableEq ι]

/-- `bget` over the links. -/
def LinkedCache.bget (s : LinkedCache ι) (c : ι) (dev blockno : UInt32) : Option (LinkedCache ι) :=
  if s.use c = .idle then do
    match ← scan s.links.next (fun x => (s.buf x).caches dev blockno) (nbuf + 1)
        (s.links.next none) with
    | some x =>
        let next := { s.buf x with refcnt := (s.buf x).refcnt + 1 }
        pure { s with toCache := (s.setBuf x next).setUse c (.waiting x) }
    | none =>
        match ← scan s.links.prev (fun x => (s.buf x).unused) (nbuf + 1) (s.links.prev none) with
        | some x =>
            let next := { s.buf x with dev, blockno, valid := false, dirty := false, refcnt := 1 }
            pure { s with toCache := (s.setBuf x next).setUse c (.waiting x) }
        | none => pure { s with panic := some .noBuffers }
  else none

/-- `brelse` after `releasesleep`, with the links and the time. -/
def LinkedCache.brelse (s : LinkedCache ι) (c : ι) : Option (LinkedCache ι) :=
  match s.use c with
  | .released x =>
      (Bio.brelse s.toCache c).map fun t =>
        if (s.buf x).refcnt - 1 = 0 then
          {
            toCache := t,
            links := (s.links.unlink x).insert x,
            released := update s.released x (some s.clock),
            clock := s.clock + 1
          }
        else { s with toCache := t }
  | _ => none

def LinkedCache.act (s : LinkedCache ι) : ι × Action → Option (LinkedCache ι)
  | (c, .bget dev blockno) => if s.panic.isSome then none else s.bget c dev blockno
  | (c, .brelse) => if s.panic.isSome then none else s.brelse c
  | (c, action) => (Bio.act s.toCache c action).map ({ s with toCache := · })

/-- `bget` over the links is `bget` over the list. -/
theorem Lru.bget_eq (lru : Lru s)
    : s.bget c dev blockno
      = (Bio.bget s.toCache c dev blockno).map ({ s with toCache := · }) := by
  have small : s.order.length ≤ nbuf := by simpa using lru.nodup.length_le_card
  have back : s.order.reverse.length ≤ nbuf := by rwa [List.length_reverse]
  rw [LinkedCache.bget, Bio.bget, lru.forms.scan_next small, lru.forms.flip.scan_next back]
  split
  · simp only [Option.bind_eq_bind, Option.bind_some]
    cases s.order.find? fun x => (s.buf x).caches dev blockno with
    | some x => rfl
    | none => cases s.order.reverse.find? fun x => (s.buf x).unused <;> rfl
  · rfl

/-- Only `brelse` changes the list. -/
theorem Moves.order {s t : Cache ι} (moves : Moves s t c action) (other : action ≠ .brelse)
    : t.order = s.order := by
  cases moves with
  | panicked _ stopped => rw [stopped]
  | dropped => exact absurd rfl other
  | written _ gives | logged _ gives => exact gives.order
  | hit _ _ _ quiet | recycled _ _ _ _ quiet | acquired _ _ _ quiet | cached _ _ _ quiet
  | filled _ _ _ _ _ _ quiet | modified _ _ quiet | unlocked _ _ quiet => exact quiet.order

/-- Every action keeps the order of the list. -/
theorem Lru.act [Fintype ι] (lru : Lru s) (coherent : Coherent s.toCache)
    (acted : s.act (c, action) = some t)
    : Lru t ∧ Coherent t.toCache := by
  have keeps : ∀ {b}, action ≠ .brelse → Bio.act s.toCache c action = some b
      → Lru { s with toCache := b } ∧ Coherent b := fun other moved =>
    have moves := act_moves coherent moved
    ⟨lru.keep (moves.order other), moves.coherent coherent⟩
  cases action with
  | bget dev blockno =>
    obtain ⟨running, got⟩ := Option.ite_none_left_eq_some.mp acted
    rw [lru.bget_eq] at got
    obtain ⟨b, found, rfl⟩ := Option.map_eq_some_iff.mp got
    exact keeps (by simp) ((if_neg running).trans found)
  | brelse =>
    obtain ⟨running, dropped⟩ := Option.ite_none_left_eq_some.mp acted
    unfold LinkedCache.brelse at dropped
    split at dropped
    case h_2 => cases dropped
    rename_i x released
    obtain ⟨b, left, rfl⟩ := Option.map_eq_some_iff.mp dropped
    have acted' : Bio.act s.toCache c .brelse = some b := (if_neg running).trans left
    have coherent' := (act_moves coherent acted').coherent coherent
    simp only [Bio.brelse, released, Option.some.injEq] at left
    split
    next last =>
      rw [if_pos last] at left
      exact ⟨lru.front (left ▸ rfl) rfl rfl rfl, coherent'⟩
    next others =>
      rw [if_neg others] at left
      exact ⟨lru.keep (left ▸ rfl), coherent'⟩
  | _ =>
    obtain ⟨b, moved, rfl⟩ := Option.map_eq_some_iff.mp acted
    exact keeps (by simp) moved

/-- In every run after `binit`, the links form one ring of all buffers in the order of their last
releases, and `bget` recycles the free buffer that was released longest ago.
-/
theorem links_recent [Fintype ι] {disk : UInt32 → Block} {disksize : UInt32}
    {labels : List (ι × Action)} {s : LinkedCache ι}
    (reached : run LinkedCache.act labels (.binit ι disk disksize) = some s)
    : (s.links.Forms s.order ∧ s.order.Nodup ∧ (∀ x, x ∈ s.order)
        ∧ ∀ p, s.links.prev (s.links.next p) = p ∧ s.links.next (s.links.prev p) = p)
      ∧ (s.order.Pairwise fun x y => Later (s.released x) (s.released y))
      ∧ ∀ c dev blockno, s.panic = none → s.use c = .idle
          → (∀ y, (s.buf y).caches dev blockno = false)
          → (∃ y, (s.buf y).unused = true)
          → ∃ x t, s.act (c, .bget dev blockno) = some t ∧ t.use c = .waiting x
            ∧ (s.buf x).unused = true
            ∧ ∀ y, y ≠ x → (s.buf y).unused = true → Later (s.released y) (s.released x) := by
  have sound : Lru s ∧ Coherent s.toCache :=
    run_invariant (motive := fun s => Lru s ∧ Coherent s.toCache)
      (fun state label next both stepped => both.1.act both.2 stepped)
      ⟨binit_lru disk disksize, binit_coherent disk disksize⟩ reached
  obtain ⟨lru, coherent⟩ := sound
  refine ⟨⟨lru.forms, lru.nodup, lru.all, fun p => ⟨lru.forms.prev_next lru.all p,
    lru.forms.flip.prev_next (by simpa using lru.all) p⟩⟩, lru.recent,
    fun c dev blockno calm idle missing free => ?_⟩
  have hit : (s.order.find? fun y => (s.buf y).caches dev blockno) = none := by simp [missing]
  obtain ⟨x, found⟩ : ∃ x, (s.order.reverse.find? fun y => (s.buf y).unused) = some x := by
    rw [← Option.isSome_iff_exists, List.find?_isSome]
    obtain ⟨y, unused⟩ := free
    exact ⟨y, List.mem_reverse.mpr (lru.all y), unused⟩
  have unused : (s.buf x).unused = true := by simpa using List.find?_some found
  refine ⟨x, _, (if_neg (by simp [calm])).trans (lru.bget_eq.trans (by
    rw [Bio.bget, if_pos idle, hit, found]; rfl)), update_self .., unused, fun y other free => ?_⟩
  -- the buffers behind `x` in the list are in use or dirty
  obtain ⟨-, after, before, split, taken⟩ := List.find?_eq_some_iff_append.mp found
  have order : s.order = before.reverse ++ x :: after.reverse := by
    simpa using congrArg List.reverse split
  have recent := lru.recent
  rw [order] at recent
  refine (List.pairwise_append.mp recent).2.2 y ?_ x (List.mem_cons_self ..)
  have mem := lru.all y
  have notAfter := taken y
  grind

/-- A read of a block and the release of its buffer. -/
def readOnce (blockno : UInt32) : List (Unit × Action) :=
  [.bget 1 blockno, .acquiresleep, .bread, .releasesleep, .brelse].map fun a => ((), a)

/-- Two blocks are read and a third is not cached. -/
theorem thirdBlock_recent
    : ∃ s, run LinkedCache.act (readOnce 2 ++ readOnce 3) (.binit Unit (fun _ _ => 0) 8) = some s
        ∧ s.order.take 2 = [1, 0] ∧ s.links.Forms s.order
        ∧ ∃ x t, s.act ((), .bget 1 4) = some t ∧ t.use () = .waiting x
          ∧ ∀ y, y ≠ x → (s.buf y).unused = true → Later (s.released y) (s.released x) := by
  have ran : ∃ s, run LinkedCache.act (readOnce 2 ++ readOnce 3) (.binit Unit (fun _ _ => 0) 8) = some s
      ∧ s.order.take 2 = [1, 0] ∧ s.panic = none ∧ s.use () = .idle
      ∧ (∀ y, (s.buf y).caches 1 4 = false) ∧ (∃ y, (s.buf y).unused = true) := by
    refine ⟨_, rfl, ?_⟩
    decide +kernel
  obtain ⟨s, reached, order, calm, idle, missing, free⟩ := ran
  obtain ⟨⟨forms, -⟩, -, recycles⟩ := links_recent reached
  obtain ⟨x, t, acted, waits, -, oldest⟩ := recycles () 1 4 calm idle missing free
  exact ⟨s, reached, order, forms, x, t, acted, waits, oldest⟩

end Xv6.Bio
