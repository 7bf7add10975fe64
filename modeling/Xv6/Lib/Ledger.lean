import Mathlib

/-! Programs that take things from a common pool and give them back, and who has what.
Things are counted in multisets. A program is right if it gives back only what it has, and if what
it works on and its result are backed by what it has; then no thing is ever in two places.
-/

namespace Xv6.Lib

/-- A program with results in `α` over a pool of things in `F`. It may stop for good, and a `take`
may fail. At every step it shows the structures in `S` that it works on.
-/
inductive Prog (F S α : Type) where
  | done (result : α)
  | stop
  | take (shown : List S) (next : Option F → Prog F S α)
  | give (shown : List S) (thing : F) (next : Prog F S α)

variable {F S α β : Type}

namespace Prog

def bind (prog : Prog F S α) (next : α → Prog F S β) : Prog F S β :=
  match prog with
  | .done result => next result
  | .stop => .stop
  | .take shown rest => .take shown fun thing => (rest thing).bind next
  | .give shown thing rest => .give shown thing (rest.bind next)

/-- The same program while more structures are there. -/
def within (prog : Prog F S α) (more : List S) : Prog F S α :=
  match prog with
  | .done result => .done result
  | .stop => .stop
  | .take shown rest => .take (more ++ shown) fun thing => (rest thing).within more
  | .give shown thing rest => .give (more ++ shown) thing (rest.within more)

/-- One step: the first thing of the pool is taken, or a thing is put in front of it. A `take`
fails if the pool is empty, or if it is told to.
-/
def tick (prog : Prog F S α) (fails : Bool) (pool : List F) : Option (List F × Prog F S α) :=
  match prog with
  | .done _ | .stop => none
  | .take _ next =>
      match fails, pool with
      | false, thing :: rest => some (rest, next (some thing))
      | _, _ => some (pool, next none)
  | .give _ thing next => some (thing :: pool, next)

end Prog

/-- The things of several structures. -/
def sizes (size : S → Multiset F) (shown : List S) : Multiset F := (shown.map size).sum

@[simp] theorem sizes_nil (size : S → Multiset F) : sizes size [] = 0 := rfl

@[simp] theorem sizes_cons (size : S → Multiset F) (x : S) (rest : List S)
    : sizes size (x :: rest) = size x + sizes size rest := by
  simp [sizes]

theorem sizes_append (size : S → Multiset F) (first second : List S)
    : sizes size (first ++ second) = sizes size first + sizes size second := by
  simp [sizes]

/-- What a program works on; a thing that it gives back is its own up to then. -/
def Prog.uses (size : S → Multiset F) (holds : α → Multiset F) : Prog F S α → Multiset F
  | .done result => holds result
  | .stop => 0
  | .take shown _ => sizes size shown
  | .give shown thing _ => sizes size shown + {thing}

/-- A program that has `part` gives back only what it has. What it works on is backed by what it
has, and so is its result, which is good.
-/
inductive Keeps (size : S → Multiset F) (holds : α → Multiset F) (good : α → Prop)
    : Prog F S α → Multiset F → Prop
  | done {result : α} {part : Multiset F} (backed : holds result ≤ part) (right : good result)
    : Keeps size holds good (.done result) part
  | stop {part : Multiset F} : Keeps size holds good .stop part
  | take {shown : List S} {next : Option F → Prog F S α} {part : Multiset F}
    (backed : sizes size shown ≤ part) (fails : Keeps size holds good (next none) part)
    (takes : ∀ thing, Keeps size holds good (next (some thing)) (part + {thing}))
    : Keeps size holds good (.take shown next) part
  | give {shown : List S} {thing : F} {next : Prog F S α} {part : Multiset F}
    (backed : sizes size shown ≤ part) (rest : Keeps size holds good next part)
    : Keeps size holds good (.give shown thing next) (part + {thing})

section Rules

variable {size : S → Multiset F} {holds : α → Multiset F} {good : α → Prop} {prog : Prog F S α}
  {part more : Multiset F}

/-- What a program does not need it still has in the end. -/
theorem Keeps.within (keeps : Keeps size holds good prog part) (extra : List S)
    : Keeps size (fun result => sizes size extra + holds result) good (prog.within extra)
        (sizes size extra + part) := by
  induction keeps with
  | done backed right => exact .done (add_le_add le_rfl backed) right
  | stop => exact .stop
  | take backed _ _ fails takes =>
    refine .take ?_ fails fun thing => ?_
    · rw [sizes_append]
      exact add_le_add le_rfl backed
    · rw [add_assoc]
      exact takes thing
  | give backed _ ih =>
    rw [← add_assoc]
    refine .give ?_ ih
    rw [sizes_append]
    exact add_le_add le_rfl backed

theorem Keeps.mono (keeps : Keeps size holds good prog part) (le : part ≤ more)
    : Keeps size holds good prog more := by
  obtain ⟨rest, rfl⟩ := Multiset.le_iff_exists_add.mp le
  clear le
  have grows : ∀ {a part : Multiset F}, a ≤ part → a ≤ part + rest := fun backed =>
    backed.trans (Multiset.le_add_right ..)
  induction keeps with
  | done backed right => exact .done (grows backed) right
  | stop => exact .stop
  | take backed _ _ fails takes =>
    refine .take (grows backed) fails fun thing => ?_
    rw [add_right_comm]
    exact takes thing
  | give backed _ ih =>
    rw [add_right_comm]
    exact .give (grows backed) ih

theorem Keeps.bind {holds' : β → Multiset F} {good' : β → Prop} {next : α → Prog F S β}
    (first : Keeps size holds good prog part)
    (second : ∀ result, good result → Keeps size holds' good' (next result) (holds result))
    : Keeps size holds' good' (prog.bind next) part := by
  induction first with
  | done backed right => exact (second _ right).mono backed
  | stop => exact .stop
  | take backed _ _ fails takes => exact .take backed fails takes
  | give backed _ ih => exact .give backed ih

theorem Keeps.uses_le (keeps : Keeps size holds good prog part) : prog.uses size holds ≤ part := by
  cases keeps with
  | done backed => exact backed
  | stop => exact Multiset.zero_le _
  | take backed => exact backed
  | give backed => exact add_le_add backed le_rfl

/-- A step moves things between the pool and the program, and the program stays right. -/
theorem Keeps.tick (keeps : Keeps size holds good prog part) {fails : Bool} {pool left : List F}
    {after : Prog F S α} (ticked : prog.tick fails pool = some (left, after))
    : ∃ now, Keeps size holds good after now
      ∧ (left : Multiset F) + now = (pool : Multiset F) + part := by
  cases keeps with
  | done | stop => cases ticked
  | take _ failing takes =>
    unfold Prog.tick at ticked
    dsimp only at ticked
    split at ticked
    · cases ticked
      rename_i thing
      refine ⟨part + {thing}, takes thing, ?_⟩
      rw [← Multiset.cons_coe, ← Multiset.singleton_add]
      abel
    · cases ticked
      exact ⟨part, failing, rfl⟩
  | @give _ thing _ now _ rest =>
    cases ticked
    refine ⟨now, rest, ?_⟩
    rw [← Multiset.cons_coe, ← Multiset.singleton_add]
    abel

end Rules

section Places

variable {ι : Type} [Fintype ι] [DecidableEq ι] {a b : ι}

theorem sum_eq_pair (ne : a ≠ b) (f : ι → Multiset F)
    : ∑ i, f i = f a + f b + ∑ i ∈ (Finset.univ.erase a).erase b, f i := by
  rw [← Finset.add_sum_erase _ f (Finset.mem_univ a),
    ← Finset.add_sum_erase _ f (Finset.mem_erase.mpr ⟨ne.symm, Finset.mem_univ b⟩), add_assoc]

/-- A move between two places, and no more in the others, is no more in all. -/
theorem sum_move (ne : a ≠ b) {before after : ι → Multiset F}
    (others : ∀ i, i ≠ a → i ≠ b → after i ≤ before i)
    (moved : after a + after b ≤ before a + before b) : ∑ i, after i ≤ ∑ i, before i := by
  rw [sum_eq_pair ne after, sum_eq_pair ne before]
  refine add_le_add moved (Finset.sum_le_sum fun i inside => ?_)
  rw [Finset.mem_erase, Finset.mem_erase] at inside
  exact others i inside.2.1 inside.1

/-- What is counted once is in one place. -/
theorem notMem_of_nodup_sum {f : ι → Multiset F} (once : (∑ i, f i).Nodup) (ne : a ≠ b) {thing : F}
    (here : thing ∈ f a) : thing ∉ f b := by
  rw [sum_eq_pair ne f] at once
  have two := Multiset.nodup_of_le (Multiset.le_add_right ..) once
  exact Multiset.disjoint_left.mp (Multiset.nodup_add.mp two).2.2 here

end Places

/-- What changes in a sum when one summand changes. -/
theorem sum_update {ι γ M : Type} [DecidableEq ι] [AddCommMonoid M] {s : Finset ι} {k : ι}
    (member : k ∈ s) (f : ι → γ) (x : γ) (g : γ → M)
    : ∑ i ∈ s, g (Function.update f k x i) + g (f k) = ∑ i ∈ s, g (f i) + g x := by
  have others : ∑ i ∈ s.erase k, g (Function.update f k x i) = ∑ i ∈ s.erase k, g (f i) :=
    Finset.sum_congr rfl fun i inside => by
      rw [Function.update_of_ne (Finset.ne_of_mem_erase inside)]
  rw [← Finset.add_sum_erase s (fun i => g (Function.update f k x i)) member,
    ← Finset.add_sum_erase s (fun i => g (f i)) member, others, Function.update_self]
  abel

/-- What the places below `n` have together. -/
@[irreducible] def upTo (n : Nat) (f : Nat → Multiset F) : Multiset F := ∑ i ∈ Finset.range n, f i

section UpTo

variable {n : Nat}

theorem upTo_update {γ : Type} {k : Nat} (below : k < n) (f : Nat → γ) (x : γ)
    (g : γ → Multiset F)
    : upTo n (fun i => g (Function.update f k x i)) + g (f k) = upTo n (fun i => g (f i)) + g x := by
  unfold upTo
  exact sum_update (Finset.mem_range.mpr below) f x g

@[simp] theorem upTo_zero : upTo n (fun _ => (0 : Multiset F)) = 0 := by
  unfold upTo
  exact Finset.sum_const_zero

theorem upTo_mono {f g : Nat → Multiset F} (le : ∀ i, f i ≤ g i) : upTo n f ≤ upTo n g := by
  unfold upTo
  exact Finset.sum_le_sum fun i _ => le i

/-- A place below `n` counts. -/
theorem le_upTo {k : Nat} (below : k < n) (f : Nat → Multiset F) : f k ≤ upTo n f := by
  unfold upTo
  exact Finset.single_le_sum (fun i _ => Multiset.zero_le (f i)) (Finset.mem_range.mpr below)

/-- The things of a list of optional things. -/
theorem coe_filterMap (f : Nat → Option F)
    : ((List.range n).filterMap f : Multiset F) = upTo n fun i => (f i).elim 0 ({·}) := by
  unfold upTo
  induction n with
  | zero => rfl
  | succ n ih =>
    rw [List.range_succ, List.filterMap_append, Finset.sum_range_succ, ← ih, ← Multiset.coe_add]
    cases found : f n with
    | none | some => simp [found]

end UpTo

end Xv6.Lib
