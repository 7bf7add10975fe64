import Mathlib

/-! Circular doubly linked lists. A node is the head, `none`, or an element. -/

namespace Xv6.Lib

open Function (update update_self update_of_ne)

structure Links (β : Type) where
  next : Option β → Option β
  prev : Option β → Option β

variable {β : Type}

def Links.Linked (l : Links β) (p q : Option β) : Prop := l.next p = q ∧ l.prev q = p

/-- From the head through the elements back to the head. -/
def ring (order : List β) : List (Option β) := none :: (order.map some ++ [none])

def Links.Forms (l : Links β) (order : List β) : Prop := (ring order).IsChain l.Linked

/-- The loop that follows one kind of link to the first element with `p`, or to the head; `none` is
the end of the passes.
-/
def scan (step : Option β → Option β) (p : β → Bool) : (passes : Nat) → Option β → Option (Option β)
  | 0, _ => none
  | _ + 1, none => some none
  | passes + 1, some b => if p b then some (some b) else scan step p passes (step (some b))

variable {l : Links β} {order xs ys : List β} {b : β} {nodes : List (Option β)} {p q : Option β}

theorem scan_eq {step : Option β → Option β} {holds : β → Bool} {passes : Nat}
    (chain : (p :: (order.map some ++ [none])).IsChain (step · = ·)) (enough : order.length ≤ passes)
    : scan step holds (passes + 1) (step p) = some (order.find? holds) := by
  induction order generalizing p passes with
  | nil =>
    rw [(List.isChain_cons_cons.mp chain).1, scan]
    rfl
  | cons b order ih =>
    obtain ⟨first, rest⟩ := List.isChain_cons_cons.mp chain
    rw [first, scan, List.find?_cons]
    cases found : holds b with
    | true => rfl
    | false =>
      obtain ⟨passes, rfl⟩ := Nat.exists_eq_add_of_le' (Nat.zero_lt_of_lt enough)
      exact ih rest (Nat.le_of_succ_le_succ enough)

/-- The same ring, backwards. -/
theorem Links.Forms.flip (forms : l.Forms order)
    : Links.Forms ⟨l.prev, l.next⟩ order.reverse := by
  have backwards : ring order.reverse = (ring order).reverse := by simp [ring]
  rw [Links.Forms, backwards, List.isChain_reverse]
  exact forms.imp fun p q linked => ⟨linked.2, linked.1⟩

/-- The loop over the links of a ring finds what a search of the list finds. -/
theorem Links.Forms.scan_next {holds : β → Bool} {passes : Nat} (forms : l.Forms order)
    (enough : order.length ≤ passes)
    : scan l.next holds (passes + 1) (l.next none) = some (order.find? holds) :=
  scan_eq (forms.imp fun _ _ linked => linked.1) enough

theorem Links.Forms.prev_next (forms : l.Forms order) (all : ∀ x, x ∈ order) (p : Option β)
    : l.prev (l.next p) = p := by
  have mem : p ∈ none :: order.map some := by cases p <;> simp [all]
  obtain ⟨before, after, split⟩ := List.append_of_mem mem
  obtain ⟨q, rest, tail⟩ := List.exists_cons_of_ne_nil (List.concat_ne_nil none after)
  have nodes : ring order = before ++ p :: q :: rest := by
    rw [ring, ← List.cons_append, split, List.append_assoc, List.cons_append, tail]
  rw [Links.Forms, nodes] at forms
  obtain ⟨next, prev⟩ := (List.isChain_append_cons_cons.mp forms).2.1
  rw [next, prev]

theorem nodup_nodes (nodup : order.Nodup)
    : (none :: order.map some).Nodup ∧ (order.map some ++ [none]).Nodup := by
  have elements : (order.map some).Nodup := nodup.map fun _ _ => Option.some.inj
  exact ⟨by simp [elements], List.nodup_append.mpr ⟨elements, by simp, by simp⟩⟩

variable [DecidableEq β]

/-- `p->next = q; q->prev = p;` -/
def Links.link (l : Links β) (p q : Option β) : Links β where
  next := update l.next p q
  prev := update l.prev q p

def Links.unlink (l : Links β) (b : β) : Links β := l.link (l.prev (some b)) (l.next (some b))

/-- Insert an element behind the head. -/
def Links.insert (l : Links β) (b : β) : Links β :=
  (l.link (some b) (l.next none)).link none (some b)

theorem isChain_link (chain : nodes.IsChain l.Linked) (last : p ∉ nodes.dropLast)
    (first : q ∉ nodes.tail)
    : nodes.IsChain (l.link p q).Linked := by
  induction nodes with
  | nil => exact .nil
  | cons a nodes ih =>
    cases nodes with
    | nil => exact .singleton a
    | cons c nodes =>
      obtain ⟨⟨next, prev⟩, chain⟩ := List.isChain_cons_cons.mp chain
      rw [List.dropLast_cons_cons, List.mem_cons, not_or] at last
      rw [List.tail_cons, List.mem_cons, not_or] at first
      exact List.isChain_cons_cons.mpr ⟨⟨(update_of_ne (Ne.symm last.1) ..).trans next,
        (update_of_ne (Ne.symm first.1) ..).trans prev⟩, ih chain last.2 first.2⟩

/-- Two parts of a ring are linked where they meet. -/
theorem isChain_splice {before after : List (Option β)} (first : before.IsChain l.Linked)
    (second : after.IsChain l.Linked) (last : before.getLast? = some p) (head : after.head? = some q)
    (nodup : before.Nodup ∧ after.Nodup) (apart : p ∉ after.dropLast ∧ q ∉ before.tail)
    : (before ++ after).IsChain (l.link p q).Linked := by
  have ends : before.dropLast ++ [p] = before := List.dropLast_append_getLast? p last
  have starts : q :: after.tail = after := List.cons_head?_tail head
  refine List.isChain_append.mpr ⟨isChain_link first ?_ apart.2, isChain_link second apart.1 ?_, ?_⟩
  · rw [← ends] at nodup
    grind
  · rw [← starts] at nodup
    exact (List.nodup_cons.mp nodup.2).1
  · rintro x isLast y isHead
    cases last.symm.trans isLast
    cases head.symm.trans isHead
    exact ⟨update_self .., update_self ..⟩

theorem Links.Forms.insert (forms : l.Forms order) (nodup : order.Nodup) (new : b ∉ order)
    : (l.insert b).Forms (b :: order) := by
  obtain ⟨head, chain⟩ := List.isChain_cons.mp forms
  obtain ⟨q, isHead⟩ : ∃ q, (order.map some ++ [none]).head? = some q := by cases order <;> simp
  have nodes := nodup_nodes (List.nodup_cons.mpr ⟨new, nodup⟩)
  have first := isChain_splice (.singleton (some b)) chain rfl isHead
    ⟨by simp, (nodup_nodes nodup).2⟩ ⟨by simp [new], by simp⟩
  have second := isChain_splice (.singleton none) first rfl rfl ⟨by simp, nodes.2⟩
    ⟨by rw [← List.append_assoc, List.dropLast_concat]; simp, by simp⟩
  rw [Links.Forms, Links.insert, (head q isHead).1]
  exact second

theorem Links.Forms.unlink (forms : l.Forms (xs ++ b :: ys)) (nodup : (xs ++ b :: ys).Nodup)
    : (l.unlink b).Forms (xs ++ ys) := by
  have nodes : ring (xs ++ b :: ys) = (none :: xs.map some) ++ some b :: (ys.map some ++ [none]) := by
    simp [ring]
  rw [Links.Forms, nodes] at forms
  obtain ⟨first, second, meet⟩ := List.isChain_append.mp forms
  obtain ⟨next, second⟩ := List.isChain_cons.mp second
  obtain ⟨p, isLast⟩ : ∃ p, (none :: xs.map some).getLast? = some p := ⟨_, List.getLast?_cons⟩
  obtain ⟨q, isHead⟩ : ∃ q, (ys.map some ++ [none]).head? = some q := by cases ys <;> simp
  obtain ⟨nodup₁, nodup₂, apart⟩ := List.nodup_append.mp nodup
  have spliced := isChain_splice first second isLast isHead
    ⟨(nodup_nodes nodup₁).1, (nodup_nodes nodup₂.of_cons).2⟩ (by
      have inFirst := List.mem_of_getLast? isLast
      have inSecond := List.mem_of_head? isHead
      rw [List.dropLast_concat]
      grind)
  rw [Links.unlink, (next q isHead).1, (meet p isLast _ rfl).2, Links.Forms]
  simpa [ring] using spliced

end Xv6.Lib
