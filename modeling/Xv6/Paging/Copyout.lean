import Xv6.Paging.Growth

/-! `copyout` into any page directory.
The loop goes through the range page by page. Addresses are `uint`s, so a range may begin again at
page 0, and nothing is assumed of the page directory: two pages may even have one frame. Only a page
of the range that is itself a page table is left out, because stores do not change `table`.
-/

namespace Xv6.Paging

open Lib

/-- The page of address `va + i`. -/
def pageAt (va i : Nat) : Nat := (va + i) % 2 ^ 32 / pgsize

/-- The page is present with `PTE_U`. -/
abbrev State.Exposed (s : State) (d v : Nat) : Prop :=
  (s.pte d v).present = true ∧ (s.pte d v).user = true

/-- The frame of address `va + i`, and its offset there. -/
def State.target (s : State) (d va i : Nat) : Nat × Nat :=
  ((s.pte d (pageAt va i)).frame, (va + i) % pgsize)

/-- What `copyout` has done when it returns. Where several bytes of the range have the same place,
the last one stays.
-/
structure CopiedOut (s : State) (d va : Nat) (p : List UInt8) (r : Bool) (t : State) : Prop where
  table : t.table = s.table
  freelist : t.freelist = s.freelist
  result : r = true ↔ ∀ i < p.length, s.Exposed d (pageAt va i)
  stored
    : r = true → ∀ i (inside : i < p.length),
        (∀ j < p.length, i < j → s.target d va j ≠ s.target d va i)
        → t.mem (s.target d va i).1 (s.target d va i).2 = p[i]
  others
    : ∀ f k,
        (∀ i < p.length, s.Exposed d (pageAt va i) → s.target d va i ≠ (f, k))
        → t.mem f k = s.mem f k

/-- `copyout` returns and has done its work. -/
def CopiesOut (s : State) (d va : Nat) (p : List UInt8) : Prop :=
  ∃ r t, Returns (copyout d va p) s r t ∧ CopiedOut s d va p r t

/-- The first page of the range that user code cannot access has a page table. -/
def Tabled (s : State) (d va len : Nat) : Prop :=
  ∀ i < len, (∀ j < i, s.Exposed d (pageAt va j))
    → (s.table d (pageAt va i / npdentries)).present = true

section Pages

variable {s t : State} {d va i : Nat} {p : List UInt8} {r : Bool}
variable {v len : Nat}

theorem pageAt_inside (va i : Nat) : Inside (pageAt va i) := by
  simp only [Inside, pageAt, pgsize, npdentries]
  omega

theorem uva2ka_linked (inside : Inside v) (linked : (s.table d (v / npdentries)).present = true)
    : Returns (uva2ka d (v * pgsize)) s
        (if s.Exposed d v then some (s.pte d v).frame else none) s := by
  refine (walkpgdir_linked inside linked).bind ?_
  have entry : s.pte d v = s.table (s.table d (v / npdentries)).frame (v % npdentries) :=
    if_pos linked
  simp only [State.Exposed, entry, returns_bind, returns_get]
  refine ⟨s, s, ⟨rfl, rfl⟩, ?_⟩
  split
  · simp_all
  · split <;> simp_all

/-- Without a page table, `uva2ka` loads through the null pointer. -/
theorem uva2ka_stops (inside : Inside v) (absent : ¬(s.table d (v / npdentries)).present = true)
    : Stops (uva2ka d (v * pgsize)) s .nullPointer := by
  refine stops_bind.mpr (.inr ⟨none, s, ?_, stops_throw.mpr rfl⟩)
  simp [walkpgdir, returns_bind, pdx_page inside, absent]

/-- The bytes that one pass of the loop copies. -/
def chunk (va len : Nat) : Nat := min (pgsize - (va - pgrounddown va)) len

/-- `va` in the next pass. -/
def nextVa (va : Nat) : Nat := (pgrounddown va + pgsize) % 2 ^ 32

/-- One pass stays in the page of `va`. -/
theorem chunk_page (addr : va < 2 ^ 32) (early : i < chunk va len)
    : pageAt va i = pageAt va 0 ∧ (va + i) % pgsize = va - pgrounddown va + i := by
  simp only [chunk, pageAt, pgrounddown, pgsize] at *
  omega

/-- What a pass leaves is the range of the next one. -/
theorem chunk_next (late : chunk va len + i < len)
    : pageAt va (chunk va len + i) = pageAt (nextVa va) i
      ∧ (va + (chunk va len + i)) % pgsize = (nextVa va + i) % pgsize := by
  simp only [chunk, pageAt, nextVa, pgrounddown, pgsize] at *
  omega

/-- The memory after one pass. -/
def State.copyChunk (s : State) (d va : Nat) (p : List UInt8) : State :=
  let f := (s.pte d (pageAt va 0)).frame
  { s with
    mem := Function.update s.mem f
      ((s.mem f).poke (va - pgrounddown va) (p.take (chunk va p.length))) }

theorem State.copyChunk_target (late : chunk va p.length + i < p.length)
    : (s.copyChunk d va p).target d (nextVa va) i = s.target d va (chunk va p.length + i) := by
  obtain ⟨page, offset⟩ := chunk_next late
  rw [State.target, State.target, page, offset]
  rfl

theorem State.copyChunk_exposed (addr : va < 2 ^ 32) (exposed : s.Exposed d (pageAt va 0))
    : (∀ i < (p.drop (chunk va p.length)).length,
          (s.copyChunk d va p).Exposed d (pageAt (nextVa va) i))
      ↔ ∀ i < p.length, s.Exposed d (pageAt va i) := by
  simp only [List.length_drop]
  constructor
  · intro rest i inside
    by_cases early : i < chunk va p.length
    · rwa [(chunk_page addr early).1]
    · obtain ⟨k, rfl⟩ := Nat.exists_eq_add_of_le (Nat.not_lt.mp early)
      rw [(chunk_next inside).1]
      exact rest k (by omega)
  · intro all i late
    have shown := all (chunk va p.length + i) (by omega)
    rwa [(chunk_next (by omega)).1] at shown

/-- A pass, followed by what the loop does to the rest. -/
theorem CopiedOut.chunk (addr : va < 2 ^ 32) (exposed : s.Exposed d (pageAt va 0))
    (rest : CopiedOut (s.copyChunk d va p) d (nextVa va) (p.drop (chunk va p.length)) r t)
    : CopiedOut s d va p r t := by
  have placed : ∀ i < Paging.chunk va p.length,
      s.target d va i = ((s.pte d (pageAt va 0)).frame, va - pgrounddown va + i) := by
    intro i early
    obtain ⟨page, offset⟩ := chunk_page addr early
    rw [State.target, page, offset]
  have short : Paging.chunk va p.length ≤ p.length := Nat.min_le_right _ _
  have length : (p.drop (Paging.chunk va p.length)).length = p.length - Paging.chunk va p.length :=
    List.length_drop
  refine ⟨rest.table, rest.freelist, rest.result.trans (State.copyChunk_exposed addr exposed),
    fun done i inside last => ?_, fun f k apart => ?_⟩
  · by_cases early : i < Paging.chunk va p.length
    · rw [rest.others]
      · rw [placed i early]
        simp only [State.copyChunk, Function.update_self]
        rw [Bytes.poke_inside (by rw [List.length_take]; omega), List.getElem_take]
      · intro j later _
        rw [State.copyChunk_target (by omega)]
        exact last _ (by omega) (by omega)
    · obtain ⟨k, rfl⟩ := Nat.exists_eq_add_of_le (Nat.not_lt.mp early)
      have kept := rest.stored done k (by omega) fun j later order => by
        rw [State.copyChunk_target (by omega), State.copyChunk_target (by omega)]
        exact last _ (by omega) (by omega)
      rwa [State.copyChunk_target inside, List.getElem_drop] at kept
  · rw [rest.others f k]
    · by_cases frame : f = (s.pte d (pageAt va 0)).frame
      · subst frame
        simp only [State.copyChunk, Function.update_self]
        refine Bytes.poke_outside ?_
        by_contra within
        rw [List.length_take] at within
        have early : k - (va - pgrounddown va) < Paging.chunk va p.length := by omega
        refine apart (k - (va - pgrounddown va)) (by omega) ?_ ?_
        · rwa [(chunk_page addr early).1]
        · rw [placed _ early, Nat.add_sub_cancel' (by omega)]
      · simp [State.copyChunk, frame]
    · intro i late shown
      rw [State.copyChunk_target (by omega)]
      refine apart _ (by omega) ?_
      rwa [(chunk_next (by omega)).1]

/-- The pages of this pass are tabled. -/
theorem Tabled.chunk (addr : va < 2 ^ 32) (exposed : s.Exposed d (pageAt va 0))
    : Tabled (s.copyChunk d va p) d (nextVa va) (p.drop (chunk va p.length)).length
      ↔ Tabled s d va p.length := by
  rw [List.length_drop]
  constructor
  · intro rest i inside before
    by_cases early : i < Paging.chunk va p.length
    · rw [(chunk_page addr early).1]
      exact State.linked_of_present exposed.1
    · obtain ⟨k, rfl⟩ := Nat.exists_eq_add_of_le (Nat.not_lt.mp early)
      rw [(chunk_next inside).1]
      refine rest k (by omega) fun j order => ?_
      have shown := before (Paging.chunk va p.length + j) (by omega)
      rwa [(chunk_next (by omega)).1] at shown
  · intro all i late before
    have linked := all (Paging.chunk va p.length + i) (by omega) fun j order => ?_
    · rwa [(chunk_next (by omega)).1] at linked
    · by_cases early : j < Paging.chunk va p.length
      · rwa [(chunk_page addr early).1]
      · obtain ⟨k, rfl⟩ := Nat.exists_eq_add_of_le (Nat.not_lt.mp early)
        rw [(chunk_next (by omega)).1]
        exact before k (by omega)

/-- The loop does its work, or it comes to an address without a page table. -/
theorem copyoutLoop_spec {fuel : Nat} (addr : va < 2 ^ 32) (enough : p.length < fuel)
    : (Tabled s d va p.length
        ∧ ∃ r t, Returns (copyoutLoop d fuel va p) s r t ∧ CopiedOut s d va p r t)
      ∨ ¬Tabled s d va p.length ∧ Stops (copyoutLoop d fuel va p) s .nullPointer := by
  induction fuel generalizing s va p with
  | zero => omega
  | succ fuel ih =>
    rw [copyoutLoop]
    by_cases empty : p = []
    · subst empty
      exact .inl ⟨fun i none => absurd none (Nat.not_lt_zero i), true, s, by simp,
        ⟨rfl, rfl, by simp, fun _ i none => absurd none (Nat.not_lt_zero i), fun _ _ _ => rfl⟩⟩
    rw [if_neg empty]
    have positive := List.length_pos_iff.mpr empty
    have start : pgrounddown va = pageAt va 0 * pgsize := by
      simp only [pgrounddown, pageAt, pgsize]
      omega
    have inside := pageAt_inside va 0
    by_cases linked : (s.table d (pageAt va 0 / npdentries)).present = true
    · have found := uva2ka_linked inside linked
      rw [← start] at found
      by_cases exposed : s.Exposed d (pageAt va 0)
      · rw [if_pos exposed] at found
        have moved : nextVa va < 2 ^ 32 := Nat.mod_lt _ (by decide)
        have some : 0 < chunk va p.length := by
          simp only [chunk, pgrounddown, pgsize]
          omega
        rcases @ih (s.copyChunk d va p) (nextVa va) (p.drop (chunk va p.length)) moved
            (by rw [List.length_drop]; omega) with ⟨tabled, r, t, ran, copied⟩ | ⟨untabled, stops⟩
        · refine .inl ⟨(Tabled.chunk addr exposed).mp tabled, r, t, found.bind ?_,
            copied.chunk addr exposed⟩
          exact returns_bind.mpr ⟨(), _, returns_modify.mpr rfl, ran⟩
        · refine .inr ⟨fun tabled => untabled ((Tabled.chunk addr exposed).mpr tabled),
            stops_bind.mpr (.inr ⟨_, s, found, ?_⟩)⟩
          exact stops_bind.mpr (.inr ⟨(), _, returns_modify.mpr rfl, stops⟩)
      · rw [if_neg exposed] at found
        refine .inl ⟨fun i _ before => ?_, false, s, found.bind (by simp),
          ⟨rfl, rfl, ?_, by simp, fun _ _ _ => rfl⟩⟩
        · cases i with
          | zero => exact linked
          | succ i => exact absurd (before 0 (by omega)) exposed
        · exact iff_of_false Bool.false_ne_true fun all => exposed (all 0 positive)
    · refine .inr ⟨fun tabled => linked (tabled 0 positive fun _ none => by omega),
        stops_bind.mpr (.inl ?_)⟩
      rw [start]
      exact uva2ka_stops inside linked

/-- `copyout` does its work except when the first page that user code cannot access has no page
table.
-/
theorem copyout_exact_iff (addr : va < 2 ^ 32) : CopiesOut s d va p ↔ Tabled s d va p.length := by
  rcases copyoutLoop_spec (s := s) (d := d) addr (Nat.lt_succ_self p.length)
    with ⟨tabled, done⟩ | ⟨untabled, stops⟩
  · exact iff_of_true done tabled
  · refine iff_of_false (fun ⟨r, t, ran, _⟩ => ?_) untabled
    exact nomatch stops.symm.trans ran

end Pages

/-- Two bytes go to the page of a process of one page. -/
theorem copyout_exact_iff_onePage : CopiesOut (onePage []) 512 7 [1, 2] := by
  refine (copyout_exact_iff (by decide)).mpr fun i inside _ => ?_
  have low : pageAt 7 i / npdentries = 0 := by
    simp only [List.length_cons, List.length_nil] at inside
    simp only [pageAt, pgsize, npdentries]
    omega
  rw [low]
  decide

/-- A byte for an address 4 megabytes above is not refused. -/
theorem onePage_copyout
    : Stops (copyout 512 (2 ^ 22) [1]) (onePage []) .nullPointer
      ∧ ¬CopiesOut (onePage []) 512 (2 ^ 22) [1] := by
  have stops : Stops (copyout 512 (2 ^ 22) [1]) (onePage []) .nullPointer := by decide
  exact ⟨stops, fun ⟨_, _, ran, _⟩ => nomatch stops.symm.trans ran⟩

end Xv6.Paging
