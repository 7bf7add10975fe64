import Xv6.Fs.Ownership

/-! The loops of `balloc`, and `bfree`.
`b` is an `int` and `sb.size` a `uint`: when the bits of all blocks below `2 ^ 31` are set and there
are more blocks, `b += BPB` overflows.
-/

namespace Xv6.Fs

open Lib

/-- The inner loop of `balloc`, from `bi` on. -/
def ballocBits (data : Block) (size b : Nat) : (count bi : Nat) → Option Nat
  | 0, _ => none
  | count + 1, bi =>
      if b + bi < size then
        if !bit data bi then some bi else ballocBits data size b count (bi + 1)
      else none

/-- How the loops of `balloc` end. -/
inductive Scan where
  | found (b : Nat)
  | full
  | overflow

/-- The outer loop of `balloc`, from `b` on. -/
def ballocScan (s : State) (b : Nat) : Scan :=
  if b < s.sb.size then
    match ballocBits (s.disk (bblock s.sb b)) s.sb.size b bpb 0 with
    | some bi => .found (b + bi)
    | none => if 2 ^ 31 ≤ b + bpb then .overflow else ballocScan s (b + bpb)
  else .full
termination_by s.sb.size - b
decreasing_by
  simp only [bpb]
  omega

inductive ScanStop where
  | outOfBlocks
  | overflow
  deriving DecidableEq

/-- `balloc` with its loops. -/
def ballocLoops : Exec ScanStop State Nat := do
  let s ← get
  match ballocScan s 0 with
  | .overflow => throw .overflow
  | .full => throw .outOfBlocks
  | .found b => do
      modify fun s => s.write (bblock s.sb b) (setBit (s.disk (bblock s.sb b)) (b % bpb))
      modify fun s => s.write b fun _ => 0
      pure b

/-- The metadata blocks are marked. -/
structure State.Mapped (s : State) : Prop where
  layout : s.sb.Layout
  superblock : readsb s.disk = s.sb
  metadata : ∀ b, b < s.sb.firstData → s.bitmap b = true

/-- Block `b` is the first one that is not marked. -/
structure State.FirstFree (s : State) (b : Nat) : Prop where
  inside : b < s.sb.size
  clear : s.bitmap b = false
  before : ∀ c, c < b → s.bitmap c = true

/-- `balloc` would go on after the blocks below `2 ^ 31`. -/
def State.Overflows (s : State) : Prop :=
  2 ^ 31 - bpb < s.sb.size ∧ ∀ c, c < s.sb.size → c < 2 ^ 31 → s.bitmap c = true

section Scanning

variable {s : State} {b : Nat}

theorem ballocBits_spec (data : Block) (size b count bi : Nat)
    : match ballocBits data size b count bi with
      | some k =>
        k < bi + count ∧ b + k < size ∧ bit data k = false
        ∧ ∀ j, bi ≤ j → j < k → bit data j = true
      | none => ∀ j, bi ≤ j → j < bi + count → b + j < size → bit data j = true := by
  fun_induction ballocBits data size b count bi with
  | case1 => omega
  | case2 count bi inside clear =>
    exact ⟨by omega, inside, by simpa using clear, fun j _ _ => by omega⟩
  | case3 count bi inside set ih =>
    have here : bit data bi = true := by simpa using set
    split at ih
    · obtain ⟨short, within, clear, before⟩ := ih
      refine ⟨by omega, within, clear, fun j above below => ?_⟩
      exact (Nat.eq_or_lt_of_le above).elim (fun same => same ▸ here)
        fun above => before j above below
    · intro j above below within
      exact (Nat.eq_or_lt_of_le above).elim (fun same => same ▸ here)
        fun above => ih j above (by omega) within
  | case4 => omega

/-- One pass of the outer loop. -/
theorem ballocPass_spec (aligned : b % bpb = 0)
    (before : ∀ c, c < s.sb.size → c < b → s.bitmap c = true)
    : match ballocBits (s.disk (bblock s.sb b)) s.sb.size b bpb 0 with
      | some bi => bi < bpb ∧ s.FirstFree (b + bi)
      | none => ∀ c, c < s.sb.size → c < b + bpb → s.bitmap c = true := by
  have seen : ∀ k, k < bpb → bit (s.disk (bblock s.sb b)) k = s.bitmap (b + k) := by
    intro k short
    have same : bblock s.sb (b + k) = bblock s.sb b ∧ (b + k) % bpb = k := by
      simp only [bblock, bpb] at *
      omega
    rw [State.bitmap, same.1, same.2]
  have marked : ∀ c, c < s.sb.size → c < b + bpb
      → (¬c < b → bit (s.disk (bblock s.sb b)) (c - b) = true) → s.bitmap c = true := by
    intro c inside below set
    by_cases earlier : c < b
    · exact before c inside earlier
    · have set := set earlier
      rwa [seen _ (by omega), Nat.add_sub_cancel' (by omega)] at set
  have spec := ballocBits_spec (s.disk (bblock s.sb b)) s.sb.size b bpb 0
  split at spec
  · obtain ⟨short, within, clear, first⟩ := spec
    refine ⟨by omega, within, seen _ (by omega) ▸ clear, fun c below => ?_⟩
    exact marked c (by omega) (by omega) fun _ => first _ (Nat.zero_le _) (by omega)
  · exact fun c inside below => marked c inside below fun _ =>
      spec _ (Nat.zero_le _) (by omega) (by omega)

/-- The outer loop looks at the blocks in order. -/
theorem ballocScan_spec (aligned : b % bpb = 0) (low : b < 2 ^ 31)
    (before : ∀ c, c < s.sb.size → c < b → s.bitmap c = true)
    : match ballocScan s b with
      | .found c => s.FirstFree c ∧ c < 2 ^ 31
      | .full => (∀ c, c < s.sb.size → s.bitmap c = true) ∧ s.sb.size ≤ 2 ^ 31 - bpb
      | .overflow => s.Overflows := by
  fun_induction ballocScan s b with
  | case1 b inside bi found =>
    have pass := ballocPass_spec aligned before
    rw [found] at pass
    exact ⟨pass.2, by simp only [bpb] at *; omega⟩
  | case2 b inside none last =>
    have pass := ballocPass_spec aligned before
    rw [none] at pass
    exact ⟨by omega, fun c within _ => pass c within (by simp only [bpb] at *; omega)⟩
  | case3 b inside none more ih =>
    have pass := ballocPass_spec aligned before
    rw [none] at pass
    exact ih (by simp only [bpb] at *; omega) (by omega) pass
  | case4 b outside =>
    exact ⟨fun c within => before c within (by omega), by simp only [bpb] at *; omega⟩

/-- `s` after `balloc` took block `b`. -/
def State.taken (s : State) (b : Nat) : State :=
  (s.write (bblock s.sb b) (setBit (s.disk (bblock s.sb b)) (b % bpb))).write b fun _ => 0

/-- The three ways in which `balloc` ends. -/
theorem ballocLoops_spec (s : State)
    : (∃ b, s.FirstFree b ∧ b < 2 ^ 31 ∧ Returns ballocLoops s b (s.taken b))
      ∨ (∀ c, c < s.sb.size → s.bitmap c = true) ∧ s.sb.size ≤ 2 ^ 31 - bpb
          ∧ Stops ballocLoops s .outOfBlocks
      ∨ s.Overflows ∧ Stops ballocLoops s .overflow := by
  have spec := @ballocScan_spec s 0 rfl (by decide) fun c _ none => absurd none (Nat.not_lt_zero c)
  cases scan : ballocScan s 0 with
  | found b =>
    rw [scan] at spec
    refine .inl ⟨b, spec.1, spec.2, ?_⟩
    simp [ballocLoops, returns_bind, returns_comp, scan, State.taken]
  | full =>
    rw [scan] at spec
    exact .inr (.inl ⟨spec.1, spec.2, by simp [ballocLoops, stops_bind, scan]⟩)
  | overflow =>
    rw [scan] at spec
    exact .inr (.inr ⟨spec, by simp [ballocLoops, stops_bind, scan]⟩)

end Scanning

/-- A call that returned: the block that `balloc` found, or the data block that was freed. -/
inductive BlockCall where
  | balloc (b : Nat)
  | bfree (b : Nat)

def BlockCall.Does (s t : State) : BlockCall → Prop
  | .balloc b => Returns ballocLoops s b t
  | .bfree b => s.sb.firstData ≤ b ∧ b < s.sb.size ∧ Returns (Fs.bfree b) s () t

/-- The calls lead from `s` to `t`. -/
def Calls (s : State) : List BlockCall → State → Prop
  | [], t => t = s
  | call :: calls, t => ∃ u, call.Does s u ∧ Calls u calls t

/-- The bitmap blocks have a bit for `c`. -/
def State.InBitmap (s : State) (c : Nat) : Prop := c / bpb ≤ s.sb.size / bpb

/-- What is asked of `balloc` and `bfree`. -/
structure State.BallocExact (s : State) : Prop where
  panics
    : Stops ballocLoops s .outOfBlocks ↔ ∀ c, c < s.sb.size → s.bitmap c = true
  takes
    : (∃ c, c < s.sb.size ∧ s.bitmap c = false)
      → ∃ b t, Returns ballocLoops s b t ∧ s.FirstFree b
          ∧ (∀ c, s.InBitmap c → t.bitmap c = (decide (c = b) || s.bitmap c))
          ∧ (t.disk b = fun _ => 0)
          ∧ ∀ c, s.sb.firstData ≤ c → c ≠ b → t.disk c = s.disk c
  frees
    : ∀ b, b < s.sb.size → s.bitmap b = true
      → ∃ t, Returns (bfree b) s () t ∧ ∀ c, t.bitmap c = (!decide (c = b) && s.bitmap c)
  restores
    : ∀ b t, Returns ballocLoops s b t
      → ∃ u, Returns (bfree b) t () u ∧ ∀ c, s.InBitmap c → u.bitmap c = s.bitmap c
  once
    : ∀ first middle last b t,
        Calls s (first ++ .balloc b :: (middle ++ .balloc b :: last)) t → .bfree b ∈ middle

section Exact

variable {s t : State} {b : Nat} {call : BlockCall}

theorem State.Mapped.data_of_clear (mapped : s.Mapped) (clear : s.bitmap b = false)
    : s.sb.firstData ≤ b := by
  by_contra low
  rw [mapped.metadata b (by omega)] at clear
  cases clear

theorem State.Mapped.bblock_lt {c : Nat} (mapped : s.Mapped) (inside : s.InBitmap c)
    : 1 < bblock s.sb c ∧ bblock s.sb c < s.sb.firstData := by
  have data := mapped.layout.data
  have start := mapped.layout.bmapstart_lt
  simp only [State.InBitmap, bblock, bpb] at *
  omega

theorem State.inBitmap_of_lt {c : Nat} (inside : c < s.sb.size) : s.InBitmap c :=
  Nat.div_le_div_right (Nat.le_of_lt inside)

/-- Block `b` is marked and zeroed, and nothing else is. -/
theorem State.Mapped.taken (mapped : s.Mapped) (free : s.FirstFree b)
    : (s.taken b).Mapped
      ∧ (∀ c, s.InBitmap c → (s.taken b).bitmap c = (decide (c = b) || s.bitmap c))
      ∧ ∀ c, s.sb.firstData ≤ c → c ≠ b → (s.taken b).disk c = s.disk c := by
  have low := mapped.data_of_clear free.clear
  have own := mapped.bblock_lt (State.inBitmap_of_lt free.inside)
  have positive := mapped.layout.bmapstart_lt
  have bits : ∀ c, s.InBitmap c → (s.taken b).bitmap c = (decide (c = b) || s.bitmap c) := by
    intro c inside
    have region := mapped.bblock_lt inside
    rw [State.taken, State.bitmap_write_ne (by simp only [State.write_sb]; omega)]
    exact State.bitmap_setBit s b c
  have others : ∀ c, c ≠ b → c ≠ bblock s.sb b → (s.taken b).disk c = s.disk c := by
    intro c ne apart
    rw [State.taken, State.write_disk_ne ne, State.write_disk_ne apart]
  refine ⟨⟨mapped.layout, ?_, fun c metadata => ?_⟩, bits, fun c data ne => others c ne (by omega)⟩
  · rw [readsb_congr (others 1 (by omega) (by omega)), mapped.superblock]
    rfl
  · have inside : c < s.sb.size := Nat.lt_of_lt_of_le metadata (Nat.sub_le ..)
    rw [bits c (State.inBitmap_of_lt inside), mapped.metadata c metadata, Bool.or_true]

/-- `s` after `bfree` gave block `b` back. -/
def State.freed (s : State) (b : Nat) : State :=
  s.write (bblock s.sb b) (clearBit (s.disk (bblock s.sb b)) (b % bpb))

theorem bfree_iff (superblock : readsb s.disk = s.sb)
    : Returns (bfree b) s () t ↔ s.bitmap b = true ∧ t = s.freed b := by
  have same : { s with sb := readsb s.disk } = s := by rw [superblock]
  constructor
  · intro ran
    have ran := returns_modify_bind.mp ran
    rw [same] at ran
    have ran := returns_get_bind.mp ran
    obtain ⟨set, ran⟩ := returns_assert.mp ran
    exact ⟨set, (returns_logWrite.mp ran).symm⟩
  · rintro ⟨set, rfl⟩
    refine returns_bind.mpr ⟨(), s, returns_modify.mpr same, ?_⟩
    refine returns_bind.mpr ⟨s, s, returns_get.mpr ⟨rfl, rfl⟩, ?_⟩
    rw [if_pos set]
    exact returns_logWrite.mpr rfl

theorem State.Mapped.freed (mapped : s.Mapped) (data : s.sb.firstData ≤ b) (inside : b < s.sb.size)
    : (s.freed b).Mapped := by
  have own := mapped.bblock_lt (State.inBitmap_of_lt inside)
  refine ⟨mapped.layout, ?_, fun c metadata => ?_⟩
  · have same : (s.freed b).disk 1 = s.disk 1 := State.write_disk_ne (by omega)
    rw [readsb_congr same, mapped.superblock]
    rfl
  · have other : c ≠ b := fun same => absurd (same ▸ metadata) (Nat.not_lt.mpr data)
    rw [State.freed, State.bitmap_clearBit, mapped.metadata c metadata]
    simp [other]

theorem ballocLoops_returns (ran : Returns ballocLoops s b t) : s.FirstFree b ∧ t = s.taken b := by
  rcases ballocLoops_spec s with ⟨c, free, _, found⟩ | ⟨_, _, stops⟩ | ⟨_, stops⟩
  · obtain ⟨rfl, rfl⟩ := found.unique ran
    exact ⟨free, rfl⟩
  · exact nomatch stops.symm.trans ran
  · exact nomatch stops.symm.trans ran

/-- The loops find what `balloc` is said to find. -/
theorem ballocLoops_refines (ran : Returns ballocLoops s b t) : Returns balloc s b t := by
  obtain ⟨free, rfl⟩ := ballocLoops_returns ran
  have found : (List.range s.sb.size).find? (fun c => !s.bitmap c) = some b := by
    simp only [List.find?_range_eq_some, free.clear, List.mem_range]
    exact ⟨rfl, free.inside, fun c below => by simp [free.before c below]⟩
  simp [balloc, returns_bind, returns_comp, found, logWrite, bzero, State.taken]

/-- Where the loops do not overflow they are `balloc`, so what is proved of calls that use `balloc`
holds with its loops.
-/
theorem ballocLoops_iff_balloc (bounded : ¬s.Overflows)
    : (Returns ballocLoops s b t ↔ Returns balloc s b t)
      ∧ (Stops ballocLoops s .outOfBlocks ↔ Stops balloc s (.panic .ballocOutOfBlocks)) := by
  rcases ballocLoops_spec s with ⟨c, _, _, found⟩ | ⟨full, _, stops⟩ | ⟨overflows, _⟩
  · have same := ballocLoops_refines found
    refine ⟨⟨ballocLoops_refines, fun ran => ?_⟩, iff_of_false (fun stops => ?_) fun stops => ?_⟩
    · obtain ⟨rfl, rfl⟩ := same.unique ran
      exact found
    · exact nomatch stops.symm.trans found
    · exact nomatch stops.symm.trans same
  · have stops' : Stops balloc s (.panic .ballocOutOfBlocks) := by
      have none : (List.range s.sb.size).find? (fun c => !s.bitmap c) = none := by simpa using full
      simp [balloc, stops_bind, none, panic]
    refine ⟨iff_of_false (fun ran => ?_) fun ran => ?_, iff_of_true stops stops'⟩
    · exact nomatch stops.symm.trans ran
    · exact nomatch stops'.symm.trans ran
  · exact absurd overflows bounded

/-- A marked block stays marked until it is freed, and is not returned. -/
theorem BlockCall.Does.keeps (mapped : s.Mapped) (did : call.Does s t)
    : t.Mapped ∧ t.sb = s.sb
      ∧ (call ≠ .bfree b → b < s.sb.size → s.bitmap b = true
        → t.bitmap b = true ∧ call ≠ .balloc b)
      ∧ (call = .balloc b → b < s.sb.size ∧ t.bitmap b = true) := by
  cases call with
  | balloc c =>
    obtain ⟨free, rfl⟩ := ballocLoops_returns did
    obtain ⟨after, bits, _⟩ := mapped.taken free
    refine ⟨after, rfl, fun _ inside set => ⟨?_, ?_⟩, ?_⟩
    · rw [bits b (State.inBitmap_of_lt inside), set, Bool.or_true]
    · rintro ⟨⟩
      exact nomatch free.clear.symm.trans set
    · rintro ⟨⟩
      exact ⟨free.inside, by rw [bits b (State.inBitmap_of_lt free.inside)]; simp⟩
  | bfree c =>
    obtain ⟨data, within, ran⟩ := did
    obtain ⟨_, rfl⟩ := (bfree_iff mapped.superblock).mp ran
    refine ⟨mapped.freed data within, rfl, fun other _ set => ⟨?_, nofun⟩, nofun⟩
    have ne : b ≠ c := fun same => other (same ▸ rfl)
    rw [State.freed, State.bitmap_clearBit, set]
    simp [ne]

/-- A block that `balloc` has returned is marked when the next call begins. -/
theorem Calls.returned {first rest : List BlockCall} (mapped : s.Mapped)
    (ran : Calls s (first ++ .balloc b :: rest) t)
    : ∃ u, u.Mapped ∧ b < u.sb.size ∧ u.bitmap b = true ∧ Calls u rest t := by
  induction first generalizing s with
  | nil =>
    obtain ⟨u, did, rest⟩ := ran
    obtain ⟨after, sb, _, marked⟩ := did.keeps mapped (b := b)
    exact ⟨u, after, sb ▸ (marked rfl).1, (marked rfl).2, rest⟩
  | cons call first ih =>
    obtain ⟨u, did, rest⟩ := ran
    exact ih (did.keeps mapped (b := b)).1 rest

theorem Calls.freed_between {middle last : List BlockCall} (mapped : s.Mapped)
    (inside : b < s.sb.size) (set : s.bitmap b = true)
    (ran : Calls s (middle ++ .balloc b :: last) t)
    : .bfree b ∈ middle := by
  induction middle generalizing s with
  | nil =>
    obtain ⟨u, did, _⟩ := ran
    exact absurd rfl ((did.keeps mapped).2.2.1 nofun inside set).2
  | cons call middle ih =>
    obtain ⟨u, did, rest⟩ := ran
    obtain ⟨after, sb, still, _⟩ := did.keeps mapped (b := b)
    by_cases freed : call = .bfree b
    · exact freed ▸ List.mem_cons_self
    · exact List.mem_cons_of_mem _ (ih after (sb ▸ inside) (still freed inside set).1 rest)

theorem State.Overflows.not_exact (overflows : s.Overflows) : ¬s.BallocExact := by
  intro exact
  have stops : Stops ballocLoops s .overflow := by
    rcases ballocLoops_spec s with ⟨b, free, low, _⟩ | ⟨_, small, _⟩ | ⟨_, stops⟩
    · exact nomatch free.clear.symm.trans (overflows.2 b free.inside low)
    · exact absurd overflows.1 (Nat.not_lt.mpr small)
    · exact stops
  by_cases full : ∀ c, c < s.sb.size → s.bitmap c = true
  · exact nomatch stops.symm.trans (exact.panics.mpr full)
  · obtain ⟨b, t, ran, _⟩ := exact.takes (by simpa using full)
    exact nomatch stops.symm.trans ran

/-- `balloc` and `bfree` are exact except when the scan overflows. -/
theorem balloc_exact_iff (mapped : s.Mapped) : s.BallocExact ↔ ¬s.Overflows := by
  constructor
  · exact fun exact overflows => overflows.not_exact exact
  · intro fits
    have ends := (ballocLoops_spec s).imp_right fun rest => rest.resolve_right fun overflows =>
      fits overflows.1
    refine ⟨⟨fun stops => ?_, fun full => ?_⟩, fun ⟨c, inside, clear⟩ => ?_, fun b inside set => ?_,
      fun b t ran => ?_, fun first middle last b t ran => ?_⟩
    · rcases ends with ⟨b, _, _, ran⟩ | ⟨full, _⟩
      · exact nomatch stops.symm.trans ran
      · exact full
    · rcases ends with ⟨b, free, _⟩ | ⟨_, _, stops⟩
      · exact nomatch free.clear.symm.trans (full b free.inside)
      · exact stops
    · rcases ends with ⟨b, free, _, ran⟩ | ⟨full, _⟩
      · obtain ⟨_, bits, data⟩ := mapped.taken free
        exact ⟨b, _, ran, free, bits, State.write_disk_same .., data⟩
      · exact nomatch clear.symm.trans (full c inside)
    · exact ⟨_, (bfree_iff mapped.superblock).mpr ⟨set, rfl⟩, State.bitmap_clearBit s b⟩
    · obtain ⟨free, rfl⟩ := ballocLoops_returns ran
      obtain ⟨after, bits, _⟩ := mapped.taken free
      refine ⟨_, (bfree_iff after.superblock).mpr ⟨?_, rfl⟩, fun c inside => ?_⟩
      · rw [bits b (State.inBitmap_of_lt free.inside)]
        simp
      · rw [State.freed, State.bitmap_clearBit, bits c inside]
        by_cases same : c = b
        · simp [same, free.clear]
        · simp [same]
    · obtain ⟨u, after, inside, set, rest⟩ := ran.returned mapped
      exact rest.freed_between after inside set

end Exact

theorem balloc_exact_iff_emptyImage : emptyImage.BallocExact := by
  have formed := emptyImage_wellFormed
  refine (balloc_exact_iff ⟨formed.layout, formed.superblock, fun b low => ?_⟩).mpr
    fun overflows => ?_
  · exact (formed.bitmap b (Nat.lt_of_lt_of_le low (Nat.sub_le ..))).mpr (.inl low)
  · exact absurd overflows.1 (by decide +kernel)

/-- An image of `2 ^ 31 + 1` blocks, all but the last of them in use. -/
def hugeImage : State :=
  boot
    (fun b =>
      if b = 1 then Bytes.setWords (fun _ => 0) 0 [2 ^ 31 + 1, 2 ^ 31 - 524292, 8, 0, 2, 2, 4]
      else if b = 4 + 2 ^ 19 then fun _ => 0
      else fun _ => 255)
    fun _ => none

/-- `balloc` does not come to the last block. -/
theorem hugeImage_balloc
    : hugeImage.Mapped ∧ ¬hugeImage.BallocExact := by
  have sb : hugeImage.sb = ⟨2 ^ 31 + 1, 2 ^ 31 - 524292, 8, 0, 2, 2, 4⟩ := by decide +kernel
  have set : ∀ c, c < 2 ^ 31 → hugeImage.bitmap c = true := by
    intro c low
    have bits : ∀ k, bit (fun _ => 255) k = true := by
      intro k
      rw [bit_eq_testBit]
      exact (by decide : ∀ k : Fin 8, (255 : UInt8).toNat.testBit k = true)
        ⟨k % 8, Nat.mod_lt _ (by decide)⟩
    have other : bblock hugeImage.sb c ≠ 1 ∧ bblock hugeImage.sb c ≠ 4 + 2 ^ 19 := by
      simp only [bblock, sb, bpb]
      omega
    rw [State.bitmap]
    simp only [hugeImage, boot] at other ⊢
    rw [if_neg other.1, if_neg other.2]
    exact bits _
  have overflows : hugeImage.Overflows := ⟨by rw [sb]; decide, fun c _ low => set c low⟩
  refine ⟨⟨?_, rfl, fun b low => set b ?_⟩, overflows.not_exact⟩
  · rw [sb]
    constructor <;> decide
  · rw [sb] at low
    simp only [Superblock.firstData] at low
    omega

end Xv6.Fs
