import Xv6.Lib.Bytes

/-! System-call arguments and stores to user memory: `fetchint`, `argint` and `argptr` of
`syscall.c` and `copyout` of `vm.c`, with 32-bit addresses that wrap.
-/

namespace Xv6.Syscall

open Xv6.Lib

/-- `KERNBASE`. -/
def kernbase : UInt32 := 0x80000000

/-- The calling process as its system calls see it; `userPage` holds of the page addresses
that its page directory maps with `PTE_P` and `PTE_U`.
-/
structure Caller where
  sz : UInt32
  esp : UInt32
  memory : UInt32 → UInt8
  userPage : UInt32 → Bool

/-- A byte stored at a virtual address. -/
abbrev Store := UInt32 × UInt8

variable {len n m : Nat} {addr : UInt32} {store : Store} {size : Int32}

/-- What a system call comes to: its result and the stores through user pointers. -/
structure Outcome where
  ret : Int32
  stores : List Store

/-- Return -1 before anything is stored. -/
def Outcome.failed : Outcome := { ret := -1, stores := [] }

/-- The `n` addresses from `addr` on. -/
def span (addr : UInt32) (n : Nat) : List UInt32 :=
  (List.range n).map fun k => addr + UInt32.ofNat k

def storeBytes (addr : UInt32) (data : List UInt8) : List Store :=
  data.zipIdx.map fun (byte, k) => (addr + UInt32.ofNat k, byte)

/-- `*(int*)addr = w`. -/
def storeWord (addr w : UInt32) : List Store := storeBytes addr (Bytes.ofWord w)

def Caller.load (c : Caller) (addr : UInt32) : UInt32 :=
  Bytes.word (fun k => c.memory (addr + UInt32.ofNat k)) 0

def fetchint (c : Caller) (addr : UInt32) : Option UInt32 :=
  if addr ≥ c.sz ∨ addr + 4 > c.sz then none else some (c.load addr)

def argint (c : Caller) (n : UInt32) : Option UInt32 := fetchint c (c.esp + 4 + 4 * n)

def argptr (c : Caller) (n : UInt32) (size : Int32) : Option UInt32 :=
  match argint c n with
  | none => none
  | some i =>
      if size < 0 ∨ i ≥ c.sz ∨ i + size.toUInt32 > c.sz then none else some i

/-- `PGROUNDDOWN`; `PGSIZE` is 4096. -/
def pgRoundDown (a : UInt32) : UInt32 := a / 4096 * 4096

/-- Bytes that `copyout` moves within the page of `va`. -/
def chunk (va : UInt32) (len : Nat) : Nat := min (4096 - (va - pgRoundDown va).toNat) len

theorem toNat_pgRoundDown (va : UInt32)
    : (pgRoundDown va).toNat = va.toNat / 4096 * 4096 := by
  have bound := va.toNat_lt
  simp only [pgRoundDown, UInt32.toNat_mul, UInt32.toNat_div]
  exact Nat.mod_eq_of_lt (by simp; omega)

theorem toNat_sub_pgRoundDown (va : UInt32)
    : (va - pgRoundDown va).toNat = va.toNat % 4096 := by
  have round := toNat_pgRoundDown va
  rw [UInt32.toNat_sub_of_le _ _ (UInt32.le_iff_toNat_le.mpr (by omega)), round]
  omega

theorem chunk_pos (va : UInt32) (some' : 0 < len) : 0 < chunk va len := by
  have offset := toNat_sub_pgRoundDown va
  simp only [chunk]
  omega

/-- `copyout`: page by page, until a page is not mapped for the user. -/
def copyout (c : Caller) (va : UInt32) : List UInt8 → Bool × List Store
  | [] => (true, [])
  | byte :: bytes =>
      let n := chunk va (byte :: bytes).length
      if c.userPage (pgRoundDown va) then
        let rest := copyout c (pgRoundDown va + 4096) ((byte :: bytes).drop n)
        (rest.1, storeBytes va ((byte :: bytes).take n) ++ rest.2)
      else (false, [])
termination_by buf => buf.length
decreasing_by
  have moved : 0 < chunk va (bytes.length + 1) := chunk_pos va (Nat.succ_pos _)
  simp only [List.length_drop, List.length_cons] at *
  omega

theorem mem_span {a : UInt32}
    : a ∈ span addr n ↔ ∃ k, k < n ∧ addr + UInt32.ofNat k = a := by
  simp [span]

theorem span_mono (le : m ≤ n) : span addr m ⊆ span addr n := by
  intro a member
  obtain ⟨k, below, same⟩ := mem_span.mp member
  exact mem_span.mpr ⟨k, by omega, same⟩

/-- A later part of a range of addresses, wrapping or not. -/
theorem span_shift {base : UInt32} (shifted : base = addr + UInt32.ofNat m)
    : span base n ⊆ span addr (m + n) := by
  intro a member
  obtain ⟨k, below, same⟩ := mem_span.mp member
  refine mem_span.mpr ⟨m + k, by omega, ?_⟩
  rw [← same, shifted, UInt32.ofNat_add, UInt32.add_assoc]

theorem mem_storeBytes {data : List UInt8} (member : store ∈ storeBytes addr data)
    : store.1 ∈ span addr data.length := by
  obtain ⟨⟨byte, k⟩, inside, rfl⟩ := List.mem_map.mp member
  exact mem_span.mpr ⟨k, (List.mem_zipIdx' inside).1, rfl⟩

theorem mem_storeWord {w : UInt32} (member : store ∈ storeWord addr w)
    : store.1 ∈ span addr 4 := by
  simpa using mem_storeBytes member

theorem toNat_lt_of_not_neg (sign : ¬size < 0)
    : size.toUInt32.toNat < 2 ^ 31 := by
  have nonneg : 0 ≤ size.toUInt32.toBitVec.toInt := by
    rw [Int32.lt_iff_toInt_lt] at sign
    exact Int.not_lt.mp sign
  have same : size.toUInt32.toNat = size.toUInt32.toBitVec.toNat := rfl
  rw [BitVec.toInt_eq_toNat_cond] at nonneg
  split at nonneg <;> omega

/-- A pointer that `argptr` accepts has all its bytes below `sz`. -/
theorem argptr_fits {c : Caller} (user : c.sz ≤ kernbase) {n i : UInt32}
    (accepted : argptr c n size = some i)
    : argint c n = some i ∧ ∀ a ∈ span i size.toUInt32.toNat, a < c.sz := by
  unfold argptr at accepted
  split at accepted
  · cases accepted
  · rename_i j fetched
    obtain ⟨bounds, ⟨⟩⟩ := Option.ite_none_left_eq_some.mp accepted
    simp only [not_or] at bounds
    obtain ⟨sign, start, stop⟩ := bounds
    have small := toNat_lt_of_not_neg sign
    refine ⟨fetched, fun a member => ?_⟩
    obtain ⟨k, below, rfl⟩ := mem_span.mp member
    have top : kernbase.toNat = 2 ^ 31 := rfl
    simp only [UInt32.le_iff_toNat_le, UInt32.lt_iff_toNat_lt, UInt32.toNat_add, ge_iff_le,
      gt_iff_lt, UInt32.toNat_ofNat', top] at *
    omega

/-- A chunk that is not the last one ends at a page boundary. -/
theorem nextPage_eq {va : UInt32} (more : chunk va len < len)
    : pgRoundDown va + 4096 = va + UInt32.ofNat (chunk va len) := by
  have round := toNat_pgRoundDown va
  have offset := toNat_sub_pgRoundDown va
  have whole : chunk va len = 4096 - va.toNat % 4096 := by
    simp only [chunk, offset] at more ⊢
    omega
  apply UInt32.toNat_inj.mp
  rw [whole, UInt32.toNat_add, UInt32.toNat_add, round, UInt32.toNat_ofNat']
  simp only [UInt32.reduceToNat]
  omega

/-- Whatever `copyout` manages to store lies in the range it was given. -/
theorem copyout_within (c : Caller) (va : UInt32) (buf : List UInt8)
    (member : store ∈ (copyout c va buf).2)
    : store.1 ∈ span va buf.length := by
  induction va, buf using copyout.induct c with
  | case1 va =>
    rw [copyout] at member
    simp at member
  | case2 va byte bytes n mapped ih =>
    rw [copyout, if_pos mapped] at member
    rcases List.mem_append.mp member with here | later
    · exact span_mono (List.length_take_le' _ _) (mem_storeBytes here)
    · have rest := ih later
      rw [List.length_drop] at rest
      by_cases more : n < (byte :: bytes).length
      · have shifted := span_shift (n := (byte :: bytes).length - n) (nextPage_eq more) rest
        rwa [Nat.add_sub_cancel' (Nat.le_of_lt more)] at shifted
      · rw [Nat.sub_eq_zero_of_le (Nat.le_of_not_lt more)] at rest
        simp [span] at rest
  | case3 va byte bytes unmapped =>
    rw [copyout, if_neg unmapped] at member
    simp at member

end Xv6.Syscall
