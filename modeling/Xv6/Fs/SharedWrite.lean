import Xv6.Fs.Capacity
import Xv6.Lib.Ledger

/-! `filewrite` by several processes on one open file. A call writes its bytes in chunks; each
chunk is written at `f->off`, and `f->off` is advanced, in one section of the inode's lock.
-/

namespace Xv6.Fs

open Lib
open Function (update update_self update_of_ne update_idem)

/-- `max` of `filewrite`. -/
def maxChunk : Nat := (logSize - 1 - 1 - 2) / 2 * 512

/-- A call of `filewrite`: the bytes at `addr`, how many of them are written, and whether it has
left its loop because `writei` failed.
-/
structure WriteCall where
  bytes : List UInt8
  i : Nat
  broke : Bool

/-- The next `n1` bytes. -/
def WriteCall.chunk (c : WriteCall) : List UInt8 := (c.bytes.drop c.i).take maxChunk

/-- `i += r`. -/
def WriteCall.advance (c : WriteCall) (r : Nat) : WriteCall := ⟨c.bytes, c.i + r, c.broke⟩

/-- What the call returns when it has left its loop. -/
def WriteCall.result (c : WriteCall) : Option Int :=
  if c.i < c.bytes.length ∧ c.broke = false then none
  else some (if c.i = c.bytes.length then c.bytes.length else -1)

/-- The inode, `f->off` and the calls. `chunks` records what was written, and is read nowhere. -/
structure SharedFile (κ : Type) where
  fs : State
  off : Nat
  call : κ → WriteCall
  chunks : List (κ × List UInt8)

/-- The section of the inode's lock in one pass of the loop. -/
def writeSection (ip : Nat) (chunk : List UInt8) (off : Nat) : FsM (Option Nat) := do
  ilock ip
  let r ← writei ip chunk off
  iunlock ip
  pure r

variable {κ : Type} [DecidableEq κ]

/-- One pass of the loop of call `k`. -/
def SharedFile.step (ip : Nat) (f : SharedFile κ) (k : κ) : Option (SharedFile κ) :=
  let c := f.call k
  if c.i < c.bytes.length ∧ c.broke = false then
    match writeSection ip c.chunk f.off f.fs with
    | .error _ => none
    | .ok (none, fs) =>
        some { f with fs, call := update f.call k { c with broke := true } }
    | .ok (some r, fs) =>
        -- The panic "short filewrite" is the absence of a step.
        if r = c.chunk.length then
          some {
            fs
            off := f.off + r
            call := update f.call k (c.advance r)
            chunks := f.chunks ++ [(k, c.chunk)]
          }
        else none
  else none

/-- Calls that have not written anything yet, on a file at its end. -/
def SharedFile.start (fs : State) (ip : Nat) (bytes : κ → List UInt8) : SharedFile κ where
  fs := fs
  off := (fs.node ip).contents.length
  call := fun k => ⟨bytes k, 0, false⟩
  chunks := []

/-- The chunks of call `k`, joined. -/
def SharedFile.written (f : SharedFile κ) (k : κ) : List UInt8 :=
  ((f.chunks.filter fun chunk => chunk.1 = k).map Prod.snd).flatten

/-- All chunks, joined. -/
def SharedFile.appended (f : SharedFile κ) : List UInt8 := (f.chunks.map Prod.snd).flatten

/-! One section. -/

section Section

variable {s s' : State} {ip off : Nat} {chunk : List UInt8} {r : Option Nat}

/-- A section fails, or writes the chunk at the offset. -/
theorem writeSection_spec (quiet : s.Quiet) (file : (s.node ip).type = tFile)
    (ran : Returns (writeSection ip chunk off) s r s')
    : s'.Quiet
      ∧ s'.flags = update s.flags ip ⟨(s.flags ip).ref, false, true⟩
      ∧ (r = none ∧ s'.node = s.node
          ∧ ((s.node ip).contents.length < off ∨ maxfile * bsize < off + chunk.length)
        ∨ r = some chunk.length ∧ off ≤ (s.node ip).contents.length
          ∧ off + chunk.length ≤ maxfile * bsize
          ∧ s'.node = update s.node ip
              { s.node ip with contents := splice (s.node ip).contents off chunk }) := by
  obtain ⟨_, m, locked, ran⟩ := returns_bind.mp ran
  obtain ⟨_, taken⟩ := ilock_returns quiet locked
  have flags : m.flags ip = ⟨(s.flags ip).ref, true, true⟩ := by
    rw [taken.flags, update_self]
  have loaded := ilock_loaded quiet locked
  have data : (m.node ip).type ≠ tDev := by
    rw [taken.node, file]
    decide
  obtain ⟨written, n, wrote, ran⟩ := returns_bind.mp ran
  obtain ⟨_, unlocked, rfl⟩ := returns_bind_pure.mp ran
  have shown := taken.quiet.shows loaded
  rcases writei_leads taken.quiet loaded data wrote with ⟨rfl, rfl⟩ | ⟨rfl, low, leads⟩
  · have released := iunlock_returns taken.quiet unlocked
    refine ⟨released.quiet, ?_, .inl ⟨rfl, released.node.trans taken.node, ?_⟩⟩
    · rw [released.flags, flags, taken.flags, update_idem]
    · by_contra fits
      rw [not_or, Nat.not_lt, Nat.not_lt, ← taken.node] at fits
      cases writei_written shown data fits.1 fits.2 wrote
  · have released := iunlock_returns leads.quiet unlocked
    refine ⟨released.quiet, ?_, .inr ⟨rfl, taken.node ▸ low, ?_, ?_⟩⟩
    · rw [released.flags, leads.flags, flags, taken.flags, update_idem]
    · by_contra large
      cases (wrote.unique (writei_fails shown data (.inr (Nat.lt_of_not_le large)))).1
    · rw [released.node, leads.node, taken.node]

/-- A chunk that is written at the end of the file is appended to it. -/
theorem writeSection_returns (quiet : s.Quiet) (cached : 0 < s.refs ip)
    (file : (s.node ip).type = tFile)
    (fits : (s.node ip).contents.length + chunk.length ≤ maxfile * bsize)
    (ran : Returns (writeSection ip chunk (s.node ip).contents.length) s r s')
    : r = some chunk.length
      ∧ s'.Quiet
      ∧ 0 < s'.refs ip
      ∧ s'.node ip = { s.node ip with contents := (s.node ip).contents ++ chunk } := by
  obtain ⟨quiet', flags, ⟨_, _, outside⟩ | ⟨rfl, _, _, node⟩⟩ := writeSection_spec quiet file ran
  · omega
  · refine ⟨rfl, quiet', ?_, ?_⟩
    · rw [State.refs, flags, update_self]
      exact cached
    · rw [node, update_self]
      simp [splice]

end Section

/-! All sections. -/

theorem SharedFile.step_eq_some {ip : Nat} {f f' : SharedFile κ} {k : κ}
    (stepped : f.step ip k = some f')
    : (f.call k).i < (f.call k).bytes.length
      ∧ ∃ r fs, Returns (writeSection ip (f.call k).chunk f.off) f.fs r fs
        ∧ (r = none
          ∨ r = some (f.call k).chunk.length
            ∧ f' = {
                fs
                off := f.off + (f.call k).chunk.length
                call := update f.call k ((f.call k).advance (f.call k).chunk.length)
                chunks := f.chunks ++ [(k, (f.call k).chunk)] }) := by
  obtain ⟨⟨unfinished, _⟩, ran⟩ := Option.ite_none_right_eq_some.mp stepped
  refine ⟨unfinished, ?_⟩
  cases done : writeSection ip (f.call k).chunk f.off f.fs with
  | error e => simp [done] at ran
  | ok result =>
    obtain ⟨r, fs⟩ := result
    refine ⟨r, fs, done, ?_⟩
    cases r with
    | none => exact .inl rfl
    | some r =>
      simp only [done] at ran
      obtain ⟨rfl, ⟨⟩⟩ := Option.ite_none_right_eq_some.mp ran
      exact .inr ⟨rfl, rfl⟩

variable [Fintype κ]

/-- The file is `old` with the chunks appended, the offset is its end, and of each call a part
from its start on is there.
-/
structure Appending (ip : Nat) (old : Node) (bytes : κ → List UInt8) (f : SharedFile κ)
    : Prop where
  quiet : f.fs.Quiet
  cached : 0 < f.fs.refs ip
  node : f.fs.node ip = { old with contents := old.contents ++ f.appended }
  off : f.off = (f.fs.node ip).contents.length
  source : ∀ k, (f.call k).bytes = bytes k
  unbroken : ∀ k, (f.call k).broke = false
  bounded : ∀ k, (f.call k).i ≤ (bytes k).length
  part : ∀ k, f.written k = (bytes k).take (f.call k).i
  total : f.appended.length = ∑ k, (f.call k).i
  small : ∀ chunk ∈ f.chunks, 0 < chunk.2.length ∧ chunk.2.length ≤ maxChunk

theorem WriteCall.length_chunk {c : WriteCall} (unfinished : c.i < c.bytes.length)
    : 0 < c.chunk.length ∧ c.chunk.length ≤ maxChunk
      ∧ c.i + c.chunk.length ≤ c.bytes.length := by
  have positive : 0 < maxChunk := by decide
  simp only [chunk, List.length_take, List.length_drop]
  omega

/-- The bytes of a call up to and including its next chunk. -/
theorem WriteCall.take_chunk (c : WriteCall)
    : c.bytes.take c.i ++ c.chunk = c.bytes.take (c.i + c.chunk.length) := by
  rw [List.take_add, chunk]
  congr 1
  rw [List.length_take, ← List.take_take, List.take_length]

omit [Fintype κ] in
theorem SharedFile.written_append (f : SharedFile κ) (k j : κ) (chunk : List UInt8)
    : { f with chunks := f.chunks ++ [(k, chunk)] }.written j
      = f.written j ++ if k = j then chunk else [] := by
  simp only [written, List.filter_append, List.map_append, List.flatten_append]
  split <;> simp_all

theorem Appending.step {ip : Nat} {old : Node} {bytes : κ → List UInt8} {f f' : SharedFile κ}
    {k : κ} (file : old.type = tFile)
    (fits : old.contents.length + ∑ k, (bytes k).length ≤ maxfile * bsize)
    (appending : Appending ip old bytes f) (stepped : f.step ip k = some f')
    : Appending ip old bytes f' := by
  obtain ⟨unfinished, r, fs, ran, outcome⟩ := SharedFile.step_eq_some stepped
  obtain ⟨some, small, enough⟩ := WriteCall.length_chunk unfinished
  have whole := (f.call k).take_chunk
  rw [appending.source] at enough whole
  have node := appending.node
  -- The chunk still fits: the calls do not write more than their bytes.
  generalize next : (f.call k).advance (f.call k).chunk.length = c at outcome
  have i : c.i = (f.call k).i + (f.call k).chunk.length := congrArg WriteCall.i next.symm
  have grown : ∑ j, (update f.call k c j).i
      = ∑ j, (f.call j).i + (f.call k).chunk.length := by
    have sum := sum_update (Finset.mem_univ k) f.call c WriteCall.i
    omega
  have bounded : ∀ j, (update f.call k c j).i ≤ (bytes j).length := by
    intro j
    rcases eq_or_ne j k with rfl | other
    · rwa [update_self, i]
    · rw [update_of_ne other]
      exact appending.bounded j
  have room : (f.fs.node ip).contents.length + (f.call k).chunk.length ≤ maxfile * bsize := by
    have sum := Finset.sum_le_sum fun j (_ : j ∈ Finset.univ) => bounded j
    have total := appending.total
    rw [grown] at sum
    rw [node, List.length_append]
    omega
  rw [appending.off] at ran
  obtain ⟨rfl, quiet, cached, appended⟩ := writeSection_returns appending.quiet appending.cached
    (by rw [node]; exact file) room ran
  rcases outcome with impossible | ⟨_, rfl⟩
  · cases impossible
  have joined : ((f.chunks ++ [(k, (f.call k).chunk)]).map Prod.snd).flatten
      = f.appended ++ (f.call k).chunk := by
    simp [SharedFile.appended]
  have fields : ∀ j, (update f.call k c j).bytes = (f.call j).bytes
      ∧ (update f.call k c j).broke = (f.call j).broke := by
    intro j
    rcases eq_or_ne j k with rfl | other
    · rw [update_self, ← next]
      exact ⟨rfl, rfl⟩
    · rw [update_of_ne other]
      exact ⟨rfl, rfl⟩
  refine ⟨quiet, cached, ?_, ?_, fun j => (fields j).1.trans (appending.source j),
    fun j => (fields j).2.trans (appending.unbroken j), bounded, fun j => ?_, ?_,
    fun chunk member => ?_⟩
  · rw [appended, node]
    exact congrArg (fun contents => ({ old with contents } : Node))
      ((List.append_assoc ..).trans (congrArg (old.contents ++ ·) joined.symm))
  · rw [appended, List.length_append, appending.off]
  · refine (SharedFile.written_append f k j _).trans ?_
    rw [appending.part]
    rcases eq_or_ne k j with rfl | other
    · rw [if_pos rfl, whole]
      dsimp only
      rw [update_self, i]
    · rw [if_neg other, List.append_nil]
      dsimp only
      rw [update_of_ne other.symm]
  · refine (congrArg List.length joined).trans ?_
    rw [List.length_append, appending.total]
    exact grown.symm
  · rcases List.mem_append.mp member with before | now
    · exact appending.small chunk before
    · rw [List.mem_singleton.mp now]
      exact ⟨some, small⟩

theorem SharedFile.start_appending {fs : State} {ip : Nat} (bytes : κ → List UInt8)
    (quiet : fs.Quiet) (cached : 0 < fs.refs ip)
    : Appending ip (fs.node ip) bytes (SharedFile.start fs ip bytes) where
  quiet := quiet
  cached := cached
  node := by simp [start, appended]
  off := rfl
  source := fun _ => rfl
  unbroken := fun _ => rfl
  bounded := fun _ => Nat.zero_le _
  part := fun _ => by simp [start, written]
  total := by simp [start, appended]
  small := fun _ member => by cases member

/-- When all calls have returned, each has written all its bytes, the file and the offset have
grown by all of them, and what was added is the chunks of the calls, in turn and whole.
-/
theorem sharedWrite_appends {fs : State} {ip : Nat} {bytes : κ → List UInt8} {labels : List κ}
    {f : SharedFile κ} (quiet : fs.Quiet) (cached : 0 < fs.refs ip)
    (file : (fs.node ip).type = tFile)
    (fits : (fs.node ip).contents.length + ∑ k, (bytes k).length ≤ maxfile * bsize)
    (reached : run (SharedFile.step ip) labels (SharedFile.start fs ip bytes) = some f)
    (returned : ∀ k, (f.call k).result ≠ none)
    : (∀ k, (f.call k).result = some ((bytes k).length : Int))
      ∧ f.off = (fs.node ip).contents.length + ∑ k, (bytes k).length
      ∧ (f.fs.node ip).contents = (fs.node ip).contents ++ f.appended
      ∧ (f.fs.node ip).contents.length
        = (fs.node ip).contents.length + ∑ k, (bytes k).length
      ∧ (∀ chunk ∈ f.chunks, 0 < chunk.2.length ∧ chunk.2.length ≤ maxChunk)
      ∧ ∀ k, f.written k = bytes k := by
  have appending : Appending ip (fs.node ip) bytes f :=
    run_invariant (motive := Appending ip (fs.node ip) bytes)
      (fun _ _ _ appending stepped => appending.step file fits stepped)
      (SharedFile.start_appending bytes quiet cached) reached
  have finished : ∀ k, (f.call k).i = (bytes k).length := by
    intro k
    have bounded := appending.bounded k
    have done := returned k
    rw [WriteCall.result, appending.source, appending.unbroken] at done
    by_contra short
    exact done (if_pos ⟨by omega, rfl⟩)
  have total : f.appended.length = ∑ k, (bytes k).length :=
    appending.total.trans (Finset.sum_congr rfl fun k _ => finished k)
  have contents : (f.fs.node ip).contents = (fs.node ip).contents ++ f.appended :=
    congrArg Node.contents appending.node
  have length : (f.fs.node ip).contents.length
      = (fs.node ip).contents.length + ∑ k, (bytes k).length := by
    rw [contents, List.length_append, total]
  refine ⟨fun k => ?_, appending.off.trans length, contents, length, appending.small, fun k => ?_⟩
  · rw [WriteCall.result, appending.source, finished, if_neg (by simp), if_pos rfl]
  · rw [appending.part, finished, List.take_length]

/-- Two calls on a file that was made in an empty root. -/
def twoWriters : Bool → List UInt8
  | false => [1, 2, 3]
  | true => [4, 5]

theorem twoWriters_append
    : ∃ fs f,
        run fsStep [.create 1 [97]] emptyImage = some fs
        ∧ run (SharedFile.step 2) [true, false] (SharedFile.start fs 2 twoWriters) = some f
        ∧ f.appended = [4, 5, 1, 2, 3]
        ∧ f.off = 0 + 5
        ∧ ∀ k, f.written k = twoWriters k := by
  obtain ⟨fs, created, refs, node, f, wrote, appended, first, second⟩ :
      ∃ fs, run fsStep [.create 1 [97]] emptyImage = some fs
        ∧ fs.refs 2 = 1 ∧ fs.node 2 = ⟨tFile, 0, 0, 1, []⟩
        ∧ ∃ f, run (SharedFile.step 2) [true, false] (SharedFile.start fs 2 twoWriters) = some f
          ∧ f.appended = [4, 5, 1, 2, 3] ∧ (f.call false).result = some 3
          ∧ (f.call true).result = some 2 := by
    decide +kernel
  have quiet := (run_wf (boot_wf emptyImage_wellFormed) created).quiet
  have sum : ∑ k, (twoWriters k).length = 5 := by decide
  obtain ⟨_, off, _, _, _, written⟩ := sharedWrite_appends quiet (by rw [refs]; decide)
    (by rw [node]) (by rw [node, sum]; decide) wrote (by simp [first, second])
  rw [node, sum] at off
  exact ⟨fs, f, created, wrote, appended, off, written⟩

end Xv6.Fs
