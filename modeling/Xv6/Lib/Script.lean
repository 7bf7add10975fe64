import Xv6.Lib.Transition

/-! Processes that run scripts of atomic operations on a shared state, in any interleaving. -/

namespace Xv6.Lib

open Function (update)

/-- What a process still has to do: the atomic operations it performs, each with a continuation
for every result, the processes it starts, and whether it ends in between.
-/
inductive Script (P Op : Type) (Res : Op → Type) (α : Type) where
  | done (a : α)
  | op (o : Op) (next : Res o → Script P Op Res α)
  | fork (q : P) (next : Script P Op Res α)
  | exit

variable {P Op : Type} {Res : Op → Type} {α β γ : Type}

namespace Script

def bind (script : Script P Op Res α) (next : α → Script P Op Res β) : Script P Op Res β :=
  match script with
  | .done a => next a
  | .op o rest => .op o fun r => (rest r).bind next
  | .fork q rest => .fork q (rest.bind next)
  | .exit => .exit

instance : Monad (Script P Op Res) where
  pure := .done
  bind := .bind

/-- The script of one operation. -/
def perform (o : Op) : Script P Op Res (Res o) := .op o .done

/-- No call is in progress. -/
def isDone : Script P Op Res α → Bool
  | .done _ => true
  | _ => false

theorem isDone_iff {script : Script P Op Res Unit}
    : script.isDone = true ↔ script = .done () := by
  cases script <;> simp [isDone]

end Script

/-- A state that the operations act on, and the script of every call. An operation may depend on
an input from outside; it does not happen where `exec` has no result. -/
structure Machine (P Op : Type) (Res : Op → Type) (Call Input σ : Type) where
  exec : (o : Op) → Input → σ → Option (Res o × σ)
  born : P → σ → σ
  dead : P → σ → σ
  script : P → Call → Script P Op Res Unit

/-- The shared state, and the script of every process that runs. -/
structure Config (P Op : Type) (Res : Op → Type) (σ : Type) where
  shared : σ
  pool : P → Option (Script P Op Res Unit)

/-- A process makes a call, or goes on with the one it made. -/
inductive Label (P Call Input : Type) where
  | start (p : P) (call : Call)
  | move (p : P) (input : Input)

/-- No process has a call in progress. -/
def Config.Quiet {σ : Type} (c : Config P Op Res σ) : Prop :=
  ∀ p script, c.pool p = some script → script = .done ()

namespace Machine

variable {Call Input σ : Type} [DecidableEq P] (m : Machine P Op Res Call Input σ)

/-- The next operation of process `p`, if it is in the middle of a call. -/
def moveOf (c : Config P Op Res σ) (p : P) (input : Input)
    : Script P Op Res Unit → Option (Config P Op Res σ)
  | .done _ => none
  | .op o next =>
      (m.exec o input c.shared).map fun (r, s) => ⟨s, update c.pool p (some (next r))⟩
  | .fork q next =>
      some ⟨m.born q c.shared,
        update (update c.pool p (some next)) q (some (.done ()))⟩
  | .exit => some ⟨m.dead p c.shared, update c.pool p none⟩

def step (c : Config P Op Res σ) : Label P Call Input → Option (Config P Op Res σ)
  | .start p call =>
      match c.pool p with
      | some (.done _) => some { c with pool := update c.pool p (some (m.script p call)) }
      | _ => none
  | .move p input => (c.pool p).bind (m.moveOf c p input)

/-- Every step is the start of a call, an operation, the start of a process or its end. -/
theorem step_cases {c c' : Config P Op Res σ} {label : Label P Call Input}
    (stepped : m.step c label = some c')
    : (∃ p call, label = .start p call ∧ c.pool p = some (.done ())
        ∧ c' = ⟨c.shared, update c.pool p (some (m.script p call))⟩)
      ∨ (∃ p input o next r s, label = .move p input ∧ c.pool p = some (.op o next)
        ∧ m.exec o input c.shared = some (r, s)
        ∧ c' = ⟨s, update c.pool p (some (next r))⟩)
      ∨ (∃ p input q next, label = .move p input ∧ c.pool p = some (.fork q next)
        ∧ c' = ⟨m.born q c.shared,
            update (update c.pool p (some next)) q (some (.done ()))⟩)
      ∨ (∃ p input, label = .move p input ∧ c.pool p = some .exit
        ∧ c' = ⟨m.dead p c.shared, update c.pool p none⟩) := by
  cases label with
  | start p call =>
    simp only [step] at stepped
    split at stepped
    · rename_i u idle
      exact .inl ⟨p, call, rfl, idle, (Option.some.inj stepped).symm⟩
    · cases stepped
  | move p input =>
    obtain ⟨script, running, moved⟩ := Option.bind_eq_some_iff.mp stepped
    right
    cases script with
    | done _ => cases moved
    | op o next =>
      obtain ⟨⟨r, s⟩, ran, rfl⟩ := Option.map_eq_some_iff.mp moved
      exact .inl ⟨p, input, o, next, r, s, rfl, running, ran, rfl⟩
    | fork q next =>
      exact .inr (.inl ⟨p, input, q, next, rfl, running, (Option.some.inj moved).symm⟩)
    | exit => exact .inr (.inr ⟨p, input, rfl, running, (Option.some.inj moved).symm⟩)

end Machine

end Xv6.Lib
