import Mathlib

/-! Sequential computations over a state that may stop with an error.
`Returns` and `Stops` describe one execution; their rules take a `do` block apart statement
by statement, so that proofs about a program never unfold the monad.
-/

namespace Xv6.Lib

/-- A computation that reads and updates a state and may stop with an error. -/
abbrev Exec (ε σ : Type) := StateT σ (Except ε)

variable {ε σ α β : Type}
variable {m n : Exec ε σ α} {s t : σ} {a : α} {f : α → Exec ε σ β} {b : β} {e : ε} {c : Prop}

/-- From `s` the computation ends normally, with result `a` and state `t`. -/
def Returns (m : Exec ε σ α) (s : σ) (a : α) (t : σ) : Prop :=
  m s = .ok (a, t)

/-- From `s` the computation stops with the error `e`. -/
def Stops (m : Exec ε σ α) (s : σ) (e : ε) : Prop :=
  m s = .error e

instance Stops.decidable [DecidableEq ε] (m : Exec ε σ α) (s : σ) (e : ε)
    : Decidable (Stops m s e) :=
  match ended : m s with
  | .ok _ => isFalse fun stopped => nomatch ended.symm.trans stopped
  | .error e' => decidable_of_iff (e' = e) (by rw [Stops, ended, Except.error.injEq])

theorem Returns.unique {t' : σ} {a' : α} (first : Returns m s a t) (second : Returns m s a' t')
    : a = a' ∧ t = t' :=
  Prod.mk.inj (Except.ok.inj (first.symm.trans second))

@[simp] theorem returns_pure {b : α}
    : Returns (pure a : Exec ε σ α) s b t ↔ a = b ∧ s = t := by
  simp [Returns, pure, StateT.pure, Except.pure]

theorem returns_bind
    : Returns (m >>= f) s b t ↔ ∃ a u, Returns m s a u ∧ Returns (f a) u b t := by
  unfold Returns
  simp only [bind, StateT.bind]
  cases first : m s with
  | error e => simp [Except.bind]
  | ok result => simp [Except.bind, Prod.ext_iff]

theorem Returns.bind {u : σ} (first : Returns m s a u) (rest : Returns (f a) u b t)
    : Returns (m >>= f) s b t :=
  returns_bind.mpr ⟨a, u, first, rest⟩

theorem Returns.bind_eq {u : σ} (first : Returns m s a u) : (m >>= f) s = f a u := by
  change (m s >>= fun p => f p.1 p.2) = f a u
  rw [show m s = .ok (a, u) from first]
  rfl

theorem returns_bind_pure {f : α → β}
    : Returns (m >>= fun a => pure (f a)) s b t ↔ ∃ a, Returns m s a t ∧ f a = b := by
  simp only [returns_bind, returns_pure]
  exact ⟨fun ⟨a, _, ran, same, rfl⟩ => ⟨a, ran, same⟩, fun ⟨a, ran, same⟩ => ⟨a, t, ran, same, rfl⟩⟩

theorem returns_comp {f : α → β}
    : Returns (f <$> m) s b t ↔ ∃ a, Returns m s a t ∧ f a = b := by
  rw [← bind_pure_comp, returns_bind_pure]

@[simp] theorem returns_get {a : σ}
    : Returns (get : Exec ε σ σ) s a t ↔ s = a ∧ s = t := by
  simp [Returns, get, getThe, MonadStateOf.get, StateT.get, pure, Except.pure]

/-- A computation that reads a value off the state. -/
theorem returns_read {f : σ → α}
    : Returns (do let s ← get; pure (f s) : Exec ε σ α) s a t ↔ f s = a ∧ s = t := by
  simp only [returns_bind, returns_get, returns_pure]
  constructor
  · rintro ⟨_, _, ⟨rfl, rfl⟩, same⟩
    exact same
  · rintro ⟨rfl, rfl⟩
    exact ⟨_, _, ⟨rfl, rfl⟩, rfl, rfl⟩

@[simp] theorem returns_modify {f : σ → σ} {u : PUnit}
    : Returns (modify f : Exec ε σ PUnit) s u t ↔ f s = t := by
  simp [Returns, modify, modifyGet, MonadStateOf.modifyGet, StateT.modifyGet, pure, Except.pure]

@[simp] theorem returns_throw
    : Returns (throw e : Exec ε σ α) s a t ↔ False :=
  ⟨fun ran => (nomatch ran), False.elim⟩

theorem returns_get_bind {f : σ → Exec ε σ α}
    : Returns (get >>= f) s a t ↔ Returns (f s) s a t :=
  Iff.rfl

theorem returns_modify_bind {g : σ → σ} {f : PUnit → Exec ε σ α}
    : Returns (modify g >>= f) s a t ↔ Returns (f ⟨⟩) (g s) a t :=
  Iff.rfl

theorem returns_ite [Decidable c]
    : Returns (if c then m else n) s a t ↔ (c ∧ Returns m s a t) ∨ (¬c ∧ Returns n s a t) := by
  split <;> simp_all

theorem stops_bind
    : Stops (m >>= f) s e ↔ Stops m s e ∨ ∃ a u, Returns m s a u ∧ Stops (f a) u e := by
  unfold Stops Returns
  simp only [bind, StateT.bind]
  cases first : m s with
  | error e' => simp [Except.bind]
  | ok result => simp [Except.bind, Prod.ext_iff]

@[simp] theorem stops_get : Stops (get : Exec ε σ σ) s e ↔ False :=
  ⟨fun stopped => (nomatch stopped), False.elim⟩

@[simp] theorem stops_throw {e' : ε}
    : Stops (throw e : Exec ε σ α) s e' ↔ e = e' :=
  ⟨fun stopped => Except.error.inj stopped, fun same => same ▸ rfl⟩

/-- From `s` the computation ends normally. -/
def Completes (m : Exec ε σ α) (s : σ) : Prop :=
  ∃ a t, Returns m s a t

theorem Completes.bind (first : Completes m s) (next : ∀ a u, Returns m s a u → Completes (f a) u)
    : Completes (m >>= f) s := by
  obtain ⟨a, u, ran⟩ := first
  obtain ⟨b, t, rest⟩ := next a u ran
  exact ⟨b, t, returns_bind.mpr ⟨a, u, ran, rest⟩⟩

theorem completes_pure (a : α) (s : σ) : Completes (pure a : Exec ε σ α) s :=
  ⟨a, s, rfl⟩

theorem Completes.bind_pure {f : α → β} (first : Completes m s)
    : Completes (m >>= fun a => pure (f a)) s :=
  first.bind fun _ _ _ => completes_pure ..

theorem completes_modify (f : σ → σ) (s : σ) : Completes (modify f : Exec ε σ PUnit) s :=
  ⟨_, f s, rfl⟩

/-- A computation that starts by reading the state. -/
theorem Completes.get {f : σ → Exec ε σ α} (next : Completes (f s) s)
    : Completes (do let s ← MonadState.get; f s) s :=
  next

theorem Completes.ite [Decidable c] (yes : c → Completes m s) (no : ¬c → Completes n s)
    : Completes (if c then m else n) s := by
  split
  · exact yes ‹c›
  · exact no ‹¬c›

end Xv6.Lib
