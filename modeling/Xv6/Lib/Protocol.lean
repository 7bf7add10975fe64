import Xv6.Lib.Script

/-! Scripts of processes that pass tokens to each other and to the shared state.

A token stands for a claim on the shared state: a counted reference, a lock that is held. Each
operation gives up some of the tokens of its process and gets others for them. If an invariant
between the state and all tokens together survives every operation, it holds in all runs.
-/

namespace Xv6.Lib

open Function (update update_of_ne update_eq_self)

/-- What an operation takes and gives. `seed q` is the right to start process `q`, which then
has `me q` until it ends with no more than `last q`; between its calls it has `idle q`. A token
that is not cold is given up by the very next operation of the process that has it.
-/
structure Protocol (P Op : Type) (Res : Op → Type) (Token : Type) where
  spec : (o : Op) → Multiset Token → (Res o → Multiset Token → Prop) → Prop
  me : P → Token
  seed : P → Token
  last : P → Multiset Token
  idle : P → Multiset Token → Prop
  cold : Token → Prop

variable {P Op : Type} {Res : Op → Type} {Token α β : Type}

namespace Protocol

variable (L : Protocol P Op Res Token)

def Cold (tokens : Multiset Token) : Prop := ∀ t ∈ tokens, L.cold t

/-- Process `p` with `tokens` can go through the script, and then has tokens as in `post`. -/
def Safe (p : P) : Script P Op Res α → (α → Multiset Token → Prop) → Multiset Token → Prop
  | .done a, post, tokens => post a tokens
  | .op o next, post, tokens =>
      ∃ taken kept given, L.spec o taken given ∧ tokens = taken + kept ∧ L.Cold kept
        ∧ ∀ r got, given r got → Safe p (next r) post (got + kept)
  | .fork q next, post, tokens =>
      ∃ part kept, tokens = {L.seed q} + part + kept ∧ L.idle q part ∧ L.Cold tokens
        ∧ Safe p next post kept
  | .exit, _, tokens => tokens = L.last p

/-- Process `p` with the tokens `pre` and any others can go through the script, and then has
tokens as in `post` and the others.
-/
def Triple (p : P) (pre : Multiset Token) (script : Script P Op Res α)
    (post : α → Multiset Token → Prop) : Prop :=
  ∀ kept, L.Cold kept
    → L.Safe p script (fun a tokens => ∃ got, post a got ∧ tokens = got + kept) (pre + kept)

variable {L} {p : P} {h pre got : Multiset Token} {script : Script P Op Res α}
  {post : α → Multiset Token → Prop}

@[simp] theorem cold_zero : L.Cold 0 := by simp [Cold]

@[simp] theorem cold_add {g : Multiset Token} : L.Cold (h + g) ↔ L.Cold h ∧ L.Cold g := by
  simp only [Cold, Multiset.mem_add]
  exact ⟨fun all => ⟨fun t mem => all t (.inl mem), fun t mem => all t (.inr mem)⟩,
    fun both t mem => mem.elim (both.1 t) (both.2 t)⟩

@[simp] theorem cold_cons {t : Token} : L.Cold (t ::ₘ h) ↔ L.cold t ∧ L.Cold h := by
  simp [Cold]

@[simp] theorem cold_singleton {t : Token} : L.Cold {t} ↔ L.cold t := by simp [Cold]

/-- The tokens are cold, as is found by instance search. -/
class Resting (L : Protocol P Op Res Token) (tokens : Multiset Token) : Prop where
  cold : L.Cold tokens

instance : L.Resting 0 := ⟨cold_zero⟩

instance [one : L.Resting h] [other : L.Resting got] : L.Resting (h + got) :=
  ⟨cold_add.mpr ⟨one.cold, other.cold⟩⟩

section Rules

variable {next : α → Script P Op Res β} {post' : β → Multiset Token → Prop} {g : Multiset Token}

/-- Induction on the script; the tokens change at each operation. -/
theorem Safe.mono {post' : α → Multiset Token → Prop} (safe : L.Safe p script post h)
    (weaker : ∀ a tokens, post a tokens → post' a tokens)
    : L.Safe p script post' h := by
  induction script generalizing h with
  | done a => exact weaker a h safe
  | op o next ih =>
    obtain ⟨taken, kept, given, spec, split, cold, rest⟩ := safe
    exact ⟨taken, kept, given, spec, split, cold, fun r got gives => ih r (rest r got gives)⟩
  | fork q next ih =>
    obtain ⟨part, kept, split, idle, cold, rest⟩ := safe
    exact ⟨part, kept, split, idle, cold, ih rest⟩
  | exit => exact safe

theorem Safe.bind (safe : L.Safe p script post h)
    (rest : ∀ a tokens, post a tokens → L.Safe p (next a) post' tokens)
    : L.Safe p (script >>= next) post' h := by
  change L.Safe p (script.bind next) post' h
  induction script generalizing h with
  | done a => exact rest a h safe
  | op o further ih =>
    obtain ⟨taken, kept, given, spec, split, cold, after⟩ := safe
    exact ⟨taken, kept, given, spec, split, cold, fun r got gives => ih r (after r got gives)⟩
  | fork q further ih =>
    obtain ⟨part, kept, split, idle, cold, after⟩ := safe
    exact ⟨part, kept, split, idle, cold, ih after⟩
  | exit => exact safe

theorem Triple.safe (triple : L.Triple p pre script post) : L.Safe p script post pre := by
  have safe := triple 0 cold_zero
  rw [add_zero] at safe
  refine safe.mono fun a tokens ⟨got, gives, same⟩ => ?_
  rw [same, add_zero]
  exact gives

theorem Triple.done {a : α} (holds : post a h)
    : L.Triple p h (pure a : Script P Op Res α) post :=
  fun _ _ => ⟨h, holds, rfl⟩

theorem Triple.perform {o : Op} {given : Res o → Multiset Token → Prop}
    (spec : L.spec o pre given)
    : L.Triple p pre (.perform o) given :=
  fun kept cold => ⟨pre, kept, given, spec, rfl, cold, fun _ got gives => ⟨got, gives, rfl⟩⟩

theorem Triple.mono {post' : α → Multiset Token → Prop} (triple : L.Triple p h script post)
    (weaker : ∀ a tokens, post a tokens → post' a tokens)
    : L.Triple p h script post' :=
  fun kept cold => (triple kept cold).mono fun a _ ⟨got, gives, same⟩ =>
    ⟨got, weaker a got gives, same⟩

section

variable (triple : L.Triple p pre script post)
include triple

/-- Tokens that a script does not need are still there in the end. -/
theorem Triple.frame (cold : L.Cold g)
    : L.Triple p (pre + g) script fun a tokens => ∃ got, post a got ∧ tokens = got + g := by
  intro kept cold'
  rw [add_assoc]
  refine (triple (g + kept) (cold_add.mpr ⟨cold, cold'⟩)).mono fun a tokens ⟨got, gives, same⟩ => ?_
  exact ⟨got + g, ⟨got, gives, rfl⟩, by rw [same, add_assoc]⟩

theorem Triple.bind (rest : ∀ a got, post a got → L.Triple p got (next a) post')
    : L.Triple p pre (script >>= next) post' := by
  intro kept cold
  refine (triple kept cold).bind fun a tokens ⟨got, gives, same⟩ => ?_
  rw [same]
  exact rest a got gives kept cold

/-- A script is called with some of the tokens, and the caller goes on with the others. -/
theorem Triple.call (split : h = pre + g)
    (rest : ∀ a got, post a got → L.Triple p (got + g) (next a) post') [cold : L.Resting g]
    : L.Triple p h (script >>= next) post' := by
  rw [split]
  refine (triple.frame cold.cold).bind fun a tokens ⟨got, gives, same⟩ => ?_
  rw [same]
  exact rest a got gives

/-- The caller may be one that has no other tokens, as before its end. -/
theorem Safe.call (split : h = pre + g)
    (rest : ∀ a got, post a got → L.Safe p (next a) post' (got + g)) [cold : L.Resting g]
    : L.Safe p (script >>= next) post' h := by
  rw [split]
  refine (triple g cold.cold).bind fun a tokens ⟨got, gives, same⟩ => ?_
  rw [same]
  exact rest a got gives

/-- The last script of a caller. -/
theorem Triple.last {post' : α → Multiset Token → Prop} (split : h = pre + g)
    (ends : ∀ a got, post a got → post' a (got + g)) [cold : L.Resting g]
    : L.Triple p h script post' := by
  rw [split]
  refine (triple.frame cold.cold).mono fun a tokens ⟨got, gives, same⟩ => ?_
  rw [same]
  exact ends a got gives

end

/-! Scripts that leave known tokens. -/

section Known

variable {mid : α → Multiset Token}

theorem Triple.seq (triple : L.Triple p pre script fun a got => got = mid a)
    (rest : ∀ a, L.Triple p (mid a) (next a) post')
    : L.Triple p pre (script >>= next) post' :=
  triple.bind fun a _ same => same ▸ rest a

theorem Triple.use (triple : L.Triple p pre script fun a got => got = mid a) (split : h = pre + g)
    (rest : ∀ a, L.Triple p (mid a + g) (next a) post') [cold : L.Resting g]
    : L.Triple p h (script >>= next) post' :=
  triple.call split (fun a _ same => same ▸ rest a)

theorem Triple.gain (triple : L.Triple p 0 script fun a got => got = mid a)
    (rest : ∀ a, L.Triple p (mid a + h) (next a) post') [cold : L.Resting h]
    : L.Triple p h (script >>= next) post' :=
  triple.use (zero_add h).symm rest

theorem Triple.spend (triple : L.Triple p pre script fun _ got => got = 0) (split : h = pre + g)
    (rest : ∀ a, L.Triple p g (next a) post') [cold : L.Resting g]
    : L.Triple p h (script >>= next) post' :=
  triple.use split (fun a => (zero_add g).symm ▸ rest a)

theorem Triple.ask (triple : L.Triple p 0 script fun _ got => got = 0)
    (rest : ∀ a, L.Triple p h (next a) post') [cold : L.Resting h]
    : L.Triple p h (script >>= next) post' :=
  triple.spend (zero_add h).symm rest

end Known

theorem Triple.fork {q : P} {next : Script P Op Res α} {part : Multiset Token}
    (split : h = {L.seed q} + part + g) (idle : L.idle q part) [cold : L.Resting h]
    (rest : L.Triple p g next post)
    : L.Triple p h (.fork q next) post :=
  fun kept cold' => ⟨part, g + kept, by rw [split, add_assoc], idle,
    cold_add.mpr ⟨cold.cold, cold'⟩, rest kept cold'⟩

end Rules

/-- A token that is not cold is among those that the next operation takes. -/
theorem Safe.hot {t : Token} (safe : L.Safe p script post h) (mem : t ∈ h) (hot : ¬L.cold t)
    (ends : ∀ a tokens, post a tokens → L.Cold tokens) (last : L.Cold (L.last p))
    : ∃ o next taken given, script = .op o next ∧ L.spec o taken given ∧ t ∈ taken := by
  cases script with
  | done a => exact absurd (ends a h safe t mem) hot
  | op o next =>
    obtain ⟨taken, kept, given, spec, rfl, cold, _⟩ := safe
    refine ⟨o, next, taken, given, rfl, spec, ?_⟩
    exact (Multiset.mem_add.mp mem).resolve_right fun inKept => hot (cold t inKept)
  | fork q next =>
    obtain ⟨_, _, _, _, cold, _⟩ := safe
    exact absurd (cold t mem) hot
  | exit =>
    change h = L.last p at safe
    exact absurd (last t (safe ▸ mem)) hot

end Protocol

/-- Every operation, start and end of a process keeps the invariant of state and tokens. -/
structure Machine.Obeys {Call Input σ : Type} (m : Machine P Op Res Call Input σ)
    (L : Protocol P Op Res Token) (inv : σ → Multiset Token → Prop) : Prop where
  op : ∀ {o taken given kept input s r s'}, L.spec o taken given → inv s (taken + kept)
    → m.exec o input s = some (r, s') → ∃ got, given r got ∧ inv s' (got + kept)
  fork : ∀ {q kept s}, inv s ({L.seed q} + kept)
    → L.me q ∉ kept ∧ inv (m.born q s) ({L.me q} + kept)
  exit : ∀ {p kept s}, inv s ({L.me p} + L.last p + kept) → inv (m.dead p s) kept
  start : ∀ p call tokens, L.idle p tokens
    → L.Safe p (m.script p call) (fun _ => L.idle p) tokens

section Custody

variable [DecidableEq P] [Fintype P] {Call Input σ : Type} {m : Machine P Op Res Call Input σ}
  {L : Protocol P Op Res Token} {inv : σ → Multiset Token → Prop}
variable {has : P → Multiset Token} {t : Token} {c : Config P Op Res σ}

/-- What process `p` has, given its script. -/
def Protocol.Has (L : Protocol P Op Res Token) (p : P)
    : Option (Script P Op Res Unit) → Multiset Token → Prop
  | none, tokens => tokens = 0
  | some script, tokens =>
      ∃ own, tokens = {L.me p} + own ∧ L.Safe p script (fun _ => L.idle p) own

/-- The tokens can be shared out such that every process can go on with its script. -/
def Config.Custody (L : Protocol P Op Res Token) (inv : σ → Multiset Token → Prop)
    (c : Config P Op Res σ) : Prop :=
  ∃ has : P → Multiset Token, inv c.shared (∑ p, has p) ∧ ∀ p, L.Has p (c.pool p) (has p)

/-- The tokens of all processes but one. -/
def others (has : P → Multiset Token) (p : P) : Multiset Token :=
  ∑ q ∈ Finset.univ \ {p}, has q

omit [DecidableEq P] in
theorem mem_tokens
    : t ∈ ∑ p, has p ↔ ∃ p, t ∈ has p := by
  simp [Multiset.mem_sum]

theorem tokens_eq (has : P → Multiset Token) (p : P) : ∑ q, has q = has p + others has p :=
  Finset.sum_eq_add_sum_sdiff_singleton_of_mem (Finset.mem_univ p) has

theorem tokens_update (has : P → Multiset Token) (p : P) (tokens : Multiset Token)
    : ∑ q, update has p tokens q = tokens + others has p :=
  Finset.sum_update_of_mem (Finset.mem_univ p) has tokens

/-- The rules of the protocol are kept at every step. -/
theorem Config.Custody.step {c' : Config P Op Res σ} {label : Label P Call Input}
    (obeys : m.Obeys L inv) (custody : c.Custody L inv) (stepped : m.step c label = some c')
    : c'.Custody L inv := by
  obtain ⟨has, holds, each⟩ := custody
  -- a process other than the one that moves keeps its script and its tokens
  have kept : ∀ {p script tokens}, L.Has p script tokens
      → ∀ q, L.Has q (update c.pool p script q) (update has p tokens q) := by
    intro p script tokens new q
    by_cases same : q = p
    · subst same
      simpa using new
    · simpa [same] using each q
  obtain ⟨p, call, rfl, idle, rfl⟩ | ⟨p, input, o, next, r, s, rfl, running, ran, rfl⟩
    | ⟨p, input, q, next, rfl, running, rfl⟩ | ⟨p, input, rfl, running, rfl⟩ :=
      m.step_cases stepped
  · have own := each p
    rw [idle] at own
    obtain ⟨tokens, split, safe⟩ := own
    have called : L.Has p (some (m.script p call)) (has p) :=
      ⟨tokens, split, obeys.start p call tokens safe⟩
    refine ⟨has, holds, fun q => ?_⟩
    have := kept called q
    rwa [update_eq_self] at this
  · have own := each p
    rw [running] at own
    obtain ⟨tokens, split, taken, rest, given, spec, rfl, cold, after⟩ := own
    have before : inv c.shared (taken + (rest + {L.me p} + others has p)) := by
      rw [tokens_eq has p, split] at holds
      convert holds using 1
      abel
    obtain ⟨got, gives, holds'⟩ := obeys.op spec before ran
    refine ⟨update has p ({L.me p} + (got + rest)), ?_, kept ⟨_, rfl, after r got gives⟩⟩
    rw [tokens_update]
    convert holds' using 1
    abel
  · have own := each p
    rw [running] at own
    obtain ⟨tokens, split, part, rest, rfl, idle, _, after⟩ := own
    have before : inv c.shared ({L.seed q} + (part + ({L.me p} + rest) + others has p)) := by
      rw [tokens_eq has p, split] at holds
      convert holds using 1
      abel
    obtain ⟨fresh, holds'⟩ := obeys.fork before
    simp only [Multiset.mem_add, Multiset.mem_singleton, not_or] at fresh
    have ne : q ≠ p := fun same => fresh.1.2.1 (congrArg L.me same)
    have unborn : has q = 0 := by
      have owned := each q
      cases pooled : c.pool q with
      | none =>
        rw [pooled] at owned
        exact owned
      | some script =>
        rw [pooled] at owned
        obtain ⟨more, owned, _⟩ := owned
        refine absurd (Multiset.mem_sum.mpr ⟨q, ?_, ?_⟩) fresh.2
        · simpa using ne
        · simp [owned]
    refine ⟨update (update has p ({L.me p} + rest)) q ({L.me q} + part), ?_, ?_⟩
    · have total := tokens_eq (update has p ({L.me p} + rest)) q
      rw [tokens_update, update_of_ne ne, unborn, zero_add] at total
      rw [tokens_update, ← total]
      convert holds' using 1
      abel
    · intro x
      by_cases same : x = q
      · subst same
        simpa using ⟨part, rfl, idle⟩
      · have parent : L.Has p (some next) ({L.me p} + rest) := ⟨rest, rfl, after⟩
        simpa [same] using kept parent x
  · have own := each p
    rw [running] at own
    obtain ⟨tokens, split, ends⟩ := own
    change tokens = L.last p at ends
    refine ⟨update has p 0, ?_, kept rfl⟩
    rw [tokens_update, zero_add]
    refine obeys.exit ?_
    rwa [tokens_eq has p, split, ends] at holds

theorem Config.Custody.run {labels : List (Label P Call Input)} {start : Config P Op Res σ}
    (obeys : m.Obeys L inv) (initial : start.Custody L inv)
    (reached : run m.step labels start = some c)
    : c.Custody L inv :=
  run_invariant (motive := Config.Custody L inv) (fun _ _ _ custody => custody.step obeys)
    initial reached

/-- The tokens that the next operation of a process takes are there. -/
theorem Config.Custody.taken (custody : c.Custody L inv) {o : Op}
    {next : Res o → Script P Op Res Unit} (running : c.pool p = some (.op o next))
    : ∃ taken given kept, L.spec o taken given ∧ inv c.shared (taken + kept) := by
  obtain ⟨has, holds, each⟩ := custody
  have own := each p
  rw [running] at own
  obtain ⟨tokens, split, taken, rest, given, spec, rfl, _, _⟩ := own
  refine ⟨taken, given, rest + {L.me p} + others has p, spec, ?_⟩
  rw [tokens_eq has p, split] at holds
  convert holds using 1
  abel

omit [DecidableEq P] in
/-- A token that is not cold is with a process whose next operation takes it. -/
theorem taken_of_hot (each : ∀ p, L.Has p (c.pool p) (has p)) (mem : t ∈ ∑ p, has p)
    (hot : ¬L.cold t) (me : ∀ p, L.cold (L.me p))
    (idle : ∀ p tokens, L.idle p tokens → L.Cold tokens) (last : ∀ p, L.Cold (L.last p))
    : ∃ p o next taken given, c.pool p = some (.op o next) ∧ L.spec o taken given
        ∧ t ∈ taken := by
  obtain ⟨p, mem⟩ := mem_tokens.mp mem
  have own := each p
  cases running : c.pool p with
  | none =>
    rw [running] at own
    rw [show has p = 0 from own] at mem
    exact absurd mem (Multiset.notMem_zero t)
  | some script =>
    rw [running] at own
    obtain ⟨tokens, split, safe⟩ := own
    rw [split, Multiset.mem_add, Multiset.mem_singleton] at mem
    have mem := mem.resolve_left fun same => hot (same ▸ me p)
    obtain ⟨o, next, taken, given, rfl, spec, among⟩ :=
      safe.hot mem hot (fun _ => idle p) (last p)
    exact ⟨p, o, next, taken, given, running, spec, among⟩

end Custody

end Xv6.Lib
