import Mathlib.Data.List.Basic

/-!
# Decoders

A decoder consumes input held in a state `σ` and either returns a value or
fails: `Decoder ε σ α = StateT σ (Except ε) α`. This file has the three ways
decoders are reasoned about in this development.

- The computation rules (`bind_ok`, `bind_error`, `bind_eq_ok`): running a
  sequence of decoders one step at a time.
- `Reads p xs r`: over an input list, `p` consumes exactly the prefix `xs` with
  outcome `r`, whatever bytes follow. `Reads.bind` composes prefixes, which is how
  round-trip theorems for composite formats are assembled from those of the parts.
- `Congruence`: a relation between decoders over two kinds of input that sequencing keeps.
  A decoder written over an interface of reads is related to itself over another as soon
  as the reads are. `simulation` makes one from a relation between input states;
  `refinement` and `equivalence` are its two common cases.
-/

universe u

/-- A decoder over input state `σ` failing with `ε`. -/
abbrev Decoder (ε σ : Type u) (α : Type u) := StateT σ (Except ε) α

namespace Decoder

variable {ε σ τ α β : Type u}

/-! ## Running a decoder -/

@[simp] theorem pure_apply (a : α) (s : σ) :
    (pure a : Decoder ε σ α) s = .ok (a, s) := rfl

@[simp] theorem throw_apply (e : ε) (s : σ) :
    (throw e : Decoder ε σ α) s = .error e := rfl

theorem bind_apply (p : Decoder ε σ α) (f : α → Decoder ε σ β) (s : σ) :
    (p >>= f) s = (p s).bind fun r => f r.1 r.2 := rfl

theorem bind_ok {p : Decoder ε σ α} {s s' : σ} {a : α} (h : p s = .ok (a, s'))
    (f : α → Decoder ε σ β) : (p >>= f) s = f a s' := by
  rw [bind_apply, h]
  rfl

theorem bind_error {p : Decoder ε σ α} {s : σ} {e : ε} (h : p s = .error e)
    (f : α → Decoder ε σ β) : (p >>= f) s = .error e := by
  rw [bind_apply, h]
  rfl

/-- The same two rules for a computation that consumes nothing. -/
@[simp] theorem ok_bind (a : α) (f : α → Except ε β) : (Except.ok a >>= f) = f a := rfl

@[simp] theorem error_bind (e : ε) (f : α → Except ε β) :
    ((Except.error e : Except ε α) >>= f) = .error e := rfl

/-- A sequence fails exactly where one of its parts does. -/
theorem bind_eq_error {p : Decoder ε σ α} {f : α → Decoder ε σ β} {s : σ} {e : ε} :
    (p >>= f) s = .error e ↔
      p s = .error e ∨ ∃ a s', p s = .ok (a, s') ∧ f a s' = .error e := by
  cases hp : p s with
  | error e' =>
    rw [bind_error hp]
    constructor
    · intro h
      exact Or.inl (by rw [Except.error.inj h])
    · rintro (h | ⟨a, s', h, -⟩)
      · rw [Except.error.inj h]
      · cases h
  | ok as =>
    obtain ⟨a, s'⟩ := as
    rw [bind_ok hp]
    constructor
    · intro h
      exact Or.inr ⟨a, s', rfl, h⟩
    · rintro (h | ⟨b, s'', h, hf⟩)
      · cases h
      · obtain ⟨rfl, rfl⟩ := Prod.mk.inj (Except.ok.inj h)
        exact hf

/-- A sequence succeeds exactly when both parts do, one after the other. -/
theorem bind_eq_ok {p : Decoder ε σ α} {f : α → Decoder ε σ β} {s : σ} {r : β × σ} :
    (p >>= f) s = .ok r ↔ ∃ a s', p s = .ok (a, s') ∧ f a s' = .ok r := by
  constructor
  · intro h
    cases hp : p s with
    | error e => rw [bind_error hp] at h; cases h
    | ok as =>
      obtain ⟨a, s'⟩ := as
      rw [bind_ok hp] at h
      exact ⟨a, s', rfl, h⟩
  · rintro ⟨a, s', hp, hf⟩
    rw [bind_ok hp, hf]

/-- A decoder fails only with errors of this kind. -/
def FailsOnly (E : ε → Prop) (p : Decoder ε σ α) : Prop := ∀ s e, p s = .error e → E e

theorem FailsOnly.pure {E : ε → Prop} (a : α) : FailsOnly E (Pure.pure a : Decoder ε σ α) :=
  nofun

theorem FailsOnly.throw {E : ε → Prop} {e : ε} (he : E e) :
    FailsOnly E (MonadExcept.throw e : Decoder ε σ α) := by
  intro s e' h
  cases h
  exact he

theorem FailsOnly.bind {E : ε → Prop} {p : Decoder ε σ α} {f : α → Decoder ε σ β}
    (hp : FailsOnly E p) (hf : ∀ a, FailsOnly E (f a)) : FailsOnly E (p >>= f) := by
  intro s e h
  rcases bind_eq_error.mp h with h | ⟨a, s', -, h⟩
  · exact hp s e h
  · exact hf a s' e h

/-- Mapping a value keeps the input state. -/
theorem map_apply (g : α → β) (p : Decoder ε σ α) (s : σ) :
    (g <$> p) s = (p s).map fun r => (g r.1, r.2) := by
  show ((p s).bind fun r => .ok (g r.1, r.2)) = _
  cases p s <;> rfl

/-- A step that only computes: the input state stays. -/
def lift (r : Except ε α) : Decoder ε σ α :=
  fun s => r.map fun a => (a, s)

/-- Run `p` exactly `n` times and collect the values. -/
def count (p : Decoder ε σ α) : Nat → Decoder ε σ (List α)
  | 0 => pure []
  | n + 1 => do
    let a ← p
    let as ← count p n
    pure (a :: as)

/-! ## Consuming an exact prefix -/

section Reads

variable {ι : Type u}

/-- `p` consumes exactly `xs`, with outcome `r`, whatever follows. -/
def Reads (p : Decoder ε (List ι) α) (xs : List ι) (r : Except ε α) : Prop :=
  ∀ rest, p (xs ++ rest) = r.map fun a => (a, rest)

theorem Reads.pure (a : α) : Reads (pure a : Decoder ε (List ι) α) [] (.ok a) :=
  fun _ => rfl

theorem Reads.lift (r : Except ε α) : Reads (lift r : Decoder ε (List ι) α) [] r :=
  fun _ => rfl

/-- Prefixes compose. The second part is only needed where the first succeeds. -/
theorem Reads.bind {p : Decoder ε (List ι) α} {f : α → Decoder ε (List ι) β} {xs ys : List ι}
    {r : Except ε α} {g : α → Except ε β} (hp : Reads p xs r)
    (hf : ∀ a, r = .ok a → Reads (f a) ys (g a)) :
    Reads (p >>= f) (xs ++ ys) (r.bind g) := by
  intro rest
  rw [List.append_assoc, bind_apply, hp (ys ++ rest)]
  cases r with
  | error e => rfl
  | ok a => exact hf a rfl rest

/-- The common case of `Reads.bind`: the first part succeeds. -/
theorem Reads.bind_ok {p : Decoder ε (List ι) α} {f : α → Decoder ε (List ι) β}
    {xs ys : List ι} {a : α} {r : Except ε β} (hp : Reads p xs (.ok a)) (hf : Reads (f a) ys r) :
    Reads (p >>= f) (xs ++ ys) r :=
  hp.bind (g := fun _ => r) fun _ h => by cases h; exact hf

theorem Reads.map {p : Decoder ε (List ι) α} {xs : List ι} {r : Except ε α} (g : α → β)
    (hp : Reads p xs r) : Reads (g <$> p) xs (r.map g) := by
  intro rest
  rw [map_apply, hp rest]
  cases r <;> rfl

/-- Reading back a list of encodings, one per element. -/
theorem Reads.count {p : Decoder ε (List ι) α} (enc : α → List ι) :
    ∀ as : List α, (∀ a ∈ as, Reads p (enc a) (.ok a)) →
      Reads (count p as.length) (as.flatMap enc) (.ok as)
  | [], _ => Reads.pure []
  | a :: as, h => by
    have ha : Reads p (enc a) (.ok a) := h a (by simp)
    have has : Reads (Decoder.count p as.length) (as.flatMap enc) (.ok as) :=
      Reads.count enc as fun b hb => h b (by simp [hb])
    show Reads (p >>= fun a => Decoder.count p as.length >>= fun as => Pure.pure (a :: as)) _ _
    rw [List.flatMap_cons]
    refine ha.bind_ok ?_
    rw [← List.append_nil (as.flatMap enc)]
    exact has.bind_ok (Reads.pure _)

end Reads

/-! ## Relations between decoders -/

/-- The outcome is a failure. -/
def Fails {ρ : Type u} (r : Except ε ρ) : Prop := ∃ e, r = .error e

theorem Fails.error {ρ : Type u} (e : ε) : Fails (.error e : Except ε ρ) := ⟨e, rfl⟩

theorem not_fails_ok {ρ : Type u} (a : ρ) : ¬ Fails (.ok a : Except ε ρ) :=
  fun ⟨_, h⟩ => nomatch h

/-- A sequence fails where its first part does. -/
theorem Fails.bind {p : Decoder ε σ α} {s : σ} (h : Fails (p s)) (f : α → Decoder ε σ β) :
    Fails ((p >>= f) s) := by
  obtain ⟨e, he⟩ := h
  exact ⟨e, bind_error he f⟩

/-- A relation between decoders over two kinds of input that sequencing keeps, and that
holds between equal computations. What is proved of the operations of two readers then
holds of every decoder written over them. -/
structure Congruence (ε σ τ : Type u) where
  Rel : ∀ {α : Type u}, Decoder ε σ α → Decoder ε τ α → Prop
  lift : ∀ {α : Type u} (r : Except ε α), Rel (Decoder.lift r) (Decoder.lift r)
  bind : ∀ {α β : Type u} {p : Decoder ε σ α} {q : Decoder ε τ α} {f : α → Decoder ε σ β}
    {g : α → Decoder ε τ β}, Rel p q → (∀ a, Rel (f a) (g a)) → Rel (p >>= f) (q >>= g)

namespace Congruence

variable (C : Congruence ε σ τ)

theorem pure (a : α) : C.Rel (Pure.pure a) (Pure.pure a) := C.lift (.ok a)

theorem throw (e : ε) : C.Rel (MonadExcept.throw e : Decoder ε σ α) (MonadExcept.throw e) :=
  C.lift (.error e)

theorem map {p : Decoder ε σ α} {q : Decoder ε τ α} (g : α → β) (h : C.Rel p q) :
    C.Rel (g <$> p) (g <$> q) :=
  C.bind h fun a => C.pure (g a)

theorem count {p : Decoder ε σ α} {q : Decoder ε τ α} (h : C.Rel p q) :
    ∀ n, C.Rel (Decoder.count p n) (Decoder.count q n) := by
  intro n
  induction n with
  | zero => exact C.pure []
  | succ n ih => exact C.bind h fun a => C.bind ih fun as => C.pure (a :: as)

end Congruence

/-- From `R`-related states, where `p` succeeds `q` succeeds with the same value and
related states; where `p` fails with `e`, the outcome of `q` satisfies `Q e`. -/
def Sim (R : σ → τ → Prop) (Q : ∀ {α : Type u}, ε → Except ε (α × τ) → Prop)
    (p : Decoder ε σ α) (q : Decoder ε τ α) : Prop :=
  ∀ s t, R s t →
    match p s with
    | .ok (a, s') => ∃ t', q t = .ok (a, t') ∧ R s' t'
    | .error e => Q e (q t)

section Sim

variable {R : σ → τ → Prop} {Q : ∀ {α : Type u}, ε → Except ε (α × τ) → Prop}

theorem Sim.ok {p : Decoder ε σ α} {q : Decoder ε τ α} (h : Sim R Q p q) {s s' : σ} {t : τ}
    {a : α} (hR : R s t) (hp : p s = .ok (a, s')) : ∃ t', q t = .ok (a, t') ∧ R s' t' := by
  have := h s t hR
  rw [hp] at this
  exact this

theorem Sim.error {p : Decoder ε σ α} {q : Decoder ε τ α} (h : Sim R Q p q) {s : σ} {t : τ}
    {e : ε} (hR : R s t) (hp : p s = .error e) : Q e (q t) := by
  have := h s t hR
  rw [hp] at this
  exact this

/-- Simulations form a congruence where `Q` allows the same failure and is kept by
continuing. -/
def simulation (R : σ → τ → Prop) (Q : ∀ {α : Type u}, ε → Except ε (α × τ) → Prop)
    (hsame : ∀ {α : Type u} (e : ε), Q e (.error e : Except ε (α × τ)))
    (hbind : ∀ {α β : Type u} {e : ε} {r : Except ε (α × τ)} (f : α × τ → Except ε (β × τ)),
      Q e r → Q e (r.bind f)) : Congruence ε σ τ where
  Rel := Sim R Q
  lift r s t hR := by
    cases r with
    | error e => exact hsame e
    | ok a => exact ⟨t, rfl, hR⟩
  bind {_ _ p q f g} hp hf s t hR := by
    cases hps : p s with
    | error e =>
      rw [bind_error hps]
      exact hbind _ (hp.error hR hps)
    | ok as =>
      obtain ⟨a, s'⟩ := as
      obtain ⟨t', hq, hR'⟩ := hp.ok hR hps
      rw [bind_ok hps, bind_ok hq]
      exact hf a s' t' hR'

/-- Where the first succeeds the second does, with the same value; failures say nothing. -/
def refinement (R : σ → τ → Prop) : Congruence ε σ τ :=
  simulation R (fun _ _ => True) (fun _ => trivial) fun _ _ => trivial

/-- Both succeed with the same value, or both fail. -/
def equivalence (R : σ → τ → Prop) : Congruence ε σ τ :=
  simulation R (fun _ r => Fails r) Fails.error fun f h => by
    obtain ⟨e, rfl⟩ := h
    exact ⟨e, rfl⟩

end Sim

end Decoder
