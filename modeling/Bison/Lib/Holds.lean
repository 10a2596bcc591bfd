import Bison.Lib.Decoder
import Bison.Lib.Program

/-!
# A lock that is held in scopes

A lock that is not reentrant, and programs that hold it in scopes: it is released where the scope
ends, however it ends. Which scopes are opened inside which is a forest, and a program emits it.

- `Hold`: a scope and the scopes that are opened inside it; `events` is what happens to the lock.
- `Orderly`: the lock is never acquired while it is held. `orderly_eventsOf_iff`: that is so exactly
  if every scope is `Plain`, which is to say that none is opened inside another.
- `Program.hold`: run a program in a scope.
- `Program.Mirrors`, `Wraps`: but for its scopes, a program is a decoder.
- `MonadRelation`: a relation between two kinds of programs that sequencing keeps. A program that is
  written for any kind is related to itself.
-/

/-- A scope in which the lock is held, and the scopes opened inside it. -/
inductive Hold (κ : Type) where
  | scope (mode : κ) (inner : List (Hold κ))

/-- What happens to the lock. -/
inductive LockEvent (κ : Type) where
  | acquire (mode : κ)
  | release

namespace Hold

variable {κ : Type}

mutual

def events : Hold κ → List (LockEvent κ)
  | scope mode inner => .acquire mode :: (eventsOf inner ++ [.release])

def eventsOf : List (Hold κ) → List (LockEvent κ)
  | [] => []
  | h :: hs => h.events ++ eventsOf hs

end

/-- From where the lock is held `held` times on, it is never acquired while it is held. -/
def Orderly : Nat → List (LockEvent κ) → Prop
  | _, [] => True
  | held, .acquire _ :: es => held = 0 ∧ Orderly (held + 1) es
  | held, .release :: es => Orderly (held - 1) es

/-- No scope is opened inside. -/
def Plain : Hold κ → Prop
  | scope _ inner => inner = []

/-- While the lock is held, no scope may be opened. -/
theorem orderly_held_iff (held : Nat) (hs : List (Hold κ)) (es : List (LockEvent κ)) :
    Orderly (held + 1) (eventsOf hs ++ es) ↔ hs = [] ∧ Orderly (held + 1) es := by
  cases hs with
  | nil => simp [eventsOf]
  | cons h hs =>
    obtain ⟨mode, inner⟩ := h
    simp [eventsOf, events, Orderly]

theorem orderly_free_iff (hs : List (Hold κ)) (es : List (LockEvent κ)) :
    Orderly 0 (eventsOf hs ++ es) ↔ (∀ h ∈ hs, h.Plain) ∧ Orderly 0 es := by
  induction hs with
  | nil => simp [eventsOf]
  | cons h hs ih =>
    obtain ⟨mode, inner⟩ := h
    have hevents : eventsOf (scope mode inner :: hs) ++ es =
        .acquire mode :: (eventsOf inner ++ (.release :: (eventsOf hs ++ es))) := by
      simp [eventsOf, events]
    rw [hevents, List.forall_mem_cons]
    show 0 = 0 ∧ Orderly (0 + 1) _ ↔ (inner = [] ∧ _) ∧ _
    rw [orderly_held_iff]
    show 0 = 0 ∧ inner = [] ∧ Orderly 0 (eventsOf hs ++ es) ↔ _
    rw [ih]
    tauto

/-- The lock is never acquired while it is held exactly if no scope is opened inside another. -/
theorem orderly_eventsOf_iff (hs : List (Hold κ)) :
    Orderly 0 (eventsOf hs) ↔ ∀ h ∈ hs, h.Plain := by
  have h := orderly_free_iff hs []
  rw [List.append_nil] at h
  rw [h]
  exact and_iff_left trivial

end Hold

/-! ## Programs -/

namespace Program

variable {ε κ ω σ τ α β : Type}

/-- Run a program while the lock is held. -/
def hold (mode : κ) (p : Program ε (Hold κ) σ α) : Program ε (Hold κ) σ α := fun s =>
  ⟨(p s).result, [.scope mode (p s).trace], (p s).state⟩

/-- A decoder as a program. -/
def ofDecoder (p : Decoder ε σ α) : Program ε ω σ α := fun s =>
  match p s with
  | .ok (a, s') => ⟨.ok a, [], s'⟩
  | .error e => ⟨.error e, [], s⟩

/-- Run a program on a state of its own. -/
def within (s : τ) (p : Program ε ω τ α) : Program ε ω σ (α × τ) := fun s' =>
  ⟨(p s).result.map fun a => (a, (p s).state), (p s).trace, s'⟩

theorem ofDecoder_ok {p : Decoder ε σ α} {s s' : σ} {a : α} (h : p s = .ok (a, s')) :
    (ofDecoder p : Program ε ω σ α) s = ⟨.ok a, [], s'⟩ := by
  rw [ofDecoder, h]

theorem ofDecoder_error {p : Decoder ε σ α} {s : σ} {e : ε} (h : p s = .error e) :
    (ofDecoder p : Program ε ω σ α) s = ⟨.error e, [], s⟩ := by
  rw [ofDecoder, h]

@[simp] theorem ofDecoder_trace (p : Decoder ε σ α) (s : σ) :
    ((ofDecoder p : Program ε ω σ α) s).trace = [] := by
  unfold ofDecoder
  split <;> rfl

/-- The trace of a sequence is empty if both parts emit nothing. -/
theorem bind_trace_nil_iff {p : Program ε ω σ α} {f : α → Program ε ω σ β} {s : σ} :
    ((p >>= f) s).trace = [] ↔
      (p s).trace = [] ∧ ∀ a, (p s).result = .ok a → (f a (p s).state).trace = [] := by
  rw [bind_run]
  rcases hrun : p s with ⟨e | a, trace, s'⟩
  · simp [andThen]
  · simp [andThen]

theorem bind_trace_ne_nil {p : Program ε ω σ α} {s : σ} (h : (p s).trace ≠ [])
    (f : α → Program ε ω σ β) : ((p >>= f) s).trace ≠ [] := by
  intro hnil
  exact h (bind_trace_nil_iff.mp hnil).1

/-! ### Programs that open no scope, or none inside another -/

/-- The program opens no scope. -/
abbrev Silent (p : Program ε (Hold κ) σ α) : Prop := Keeps (fun _ hs _ => hs = []) p

/-- The program opens no scope inside another. -/
abbrev Flat (p : Program ε (Hold κ) σ α) : Prop := Keeps (fun _ hs _ => ∀ h ∈ hs, h.Plain) p

theorem flat_composes : Composes fun (_ : σ) (hs : List (Hold κ)) (_ : σ) => ∀ h ∈ hs, h.Plain where
  refl _ := by simp
  trans h h' := by
    intro x hx
    rcases List.mem_append.mp hx with hx | hx
    · exact h x hx
    · exact h' x hx

theorem Silent.ofDecoder (p : Decoder ε σ α) :
    Silent (Program.ofDecoder p : Program ε (Hold κ) σ α) := ofDecoder_trace p

theorem Silent.flat {p : Program ε (Hold κ) σ α} (h : Silent p) : Flat p := by
  intro s x hx
  rw [h s] at hx
  cases hx

/-- A scope is plain where the program inside opens none. -/
theorem hold_plain_iff {mode : κ} {p : Program ε (Hold κ) σ α} {s : σ} :
    (∀ h ∈ (hold mode p s).trace, h.Plain) ↔ (p s).trace = [] := by
  show (∀ h ∈ [Hold.scope mode (p s).trace], h.Plain) ↔ _
  rw [List.forall_mem_singleton]
  rfl

theorem Silent.hold {mode : κ} {p : Program ε (Hold κ) σ α} (h : Silent p) :
    Flat (Program.hold mode p) := fun s => hold_plain_iff.mpr (h s)

/-! ### Programs that are decoders but for their scopes -/

/-- The program ends as the decoder does. -/
def Mirrors (p : Program ε ω σ α) (q : Decoder ε σ α) : Prop :=
  ∀ s, ((p s).result.map fun a => (a, (p s).state)) = q s

theorem Mirrors.ofDecoder (p : Decoder ε σ α) : Mirrors (ofDecoder p : Program ε ω σ α) p := by
  intro s
  unfold Program.ofDecoder
  split
  · next h => exact h.symm
  · next h => exact h.symm

theorem Mirrors.hold {mode : κ} {p : Program ε (Hold κ) σ α} {q : Decoder ε σ α}
    (h : Mirrors p q) : Mirrors (Program.hold mode p) q := h

theorem Mirrors.bind {p : Program ε ω σ α} {q : Decoder ε σ α} {f : α → Program ε ω σ β}
    {g : α → Decoder ε σ β} (hp : Mirrors p q) (hf : ∀ a, Mirrors (f a) (g a)) :
    Mirrors (p >>= f) (q >>= g) := by
  intro s
  have hs := hp s
  rw [bind_run, Decoder.bind_apply, ← hs]
  rcases hrun : p s with ⟨e | a, trace, s'⟩
  · rfl
  · exact hf a s'

/-- The program is the decoder, but for scopes of which none is opened inside another. -/
structure Wraps (p : Program ε (Hold κ) σ α) (q : Decoder ε σ α) : Prop where
  flat : Flat p
  mirrors : Mirrors p q

namespace Wraps

theorem ofDecoder (p : Decoder ε σ α) : Wraps (Program.ofDecoder p : Program ε (Hold κ) σ α) p :=
  ⟨(Silent.ofDecoder p).flat, Mirrors.ofDecoder p⟩

theorem hold (mode : κ) (p : Decoder ε σ α) :
    Wraps (Program.hold mode (Program.ofDecoder p) : Program ε (Hold κ) σ α) p :=
  ⟨(Silent.ofDecoder p).hold, (Mirrors.ofDecoder p).hold⟩

theorem pure (a : α) : Wraps (Pure.pure a : Program ε (Hold κ) σ α) (Pure.pure a) :=
  ⟨flat_composes.pure a, fun _ => rfl⟩

theorem lift (r : Except ε α) :
    Wraps (Program.lift r : Program ε (Hold κ) σ α) (Decoder.lift r) :=
  ⟨flat_composes.lift r, fun _ => rfl⟩

theorem bind {p : Program ε (Hold κ) σ α} {q : Decoder ε σ α} {f : α → Program ε (Hold κ) σ β}
    {g : α → Decoder ε σ β} (hp : Wraps p q) (hf : ∀ a, Wraps (f a) (g a)) :
    Wraps (p >>= f) (q >>= g) :=
  ⟨flat_composes.bind hp.flat fun a => (hf a).flat, hp.mirrors.bind fun a => (hf a).mirrors⟩

/-- A sequence of computations without state. -/
theorem bind_lift {p : Program ε (Hold κ) σ α} {r : Except ε α} {f : α → Program ε (Hold κ) σ β}
    {g : α → Except ε β} (hp : Wraps p (Decoder.lift r))
    (hf : ∀ a, Wraps (f a) (Decoder.lift (g a))) :
    Wraps (p >>= f) (Decoder.lift (r >>= g)) := by
  have h : Decoder.lift (r >>= g) = (Decoder.lift r >>= fun a => Decoder.lift (g a) :
      Decoder ε σ β) := by
    cases r <;> rfl
  rw [h]
  exact hp.bind hf

/-- On a state of its own, the program gives what the decoder does. -/
theorem within {p : Program ε (Hold κ) τ α} {q : Decoder ε τ α} (h : Wraps p q) (s : τ) :
    Wraps (Program.within s p : Program ε (Hold κ) σ (α × τ)) (Decoder.lift (q s)) := by
  refine ⟨fun _ => h.flat s, fun s' => ?_⟩
  rw [← h.mirrors s]
  rfl

end Wraps

end Program

/-! ## Programs of any kind -/

/-- A relation between two kinds of programs that sequencing keeps. -/
structure MonadRelation (m m' : Type → Type) [Monad m] [Monad m'] where
  Rel : ∀ {α : Type}, m α → m' α → Prop
  pure : ∀ {α : Type} (a : α), Rel (pure a) (pure a)
  bind : ∀ {α β : Type} {p : m α} {q : m' α} {f : α → m β} {g : α → m' β}, Rel p q →
    (∀ a, Rel (f a) (g a)) → Rel (p >>= f) (q >>= g)

namespace MonadRelation

variable {ε δ κ σ : Type}

/-- A program and the decoder it is, but for scopes of which none is opened inside another. -/
def wraps : MonadRelation (Program ε (Hold κ) σ) (Decoder ε σ) where
  Rel := Program.Wraps
  pure := Program.Wraps.pure
  bind := Program.Wraps.bind

/-- A decoder that fails with `none` where the program opens its first scope, and until then does
what the program does. -/
def foresees : MonadRelation (Program ε (Hold κ) σ) (Decoder (Option ε) σ) where
  Rel p q := ∀ s,
    match q s with
    | .ok (a, s') => p s = ⟨.ok a, [], s'⟩
    | .error (some e) => (p s).trace = [] ∧ (p s).result = .error e
    | .error none => (p s).trace ≠ []
  pure _ := fun _ => rfl
  bind := by
    intro α β p q f g hp hf s
    have hs := hp s
    rw [Decoder.bind_apply]
    rcases hq : q s with _ | ⟨a, s'⟩
    · next e =>
      rw [hq] at hs
      cases e with
      | none => exact Program.bind_trace_ne_nil hs f
      | some e =>
        show ((p >>= f) s).trace = [] ∧ ((p >>= f) s).result = .error e
        rcases hrun : p s with ⟨result, trace, s'⟩
        rw [hrun] at hs
        obtain ⟨rfl, rfl⟩ := hs
        rw [Program.bind_error hrun]
        exact ⟨rfl, rfl⟩
    · rw [hq] at hs
      have hf := hf a s'
      rw [Program.bind_ok hs]
      exact hf

theorem foresees_ofDecoder {α : Type} (p : Decoder ε σ α) :
    (foresees (κ := κ)).Rel (Program.ofDecoder p) fun s => (p s).mapError some := by
  intro s
  rcases hp : p s with e | ⟨a, s'⟩
  · simp only [hp, Except.mapError]
    exact ⟨Program.ofDecoder_trace p s, by rw [Program.ofDecoder_error hp]⟩
  · simp only [hp, Except.mapError]
    exact Program.ofDecoder_ok hp

/-- The program opens a scope exactly where the decoder fails with `none`. -/
theorem foresees_trace_iff {α : Type} {p : Program ε (Hold κ) σ α} {q : Decoder (Option ε) σ α}
    (h : foresees.Rel p q) (s : σ) : (p s).trace = [] ↔ q s ≠ .error none := by
  have hs := h s
  rcases hq : q s with (_ | e) | ⟨a, s'⟩
  · rw [hq] at hs
    exact ⟨fun hnil => absurd hnil hs, fun hne => absurd rfl hne⟩
  · rw [hq] at hs
    exact ⟨fun _ => by simp, fun _ => hs.1⟩
  · rw [hq] at hs
    exact ⟨fun _ => by simp, fun _ => by rw [hs]⟩

end MonadRelation
