import Mathlib.Data.List.Forall2

/-!
# Programs

A program over a state `σ` emits effects `ω` and returns a value or fails with `ε`. Unlike in
`Decoder`, what it did before it failed stays: the state it left and what it emitted.

Ways to reason about programs, each with its rules for the operations:

- `Keeps R`: before, effects and after are related by `R`, however the program ends. Sequencing
  keeps every `R` that composes (`Composes`).
- `Emits seen E Q`, `Quiet seen E`: what was emitted, by how the program ends.
- `Leaves s`: started in `s`, the program leaves `s`.
- `Alike T R`: two programs, started in related states, end alike and in related states; what they
  emit is related by `T`. `Coupled R` if they emit the same.
-/

/-- How a program ended, what it emitted and the state it left. -/
structure Program.Outcome (ε ω σ α : Type) where
  result : Except ε α
  trace : List ω
  state : σ

/-- A program that emits effects `ω` over a state `σ`. -/
def Program (ε ω σ α : Type) := σ → Program.Outcome ε ω σ α

namespace Program

variable {ε ω σ τ α β δ : Type}

/-- Go on after a success; what was emitted comes first. -/
def andThen (r : Outcome ε ω σ α) (f : α → Program ε ω σ β) : Outcome ε ω σ β :=
  match r with
  | ⟨.ok a, trace, s⟩ =>
    let r' := f a s
    ⟨r'.result, trace ++ r'.trace, r'.state⟩
  | ⟨.error e, trace, s⟩ => ⟨.error e, trace, s⟩

instance : Monad (Program ε ω σ) where
  pure a := fun s => ⟨.ok a, [], s⟩
  bind p f := fun s => andThen (p s) f

def throw (e : ε) : Program ε ω σ α := fun s => ⟨.error e, [], s⟩

/-- A computation without state. -/
def lift (r : Except ε α) : Program ε ω σ α := fun s => ⟨r, [], s⟩

def get : Program ε ω σ σ := fun s => ⟨.ok s, [], s⟩

def modify (f : σ → σ) : Program ε ω σ Unit := fun s => ⟨.ok (), [], f s⟩

def emit (w : ω) : Program ε ω σ Unit := fun s => ⟨.ok (), [w], s⟩

/-- A function of the state that returns or fails. -/
def ofState (f : σ → Except ε α × σ) : Program ε ω σ α := fun s => ⟨(f s).1, [], (f s).2⟩

/-- `try`: the failures that are caught become values. -/
def attempt (caught : ε → Option δ) (p : Program ε ω σ α) : Program ε ω σ (Except δ α) :=
  fun s =>
    match p s with
    | ⟨.ok a, trace, s⟩ => ⟨.ok (.ok a), trace, s⟩
    | ⟨.error e, trace, s⟩ =>
      match caught e with
      | some d => ⟨.ok (.error d), trace, s⟩
      | none => ⟨.error e, trace, s⟩

/-- Run the program for each element in turn. -/
def forEach (p : α → Program ε ω σ Unit) : List α → Program ε ω σ Unit
  | [] => pure ()
  | a :: as => do
    p a
    forEach p as

/-- A program over the first part of a state. -/
def onFirst {υ : Type} (p : Program ε ω σ α) : Program ε ω (σ × υ) α := fun s =>
  ⟨(p s.1).result, (p s.1).trace, (p s.1).state, s.2⟩

theorem pure_run (a : α) (s : σ) : (pure a : Program ε ω σ α) s = ⟨.ok a, [], s⟩ := rfl

theorem get_run (s : σ) : (get : Program ε ω σ σ) s = ⟨.ok s, [], s⟩ := rfl

theorem bind_run (p : Program ε ω σ α) (f : α → Program ε ω σ β) (s : σ) :
    (p >>= f) s = andThen (p s) f := rfl

theorem bind_ok {p : Program ε ω σ α} {s s' : σ} {a : α} {trace : List ω}
    (h : p s = ⟨.ok a, trace, s'⟩) (f : α → Program ε ω σ β) :
    (p >>= f) s = ⟨(f a s').result, trace ++ (f a s').trace, (f a s').state⟩ := by
  rw [bind_run, h]
  rfl

theorem bind_error {p : Program ε ω σ α} {s s' : σ} {e : ε} {trace : List ω}
    (h : p s = ⟨.error e, trace, s'⟩) (f : α → Program ε ω σ β) :
    (p >>= f) s = ⟨.error e, trace, s'⟩ := by
  rw [bind_run, h]
  rfl

/-- A sequence that succeeds does so in both parts. -/
theorem bind_eq_ok {p : Program ε ω σ α} {f : α → Program ε ω σ β} {s s' : σ} {b : β}
    {trace : List ω} (h : (p >>= f) s = ⟨.ok b, trace, s'⟩) :
    ∃ a t s₁ t', p s = ⟨.ok a, t, s₁⟩ ∧ f a s₁ = ⟨.ok b, t', s'⟩ ∧ trace = t ++ t' := by
  rw [bind_run] at h
  rcases hp : p s with ⟨result, t, s₁⟩
  cases result with
  | error e =>
    rw [hp] at h
    cases h
  | ok a =>
    rw [hp] at h
    rcases hf : f a s₁ with ⟨result', t', s₂⟩
    simp only [andThen, hf] at h
    cases h
    exact ⟨a, t, s₁, t', rfl, hf, rfl⟩

theorem bind_assoc {γ : Type} (p : Program ε ω σ α) (f : α → Program ε ω σ β)
    (g : β → Program ε ω σ γ) :
    p >>= f >>= g = p >>= fun a => f a >>= g := by
  funext s
  rw [bind_run, bind_run, bind_run]
  rcases p s with ⟨e | a, trace, s'⟩
  · rfl
  · simp only [andThen, bind_run]
    rcases f a s' with ⟨e | b, trace', s''⟩
    · rfl
    · simp only [List.append_assoc]

theorem bind_pure (p : Program ε ω σ α) : (p >>= fun a => pure a) = p := by
  funext s
  rw [bind_run]
  rcases p s with ⟨e | a, trace, s'⟩
  · rfl
  · exact congrArg (Outcome.mk _ · _) (List.append_nil trace)

theorem onFirst_bind {υ : Type} (p : Program ε ω σ α) (f : α → Program ε ω σ β) :
    ((p >>= f).onFirst : Program ε ω (σ × υ) β) = p.onFirst >>= fun a => (f a).onFirst := by
  funext s
  rw [bind_run, onFirst, bind_run, onFirst]
  rcases p s.1 with ⟨e | a, trace, s'⟩ <;> rfl

theorem map_eq (f : α → β) (p : Program ε ω σ α) : f <$> p = p >>= fun a => pure (f a) := rfl

theorem bind_emit_state (p : Program ε ω σ α) (w : ω) (s : σ) :
    ((p >>= fun _ => emit w) s).state = (p s).state := by
  rw [bind_run]
  rcases p s with ⟨_ | a, trace, s'⟩ <;> rfl

theorem map_ok {p : Program ε ω σ α} {s s' : σ} {a : α} {trace : List ω}
    (h : p s = ⟨.ok a, trace, s'⟩) (f : α → β) : (f <$> p) s = ⟨.ok (f a), trace, s'⟩ := by
  show andThen (p s) _ = _
  rw [h]
  exact congrArg (Outcome.mk _ · _) (List.append_nil trace)

theorem attempt_ok {caught : ε → Option δ} {p : Program ε ω σ α} {s s' : σ} {a : α}
    {trace : List ω} (h : p s = ⟨.ok a, trace, s'⟩) :
    attempt caught p s = ⟨.ok (.ok a), trace, s'⟩ := by
  rw [attempt, h]

theorem attempt_caught {caught : ε → Option δ} {p : Program ε ω σ α} {s s' : σ} {e : ε} {d : δ}
    {trace : List ω} (h : p s = ⟨.error e, trace, s'⟩) (hd : caught e = some d) :
    attempt caught p s = ⟨.ok (.error d), trace, s'⟩ := by
  simp only [attempt, h, hd]

theorem attempt_uncaught {caught : ε → Option δ} {p : Program ε ω σ α} {s s' : σ} {e : ε}
    {trace : List ω} (h : p s = ⟨.error e, trace, s'⟩) (he : caught e = none) :
    attempt caught p s = ⟨.error e, trace, s'⟩ := by
  simp only [attempt, h, he]

theorem forEach_ok {p : α → Program ε ω σ Unit} {a : α} {s s' : σ} {trace : List ω}
    (h : p a s = ⟨.ok (), trace, s'⟩) (as : List α) :
    forEach p (a :: as) s =
      ⟨(forEach p as s').result, trace ++ (forEach p as s').trace, (forEach p as s').state⟩ :=
  bind_ok h _

theorem forEach_error {p : α → Program ε ω σ Unit} {a : α} {s s' : σ} {e : ε} {trace : List ω}
    (h : p a s = ⟨.error e, trace, s'⟩) (as : List α) :
    forEach p (a :: as) s = ⟨.error e, trace, s'⟩ :=
  bind_error h _

theorem forEach_pure (as : List α) :
    forEach (fun _ => (pure () : Program ε ω σ Unit)) as = pure () := by
  induction as with
  | nil => rfl
  | cons a as ih =>
    show (pure () >>= fun _ => forEach (fun _ => pure ()) as) = pure ()
    rw [ih]
    rfl

theorem forEach_append (p : α → Program ε ω σ Unit) (as bs : List α) :
    forEach p (as ++ bs) = forEach p as >>= fun _ => forEach p bs := by
  induction as with
  | nil => rfl
  | cons a as ih =>
    show (p a >>= fun _ => forEach p (as ++ bs)) = (p a >>= fun _ => forEach p as) >>= _
    rw [ih, bind_assoc]

theorem forEach_flatMap (p : β → Program ε ω σ Unit) (f : α → List β) (as : List α) :
    forEach p (as.flatMap f) = forEach (fun a => forEach p (f a)) as := by
  induction as with
  | nil => rfl
  | cons a as ih =>
    rw [List.flatMap_cons, forEach_append, ih]
    rfl

/-! ## What happened, however it ended -/

/-- Before, effects and after are related by `R`. -/
def Keeps (R : σ → List ω → σ → Prop) (p : Program ε ω σ α) : Prop :=
  ∀ s, R s (p s).trace (p s).state

/-- From one state, `S` holds of the program if it holds of what comes after one for which `R`
does. -/
theorem Keeps.before {R S : σ → List ω → σ → Prop}
    (hstop : ∀ {s trace s'}, R s trace s' → S s trace s')
    (hthen : ∀ {s s' s'' trace trace'}, R s trace s' → S s' trace' s'' → S s (trace ++ trace') s'')
    {p : Program ε ω σ α} {f : α → Program ε ω σ β} {s : σ} (hs : R s (p s).trace (p s).state)
    (hf : ∀ a, (p s).result = .ok a → Keeps S (f a)) :
    S s ((p >>= f) s).trace ((p >>= f) s).state := by
  rw [bind_run]
  rcases hrun : p s with ⟨result, trace, s'⟩
  rw [hrun] at hs hf
  cases result with
  | error e => exact hstop hs
  | ok a => exact hthen hs (hf a rfl s')

/-- `R` holds of doing nothing, and of doing one thing after another. -/
structure Composes (R : σ → List ω → σ → Prop) : Prop where
  refl : ∀ s, R s [] s
  trans : ∀ {s s' s'' trace trace'}, R s trace s' → R s' trace' s'' → R s (trace ++ trace') s''

namespace Composes

variable {R : σ → List ω → σ → Prop} (hR : Composes R)

include hR

theorem pure (a : α) : Keeps R (Pure.pure a : Program ε ω σ α) := fun s => hR.refl s

theorem throw (e : ε) : Keeps R (Program.throw e : Program ε ω σ α) := fun s => hR.refl s

theorem lift (r : Except ε α) : Keeps R (Program.lift r) := fun s => hR.refl s

theorem get : Keeps R (Program.get : Program ε ω σ σ) := fun s => hR.refl s

/-- From one state, with what is known of the result. -/
theorem bind_at {p : Program ε ω σ α} {f : α → Program ε ω σ β} {s : σ}
    (hs : R s (p s).trace (p s).state) (hf : ∀ a, (p s).result = .ok a → Keeps R (f a)) :
    R s ((p >>= f) s).trace ((p >>= f) s).state :=
  Keeps.before id hR.trans hs hf

theorem bind {p : Program ε ω σ α} {f : α → Program ε ω σ β} (hp : Keeps R p)
    (hf : ∀ a, Keeps R (f a)) : Keeps R (p >>= f) :=
  fun s => hR.bind_at (hp s) fun a _ => hf a

theorem forEach {p : α → Program ε ω σ Unit} {as : List α} (hp : ∀ a ∈ as, Keeps R (p a)) :
    Keeps R (Program.forEach p as) := by
  induction as with
  | nil => exact hR.pure ()
  | cons a as ih =>
    exact hR.bind (hp a (List.mem_cons_self ..)) fun _ =>
      ih fun b hb => hp b (List.mem_cons_of_mem _ hb)

end Composes

theorem Keeps.ofState {R : σ → List ω → σ → Prop} {f : σ → Except ε α × σ}
    (h : ∀ s, R s [] (f s).2) : Keeps R (ofState f : Program ε ω σ α) := h

theorem Keeps.modify {R : σ → List ω → σ → Prop} {f : σ → σ} (h : ∀ s, R s [] (f s)) :
    Keeps R (modify f : Program ε ω σ Unit) := h

theorem Keeps.emit {R : σ → List ω → σ → Prop} {w : ω} (h : ∀ s, R s [w] s) :
    Keeps R (emit w : Program ε ω σ Unit) := h

theorem Keeps.attempt {R : σ → List ω → σ → Prop} {caught : ε → Option δ}
    {p : Program ε ω σ α} (hp : Keeps R p) : Keeps R (attempt caught p) := by
  intro s
  have hs := hp s
  unfold Program.attempt
  rcases hrun : p s with ⟨result, trace, s'⟩
  rw [hrun] at hs
  cases result with
  | ok a => exact hs
  | error e =>
    simp only
    split <;> exact hs

/-! ## What was emitted, by how it ended -/

section Emits

variable {γ : Type} {seen : ω → Option γ} {E E' : ε → Prop} {Q : List γ → Prop}

/-- Of what `seen` lets through, `Q` was emitted if the program succeeds. It fails only as `E`
allows, and then nothing was. -/
def Emits (seen : ω → Option γ) (E : ε → Prop) (Q : List γ → Prop) (p : Program ε ω σ α) : Prop :=
  ∀ s, match (p s).result with
    | .ok _ => Q ((p s).trace.filterMap seen)
    | .error e => E e ∧ (p s).trace.filterMap seen = []

/-- Nothing was emitted. -/
abbrev Quiet (seen : ω → Option γ) (E : ε → Prop) (p : Program ε ω σ α) : Prop :=
  Emits seen E (· = []) p

theorem Emits.pure (a : α) : Quiet seen E (Pure.pure a : Program ε ω σ α) := fun _ => rfl

theorem Emits.throw {e : ε} (he : E e) : Emits seen E Q (Program.throw e : Program ε ω σ α) :=
  fun _ => ⟨he, rfl⟩

theorem Emits.lift {r : Except ε α} (hr : ∀ e, r = .error e → E e) :
    Quiet seen E (Program.lift r : Program ε ω σ α) := by
  intro s
  cases r with
  | ok a => rfl
  | error e => exact ⟨hr e rfl, rfl⟩

theorem Emits.get : Quiet seen E (Program.get : Program ε ω σ σ) := fun _ => rfl

theorem Emits.modify (f : σ → σ) : Quiet seen E (Program.modify f : Program ε ω σ Unit) :=
  fun _ => rfl

theorem Emits.ofState {f : σ → Except ε α × σ} (hf : ∀ s e, (f s).1 = .error e → E e) :
    Quiet seen E (Program.ofState f : Program ε ω σ α) := by
  intro s
  simp only [Program.ofState]
  cases hr : (f s).1 with
  | ok a => rfl
  | error e => exact ⟨hf s e hr, rfl⟩

theorem Emits.emit {w : ω} {c : γ} (hw : seen w = some c) (hQ : Q [c]) :
    Emits seen E Q (Program.emit w : Program ε ω σ Unit) := by
  intro s
  simpa [Program.emit, hw] using hQ

theorem Emits.emit_unseen {w : ω} (hw : seen w = none) :
    Quiet seen E (Program.emit w : Program ε ω σ Unit) := by
  intro s
  simp [Program.emit, hw]

theorem Emits.bind {p : Program ε ω σ α} {f : α → Program ε ω σ β} (hp : Quiet seen E p)
    (hf : ∀ a, Emits seen E Q (f a)) : Emits seen E Q (p >>= f) := by
  intro s
  have hs := hp s
  rw [bind_run]
  rcases hrun : p s with ⟨_ | a, trace, s'⟩ <;> rw [hrun] at hs
  · exact hs
  · have hquiet : trace.filterMap seen = [] := hs
    simpa only [andThen, List.filterMap_append, hquiet, List.nil_append] using hf a s'

/-- What comes after emits nothing and does not fail. -/
theorem Emits.followed {p : Program ε ω σ α} {f : α → Program ε ω σ β} (hp : Emits seen E Q p)
    (hf : ∀ a, Quiet seen (fun _ => False) (f a)) : Emits seen E Q (p >>= f) := by
  intro s
  have hs := hp s
  rw [bind_run]
  rcases hrun : p s with ⟨_ | a, trace, s'⟩ <;> rw [hrun] at hs
  · exact hs
  · have hf := hf a s'
    simp only [andThen, List.filterMap_append]
    cases hr : (f a s').result with
    | error e =>
      rw [hr] at hf
      exact hf.1.elim
    | ok b =>
      rw [hr] at hf
      simpa only [hf, List.append_nil] using hs

theorem Emits.mono {Q' : List γ → Prop} {p : Program ε ω σ α} (hp : Emits seen E Q p)
    (hE : ∀ e, E e → E' e) (hQ : ∀ c, Q c → Q' c) : Emits seen E' Q' p := by
  intro s
  have hs := hp s
  cases hr : (p s).result with
  | ok a =>
    rw [hr] at hs
    exact hQ _ hs
  | error e =>
    rw [hr] at hs
    exact ⟨hE e hs.1, hs.2⟩

/-- A failure that is caught is answered by what comes after. -/
theorem Emits.handled {caught : ε → Option δ} {p : Program ε ω σ α}
    {f : Except δ α → Program ε ω σ β} (hp : Emits seen E Q p)
    (hE : ∀ e, E e → caught e = none → E' e)
    (hok : ∀ a, Quiet seen (fun _ => False) (f (.ok a)))
    (herror : ∀ d, Emits seen E' Q (f (.error d))) :
    Emits seen E' Q (Program.attempt caught p >>= f) := by
  intro s
  have hs := hp s
  rcases hrun : p s with ⟨e | a, trace, s'⟩ <;> rw [hrun] at hs
  · obtain ⟨he, hquiet⟩ : E e ∧ trace.filterMap seen = [] := hs
    cases hc : caught e with
    | none =>
      rw [bind_error (attempt_uncaught hrun hc)]
      exact ⟨hE e he hc, hquiet⟩
    | some d =>
      rw [bind_ok (attempt_caught hrun hc)]
      simpa only [List.filterMap_append, hquiet, List.nil_append] using herror d s'
  · have hok := hok a s'
    rw [bind_ok (attempt_ok hrun)]
    simp only [List.filterMap_append]
    cases hr : (f (.ok a) s').result with
    | error e =>
      rw [hr] at hok
      exact hok.1.elim
    | ok b =>
      rw [hr] at hok
      simpa only [hok, List.append_nil] using hs

theorem Emits.attempt {caught : ε → Option δ} {p : Program ε ω σ α} (hp : Quiet seen E p)
    (hE : ∀ e, E e → caught e = none → E' e) : Quiet seen E' (Program.attempt caught p) := by
  intro s
  have hs := hp s
  rcases hrun : p s with ⟨e | a, trace, s'⟩ <;> rw [hrun] at hs
  · obtain ⟨he, hquiet⟩ : E e ∧ trace.filterMap seen = [] := hs
    cases hc : caught e with
    | none =>
      rw [attempt_uncaught hrun hc]
      exact ⟨hE e he hc, hquiet⟩
    | some d =>
      rw [attempt_caught hrun hc]
      exact hquiet
  · rw [attempt_ok hrun]
    exact hs

theorem Emits.forEach {p : α → Program ε ω σ Unit} {as : List α}
    (hp : ∀ a ∈ as, Quiet seen E (p a)) : Quiet seen E (Program.forEach p as) := by
  induction as with
  | nil => exact Emits.pure ()
  | cons a as ih =>
    exact Emits.bind (hp a (List.mem_cons_self ..)) fun _ =>
      ih fun b hb => hp b (List.mem_cons_of_mem _ hb)

end Emits

/-! ## Programs that leave the state as it is -/

section Leaves

variable {s : σ}

/-- Started in `s`, the program leaves `s`. -/
def Leaves (s : σ) (p : Program ε ω σ α) : Prop := (p s).state = s

theorem Leaves.pure (a : α) : Leaves s (Pure.pure a : Program ε ω σ α) := rfl

theorem Leaves.lift (r : Except ε α) : Leaves s (Program.lift r : Program ε ω σ α) := rfl

theorem Leaves.get : Leaves s (Program.get : Program ε ω σ σ) := rfl

theorem Leaves.emit (w : ω) : Leaves s (Program.emit w : Program ε ω σ Unit) := rfl

theorem Leaves.ofState {f : σ → Except ε α × σ} (h : (f s).2 = s) :
    Leaves s (Program.ofState f : Program ε ω σ α) := h

/-- What comes after runs in the same state, with the result there. -/
theorem Leaves.bind {p : Program ε ω σ α} {f : α → Program ε ω σ β} (hp : Leaves s p)
    (hf : ∀ a, (p s).result = .ok a → Leaves s (f a)) : Leaves s (p >>= f) := by
  unfold Leaves at hp ⊢
  rw [bind_run]
  rcases hrun : p s with ⟨result, trace, s'⟩
  rw [hrun] at hp hf
  have : s' = s := hp
  subst this
  cases result with
  | error e => rfl
  | ok a => exact hf a rfl

theorem Leaves.attempt {caught : ε → Option δ} {p : Program ε ω σ α} (hp : Leaves s p) :
    Leaves s (Program.attempt caught p) := by
  unfold Leaves at hp ⊢
  rcases hrun : p s with ⟨_ | a, trace, s'⟩ <;> rw [hrun] at hp
  · next e =>
    cases hc : caught e with
    | none =>
      rw [attempt_uncaught hrun hc]
      exact hp
    | some d =>
      rw [attempt_caught hrun hc]
      exact hp
  · rw [attempt_ok hrun]
    exact hp

end Leaves

/-! ## Two programs in step -/

section Alike

variable {υ : Type} {T : ω → υ → Prop} {R : σ → τ → Prop}

/-- Started in related states, the two programs end alike, emit one by one what `T` relates and
leave related states. -/
def Alike (T : ω → υ → Prop) (R : σ → τ → Prop) (p : Program ε ω σ α) (q : Program ε υ τ α) :
    Prop :=
  ∀ s t, R s t → (p s).result = (q t).result ∧ List.Forall₂ T (p s).trace (q t).trace ∧
    R (p s).state (q t).state

theorem Alike.pure (a : α) :
    Alike T R (Pure.pure a : Program ε ω σ α) (Pure.pure a : Program ε υ τ α) :=
  fun _ _ h => ⟨rfl, .nil, h⟩

theorem Alike.throw (e : ε) :
    Alike T R (Program.throw e : Program ε ω σ α) (Program.throw e : Program ε υ τ α) :=
  fun _ _ h => ⟨rfl, .nil, h⟩

theorem Alike.lift (r : Except ε α) :
    Alike T R (Program.lift r : Program ε ω σ α) (Program.lift r : Program ε υ τ α) :=
  fun _ _ h => ⟨rfl, .nil, h⟩

theorem Alike.emit {w : ω} {v : υ} (h : T w v) :
    Alike T R (Program.emit w : Program ε ω σ Unit) (Program.emit v : Program ε υ τ Unit) :=
  fun _ _ hst => ⟨rfl, .cons h .nil, hst⟩

theorem Alike.modify {f : σ → σ} {g : τ → τ} (h : ∀ s t, R s t → R (f s) (g t)) :
    Alike T R (Program.modify f : Program ε ω σ Unit) (Program.modify g : Program ε υ τ Unit) :=
  fun s t hst => ⟨rfl, .nil, h s t hst⟩

theorem Alike.ofState {f : σ → Except ε α × σ} {g : τ → Except ε α × τ}
    (h : ∀ s t, R s t → (f s).1 = (g t).1 ∧ R (f s).2 (g t).2) :
    Alike T R (Program.ofState f : Program ε ω σ α) (Program.ofState g : Program ε υ τ α) :=
  fun s t hst => ⟨(h s t hst).1, .nil, (h s t hst).2⟩

/-- From one pair of states. -/
theorem Alike.bind_at {p : Program ε ω σ α} {q : Program ε υ τ α} {f : α → Program ε ω σ β}
    {g : α → Program ε υ τ β} {s : σ} {t : τ}
    (hp : (p s).result = (q t).result ∧ List.Forall₂ T (p s).trace (q t).trace ∧
      R (p s).state (q t).state) (hf : ∀ a, Alike T R (f a) (g a)) :
    ((p >>= f) s).result = ((q >>= g) t).result ∧
      List.Forall₂ T ((p >>= f) s).trace ((q >>= g) t).trace ∧
      R ((p >>= f) s).state ((q >>= g) t).state := by
  obtain ⟨hresult, htrace, hstate⟩ := hp
  rw [bind_run, bind_run]
  rcases hrun : p s with ⟨result, trace, s'⟩
  rcases hrun' : q t with ⟨result', trace', t'⟩
  rw [hrun, hrun'] at hresult htrace hstate
  cases hresult
  cases result with
  | error e => exact ⟨rfl, htrace, hstate⟩
  | ok a =>
    obtain ⟨hresult, hlater, hstate⟩ := hf a s' t' hstate
    exact ⟨hresult, List.rel_append htrace hlater, hstate⟩

theorem Alike.bind {p : Program ε ω σ α} {q : Program ε υ τ α} {f : α → Program ε ω σ β}
    {g : α → Program ε υ τ β} (hp : Alike T R p q) (hf : ∀ a, Alike T R (f a) (g a)) :
    Alike T R (p >>= f) (q >>= g) :=
  fun s t hst => Alike.bind_at (hp s t hst) hf

theorem Alike.attempt_at {caught : ε → Option δ} {p : Program ε ω σ α} {q : Program ε υ τ α}
    {s : σ} {t : τ} (hp : (p s).result = (q t).result ∧
      List.Forall₂ T (p s).trace (q t).trace ∧ R (p s).state (q t).state) :
    (Program.attempt caught p s).result = (Program.attempt caught q t).result ∧
      List.Forall₂ T (Program.attempt caught p s).trace (Program.attempt caught q t).trace ∧
      R (Program.attempt caught p s).state (Program.attempt caught q t).state := by
  obtain ⟨hresult, htrace, hstate⟩ := hp
  rcases hrun : p s with ⟨result, trace, s'⟩
  rcases hrun' : q t with ⟨result', trace', t'⟩
  rw [hrun, hrun'] at hresult htrace hstate
  cases hresult
  cases result with
  | ok a =>
    rw [attempt_ok hrun, attempt_ok hrun']
    exact ⟨rfl, htrace, hstate⟩
  | error e =>
    cases hc : caught e with
    | none =>
      rw [attempt_uncaught hrun hc, attempt_uncaught hrun' hc]
      exact ⟨rfl, htrace, hstate⟩
    | some d =>
      rw [attempt_caught hrun hc, attempt_caught hrun' hc]
      exact ⟨rfl, htrace, hstate⟩

theorem Alike.attempt {caught : ε → Option δ} {p : Program ε ω σ α} {q : Program ε υ τ α}
    (hp : Alike T R p q) : Alike T R (Program.attempt caught p) (Program.attempt caught q) :=
  fun s t hst => Alike.attempt_at (hp s t hst)

theorem Alike.forEach {p : α → Program ε ω σ Unit} {q : α → Program ε υ τ Unit} {as : List α}
    (h : ∀ a ∈ as, Alike T R (p a) (q a)) :
    Alike T R (Program.forEach p as) (Program.forEach q as) := by
  induction as with
  | nil => exact .pure ()
  | cons a as ih =>
    exact .bind (h a (List.mem_cons_self ..)) fun _ =>
      ih fun b hb => h b (List.mem_cons_of_mem _ hb)

end Alike

section Coupled

variable {R : σ → τ → Prop}

/-- Started in related states, the two programs end alike, emit the same and leave related
states. -/
def Coupled (R : σ → τ → Prop) (p : Program ε ω σ α) (q : Program ε ω τ α) : Prop :=
  ∀ s t, R s t → (p s).result = (q t).result ∧ (p s).trace = (q t).trace ∧ R (p s).state (q t).state

theorem coupled_iff {p : Program ε ω σ α} {q : Program ε ω τ α} :
    Coupled R p q ↔ Alike Eq R p q := by
  simp only [Coupled, Alike, List.forall₂_eq_eq_eq]

theorem Coupled.pure (a : α) :
    Coupled R (Pure.pure a : Program ε ω σ α) (Pure.pure a : Program ε ω τ α) :=
  coupled_iff.2 (.pure a)

theorem Coupled.emit (w : ω) :
    Coupled R (Program.emit w : Program ε ω σ Unit) (Program.emit w : Program ε ω τ Unit) :=
  coupled_iff.2 (.emit rfl)

theorem Coupled.ofState {f : σ → Except ε α × σ} {g : τ → Except ε α × τ}
    (h : ∀ s t, R s t → (f s).1 = (g t).1 ∧ R (f s).2 (g t).2) :
    Coupled R (Program.ofState f : Program ε ω σ α) (Program.ofState g) :=
  coupled_iff.2 (.ofState h)

theorem Coupled.bind {p : Program ε ω σ α} {q : Program ε ω τ α} {f : α → Program ε ω σ β}
    {g : α → Program ε ω τ β} (hp : Coupled R p q) (hf : ∀ a, Coupled R (f a) (g a)) :
    Coupled R (p >>= f) (q >>= g) :=
  coupled_iff.2 (.bind (coupled_iff.1 hp) fun a => coupled_iff.1 (hf a))

theorem Coupled.throw (e : ε) :
    Coupled R (Program.throw e : Program ε ω σ α) (Program.throw e : Program ε ω τ α) :=
  coupled_iff.2 (.throw e)

theorem Coupled.lift (r : Except ε α) :
    Coupled R (Program.lift r : Program ε ω σ α) (Program.lift r : Program ε ω τ α) :=
  coupled_iff.2 (.lift r)

theorem Coupled.modify {f : σ → σ} {g : τ → τ} (h : ∀ s t, R s t → R (f s) (g t)) :
    Coupled R (Program.modify f : Program ε ω σ Unit) (Program.modify g : Program ε ω τ Unit) :=
  coupled_iff.2 (.modify h)

/-- Both go on with the states they are in. -/
theorem Coupled.get_bind {f : σ → Program ε ω σ β} {g : τ → Program ε ω τ β}
    (h : ∀ s t, R s t → Coupled R (f s) (g t)) :
    Coupled R (Program.get >>= f) (Program.get >>= g) :=
  fun s t hst => h s t hst s t hst

theorem Coupled.forEach {p : α → Program ε ω σ Unit} {q : α → Program ε ω τ Unit} {as : List α}
    (h : ∀ a ∈ as, Coupled R (p a) (q a)) :
    Coupled R (Program.forEach p as) (Program.forEach q as) :=
  coupled_iff.2 (.forEach fun a ha => coupled_iff.1 (h a ha))

/-- What comes after is reached from related states, with the same result. -/
theorem Coupled.of_results {S : σ → τ → Prop} {p : Program ε ω σ α} {q : Program ε ω τ α}
    (h : Coupled R p q) (hS : ∀ s t, S s t → R s t)
    (hback : ∀ s t, S s t → R (p s).state (q t).state → S (p s).state (q t).state) :
    Coupled S p q := by
  intro s t hst
  obtain ⟨hresult, htrace, hstate⟩ := h s t (hS s t hst)
  exact ⟨hresult, htrace, hback s t hst hstate⟩

theorem Coupled.attempt {caught : ε → Option δ} {p : Program ε ω σ α} {q : Program ε ω τ α}
    (hp : Coupled R p q) : Coupled R (Program.attempt caught p) (Program.attempt caught q) :=
  coupled_iff.2 (.attempt (coupled_iff.1 hp))

/-- What comes with the first parts is the same. -/
theorem Coupled.onFirst {υ : Type} {p : Program ε ω σ α} {q : Program ε ω τ α}
    (h : Coupled R p q) : Coupled (fun (s : σ × υ) (t : τ × υ) => R s.1 t.1 ∧ s.2 = t.2)
      p.onFirst q.onFirst := by
  intro s t hst
  obtain ⟨hresult, htrace, hstate⟩ := h s.1 t.1 hst.1
  exact ⟨hresult, htrace, hstate, hst.2⟩

end Coupled

end Program
