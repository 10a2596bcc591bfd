import Bison.Lib.Program

/-!
# Triples

What a program does, from the states in which a precondition holds.

- `Triple P p Q E`: from where `P` holds, `Q` holds of the value and the state if the program
  returns, and `E` of the exception and the state if it fails.
- `Maintains I p`: `I` holds afterwards, however the program ends.
-/

namespace Program

variable {ε ω σ α β : Type}

/-- From where `P` holds, `Q` holds if the program returns, and `E` if it fails. -/
def Triple (P : σ → Prop) (p : Program ε ω σ α) (Q : α → σ → Prop) (E : ε → σ → Prop) : Prop :=
  ∀ s, P s → match (p s).result with
    | .ok a => Q a (p s).state
    | .error e => E e (p s).state

/-- `I` holds afterwards, however the program ends. -/
abbrev Maintains (I : σ → Prop) (p : Program ε ω σ α) : Prop :=
  Triple I p (fun _ => I) (fun _ => I)

section Rules

variable {P P' : σ → Prop} {Q Q' R : α → σ → Prop} {S : β → σ → Prop} {E E' : ε → σ → Prop}

theorem Triple.pure {a : α} (h : ∀ s, P s → Q a s) :
    Triple P (Pure.pure a : Program ε ω σ α) Q E := h

theorem Triple.throw {e : ε} (h : ∀ s, P s → E e s) :
    Triple P (Program.throw e : Program ε ω σ α) Q E := h

theorem Triple.lift {r : Except ε α} (hok : ∀ s a, P s → r = .ok a → Q a s)
    (herror : ∀ s e, P s → r = .error e → E e s) :
    Triple P (Program.lift r : Program ε ω σ α) Q E := by
  intro s hs
  cases r with
  | ok a => exact hok s a hs rfl
  | error e => exact herror s e hs rfl

theorem Triple.get {Q : σ → σ → Prop} (h : ∀ s, P s → Q s s) :
    Triple P (Program.get : Program ε ω σ σ) Q E := h

theorem Triple.modify {Q : Unit → σ → Prop} {f : σ → σ} (h : ∀ s, P s → Q () (f s)) :
    Triple P (Program.modify f : Program ε ω σ Unit) Q E := h

theorem Triple.ofState {f : σ → Except ε α × σ}
    (h : ∀ s, P s → match (f s).1 with
      | .ok a => Q a (f s).2
      | .error e => E e (f s).2) :
    Triple P (Program.ofState f : Program ε ω σ α) Q E := h

theorem Triple.mono {p : Program ε ω σ α} (h : Triple P p Q E) (hP : ∀ s, P' s → P s)
    (hQ : ∀ a s, Q a s → Q' a s) (hE : ∀ e s, E e s → E' e s) : Triple P' p Q' E' := by
  intro s hs
  have := h s (hP s hs)
  cases hr : (p s).result with
  | ok a =>
    rw [hr] at this
    exact hQ a _ this
  | error e =>
    rw [hr] at this
    exact hE e _ this

theorem Triple.weaken {p : Program ε ω σ α} (h : Triple P p Q E) (hP : ∀ s, P' s → P s) :
    Triple P' p Q E := h.mono hP (fun _ _ h => h) fun _ _ h => h

theorem Triple.imp {p : Program ε ω σ α} (h : Triple P p Q E) (hQ : ∀ a s, Q a s → Q' a s)
    (hE : ∀ e s, E e s → E' e s) : Triple P p Q' E' := h.mono (fun _ h => h) hQ hE

theorem Triple.bind {p : Program ε ω σ α} {f : α → Program ε ω σ β} (hp : Triple P p Q E)
    (hf : ∀ a, Triple (Q a) (f a) S E) : Triple P (p >>= f) S E := by
  intro s hs
  have hs := hp s hs
  rw [bind_run]
  rcases hrun : p s with ⟨e | a, trace, s'⟩ <;> rw [hrun] at hs
  · exact hs
  · exact hf a s' hs

theorem Triple.and {p : Program ε ω σ α} (h : Triple P p Q E) (h' : Triple P p Q' E') :
    Triple P p (fun a s => Q a s ∧ Q' a s) fun e s => E e s ∧ E' e s := by
  intro s hs
  have hleft := h s hs
  have hright := h' s hs
  cases hr : (p s).result <;> rw [hr] at hleft hright <;> exact ⟨hleft, hright⟩

/-- A precondition that does not depend on the state. -/
theorem Triple.given {h : Prop} {p : Program ε ω σ α} (hp : h → Triple P p Q E) :
    Triple (fun s => P s ∧ h) p Q E := fun s hs => hp hs.2 s hs.1

/-- One state is looked at at a time. -/
theorem Triple.each {p : Program ε ω σ α} (h : ∀ s, P s → Triple (· = s) p Q E) :
    Triple P p Q E := fun s hs => h s hs s rfl

theorem Triple.at {p : Program ε ω σ α} (h : Triple P p Q E) {s : σ} (hs : P s) :
    Triple (· = s) p Q E := by
  intro s' heq
  subst heq
  exact h s' hs

/-- The program goes on with the state it is in. -/
theorem Triple.get_bind {f : σ → Program ε ω σ β} (h : ∀ s, P s → Triple (· = s) (f s) S E) :
    Triple P (Program.get >>= f) S E :=
  .bind (Q := fun a s => P s ∧ s = a) (fun _ hs => ⟨hs, rfl⟩) fun a s hs => h a (hs.2 ▸ hs.1) s hs.2

/-- What is caught has failed as the program does. -/
theorem Triple.attempt {δ : Type} {caught : ε → Option δ} {p : Program ε ω σ α}
    (h : Triple P p Q E) :
    Triple P (Program.attempt caught p) (fun r s => match r with
      | .ok a => Q a s
      | .error _ => ∃ e, E e s) E := by
  intro s hs
  have h := h s hs
  rcases hrun : p s with ⟨e | a, trace, s'⟩ <;> rw [hrun] at h
  · cases hcaught : caught e with
    | none =>
      rw [attempt_uncaught hrun hcaught]
      exact h
    | some d =>
      rw [attempt_caught hrun hcaught]
      exact ⟨e, h⟩
  · rw [attempt_ok hrun]
    exact h

/-- `I` holds of what is left of the list. -/
theorem Triple.forEach {I : List α → σ → Prop} {p : α → Program ε ω σ Unit}
    (h : ∀ a as, Triple (I (a :: as)) (p a) (fun _ => I as) E) :
    ∀ as, Triple (I as) (Program.forEach p as) (fun _ => I []) E
  | [] => fun _ hs => hs
  | a :: as => .bind (h a as) fun _ => Triple.forEach h as

theorem Maintains.forEach {I : σ → Prop} {p : α → Program ε ω σ Unit} {as : List α}
    (h : ∀ a ∈ as, Maintains I (p a)) : Maintains I (Program.forEach p as) := by
  induction as with
  | nil => exact fun _ hs => hs
  | cons a as ih =>
    exact .bind (h a (List.mem_cons_self ..)) fun _ =>
      ih fun b hb => h b (List.mem_cons_of_mem _ hb)

/-- What holds of the state however the program ends. -/
theorem Triple.state {R : σ → Prop} {p : Program ε ω σ α}
    (h : Triple P p (fun _ => R) fun _ => R) {s : σ} (hs : P s) : R (p s).state := by
  have := h s hs
  cases hr : (p s).result with
  | ok a =>
    rw [hr] at this
    exact this
  | error e =>
    rw [hr] at this
    exact this

end Rules

end Program
