import Bison.Lib.Holds

/-!
# When a program returns

A program, the state it is started in, and the condition under which it returns. Where the condition
does not hold it fails, in whatever state and with whatever exception.

- `ReturnsIff P p s a s'`: started in `s`, the program returns `a` in the state `s'` if `P`, and
  fails if not. There is a rule for each operation; a sequence returns if both of its parts do.
- `ReturnsIff.forEach`: a loop in which the condition of every turn is known beforehand.
-/

namespace Program

variable {ε κ ω σ τ α β : Type}

/-- Started in `s`, the program returns `a` in the state `s'` exactly if `P`, and else it fails. -/
structure ReturnsIff (P : Prop) (p : Program ε ω σ α) (s : σ) (a : α) (s' : σ) : Prop where
  returns : P → (p s).result = .ok a ∧ (p s).state = s'
  fails : ¬ P → ∃ e, (p s).result = .error e

namespace ReturnsIff

variable {P Q : Prop} {p : Program ε ω σ α} {f : α → Program ε ω σ β} {s s' s'' : σ} {a : α} {b : β}

theorem pure (a : α) (s : σ) : ReturnsIff True (Pure.pure a : Program ε ω σ α) s a s :=
  ⟨fun _ => ⟨rfl, rfl⟩, fun h => (h trivial).elim⟩

theorem congr (h : ReturnsIff P p s a s') (hPQ : P ↔ Q) : ReturnsIff Q p s a s' :=
  ⟨fun hQ => h.returns (hPQ.mpr hQ), fun hQ => h.fails fun hP => hQ (hPQ.mp hP)⟩

/-- A program that returns. -/
theorem of_run {trace : List ω} (h : p s = ⟨.ok a, trace, s'⟩) : ReturnsIff True p s a s' :=
  ⟨fun _ => by rw [h]; exact ⟨rfl, rfl⟩, fun h => (h trivial).elim⟩

theorem bind (hp : ReturnsIff P p s a s') (hf : P → ReturnsIff Q (f a) s' b s'') :
    ReturnsIff (P ∧ Q) (p >>= f) s b s'' := by
  constructor
  · intro h
    obtain ⟨hresult, hstate⟩ := hp.returns h.1
    obtain ⟨hresult', hstate'⟩ := (hf h.1).returns h.2
    rcases hrun : p s with ⟨result, trace, s₁⟩
    rw [hrun] at hresult hstate
    cases hresult
    cases hstate
    rw [bind_ok hrun]
    exact ⟨hresult', hstate'⟩
  · intro h
    by_cases hP : P
    · obtain ⟨hresult, hstate⟩ := hp.returns hP
      obtain ⟨e, he⟩ := (hf hP).fails fun hQ => h ⟨hP, hQ⟩
      rcases hrun : p s with ⟨result, trace, s₁⟩
      rw [hrun] at hresult hstate
      cases hresult
      cases hstate
      rw [bind_ok hrun]
      exact ⟨e, he⟩
    · obtain ⟨e, he⟩ := hp.fails hP
      rcases hrun : p s with ⟨result, trace, s₁⟩
      rw [hrun] at he
      cases he
      rw [bind_error hrun]
      exact ⟨e, rfl⟩

/-- A program that comes after one which returns. -/
theorem after (hp : ReturnsIff True p s a s') (hf : ReturnsIff Q (f a) s' b s'') :
    ReturnsIff Q (p >>= f) s b s'' :=
  (hp.bind fun _ => hf).congr (and_iff_right trivial)

/-- A value is made of what the program returns. -/
theorem followed (hp : ReturnsIff P p s a s') (b : α → β) :
    ReturnsIff P (p >>= fun a => Pure.pure (b a)) s (b a) s' :=
  (hp.bind fun _ => .pure (b a) s').congr (and_iff_left trivial)

theorem hold {mode : κ} {p : Program ε (Hold κ) σ α} (h : ReturnsIff P p s a s') :
    ReturnsIff P (Program.hold mode p) s a s' := ⟨h.returns, h.fails⟩

/-- On a state of its own. -/
theorem within (h : ReturnsIff P p s a s') (t : τ) :
    ReturnsIff P (Program.within s p) t (a, s') t := by
  refine ⟨fun hP => ?_, fun hP => ?_⟩
  · obtain ⟨hresult, hstate⟩ := h.returns hP
    refine ⟨?_, rfl⟩
    show (p s).result.map _ = _
    rw [hresult, hstate]
    rfl
  · obtain ⟨e, he⟩ := h.fails hP
    refine ⟨e, ?_⟩
    show (p s).result.map _ = _
    rw [he]
    rfl

/-- What is known of a decoder is known of a program that mirrors it. -/
theorem of_mirrors {q : Decoder ε σ α} (h : Mirrors p q) (hok : P → q s = .ok (a, s'))
    (herror : ¬ P → ∃ e, q s = .error e) : ReturnsIff P p s a s' := by
  have hs := h s
  rcases hrun : p s with ⟨e | b, trace, s₁⟩
  · rw [hrun] at hs
    refine ⟨fun hP => ?_, fun _ => ⟨e, by rw [hrun]⟩⟩
    cases hs.trans (hok hP)
  · rw [hrun] at hs
    refine ⟨fun hP => ?_, fun hP => ?_⟩
    · cases hs.trans (hok hP)
      rw [hrun]
      exact ⟨rfl, rfl⟩
    · obtain ⟨e, he⟩ := herror hP
      cases hs.trans he

/-- The program returns in this one way if it does. -/
theorem result_iff (h : ReturnsIff P p s a s') {b : α} :
    (p s).result = .ok b ↔ P ∧ b = a := by
  by_cases hP : P
  · rw [(h.returns hP).1, Except.ok.injEq, and_iff_right hP, eq_comm]
  · obtain ⟨e, he⟩ := h.fails hP
    rw [he]
    exact iff_of_false (fun heq => by cases heq) fun h => hP h.1

/-- A loop: `R` says when a turn returns, as long as `I` holds of what is left of the list and of
the state, and `next` is the state after the turn. -/
theorem forEach {I : List β → σ → Prop} {R : β → Prop} {next : β → σ → σ}
    {p : β → Program ε ω σ Unit}
    (hp : ∀ b bs s, I (b :: bs) s → ReturnsIff (R b) (p b) s () (next b s))
    (hI : ∀ b bs s, I (b :: bs) s → R b → I bs (next b s)) :
    ∀ bs s, I bs s → ReturnsIff (∀ b ∈ bs, R b) (Program.forEach p bs) s ()
      (bs.foldl (fun s b => next b s) s)
  | [], s, _ => (pure () s).congr (iff_of_true trivial nofun)
  | b :: bs, s, h => by
    refine ((hp b bs s h).bind fun hR => forEach hp hI bs _ (hI b bs s h hR)).congr ?_
    rw [List.forall_mem_cons]

end ReturnsIff

end Program
