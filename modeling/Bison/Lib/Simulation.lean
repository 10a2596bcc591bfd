import Bison.Lib.Machine

/-!
# Simulation

A machine simulates another one if there is a relation between their states under which each of
its steps is matched by actions of the other. What holds of every run of the other machine then
holds, through the relation, of every run of the first.

- `Machine.Simulates`: every step is matched, by the actions that `image` gives.
- `Machine.Simulates.run`: every run is matched, by the actions of its `trace`.
- `Machine.SimulatesEach.run`: the same for the runs whose steps all meet a condition.
-/

namespace Machine

variable {σ τ α β : Type}

theorem run_append {step : σ → α → Option σ} {s : σ} {as bs : List α} :
    run step s (as ++ bs) = (run step s as).bind fun mid => run step mid bs := by
  induction as generalizing s with
  | nil => rfl
  | cons a as ih =>
    show ((step s a).bind fun s' => run step s' (as ++ bs)) =
      ((step s a).bind fun s' => run step s' as).bind fun mid => run step mid bs
    rw [Option.bind_assoc]
    exact congrArg _ (funext fun s' => ih)

/-- Every step between related states is matched by the actions in its image. -/
def Simulates (step : σ → α → Option σ) (spec : τ → β → Option τ) (image : σ → α → List β)
    (R : σ → τ → Prop) : Prop :=
  ∀ s t a s', R s t → step s a = some s' → ∃ t', run spec t (image s a) = some t' ∧ R s' t'

/-- The images of the actions of a run, one after the other. -/
def trace (step : σ → α → Option σ) (image : σ → α → List β) : σ → List α → List β
  | _, [] => []
  | s, a :: as => image s a ++ (step s a).elim [] fun s' => trace step image s' as

variable {step : σ → α → Option σ} {spec : τ → β → Option τ} {image : σ → α → List β}
  {R : σ → τ → Prop}

theorem mem_trace {s : σ} {as : List α} {b : β} (h : b ∈ trace step image s as) :
    ∃ t, ∃ a ∈ as, b ∈ image t a := by
  induction as generalizing s with
  | nil => cases h
  | cons a as ih =>
    rcases List.mem_append.1 h with hb | hb
    · exact ⟨s, a, List.mem_cons_self, hb⟩
    · cases hstep : step s a with
      | none =>
        rw [hstep] at hb
        cases hb
      | some mid =>
        rw [hstep] at hb
        obtain ⟨t, a', ha', hb'⟩ := ih hb
        exact ⟨t, a', List.mem_cons_of_mem a ha', hb'⟩

/-- **Simulation of runs**, by induction on the run. -/
theorem Simulates.run (h : Simulates step spec image R) {s s' : σ} {t : τ} {as : List α}
    (hR : R s t) (hrun : Machine.run step s as = some s') :
    ∃ t', Machine.run spec t (trace step image s as) = some t' ∧ R s' t' := by
  induction as generalizing s t with
  | nil =>
    cases hrun
    exact ⟨t, rfl, hR⟩
  | cons a as ih =>
    obtain ⟨mid, hmid, hrest⟩ := run_cons hrun
    obtain ⟨u, hu, hRu⟩ := h s t a mid hR hmid
    obtain ⟨t', ht', hR'⟩ := ih hRu hrest
    refine ⟨t', ?_, hR'⟩
    rw [trace, run_append, hu, hmid]
    exact ht'

/-- Every step that meets a condition is matched by actions that meet one of the other machine. -/
def SimulatesEach (step : σ → α → Option σ) (spec : τ → β → Option τ) (image : σ → α → List β)
    (P : σ → α → Prop) (Q : τ → β → Prop) (R : σ → τ → Prop) : Prop :=
  ∀ s t a s', R s t → P s a → step s a = some s' →
    ∃ t', run spec t (image s a) = some t' ∧ Each spec Q t (image s a) ∧ R s' t'

variable {P : σ → α → Prop} {Q : τ → β → Prop}

/-- **Simulation of runs** whose steps meet the condition, by induction on the run. -/
theorem SimulatesEach.run (h : SimulatesEach step spec image P Q R) {s s' : σ} {t : τ}
    {as : List α} (hR : R s t) (hP : Each step P s as) (hrun : Machine.run step s as = some s') :
    ∃ t', Machine.run spec t (trace step image s as) = some t' ∧
      Each spec Q t (trace step image s as) ∧ R s' t' := by
  induction as generalizing s t with
  | nil =>
    cases hrun
    exact ⟨t, rfl, trivial, hR⟩
  | cons a as ih =>
    obtain ⟨mid, hmid, hrest⟩ := run_cons hrun
    obtain ⟨u, hu, hQ, hRu⟩ := h s t a mid hR hP.1 hmid
    obtain ⟨t', ht', hQ', hR'⟩ := ih hRu (hP.2 mid hmid) hrest
    refine ⟨t', ?_, ?_, hR'⟩
    · rw [trace, run_append, hu, hmid]
      exact ht'
    · rw [trace, hmid, each_append hu]
      exact ⟨hQ, hQ'⟩

end Machine
