import Mathlib.Data.List.Basic

/-!
# Machines

A machine is a step function `σ → α → Option σ`: the state after an action, if the action is
possible. An interleaving of several parties is a list of actions; a run takes them one after
the other.

- `Machine.run_invariant`: what every step keeps, every run keeps.
- `Machine.run_invariant_of_each`: the same for the runs whose steps all meet a condition.
- `Machine.length_of_decreasing`: a measure from which each step takes something bounds the run.
-/

namespace Machine

variable {σ α : Type} (step : σ → α → Option σ)

/-- The state after the actions, if each was possible when it was taken. -/
def run : σ → List α → Option σ
  | s, [] => some s
  | s, a :: as => (step s a).bind fun s' => run s' as

/-- Every action of the run is taken in a state in which `P` holds of it. -/
def Each (P : σ → α → Prop) : σ → List α → Prop
  | _, [] => True
  | s, a :: as => P s a ∧ ∀ s', step s a = some s' → Each P s' as

variable {step}

theorem run_cons {s s' : σ} {a : α} {as : List α} (h : run step s (a :: as) = some s') :
    ∃ mid, step s a = some mid ∧ run step mid as = some s' :=
  Option.bind_eq_some_iff.1 h

theorem run_one {s s' : σ} {a : α} (h : step s a = some s') : run step s [a] = some s' := by
  rw [run, h]
  rfl

theorem each_one {P : σ → α → Prop} {s : σ} {a : α} (h : P s a) : Each step P s [a] :=
  ⟨h, fun _ _ => trivial⟩

theorem each_cons {P : σ → α → Prop} {s s' : σ} {a : α} {as : List α}
    (h : step s a = some s') : Each step P s (a :: as) ↔ P s a ∧ Each step P s' as := by
  refine and_congr_right' ⟨fun hall => hall s' h, fun hrest mid hmid => ?_⟩
  rw [h] at hmid
  cases hmid
  exact hrest

theorem each_append {P : σ → α → Prop} {s mid : σ} {as bs : List α}
    (h : run step s as = some mid) :
    Each step P s (as ++ bs) ↔ Each step P s as ∧ Each step P mid bs := by
  induction as generalizing s with
  | nil =>
    cases h
    exact (iff_of_eq (true_and _)).symm
  | cons a as ih =>
    obtain ⟨next, hnext, hrest⟩ := run_cons h
    rw [List.cons_append, each_cons hnext, each_cons hnext, ih hrest, and_assoc]

theorem Each.imp {P Q : σ → α → Prop} (himp : ∀ s a, P s a → Q s a) {s : σ} {as : List α}
    (h : Each step P s as) : Each step Q s as := by
  induction as generalizing s with
  | nil => exact trivial
  | cons a as ih => exact ⟨himp s a h.1, fun s' hs' => ih (h.2 s' hs')⟩

theorem Each.and {P Q : σ → α → Prop} {s : σ} {as : List α} (h : Each step P s as)
    (h' : Each step Q s as) : Each step (fun s a => P s a ∧ Q s a) s as := by
  induction as generalizing s with
  | nil => exact trivial
  | cons a as ih => exact ⟨⟨h.1, h'.1⟩, fun s' hs' => ih (h.2 s' hs') (h'.2 s' hs')⟩

instance decidableEach (P : σ → α → Prop) [∀ s a, Decidable (P s a)] :
    ∀ s as, Decidable (Each step P s as)
  | _, [] => .isTrue trivial
  | s, a :: as =>
    match h : step s a with
    | none => decidable_of_iff (P s a)
        ⟨fun hP => ⟨hP, fun s' hs' => by rw [h] at hs'; cases hs'⟩, fun hall => hall.1⟩
    | some s' =>
      have := decidableEach P s' as
      decidable_of_iff (P s a ∧ Each step P s' as) (each_cons h).symm

/-- Only steps that meet the condition need to keep the invariant. -/
theorem run_invariant_of_each {P : σ → α → Prop} {I : σ → Prop}
    (hstep : ∀ s a s', I s → P s a → step s a = some s' → I s') {s s' : σ} {as : List α}
    (hs : I s) (hP : Each step P s as) (h : run step s as = some s') : I s' := by
  induction as generalizing s with
  | nil =>
    cases h
    exact hs
  | cons a as ih =>
    obtain ⟨mid, hmid, hrest⟩ := run_cons h
    exact ih (hstep s a mid hs hP.1 hmid) (hP.2 mid hmid) hrest

/-- In a run that goes through, no action is left out. -/
theorem Each.mem {P : α → Prop} {s s' : σ} {as : List α} (h : Each step (fun _ => P) s as)
    (hrun : run step s as = some s') {a : α} (ha : a ∈ as) : P a := by
  induction as generalizing s with
  | nil => cases ha
  | cons b as ih =>
    obtain ⟨mid, hmid, hrest⟩ := run_cons hrun
    rcases List.mem_cons.1 ha with rfl | ha
    · exact h.1
    · exact ih (h.2 mid hmid) hrest ha

/-- A condition on the actions alone. -/
theorem each_of_forall {P : α → Prop} {s : σ} {as : List α} (h : ∀ a ∈ as, P a) :
    Each step (fun _ => P) s as := by
  induction as generalizing s with
  | nil => exact trivial
  | cons a as ih =>
    exact ⟨h a List.mem_cons_self, fun s' _ => ih fun b hb => h b (List.mem_cons_of_mem a hb)⟩

theorem each_true (s : σ) (as : List α) : Each step (fun _ _ => True) s as :=
  each_of_forall fun _ _ => trivial

theorem run_invariant {I : σ → Prop} (hstep : ∀ s a s', I s → step s a = some s' → I s')
    {s s' : σ} {as : List α} (hs : I s) (h : run step s as = some s') : I s' :=
  run_invariant_of_each (fun s a s' hI _ => hstep s a s' hI) hs (each_true s as) h

/-- No run is longer than a measure that its steps decrease. -/
theorem length_of_decreasing {P : σ → α → Prop} {measure : σ → Nat}
    (hstep : ∀ s a s', P s a → step s a = some s' → measure s' < measure s) {s s' : σ}
    {as : List α} (hP : Each step P s as) (h : run step s as = some s') :
    as.length + measure s' ≤ measure s := by
  induction as generalizing s with
  | nil =>
    cases h
    exact Nat.le_of_eq (Nat.zero_add _)
  | cons a as ih =>
    obtain ⟨mid, hmid, hrest⟩ := run_cons h
    have hless : measure mid < measure s := hstep s a mid hP.1 hmid
    have hbound : as.length + measure s' ≤ measure mid := ih (hP.2 mid hmid) hrest
    rw [List.length_cons]
    omega

end Machine
