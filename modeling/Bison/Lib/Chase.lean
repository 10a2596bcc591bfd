import Mathlib.Data.List.Perm.Subperm
import Mathlib.Logic.Relation

/-!
# Chasing links through a table

A table `find : κ → Option ν` whose entries name a next key, `up : ν → κ`, is walked
by looking a key up and following the entry's link until the key is not found. This
file has the walk and the condition under which it ends.

- `chain`: the entries met on the walk; `none` when the step bound runs out first.
- `search`: the same walk with an early exit at the first entry accepted by a test.
- `seek`: the same walk with an early exit at a given key.
- `Acyclic`: no key reaches itself.
- `Ends`: some bound is enough; a walk that does not end is a loop that never returns.
  `ends_iff`: over a finite table one step more than the table has keys decides it, and
  `acyclic_iff_ends`: a table is acyclic exactly when every walk over it ends.
- `acyclic_of_relinked`: entries that are all made to link to a key which reaches none of
  them add no cycle.
-/

namespace Chase

universe u v w

variable {κ : Type u} {ν : Type v} {β : Type w}

section Walks

variable (find : κ → Option ν) (up : ν → κ)

/-- The entries met from `k`, within `n` lookups. -/
def chain : Nat → κ → Option (List ν)
  | 0, _ => none
  | n + 1, k =>
    match find k with
    | none => some []
    | some v => (chain n (up v)).map (v :: ·)

/-- The first entry met from `k` that `p` accepts, within `n` lookups. -/
def search (p : ν → Option β) : Nat → κ → Option (Option β)
  | 0, _ => none
  | n + 1, k =>
    match find k with
    | none => some none
    | some v =>
      match p v with
      | some b => some (some b)
      | none => search p n (up v)

/-- The key the walk from `k` stops at, within `n` lookups: `target`, or one that is not
found. -/
def seek [DecidableEq κ] (target : κ) : Nat → κ → Option κ
  | 0, _ => none
  | n + 1, k =>
    if k = target then some k
    else
      match find k with
      | none => some k
      | some v => seek target n (up v)

/-- `a` links to `b`. -/
def Step (a b : κ) : Prop := ∃ v, find a = some v ∧ up v = b

/-- No key reaches itself. -/
def Acyclic : Prop := ∀ k, ¬ Relation.TransGen (Step find up) k k

/-- The walk from `k` ends. -/
def Ends (k : κ) : Prop := ∃ n vs, chain find up n k = some vs

end Walks

variable {find : κ → Option ν} {up : ν → κ}

/-! ## Walking -/

theorem chain_of_none {k : κ} (n : Nat) (h : find k = none) :
    chain find up (n + 1) k = some [] := by
  rw [chain, h]

theorem chain_of_some {k : κ} {v : ν} (n : Nat) (h : find k = some v) :
    chain find up (n + 1) k = (chain find up n (up v)).map (v :: ·) := by
  rw [chain, h]

/-- A walk that ended within a bound ends the same way within a larger one. -/
theorem chain_mono : ∀ {n m : Nat} {k : κ} {vs : List ν},
    chain find up n k = some vs → n ≤ m → chain find up m k = some vs
  | n + 1, m + 1, k, vs, h, hle => by
    cases hf : find k with
    | none =>
      rw [chain_of_none _ hf] at h ⊢
      exact h
    | some v =>
      rw [chain_of_some _ hf, Option.map_eq_some_iff] at h
      obtain ⟨ws, hws, rfl⟩ := h
      rw [chain_of_some _ hf, chain_mono hws (Nat.le_of_succ_le_succ hle)]
      rfl

/-- Where the whole walk ends, the walk with an early exit finds the first accepted
entry of it. -/
theorem search_of_chain (p : ν → Option β) : ∀ {n : Nat} {k : κ} {vs : List ν},
    chain find up n k = some vs → search find up p n k = some (vs.findSome? p)
  | n + 1, k, vs, h => by
    cases hf : find k with
    | none =>
      rw [chain_of_none _ hf] at h
      cases h
      rw [search, hf]
      rfl
    | some v =>
      rw [chain_of_some _ hf, Option.map_eq_some_iff] at h
      obtain ⟨ws, hws, rfl⟩ := h
      rw [search, hf]
      cases hp : p v with
      | some b => simp [hp]
      | none => simp [hp, search_of_chain p hws]

/-- What a search finds is at one of the entries. -/
theorem exists_of_search {p : ν → Option β} {b : β} : ∀ {n : Nat} {k : κ},
    search find up p n k = some (some b) → ∃ k' v, find k' = some v ∧ p v = some b
  | 0, _, h => by cases h
  | n + 1, k, h => by
    rw [search] at h
    cases hf : find k with
    | none =>
      rw [hf] at h
      cases h
    | some v =>
      simp only [hf] at h
      cases hp : p v with
      | none =>
        rw [hp] at h
        exact exists_of_search h
      | some b' =>
        rw [hp] at h
        cases h
        exact ⟨k, v, hf, hp⟩

/-- Where every entry is accepted, the search is one lookup. -/
theorem search_of_accepting {p : ν → Option β} (hp : ∀ v, (p v).isSome) (n : Nat) (k : κ) :
    search find up p (n + 1) k = some ((find k).bind p) := by
  rw [search]
  cases find k with
  | none => rfl
  | some v =>
    obtain ⟨b, hb⟩ := Option.isSome_iff_exists.mp (hp v)
    simp [hb]

/-- Where the whole walk ends, the walk to a key does. -/
theorem seek_of_chain [DecidableEq κ] (target : κ) : ∀ {n : Nat} {k : κ} {vs : List ν},
    chain find up n k = some vs → ∃ j, seek find up target n k = some j
  | n + 1, k, vs, h => by
    rw [seek]
    by_cases hk : k = target
    · exact ⟨k, if_pos hk⟩
    · rw [if_neg hk]
      cases hf : find k with
      | none => exact ⟨k, rfl⟩
      | some v =>
        rw [chain_of_some _ hf, Option.map_eq_some_iff] at h
        obtain ⟨ws, hws, -⟩ := h
        exact seek_of_chain target hws

/-- The walk to a key stops at it exactly where it is reached. -/
theorem seek_eq_target_iff [DecidableEq κ] {target : κ} : ∀ {n : Nat} {k j : κ},
    seek find up target n k = some j →
      (j = target ↔ Relation.ReflTransGen (Step find up) k target)
  | n + 1, k, j, h => by
    rw [seek] at h
    by_cases hk : k = target
    · rw [if_pos hk] at h
      cases h
      exact ⟨fun _ => hk ▸ Relation.ReflTransGen.refl, fun _ => hk⟩
    · rw [if_neg hk] at h
      -- past `k` there is at most one step to take
      have hnext : Relation.ReflTransGen (Step find up) k target →
          ∃ v, find k = some v ∧ Relation.ReflTransGen (Step find up) (up v) target := by
        intro hreach
        rcases Relation.ReflTransGen.cases_head hreach with rfl | ⟨_, ⟨v, hv, rfl⟩, hreach⟩
        · exact absurd rfl hk
        · exact ⟨v, hv, hreach⟩
      cases hf : find k with
      | none =>
        rw [hf] at h
        cases h
        constructor
        · exact fun hj => absurd hj hk
        · intro hreach
          obtain ⟨v, hv, -⟩ := hnext hreach
          rw [hf] at hv
          cases hv
      | some v =>
        rw [hf] at h
        rw [seek_eq_target_iff h]
        constructor
        · exact Relation.ReflTransGen.head ⟨v, hf, rfl⟩
        · intro hreach
          obtain ⟨w, hw, hreach⟩ := hnext hreach
          rw [hf] at hw
          cases hw
          exact hreach

/-- Every entry met is an entry of the table. -/
theorem find_of_mem_chain : ∀ {n : Nat} {k : κ} {vs : List ν},
    chain find up n k = some vs → ∀ v ∈ vs, ∃ k', find k' = some v
  | n + 1, k, vs, h, v, hv => by
    cases hf : find k with
    | none =>
      rw [chain_of_none _ hf] at h
      cases h
      cases hv
    | some w =>
      rw [chain_of_some _ hf, Option.map_eq_some_iff] at h
      obtain ⟨ws, hws, rfl⟩ := h
      rcases List.mem_cons.mp hv with rfl | hv
      · exact ⟨k, hf⟩
      · exact find_of_mem_chain hws v hv

/-! ## Termination -/

/-- No key that can be reached from `k` reaches itself. -/
def NoCycleFrom (find : κ → Option ν) (up : ν → κ) (k : κ) : Prop :=
  ∀ b, Relation.ReflTransGen (Step find up) k b → ¬ Relation.TransGen (Step find up) b b

theorem NoCycleFrom.step {k b : κ} (h : NoCycleFrom find up k) (hstep : Step find up k b) :
    NoCycleFrom find up b :=
  fun c hc => h c (Relation.ReflTransGen.head hstep hc)

theorem Acyclic.noCycleFrom (h : Acyclic find up) (k : κ) : NoCycleFrom find up k :=
  fun b _ => h b

/-- The keys already passed are distinct and all reach the current key, so a walk that
meets no cycle runs out of keys. -/
theorem chain_isSome_of_passed [DecidableEq κ] {dom : List κ}
    (hdom : ∀ k v, find k = some v → k ∈ dom) :
    ∀ (n : Nat) (k : κ) (passed : List κ), NoCycleFrom find up k → passed.Nodup →
      passed ⊆ dom → (∀ a ∈ passed, Relation.TransGen (Step find up) a k) →
      dom.length < n + passed.length → ∃ vs, chain find up n k = some vs
  | 0, k, passed, _, hnd, hsub, _, hlen => by
    have := (hnd.subperm hsub).length_le
    omega
  | n + 1, k, passed, hac, hnd, hsub, hreach, hlen => by
    cases hf : find k with
    | none => exact ⟨[], chain_of_none n hf⟩
    | some v =>
      have hstep : Step find up k (up v) := ⟨v, hf, rfl⟩
      have hnew : k ∉ passed := fun hk => hac k Relation.ReflTransGen.refl (hreach k hk)
      have hreach' : ∀ a ∈ k :: passed, Relation.TransGen (Step find up) a (up v) := by
        intro a ha
        rcases List.mem_cons.mp ha with rfl | ha
        · exact Relation.TransGen.single hstep
        · exact (hreach a ha).tail hstep
      obtain ⟨vs, hvs⟩ := chain_isSome_of_passed hdom n (up v) (k :: passed) (hac.step hstep)
        (List.nodup_cons.mpr ⟨hnew, hnd⟩) (List.cons_subset.mpr ⟨hdom k v hf, hsub⟩) hreach'
        (by rw [List.length_cons]; omega)
      exact ⟨v :: vs, by rw [chain_of_some _ hf, hvs]; rfl⟩

/-- **Termination.** A walk that meets no cycle ends within one step more than the table
has keys. -/
theorem chain_of_noCycleFrom [DecidableEq κ] {dom : List κ}
    (hdom : ∀ k v, find k = some v → k ∈ dom) {k : κ} (h : NoCycleFrom find up k) :
    ∃ vs, chain find up (dom.length + 1) k = some vs :=
  chain_isSome_of_passed hdom _ k [] h List.nodup_nil (List.nil_subset _)
    (fun _ hm => nomatch hm) (by simp)

/-- Each step of a walk that ends leaves a strictly shorter walk. -/
theorem chain_step_lt {n : Nat} {a b : κ} {vs : List ν} (h : chain find up n a = some vs)
    (hstep : Step find up a b) : ∃ m ws, chain find up m b = some ws ∧ ws.length < vs.length := by
  obtain ⟨v, hf, rfl⟩ := hstep
  cases n with
  | zero => cases h
  | succ n =>
    rw [chain_of_some _ hf, Option.map_eq_some_iff] at h
    obtain ⟨ws, hws, rfl⟩ := h
    exact ⟨n, ws, hws, by simp⟩

theorem chain_transGen_lt {n : Nat} {a b : κ} {vs : List ν} (h : chain find up n a = some vs)
    (hreach : Relation.TransGen (Step find up) a b) :
    ∃ m ws, chain find up m b = some ws ∧ ws.length < vs.length := by
  induction hreach with
  | single hstep => exact chain_step_lt h hstep
  | tail _ hstep ih =>
    obtain ⟨m, ws, hws, hlt⟩ := ih
    obtain ⟨m', ws', hws', hlt'⟩ := chain_step_lt hws hstep
    exact ⟨m', ws', hws', Nat.lt_trans hlt' hlt⟩

/-- The result of a walk does not depend on the bound it ended within. -/
theorem chain_unique {n m : Nat} {k : κ} {vs ws : List ν} (hv : chain find up n k = some vs)
    (hw : chain find up m k = some ws) : vs = ws := by
  have h1 := chain_mono hv (Nat.le_max_left n m)
  have h2 := chain_mono hw (Nat.le_max_right n m)
  rw [h1] at h2
  exact Option.some.inj h2

theorem Ends.of_reach {k b : κ} (h : Ends find up k)
    (hreach : Relation.ReflTransGen (Step find up) k b) : Ends find up b := by
  induction hreach with
  | refl => exact h
  | tail _ hstep ih =>
    obtain ⟨n, vs, hvs⟩ := ih
    obtain ⟨m, ws, hws, -⟩ := chain_step_lt hvs hstep
    exact ⟨m, ws, hws⟩

/-- A walk that ends meets no cycle. -/
theorem Ends.noCycleFrom {k : κ} (h : Ends find up k) : NoCycleFrom find up k := by
  intro b hb hcyc
  obtain ⟨n, vs, hvs⟩ := h.of_reach hb
  obtain ⟨m, ws, hws, hlt⟩ := chain_transGen_lt hvs hcyc
  rw [chain_unique hvs hws] at hlt
  exact absurd hlt (Nat.lt_irrefl _)

/-- A walk that has not ended after one step more than the table has keys never ends. -/
theorem ends_iff [DecidableEq κ] {dom : List κ} (hdom : ∀ k v, find k = some v → k ∈ dom)
    (k : κ) : Ends find up k ↔ ∃ vs, chain find up (dom.length + 1) k = some vs :=
  ⟨fun h => chain_of_noCycleFrom hdom h.noCycleFrom, fun ⟨vs, hvs⟩ => ⟨_, vs, hvs⟩⟩

/-- Over a finite table, acyclicity and termination of every walk are the same. -/
theorem acyclic_iff_ends [DecidableEq κ] {dom : List κ}
    (hdom : ∀ k v, find k = some v → k ∈ dom) :
    Acyclic find up ↔ ∀ k, Ends find up k := by
  constructor
  · intro hac k
    exact ⟨_, chain_of_noCycleFrom hdom (hac.noCycleFrom k)⟩
  · intro h k
    exact (h k).noCycleFrom k Relation.ReflTransGen.refl

/-! ## Changing links -/

section Relink

variable {r r' : κ → κ → Prop} {changed : κ → Prop} {target : κ}

/-- Where a path leaves the old links it is at a changed key. -/
theorem reflTransGen_of_relinked (hold : ∀ a b, ¬ changed a → r' a b → r a b) {a b : κ}
    (h : Relation.ReflTransGen r' a b) :
    Relation.ReflTransGen r a b ∨ ∃ c, changed c ∧ Relation.ReflTransGen r a c := by
  induction h with
  | refl => exact Or.inl Relation.ReflTransGen.refl
  | @tail b c _ hstep ih =>
    rcases ih with ih | ih
    · by_cases hb : changed b
      · exact Or.inr ⟨b, hb, ih⟩
      · exact Or.inl (ih.tail (hold b c hb hstep))
    · exact Or.inr ih

/-- A path over the new links uses only old ones or passes a changed key, and from there
`target`. -/
theorem transGen_of_relinked (hold : ∀ a b, ¬ changed a → r' a b → r a b)
    (hnew : ∀ a b, changed a → r' a b → b = target) {a b : κ} (h : Relation.TransGen r' a b) :
    Relation.TransGen r a b ∨ ∃ c, changed c ∧ Relation.ReflTransGen r' a c ∧
      Relation.ReflTransGen r' target b := by
  induction h with
  | @single b hstep =>
    by_cases ha : changed a
    · obtain rfl := hnew a b ha hstep
      exact Or.inr ⟨a, ha, Relation.ReflTransGen.refl, Relation.ReflTransGen.refl⟩
    · exact Or.inl (Relation.TransGen.single (hold a b ha hstep))
  | @tail b c hab hstep ih =>
    rcases ih with ih | ⟨d, hd, had, hdb⟩
    · by_cases hb : changed b
      · obtain rfl := hnew b c hb hstep
        exact Or.inr ⟨b, hb, hab.to_reflTransGen, Relation.ReflTransGen.refl⟩
      · exact Or.inl (ih.tail (hold b c hb hstep))
    · exact Or.inr ⟨d, hd, had, hdb.tail hstep⟩

/-- **Relinking.** Where every changed key now links to `target`, and `target` reached no
changed key before, there is no new cycle. -/
theorem acyclic_of_relinked (hold : ∀ a b, ¬ changed a → r' a b → r a b)
    (hnew : ∀ a b, changed a → r' a b → b = target)
    (hreach : ∀ a, changed a → ¬ Relation.ReflTransGen r target a)
    (hac : ∀ k, ¬ Relation.TransGen r k k) (k : κ) : ¬ Relation.TransGen r' k k := by
  intro hcycle
  rcases transGen_of_relinked hold hnew hcycle with h | ⟨c, hc, hkc, htk⟩
  · exact hac k h
  · -- the cycle passes `c`, so `target` reaches `c` over the new links
    rcases reflTransGen_of_relinked hold (htk.trans hkc) with h | ⟨d, hd, h⟩
    · exact hreach c hc h
    · exact hreach d hd h

end Relink

end Chase
