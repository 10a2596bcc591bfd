import Mathlib.Data.List.Basic
import Mathlib.Data.List.Perm.Basic
import Mathlib.Data.List.Sort

/-!
# Sorted association lists

The ordered map of this development: a list of key/value pairs in strictly
ascending key order, with the operations an ordered map needs.

- `insert`: insert or overwrite one binding (`map[k] = v`).
- `insertAll`: overwrite with a whole list of bindings, left to right.
- `Sorted`: the representation invariant; `insert` and `insertAll` keep it.
- `ext`: two sorted maps with the same lookups are the same list, which is what
  turns "every key has the right value" into an equation between maps.

Lookup is core's `List.lookup`. The lemmas `lookup_insert_self` and
`lookup_insert_ne` need no sortedness, so callers that only look things up never
carry the invariant.
-/

namespace SortedMap

universe u v w

variable {α : Type u} {β : Type v} {γ : Type w}

/-- The representation invariant: keys strictly ascend. -/
def Sorted [LT α] (m : List (α × β)) : Prop :=
  m.Pairwise fun a b => a.1 < b.1

theorem sorted_nil [LT α] : Sorted ([] : List (α × β)) :=
  List.Pairwise.nil

theorem sorted_singleton [LT α] (k : α) (v : β) : Sorted [(k, v)] :=
  List.pairwise_singleton _ _

theorem Sorted.tail [LT α] {e : α × β} {m : List (α × β)} (h : Sorted (e :: m)) : Sorted m :=
  List.Pairwise.of_cons h

theorem Sorted.lt_of_mem [LT α] {k : α} {v : β} {m : List (α × β)} (h : Sorted ((k, v) :: m))
    {e : α × β} (he : e ∈ m) : k < e.1 :=
  List.rel_of_pairwise_cons h he

/-- Sortedness only looks at the keys. -/
theorem sorted_iff_keys [LT α] {m : List (α × β)} :
    Sorted m ↔ (m.map Prod.fst).Pairwise (· < ·) :=
  List.pairwise_map.symm

instance [LT α] [DecidableLT α] (m : List (α × β)) : Decidable (Sorted m) :=
  inferInstanceAs (Decidable (m.Pairwise fun a b => a.1 < b.1))

/-- `List.lookup_cons` with a decidable test in place of the match on `==`. -/
theorem lookup_cons_ite [DecidableEq α] (k k' : α) (v' : β) (m : List (α × β)) :
    ((k', v') :: m).lookup k = if k = k' then some v' else m.lookup k := by
  by_cases h : k = k'
  · subst h
    simp
  · have hne : (k == k') = false := by simpa using h
    rw [List.lookup_cons, hne, if_neg h]

/-- A binding that is found is there. -/
theorem mem_of_lookup [DecidableEq α] {k : α} {v : β} :
    ∀ {m : List (α × β)}, m.lookup k = some v → (k, v) ∈ m
  | (k', v') :: rest, h => by
    rw [lookup_cons_ite] at h
    split_ifs at h with hk
    · simp [hk, Option.some.inj h]
    · exact List.mem_cons_of_mem _ (mem_of_lookup h)

/-- Looking up in a list whose values were mapped with a proof about each binding. -/
theorem lookup_pmap [DecidableEq α] {P : α × β → Prop} (f : ∀ e, P e → γ) (k : α) :
    ∀ (m : List (α × β)) (h : ∀ e ∈ m, P e) (c : γ),
      (m.pmap (fun e he => (e.1, f e he)) h).lookup k = some c ↔
        ∃ v, ∃ hv : m.lookup k = some v, f (k, v) (h _ (mem_of_lookup hv)) = c
  | [], _, c => by simp
  | (k', v') :: m, h, c => by
    rw [List.pmap_cons, lookup_cons_ite]
    by_cases hk : k = k'
    · subst hk
      simp
    · rw [if_neg hk, lookup_pmap f k m]
      simp [lookup_cons_ite, hk]

section Insert

variable [LT α] [DecidableLT α] [DecidableEq α]

/-- Insert or overwrite one binding. -/
def insert (k : α) (v : β) : List (α × β) → List (α × β)
  | [] => [(k, v)]
  | (k', v') :: rest =>
    if k < k' then (k, v) :: (k', v') :: rest
    else if k = k' then (k, v) :: rest
    else (k', v') :: insert k v rest

/-- Overwrite `m` with every binding of `es`, left to right. -/
def insertAll (m : List (α × β)) (es : List (α × β)) : List (α × β) :=
  es.foldl (fun acc e => insert e.1 e.2 acc) m

@[simp] theorem insertAll_nil (m : List (α × β)) : insertAll m [] = m := rfl

@[simp] theorem insertAll_cons (m : List (α × β)) (e : α × β) (es : List (α × β)) :
    insertAll m (e :: es) = insertAll (insert e.1 e.2 m) es := rfl

@[simp] theorem lookup_insert_self (k : α) (v : β) :
    ∀ m : List (α × β), (insert k v m).lookup k = some v
  | [] => by simp [insert]
  | (k', v') :: rest => by
    rw [insert]
    split_ifs with hlt heq
    · simp
    · simp
    · rw [lookup_cons_ite, if_neg heq]
      exact lookup_insert_self k v rest

theorem lookup_insert_ne {k k' : α} (v : β) (h : k' ≠ k) :
    ∀ m : List (α × β), (insert k v m).lookup k' = m.lookup k'
  | [] => by simp [insert, h]
  | (k'', v'') :: rest => by
    rw [insert]
    split_ifs with hlt heq
    · rw [lookup_cons_ite, if_neg h]
    · subst heq
      simp only [lookup_cons_ite, if_neg h]
    · rw [lookup_cons_ite, lookup_cons_ite, lookup_insert_ne v h rest]

theorem lookup_insert (k k' : α) (v : β) (m : List (α × β)) :
    (insert k v m).lookup k' = if k' = k then some v else m.lookup k' := by
  by_cases h : k' = k
  · subst h
    simp
  · rw [lookup_insert_ne v h, if_neg h]

/-- The keys of an insertion are the old keys and the inserted one. -/
theorem mem_insert {k : α} {v : β} {e : α × β} :
    ∀ {m : List (α × β)}, e ∈ insert k v m → e = (k, v) ∨ e ∈ m
  | [], h => by simpa [insert] using h
  | (k', v') :: rest, h => by
    rw [insert] at h
    split_ifs at h with hlt heq
    · simpa using h
    · rcases List.mem_cons.mp h with h | h
      · exact Or.inl h
      · exact Or.inr (List.mem_cons_of_mem _ h)
    · rcases List.mem_cons.mp h with h | h
      · exact Or.inr (by simp [h])
      · rcases mem_insert h with h | h
        · exact Or.inl h
        · exact Or.inr (List.mem_cons_of_mem _ h)

/-- Looking a key up after `insertAll`: the last binding of `es` wins. -/
theorem lookup_insertAll (m es : List (α × β)) (k : α) :
    (insertAll m es).lookup k = (es.reverse.lookup k).or (m.lookup k) := by
  induction es generalizing m with
  | nil => simp
  | cons e es ih =>
    obtain ⟨k', v'⟩ := e
    rw [insertAll_cons, ih, lookup_insert, List.reverse_cons, List.lookup_append,
      Option.or_assoc, lookup_cons_ite, List.lookup_nil]
    by_cases h : k = k' <;> simp [h]

/-- A binding after `insertAll` is an old one or one of `es`. -/
theorem mem_insertAll {e : α × β} :
    ∀ {es m : List (α × β)}, e ∈ insertAll m es → e ∈ m ∨ e ∈ es
  | [], _, h => .inl h
  | x :: es, m, h => by
    rw [insertAll_cons] at h
    rcases mem_insertAll h with h | h
    · rcases mem_insert h with rfl | h
      · exact .inr List.mem_cons_self
      · exact .inl h
    · exact .inr (List.mem_cons_of_mem _ h)

/-- Every key of `es` is bound after `insertAll`. -/
theorem exists_mem_insertAll (m : List (α × β)) {es : List (α × β)} {k : α}
    (h : k ∈ es.map Prod.fst) : ∃ v, (k, v) ∈ insertAll m es := by
  obtain ⟨e, he, rfl⟩ := List.mem_map.mp h
  have hlook := lookup_insertAll m es e.1
  cases hes : es.reverse.lookup e.1 with
  | none =>
    rw [List.lookup_eq_none_iff] at hes
    exact absurd rfl (bne_iff_ne.mp (hes e (List.mem_reverse.mpr he)))
  | some v =>
    rw [hes, Option.some_or] at hlook
    exact ⟨v, mem_of_lookup hlook⟩

end Insert

section Order

variable [LE α] [LT α] [Std.IsLinearOrder α] [Std.LawfulOrderLT α]

theorem Sorted.nodup_keys {m : List (α × β)} (h : Sorted m) : (m.map Prod.fst).Nodup := by
  refine (sorted_iff_keys.mp h).imp ?_
  intro a b hab
  grind

variable [DecidableEq α]

/-- No key before the head of a sorted map is bound in it. -/
theorem Sorted.lookup_eq_none {k : α} {v : β} {m : List (α × β)} (h : Sorted ((k, v) :: m)) :
    m.lookup k = none := by
  rw [List.lookup_eq_none_iff]
  rintro ⟨k', v'⟩ he
  have hlt : k < k' := h.lt_of_mem he
  have hne : k ≠ k' := by grind
  simpa using hne

/-- With distinct keys, a binding that is there is the one found. -/
theorem Sorted.lookup_of_mem {k : α} {v : β} :
    ∀ {m : List (α × β)}, Sorted m → (k, v) ∈ m → m.lookup k = some v
  | (k', v') :: rest, h, hmem => by
    rcases List.mem_cons.mp hmem with heq | hmem
    · obtain ⟨rfl, rfl⟩ := Prod.mk.inj heq
      simp
    · have hlt : k' < k := h.lt_of_mem hmem
      have hne : k ≠ k' := by grind
      rw [lookup_cons_ite, if_neg hne]
      exact lookup_of_mem h.tail hmem

theorem Sorted.lookup_iff_mem {k : α} {v : β} {m : List (α × β)} (h : Sorted m) :
    m.lookup k = some v ↔ (k, v) ∈ m :=
  ⟨mem_of_lookup, h.lookup_of_mem⟩

/-- In a sorted map the search order does not matter. -/
theorem Sorted.lookup_reverse {m : List (α × β)} (h : Sorted m) (k : α) :
    m.reverse.lookup k = m.lookup k := by
  induction m with
  | nil => rfl
  | cons e m ih =>
    obtain ⟨k', v'⟩ := e
    rw [List.reverse_cons, List.lookup_append, ih h.tail, lookup_cons_ite, lookup_cons_ite,
      List.lookup_nil]
    by_cases hk : k = k'
    · subst hk
      simp [h.lookup_eq_none]
    · simp [hk]

/-- **Extensionality**: a sorted map is determined by its lookups. -/
theorem ext {m₁ m₂ : List (α × β)} (h₁ : Sorted m₁) (h₂ : Sorted m₂)
    (h : ∀ k, m₁.lookup k = m₂.lookup k) : m₁ = m₂ := by
  have hmem : ∀ e, e ∈ m₁ ↔ e ∈ m₂ := by
    rintro ⟨k, v⟩
    rw [← h₁.lookup_iff_mem, ← h₂.lookup_iff_mem, h k]
  have hnd : ∀ {m : List (α × β)}, Sorted m → m.Nodup := fun hm =>
    List.Nodup.of_map Prod.fst hm.nodup_keys
  have hperm : m₁.Perm m₂ := (List.perm_ext_iff_of_nodup (hnd h₁) (hnd h₂)).mpr hmem
  refine hperm.eq_of_pairwise ?_ h₁ h₂
  intro a b _ _ hab hba
  grind

variable [DecidableLT α]

theorem Sorted.insert {m : List (α × β)} (k : α) (v : β) (h : Sorted m) :
    Sorted (insert k v m) := by
  induction m with
  | nil => exact sorted_singleton k v
  | cons e m ih =>
    obtain ⟨k', v'⟩ := e
    rw [SortedMap.insert]
    split_ifs with hlt heq
    · refine List.Pairwise.cons ?_ h
      intro e he
      rcases List.mem_cons.mp he with rfl | he
      · exact hlt
      · have : k' < e.1 := h.lt_of_mem he
        grind
    · subst heq
      exact List.Pairwise.cons (fun e he => h.lt_of_mem he) h.tail
    · refine List.Pairwise.cons ?_ (ih h.tail)
      intro e he
      rcases mem_insert he with rfl | he
      · show k' < k
        grind
      · exact h.lt_of_mem he

theorem Sorted.insertAll {m : List (α × β)} (h : Sorted m) :
    ∀ es : List (α × β), Sorted (insertAll m es) := by
  intro es
  induction es generalizing m with
  | nil => exact h
  | cons e es ih => exact ih (h.insert e.1 e.2)

/-- Overwriting with a sorted map: its bindings win, the others stay. -/
theorem lookup_insertAll_sorted (m : List (α × β)) {es : List (α × β)} (h : Sorted es) (k : α) :
    (insertAll m es).lookup k = (es.lookup k).or (m.lookup k) := by
  rw [lookup_insertAll, h.lookup_reverse]

/-- Overwriting a map whose keys `es` all binds gives `es`. -/
theorem insertAll_eq_of_keys {m es : List (α × β)} (hm : Sorted m) (h : Sorted es)
    (hsub : ∀ k, (m.lookup k).isSome → (es.lookup k).isSome) : insertAll m es = es := by
  refine ext (hm.insertAll es) h fun k => ?_
  rw [lookup_insertAll_sorted m h]
  cases hes : es.lookup k with
  | some v => rfl
  | none =>
    cases hmk : m.lookup k with
    | none => rfl
    | some v =>
      have := hsub k (by simp [hmk])
      simp [hes] at this

omit [Std.IsLinearOrder α] in
theorem insert_insert (k : α) (v v' : β) :
    ∀ m : List (α × β), SortedMap.insert k v (SortedMap.insert k v' m) = SortedMap.insert k v m
  | [] => by simp [SortedMap.insert, Std.lt_irrefl]
  | (k', v'') :: rest => by
    by_cases hlt : k < k'
    · simp [SortedMap.insert, hlt, Std.lt_irrefl]
    · by_cases heq : k = k'
      · subst heq
        simp [SortedMap.insert, Std.lt_irrefl]
      · simp [SortedMap.insert, hlt, heq, insert_insert k v v' rest]

/-- Inserting a binding that is already there changes nothing. -/
theorem insert_eq_self {m : List (α × β)} (h : Sorted m) {k : α} {v : β}
    (hk : m.lookup k = some v) : SortedMap.insert k v m = m := by
  refine ext (h.insert k v) h fun k' => ?_
  rw [lookup_insert]
  split_ifs with heq
  · rw [heq, hk]
  · rfl

end Order

end SortedMap
