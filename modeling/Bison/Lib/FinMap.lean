import Bison.Lib.SortedMap

/-!
# Finite maps

A sorted association list together with the proof that it is sorted. Two maps with the same
lookups are equal (`ext`), so a map is what its lookups say.

- `insert`, `erase`: one binding written or removed.
- `keys`: the keys that are bound, each once.
-/

universe u v

/-- A finite map from `α` to `β`. -/
structure FinMap (α : Type u) (β : Type v) [LT α] where
  entries : List (α × β)
  sorted : SortedMap.Sorted entries

namespace FinMap

section Operations

variable {α : Type u} {β : Type v} [LT α]

def empty : FinMap α β := ⟨[], SortedMap.sorted_nil⟩

instance : EmptyCollection (FinMap α β) := ⟨empty⟩

def keys (m : FinMap α β) : List α := m.entries.map Prod.fst

variable [DecidableEq α]

def lookup (k : α) (m : FinMap α β) : Option β := m.entries.lookup k

@[simp] theorem lookup_empty (k : α) : (∅ : FinMap α β).lookup k = none := rfl

def erase (k : α) (m : FinMap α β) : FinMap α β :=
  ⟨m.entries.filter fun e => e.1 ≠ k, m.sorted.filter _⟩

/-- The bindings of the keys that `p` lets through. -/
def filter (p : α → Bool) (m : FinMap α β) : FinMap α β :=
  ⟨m.entries.filter fun e => p e.1, m.sorted.filter _⟩

/-- The same keys, bound to other values. -/
def map {γ : Type v} (f : β → γ) (m : FinMap α β) : FinMap α γ :=
  ⟨m.entries.map fun e => (e.1, f e.2), SortedMap.sorted_iff_keys.2 (by
    rw [List.map_map]
    exact SortedMap.sorted_iff_keys.1 m.sorted)⟩

end Operations

variable {α : Type u} {β : Type v} [LE α] [LT α] [Std.IsLinearOrder α] [Std.LawfulOrderLT α]

theorem nodup_keys (m : FinMap α β) : m.keys.Nodup := m.sorted.nodup_keys

variable [DecidableEq α]

@[ext] theorem ext {m m' : FinMap α β} (h : ∀ k, m.lookup k = m'.lookup k) : m = m' := by
  obtain ⟨es, hs⟩ := m
  obtain ⟨es', hs'⟩ := m'
  congr
  exact SortedMap.ext hs hs' h

theorem mem_keys {m : FinMap α β} {k : α} : k ∈ m.keys ↔ (m.lookup k).isSome := by
  rw [keys, lookup, List.mem_map]
  constructor
  · rintro ⟨⟨k', v⟩, hmem, rfl⟩
    rw [m.sorted.lookup_of_mem hmem]
    rfl
  · intro h
    obtain ⟨v, hv⟩ := Option.isSome_iff_exists.1 h
    exact ⟨(k, v), SortedMap.mem_of_lookup hv, rfl⟩

theorem mem_entries {m : FinMap α β} {k : α} {v : β} : (k, v) ∈ m.entries ↔ m.lookup k = some v :=
  m.sorted.lookup_iff_mem.symm

theorem lookup_map {γ : Type v} (f : β → γ) (m : FinMap α β) (k : α) :
    (m.map f).lookup k = (m.lookup k).map f := by
  have hmap (c : γ) : (m.map f).lookup k = some c ↔ (m.lookup k).map f = some c := by
    rw [← mem_entries, Option.map_eq_some_iff, map, List.mem_map]
    constructor
    · rintro ⟨⟨k', v⟩, hmem, heq⟩
      cases heq
      exact ⟨v, mem_entries.1 hmem, rfl⟩
    · rintro ⟨v, hv, rfl⟩
      exact ⟨(k, v), mem_entries.2 hv, rfl⟩
  exact Option.ext hmap

theorem lookup_erase (k k' : α) (m : FinMap α β) :
    (m.erase k).lookup k' = if k' = k then none else m.lookup k' := by
  have herase (v : β) : (m.erase k).lookup k' = some v ↔ k' ≠ k ∧ m.lookup k' = some v := by
    rw [lookup, lookup, (m.erase k).sorted.lookup_iff_mem, m.sorted.lookup_iff_mem, erase,
      List.mem_filter, and_comm]
    simp
  refine Option.ext fun v => ?_
  rw [herase]
  split_ifs with h <;> simp [h]

@[simp] theorem lookup_erase_self (k : α) (m : FinMap α β) : (m.erase k).lookup k = none := by
  rw [lookup_erase, if_pos rfl]

theorem lookup_erase_ne {k k' : α} (h : k' ≠ k) (m : FinMap α β) :
    (m.erase k).lookup k' = m.lookup k' := by
  rw [lookup_erase, if_neg h]

variable [DecidableLT α]

def insert (k : α) (v : β) (m : FinMap α β) : FinMap α β :=
  ⟨SortedMap.insert k v m.entries, m.sorted.insert k v⟩

theorem lookup_insert (k k' : α) (v : β) (m : FinMap α β) :
    (m.insert k v).lookup k' = if k' = k then some v else m.lookup k' :=
  SortedMap.lookup_insert k k' v m.entries

/-- Writing a binding that is there changes nothing. -/
theorem insert_eq_self {m : FinMap α β} {k : α} {v : β} (h : m.lookup k = some v) :
    m.insert k v = m := by
  ext1 k'
  rw [lookup_insert]
  split_ifs with heq
  · rw [heq, h]
  · rfl

theorem insert_insert (k : α) (v v' : β) (m : FinMap α β) :
    (m.insert k v').insert k v = m.insert k v := by
  ext1 k'
  simp only [lookup_insert]
  split_ifs <;> rfl

end FinMap
