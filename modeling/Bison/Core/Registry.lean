import Bison.Lib.Chase
import Bison.Lib.Decoder
import Bison.Core.Value

/-!
# Class prototypes and the registry

The namespace registry (bison_common.hpp:308) and the functions of `dynamic` that read it
(bison_object.hpp). A registered prototype always holds its class, parent and namespace
as keys: `addClass` writes the last two and refuses a prototype without the first, so
they are fields of `Prototype` here.

The accessors of `dynamic` are `const` but may write: `as<key_t>` materializes a missing
field, `resolveNamespace` caches namespace 0, and `findField` copies an inherited default
into the instance. They therefore live in `DynamicM`, which threads the field map.

A walk along the class chain is bounded by the size of the collection plus one; past
that bound it repeats a class and never returns (`Chase.ends_iff`), which the model
reports as `Exn.diverges`.
-/

namespace Bison

open SortedMap

/-- Computations over the (mutable) field map of one `dynamic`. -/
abbrev DynamicM := Decoder Exn Fields

/-- The key a field holds, if it holds one. -/
def keyAt (d : Fields) (name : Key) : Option Key :=
  match d.lookup name with
  | some (.key k) => some k
  | _ => none

theorem keyAt_eq_some_iff {d : Fields} {name k : Key} :
    keyAt d name = some k ↔ d.lookup name = some (.key k) := by
  unfold keyAt
  constructor
  · intro h
    split at h
    · next k' hk => cases h; exact hk
    · cases h
  · intro h
    rw [h]

/-- Reading a field as a key only depends on the field. -/
theorem keyAt_congr {d d' : Fields} {name : Key} (h : d.lookup name = d'.lookup name) :
    keyAt d name = keyAt d' name := by
  unfold keyAt
  rw [h]

/-! ## The registry -/

/-- A class prototype as the registry holds it. `methods` maps a name to a method of the
prototype itself; `factory` is what calling `factory_` gives, if one is set: an instance,
null, or an exception. -/
structure Prototype (μ : Type) where
  fields : Fields
  methods : List (Key × μ) := []
  factory : Option (Except Exn (Option Fields)) := none
  sorted : Sorted fields := by decide
  hasClass : (keyAt fields CLASS).isSome := by decide
  hasParent : (keyAt fields PARENT).isSome := by decide
  hasNamespace : (keyAt fields NAMESPACE).isSome := by decide
  factorySorted : ∀ d, factory = some (.ok (some d)) → Sorted d := by simp
  factoryThrows : ∀ e, factory = some (.error e) → e.Thrown := by simp

/-- What holds of the factory of a class that has none. -/
theorem Prototype.noFactory_sorted :
    ∀ d, (none : Option (Except Exn (Option Fields))) = some (.ok (some d)) → Sorted d := nofun

theorem Prototype.noFactory_throws :
    ∀ e, (none : Option (Except Exn (Option Fields))) = some (.error e) → e.Thrown := nofun

theorem Prototype.class_isSome {μ : Type} (p : Prototype μ) : (p.fields.lookup CLASS).isSome := by
  obtain ⟨k, hk⟩ := Option.isSome_iff_exists.mp p.hasClass
  rw [keyAt_eq_some_iff.mp hk]
  rfl

theorem Prototype.parent_isSome {μ : Type} (p : Prototype μ) :
    (p.fields.lookup PARENT).isSome := by
  obtain ⟨k, hk⟩ := Option.isSome_iff_exists.mp p.hasParent
  rw [keyAt_eq_some_iff.mp hk]
  rfl

theorem Prototype.namespace_isSome {μ : Type} (p : Prototype μ) :
    (p.fields.lookup NAMESPACE).isSome := by
  obtain ⟨k, hk⟩ := Option.isSome_iff_exists.mp p.hasNamespace
  rw [keyAt_eq_some_iff.mp hk]
  rfl

/-- `as<key_t>(PARENT)` of a registered prototype. -/
def Prototype.parent {μ : Type} (p : Prototype μ) : Key :=
  (keyAt p.fields PARENT).get p.hasParent

/-- `collection`: class name to prototype (bison_common.hpp:300). -/
abbrev Collection (μ : Type) := List (Key × Prototype μ)

/-- `namespace_map`: namespace to collection (bison_common.hpp:312). -/
abbrev Registry (μ : Type) := List (Key × Collection μ)

variable {μ : Type}

/-- `col.find(k)`. -/
def Collection.find (col : Collection μ) (k : Key) : Option (Prototype μ) := col.lookup k

/-- The prototypes from class `k` to its root: the loop
`for (it = col.find(k); it != col.end(); it = col.find(parent))`. -/
def Collection.chain (col : Collection μ) (k : Key) : Option (List (Prototype μ)) :=
  Chase.chain (Collection.find col) Prototype.parent (col.length + 1) k

/-- The same loop with an early exit. -/
def Collection.search {β : Type} (col : Collection μ) (p : Prototype μ → Option β) (k : Key) :
    Option (Option β) :=
  Chase.search (Collection.find col) Prototype.parent p (col.length + 1) k

/-- The same loop stopping at class `name`: the class it ends at. -/
def Collection.seek (col : Collection μ) (name k : Key) : Option Key :=
  Chase.seek (Collection.find col) Prototype.parent name (col.length + 1) k

/-- No class of the collection is its own ancestor. -/
def Collection.Acyclic (col : Collection μ) : Prop :=
  Chase.Acyclic (Collection.find col) Prototype.parent

/-- The parent relation is acyclic in every namespace. -/
def Registry.Acyclic (reg : Registry μ) : Prop :=
  ∀ ns col, reg.lookup ns = some col → Collection.Acyclic col

theorem Collection.mem_keys {col : Collection μ} (k : Key) (p : Prototype μ)
    (h : Collection.find col k = some p) : k ∈ col.map Prod.fst :=
  List.mem_map.mpr ⟨(k, p), mem_of_lookup h, rfl⟩

/-- In an acyclic collection every walk ends. -/
theorem Collection.Acyclic.chain {col : Collection μ} (h : col.Acyclic) (k : Key) :
    ∃ ps, col.chain k = some ps := by
  have := Chase.chain_of_noCycleFrom Collection.mem_keys (h.noCycleFrom k)
  rwa [List.length_map] at this

/-- A collection in which the walk from every registered class ends is acyclic. -/
theorem Collection.acyclic_of_chains {col : Collection μ}
    (h : ∀ k ∈ col.map Prod.fst, (col.chain k).isSome) : col.Acyclic := by
  refine (Chase.acyclic_iff_ends Collection.mem_keys).mpr fun k => ?_
  cases hp : Collection.find col k with
  | none => exact ⟨1, [], Chase.chain_of_none 0 hp⟩
  | some p =>
    obtain ⟨ps, hps⟩ := Option.isSome_iff_exists.mp (h k (Collection.mem_keys k p hp))
    exact ⟨_, ps, hps⟩

/-! ## Accessors of `dynamic` -/

/-- `as<key_t>(name)`: read a key, creating the field as key 0 where it is absent or
empty (bison_object.hpp:1156, 560). -/
def asKey (name : Key) : DynamicM Key := fun d =>
  match d.lookup name with
  | none => .ok (0, insert name (.key 0) d)
  | some .monostate => .ok (0, insert name (.key 0) d)
  | some (.key k) => .ok (k, d)
  | some _ => .error (.runtimeError "Invalid type")

/-- `resolveNamespace` (bison_object.hpp:1830): the namespace field, or global, which is
then written. The write `fields_[NAMESPACE] = key_t{0U}` refuses a field of another type. -/
def resolveNamespace : DynamicM Key := fun d =>
  match d.lookup NAMESPACE with
  | some (.key ns) => .ok (ns, d)
  | none => .ok (0, insert NAMESPACE (.key 0) d)
  | some .monostate => .ok (0, insert NAMESPACE (.key 0) d)
  | some _ => .error (.runtimeError "Invalid type")

/-- `std::map::insert`: an existing binding stays. -/
def insertNew (name : Key) (v : Value) (d : Fields) : Fields :=
  if (d.lookup name).isSome then d else insert name v d

/-- `findField` (bison_object.hpp:1581): the own field, or the default of the nearest class
that declares it, which is then copied into the instance. -/
def findField (reg : Registry μ) (name : Key) : DynamicM (Option Value) := fun d =>
  match d.lookup name with
  | some v => .ok (some v, d)
  | none => do
    let (ns, d) ← resolveNamespace d
    match reg.lookup ns with
    | none => .ok (d.lookup name, d)
    | some col =>
      let (classKey, d) ← asKey CLASS d
      match col.search (fun p => p.fields.lookup name) classKey with
      | none => .error .diverges
      | some none => .ok (d.lookup name, d)
      | some (some inherited) =>
        let d := insertNew name inherited d
        .ok (d.lookup name, d)

/-- `cast_value<key_t>` (bison_object.hpp:674). -/
def castKey : Value → Except Exn Key
  | .key k => .ok k
  | .monostate => .error (.runtimeError "Field is empty")
  | _ => .error (.runtimeError "Incompatible types")

/-- `get_as<key_t>(name)` (bison_object.hpp:1190). -/
def getAsKey (reg : Registry μ) (name : Key) : DynamicM Key := do
  match ← findField reg name with
  | none => return 0
  | some v => Decoder.lift (castKey v)

/-- `get_as` of a field that is there and holds a key. -/
theorem getAsKey_of_keyAt {reg : Registry μ} {d : Fields} {name k : Key}
    (h : keyAt d name = some k) : getAsKey reg name d = .ok (k, d) := by
  have hfind : findField reg name d = .ok (some (.key k), d) := by
    rw [findField, keyAt_eq_some_iff.mp h]
  rw [getAsKey, Decoder.bind_ok hfind]
  rfl

/-- `as<key_t>` of a field that is there and holds a key. -/
theorem asKey_of_keyAt {d : Fields} {name k : Key} (h : keyAt d name = some k) :
    asKey name d = .ok (k, d) := by
  rw [asKey, keyAt_eq_some_iff.mp h]

/-- Resolving the namespace does not touch the class. -/
theorem keyAt_insert_namespace {d : Fields} {k : Key} (v : Value) (h : k ≠ NAMESPACE) :
    keyAt (insert NAMESPACE v d) k = keyAt d k :=
  keyAt_congr (lookup_insert_ne v h d)

/-- `findField(NAMESPACE)` of an object that has no namespace materializes namespace 0,
whatever the class chain holds: every prototype has a NAMESPACE field of its own, so the
walk stops at the first, and the insertion of its value is refused. -/
theorem findField_namespace_none (reg : Registry μ) {d : Fields}
    (h : d.lookup NAMESPACE = none) (hclass : (keyAt d CLASS).isSome) :
    findField reg NAMESPACE d = .ok (some (.key 0), insert NAMESPACE (.key 0) d) := by
  obtain ⟨c, hc⟩ := Option.isSome_iff_exists.mp hclass
  rw [← keyAt_insert_namespace (.key 0) CLASS_ne_NAMESPACE] at hc
  have hresolve : resolveNamespace d = .ok (0, insert NAMESPACE (.key 0) d) := by
    rw [resolveNamespace, h]
  have hns : (insert NAMESPACE (.key 0) d).lookup NAMESPACE = some (.key 0) :=
    lookup_insert_self NAMESPACE (.key 0) d
  generalize insert NAMESPACE (.key 0) d = d' at *
  have hnew : ∀ v, insertNew NAMESPACE v d' = d' := by
    intro v
    rw [insertNew, hns]
    rfl
  rw [findField, h]
  simp only [hresolve, Decoder.ok_bind]
  cases reg.lookup 0 with
  | none => simp only [hns]
  | some col =>
    simp only [asKey_of_keyAt hc, Decoder.ok_bind, Collection.search,
      Chase.search_of_accepting Prototype.namespace_isSome]
    generalize (Collection.find col c).bind (fun p => p.fields.lookup NAMESPACE) = inherited
    cases inherited with
    | none => simp only [hns]
    | some v => simp only [hnew, hns]

/-- `get_as(NAMESPACE)` of an object that has no namespace. -/
theorem getAsKey_namespace_none (reg : Registry μ) {d : Fields}
    (h : d.lookup NAMESPACE = none) (hclass : (keyAt d CLASS).isSome) :
    getAsKey reg NAMESPACE d = .ok (0, insert NAMESPACE (.key 0) d) := by
  rw [getAsKey, Decoder.bind_ok (findField_namespace_none reg h hclass)]
  rfl

/-- `instantiate(ns, klass)` (bison_object.hpp:1413). -/
def instantiate (ns klass : Key) : Fields :=
  let obj : Fields := [(CLASS, .key klass)]
  if ns ≠ 0 then insert NAMESPACE (.key ns) obj else obj

theorem instantiate_sorted (ns klass : Key) : Sorted (instantiate ns klass) := by
  unfold instantiate
  split
  · exact (sorted_singleton _ _).insert _ _
  · exact sorted_singleton _ _

/-- A plain instance holds its class, and its namespace where that is not global. -/
theorem instantiate_keys (ns klass k : Key) (h : ((instantiate ns klass).lookup k).isSome) :
    k = CLASS ∨ k = NAMESPACE := by
  by_contra hne
  obtain ⟨hc, hn⟩ := not_or.mp hne
  have hnone : ([(CLASS, Value.key klass)] : Fields).lookup k = none := by
    rw [lookup_cons_ite, if_neg hc]
    rfl
  unfold instantiate at h
  split at h
  · rw [lookup_insert_ne _ hn, hnone] at h
    cases h
  · rw [hnone] at h
    cases h

/-- `create_instance` (bison_object.hpp:1278): null for an unregistered class. -/
def createInstance (reg : Registry μ) (ns klass : Key) : Except Exn (Option Fields) :=
  match reg.lookup ns with
  | none => .ok none
  | some col =>
    match Collection.find col klass with
    | none => .ok none
    | some p =>
      match p.factory with
      | some made => made
      | none => .ok (some (instantiate ns klass))

end Bison
