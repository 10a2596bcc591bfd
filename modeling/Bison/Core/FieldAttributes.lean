import Bison.Core.EnumFlags
import Bison.Core.Lookup

/-!
# Fields with their attributes

A `field` is a value and attributes. `operator=` keeps the type of a field that holds a value, and
reads a string where an enumeration is attached to a number. Another field is not assigned by it: it
takes the place of the field, with its attributes.

- `Field.assign`: `operator=`, and `assign_keeps`: what it keeps (`Field.Keeps`).
- `Field.keeps_iff_admits`: what a field keeps for which another one is copied.
- `Annotated`: an object by its fields, and the lookups over it; `writeField_values`: but for the
  attributes, they are those of `dynamic`.
- `resolve`: the field a name stands for. `writeField_spec`: what a write changes of it.
-/

namespace Bison

open SortedMap

variable {μ : Type}

/-- What is attached to a field. -/
inductive Attribute where
  | enumFlags (values : FlagTable)
  | enum (values : FlagTable)
  /-- One that no assignment looks at: `Range`, `Step`, `Hidden` and so on. -/
  | other (name : List UInt8)

/-- `Enum::parse` (bison_object.hpp:258). -/
def Enum.parse (values : FlagTable) (s : List UInt8) : Except Exn Int32 :=
  let tok := if EnumFlags.trim s = [] then s else EnumFlags.trim s
  match values.find? (·.1 == tok) with
  | some (_, val) => .ok val
  | none => stoi tok

namespace Annotated

/-- `field` (bison_object.hpp:381). -/
structure Field where
  value : Value
  attributes : List Attribute

namespace Field

/-- `findAttribute<EnumFlags>()`. -/
def enumFlags (f : Field) : Option FlagTable := f.attributes.findSome? fun
  | .enumFlags values => some values
  | _ => none

/-- `findAttribute<Enum>()`. -/
def enum (f : Field) : Option FlagTable := f.attributes.findSome? fun
  | .enum values => some values
  | _ => none

/-- A string is read, and not stored. -/
def CallsForCoercion (f : Field) : Prop :=
  f.value.index = (Value.int32 0).index ∧ (f.enumFlags.isSome ∨ f.enum.isSome)

/-- What is stored for a string that is assigned to a number. -/
def coerce (f : Field) (s : List UInt8) : Except Exn Value :=
  match f.enumFlags with
  | some values => .ok (.int32 (EnumFlags.parse values s))
  | none =>
    match f.enum with
    | some values => (Enum.parse values s).map .int32
    | none => .error (.runtimeError "Invalid type")

/-- `operator=` (bison_object.hpp:473). -/
def assign (f : Field) (v : Value) : Except Exn Field :=
  if f.value.index = 0 ∨ f.value.index = v.index then .ok { f with value := v }
  else
    match v with
    | .string s =>
      if f.value.index = (Value.int32 0).index then
        (f.coerce s).map fun v => { f with value := v }
      else .error (.runtimeError "Invalid type")
    | _ => .error (.runtimeError "Invalid type")

/-- A field that takes the place of `f` has its type, unless `f` is empty, and its attributes; nor
is it a string where one is to be read. -/
structure Keeps (f g : Field) : Prop where
  type : f.value.index ≠ 0 → g.value.index = f.value.index
  attributes : ∀ a ∈ f.attributes, a ∈ g.attributes
  coerces : f.CallsForCoercion → ∀ s, g.value ≠ .string s

/-- A field of the same type, unless `f` is empty, with the attributes of `f`. -/
def Admits (f g : Field) : Prop :=
  (f.value.index = 0 ∨ f.value.index = g.value.index) ∧ ∀ a ∈ f.attributes, a ∈ g.attributes

theorem keeps_refl (f : Field) : f.Keeps f where
  type _ := rfl
  attributes _ h := h
  coerces h s hs := by
    have hindex := h.1
    rw [hs] at hindex
    cases hindex

theorem keeps_iff_admits (f g : Field) : f.Keeps g ↔ f.Admits g := by
  constructor
  · intro h
    refine ⟨?_, h.attributes⟩
    by_cases hempty : f.value.index = 0
    · exact .inl hempty
    · exact .inr (h.type hempty).symm
  · rintro ⟨htype, hattributes⟩
    have htype' : f.value.index ≠ 0 → g.value.index = f.value.index :=
      fun h => (htype.resolve_left h).symm
    refine ⟨htype', hattributes, fun hcoerces s hs => ?_⟩
    have hindex := htype' (by rw [hcoerces.1]; decide)
    rw [hcoerces.1, hs] at hindex
    cases hindex

/-- From field to field, over any number of them. -/
theorem Keeps.trans {f g h : Field} (hfg : f.Keeps g) (hgh : g.Keeps h) : f.Keeps h := by
  rw [keeps_iff_admits] at hfg hgh ⊢
  refine ⟨?_, fun a ha => hgh.2 a (hfg.2 a ha)⟩
  rcases hfg.1 with hempty | hsame
  · exact .inl hempty
  · rw [hsame]
    exact hgh.1

theorem coerce_type {f : Field} {s : List UInt8} {v : Value} (h : f.coerce s = .ok v) :
    ∃ n, v = .int32 n := by
  unfold coerce at h
  split at h
  · cases h
    exact ⟨_, rfl⟩
  · split at h
    · next values _ =>
      cases hparse : Enum.parse values s with
      | error e =>
        rw [hparse] at h
        cases h
      | ok n =>
        rw [hparse] at h
        cases h
        exact ⟨n, rfl⟩
    · cases h

/-- **The contract of `operator=`**: whatever is assigned, the field keeps its type and its
attributes. -/
theorem assign_keeps {f g : Field} {v : Value} (h : f.assign v = .ok g) : f.Keeps g := by
  rw [keeps_iff_admits]
  unfold assign at h
  split at h
  · next htype =>
    cases h
    exact ⟨htype, fun a ha => ha⟩
  · split at h
    · next s _ =>
      split at h
      · next hnumber =>
        -- what a string is read as is a number
        cases hcoerce : f.coerce s with
        | error e =>
          rw [hcoerce] at h
          cases h
        | ok v =>
          rw [hcoerce] at h
          cases h
          obtain ⟨m, rfl⟩ := coerce_type hcoerce
          exact ⟨.inr hnumber, fun a ha => ha⟩
      · cases h
    · cases h

end Field

end Annotated

/-- `fields_` of an object. -/
abbrev Annotated := List (Key × Annotated.Field)

namespace Annotated

/-- The fields without their attributes. -/
def values (o : Annotated) : Fields := o.map fun e => (e.1, e.2.value)

/-- Fields to which nothing is attached. -/
def ofFields (d : Fields) : Annotated := d.map fun e => (e.1, ⟨e.2, []⟩)

/-! ## Lookups -/

section Lookups

/-- `as<key_t>(name)`. -/
def asKey (name : Key) : Decoder Exn Annotated Key := fun o =>
  match o.lookup name with
  | none => .ok (0, insert name ⟨.key 0, []⟩ o)
  | some ⟨.monostate, attributes⟩ => .ok (0, insert name ⟨.key 0, attributes⟩ o)
  | some ⟨.key k, _⟩ => .ok (k, o)
  | some _ => .error (.runtimeError "Invalid type")

/-- `resolveNamespace` reads and writes the namespace in the same way. -/
def resolveNamespace : Decoder Exn Annotated Key := asKey NAMESPACE

variable (reg : Registry μ) (declared : Prototype μ → Key → List Attribute)

def walkStart : Decoder Exn Annotated (Option (Collection μ × Key)) := fun o => do
  let (ns, o) ← resolveNamespace o
  match reg.lookup ns with
  | none => .ok (none, o)
  | some col =>
    let (c, o) ← asKey CLASS o
    .ok (some (col, c), o)

/-- The default that a class declares, with its attributes. -/
def declaredField (name : Key) (p : Prototype μ) : Option Field :=
  (p.fields.lookup name).map fun v => ⟨v, declared p name⟩

/-- `std::map::insert`: an existing binding stays. -/
def insertNew (name : Key) (f : Field) (o : Annotated) : Annotated :=
  if (o.lookup name).isSome then o else insert name f o

/-- `findField` (bison_object.hpp:1581). A default is copied with its attributes. -/
def findField (name : Key) : Decoder Exn Annotated (Option Field) := fun o =>
  match o.lookup name with
  | some f => .ok (some f, o)
  | none => do
    let (start, o) ← walkStart reg o
    match start with
    | none => .ok (o.lookup name, o)
    | some (col, c) =>
      match col.search (declaredField declared name) c with
      | none => .error .diverges
      | some none => .ok (o.lookup name, o)
      | some (some f) => .ok ((insertNew name f o).lookup name, insertNew name f o)

/-- `operator[](key_t)` (bison_object.hpp:1102). -/
def subscript (name : Key) : Decoder Exn Annotated Field := do
  match ← findField reg declared name with
  | some f => return f
  | none => fun o => .ok (⟨.monostate, []⟩, insert name ⟨.monostate, []⟩ o)

/-- `obj[name] = g`: the copy assignment of `field`, which no template is preferred to. -/
def writeField (name : Key) (g : Field) : Decoder Exn Annotated Unit := do
  let _ ← subscript reg declared name
  fun o => .ok ((), insert name g o)

/-- What a lookup that throws leaves of the fields. -/
def afterThrow (o : Annotated) : Annotated :=
  match resolveNamespace o with
  | .ok (_, o) => o
  | .error _ => o

/-- `findMethod` (bison_object.hpp:1687): the method, and the method map. -/
def findMethod (name : Key) (methods : List (Key × μ)) :
    Decoder Exn Annotated (Option μ × List (Key × μ)) := fun o =>
  match methods.lookup name with
  | some m => .ok ((some m, methods), o)
  | none => do
    let (start, o) ← walkStart reg o
    match start with
    | none => .ok ((none, methods), o)
    | some (col, c) =>
      match col.search (fun p => p.methods.lookup name) c with
      | none => .error .diverges
      | some none => .ok ((none, methods), o)
      | some (some m) => .ok ((some m, insert name m methods), o)

end Lookups

/-! ### But for the attributes, they are the lookups of an object -/

section Values

@[simp] theorem lookup_values (o : Annotated) (name : Key) :
    o.values.lookup name = (o.lookup name).map Field.value := by
  induction o with
  | nil => rfl
  | cons e rest ih =>
    obtain ⟨k, f⟩ := e
    show List.lookup name ((k, f.value) :: values rest) = _
    rw [lookup_cons_ite, lookup_cons_ite]
    split
    · rfl
    · exact ih

theorem insert_values (name : Key) (f : Field) (o : Annotated) :
    values (SortedMap.insert name f o) = SortedMap.insert name f.value o.values := by
  induction o with
  | nil => rfl
  | cons e rest ih =>
    obtain ⟨k, g⟩ := e
    show values (SortedMap.insert name f ((k, g) :: rest)) =
      SortedMap.insert name f.value ((k, g.value) :: values rest)
    unfold SortedMap.insert
    split
    · rfl
    · split
      · rfl
      · show (k, g.value) :: values (SortedMap.insert name f rest) = _
        rw [ih]

/-- What is left of a result where attributes are not looked at. -/
def bare {α β : Type} (view : α → β) (r : Except Exn (α × Annotated)) : Except Exn (β × Fields) :=
  r.map fun x => (view x.1, x.2.values)

theorem asKey_values (name : Key) (o : Annotated) :
    bare id (asKey name o) = Bison.asKey name o.values := by
  unfold asKey Bison.asKey
  rw [lookup_values]
  rcases o.lookup name with _ | ⟨v, attributes⟩
  · exact congrArg (fun d => Except.ok (0, d)) (insert_values name _ o)
  · cases v
    case monostate => exact congrArg (fun d => Except.ok (0, d)) (insert_values name _ o)
    all_goals rfl

theorem resolveNamespace_values (o : Annotated) :
    bare id (resolveNamespace o) = Bison.resolveNamespace o.values := by
  rw [resolveNamespace, asKey_values]
  unfold Bison.asKey Bison.resolveNamespace
  rcases o.values.lookup NAMESPACE with _ | v
  · rfl
  · cases v <;> rfl

variable (reg : Registry μ) (declared : Prototype μ → Key → List Attribute)

theorem walkStart_values (o : Annotated) :
    bare id (walkStart reg o) = Bison.walkStart reg o.values := by
  unfold walkStart Bison.walkStart
  rw [← resolveNamespace_values]
  rcases resolveNamespace o with e | ⟨ns, o₁⟩
  · rfl
  · cases hcol : reg.lookup ns with
    | none =>
      simp only [bare, Except.map, Decoder.ok_bind, id_eq, hcol]
    | some col =>
      have hclass := asKey_values CLASS o₁
      rcases hrun : asKey CLASS o₁ with e | ⟨c, o₂⟩
      · rw [hrun] at hclass
        simp only [bare, Except.map, Decoder.ok_bind, id_eq, hcol, hrun, ← hclass]
        rfl
      · rw [hrun] at hclass
        simp only [bare, Except.map, Decoder.ok_bind, id_eq, hcol, hrun, ← hclass]

theorem search_values (col : Collection μ) (name c : Key) :
    (col.search (declaredField declared name) c).map (Option.map Field.value) =
      col.search (fun p => p.fields.lookup name) c := by
  unfold Collection.search
  generalize col.length + 1 = n
  induction n generalizing c with
  | zero => rfl
  | succ n ih =>
    unfold Chase.search
    cases Collection.find col c with
    | none => rfl
    | some p =>
      cases hlookup : p.fields.lookup name with
      | none =>
        have hnone : declaredField declared name p = none := by rw [declaredField, hlookup]; rfl
        simp only [hlookup, hnone]
        exact ih _
      | some v =>
        have hsome : declaredField declared name p = some ⟨v, declared p name⟩ := by
          rw [declaredField, hlookup]
          rfl
        simp only [hlookup, hsome]
        rfl

theorem insertNew_values (name : Key) (f : Field) (o : Annotated) :
    (insertNew name f o).values = Bison.insertNew name f.value o.values := by
  unfold insertNew Bison.insertNew
  rw [lookup_values, Option.isSome_map]
  split
  · rfl
  · exact insert_values name f o

theorem findField_values (name : Key) (o : Annotated) :
    bare (Option.map Field.value) (findField reg declared name o) =
      Bison.findField reg name o.values := by
  unfold findField
  cases hown : o.lookup name with
  | some f =>
    have hvalues : o.values.lookup name = some f.value := by rw [lookup_values, hown]; rfl
    rw [Bison.findField, hvalues]
    rfl
  | none =>
    have hvalues : o.values.lookup name = none := by rw [lookup_values, hown]; rfl
    rw [findField_of_none reg hvalues, ← walkStart_values]
    rcases walkStart reg o with e | ⟨_ | ⟨col, c⟩, o₁⟩
    · rfl
    · simp only [bare, Except.map, Decoder.ok_bind, id_eq, lookup_values]
    · have hsearch := search_values declared col name c
      simp only [bare, Except.map, Decoder.ok_bind, id_eq]
      rw [← hsearch]
      rcases col.search (declaredField declared name) c with _ | _ | f
      · rfl
      · simp only [Option.map_some, Option.map_none, lookup_values]
      · simp only [Option.map_some, ← insertNew_values, lookup_values]

theorem writeField_values (name : Key) (g : Field) (o : Annotated) :
    bare id (writeField reg declared name g o) = Bison.writeField reg name g.value o.values := by
  have hfind := findField_values reg declared name o
  unfold writeField subscript Bison.writeField Bison.subscript
  rw [Decoder.bind_apply, Decoder.bind_apply, Decoder.bind_apply, Decoder.bind_apply, ← hfind]
  rcases findField reg declared name o with e | ⟨_ | f, o₁⟩
  · rfl
  · exact congrArg (fun d => Except.ok ((), d)) ((insert_values name g _).trans
      (congrArg _ (insert_values name _ o₁)))
  · exact congrArg (fun d => Except.ok ((), d)) (insert_values name g o₁)

end Values

/-! ## The field a name stands for -/

section Resolve

variable (reg : Registry μ) (declared : Prototype μ → Key → List Attribute)

/-- What `as<key_t>` reads of a field. -/
def keyOf : Option Field → Option Key
  | none => some 0
  | some ⟨.monostate, _⟩ => some 0
  | some ⟨.key k, _⟩ => some k
  | some _ => none

/-- Where every walk starts, unless it throws. -/
def start (o : Annotated) : Option (Option (Collection μ × Key)) :=
  match keyOf (o.lookup NAMESPACE) with
  | none => none
  | some ns =>
    match reg.lookup ns with
    | none => some none
    | some col => (keyOf (o.lookup CLASS)).map fun c => some (col, c)

/-- The default of the nearest class that declares one. A namespace or a class that a walk looks for
is there by then. -/
def inherited (o : Annotated) (name : Key) : Option Field :=
  match start reg o with
  | none => none
  | some walk =>
    if name = NAMESPACE then some ⟨.key 0, []⟩
    else
      match walk with
      | none => none
      | some (col, c) =>
        if name = CLASS then some ⟨.key 0, []⟩
        else (col.search (declaredField declared name) c).join

/-- The field of that name: the own one, or the default. -/
def resolve (o : Annotated) (name : Key) : Option Field :=
  match o.lookup name with
  | some f => some f
  | none => inherited reg declared o name

/-- Every field keeps its type and its attributes. -/
def Stable (o o' : Annotated) : Prop :=
  ∀ name f, resolve reg declared o name = some f →
    ∃ f', resolve reg declared o' name = some f' ∧ f.Keeps f'

variable {reg declared}

theorem Stable.refl (o : Annotated) : Stable reg declared o o :=
  fun _ f h => ⟨f, h, f.keeps_refl⟩

theorem Stable.trans {o o₁ o₂ : Annotated} (h : Stable reg declared o o₁)
    (h' : Stable reg declared o₁ o₂) : Stable reg declared o o₂ := by
  intro name f hf
  obtain ⟨f₁, hf₁, hkeeps₁⟩ := h name f hf
  obtain ⟨f₂, hf₂, hkeeps₂⟩ := h' name f₁ hf₁
  exact ⟨f₂, hf₂, hkeeps₁.trans hkeeps₂⟩

theorem resolve_own {o : Annotated} {name : Key} {f : Field} (h : o.lookup name = some f) :
    resolve reg declared o name = some f := by
  rw [resolve, h]

theorem resolve_inherited {o : Annotated} {name : Key} (h : o.lookup name = none) :
    resolve reg declared o name = inherited reg declared o name := by
  rw [resolve, h]

theorem inherited_congr {o o' : Annotated} (h : start reg o' = start reg o) (name : Key) :
    inherited reg declared o' name = inherited reg declared o name := by
  unfold inherited
  rw [h]

theorem inherited_namespace {o : Annotated} {f : Field}
    (h : inherited reg declared o NAMESPACE = some f) : f = ⟨.key 0, []⟩ := by
  unfold inherited at h
  cases hstart : start reg o with
  | none =>
    rw [hstart] at h
    cases h
  | some walk =>
    rw [hstart] at h
    cases h
    rfl

theorem inherited_class {o : Annotated} {f : Field}
    (h : inherited reg declared o CLASS = some f) : f = ⟨.key 0, []⟩ := by
  unfold inherited at h
  rcases hstart : start reg o with _ | _ | ⟨col, c⟩
  · rw [hstart] at h
    cases h
  · rw [hstart] at h
    cases h
  · rw [hstart] at h
    cases h
    rfl

/-- A key that is looked for is there, or the field is as before. -/
def Cached (o o' : Annotated) (name : Key) : Prop :=
  match o.lookup name with
  | none => o'.lookup name = none ∨ o'.lookup name = some ⟨.key 0, []⟩
  | some f => ∃ f', o'.lookup name = some f' ∧ f.Keeps f'

/-- What a lookup may do to the class and the namespace. -/
structure Settled (reg : Registry μ) (o o' : Annotated) : Prop where
  start : start reg o' = start reg o
  other : ∀ name, name ≠ CLASS → name ≠ NAMESPACE → o'.lookup name = o.lookup name
  isClass : Cached o o' CLASS
  namespaced : Cached o o' NAMESPACE

theorem Cached.of_eq {o o' : Annotated} {name : Key} (h : o'.lookup name = o.lookup name) :
    Cached o o' name := by
  unfold Cached
  rw [h]
  rcases o.lookup name with _ | f
  · exact .inl rfl
  · exact ⟨f, rfl, f.keeps_refl⟩

theorem Settled.refl (o : Annotated) : Settled reg o o :=
  ⟨rfl, fun _ _ _ => rfl, .of_eq rfl, .of_eq rfl⟩

theorem Settled.resolve {o o' : Annotated} (h : Settled reg o o') {name : Key}
    (hclass : name ≠ CLASS) (hns : name ≠ NAMESPACE) :
    resolve reg declared o' name = Annotated.resolve reg declared o name := by
  unfold Annotated.resolve
  rw [h.other name hclass hns, inherited_congr h.start]

/-- A key that is looked for stands for what it stood for. -/
theorem Settled.cached {o o' : Annotated} (h : Settled reg o o') {name : Key}
    (hcached : Cached o o' name)
    (hkey : ∀ f, inherited reg declared o name = some f → f = ⟨.key 0, []⟩) {f : Field}
    (hf : Annotated.resolve reg declared o name = some f) :
    ∃ f', Annotated.resolve reg declared o' name = some f' ∧ f.Keeps f' := by
  unfold Cached at hcached
  cases hown : o.lookup name with
  | some f₀ =>
    rw [hown] at hcached
    obtain ⟨f', hf', hkeeps⟩ := hcached
    obtain rfl : f₀ = f := Option.some.inj ((resolve_own hown).symm.trans hf)
    exact ⟨f', resolve_own hf', hkeeps⟩
  | none =>
    rw [hown] at hcached
    rw [resolve_inherited hown] at hf
    refine ⟨f, ?_, f.keeps_refl⟩
    rcases hcached with hnone | hsome
    · rw [resolve_inherited hnone, inherited_congr h.start, hf]
    · rw [resolve_own hsome, hkey f hf]

theorem Settled.stable {o o' : Annotated} (h : Settled reg o o') : Stable reg declared o o' := by
  intro name f hf
  by_cases hclass : name = CLASS
  · subst hclass
    exact h.cached h.isClass (fun f => inherited_class) hf
  · by_cases hns : name = NAMESPACE
    · subst hns
      exact h.cached h.namespaced (fun f => inherited_namespace) hf
    · exact ⟨f, (h.resolve hclass hns).trans hf, f.keeps_refl⟩

/-! ### What the lookups do -/

/-- A key that is read is there, with what was attached to it. -/
theorem asKey_spec {name k : Key} {o o' : Annotated} (h : asKey name o = .ok (k, o')) :
    keyOf (o.lookup name) = some k ∧ keyOf (o'.lookup name) = some k ∧ Cached o o' name ∧
      ∀ j, j ≠ name → o'.lookup j = o.lookup j := by
  unfold asKey at h
  unfold Cached
  rcases hown : o.lookup name with _ | ⟨v, attributes⟩
  · rw [hown] at h
    cases h
    refine ⟨rfl, ?_, .inr (lookup_insert_self _ _ _), fun j hj => lookup_insert_ne _ hj _⟩
    rw [lookup_insert_self]
    rfl
  · rw [hown] at h
    cases v
    case monostate =>
      cases h
      refine ⟨rfl, ?_, ⟨_, lookup_insert_self _ _ _, ?_⟩, fun j hj => lookup_insert_ne _ hj _⟩
      · rw [lookup_insert_self]
        rfl
      · exact (Field.keeps_iff_admits _ _).mpr ⟨.inl rfl, fun a ha => ha⟩
    case key k' =>
      cases h
      exact ⟨rfl, by rw [hown]; rfl, ⟨_, hown, Field.keeps_refl _⟩, fun j _ => rfl⟩
    all_goals cases h

theorem asKey_fresh {name k : Key} {o o' : Annotated} (h : asKey name o = .ok (k, o'))
    (hnone : o.lookup name = none) : o'.lookup name = some ⟨.key 0, []⟩ := by
  unfold asKey at h
  rw [hnone] at h
  cases h
  exact lookup_insert_self _ _ _

theorem resolveNamespace_settled {ns : Key} {o o' : Annotated}
    (h : resolveNamespace o = .ok (ns, o')) : Settled reg o o' := by
  obtain ⟨hkey, hkey', hcached, hother⟩ := asKey_spec h
  have hclass : o'.lookup CLASS = o.lookup CLASS := hother CLASS (by decide)
  refine ⟨?_, fun name _ hns => hother name hns, .of_eq hclass, hcached⟩
  rw [start, start, hkey, hkey', hclass]

theorem afterThrow_settled (o : Annotated) : Settled reg o (afterThrow o) := by
  unfold afterThrow
  split
  · next h => exact resolveNamespace_settled h
  · exact .refl o

/-- What a walk starts from, and what it leaves. -/
theorem walkStart_spec {o o' : Annotated} {walk : Option (Collection μ × Key)}
    (h : walkStart reg o = .ok (walk, o')) :
    Settled reg o o' ∧ start reg o = some walk ∧
      (o.lookup NAMESPACE = none → o'.lookup NAMESPACE = some ⟨.key 0, []⟩) ∧
      (o.lookup CLASS = none →
        o'.lookup CLASS = if walk.isSome then some ⟨.key 0, []⟩ else none) := by
  unfold walkStart at h
  rcases hns : resolveNamespace o with e | ⟨ns, o₁⟩
  · rw [hns] at h
    cases h
  · obtain ⟨hkey, hkey₁, hcached, hother⟩ := asKey_spec hns
    have hsettled : Settled reg o o₁ := resolveNamespace_settled hns
    have hclass₁ : o₁.lookup CLASS = o.lookup CLASS := hother CLASS (by decide)
    simp only [hns, Decoder.ok_bind] at h
    cases hcol : reg.lookup ns with
    | none =>
      simp only [hcol] at h
      cases h
      refine ⟨hsettled, ?_, asKey_fresh hns, fun hnone => by rw [hclass₁, hnone]; rfl⟩
      simp only [start, hkey, hcol]
    | some col =>
      rcases hclass : asKey CLASS o₁ with e | ⟨c, o₂⟩
      · simp only [hcol, hclass, Decoder.error_bind] at h
        cases h
      · simp only [hcol, hclass, Decoder.ok_bind] at h
        cases h
        obtain ⟨hckey, hckey₂, hccached, hcother⟩ := asKey_spec hclass
        have hns₂ : o'.lookup NAMESPACE = o₁.lookup NAMESPACE := hcother NAMESPACE (by decide)
        have hstart : start reg o = some (some (col, c)) := by
          simp only [start, hkey, hcol, ← hclass₁, hckey, Option.map_some]
        refine ⟨⟨?_, fun name hc hn => ?_, ?_, ?_⟩, hstart, fun hnone => ?_, fun hnone => ?_⟩
        · rw [hstart]
          simp only [start, hns₂, hkey₁, hcol, hckey₂, Option.map_some]
        · rw [hcother name hc, hother name hn]
        · unfold Cached at hccached ⊢
          rwa [hclass₁] at hccached
        · unfold Cached at hcached ⊢
          rwa [hns₂]
        · rw [hns₂, asKey_fresh hns hnone]
        · exact asKey_fresh hclass (hclass₁.trans hnone)

theorem lookup_insertNew {name : Key} {f : Field} {o : Annotated} :
    (insertNew name f o).lookup name = some ((o.lookup name).getD f) := by
  unfold insertNew
  cases hown : o.lookup name with
  | some f₀ => exact hown
  | none => exact lookup_insert_self _ _ _

/-- The default that a walk comes to, if it comes to an end. -/
def defaultFrom (declared : Prototype μ → Key → List Attribute) (name : Key) :
    Option (Collection μ × Key) → Option (Option Field)
  | none => some none
  | some (col, c) => col.search (declaredField declared name) c

/-- What `findField` does about a field that the object does not have: a default is copied, unless
the walk has put a field of that name there. -/
theorem findField_cases {name : Key} {o o' : Annotated} {r : Option Field}
    (hown : o.lookup name = none) (h : findField reg declared name o = .ok (r, o')) :
    ∃ walk o₁ found, walkStart reg o = .ok (walk, o₁) ∧
      defaultFrom declared name walk = some found ∧ (o' = o₁ ∨ ∃ f, o' = insertNew name f o₁) ∧
      r = (o₁.lookup name).or found := by
  unfold findField at h
  rw [hown] at h
  rcases hwalk : walkStart reg o with e | ⟨_ | ⟨col, c⟩, o₁⟩
  · simp only [hwalk, Decoder.error_bind] at h
    cases h
  · simp only [hwalk, Decoder.ok_bind] at h
    cases h
    exact ⟨_, _, none, rfl, rfl, .inl rfl, Option.or_none.symm⟩
  · simp only [hwalk, Decoder.ok_bind] at h
    rcases hsearch : col.search (declaredField declared name) c with _ | _ | f
    · simp only [hsearch] at h
      cases h
    · simp only [hsearch] at h
      cases h
      exact ⟨_, _, none, rfl, hsearch, .inl rfl, Option.or_none.symm⟩
    · simp only [hsearch, lookup_insertNew] at h
      cases h
      refine ⟨_, _, some f, rfl, hsearch, .inr ⟨f, rfl⟩, ?_⟩
      cases o₁.lookup name with
      | none => rfl
      | some f' => rfl

/-- What `findField` leaves: an inherited field is copied. -/
theorem findField_spec {name : Key} {o o' : Annotated} {r : Option Field}
    (h : findField reg declared name o = .ok (r, o')) :
    ∃ o₁, Settled reg o o₁ ∧ (o' = o₁ ∨ ∃ f, o' = insertNew name f o₁) := by
  cases hown : o.lookup name with
  | some f =>
    unfold findField at h
    rw [hown] at h
    cases h
    exact ⟨_, .refl _, .inl rfl⟩
  | none =>
    obtain ⟨walk, o₁, found, hwalk, -, ho', -⟩ := findField_cases hown h
    exact ⟨o₁, (walkStart_spec hwalk).1, ho'⟩

/-- **`resolve` is what `findField` finds.** -/
theorem findField_resolve {name : Key} {o o' : Annotated} {r : Option Field}
    (h : findField reg declared name o = .ok (r, o')) : r = resolve reg declared o name := by
  cases hown : o.lookup name with
  | some f =>
    unfold findField at h
    rw [hown] at h
    cases h
    exact (resolve_own hown).symm
  | none =>
    obtain ⟨walk, o₁, found, hwalk, hfound, -, rfl⟩ := findField_cases hown h
    obtain ⟨hsettled, hstart, hns, hclass⟩ := walkStart_spec hwalk
    rw [resolve_inherited hown]
    unfold inherited
    simp only [hstart]
    by_cases hn : name = NAMESPACE
    · -- the walk puts a namespace there first
      subst hn
      rw [if_pos rfl, hns hown]
      rfl
    · rw [if_neg hn]
      by_cases hc : name = CLASS
      · -- and a class, if the namespace has classes
        subst hc
        rw [hclass hown]
        rcases walk with _ | ⟨col, c⟩
        · cases hfound
          rfl
        · rfl
      · have hnone : o₁.lookup name = none := (hsettled.other name hc hn).trans hown
        rw [hnone, Option.none_or]
        rcases walk with _ | ⟨col, c⟩
        · cases hfound
          rfl
        · have hsearch : col.search (declaredField declared name) c = some found := hfound
          show found = if name = CLASS then _ else _
          rw [if_neg hc, hsearch]
          rfl

/-- What a write leaves. -/
theorem writeField_spec {name : Key} {g : Field} {o o' : Annotated}
    (h : writeField reg declared name g o = .ok ((), o')) :
    ∃ o₁, Settled reg o o₁ ∧ o' = insert name g o₁ := by
  unfold writeField subscript at h
  rw [Decoder.bind_apply, Decoder.bind_apply] at h
  rcases hfind : findField reg declared name o with e | ⟨r, o₂⟩
  · rw [hfind] at h
    cases h
  · rw [hfind] at h
    obtain ⟨o₁, hsettled, ho₂⟩ := findField_spec hfind
    have hinsert : insert name g o₂ = insert name g o₁ := by
      rcases ho₂ with rfl | ⟨f, rfl⟩
      · rfl
      · unfold insertNew
        split
        · rfl
        · exact insert_insert _ _ _ _
    refine ⟨o₁, hsettled, ?_⟩
    cases r with
    | some f =>
      cases h
      exact hinsert
    | none =>
      cases h
      rw [insert_insert, hinsert]

/-- A write to a field is seen in that field alone. -/
theorem resolve_insert {name : Key} (hclass : name ≠ CLASS) (hns : name ≠ NAMESPACE) (g : Field)
    (o : Annotated) {j : Key} (hj : j ≠ name) :
    resolve reg declared (insert name g o) j = resolve reg declared o j := by
  have hstart : start reg (insert name g o) = start reg o := by
    unfold start
    rw [lookup_insert_ne _ hclass.symm, lookup_insert_ne _ hns.symm]
  unfold resolve
  rw [lookup_insert_ne _ hj, inherited_congr hstart]

/-- **A write keeps the fields stable** if the field that is written admits what is written. -/
theorem writeField_stable {base o o' : Annotated} {name : Key} {g : Field}
    (hstable : Stable reg declared base o) (hclass : name ≠ CLASS) (hns : name ≠ NAMESPACE)
    (hadmits : ∀ f, resolve reg declared base name = some f → f.Admits g)
    (h : writeField reg declared name g o = .ok ((), o')) : Stable reg declared base o' := by
  obtain ⟨o₁, hsettled, rfl⟩ := writeField_spec h
  intro j f hf
  by_cases hj : j = name
  · subst hj
    exact ⟨g, resolve_own (lookup_insert_self _ _ _), (f.keeps_iff_admits g).mpr (hadmits f hf)⟩
  · rw [resolve_insert hclass hns g o₁ hj]
    exact (hstable.trans hsettled.stable) j f hf

/-- What `findMethod` leaves. A method that is found is cached. -/
theorem findMethod_spec {name : Key} {methods methods' : List (Key × μ)} {o o' : Annotated}
    {found : Option μ} (h : findMethod reg name methods o = .ok ((found, methods'), o')) :
    Settled reg o o' ∧ ∀ m, found = some m → methods'.lookup name = some m := by
  unfold findMethod at h
  cases hown : methods.lookup name with
  | some m' =>
    rw [hown] at h
    cases h
    exact ⟨.refl o, fun m hm => hown.trans hm⟩
  | none =>
    rw [hown] at h
    rcases hwalk : walkStart reg o with e | ⟨_ | ⟨col, c⟩, o₁⟩
    · simp only [hwalk, Decoder.error_bind] at h
      cases h
    · simp only [hwalk, Decoder.ok_bind] at h
      cases h
      exact ⟨(walkStart_spec hwalk).1, fun m hm => by cases hm⟩
    · simp only [hwalk, Decoder.ok_bind] at h
      rcases hsearch : col.search (fun p => p.methods.lookup name) c with _ | _ | m'
      · simp only [hsearch] at h
        cases h
      · simp only [hsearch] at h
        cases h
        exact ⟨(walkStart_spec hwalk).1, fun m hm => by cases hm⟩
      · simp only [hsearch] at h
        cases h
        exact ⟨(walkStart_spec hwalk).1, fun m hm => (lookup_insert_self _ _ _).trans hm⟩

end Resolve

end Annotated

end Bison
