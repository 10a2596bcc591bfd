import Bison.Core.Value

/-!
# What an import makes of a document

A document of JSON or YAML is a tree with names and indices. An importer turns each part of it into
a value, and puts it into the field of its name or index; an array of scalars of one kind becomes a
vector.

- `Doc`: a document, as far as its numbers go. `Doc.last`: the entry that a field is left with.
- `Doc.Place`: a part of the document and what has been imported for it. `Doc.Exact`: every integer
  that has been imported is the literal at its place.
- `Doc.Converts`: an import that narrows each integer to 32 bits.
- `Doc.exact_iff`: **main result**, where every integer that does not fit is changed by narrowing
  it, an import is exact if and only if all those that are narrowed fit.
-/

namespace Bison

/-- A document: its decimal integer literals, its other scalars, and what they stand in. -/
inductive Doc where
  | integer (z : Int)
  | real
  | boolean
  | other
  | array (items : List Doc)
  | object (entries : List (Key × Doc))

namespace Doc

def isInteger : Doc → Bool
  | .integer _ => true
  | _ => false

def isNumber : Doc → Bool
  | .integer _ | .real => true
  | _ => false

def isBoolean : Doc → Bool
  | .boolean => true
  | _ => false

/-- The last entry with a key, which is the one that is left. -/
def last : List (Key × Doc) → Key → Option Doc
  | [], _ => none
  | (k, doc) :: rest, name => (last rest name).or (if name = k then some doc else none)

/-- The items of an array under their indices. -/
def indexed : List Doc → Nat → List (Key × Doc)
  | [], _ => []
  | doc :: rest, idx => (UInt32.ofNat idx, doc) :: indexed rest (idx + 1)

/-- An array that becomes a vector: one of booleans, or one of numbers. -/
def IsVector (items : List Doc) : Prop :=
  items ≠ [] ∧ (items.all isBoolean ∨ items.all isNumber)

/-- A part of the document, and the field or element that has been imported for it. -/
inductive Place : Doc → Value → Doc → Value → Prop where
  | here (doc : Doc) (v : Value) : Place doc v doc v
  | field {entries fields k child w doc v} : last entries k = some child →
      fields.lookup k = some w → Place child w doc v →
      Place (.object entries) (.object fields) doc v
  | item {items fields k child w doc v} : last (indexed items 0) k = some child →
      fields.lookup k = some w → Place child w doc v →
      Place (.array items) (.object fields) doc v
  | int32 {items ints child i} (n : Nat) : items[n]? = some child → ints[n]? = some i →
      Place (.array items) (.int32s ints) child (.int32 i)
  | float {items floats child bits} (n : Nat) : items[n]? = some child →
      floats[n]? = some bits → Place (.array items) (.floats floats) child (.float bits)

/-- Every integer that has been imported is the literal at its place. -/
def Exact (doc : Doc) (v : Value) : Prop :=
  ∀ z w, Place doc v (.integer z) w → ∀ i, w = .int32 i → i.toInt = z

/-- A literal that is imported as an integer: one in a field, or in an array of integers only. -/
inductive Narrows : Doc → Int → Prop where
  | here (z : Int) : Narrows (.integer z) z
  | field {entries k child z} : last entries k = some child → Narrows child z →
      Narrows (.object entries) z
  | item {items k child z} : ¬ IsVector items → last (indexed items 0) k = some child →
      Narrows child z → Narrows (.array items) z
  | element {items z} : items.all isInteger → .integer z ∈ items → Narrows (.array items) z

/-- The range of 32 bits. -/
def Fits (z : Int) : Prop := -0x80000000 ≤ z ∧ z ≤ 0x7FFFFFFF

/-- What is neither a number, nor a boolean, nor made of parts. -/
def Inert : Value → Prop
  | .monostate | .key _ | .null | .string _ => True
  | _ => False

/-- An import, with what it does to an integer. -/
inductive Converts (narrow : Int → Int32) : Doc → Value → Prop where
  | integer (z : Int) : Converts narrow (.integer z) (.int32 (narrow z))
  | real (bits : UInt32) : Converts narrow .real (.float bits)
  | boolean (b : Bool) : Converts narrow .boolean (.bool b)
  | other {v} : Inert v → Converts narrow .other v
  | bools {items} (bs : List Bool) : items ≠ [] → items.all isBoolean →
      Converts narrow (.array items) (.bools bs)
  | int32s {zs : List Int} : zs ≠ [] →
      Converts narrow (.array (zs.map .integer)) (.int32s (zs.map narrow))
  | floats {items} (bits : List UInt32) : items.all isNumber → ¬ items.all isInteger →
      Converts narrow (.array items) (.floats bits)
  | items {items fields} : ¬ IsVector items →
      (∀ k child, last (indexed items 0) k = some child → ∃ w, fields.lookup k = some w) →
      (∀ k child w, last (indexed items 0) k = some child → fields.lookup k = some w →
        Converts narrow child w) →
      Converts narrow (.array items) (.object fields)
  | object {entries fields} :
      (∀ k child, last entries k = some child → ∃ w, fields.lookup k = some w) →
      (∀ k child w, last entries k = some child → fields.lookup k = some w →
        Converts narrow child w) →
      Converts narrow (.object entries) (.object fields)

variable {narrow : Int → Int32} {doc : Doc} {v w : Value} {z : Int}

theorem isNumber_of_isInteger (h : doc.isInteger = true) : doc.isNumber = true := by
  cases doc with
  | integer z => rfl
  | _ => cases h

theorem all_isInteger (zs : List Int) : (zs.map integer).all isInteger = true := by
  rw [List.all_map]
  exact List.all_eq_true.2 fun _ _ => rfl

theorem isVector_integers {zs : List Int} (h : zs ≠ []) : IsVector (zs.map integer) := by
  refine ⟨fun hnil => h (List.map_eq_nil_iff.1 hnil), .inr ?_⟩
  rw [List.all_map]
  exact List.all_eq_true.2 fun _ _ => rfl

theorem isVector_numbers {items : List Doc} (h : items.all isNumber = true)
    (hnot : ¬ items.all isInteger = true) : IsVector items := by
  refine ⟨?_, .inr h⟩
  rintro rfl
  exact hnot rfl

/-- An integer that is found at a place has been narrowed there. -/
theorem Place.narrowed (hplace : Place doc v (.integer z) w) (h : Converts narrow doc v)
    {i : Int32} (hi : w = .int32 i) : Narrows doc z ∧ i = narrow z := by
  generalize hdoc : Doc.integer z = literal at hplace
  induction hplace with
  | here =>
    subst hdoc hi
    cases h
    exact ⟨.here z, rfl⟩
  | field hlast hlookup _ ih =>
    cases h with
    | object _ hconverts =>
      obtain ⟨hnarrows, heq⟩ := ih (hconverts _ _ _ hlast hlookup) hi hdoc
      exact ⟨.field hlast hnarrows, heq⟩
  | item hlast hlookup _ ih =>
    cases h with
    | items hvector _ hconverts =>
      obtain ⟨hnarrows, heq⟩ := ih (hconverts _ _ _ hlast hlookup) hi hdoc
      exact ⟨.item hvector hlast hnarrows, heq⟩
  | int32 n hitem hint =>
    subst hdoc
    cases h with
    | int32s hne =>
      obtain ⟨z', hz', heq⟩ := Option.map_eq_some_iff.1 (List.getElem?_map.symm.trans hitem)
      cases heq
      rw [List.getElem?_map, hz'] at hint
      cases hint
      cases hi
      refine ⟨.element (all_isInteger _) ?_, rfl⟩
      exact List.mem_map_of_mem (List.mem_of_getElem? hz')
  | float => cases hi

/-- An integer that is narrowed is found at a place. -/
theorem Narrows.place (hz : Narrows doc z) (h : Converts narrow doc v) :
    Place doc v (.integer z) (.int32 (narrow z)) := by
  induction hz generalizing v with
  | here =>
    cases h
    exact .here _ _
  | field hlast _ ih =>
    cases h with
    | object hfound hconverts =>
      obtain ⟨w, hw⟩ := hfound _ _ hlast
      exact .field hlast hw (ih (hconverts _ _ _ hlast hw))
  | item hvector hlast _ ih =>
    cases h with
    | bools bs hne hall => exact absurd ⟨hne, .inl hall⟩ hvector
    | int32s hne => exact absurd (isVector_integers hne) hvector
    | floats bits hall hnot => exact absurd (isVector_numbers hall hnot) hvector
    | items _ hfound hconverts =>
      obtain ⟨w, hw⟩ := hfound _ _ hlast
      exact .item hlast hw (ih (hconverts _ _ _ hlast hw))
  | element hall hmem =>
    cases h with
    | bools bs hne hbools => exact Bool.noConfusion (List.all_eq_true.1 hbools _ hmem)
    | int32s hne =>
      obtain ⟨n, hn⟩ := List.mem_iff_getElem?.1 hmem
      obtain ⟨z', hz', heq⟩ := Option.map_eq_some_iff.1 (List.getElem?_map.symm.trans hn)
      cases heq
      refine .int32 n hn ?_
      rw [List.getElem?_map, hz']
      rfl
    | floats bits _ hnot => exact absurd hall hnot
    | items hvector _ _ =>
      refine absurd ⟨List.ne_nil_of_mem hmem, .inr ?_⟩ hvector
      refine List.all_eq_true.2 fun item hitem => ?_
      exact isNumber_of_isInteger (List.all_eq_true.1 hall item hitem)

/-- **Main result**: an import is exact if and only if every integer that it narrows fits. -/
theorem exact_iff (hnarrow : ∀ z, (narrow z).toInt = z ↔ Fits z) (h : Converts narrow doc v) :
    Exact doc v ↔ ∀ z, Narrows doc z → Fits z := by
  constructor
  · intro hexact z hz
    exact (hnarrow z).1 (hexact z _ (hz.place h) _ rfl)
  · intro hfits z w hplace i hi
    obtain ⟨hz, rfl⟩ := hplace.narrowed h hi
    exact (hnarrow z).2 (hfits z hz)

end Doc

end Bison
