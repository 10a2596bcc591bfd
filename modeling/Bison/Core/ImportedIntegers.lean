import Bison.Core.YamlImport

/-!
# The integers of a document

`from_json` and `from_yaml` (bison.cpp) turn every integer literal that they import as an integer
into an `int32_t`, without a look at its range.

- `Document`: a text of either kind, and what its library makes of it.
- `imported_integers_iff`: **main result**, what is imported as an integer is the literal that
  stands there if and only if every literal that is imported as an integer fits 32 bits.
-/

namespace Bison

open SortedMap Decoder Doc

variable {μ : Type}

/-! ## What fits -/

theorem fits_toInt (i : Int32) : Fits i.toInt :=
  ⟨i.minValue_le_toInt, i.toInt_le⟩

theorem ofInt_eq_iff (z : Int) : (Int32.ofInt z).toInt = z ↔ Fits z := by
  constructor
  · intro h
    rw [← h]
    exact fits_toInt _
  · rintro ⟨hmin, hmax⟩
    exact Int32.toInt_ofInt_of_le hmin (by omega)

theorem narrowLong_eq_iff (z : Int) : (narrowLong z).toInt = z ↔ Fits z := by
  constructor
  · intro h
    rw [← h]
    exact fits_toInt _
  · intro h
    have hlong : max (min z 0x7FFFFFFFFFFFFFFF) (-0x8000000000000000) = z := by
      obtain ⟨hmin, hmax⟩ := h
      omega
    rw [narrowLong, hlong]
    exact (ofInt_eq_iff z).2 h

/-! ## Both kinds of documents -/

/-- A text of JSON, and what the library makes of it. -/
structure JsonDocument where
  lib : JsonLibrary
  text : List UInt8
  tree : Json
  parses : lib.parse text = .ok tree

/-- A text of YAML, and what the library makes of it. -/
structure YamlDocument where
  lib : YamlLibrary
  text : List UInt8
  roots : List Yaml
  parses : lib.parse text = streamEvents roots

inductive Document where
  | json (document : JsonDocument)
  | yaml (document : YamlDocument)

/-- `from_json` and `from_yaml`. -/
def Document.imported (floats : FloatTexts) (charSigned : Bool) (reg : Registry μ) :
    Document → Except Exn Fields
  | .json document => fromJson charSigned reg document.lib document.text
  | .yaml document => fromYaml floats charSigned reg document.lib document.text

def Document.doc (floats : FloatTexts) (charSigned : Bool) : Document → Doc
  | .json document => document.tree.doc charSigned
  | .yaml document => streamDoc floats charSigned document.roots

theorem fromJson_converts {charSigned : Bool} {reg : Registry μ} (document : JsonDocument)
    {d : Fields} (h : fromJson charSigned reg document.lib document.text = .ok d) :
    Converts Int32.ofInt (document.tree.doc charSigned) (.object d) := by
  unfold fromJson at h
  obtain ⟨tree, hparse, himport⟩ := except_bind_eq_ok h
  rw [document.parses] at hparse
  cases hparse
  cases htree : document.tree with
  | object data =>
    rw [htree] at himport
    exact (fromJsonEntries_fills charSigned reg data himport).object
  | _ =>
    rw [htree] at himport
    cases himport

/-- **Main result**: what has been imported of a document as an integer is the literal that stands
there if and only if every literal that is imported as an integer fits 32 bits. -/
theorem imported_integers_iff (floats : FloatTexts) (charSigned : Bool) (reg : Registry μ)
    (document : Document) (d : Fields) (h : document.imported floats charSigned reg = .ok d) :
    (document.doc floats charSigned).Exact (.object d) ↔
      ∀ z, (document.doc floats charSigned).Narrows z → Fits z := by
  cases document with
  | json document => exact exact_iff ofInt_eq_iff (fromJson_converts document h)
  | yaml document => exact exact_iff narrowLong_eq_iff (fromYaml_converts document.parses h)

namespace SampleDocuments

/-- A document of one number. -/
def number (digits : String) (value : UInt64) : Document :=
  .json {
    lib := {
      dump := fun _ _ => .ok []
      parse := fun _ => .ok (.object [(ascii "a", .unsigned value)]) }
    text := ascii "\x7b\"a\":" ++ ascii digits ++ ascii "\x7d"
    tree := .object [(ascii "a", .unsigned value)]
    parses := rfl }

end SampleDocuments

/-- The greatest integer that fits. -/
theorem imported_integers_greatest :
    Exact (.object [(key "a", .integer 2147483647)]) (.object (insert (key "a") (.int32 2147483647)
      (insert NAMESPACE (.key 0) Dynamic.empty))) := by
  refine (imported_integers_iff SampleYaml.noFloats true ([] : Registry Unit)
    (SampleDocuments.number "2147483647" 2147483647) _ rfl).2 fun z hz => ?_
  have hentry : Narrows (.object [(key "a", .integer 2147483647)]) z := hz
  cases hentry with
  | field hlast hchild =>
    rw [last, last, Option.none_or, Option.ite_none_right_eq_some] at hlast
    cases hlast.2
    cases hchild
    exact ⟨by decide, by decide⟩

/-- An integer that does not fit comes in as another one. -/
theorem imported_integer_wraps : ¬ ∀ (document : Document) (d : Fields),
    document.imported SampleYaml.noFloats true ([] : Registry Unit) = .ok d →
      (document.doc SampleYaml.noFloats true).Exact (.object d) := by
  intro h
  have hexact := h (SampleDocuments.number "3000000000" 3000000000) _ rfl
  have hplace := hexact 3000000000 (.int32 (-1294967296))
    (.field (k := key "a") rfl rfl (.here _ _)) _ rfl
  exact absurd hplace (by decide)

end Bison
