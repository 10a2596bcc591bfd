import Bison.Core.TextExport

/-!
# YAML documents

`to_yaml` and `from_yaml` (bison.cpp). Between the program and a document stand the events of the
YAML library. A plain scalar has no type, and the importer guesses it from the text; a string is
quoted. The importer takes a scalar for a C string, which ends at the first NUL.

- `emitFieldYaml`, `emitDynamicYaml`: the exporter.
- `yamlScalarToField`, `yamlSequenceToField`, `yamlParseMapping`: the importer.
- `yaml_reimports_iff`: **main result**, an exported tree without classes is imported again exactly
  if no string in it has a NUL, and the lookups of its fields on an object of no class end.
-/

namespace Bison

open SortedMap Decoder

variable {μ : Type}

/-! ## Events -/

inductive ScalarStyle where
  | plain
  | singleQuoted
  | doubleQuoted
  | literal
  | folded
  deriving DecidableEq

/-- `yaml_event_t`. Anchors and tags are not used. -/
inductive YamlEvent where
  | noEvent
  | streamStart
  | streamEnd
  | documentStart
  | documentEnd
  | alias
  | scalar (value : List UInt8) (style : ScalarStyle)
  | sequenceStart
  | sequenceEnd
  | mappingStart
  | mappingEnd
  deriving DecidableEq

/-- The emitter and the parser of the YAML library: the text of events, and the events of a text up
to its end or its first error. -/
structure YamlLibrary where
  emit : List YamlEvent → Except Exn (List UInt8)
  parse : List UInt8 → List YamlEvent

/-- The library gives the events back. -/
def YamlLibrary.ReadsBack (lib : YamlLibrary) (events : List YamlEvent) : Prop :=
  ∃ text, lib.emit events = .ok text ∧ lib.parse text = events

/-- The texts of floating-point numbers in the C library: `<<` with precision 7, and `strtod`, which
gives a `double` and what follows it. -/
structure FloatTexts where
  print : UInt32 → List UInt8
  strtod : List UInt8 → Option (UInt64 × List UInt8)

/-! ## Exporting -/

section Exporting

variable (floats : FloatTexts) (keys : KeyMap)

/-- `format_float_yaml` (bison.cpp:690). -/
def formatFloatYaml (bits : UInt32) : List UInt8 :=
  let s := floats.print bits
  if 46 ∈ s ∨ 101 ∈ s then s else s ++ ascii ".0"

def yamlPlain (s : List UInt8) : YamlEvent := .scalar s .plain

def yamlQuoted (s : List UInt8) : YamlEvent := .scalar s .doubleQuoted

def yamlBool (b : Bool) : List UInt8 := if b then ascii "true" else ascii "false"

/-- `yaml_emit_sequence` (bison.cpp:712). -/
def yamlSequence {α : Type} (fmt : α → List UInt8) (v : List α) : List YamlEvent :=
  .sequenceStart :: (v.map (fun item => yamlPlain (fmt item)) ++ [.sequenceEnd])

mutual

/-- `emit_field_yaml` (bison.cpp:736). -/
def emitFieldYaml : Value → List YamlEvent
  | .monostate => [yamlPlain (ascii "null")]
  | .bool b => [yamlPlain (yamlBool b)]
  | .int32 i => [yamlPlain (signedDecimal i.toInt)]
  | .float bits => [yamlPlain (formatFloatYaml floats bits)]
  | .string s => [yamlQuoted s]
  | .hash h => [yamlPlain (resolveKey keys h)]
  | .key k => [yamlPlain (resolveKey keys k)]
  | .null => [yamlPlain (ascii "null")]
  | .object fields => .mappingStart :: emitEntriesYaml fields
  | .bools v => yamlSequence yamlBool v
  | .int32s v => yamlSequence (fun i : Int32 => signedDecimal i.toInt) v
  | .floats v => yamlSequence (formatFloatYaml floats) v
  | .bytes v => [yamlQuoted (v.flatMap hexByte)]

/-- The rest of `emit_dynamic_yaml` (bison.cpp:785): the fields, and the end of the mapping. -/
def emitEntriesYaml : Fields → List YamlEvent
  | [] => [.mappingEnd]
  | (k, f) :: rest =>
    if isZeroBookkeepingField k f then emitEntriesYaml rest
    else yamlPlain (resolveKey keys k) :: (emitFieldYaml f ++ emitEntriesYaml rest)

end

/-- The events of `to_yaml`. -/
def yamlDocument (d : Fields) : List YamlEvent :=
  .streamStart :: .documentStart ::
    .mappingStart :: (emitEntriesYaml floats keys d ++ [.documentEnd, .streamEnd])

/-- `to_yaml` (bison.cpp:818). -/
def toYaml (lib : YamlLibrary) (d : Fields) : Except Exn (List UInt8) :=
  lib.emit (yamlDocument floats keys d)

end Exporting

/-! ## Importing -/

/-- `yaml_parser_parse`: the next event, if there is one. -/
def nextEvent (failure : String) : Decoder Exn (List YamlEvent) YamlEvent
  | [] => .error (.runtimeError failure)
  | ev :: rest => .ok (ev, rest)

section Importing

variable (floats : FloatTexts) (charSigned : Bool) (reg : Registry μ)

/-- `yaml_scalar_to_field` (bison.cpp:198). -/
def yamlScalarToField (value : List UInt8) (plain : Bool) : Value :=
  let value := cString value
  if plain then
    if value ∈ [ascii "null", ascii "~", ascii ""] then .null
    else if value ∈ [ascii "true", ascii "yes", ascii "on"] then .bool true
    else if value ∈ [ascii "false", ascii "no", ascii "off"] then .bool false
    else
      match strtol value with
      | some (iv, []) => .int32 (Int32.ofInt iv)
      | _ =>
        match floats.strtod value with
        | some (dv, []) => .float (Float.ofBits dv).toFloat32.toBits
        | _ => .string value
  else .string value

/-- `yaml_items_to_indexed_dynamic` (bison.cpp:315), from an index on. -/
def yamlItemsToIndexed : List Value → Nat → Fields → Fields
  | [], _, dyn => dyn
  | item :: rest, idx, dyn => yamlItemsToIndexed rest (idx + 1) (insert (UInt32.ofNat idx) item dyn)

def Value.toBool? : Value → Option Bool
  | .bool b => some b
  | _ => none

def Value.toInt32? : Value → Option Int32
  | .int32 i => some i
  | _ => none

/-- The `float` of a number. -/
def Value.toFloat? : Value → Option UInt32
  | .int32 i => some i.toFloat32.toBits
  | .float bits => some bits
  | _ => none

/-- The classification of `yaml_sequence_to_field` (bison.cpp:357): a vector if all items are of one
of its types. -/
def yamlSequenceToField (items : List Value) : Value :=
  if items.isEmpty then .object (yamlItemsToIndexed items 0 Dynamic.empty)
  else
    match items.mapM Value.toBool? with
    | some v => .bools v
    | none =>
      match items.mapM Value.toInt32? with
      | some v => .int32s v
      | none =>
        match items.mapM Value.toFloat? with
        | some v => .floats v
        | none => .object (yamlItemsToIndexed items 0 Dynamic.empty)

/-- `yaml_parse_value` (bison.cpp:238), given how the rest of a mapping and of a sequence is
read. -/
def yamlParseValue (mapping : Decoder Exn (List YamlEvent) Fields)
    (items : Decoder Exn (List YamlEvent) (List Value)) :
    YamlEvent → Decoder Exn (List YamlEvent) Value
  | .scalar value style => pure (yamlScalarToField floats value (style = .plain))
  | .mappingStart => Value.object <$> mapping
  | .sequenceStart => yamlSequenceToField <$> items
  | _ => pure .monostate

mutual

/-- The loop of `yaml_parse_mapping` (bison.cpp:260); the fuel bounds the number of events. -/
def yamlParseMapping : Nat → Fields → Decoder Exn (List YamlEvent) Fields
  | 0, _ => throw .outOfFuel
  | fuel + 1, dyn => do
    match ← nextEvent "YAML parse error in mapping" with
    | .mappingEnd => return dyn
    | .scalar name _ =>
      let ev ← nextEvent "YAML parse error reading mapping value"
      let v ← yamlParseValue floats (yamlParseMapping fuel Dynamic.empty) (yamlCollectItems fuel) ev
      let (_, dyn) ← Decoder.lift (writeField reg (nameKey charSigned (cString name)) v dyn)
      yamlParseMapping fuel dyn
    | _ => throw (.runtimeError "YAML mapping key must be a scalar")

/-- `yaml_collect_sequence_items` (bison.cpp:294). -/
def yamlCollectItems : Nat → Decoder Exn (List YamlEvent) (List Value)
  | 0 => throw .outOfFuel
  | fuel + 1 => do
    match ← nextEvent "YAML parse error in sequence" with
    | .sequenceEnd => return []
    | ev =>
      let v ← yamlParseValue floats (yamlParseMapping fuel Dynamic.empty) (yamlCollectItems fuel) ev
      let items ← yamlCollectItems fuel
      return v :: items

end

/-- The loop of `from_yaml` (bison.cpp:556). -/
def fromYamlLoop : Nat → Option Fields → Decoder Exn (List YamlEvent) (Option Fields)
  | 0, _ => throw .outOfFuel
  | fuel + 1, result => do
    match ← nextEvent "YAML parse error" with
    | .streamEnd => return result
    | .mappingStart =>
      let dyn ← yamlParseMapping floats charSigned reg fuel Dynamic.empty
      fromYamlLoop fuel (some dyn)
    | .sequenceStart =>
      let items ← yamlCollectItems floats charSigned reg fuel
      fromYamlLoop fuel (some (yamlItemsToIndexed items 0 Dynamic.empty))
    | _ => fromYamlLoop fuel result

/-- `from_yaml`. -/
def fromYaml (lib : YamlLibrary) (text : List UInt8) : Except Exn Fields := do
  let events := lib.parse text
  let (result, _) ← fromYamlLoop floats charSigned reg (events.length + 1) none events
  return result.getD Dynamic.empty

end Importing

/-! ## Scalars -/

/-- A name is hashed up to its first NUL. -/
theorem nameKey_cString (charSigned : Bool) (name : List UInt8) :
    nameKey charSigned (cString name) = nameKey charSigned name := by
  unfold nameKey
  rw [cString_cString]

section Scalars

variable (floats : FloatTexts)

theorem yamlScalar_bool (b : Bool) : yamlScalarToField floats (yamlBool b) true = .bool b := by
  cases b <;> rfl

/-- A printed number is none of the words, and is read back. -/
theorem yamlScalar_int32 (i : Int32) :
    yamlScalarToField floats (signedDecimal i.toInt) true = .int32 i := by
  have hchars := signedDecimal_chars i.toInt
  have hwords : ∀ w ∈ [ascii "null", ascii "~", ascii "", ascii "true", ascii "yes", ascii "on",
      ascii "false", ascii "no", ascii "off"],
      w = [] ∨ ∃ c ∈ w, ¬ (c = 45 ∨ 48 ≤ c ∧ c ≤ 57) := by decide
  have hne : ∀ w ∈ [ascii "null", ascii "~", ascii "", ascii "true", ascii "yes", ascii "on",
      ascii "false", ascii "no", ascii "off"], signedDecimal i.toInt ≠ w := by
    rintro w hw rfl
    rcases hwords _ hw with hnil | ⟨c, hc, hnot⟩
    · exact signedDecimal_ne_nil _ hnil
    · exact hnot (hchars c hc)
  have hself : cString (signedDecimal i.toInt) = signedDecimal i.toInt := by
    rw [cString_eq_self_iff]
    intro hzero
    exact absurd (hchars 0 hzero) (by decide)
  have hnull : signedDecimal i.toInt ∉ [ascii "null", ascii "~", ascii ""] := fun h =>
    hne _ (List.mem_append_left _ h) rfl
  have htrue : signedDecimal i.toInt ∉ [ascii "true", ascii "yes", ascii "on"] := fun h =>
    hne _ (List.mem_append_right [ascii "null", ascii "~", ascii ""]
      (List.mem_append_left [ascii "false", ascii "no", ascii "off"] h)) rfl
  have hfalse : signedDecimal i.toInt ∉ [ascii "false", ascii "no", ascii "off"] := fun h =>
    hne _ (List.mem_append_right [ascii "null", ascii "~", ascii "", ascii "true", ascii "yes",
      ascii "on"] h) rfl
  have hmin : -2147483648 ≤ i.toInt := i.minValue_le_toInt
  have hmax : i.toInt ≤ 2147483647 := i.toInt_le
  have hlong : strtol (signedDecimal i.toInt) = some (i.toInt, []) :=
    strtol_signedDecimal (by omega) (by omega)
  unfold yamlScalarToField
  simp only [hself, if_true, if_neg hnull, if_neg htrue, if_neg hfalse, hlong, Int32.ofInt_toInt]

end Scalars

/-! ## Sequences -/

section Sequences

variable {floats : FloatTexts}

/-- A sequence of plain scalars is collected, to its end. -/
theorem yamlCollectItems_plain (charSigned : Bool) (reg : Registry μ) {α : Type}
    {fmt : α → List UInt8} {g : α → Value}
    (hg : ∀ a, yamlScalarToField floats (fmt a) true = g a) (rest : List YamlEvent) :
    ∀ (v : List α) (fuel : Nat), v.length < fuel →
      yamlCollectItems floats charSigned reg fuel
        (v.map (fun a => yamlPlain (fmt a)) ++ .sequenceEnd :: rest) = .ok (v.map g, rest)
  | [], fuel + 1, _ => rfl
  | a :: v, fuel + 1, h => by
    have ih := yamlCollectItems_plain charSigned reg hg rest v fuel (by
      rw [List.length_cons] at h
      omega)
    rw [List.map_cons, List.map_cons, List.cons_append, yamlCollectItems]
    have hev : nextEvent "YAML parse error in sequence" (yamlPlain (fmt a) ::
        (v.map (fun a => yamlPlain (fmt a)) ++ .sequenceEnd :: rest)) =
        .ok (yamlPlain (fmt a), v.map (fun a => yamlPlain (fmt a)) ++ .sequenceEnd :: rest) := rfl
    rw [bind_ok hev]
    have hvalue : ∀ mapping items s, yamlParseValue floats mapping items (yamlPlain (fmt a)) s =
        .ok (g a, s) := by
      intro mapping items s
      rw [← hg a]
      rfl
    show (yamlParseValue floats _ _ (yamlPlain (fmt a)) >>= _) _ = _
    rw [bind_ok (hvalue _ _ _), bind_ok ih]
    rfl

theorem mapM_map {α : Type} {f : Value → Option α} {g : α → Value} (h : ∀ a, f (g a) = some a)
    (v : List α) : (v.map g).mapM f = some v := by
  induction v with
  | nil => rfl
  | cons a v ih =>
    rw [List.map_cons, List.mapM_cons, h, ih]
    rfl

theorem yamlSequenceToField_bools {v : List Bool} (hv : v ≠ []) :
    yamlSequenceToField (v.map Value.bool) = .bools v := by
  unfold yamlSequenceToField
  rw [if_neg (by simpa using hv), mapM_map (f := Value.toBool?) (g := Value.bool) (fun _ => rfl)]

theorem yamlSequenceToField_int32s {v : List Int32} (hv : v ≠ []) :
    yamlSequenceToField (v.map Value.int32) = .int32s v := by
  have hnone : (v.map Value.int32).mapM Value.toBool? = none := by
    obtain ⟨i, rest, rfl⟩ := List.exists_cons_of_ne_nil hv
    rw [List.map_cons, List.mapM_cons]
    rfl
  unfold yamlSequenceToField
  rw [if_neg (by simpa using hv), hnone, mapM_map (f := Value.toInt32?) (g := Value.int32)
    (fun _ => rfl)]

end Sequences

/-! ## Strings up to their first NUL -/

mutual

/-- The value with every string cut at its first NUL. -/
def Value.cut : Value → Value
  | .string s => .string (cString s)
  | .object fields => .object (cutFields fields)
  | v => v

def cutFields : Fields → Fields
  | [] => []
  | (k, v) :: rest => (k, v.cut) :: cutFields rest

end

/-- The field is no string with a NUL. -/
def NoNul (_ : Key) (v : Value) : Prop :=
  match v with
  | .string s => 0 ∉ s
  | _ => True

theorem cutFields_eq (d : Fields) : cutFields d = d.map fun e => (e.1, e.2.cut) := by
  induction d with
  | nil => rfl
  | cons e rest ih => rw [cutFields, ih, List.map_cons]

theorem isZeroBookkeepingField_cut (k : Key) (v : Value) :
    isZeroBookkeepingField k v.cut = isZeroBookkeepingField k v := by
  cases v <;> simp [Value.cut, isZeroBookkeepingField]

theorem cutFields_sorted {d : Fields} (h : Sorted d) : Sorted (cutFields d) := by
  rw [sorted_iff_keys, cutFields_eq, List.map_map]
  exact sorted_iff_keys.mp h

mutual

/-- Cutting changes a value exactly if there is a string with a NUL in it. -/
theorem cut_significant_iff : ∀ (v : Value) (k : Key),
    v.cut.significant = v.significant ↔ NoNul k v ∧ v.Each NoNul
  | .string s, _ => by
    simp only [Value.cut, Value.significant, Value.string.injEq, NoNul, Value.Each, and_true]
    exact cString_eq_self_iff
  | .object fields, _ => by
    simp only [Value.cut, Value.significant, Value.object.injEq, NoNul, Value.Each, true_and]
    exact cutFields_significant_iff fields
  | .monostate, _ | .hash _, _ | .key _, _ | .bool _, _ | .int32 _, _ | .float _, _ | .null, _
  | .bools _, _ | .int32s _, _ | .floats _, _ | .bytes _, _ => by
    simp only [Value.cut, NoNul, Value.Each, and_true]

theorem cutFields_significant_iff : ∀ d : Fields,
    significantFields (cutFields d) = significantFields d ↔ fieldsEach NoNul d
  | [] => by simp [cutFields, fieldsEach]
  | (k, v) :: rest => by
    have ih := cutFields_significant_iff rest
    have hv := cut_significant_iff v k
    rw [cutFields, significantFields, significantFields, isZeroBookkeepingField_cut, fieldsEach]
    cases hzero : isZeroBookkeepingField k v with
    | true =>
      have hkey : v.Each NoNul := by
        rw [(isZeroBookkeepingField_iff.mp hzero).2]
        trivial
      rw [if_pos rfl, if_pos rfl, ih]
      exact ⟨fun h => ⟨⟨nofun, hkey⟩, h⟩, fun h => h.2⟩
    | false =>
      rw [if_neg Bool.false_ne_true, if_neg Bool.false_ne_true, List.cons.injEq, ih,
        Prod.mk.injEq, hv]
      constructor
      · rintro ⟨⟨-, hnul, heach⟩, hrest⟩
        exact ⟨⟨fun _ => hnul, heach⟩, hrest⟩
      · rintro ⟨⟨hnul, heach⟩, hrest⟩
        exact ⟨⟨rfl, hnul rfl, heach⟩, hrest⟩

end

/-! ## Values and fields -/

/-- Objects of no class have a default for the field or none: the walk for it ends. -/
def DefaultFound (reg : Registry μ) (k : Key) (_ : Value) : Prop :=
  ∃ dflt, classDefault reg 0 k = .ok dflt

/-- The emitted value is parsed again, up to its strings' first NULs, where the lookups of its
fields end, and only there. -/
structure Reparses (floats : FloatTexts) (charSigned : Bool) (reg : Registry μ) (keys : KeyMap)
    (v : Value) : Prop where
  complete : v.Each (DefaultFound reg) → ∀ fuel ev tail rest,
    emitFieldYaml floats keys v = ev :: tail → tail.length ≤ fuel →
    ∃ w, yamlParseValue floats (yamlParseMapping floats charSigned reg fuel Dynamic.empty)
        (yamlCollectItems floats charSigned reg fuel) ev (tail ++ rest) = .ok (w, rest) ∧
      w.significant = v.cut.significant
  sound : ∀ fuel ev tail rest r,
    emitFieldYaml floats keys v = ev :: tail → tail.length ≤ fuel →
    yamlParseValue floats (yamlParseMapping floats charSigned reg fuel Dynamic.empty)
      (yamlCollectItems floats charSigned reg fuel) ev (tail ++ rest) = .ok r →
    v.Each (DefaultFound reg)

/-- An emitted field whose value is known to be parsed again. -/
structure Emitted (floats : FloatTexts) (charSigned : Bool) (reg : Registry μ) (keys : KeyMap)
    (e : Key × Value) : Prop where
  named : HasName charSigned keys e.1
  anonymous : Anonymous e.1 e.2
  reparses : Reparses floats charSigned reg keys e.2

section Values

variable {floats : FloatTexts} {charSigned : Bool} {reg : Registry μ} {keys : KeyMap}

/-- A value without fields, of which one thing is parsed. -/
theorem Reparses.of_eq {v : Value} (heach : v.Each (DefaultFound reg))
    (h : ∀ fuel ev tail rest, emitFieldYaml floats keys v = ev :: tail → tail.length ≤ fuel →
      yamlParseValue floats (yamlParseMapping floats charSigned reg fuel Dynamic.empty)
        (yamlCollectItems floats charSigned reg fuel) ev (tail ++ rest) =
        .ok (v.cut, rest)) : Reparses floats charSigned reg keys v where
  complete _ fuel ev tail rest hemit hfuel := ⟨v.cut, h fuel ev tail rest hemit hfuel, rfl⟩
  sound _ _ _ _ _ _ _ _ := heach

/-- One scalar that is read as the value. -/
theorem Reparses.of_scalar {v : Value} {text : List UInt8} {style : ScalarStyle}
    (heach : v.Each (DefaultFound reg)) (hemit : emitFieldYaml floats keys v = [.scalar text style])
    (hread : yamlScalarToField floats text (style = .plain) = v.cut) :
    Reparses floats charSigned reg keys v := by
  refine .of_eq heach fun fuel ev tail rest h _ => ?_
  rw [hemit] at h
  cases h
  rw [← hread]
  rfl

/-- A sequence of plain scalars that is read as the value. -/
theorem Reparses.of_sequence {α : Type} {v : Value} {items : List α} {fmt : α → List UInt8}
    {g : α → Value} (heach : v.Each (DefaultFound reg))
    (hemit : emitFieldYaml floats keys v = yamlSequence fmt items)
    (hg : ∀ a, yamlScalarToField floats (fmt a) true = g a)
    (hread : yamlSequenceToField (items.map g) = v.cut) :
    Reparses floats charSigned reg keys v := by
  refine .of_eq heach fun fuel ev tail rest h hfuel => ?_
  rw [hemit] at h
  cases h
  simp only [List.length_append, List.length_map, List.length_singleton] at hfuel
  have hitems := yamlCollectItems_plain charSigned reg hg rest items fuel (by omega)
  rw [List.append_assoc, List.singleton_append]
  show (yamlSequenceToField <$> yamlCollectItems floats charSigned reg fuel) _ = _
  rw [map_apply, hitems, ← hread]
  rfl

/-- One field: it is put into the object where the lookup for it ends, and only there. -/
theorem writeField_iff {d : Fields} (h : InstanceOf 0 d) {k : Key} {x : Value}
    (hk : Anonymous k x) (hown : d.lookup k = none) (v : Value) :
    ((∃ d', writeField reg k v d = .ok ((), d')) ↔ DefaultFound reg k x) ∧
    ∀ d', writeField reg k v d = .ok ((), d') → Put k v d d' := by
  cases hdflt : classDefault reg 0 k with
  | error e =>
    have hthrows : writeField reg k v d = .error e := by
      rw [writeField, bind_error (h.subscript_error hdflt hk.2 hown)]
    refine ⟨⟨?_, ?_⟩, ?_⟩
    · rintro ⟨d', hw⟩
      rw [hthrows] at hw
      cases hw
    · rintro ⟨dflt, hfound⟩
      rw [hdflt] at hfound
      cases hfound
    · intro d' hw
      rw [hthrows] at hw
      cases hw
  | ok dflt =>
    obtain ⟨d', hwrite, hinst, hset, hkept⟩ := h.writeField hdflt hk.1 (v := v)
      fun hns => absurd hns hk.2
    refine ⟨⟨fun _ => ⟨dflt, hdflt⟩, fun _ => ⟨d', hwrite⟩⟩, fun d'' hw => ?_⟩
    rw [hwrite] at hw
    cases hw
    exact ⟨hinst, hset, hkept⟩

end Values

/-! ## The entries of a mapping -/

/-- What is emitted for fields, and the end of their mapping. -/
def mappingEvents (floats : FloatTexts) (keys : KeyMap) (ps : Fields) : List YamlEvent :=
  ps.flatMap (fun e => yamlPlain (resolveKey keys e.1) :: emitFieldYaml floats keys e.2) ++
    [.mappingEnd]

theorem emitEntriesYaml_eq (floats : FloatTexts) (keys : KeyMap) (d : Fields) :
    emitEntriesYaml floats keys d = mappingEvents floats keys (exportedFields d) := by
  induction d with
  | nil => rfl
  | cons e rest ih =>
    obtain ⟨k, f⟩ := e
    rw [emitEntriesYaml, ih]
    unfold exportedFields
    cases hzero : isZeroBookkeepingField k f with
    | true => rw [List.filter_cons_of_neg (by simp [hzero]), if_pos rfl]
    | false =>
      rw [List.filter_cons_of_pos (by simp [hzero]), if_neg Bool.false_ne_true, mappingEvents,
        mappingEvents, List.flatMap_cons, List.cons_append, List.cons_append, List.append_assoc]

theorem emitFieldYaml_cons (floats : FloatTexts) (keys : KeyMap) (v : Value) :
    ∃ ev tail, emitFieldYaml floats keys v = ev :: tail := by
  cases v <;> simp [emitFieldYaml, yamlSequence]

section Mappings

variable {floats : FloatTexts} {charSigned : Bool} {reg : Registry μ} {keys : KeyMap}

/-- One turn of the loop. -/
theorem yamlParseMapping_entry (fuel : Nat) {d : Fields} {k : Key} (hk : HasName charSigned keys k)
    {ev : YamlEvent} {tail : List YamlEvent} :
    yamlParseMapping floats charSigned reg (fuel + 1) d
        (yamlPlain (resolveKey keys k) :: ev :: tail) =
      (do
        let v ← yamlParseValue floats (yamlParseMapping floats charSigned reg fuel Dynamic.empty)
          (yamlCollectItems floats charSigned reg fuel) ev
        let (_, dyn) ← Decoder.lift (writeField reg k v d)
        yamlParseMapping floats charSigned reg fuel dyn) tail := by
  have hkey : nameKey charSigned (cString (resolveKey keys k)) = k := by
    rw [nameKey_cString, hk.nameKey]
  have hname : nextEvent "YAML parse error in mapping" (yamlPlain (resolveKey keys k) :: ev :: tail)
      = .ok (yamlPlain (resolveKey keys k), ev :: tail) := rfl
  have hev : nextEvent "YAML parse error reading mapping value" (ev :: tail) = .ok (ev, tail) := rfl
  rw [yamlParseMapping, bind_ok hname]
  show ((nextEvent _ >>= _) : Decoder Exn (List YamlEvent) Fields) _ = _
  rw [bind_ok hev, hkey]

/-- The fields of a mapping are parsed where the lookups for all of them end, and only there. -/
theorem yamlParseMapping_iff (rest : List YamlEvent) : ∀ {ps : Fields} {d : Fields} {fuel : Nat},
    InstanceOf 0 d → (ps.map Prod.fst).Nodup →
    (∀ e ∈ ps, Emitted floats charSigned reg keys e ∧ d.lookup e.1 = none) →
    (mappingEvents floats keys ps).length ≤ fuel →
    ((∃ r, yamlParseMapping floats charSigned reg fuel d
        (mappingEvents floats keys ps ++ rest) = .ok r) ↔
      ∀ e ∈ ps, DefaultFound reg e.1 e.2 ∧ e.2.Each (DefaultFound reg)) ∧
    ∀ r, yamlParseMapping floats charSigned reg fuel d
        (mappingEvents floats keys ps ++ rest) = .ok r →
      r.2 = rest ∧ Filled (cutFields ps) d r.1
  | [], d, fuel, _, _, _, hfuel => by
    obtain ⟨fuel, rfl⟩ : ∃ n, fuel = n + 1 := ⟨fuel - 1, by
      simp only [mappingEvents, List.flatMap_nil, List.nil_append, List.length_singleton] at hfuel
      omega⟩
    have hend : yamlParseMapping floats charSigned reg (fuel + 1) d
        (mappingEvents floats keys [] ++ rest) = .ok (d, rest) := rfl
    refine ⟨⟨fun _ => nofun, fun _ => ⟨_, hend⟩⟩, fun r hr => ?_⟩
    rw [hend] at hr
    cases hr
    exact ⟨rfl, .nil d⟩
  | (k, v) :: ps, d, fuel, hd, hnd, hexp, hfuel => by
    obtain ⟨hne, hnd⟩ := List.nodup_cons.mp hnd
    obtain ⟨⟨hnamed, hanon, hreparses⟩, hown⟩ := hexp _ List.mem_cons_self
    obtain ⟨ev, tail, hemit⟩ := emitFieldYaml_cons floats keys v
    have hevents : mappingEvents floats keys ((k, v) :: ps) ++ rest =
        yamlPlain (resolveKey keys k) :: ev ::
          (tail ++ (mappingEvents floats keys ps ++ rest)) := by
      simp [mappingEvents, hemit]
    have hlength : (mappingEvents floats keys ((k, v) :: ps)).length =
        tail.length + (mappingEvents floats keys ps).length + 2 := by
      simp only [mappingEvents, List.flatMap_cons, hemit, List.length_append, List.length_cons]
      omega
    obtain ⟨fuel, rfl⟩ : ∃ n, fuel = n + 1 := ⟨fuel - 1, by omega⟩
    rw [hevents, yamlParseMapping_entry fuel hnamed]
    -- what follows the first field, once it is in
    have hrest : ∀ {w d₁}, Put k w d d₁ → ∀ e ∈ ps, Emitted floats charSigned reg keys e ∧
        d₁.lookup e.1 = none := by
      intro w d₁ hput e he
      obtain ⟨hemitted, hnone⟩ := hexp e (List.mem_cons_of_mem _ he)
      have hek : e.1 ≠ k := ne_of_mem_of_not_mem (List.mem_map_of_mem (f := Prod.fst) he) hne
      refine ⟨hemitted, ?_⟩
      rw [hput.kept e.1 hek hemitted.anonymous.2]
      exact hnone
    have hfuel' : (mappingEvents floats keys ps).length ≤ fuel := by omega
    have htail := fun {w d₁} (hput : Put k w d d₁) =>
      yamlParseMapping_iff rest hput.inst hnd (hrest hput) hfuel'
    have hwriteIff : ∀ w, ((∃ d₁, writeField reg k w d = .ok ((), d₁)) ↔ DefaultFound reg k v) ∧
        ∀ d₁, writeField reg k w d = .ok ((), d₁) → Put k w d d₁ := writeField_iff hd hanon hown
    have hstep : ∀ r, (do
        let v ← yamlParseValue floats (yamlParseMapping floats charSigned reg fuel Dynamic.empty)
          (yamlCollectItems floats charSigned reg fuel) ev
        let (_, dyn) ← Decoder.lift (writeField reg k v d)
        yamlParseMapping floats charSigned reg fuel dyn)
        (tail ++ (mappingEvents floats keys ps ++ rest)) = .ok r →
        ∃ w d₁, w.significant = v.cut.significant ∧ Put k w d d₁ ∧ DefaultFound reg k v ∧
          v.Each (DefaultFound reg) ∧
          yamlParseMapping floats charSigned reg fuel d₁
            (mappingEvents floats keys ps ++ rest) = .ok r := by
      intro r h
      obtain ⟨w, s, hvalue, h⟩ := bind_eq_ok.mp h
      have heach := hreparses.sound fuel ev tail _ _ hemit (by omega) hvalue
      obtain ⟨w', hvalue', hsig⟩ := hreparses.complete heach fuel ev tail
        (mappingEvents floats keys ps ++ rest) hemit (by omega)
      rw [hvalue] at hvalue'
      cases hvalue'
      obtain ⟨⟨⟨⟩, d₁⟩, s', hlift, h⟩ := bind_eq_ok.mp h
      cases hwrite : writeField reg k w d with
      | error e =>
        rw [hwrite] at hlift
        cases hlift
      | ok x =>
        rw [hwrite] at hlift
        cases hlift
        obtain ⟨hiff, hput⟩ := hwriteIff w
        exact ⟨w, d₁, hsig, hput d₁ hwrite, hiff.mp ⟨d₁, hwrite⟩, heach, h⟩
    refine ⟨⟨?_, ?_⟩, ?_⟩
    · rintro ⟨r, h⟩
      obtain ⟨w, d₁, -, hput, hfound, heach, h⟩ := hstep r h
      intro e he
      rcases List.mem_cons.mp he with rfl | he
      · exact ⟨hfound, heach⟩
      · exact (htail hput).1.mp ⟨r, h⟩ e he
    · intro hall
      obtain ⟨hfound, heach⟩ := hall _ List.mem_cons_self
      obtain ⟨w, hvalue, -⟩ := hreparses.complete heach fuel ev tail
        (mappingEvents floats keys ps ++ rest) hemit (by omega)
      obtain ⟨hiff, hput⟩ := hwriteIff w
      obtain ⟨d₁, hwrite⟩ := hiff.mpr hfound
      obtain ⟨r, hr⟩ := (htail (hput d₁ hwrite)).1.mpr fun e he =>
        hall e (List.mem_cons_of_mem _ he)
      refine ⟨r, ?_⟩
      rw [bind_ok hvalue, hwrite]
      exact hr
    · intro r h
      obtain ⟨w, d₁, hsig, hput, -, -, h⟩ := hstep r h
      obtain ⟨hend, hfilled⟩ := (htail hput).2 r h
      exact ⟨hend, .cons hput hsig hfilled⟩

end Mappings

/-! ## Whole trees -/

theorem keys_cutFields (d : Fields) : (cutFields d).map Prod.fst = d.map Prod.fst := by
  rw [cutFields_eq, List.map_map]
  rfl

/-- Fields are left out before the cut or after it. -/
theorem mem_cutFields_exportedFields {d : Fields} {e : Key × Value} :
    e ∈ cutFields (exportedFields d) ↔
      e ∈ cutFields d ∧ isZeroBookkeepingField e.1 e.2 = false := by
  rw [cutFields_eq, cutFields_eq, List.mem_map, List.mem_map]
  constructor
  · rintro ⟨x, hx, rfl⟩
    obtain ⟨hmem, hzero⟩ := mem_exportedFields.mp hx
    exact ⟨⟨x, hmem, rfl⟩, (isZeroBookkeepingField_cut x.1 x.2).trans hzero⟩
  · rintro ⟨⟨x, hmem, rfl⟩, hzero⟩
    exact ⟨x, mem_exportedFields.mpr ⟨hmem, (isZeroBookkeepingField_cut x.1 x.2).symm.trans hzero⟩,
      rfl⟩

/-- What a document can say of a field of an object without a class. -/
def AnonymousExportable (named : Key → Prop) (k : Key) (v : Value) : Prop :=
  Exportable named k v ∧ Anonymous k v

section Trees

variable {floats : FloatTexts} {charSigned : Bool} {reg : Registry μ} {keys : KeyMap}

/-- An object is parsed where the lookups for all its fields end, and only there. -/
theorem yamlParseMapping_object {d : Fields} (hs : Sorted d)
    (hemitted : ∀ e ∈ d, isZeroBookkeepingField e.1 e.2 = false →
      Emitted floats charSigned reg keys e) {fuel : Nat} (rest : List YamlEvent)
    (hfuel : (emitEntriesYaml floats keys d).length ≤ fuel) :
    ((∃ r, yamlParseMapping floats charSigned reg fuel Dynamic.empty
        (emitEntriesYaml floats keys d ++ rest) = .ok r) ↔ fieldsEach (DefaultFound reg) d) ∧
    ∀ r, yamlParseMapping floats charSigned reg fuel Dynamic.empty
        (emitEntriesYaml floats keys d ++ rest) = .ok r →
      r.2 = rest ∧ significantFields r.1 = significantFields (cutFields d) := by
  have hnd : ((exportedFields d).map Prod.fst).Nodup :=
    hs.nodup_keys.sublist (List.filter_sublist.map Prod.fst)
  have hps : ∀ e ∈ exportedFields d, Emitted floats charSigned reg keys e ∧
      Dynamic.empty.lookup e.1 = none := by
    intro e he
    obtain ⟨hmem, hzero⟩ := mem_exportedFields.mp he
    have hemit := hemitted e hmem hzero
    refine ⟨hemit, ?_⟩
    rw [Dynamic.empty, lookup_cons_ite, if_neg hemit.anonymous.1]
    rfl
  rw [emitEntriesYaml_eq] at hfuel ⊢
  obtain ⟨hiff, hfilled⟩ := yamlParseMapping_iff rest instanceOf_empty hnd hps hfuel
  constructor
  · rw [hiff, fieldsEach_iff]
    constructor
    · intro h e he
      cases hzero : isZeroBookkeepingField e.1 e.2 with
      | false =>
        obtain ⟨hfound, heach⟩ := h e (mem_exportedFields.mpr ⟨he, hzero⟩)
        exact ⟨fun _ => hfound, heach⟩
      | true =>
        rw [(isZeroBookkeepingField_iff.mp hzero).2]
        refine ⟨?_, trivial⟩
        intro hfalse
        cases hfalse
    · intro h e he
      obtain ⟨hmem, hzero⟩ := mem_exportedFields.mp he
      obtain ⟨hfound, heach⟩ := h e hmem
      exact ⟨hfound hzero, heach⟩
  · intro r hr
    obtain ⟨hend, hfill⟩ := hfilled r hr
    refine ⟨hend, hfill.significant ?_ (cutFields_sorted hs)
      (fun e => mem_cutFields_exportedFields) fun e he => ?_⟩
    · rw [keys_cutFields]
      exact hnd
    · rw [cutFields_eq] at he
      obtain ⟨x, hx, rfl⟩ := List.mem_map.mp he
      exact (hps x hx).1.anonymous

mutual

theorem reparses_value : ∀ (v : Value) {k : Key},
    AnonymousExportable (HasName charSigned keys) k v →
    v.Each (AnonymousExportable (HasName charSigned keys)) →
    Reparses floats charSigned reg keys v
  | .bool b, _, _, _ => .of_scalar trivial rfl (yamlScalar_bool floats b)
  | .int32 i, _, _, _ => .of_scalar trivial rfl (yamlScalar_int32 floats i)
  | .string _, _, _, _ | .null, _, _, _ => .of_scalar trivial rfl rfl
  | .bools _, _, hexp, _ =>
    .of_sequence trivial rfl (yamlScalar_bool floats) (yamlSequenceToField_bools hexp.1.2.2)
  | .int32s _, _, hexp, _ =>
    .of_sequence trivial rfl (yamlScalar_int32 floats) (yamlSequenceToField_int32s hexp.1.2.2)
  | .key _, _, hexp, _ => by
    rcases hexp.1.2.2.1 with hk | hk
    · exact absurd hk hexp.2.1
    · exact absurd hk hexp.2.2
  | .object fields, _, hexp, heach => by
    have hsorted : Sorted fields := hexp.1.2.2
    have hemitted := emitted_fields fields heach
    have hvalue : ∀ fuel s, yamlParseValue floats
        (yamlParseMapping floats charSigned reg fuel Dynamic.empty)
        (yamlCollectItems floats charSigned reg fuel) .mappingStart s =
        (Value.object <$> yamlParseMapping floats charSigned reg fuel Dynamic.empty) s :=
      fun _ _ => rfl
    constructor
    · intro htakes fuel ev tail rest hemit hfuel
      cases hemit
      obtain ⟨hiff, hread⟩ := yamlParseMapping_object hsorted hemitted rest hfuel
      obtain ⟨⟨r, s⟩, hr⟩ := hiff.mpr htakes
      obtain ⟨rfl, hsig⟩ := hread _ hr
      refine ⟨.object r, ?_, ?_⟩
      · rw [hvalue, map_apply, hr]
        rfl
      · rw [Value.cut, Value.significant, Value.significant, hsig]
    · intro fuel ev tail rest r hemit hfuel h
      cases hemit
      obtain ⟨hiff, -⟩ := yamlParseMapping_object hsorted hemitted rest hfuel
      rw [hvalue, map_apply] at h
      cases hr : yamlParseMapping floats charSigned reg fuel Dynamic.empty
          (emitEntriesYaml floats keys fields ++ rest) with
      | error e =>
        rw [hr] at h
        cases h
      | ok x => exact hiff.mp ⟨x, hr⟩
  | .monostate, _, hexp, _ | .hash _, _, hexp, _ | .float _, _, hexp, _
  | .floats _, _, hexp, _ | .bytes _, _, hexp, _ => absurd hexp.1.2.2 id

theorem emitted_fields : ∀ d : Fields,
    fieldsEach (AnonymousExportable (HasName charSigned keys)) d →
    ∀ e ∈ d, isZeroBookkeepingField e.1 e.2 = false → Emitted floats charSigned reg keys e
  | (k, v) :: rest, h, e, he, hzero => by
    obtain ⟨⟨hexp, heach⟩, hrest⟩ := h
    rcases List.mem_cons.mp he with rfl | he
    · exact ⟨(hexp hzero).1.1, (hexp hzero).2, reparses_value v (hexp hzero) heach⟩
    · exact emitted_fields rest hrest e he hzero

end

/-- The events of a document are read as its mapping is. -/
theorem fromYamlLoop_document (d : Fields) :
    fromYamlLoop floats charSigned reg ((yamlDocument floats keys d).length + 1) none
        (yamlDocument floats keys d) =
      (yamlParseMapping floats charSigned reg ((emitEntriesYaml floats keys d).length + 3)
          Dynamic.empty >>= fun dyn =>
        fromYamlLoop floats charSigned reg ((emitEntriesYaml floats keys d).length + 3) (some dyn))
        (emitEntriesYaml floats keys d ++ [.documentEnd, .streamEnd]) := by
  have hlength : (yamlDocument floats keys d).length + 1 =
      (emitEntriesYaml floats keys d).length + 3 + 3 := by
    simp [yamlDocument]
  rw [hlength]
  rfl

/-- **Main result**: exporting a tree of objects without classes and importing the document gives a
tree with the same significant fields exactly if no string in it has a NUL, and the lookups for its
fields end. -/
theorem yaml_reimports_iff {lib : YamlLibrary} {d : Fields} (hs : Sorted d)
    (hexp : fieldsEach (AnonymousExportable (HasName charSigned keys)) d)
    (hlib : lib.ReadsBack (yamlDocument floats keys d)) :
    (∃ text r, toYaml floats keys lib d = .ok text ∧
      fromYaml floats charSigned reg lib text = .ok r ∧
      significantFields r = significantFields d) ↔
    fieldsEach NoNul d ∧ fieldsEach (DefaultFound reg) d := by
  obtain ⟨text, hemit, hparse⟩ := hlib
  have hemitted : ∀ e ∈ d, isZeroBookkeepingField e.1 e.2 = false →
      Emitted floats charSigned reg keys e := emitted_fields d hexp
  obtain ⟨hiff, hread⟩ := yamlParseMapping_object hs hemitted
    [.documentEnd, .streamEnd] (Nat.le_add_right _ 3)
  have hfrom : ∀ r, fromYaml floats charSigned reg lib text = .ok r ↔
      ∃ s, yamlParseMapping floats charSigned reg ((emitEntriesYaml floats keys d).length + 3)
        Dynamic.empty (emitEntriesYaml floats keys d ++ [.documentEnd, .streamEnd]) =
          .ok (r, s) := by
    intro r
    rw [fromYaml, hparse, fromYamlLoop_document]
    cases hr : yamlParseMapping floats charSigned reg ((emitEntriesYaml floats keys d).length + 3)
        Dynamic.empty (emitEntriesYaml floats keys d ++ [.documentEnd, .streamEnd]) with
    | error e =>
      rw [bind_error hr]
      constructor
      · intro h
        cases h
      · rintro ⟨s, h⟩
        cases h
    | ok x =>
      obtain ⟨dyn, s⟩ := x
      obtain ⟨rfl, -⟩ := hread _ hr
      rw [bind_ok hr]
      constructor
      · intro h
        cases h
        exact ⟨_, rfl⟩
      · rintro ⟨s, h⟩
        cases h
        rfl
  constructor
  · rintro ⟨text', r, hto, hr, hsig⟩
    rw [toYaml, hemit] at hto
    cases hto
    obtain ⟨s, hr⟩ := (hfrom r).mp hr
    exact ⟨(cutFields_significant_iff d).mp ((hread _ hr).2.symm.trans hsig), hiff.mp ⟨_, hr⟩⟩
  · rintro ⟨hnul, hfound⟩
    obtain ⟨⟨r, s⟩, hr⟩ := hiff.mpr hfound
    exact ⟨text, r, hemit, (hfrom r).mpr ⟨s, hr⟩,
      (hread _ hr).2.trans ((cutFields_significant_iff d).mpr hnul)⟩

end Trees

/-! ## Two documents -/

namespace SampleYaml

/-- A library that prints one sequence of events as this text, and reads it. -/
def library (events : List YamlEvent) (text : List UInt8) : YamlLibrary where
  emit := fun _ => .ok text
  parse := fun given => if given = text then events else []

theorem library_readsBack (events : List YamlEvent) (text : List UInt8) :
    (library events text).ReadsBack events :=
  ⟨text, rfl, if_pos rfl⟩

/-- No number with a fraction is in the documents. -/
def noFloats : FloatTexts where
  print := fun _ => []
  strtod := fun _ => none

def names : KeyMap := fun k =>
  if k = key "name" then some (ascii "name")
  else if k = key "sizes" then some (ascii "sizes")
  else none

/-- A name that looks like no value, and two sizes. -/
def plain : Fields :=
  insertAll Dynamic.empty
    [(key "name", .string (ascii "null")), (key "sizes", .int32s [2, -3])]

/-- A name with a NUL. -/
def nul : Fields := insertAll Dynamic.empty [(key "name", .string [97, 0, 98])]

def plainLibrary : YamlLibrary :=
  library (yamlDocument noFloats names plain) (ascii "name: \"null\"\nsizes:\n- 2\n- -3\n")

def nulLibrary : YamlLibrary :=
  library (yamlDocument noFloats names nul) (ascii "name: \"a\\0b\"\n")

theorem plain_fields {P : Key → Value → Prop} (hname : P (key "name") (.string (ascii "null")))
    (hsizes : P (key "sizes") (.int32s [2, -3])) : fieldsEach P plain := by
  refine fieldsEach_iff.mpr fun e he => ?_
  unfold plain at he
  simp only [insertAll_cons, insertAll_nil] at he
  rcases mem_insert he with rfl | he
  · exact ⟨fun _ => hsizes, trivial⟩
  rcases mem_insert he with rfl | he
  · exact ⟨fun _ => hname, trivial⟩
  obtain rfl := List.mem_singleton.mp he
  exact ⟨fun hzero => absurd hzero (by decide), trivial⟩

theorem nul_exportable : fieldsEach (AnonymousExportable (HasName true names)) nul := by
  refine fieldsEach_iff.mpr fun e he => ?_
  unfold nul at he
  simp only [insertAll_cons, insertAll_nil] at he
  rcases mem_insert he with rfl | he
  · exact ⟨fun _ => ⟨⟨⟨ascii "name", rfl, rfl⟩, fun h => absurd h (by decide), trivial⟩,
      by decide, by decide⟩, trivial⟩
  obtain rfl := List.mem_singleton.mp he
  exact ⟨fun hzero => absurd hzero (by decide), trivial⟩

end SampleYaml

/-- The name `null` comes back as a string. -/
theorem yaml_reimports_plain : ∃ text r,
    toYaml SampleYaml.noFloats SampleYaml.names SampleYaml.plainLibrary SampleYaml.plain =
      .ok text ∧
    fromYaml SampleYaml.noFloats true ([] : Registry Unit) SampleYaml.plainLibrary text = .ok r ∧
    significantFields r = significantFields SampleYaml.plain := by
  refine (yaml_reimports_iff (by decide) (SampleYaml.plain_fields ?_ ?_)
    (SampleYaml.library_readsBack _ _)).mpr
      ⟨SampleYaml.plain_fields (show 0 ∉ ascii "null" by decide) trivial,
        SampleYaml.plain_fields ⟨_, rfl⟩ ⟨_, rfl⟩⟩
  · exact ⟨⟨⟨ascii "name", rfl, rfl⟩, fun h => absurd h (by decide), trivial⟩,
      by decide, by decide⟩
  · exact ⟨⟨⟨ascii "sizes", rfl, rfl⟩, fun h => absurd h (by decide), List.cons_ne_nil _ _⟩,
      by decide, by decide⟩

/-- The name with a NUL comes back without what follows it. -/
theorem yaml_cuts_string :
    fieldsEach (AnonymousExportable (HasName true SampleYaml.names)) SampleYaml.nul ∧
    SampleYaml.nulLibrary.ReadsBack
      (yamlDocument SampleYaml.noFloats SampleYaml.names SampleYaml.nul) ∧
    ∃ text r, toYaml SampleYaml.noFloats SampleYaml.names SampleYaml.nulLibrary SampleYaml.nul =
        .ok text ∧
      fromYaml SampleYaml.noFloats true ([] : Registry Unit) SampleYaml.nulLibrary text = .ok r ∧
      r.lookup (key "name") = some (.string [97]) ∧
      significantFields r ≠ significantFields SampleYaml.nul := by
  refine ⟨SampleYaml.nul_exportable, SampleYaml.library_readsBack _ _, _, _, rfl, rfl, rfl, ?_⟩
  intro h
  have hname := congrArg (List.lookup (key "name")) h
  cases hname

end Bison
