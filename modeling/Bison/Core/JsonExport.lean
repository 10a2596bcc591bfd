import Mathlib.Data.List.Lex
import Bison.Core.TextExport

/-!
# JSON documents

`to_json` and `from_json` (bison.cpp). Printing and parsing a document is the JSON library's part;
the program turns objects into JSON values and back.

- `fieldToJson`, `dynamicToJson`: the exporter.
- `fromJsonValue`, `fromJsonEntries`: the importer. Every field is assigned to an object of no
  class, so the name of a class or namespace is assigned to a field that holds a key.
- `json_reimports_iff`: **main result**, an exported tree is imported again exactly if no object in
  it has a class or a namespace, and objects of no class take the fields.
-/

namespace Bison

open SortedMap Decoder

variable {μ : Type}

/-- `nlohmann::json`. Texts are bytes, floating-point numbers the bits of a `double`; an object is a
`std::map`. -/
inductive Json where
  | null
  | boolean (b : Bool)
  | integer (i : Int64)
  | unsigned (u : UInt64)
  | float (bits : UInt64)
  | string (s : List UInt8)
  | array (data : List Json)
  | object (data : List (List UInt8 × Json))

/-- `dump` and `parse` of the JSON library. -/
structure JsonLibrary where
  dump : Json → Int → Except Exn (List UInt8)
  parse : List UInt8 → Except Exn Json

mutual

/-- What parsing makes of a printed value: a number without a sign is unsigned. -/
def Json.reparsed : Json → Json
  | .integer i => if 0 ≤ i then .unsigned i.toUInt64 else .integer i
  | .array data => .array (reparsedElements data)
  | .object data => .object (reparsedEntries data)
  | j => j

def reparsedElements : List Json → List Json
  | [] => []
  | j :: rest => j.reparsed :: reparsedElements rest

def reparsedEntries : List (List UInt8 × Json) → List (List UInt8 × Json)
  | [] => []
  | (name, j) :: rest => (name, j.reparsed) :: reparsedEntries rest

end

/-- The library reads the document back. It does so for documents whose texts are UTF-8. -/
def JsonLibrary.ReadsBack (lib : JsonLibrary) (indent : Int) (j : Json) : Prop :=
  ∃ text, lib.dump j indent = .ok text ∧ lib.parse text = .ok j.reparsed

/-! ## Exporting -/

mutual

/-- `field_to_json` (bison.cpp:460). -/
def fieldToJson (keys : KeyMap) : Value → Json
  | .monostate => .null
  | .bool b => .boolean b
  | .int32 i => .integer i.toInt64
  | .float bits => .float (Float32.ofBits bits).toFloat.toBits
  | .string s => .string s
  | .hash h => .string (resolveKey keys h)
  | .key k => .string (resolveKey keys k)
  | .null => .null
  | .object fields => .object (entriesToJson keys fields [])
  | .bools v => .array (v.map .boolean)
  | .int32s v => .array (v.map fun i => .integer i.toInt64)
  | .floats v => .array (v.map fun bits => .float (Float32.ofBits bits).toFloat.toBits)
  | .bytes v => .string (v.flatMap hexByte)

/-- The loop of `dynamic_to_json` (bison.cpp:515). -/
def entriesToJson (keys : KeyMap) : Fields → List (List UInt8 × Json) → List (List UInt8 × Json)
  | [], obj => obj
  | (k, f) :: rest, obj =>
    entriesToJson keys rest
      (if isZeroBookkeepingField k f then obj
        else insert (resolveKey keys k) (fieldToJson keys f) obj)

end

def dynamicToJson (keys : KeyMap) (d : Fields) : Json := .object (entriesToJson keys d [])

/-- `to_json` (bison.cpp:617). -/
def toJson (lib : JsonLibrary) (keys : KeyMap) (indent : Int) (d : Fields) :
    Except Exn (List UInt8) :=
  lib.dump (dynamicToJson keys d) indent

/-! ## Importing -/

def Json.isBoolean : Json → Bool
  | .boolean _ => true
  | _ => false

def Json.isInteger : Json → Bool
  | .integer _ | .unsigned _ => true
  | _ => false

def Json.isFloat : Json → Bool
  | .float _ => true
  | _ => false

def Json.isArray : Json → Bool
  | .array _ => true
  | _ => false

/-- `bool{el}` of a boolean. -/
def Json.toBool : Json → Bool
  | .boolean b => b
  | _ => false

/-- `int32_t{el}` of an integer. -/
def Json.toInt32 : Json → Int32
  | .integer i => i.toInt32
  | .unsigned u => u.toInt64.toInt32
  | _ => 0

/-- `float{el}` of a number. -/
def Json.toFloatBits : Json → UInt32
  | .integer i => i.toFloat32.toBits
  | .unsigned u => u.toFloat32.toBits
  | .float bits => (Float.ofBits bits).toFloat32.toBits
  | _ => 0

/-- `(*dyn)[idx] = v`. A whole field, which an array becomes, is copied without a look at the type
of the old one. -/
def setIndex (idx : Nat) (whole : Bool) (v : Value) (dyn : Fields) : Except Exn Fields := do
  let k := UInt32.ofNat idx
  let v ← if whole then .ok v else ((dyn.lookup k).getD .monostate).assign v
  return insert k v dyn

/-- `(*dyn)[name] = v`, likewise. -/
def assignImported (reg : Registry μ) (whole : Bool) (k : Key) (v : Value) : DynamicM Unit :=
  if whole then writeField reg k v else setField reg k v

section Importing

variable (charSigned : Bool) (reg : Registry μ)

mutual

/-- The value of a JSON value: the right-hand sides of `from_json_object` (bison.cpp:149), and
`from_json_array_field` (bison.cpp:51). -/
def fromJsonValue : Json → Except Exn Value
  | .null => .ok .null
  | .boolean b => .ok (.bool b)
  | .integer i => .ok (.int32 i.toInt32)
  | .unsigned u => .ok (.int32 u.toInt64.toInt32)
  | .float bits => .ok (.float (Float.ofBits bits).toFloat32.toBits)
  | .string s => .ok (.string s)
  | .array data =>
    if data.isEmpty then do
      return .object (← fromJsonElements data 0 Dynamic.empty)
    else if data.all Json.isBoolean then .ok (.bools (data.map Json.toBool))
    else if data.all Json.isInteger then .ok (.int32s (data.map Json.toInt32))
    else if data.all fun el => el.isInteger || el.isFloat then
      .ok (.floats (data.map Json.toFloatBits))
    else do
      return .object (← fromJsonElements data 0 Dynamic.empty)
  | .object data => do
    return .object (← fromJsonEntries data Dynamic.empty)

/-- The loop of `from_json_array` (bison.cpp:107). -/
def fromJsonElements : List Json → Nat → Fields → Except Exn Fields
  | [], _, dyn => .ok dyn
  | el :: rest, idx, dyn => do
    let v ← fromJsonValue el
    let dyn ← setIndex idx el.isArray v dyn
    fromJsonElements rest (idx + 1) dyn

/-- The loop of `from_json_object` (bison.cpp:149). -/
def fromJsonEntries : List (List UInt8 × Json) → Fields → Except Exn Fields
  | [], dyn => .ok dyn
  | (name, el) :: rest, dyn => do
    let v ← fromJsonValue el
    let (_, dyn) ← assignImported reg el.isArray (nameKey charSigned name) v dyn
    fromJsonEntries rest dyn

end

/-- `from_json` (bison.cpp:541): the document has to be an object. -/
def fromJson (lib : JsonLibrary) (text : List UInt8) : Except Exn Fields := do
  match ← lib.parse text with
  | .object data => fromJsonEntries charSigned reg data Dynamic.empty
  | _ => throw (.runtimeError "type must be object")

end Importing

/-! ## Assigning a field of an object of no class -/

section Assigning

variable {reg : Registry μ} {whole : Bool} {k : Key} {v x : Value} {d : Fields}

/-- The default for a field of objects of no class allows that a value is assigned: it is of the
type of the value, if there is one and the value is not copied as a whole field. -/
def DefaultAllows (reg : Registry μ) (whole : Bool) (k : Key) (v : Value) : Prop :=
  ∃ dflt, classDefault reg 0 k = .ok dflt ∧
    (whole = true ∨ ∀ w, dflt = some w → w.index = 0 ∨ w.index = v.index)

theorem assignImported_of_allows (h : InstanceOf 0 d) (hk : Anonymous k x)
    (hown : d.lookup k = none) (hallows : DefaultAllows reg whole k v) :
    ∃ d', assignImported reg whole k v d = .ok ((), d') ∧ Put k v d d' := by
  obtain ⟨dflt, hdflt, htype⟩ := hallows
  cases whole with
  | true =>
    obtain ⟨d', hwrite, hinst, hset, hkept⟩ := h.writeField hdflt hk.1 (v := v)
      fun hns => absurd hns hk.2
    exact ⟨d', hwrite, hinst, hset, hkept⟩
  | false =>
    obtain ⟨d', hwrite, hinst, hset, hkept⟩ := h.setField hdflt hk.2 hk.1 (v := v)
      (fun w hw => by rw [hown] at hw; cases hw) fun w hw =>
        htype.resolve_left Bool.false_ne_true w hw
    exact ⟨d', hwrite, hinst, hset, hkept⟩

theorem allows_of_assignImported (h : InstanceOf 0 d) (hk : Anonymous k x)
    (hown : d.lookup k = none) {d' : Fields}
    (hassign : assignImported reg whole k v d = .ok ((), d')) : DefaultAllows reg whole k v := by
  cases hdflt : classDefault reg 0 k with
  | error e =>
    have hsub := h.subscript_error hdflt hk.2 hown
    cases whole with
    | true =>
      rw [assignImported, if_pos rfl, writeField, bind_error hsub] at hassign
      cases hassign
    | false =>
      rw [assignImported, if_neg Bool.false_ne_true, setField, bind_error hsub] at hassign
      cases hassign
  | ok dflt =>
    refine ⟨dflt, hdflt, ?_⟩
    cases whole with
    | true => exact .inl rfl
    | false =>
      refine .inr ?_
      rintro w rfl
      obtain ⟨d₁, hsub, -⟩ := h.subscript hdflt hk.2 hk.1
      rw [hown] at hsub
      rw [assignImported, if_neg Bool.false_ne_true, setField, bind_ok hsub] at hassign
      by_contra hne
      have hrefused : w.assign v = .error (.runtimeError "Invalid type") := if_neg hne
      have hthrows : Decoder.lift (w.assign v) d₁ = .error (.runtimeError "Invalid type") := by
        rw [hrefused]
        rfl
      rw [Option.none_or, Option.getD_some, bind_error hthrows] at hassign
      cases hassign

/-- A class or a namespace is a key from the start, and a text is none. -/
theorem assignImported_bookkeeping (h : InstanceOf 0 d) (hk : k = CLASS ∨ k = NAMESPACE)
    (s : List UInt8) (d' : Fields) :
    assignImported reg false k (.string s) d ≠ .ok ((), d') := by
  have hsub : ∃ c d₁, subscript reg k d = .ok (.key c, d₁) := by
    rcases hk with rfl | rfl
    · exact ⟨_, _, subscript_of_keyAt h.isClass⟩
    · rcases h.isGlobal with hnone | hkey
      · have hfind := findField_namespace_none reg hnone (by rw [h.isClass]; rfl)
        refine ⟨0, insert NAMESPACE (.key 0) d, ?_⟩
        rw [subscript, bind_ok hfind]
        rfl
      · exact ⟨_, _, subscript_of_keyAt hkey⟩
  obtain ⟨c, d₁, hsub⟩ := hsub
  intro hassign
  rw [assignImported, if_neg Bool.false_ne_true, setField, bind_ok hsub] at hassign
  cases hassign

end Assigning

/-! ## What is imported of a value -/

/-- A field is taken: it is neither a class nor a namespace, and objects of no class have no default
of another type for it. -/
def JsonTakes (reg : Registry μ) (k : Key) (v : Value) : Prop :=
  Anonymous k v ∧ DefaultAllows reg (match v with | .bools _ | .int32s _ => true | _ => false) k v

/-- Where no class is registered under the key 0, which stands for none, objects of no class take
every field that is neither a class nor a namespace. -/
theorem jsonTakes_iff_anonymous {reg : Registry μ}
    (hzero : ∀ col, reg.lookup 0 = some col → Collection.find col 0 = none) (k : Key) (v : Value) :
    JsonTakes reg k v ↔ Anonymous k v := by
  refine ⟨fun h => h.1, fun h => ⟨h, none, ?_, .inr nofun⟩⟩
  unfold classDefault
  cases hcol : reg.lookup 0 with
  | none => rfl
  | some col =>
    have hsearch : Collection.search col (fun p => p.fields.lookup k) 0 = some none := by
      rw [Collection.search, Chase.search, hzero col hcol]
    simp only [hsearch]

/-- The exported value is imported again where its fields are taken, and only there. -/
structure Reimports (charSigned : Bool) (reg : Registry μ) (keys : KeyMap) (v : Value) : Prop where
  sound : ∀ w, fromJsonValue charSigned reg (fieldToJson keys v).reparsed = .ok w →
    v.Each (JsonTakes reg) ∧ w.significant = v.significant ∧ w.index = v.index
  complete : v.Each (JsonTakes reg) →
    ∃ w, fromJsonValue charSigned reg (fieldToJson keys v).reparsed = .ok w

theorem reparsedElements_eq (data : List Json) :
    reparsedElements data = data.map Json.reparsed := by
  induction data with
  | nil => rfl
  | cons j rest ih => rw [reparsedElements, ih, List.map_cons]

theorem reparsedEntries_eq (data : List (List UInt8 × Json)) :
    reparsedEntries data = data.map fun e => (e.1, e.2.reparsed) := by
  induction data with
  | nil => rfl
  | cons e rest ih => rw [reparsedEntries, ih, List.map_cons]

section Scalars

variable (charSigned : Bool) (reg : Registry μ) (keys : KeyMap)

/-- A printed integer is still one, of the same value. -/
theorem reparsed_integer (i : Int32) : (Json.integer i.toInt64).reparsed.isInteger = true ∧
    (Json.integer i.toInt64).reparsed.isBoolean = false ∧
    (Json.integer i.toInt64).reparsed.toInt32 = i ∧
    fromJsonValue charSigned reg (Json.integer i.toInt64).reparsed = .ok (.int32 i) := by
  rw [Json.reparsed]
  split
  · refine ⟨rfl, rfl, ?_, ?_⟩
    · simp [Json.toInt32]
    · simp [fromJsonValue]
  · refine ⟨rfl, rfl, ?_, ?_⟩
    · simp [Json.toInt32]
    · simp [fromJsonValue]

theorem fromJsonValue_bools {v : List Bool} (hv : v ≠ []) :
    fromJsonValue charSigned reg (fieldToJson keys (.bools v)).reparsed = .ok (.bools v) := by
  have hdata : reparsedElements (v.map Json.boolean) = v.map Json.boolean := by
    rw [reparsedElements_eq, List.map_map]
    rfl
  rw [fieldToJson, Json.reparsed, hdata, fromJsonValue, if_neg (by simpa using hv),
    if_pos (by simp [Json.isBoolean])]
  simp [Json.toBool, Function.comp_def]

theorem fromJsonValue_int32s {v : List Int32} (hv : v ≠ []) :
    fromJsonValue charSigned reg (fieldToJson keys (.int32s v)).reparsed = .ok (.int32s v) := by
  have hspec := fun i => reparsed_integer charSigned reg i
  have hdata : reparsedElements (v.map fun i => Json.integer i.toInt64) =
      v.map fun i => (Json.integer i.toInt64).reparsed := by
    rw [reparsedElements_eq, List.map_map]
    rfl
  have hnone : ¬ (v.map fun i => (Json.integer i.toInt64).reparsed).all Json.isBoolean = true := by
    obtain ⟨i, rest, rfl⟩ := List.exists_cons_of_ne_nil hv
    rw [List.map_cons, List.all_cons, (hspec i).2.1]
    exact Bool.false_ne_true
  have hall : (v.map fun i => (Json.integer i.toInt64).reparsed).all Json.isInteger = true := by
    rw [List.all_map, List.all_eq_true]
    exact fun i _ => (hspec i).1
  have hback : (v.map fun i => (Json.integer i.toInt64).reparsed).map Json.toInt32 = v := by
    rw [List.map_map]
    exact (List.map_congr_left fun i _ => (hspec i).2.2.1).trans (List.map_id v)
  rw [fieldToJson, Json.reparsed, hdata, fromJsonValue, if_neg (by simpa using hv), if_neg hnone,
    if_pos hall, hback]

/-- A value without fields comes back as it is. -/
theorem Reimports.of_eq {v : Value} (heach : v.Each (JsonTakes reg))
    (h : fromJsonValue charSigned reg (fieldToJson keys v).reparsed = .ok v) :
    Reimports charSigned reg keys v where
  sound w hw := by
    rw [h] at hw
    cases hw
    exact ⟨heach, rfl, rfl⟩
  complete _ := ⟨v, h⟩

end Scalars

/-! ## The fields of an object -/

/-- What is imported of one exported field. -/
def reimportedEntry (keys : KeyMap) (e : Key × Value) : List UInt8 × Json :=
  (resolveKey keys e.1, (fieldToJson keys e.2).reparsed)

/-- An exported field whose value is known to be imported as `Reimports` says. -/
structure Exported (charSigned : Bool) (reg : Registry μ) (keys : KeyMap)
    (e : Key × Value) : Prop where
  exportable : Exportable (HasName charSigned keys) e.1 e.2
  reimports : Anonymous e.1 e.2 → Reimports charSigned reg keys e.2

section Objects

variable {charSigned : Bool} {reg : Registry μ} {keys : KeyMap}

/-- Vectors are printed as arrays, and nothing else that is exported. -/
theorem Exported.isArray {e : Key × Value} (h : Exported charSigned reg keys e) :
    (fieldToJson keys e.2).reparsed.isArray =
      match e.2 with | .bools _ | .int32s _ => true | _ => false := by
  obtain ⟨k, v⟩ := e
  have hshape := h.exportable.2.2
  cases v with
  | int32 i =>
    show (Json.integer i.toInt64).reparsed.isArray = false
    rw [Json.reparsed]
    split <;> rfl
  | floats v => exact absurd hshape id
  | bytes v => exact absurd hshape id
  | _ => rfl

/-- One field: it is put into the object where it is taken. -/
theorem Exported.put {e : Key × Value} (h : Exported charSigned reg keys e) {d : Fields}
    (hd : InstanceOf 0 d) (hfresh : Anonymous e.1 e.2 → d.lookup e.1 = none)
    (htakes : JsonTakes reg e.1 e.2) (heach : e.2.Each (JsonTakes reg)) :
    ∃ w d', fromJsonValue charSigned reg (reimportedEntry keys e).2 = .ok w ∧
      w.significant = e.2.significant ∧
      assignImported reg (reimportedEntry keys e).2.isArray
        (nameKey charSigned (reimportedEntry keys e).1) w d = .ok ((), d') ∧ Put e.1 w d d' := by
  obtain ⟨hanon, hallows⟩ := htakes
  have hreimports := h.reimports hanon
  obtain ⟨w, hw⟩ := hreimports.complete heach
  obtain ⟨-, hsig, hindex⟩ := hreimports.sound w hw
  have hallows' : DefaultAllows reg (reimportedEntry keys e).2.isArray e.1 w := by
    obtain ⟨dflt, hdflt, htype⟩ := hallows
    refine ⟨dflt, hdflt, ?_⟩
    rw [hindex, reimportedEntry, h.isArray]
    exact htype
  obtain ⟨d', hassign, hput⟩ := assignImported_of_allows hd hanon (hfresh hanon) hallows'
  refine ⟨w, d', hw, hsig, ?_, hput⟩
  rw [reimportedEntry, h.exportable.1.nameKey]
  exact hassign

/-- One field: where its import succeeds, it is taken. -/
theorem Exported.takes {e : Key × Value} (h : Exported charSigned reg keys e) {d d' : Fields}
    {w : Value} (hd : InstanceOf 0 d) (hfresh : Anonymous e.1 e.2 → d.lookup e.1 = none)
    (hw : fromJsonValue charSigned reg (reimportedEntry keys e).2 = .ok w)
    (hassign : assignImported reg (reimportedEntry keys e).2.isArray
      (nameKey charSigned (reimportedEntry keys e).1) w d = .ok ((), d')) :
    JsonTakes reg e.1 e.2 ∧ e.2.Each (JsonTakes reg) := by
  rw [reimportedEntry, h.exportable.1.nameKey] at hassign
  by_cases hbook : e.1 = CLASS ∨ e.1 = NAMESPACE
  · obtain ⟨c, hc⟩ := h.exportable.2.1 hbook
    have hstring : w = .string (resolveKey keys c) := by
      rw [reimportedEntry, hc] at hw
      exact (Except.ok.inj hw).symm
    rw [hstring, hc] at hassign
    exact absurd hassign (assignImported_bookkeeping hd hbook _ _)
  · have hanon : Anonymous e.1 e.2 := not_or.mp hbook
    obtain ⟨heach, -, hindex⟩ := (h.reimports hanon).sound w hw
    obtain ⟨dflt, hdflt, htype⟩ := allows_of_assignImported hd hanon (hfresh hanon) hassign
    refine ⟨⟨hanon, dflt, hdflt, ?_⟩, heach⟩
    rw [← h.isArray, ← hindex]
    exact htype

/-- The fields of an object, in whatever order: they are imported where all of them are taken, and
only there. -/
theorem fromJsonEntries_iff : ∀ {ps : Fields} {d : Fields}, InstanceOf 0 d →
    (ps.map Prod.fst).Nodup → (∀ e ∈ ps, Exported charSigned reg keys e) →
    (∀ e ∈ ps, Anonymous e.1 e.2 → d.lookup e.1 = none) →
    ((∃ d', fromJsonEntries charSigned reg (ps.map (reimportedEntry keys)) d = .ok d') ↔
      ∀ e ∈ ps, JsonTakes reg e.1 e.2 ∧ e.2.Each (JsonTakes reg)) ∧
    ∀ d', fromJsonEntries charSigned reg (ps.map (reimportedEntry keys)) d = .ok d' →
      Filled ps d d'
  | [], d, _, _, _, _ => by
    refine ⟨⟨fun _ => nofun, fun _ => ⟨d, rfl⟩⟩, fun d' h => ?_⟩
    cases h
    exact .nil d
  | e :: ps, d, hd, hnd, hexp, hfresh => by
    obtain ⟨hne, hnd⟩ := List.nodup_cons.mp hnd
    have hhead := hexp e List.mem_cons_self
    -- what follows the first field, once it is in
    have htail : ∀ {w d₁}, Put e.1 w d d₁ → _ := fun {w d₁} hput =>
      fromJsonEntries_iff (d := d₁) hput.inst hnd (fun x hx => hexp x (List.mem_cons_of_mem _ hx))
        fun x hx hanon => by
          have hxne : x.1 ≠ e.1 :=
            ne_of_mem_of_not_mem (List.mem_map_of_mem (f := Prod.fst) hx) hne
          rw [hput.kept _ hxne hanon.2]
          exact hfresh x (List.mem_cons_of_mem _ hx) hanon
    have hstep : ∀ d', fromJsonEntries charSigned reg ((e :: ps).map (reimportedEntry keys)) d =
        .ok d' → ∃ w d₁, w.significant = e.2.significant ∧ Put e.1 w d d₁ ∧
          (JsonTakes reg e.1 e.2 ∧ e.2.Each (JsonTakes reg)) ∧
          fromJsonEntries charSigned reg (ps.map (reimportedEntry keys)) d₁ = .ok d' := by
      intro d' h
      rw [List.map_cons, fromJsonEntries] at h
      cases hw : fromJsonValue charSigned reg (reimportedEntry keys e).2 with
      | error x =>
        rw [hw] at h
        cases h
      | ok w =>
        rw [hw, ok_bind] at h
        cases hassign : assignImported reg (reimportedEntry keys e).2.isArray
            (nameKey charSigned (reimportedEntry keys e).1) w d with
        | error x =>
          rw [hassign] at h
          cases h
        | ok r =>
          obtain ⟨⟨⟩, d₁⟩ := r
          rw [hassign] at h
          have htakes := hhead.takes hd (hfresh e List.mem_cons_self) hw hassign
          obtain ⟨w', d₁', hw', hsig, hassign', hput⟩ :=
            hhead.put hd (hfresh e List.mem_cons_self) htakes.1 htakes.2
          rw [hw] at hw'
          cases hw'
          rw [hassign] at hassign'
          cases hassign'
          exact ⟨w, d₁, hsig, hput, htakes, h⟩
    refine ⟨⟨?_, ?_⟩, ?_⟩
    · rintro ⟨d', h⟩
      obtain ⟨w, d₁, -, hput, htakes, hrest⟩ := hstep d' h
      intro x hx
      rcases List.mem_cons.mp hx with rfl | hx
      · exact htakes
      · exact (htail hput).1.mp ⟨d', hrest⟩ x hx
    · intro hall
      obtain ⟨htakes, heach⟩ := hall e List.mem_cons_self
      obtain ⟨w, d₁, hw, -, hassign, hput⟩ :=
        hhead.put hd (hfresh e List.mem_cons_self) htakes heach
      obtain ⟨d', hrest⟩ := (htail hput).1.mpr fun x hx => hall x (List.mem_cons_of_mem _ hx)
      refine ⟨d', ?_⟩
      rw [List.map_cons, fromJsonEntries, hw, ok_bind, hassign]
      exact hrest
    · intro d' h
      obtain ⟨w, d₁, hsig, hput, -, hrest⟩ := hstep d' h
      exact .cons hput hsig ((htail hput).2 d' hrest)

end Objects

/-! ## The entries of an exported object -/

theorem entriesToJson_eq (keys : KeyMap) : ∀ (d : Fields) (obj : List (List UInt8 × Json)),
    entriesToJson keys d obj = insertAll obj
      ((exportedFields d).map fun e => (resolveKey keys e.1, fieldToJson keys e.2))
  | [], obj => rfl
  | (k, f) :: rest, obj => by
    rw [entriesToJson, entriesToJson_eq keys rest]
    unfold exportedFields
    cases hzero : isZeroBookkeepingField k f with
    | true => rw [List.filter_cons_of_neg (by simp [hzero]), if_pos rfl]
    | false =>
      rw [List.filter_cons_of_pos (by simp [hzero]), if_neg Bool.false_ne_true, List.map_cons,
        insertAll_cons]

theorem exists_map_eq {α β : Type} {f : α → β} {l : List α} : ∀ {m : List β},
    (∀ b ∈ m, ∃ a ∈ l, f a = b) → ∃ l' : List α, l'.map f = m ∧ ∀ a ∈ l', a ∈ l
  | [], _ => ⟨[], rfl, nofun⟩
  | b :: m, h => by
    obtain ⟨a, ha, rfl⟩ := h b List.mem_cons_self
    obtain ⟨l', hl', hmem⟩ := exists_map_eq fun b hb => h b (List.mem_cons_of_mem _ hb)
    refine ⟨a :: l', by rw [List.map_cons, hl'], fun x hx => ?_⟩
    rcases List.mem_cons.mp hx with rfl | hx
    · exact ha
    · exact hmem x hx

/-- The document has the exported fields, in the order of their names. -/
theorem exists_exported (keys : KeyMap) {charSigned : Bool} {d : Fields} (hs : Sorted d)
    (hnamed : ∀ e ∈ exportedFields d, HasName charSigned keys e.1) :
    ∃ ps : Fields, ps.map (reimportedEntry keys) = reparsedEntries (entriesToJson keys d []) ∧
      (ps.map Prod.fst).Nodup ∧
      ∀ e, e ∈ ps ↔ e ∈ d ∧ isZeroBookkeepingField e.1 e.2 = false := by
  let named (e : Key × Value) : List UInt8 × Json := (resolveKey keys e.1, fieldToJson keys e.2)
  -- two exported fields of one name are one field
  have hinj : ∀ e ∈ exportedFields d, ∀ e' ∈ exportedFields d,
      resolveKey keys e.1 = resolveKey keys e'.1 → e = e' := by
    intro e he e' he' hname
    have hkey : e.1 = e'.1 := by
      rw [← (hnamed e he).nameKey, ← (hnamed e' he').nameKey, hname]
    have hlook := hs.lookup_of_mem (mem_exportedFields.mp he).1
    have hlook' := hs.lookup_of_mem (mem_exportedFields.mp he').1
    rw [hkey, hlook'] at hlook
    exact Prod.ext hkey (Option.some.inj hlook).symm
  have heq : entriesToJson keys d [] = insertAll [] ((exportedFields d).map named) :=
    entriesToJson_eq keys d []
  have hsorted : Sorted (entriesToJson keys d []) := by
    rw [heq]
    exact sorted_nil.insertAll _
  obtain ⟨ps, hps, hsub⟩ : ∃ ps : Fields, ps.map named = entriesToJson keys d [] ∧
      ∀ e ∈ ps, e ∈ exportedFields d := by
    refine exists_map_eq fun b hb => ?_
    rw [heq] at hb
    rcases mem_insertAll hb with hb | hb
    · cases hb
    · obtain ⟨e, he, rfl⟩ := List.mem_map.mp hb
      exact ⟨e, he, rfl⟩
  refine ⟨ps, ?_, ?_, fun e => ⟨fun he => mem_exportedFields.mp (hsub e he), fun he => ?_⟩⟩
  · rw [reparsedEntries_eq, ← hps, List.map_map]
    rfl
  · have hnames : ((ps.map Prod.fst).map (resolveKey keys)).Nodup := by
      have hnodup := hsorted.nodup_keys
      rw [← hps, List.map_map] at hnodup
      rw [List.map_map]
      exact hnodup
    exact hnames.of_map
  · -- its name is bound in the document, and only this field has it
    have hexp := mem_exportedFields.mpr he
    have hin : resolveKey keys e.1 ∈ ((exportedFields d).map named).map Prod.fst := by
      rw [List.map_map]
      exact List.mem_map_of_mem (f := Prod.fst ∘ named) hexp
    obtain ⟨j, hmem⟩ := exists_mem_insertAll [] hin
    rw [← heq] at hmem
    rw [← hps] at hmem
    obtain ⟨e', he', hname⟩ := List.mem_map.mp hmem
    have hsame := hinj e' (hsub e' he') e hexp (congrArg Prod.fst hname)
    exact hsame ▸ he'

/-! ## Whole trees -/

section Trees

variable {charSigned : Bool} {reg : Registry μ} {keys : KeyMap}

/-- An object is imported again where all its fields are taken, and only there. -/
theorem reimports_object (reg : Registry μ) {d : Fields} (hs : Sorted d)
    (hexp : ∀ e ∈ d, isZeroBookkeepingField e.1 e.2 = false → Exported charSigned reg keys e) :
    ((∃ r, fromJsonEntries charSigned reg (reparsedEntries (entriesToJson keys d []))
      Dynamic.empty = .ok r) ↔ fieldsEach (JsonTakes reg) d) ∧
    ∀ r, fromJsonEntries charSigned reg (reparsedEntries (entriesToJson keys d []))
      Dynamic.empty = .ok r → significantFields r = significantFields d := by
  have hexp' : ∀ e ∈ exportedFields d, Exported charSigned reg keys e := by
    intro e he
    obtain ⟨hmem, hzero⟩ := mem_exportedFields.mp he
    exact hexp e hmem hzero
  obtain ⟨ps, hps, hnd, hmem⟩ :=
    exists_exported keys hs fun e he => (hexp' e he).exportable.1
  have hfresh : ∀ e ∈ ps, Anonymous e.1 e.2 → Dynamic.empty.lookup e.1 = none := by
    intro e _ hanon
    rw [Dynamic.empty, lookup_cons_ite, if_neg hanon.1]
    rfl
  obtain ⟨hiff, hfilled⟩ := fromJsonEntries_iff instanceOf_empty hnd
    (fun e he => hexp' e (mem_exportedFields.mpr ((hmem e).mp he))) hfresh
  rw [hps] at hiff hfilled
  constructor
  · rw [hiff, fieldsEach_iff]
    constructor
    · intro h e he
      cases hzero : isZeroBookkeepingField e.1 e.2 with
      | false =>
        obtain ⟨htakes, heach⟩ := h e ((hmem e).mpr ⟨he, hzero⟩)
        exact ⟨fun _ => htakes, heach⟩
      | true =>
        rw [(isZeroBookkeepingField_iff.mp hzero).2]
        refine ⟨?_, trivial⟩
        intro hfalse
        cases hfalse
    · intro h e he
      obtain ⟨hd, hzero⟩ := (hmem e).mp he
      obtain ⟨htakes, heach⟩ := h e hd
      exact ⟨htakes hzero, heach⟩
  · intro r hr
    exact (hfilled r hr).significant hnd hs hmem fun e he => (hiff.mp ⟨r, hr⟩ e he).1.1

mutual

theorem reimports_value : ∀ (v : Value) {k : Key}, Exportable (HasName charSigned keys) k v →
    Anonymous k v → v.Each (Exportable (HasName charSigned keys)) →
    Reimports charSigned reg keys v
  | .bool _, _, _, _, _ | .string _, _, _, _, _ | .null, _, _, _, _ =>
    .of_eq charSigned reg keys trivial rfl
  | .int32 i, _, _, _, _ =>
    .of_eq charSigned reg keys trivial (reparsed_integer charSigned reg i).2.2.2
  | .bools _, _, hexp, _, _ =>
    .of_eq charSigned reg keys trivial (fromJsonValue_bools charSigned reg keys hexp.2.2)
  | .int32s _, _, hexp, _, _ =>
    .of_eq charSigned reg keys trivial (fromJsonValue_int32s charSigned reg keys hexp.2.2)
  | .key _, _, hexp, hanon, _ => by
    rcases hexp.2.2.1 with hk | hk
    · exact absurd hk hanon.1
    · exact absurd hk hanon.2
  | .object fields, _, hexp, _, heach => by
    have hsorted : Sorted fields := hexp.2.2
    obtain ⟨hiff, hsig⟩ := reimports_object reg hsorted (reimports_fields fields heach)
    have hvalue : fromJsonValue charSigned reg (fieldToJson keys (.object fields)).reparsed =
        (fromJsonEntries charSigned reg (reparsedEntries (entriesToJson keys fields []))
          Dynamic.empty).map Value.object := by
      rw [fieldToJson, Json.reparsed, fromJsonValue]
      cases fromJsonEntries charSigned reg (reparsedEntries (entriesToJson keys fields []))
        Dynamic.empty <;> rfl
    constructor
    · intro w hw
      rw [hvalue] at hw
      cases hr : fromJsonEntries charSigned reg (reparsedEntries (entriesToJson keys fields []))
          Dynamic.empty with
      | error e =>
        rw [hr] at hw
        cases hw
      | ok r =>
        rw [hr] at hw
        cases hw
        refine ⟨hiff.mp ⟨r, hr⟩, ?_, rfl⟩
        rw [Value.significant, Value.significant, hsig r hr]
    · intro htakes
      obtain ⟨r, hr⟩ := hiff.mpr htakes
      exact ⟨.object r, by rw [hvalue, hr]; rfl⟩
  | .monostate, _, hexp, _, _ | .hash _, _, hexp, _, _ | .float _, _, hexp, _, _
  | .floats _, _, hexp, _, _ | .bytes _, _, hexp, _, _ => absurd hexp.2.2 id

theorem reimports_fields : ∀ d : Fields, fieldsEach (Exportable (HasName charSigned keys)) d →
    ∀ e ∈ d, isZeroBookkeepingField e.1 e.2 = false → Exported charSigned reg keys e
  | (k, v) :: rest, h, e, he, hzero => by
    obtain ⟨⟨hexp, heach⟩, hrest⟩ := h
    rcases List.mem_cons.mp he with rfl | he
    · exact ⟨hexp hzero, fun hanon => reimports_value v (hexp hzero) hanon heach⟩
    · exact reimports_fields rest hrest e he hzero

end

/-- **Main result**: exporting a tree and importing the document gives a tree with the same
significant fields exactly if no object in it has a class or a namespace, and every field is one
that objects of no class take. -/
theorem json_reimports_iff {lib : JsonLibrary} {indent : Int} {d : Fields} (hs : Sorted d)
    (hexp : fieldsEach (Exportable (HasName charSigned keys)) d)
    (hlib : lib.ReadsBack indent (dynamicToJson keys d)) :
    (∃ text r, toJson lib keys indent d = .ok text ∧ fromJson charSigned reg lib text = .ok r ∧
      significantFields r = significantFields d) ↔ fieldsEach (JsonTakes reg) d := by
  obtain ⟨text, hdump, hparse⟩ := hlib
  obtain ⟨hiff, hsig⟩ := reimports_object reg hs (reimports_fields d hexp)
  have hfrom : fromJson charSigned reg lib text =
      fromJsonEntries charSigned reg (reparsedEntries (entriesToJson keys d [])) Dynamic.empty := by
    rw [fromJson, hparse]
    rfl
  constructor
  · rintro ⟨text', r, hto, hr, -⟩
    rw [toJson, hdump] at hto
    cases hto
    rw [hfrom] at hr
    exact hiff.mp ⟨r, hr⟩
  · intro htakes
    obtain ⟨r, hr⟩ := hiff.mpr htakes
    exact ⟨text, r, hdump, hfrom.trans hr, hsig r hr⟩

end Trees

/-! ## Two documents -/

namespace SampleDocuments

/-- A library that prints one document as this text, and reads it. -/
def library (document : Json) (text : List UInt8) : JsonLibrary where
  dump := fun _ _ => .ok text
  parse := fun given =>
    if given = text then .ok document.reparsed else .error (.runtimeError "parse error")

theorem library_readsBack (document : Json) (text : List UInt8) (indent : Int) :
    (library document text).ReadsBack indent document :=
  ⟨text, rfl, if_pos rfl⟩

/-- The names of the two documents. -/
def names : KeyMap := fun k =>
  if k = key "name" then some (ascii "name")
  else if k = key "sizes" then some (ascii "sizes")
  else if k = CLASS then some (ascii "__class")
  else if k = key "Box" then some (ascii "Box")
  else none

/-- An object of no class: a name and two sizes. -/
def plain : Fields :=
  insertAll Dynamic.empty
    [(key "name", .string (ascii "box")), (key "sizes", .int32s [2, -3])]

/-- An object of the class `Box`. -/
def box : Fields := [(CLASS, .key (key "Box"))]

def plainLibrary : JsonLibrary :=
  library (dynamicToJson names plain)
    (ascii "\x7b\"name\":\"box\",\"sizes\":[2,-3]\x7d")

def boxLibrary : JsonLibrary :=
  library (dynamicToJson names box) (ascii "\x7b\"__class\":\"Box\"\x7d")

theorem plain_fields {P : Key → Value → Prop} (hname : P (key "name") (.string (ascii "box")))
    (hsizes : P (key "sizes") (.int32s [2, -3])) : fieldsEach P plain := by
  refine fieldsEach_iff.mpr fun e he => ?_
  unfold plain at he
  simp only [insertAll_cons, insertAll_nil] at he
  rcases mem_insert he with rfl | he
  · exact ⟨fun _ => hsizes, trivial⟩
  rcases mem_insert he with rfl | he
  · exact ⟨fun _ => hname, trivial⟩
  obtain rfl := List.mem_singleton.mp he
  exact ⟨fun hzero => absurd hzero (by decide), trivial⟩

theorem box_exportable : fieldsEach (Exportable (HasName true names)) box :=
  ⟨⟨fun _ => ⟨⟨ascii "__class", rfl, rfl⟩, fun _ => ⟨_, rfl⟩, .inl rfl, ascii "Box", rfl, rfl⟩,
    trivial⟩, trivial⟩

end SampleDocuments

/-- The object of no class comes back. -/
theorem json_reimports_plain : ∃ text r,
    toJson SampleDocuments.plainLibrary SampleDocuments.names 2 SampleDocuments.plain = .ok text ∧
    fromJson true ([] : Registry Unit) SampleDocuments.plainLibrary text = .ok r ∧
    significantFields r = significantFields SampleDocuments.plain := by
  have hzero : ∀ col, ([] : Registry Unit).lookup 0 = some col → Collection.find col 0 = none :=
    nofun
  have hexp : fieldsEach (Exportable (HasName true SampleDocuments.names)) SampleDocuments.plain :=
    SampleDocuments.plain_fields
      ⟨⟨ascii "name", rfl, rfl⟩, fun h => absurd h (by decide), trivial⟩
      ⟨⟨ascii "sizes", rfl, rfl⟩, fun h => absurd h (by decide), List.cons_ne_nil _ _⟩
  refine (json_reimports_iff (by decide) hexp
    (SampleDocuments.library_readsBack _ _ 2)).mpr (SampleDocuments.plain_fields ?_ ?_)
  · exact (jsonTakes_iff_anonymous hzero _ _).mpr ⟨by decide, by decide⟩
  · exact (jsonTakes_iff_anonymous hzero _ _).mpr ⟨by decide, by decide⟩

/-- The object of the class `Box` is exported, and its document is refused. -/
theorem json_refuses_class :
    fieldsEach (Exportable (HasName true SampleDocuments.names)) SampleDocuments.box ∧
    SampleDocuments.boxLibrary.ReadsBack 2
      (dynamicToJson SampleDocuments.names SampleDocuments.box) ∧
    ∃ text, toJson SampleDocuments.boxLibrary SampleDocuments.names 2 SampleDocuments.box =
        .ok text ∧
      fromJson true ([] : Registry Unit) SampleDocuments.boxLibrary text =
        .error (.runtimeError "Invalid type") :=
  ⟨SampleDocuments.box_exportable, SampleDocuments.library_readsBack _ _ 2, _, rfl, rfl⟩

end Bison
