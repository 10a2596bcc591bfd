import Bison.Core.ClassRegistry
import Bison.Core.Numbers
import Bison.Core.Instances
import Bison.Rmi.Instance

/-!
# Envelopes as frames

`envelope::encode` and `envelope::decode` (envelope.cpp). An envelope is an object of the class
`__envelope` in the schema format. Its payload and its error are byte vectors in it: the payload in
the format that `with_schema` selects, the error as an object of the class `__error`, left out
where there is no error code.

- `errorSchema`, `envelopeSchema`: what `register_all_schemas` registers (schemas.hpp).
- `Envelope.encode`, `Envelope.decode`.
- `envelope_roundTrip`: **main result**, an envelope whose payload and error survive comes back, and
  every byte of its frame is read.
-/

namespace Bison

open SortedMap Decoder

variable {μ : Type}

/-! ## Schemas -/

def CLASS_ENVELOPE : Key := key "__envelope"

def FIELD_KIND : Key := key "__kind"
def FIELD_OP : Key := key "__op"
def FIELD_REQUEST_ID : Key := key "__requestId"
def FIELD_GROUP : Key := key "__group"
def FIELD_WITH_SCHEMA : Key := key "__withSchema"
def FIELD_PAYLOAD : Key := key "__payload"
def FIELD_ERROR : Key := key "__error"
def FIELD_ONEWAY : Key := key "__oneway"
def FIELD_ERROR_DETAILS : Key := key "__details"

/-- `field{dynamic_ptr{}}` holds a new object. -/
def errorSchema : Fields :=
  insertAll [(CLASS, .key CLASS_ERROR)]
    [(FIELD_ERROR_CODE, .key 0),
      (FIELD_ERROR_MESSAGE, .string []),
      (FIELD_ERROR_DETAILS, .object Dynamic.empty)]

def envelopeSchema : Fields :=
  insertAll [(CLASS, .key CLASS_ENVELOPE)]
    [(FIELD_VERSION, .int32 1),
      (FIELD_KIND, .key 0),
      (FIELD_OP, .key 0),
      (FIELD_REQUEST_ID, .key 0),
      (FIELD_OBJECT_ID, .key 0),
      (FIELD_GROUP, .key 0),
      (FIELD_PAYLOAD, .bytes []),
      (FIELD_ERROR, .bytes []),
      (FIELD_WITH_SCHEMA, .bool false),
      (FIELD_ONEWAY, .bool false)]

/-- The fields of a schema once `addClass(0, schema, 0)` has linked it. -/
def registeredSchema (schema : Fields) : Fields :=
  insert NAMESPACE (.key 0) (insert PARENT (.key 0) schema)

/-- The RMI schemas are registered, and the key 0, which stands for no class, is none. -/
structure Registry.HasSchemas (reg : Registry μ) (error envelope : Prototype μ) : Prop where
  registered : ∃ col, reg.lookup 0 = some col ∧ Collection.find col CLASS_ERROR = some error ∧
    Collection.find col CLASS_ENVELOPE = some envelope ∧ Collection.find col 0 = none
  errorFields : error.fields = registeredSchema errorSchema
  envelopeFields : envelope.fields = registeredSchema envelopeSchema

/-! ## Encoding -/

/-- The payload in the format that `with_schema` selects. -/
def encodePayload (reg : Registry μ) (withSchema : Bool) : DynamicM (List UInt8) :=
  if withSchema then Dynamic.serializeWithSchema reg
  else fun d => .ok (Dynamic.serialize d, d)

/-- The loop of `normalize_error_payload`. -/
def copyFields (reg : Registry μ) : Fields → DynamicM Unit
  | [] => pure ()
  | (k, v) :: rest => do
    if k ≠ CLASS then writeField reg k v
    copyFields reg rest

/-- `normalize_error_payload` (envelope.cpp:14). -/
def normalizeErrorPayload (reg : Registry μ) (error : Fields) : Except Exn Fields := do
  let (_, normalized) ← copyFields reg error [(CLASS, .key CLASS_ERROR)]
  return normalized

/-- The error as it is written: not at all where it has no code. -/
def encodeError (reg : Registry μ) (error : Fields) : Except Exn (Option (List UInt8)) := do
  match ← findField reg FIELD_ERROR_CODE error with
  | (none, _) => return none
  | (some _, error) =>
    let normalized ← normalizeErrorPayload reg error
    let (bytes, _) ← Dynamic.serializeWithSchema reg normalized
    return some bytes

/-- `(*this)[name] = v`, one after the other. -/
def setFields (reg : Registry μ) : Fields → DynamicM Unit
  | [] => pure ()
  | (name, v) :: rest => do
    setField reg name v
    setFields reg rest

/-- What `encode` assigns before it looks at the error. -/
def Envelope.header (env : Envelope) (body : List UInt8) : Fields :=
  [(FIELD_VERSION, .int32 env.version),
    (FIELD_KIND, .key env.kind),
    (FIELD_OP, .key env.op),
    (FIELD_REQUEST_ID, .key env.requestId),
    (FIELD_OBJECT_ID, .key env.objectId),
    (FIELD_GROUP, .key env.group),
    (FIELD_WITH_SCHEMA, .bool env.withSchema),
    (FIELD_PAYLOAD, .bytes body)]

/-- And what it assigns then. -/
def Envelope.trailer (env : Envelope) (error : Option (List UInt8)) : Fields :=
  match error with
  | some bytes => [(FIELD_ERROR, .bytes bytes), (FIELD_ONEWAY, .bool env.oneway)]
  | none => [(FIELD_ONEWAY, .bool env.oneway)]

/-- `envelope::encode` (envelope.cpp:26). -/
def Envelope.encode (reg : Registry μ) (env : Envelope) : Except Exn (List UInt8) := do
  let (body, _) ← encodePayload reg env.withSchema env.payload
  let (_, out) ← setFields reg (env.header body) [(CLASS, .key CLASS_ENVELOPE)]
  let error ← encodeError reg env.error
  let (_, out) ← setFields reg (env.trailer error) out
  let (frame, _) ← Dynamic.serializeWithSchema reg out
  return frame

/-! ## Decoding -/

/-- `cast_value<int32_t>` (bison_object.hpp:696). -/
def castInt32 : Value → Except Exn Int32
  | .int32 i => .ok i
  | .monostate => .error (.runtimeError "Field is empty")
  | .hash h => .ok h.toInt32
  | .bool b => .ok (if b then 1 else 0)
  | .float bits => .ok (Float32.ofBits bits).toInt32
  | .string s => stoi s
  | _ => .error (.runtimeError "Incompatible types")

/-- `cast_value<bool>`. -/
def castBool : Value → Except Exn Bool
  | .bool b => .ok b
  | .monostate => .error (.runtimeError "Field is empty")
  | .hash h => .ok (h != 0)
  | .int32 i => .ok (i != 0)
  | .float bits => .ok (bits &&& 0x7FFFFFFF != 0)
  | .string s => do return (← stoi s) != 0
  | _ => .error (.runtimeError "Incompatible types")

/-- `as<buffer>()`. -/
def asBytes : Value → Except Exn (List UInt8)
  | .bytes b => .ok b
  | .monostate => .ok []
  | _ => .error (.runtimeError "Invalid type")

/-- `(*this)[name]`, converted. -/
def readField {α : Type} (reg : Registry μ) (cast : Value → Except Exn α) (name : Key) :
    DynamicM α := do
  let v ← subscript reg name
  Decoder.lift (cast v)

/-- The payload in the format that `with_schema` selects, and what follows it. -/
def decodePayload (lim : Limits) (reg : Registry μ) (withSchema : Bool) :
    Decoder Exn (List UInt8) Fields :=
  if withSchema then bufferDeserializeWithSchema lim reg else bufferDeserialize lim reg

/-- An empty vector means that there is no error. -/
def decodeError (lim : Limits) (reg : Registry μ) : Decoder Exn (List UInt8) Fields := fun bytes =>
  if bytes.isEmpty then .ok (Dynamic.empty, [])
  else bufferDeserializeWithSchema lim reg bytes

/-- What `decode` does with the object it read. -/
def Envelope.ofFields (lim : Limits) (reg : Registry μ) : DynamicM Envelope := do
  let version ← readField reg castInt32 FIELD_VERSION
  let kind ← readField reg castKey FIELD_KIND
  let op ← readField reg castKey FIELD_OP
  let requestId ← readField reg castKey FIELD_REQUEST_ID
  let objectId ← readField reg castKey FIELD_OBJECT_ID
  let group ← readField reg castKey FIELD_GROUP
  let withSchema ← readField reg castBool FIELD_WITH_SCHEMA
  let oneway ← readField reg castBool FIELD_ONEWAY
  let body ← readField reg asBytes FIELD_PAYLOAD
  let (payload, _) ← Decoder.lift (decodePayload lim reg withSchema body)
  let errorBytes ← readField reg asBytes FIELD_ERROR
  let (error, _) ← Decoder.lift (decodeError lim reg errorBytes)
  return { version, kind, op, requestId, objectId, group, payload, error, withSchema, oneway }

/-- `envelope::decode` (envelope.cpp:65). -/
def Envelope.decode (lim : Limits) (reg : Registry μ) (bytes : List UInt8) :
    Except Exn Envelope := do
  let (out, _) ← bufferDeserializeWithSchema lim reg bytes
  let (env, _) ← Envelope.ofFields lim reg out
  return env

/-! ## Filling an object -/

section Filling

variable {reg : Registry μ} {klass : Key} {p : Prototype μ} {d : Fields}

/-- The object gets every field that is copied, and keeps its class. -/
theorem InstanceOf.copyFields (hroot : reg.Root klass p) : ∀ {es d : Fields}, Sorted es →
    (∀ v, es.lookup NAMESPACE = some v → v = .key 0) → InstanceOf klass d →
    ∃ d', Bison.copyFields reg es d = .ok ((), d') ∧ InstanceOf klass d' ∧
      ∀ k, k ≠ CLASS → k ≠ NAMESPACE → d'.lookup k = (es.lookup k).or (d.lookup k)
  | [], d, _, _, h => ⟨d, rfl, h, fun _ _ _ => rfl⟩
  | (k₀, v₀) :: rest, d, hs, hns, h => by
    have hrest : ∀ v, rest.lookup NAMESPACE = some v → v = .key 0 := by
      intro v hv
      refine hns v ?_
      rw [lookup_cons_ite, if_neg]
      · exact hv
      · rintro rfl
        rw [hs.lookup_eq_none] at hv
        cases hv
    by_cases hclass : k₀ = CLASS
    · obtain ⟨d', hcopy, hinst, hkept⟩ := InstanceOf.copyFields hroot hs.tail hrest h
      refine ⟨d', ?_, hinst, fun k hk hkns => ?_⟩
      · rw [Bison.copyFields, if_neg (not_not.mpr hclass)]
        exact hcopy
      · rw [hkept k hk hkns, lookup_cons_ite, if_neg (fun he => hk (he.trans hclass))]
    · obtain ⟨d₁, hwrite, hinst₁, hset, hkept₁⟩ := h.writeField (hroot.default k₀) hclass
        (fun hk => hns v₀ (by rw [lookup_cons_ite, if_pos hk.symm]))
      obtain ⟨d', hcopy, hinst, hkept⟩ := InstanceOf.copyFields hroot hs.tail hrest hinst₁
      refine ⟨d', ?_, hinst, fun k hk hkns => ?_⟩
      · rw [Bison.copyFields, if_pos hclass, bind_ok hwrite]
        exact hcopy
      · rw [hkept k hk hkns, lookup_cons_ite]
        by_cases heq : k = k₀
        · rw [if_pos heq, heq, hs.lookup_eq_none, hset]
          rfl
        · rw [if_neg heq, hkept₁ k heq hkns]

/-- An assignment that the class and the fields set so far allow. -/
structure Assignable (p : Prototype μ) (e : Key × Value) : Prop where
  notNamespace : e.1 ≠ NAMESPACE
  notClass : e.1 ≠ CLASS
  declared : ∃ w, p.fields.lookup e.1 = some w ∧ w.index = e.2.index

/-- The object gets every field that is assigned. -/
theorem InstanceOf.setFields (hroot : reg.Root klass p) : ∀ {es d : Fields},
    (es.map Prod.fst).Nodup → (∀ e ∈ es, Assignable p e ∧ d.lookup e.1 = none) →
    InstanceOf klass d →
    ∃ d', Bison.setFields reg es d = .ok ((), d') ∧ InstanceOf klass d' ∧
      ∀ k, k ≠ NAMESPACE → d'.lookup k = (es.lookup k).or (d.lookup k)
  | [], d, _, _, h => ⟨d, rfl, h, fun _ _ => rfl⟩
  | (k₀, v₀) :: rest, d, hnd, hes, h => by
    obtain ⟨hfresh, hnd⟩ := List.nodup_cons.mp hnd
    obtain ⟨⟨hns, hclass, w, hw, hindex⟩, hnone⟩ := hes _ List.mem_cons_self
    obtain ⟨d₁, hset, hinst₁, hown, hkept₁⟩ := h.setField (hroot.default k₀) (v := v₀) hns hclass
      (fun x hx => by rw [hnone] at hx; cases hx) fun x hx => by
        rw [hw] at hx
        cases hx
        exact .inr hindex
    have hrest : ∀ e ∈ rest, Assignable p e ∧ d₁.lookup e.1 = none := by
      intro e he
      obtain ⟨hassign, hnone⟩ := hes e (List.mem_cons_of_mem _ he)
      have hne : e.1 ≠ k₀ := by
        intro heq
        refine hfresh ?_
        show k₀ ∈ rest.map Prod.fst
        rw [← heq]
        exact List.mem_map_of_mem he
      refine ⟨hassign, ?_⟩
      rw [hkept₁ e.1 hne hassign.notNamespace]
      exact hnone
    obtain ⟨d', hsets, hinst, hkept⟩ := InstanceOf.setFields hroot hnd hrest hinst₁
    refine ⟨d', ?_, hinst, fun k hk => ?_⟩
    · rw [Bison.setFields, bind_ok hset]
      exact hsets
    · rw [hkept k hk, lookup_cons_ite]
      by_cases heq : k = k₀
      · have hnot : rest.lookup k = none := by
          rw [List.lookup_eq_none_iff]
          intro e he
          rw [bne_iff_ne]
          intro hek
          refine hfresh ?_
          show k₀ ∈ rest.map Prod.fst
          rw [← heq, hek]
          exact List.mem_map_of_mem he
        rw [if_pos heq, hnot, heq, hown]
        rfl
      · rw [if_neg heq, hkept₁ k heq hk]

/-- Every value that is written is a field of the object or a default. -/
theorem InstanceOf.written_cases (h : InstanceOf klass d) {e : Key × Value}
    (he : e ∈ InstanceOf.written p d) : e.2 = .key 0 ∨ e.2 = .key klass ∨
      (e.1 ≠ CLASS ∧ e.1 ≠ NAMESPACE ∧ d.lookup e.1 = some e.2) ∨
      p.fields.lookup e.1 = some e.2 := by
  obtain ⟨x, hx, rfl⟩ := List.mem_map.mp he
  show _ = _ ∨ _ = _ ∨ (_ ∧ _ ∧ _ = some _) ∨ _ = some _
  dsimp only
  by_cases hns : x.1 = NAMESPACE
  · rw [hns, keyAt_eq_some_iff.mp h.withNamespace_lookup]
    exact .inl rfl
  · by_cases hclass : x.1 = CLASS
    · rw [hclass, keyAt_eq_some_iff.mp h.resolved.isClass]
      exact .inr (.inl rfl)
    · rw [lookup_withNamespace d hns]
      cases hown : d.lookup x.1 with
      | some v => exact .inr (.inr (.inl ⟨hclass, hns, rfl⟩))
      | none => exact .inr (.inr (.inr (p.sorted.lookup_of_mem hx)))

end Filling

/-! ## The two schemas -/

section Schemas

variable {reg : Registry μ} {errorProto envelopeProto : Prototype μ}

theorem Prototype.parent_of_schema {p : Prototype μ} {schema : Fields}
    (h : p.fields = registeredSchema schema) : p.parent = 0 := by
  have hparent : keyAt p.fields PARENT = some 0 := by
    rw [h, registeredSchema, keyAt_insert, if_neg PARENT_ne_NAMESPACE, keyAt_insert, if_pos rfl]
  unfold Prototype.parent
  simp only [hparent, Option.get_some]

namespace Registry.HasSchemas

variable (hs : reg.HasSchemas errorProto envelopeProto)

include hs

theorem errorRoot : reg.Root CLASS_ERROR errorProto := by
  obtain ⟨col, hcol, herror, -, hzero⟩ := hs.registered
  refine ⟨col, hcol, herror, ?_⟩
  rw [Prototype.parent_of_schema hs.errorFields]
  exact hzero

theorem envelopeRoot : reg.Root CLASS_ENVELOPE envelopeProto := by
  obtain ⟨col, hcol, -, henvelope, hzero⟩ := hs.registered
  refine ⟨col, hcol, henvelope, ?_⟩
  rw [Prototype.parent_of_schema hs.envelopeFields]
  exact hzero

/-- An object without a class is read back as one of the global namespace. -/
theorem revive_empty : (Value.object Dynamic.empty).revive reg =
    .ok (.object (withNamespace Dynamic.empty)) := by
  obtain ⟨col, hcol, -, -, hzero⟩ := hs.registered
  have hentries : reviveEntries reg Dynamic.empty Dynamic.empty = .ok Dynamic.empty := rfl
  have hns : getAsKey reg NAMESPACE Dynamic.empty = .ok (0, withNamespace Dynamic.empty) :=
    getAsKey_namespace_none reg rfl rfl
  have hclass : getAsKey reg CLASS (withNamespace Dynamic.empty) =
      .ok (0, withNamespace Dynamic.empty) := getAsKey_of_keyAt rfl
  have hmade : createInstance reg 0 0 = .ok none := by
    unfold createInstance
    simp only [hcol, hzero]
  have hfinish : finishInstance reg Dynamic.empty = .ok (withNamespace Dynamic.empty) := by
    unfold finishInstance
    simp only [hns, ok_bind, hclass, hmade]
    rfl
  rw [Value.revive, hentries, ok_bind, hfinish]
  rfl

end Registry.HasSchemas

end Schemas

/-- Registering a schema gives its prototype: the links are added, and nothing else. -/
theorem linkClass_schema (reg : Registry μ) {schema : Fields} {name : Key} (hs : Sorted schema)
    (hname : keyAt schema CLASS = some name) (hparent : schema.lookup PARENT = none)
    (hns : schema.lookup NAMESPACE = none)
    (hnew : ∀ col, reg.lookup 0 = some col → Collection.find col name = none) :
    linkClass reg 0 0 schema = (registeredSchema schema, .ok name) := by
  have hresolve : resolveNamespace schema = .ok (0, insert NAMESPACE (.key 0) schema) := by
    rw [resolveNamespace, hns]
  have hnone : (insert NAMESPACE (.key 0) schema).lookup PARENT = none := by
    rw [lookup_insert_ne _ PARENT_ne_NAMESPACE]
    exact hparent
  have hclass : keyAt (insert NAMESPACE (.key 0) schema) CLASS = some name := by
    rw [keyAt_insert_namespace _ CLASS_ne_NAMESPACE]
    exact hname
  have hfind : findField reg PARENT schema =
      .ok (none, insert NAMESPACE (.key 0) schema) := by
    unfold findField
    simp only [hparent, hresolve, ok_bind]
    cases hcol : reg.lookup 0 with
    | none => simp only [hnone]
    | some col =>
      have hsearch : Collection.search col (fun p => p.fields.lookup PARENT) name = some none := by
        rw [Collection.search, Chase.search_of_accepting Prototype.parent_isSome, hnew col hcol]
        rfl
      simp only [asKey_of_keyAt hclass, ok_bind, hsearch, hnone]
  have hassign : assignKey reg PARENT 0 schema = .ok ((),
      insert PARENT (.key 0) (insert PARENT .monostate (insert NAMESPACE (.key 0) schema))) := by
    have hsub : subscript reg PARENT schema =
        .ok (.monostate, insert PARENT .monostate (insert NAMESPACE (.key 0) schema)) := by
      rw [subscript, bind_ok hfind]
    rw [assignKey, bind_ok hsub]
  have hkey : keyAt (insert PARENT (.key 0) (insert PARENT .monostate
      (insert NAMESPACE (.key 0) schema))) NAMESPACE = some 0 := by
    rw [keyAt_insert, if_neg PARENT_ne_NAMESPACE.symm, keyAt_insert,
      if_neg PARENT_ne_NAMESPACE.symm, keyAt_insert, if_pos rfl]
  unfold linkClass
  simp only [asKey_of_keyAt hname, hassign, assignKey_of_keyAt hkey]
  refine congrArg (·, Except.ok name) (ext ?_ ?_ fun k => ?_)
  · exact (((hs.insert _ _).insert _ _).insert _ _).insert _ _
  · exact (hs.insert _ _).insert _ _
  · unfold registeredSchema
    simp only [lookup_insert]
    split_ifs <;> rfl

/-- A value that the schema format carries unchanged. -/
def Value.Carried (lim : Limits) (reg : Registry μ) (v : Value) : Prop :=
  v.Fits lim ∧ v.revive reg = .ok v

/-! ## The error -/

/-- An error object that the schema format carries: of the global namespace, and with fields that
come back unchanged. -/
structure ErrorSurvives (lim : Limits) (reg : Registry μ) (error : Fields) : Prop where
  sorted : Sorted error
  isGlobal : error.lookup NAMESPACE = none ∨ keyAt error NAMESPACE = some 0
  carried : ∀ e ∈ error, e.2.Carried lim reg

/-- What is read back of an error: its code, message and details, or the defaults of the schema. -/
structure ErrorReturned (error decoded : Fields) : Prop where
  code : decoded.lookup FIELD_ERROR_CODE = error.lookup FIELD_ERROR_CODE
  message : decoded.lookup FIELD_ERROR_MESSAGE =
    some ((error.lookup FIELD_ERROR_MESSAGE).getD (.string []))
  details : decoded.lookup FIELD_ERROR_DETAILS =
    some ((error.lookup FIELD_ERROR_DETAILS).getD (.object (withNamespace Dynamic.empty)))

section Error

variable {lim : Limits} {reg : Registry μ} {errorProto envelopeProto : Prototype μ}

/-- Every default of the error schema can be read back. -/
theorem Registry.HasSchemas.errorDefaults (hs : reg.HasSchemas errorProto envelopeProto) :
    ∀ e ∈ registeredSchema errorSchema, e.2.Fits lim ∧ ∃ v, e.2.revive reg = .ok v := by
  intro e he
  unfold registeredSchema errorSchema at he
  simp only [insertAll_cons, insertAll_nil] at he
  rcases mem_insert he with rfl | he
  · exact ⟨trivial, _, rfl⟩
  rcases mem_insert he with rfl | he
  · exact ⟨trivial, _, rfl⟩
  rcases mem_insert he with rfl | he
  · exact ⟨⟨sorted_singleton _ _, trivial, trivial⟩, _, hs.revive_empty⟩
  rcases mem_insert he with rfl | he
  · exact ⟨Nat.zero_le _, _, rfl⟩
  rcases mem_insert he with rfl | he
  · exact ⟨trivial, _, rfl⟩
  obtain rfl := List.mem_singleton.mp he
  exact ⟨trivial, _, rfl⟩

theorem encodeError_none {error d : Fields}
    (h : findField reg FIELD_ERROR_CODE error = .ok (none, d)) :
    encodeError reg error = .ok none := by
  rw [encodeError, h]
  rfl

/-- An error that survives is written, and read back to its end. -/
theorem encodeError_some (hs : reg.HasSchemas errorProto envelopeProto) {given error : Fields}
    {code : Value} (hfind : findField reg FIELD_ERROR_CODE given = .ok (some code, error))
    (h : ErrorSurvives lim reg error) :
    ∃ bytes decoded, encodeError reg given = .ok (some bytes) ∧ bytes ≠ [] ∧
      bufferDeserializeWithSchema lim reg bytes = .ok (decoded, []) ∧
      ErrorReturned error decoded := by
  have hstart : InstanceOf CLASS_ERROR [(CLASS, .key CLASS_ERROR)] :=
    ⟨sorted_singleton _ _, rfl, .inl rfl⟩
  have hglobal : ∀ v, error.lookup NAMESPACE = some v → v = .key 0 := by
    intro v hv
    rcases h.isGlobal with hnone | hkey
    · rw [hnone] at hv
      cases hv
    · rw [keyAt_eq_some_iff.mp hkey] at hv
      exact (Option.some.inj hv).symm
  obtain ⟨d, hcopy, hinst, hkept⟩ := InstanceOf.copyFields hs.errorRoot h.sorted hglobal hstart
  have hnormal : normalizeErrorPayload reg error = .ok d := by
    rw [normalizeErrorPayload, hcopy]
    rfl
  have hown : ∀ k, k ≠ CLASS → k ≠ NAMESPACE → d.lookup k = error.lookup k := by
    intro k hk hns
    have hsingle : ([(CLASS, Value.key CLASS_ERROR)] : Fields).lookup k = none := by
      rw [lookup_cons_ite, if_neg hk]
      rfl
    rw [hkept k hk hns, hsingle, Option.or_none]
  have hwritten : ∀ e ∈ InstanceOf.written errorProto d,
      e.2.Fits lim ∧ ∃ v, e.2.revive reg = .ok v := by
    intro e he
    rcases hinst.written_cases he with hv | hv | ⟨hclass, hns, hlook⟩ | hdefault
    · rw [hv]
      exact ⟨trivial, _, rfl⟩
    · rw [hv]
      exact ⟨trivial, _, rfl⟩
    · rw [hown _ hclass hns] at hlook
      have hcarried := h.carried _ (mem_of_lookup hlook)
      exact ⟨hcarried.1, _, hcarried.2⟩
    · rw [hs.errorFields] at hdefault
      exact hs.errorDefaults _ (mem_of_lookup hdefault)
  obtain ⟨bytes, decoded, hwrite, hne, hread, hfields⟩ := hinst.roundTrip hs.errorRoot
    (fun e he => (hwritten e he).1) fun e he => (hwritten e he).2
  -- a declared field is the error's own, or else the default
  have hfield : ∀ k dflt dflt', k ≠ CLASS → k ≠ NAMESPACE →
      (registeredSchema errorSchema).lookup k = some dflt → dflt.revive reg = .ok dflt' →
      decoded.lookup k = some ((error.lookup k).getD dflt') := by
    intro k dflt dflt' hclass hns hk hdflt
    rw [← hs.errorFields] at hk
    obtain ⟨v, hv, hlook⟩ := hfields k dflt hk
    rw [lookup_withNamespace d hns, hown k hclass hns] at hv
    rw [hlook]
    cases he : error.lookup k with
    | none =>
      rw [he, Option.getD_none, hdflt] at hv
      exact congrArg some (Except.ok.inj hv).symm
    | some w =>
      rw [he, Option.getD_some, (h.carried _ (mem_of_lookup he)).2] at hv
      exact congrArg some (Except.ok.inj hv).symm
  have hcode : error.lookup FIELD_ERROR_CODE = some code := (findField_keeps hfind).2
  refine ⟨bytes, decoded, ?_, hne, hread, ?_, ?_, ?_⟩
  · rw [encodeError, hfind]
    simp only [ok_bind, hnormal, hwrite]
    rfl
  · rw [hfield FIELD_ERROR_CODE (.key 0) (.key 0) (by decide) (by decide) rfl rfl, hcode]
    rfl
  · exact hfield FIELD_ERROR_MESSAGE (.string []) (.string []) (by decide) (by decide) rfl rfl
  · exact hfield FIELD_ERROR_DETAILS (.object Dynamic.empty) _ (by decide) (by decide) rfl
      hs.revive_empty

end Error

/-! ## The frame -/

section Frame

variable {lim : Limits} {reg : Registry μ} {errorProto envelopeProto : Prototype μ}

/-- Every default of the envelope schema is carried. -/
theorem envelopeDefaults (lim : Limits) (reg : Registry μ) :
    ∀ e ∈ registeredSchema envelopeSchema, e.2.Carried lim reg := by
  intro e he
  unfold registeredSchema envelopeSchema at he
  simp only [insertAll_cons, insertAll_nil] at he
  iterate 12
    rcases mem_insert he with rfl | he
    · first
      | exact ⟨trivial, rfl⟩
      | exact ⟨Nat.zero_le _, rfl⟩
  obtain rfl := List.mem_singleton.mp he
  exact ⟨trivial, rfl⟩

/-- What `encode` assigns, the last assignment first. -/
def Envelope.assigned (env : Envelope) (body : List UInt8) (error : Option (List UInt8)) : Fields :=
  env.trailer error ++ env.header body

/-- The two vectors in an envelope are ones a program can hold. -/
structure VectorsFit (lim : Limits) (body : List UInt8) (error : Option (List UInt8)) : Prop where
  body : body.length ≤ lim.maxBytes
  error : ∀ bytes, error = some bytes → bytes.length ≤ lim.maxBytes

/-- A value that the schema declares a field for. -/
theorem Assignable.ofSchema (hs : reg.HasSchemas errorProto envelopeProto) {name : Key}
    {v w : Value} (hns : name ≠ NAMESPACE) (hclass : name ≠ CLASS)
    (hw : (registeredSchema envelopeSchema).lookup name = some w) (hindex : w.index = v.index) :
    Assignable envelopeProto (name, v) :=
  ⟨hns, hclass, w, by rw [hs.envelopeFields]; exact hw, hindex⟩

/-- Every assignment is one that the schema allows, of a value that is carried. -/
theorem Envelope.assigned_spec (hs : reg.HasSchemas errorProto envelopeProto) (env : Envelope)
    {body : List UInt8} {error : Option (List UInt8)} (h : VectorsFit lim body error) :
    ∀ e ∈ env.assigned body error, Assignable envelopeProto e ∧ e.2.Carried lim reg := by
  intro e he
  have honeway : Assignable envelopeProto (FIELD_ONEWAY, .bool env.oneway) ∧
      (Value.bool env.oneway).Carried lim reg :=
    ⟨.ofSchema hs (by decide) (by decide) rfl rfl, trivial, rfl⟩
  rcases List.mem_append.mp he with he | he
  · cases error with
    | none =>
      obtain rfl := List.mem_singleton.mp he
      exact honeway
    | some bytes =>
      rcases List.mem_cons.mp he with rfl | he
      · exact ⟨.ofSchema hs (by decide) (by decide) rfl rfl, h.error bytes rfl, rfl⟩
      · obtain rfl := List.mem_singleton.mp he
        exact honeway
  · simp only [Envelope.header, List.mem_cons, List.not_mem_nil, or_false] at he
    rcases he with rfl | rfl | rfl | rfl | rfl | rfl | rfl | rfl
    case inr.inr.inr.inr.inr.inr.inr =>
      exact ⟨.ofSchema hs (by decide) (by decide) rfl rfl, h.body, rfl⟩
    all_goals exact ⟨.ofSchema hs (by decide) (by decide) rfl rfl, trivial, rfl⟩

theorem Envelope.header_keys (env : Envelope) (body : List UInt8) :
    (env.header body).map Prod.fst =
      [FIELD_VERSION, FIELD_KIND, FIELD_OP, FIELD_REQUEST_ID, FIELD_OBJECT_ID, FIELD_GROUP,
        FIELD_WITH_SCHEMA, FIELD_PAYLOAD] := rfl

/-- The trailer assigns what the header does not. -/
theorem Envelope.trailer_fresh (env : Envelope) (body : List UInt8)
    (error : Option (List UInt8)) : ((env.trailer error).map Prod.fst).Nodup ∧
      ∀ e ∈ env.trailer error, (env.header body).lookup e.1 = none := by
  cases error with
  | none =>
    refine ⟨List.nodup_singleton _, fun e he => ?_⟩
    obtain rfl := List.mem_singleton.mp he
    rfl
  | some bytes =>
    refine ⟨show [FIELD_ERROR, FIELD_ONEWAY].Nodup by decide, fun e he => ?_⟩
    rcases List.mem_cons.mp he with rfl | he
    · rfl
    · obtain rfl := List.mem_singleton.mp he
      rfl

/-- The object that `encode` fills: every field that is assigned. -/
theorem Envelope.filled (hs : reg.HasSchemas errorProto envelopeProto) (env : Envelope)
    {body : List UInt8} {error : Option (List UInt8)} (hfit : VectorsFit lim body error) :
    ∃ d d', setFields reg (env.header body) [(CLASS, .key CLASS_ENVELOPE)] = .ok ((), d) ∧
      setFields reg (env.trailer error) d = .ok ((), d') ∧ InstanceOf CLASS_ENVELOPE d' ∧
      ∀ k, k ≠ CLASS → k ≠ NAMESPACE → d'.lookup k = (env.assigned body error).lookup k := by
  have hstart : InstanceOf CLASS_ENVELOPE [(CLASS, .key CLASS_ENVELOPE)] :=
    ⟨sorted_singleton _ _, rfl, .inl rfl⟩
  have hsingle : ∀ k, k ≠ CLASS →
      ([(CLASS, Value.key CLASS_ENVELOPE)] : Fields).lookup k = none := by
    intro k hk
    rw [lookup_cons_ite, if_neg hk]
    rfl
  have hspec := Envelope.assigned_spec hs env hfit
  obtain ⟨hnd, hfresh⟩ := env.trailer_fresh body error
  have hnd₀ : ((env.header body).map Prod.fst).Nodup := by
    rw [Envelope.header_keys]
    decide
  obtain ⟨d, hset, hinst, hheader⟩ := InstanceOf.setFields hs.envelopeRoot hnd₀ (fun e he =>
    have hassign := (hspec e (List.mem_append_right _ he)).1
    ⟨hassign, hsingle _ hassign.notClass⟩) hstart
  obtain ⟨d', hset', hinst', htrailer⟩ := InstanceOf.setFields hs.envelopeRoot hnd (d := d)
    (fun e he => by
      have hassign := (hspec e (List.mem_append_left _ he)).1
      refine ⟨hassign, ?_⟩
      rw [hheader _ hassign.notNamespace, hsingle _ hassign.notClass, hfresh e he]
      rfl) hinst
  refine ⟨d, d', hset, hset', hinst', fun k hclass hns => ?_⟩
  rw [htrailer k hns, hheader k hns, hsingle k hclass, Option.or_none, Envelope.assigned,
    List.lookup_append]

/-- The frame of an envelope is read back to its end, with every field as it was assigned. -/
theorem frame_roundTrip (hs : reg.HasSchemas errorProto envelopeProto) (env : Envelope)
    {body : List UInt8} {error : Option (List UInt8)} (hfit : VectorsFit lim body error) :
    ∃ d d' frame r,
      setFields reg (env.header body) [(CLASS, .key CLASS_ENVELOPE)] = .ok ((), d) ∧
      setFields reg (env.trailer error) d = .ok ((), d') ∧
      Dynamic.serializeWithSchema reg d' = .ok (frame, withNamespace d') ∧
      bufferDeserializeWithSchema lim reg frame = .ok (r, []) ∧
      ∀ k dflt, k ≠ CLASS → k ≠ NAMESPACE →
        (registeredSchema envelopeSchema).lookup k = some dflt →
        r.lookup k = some (((env.assigned body error).lookup k).getD dflt) := by
  obtain ⟨d, d', hset, hset', hinst, hown⟩ := Envelope.filled hs env hfit
  have hcarried : ∀ e ∈ InstanceOf.written envelopeProto d', e.2.Carried lim reg := by
    intro e he
    rcases hinst.written_cases he with hv | hv | ⟨hclass, hns, hlook⟩ | hdefault
    · rw [hv]
      exact ⟨trivial, rfl⟩
    · rw [hv]
      exact ⟨trivial, rfl⟩
    · rw [hown _ hclass hns] at hlook
      exact (Envelope.assigned_spec hs env hfit _ (mem_of_lookup hlook)).2
    · rw [hs.envelopeFields] at hdefault
      exact envelopeDefaults lim reg _ (mem_of_lookup hdefault)
  obtain ⟨frame, r, hwrite, -, hread, hfields⟩ := hinst.roundTrip hs.envelopeRoot
    (fun e he => (hcarried e he).1) fun e he => ⟨_, (hcarried e he).2⟩
  refine ⟨d, d', frame, r, hset, hset', hwrite, hread, fun k dflt hclass hns hk => ?_⟩
  rw [← hs.envelopeFields] at hk
  obtain ⟨v, hv, hlook⟩ := hfields k dflt hk
  have hmem : (k, ((withNamespace d').lookup k).getD dflt) ∈
      InstanceOf.written envelopeProto d' :=
    List.mem_map_of_mem (f := fun e : Key × Value =>
      (e.1, ((withNamespace d').lookup e.1).getD e.2)) (mem_of_lookup hk)
  rw [(hcarried _ hmem).2] at hv
  rw [hlook, ← Except.ok.inj hv, lookup_withNamespace d' hns, hown k hclass hns]

end Frame

/-! ## The round trip -/

/-- The format that `with_schema` selects gives the payload back as `payload`. -/
def Envelope.PayloadReturns (lim : Limits) (reg : Registry μ) (env : Envelope)
    (payload : Fields) : Prop :=
  ∃ body d, encodePayload reg env.withSchema env.payload = .ok (body, d) ∧
    body.length ≤ lim.maxBytes ∧
    decodePayload lim reg env.withSchema body = .ok (payload, [])

/-- The error code of an envelope that can be sent, and the error where there is one. -/
inductive Envelope.HasError (lim : Limits) (reg : Registry μ) (env : Envelope) :
    Key → Option Fields → Prop where
  | none (d : Fields) : findField reg FIELD_ERROR_CODE env.error = .ok (none, d) →
      HasError lim reg env 0 none
  | some (code : Key) (error : Fields) :
      findField reg FIELD_ERROR_CODE env.error = .ok (some (.key code), error) →
      ErrorSurvives lim reg error →
      (∀ bytes, encodeError reg env.error = .ok (some bytes) → bytes.length ≤ lim.maxBytes) →
      HasError lim reg env code (some error)

/-- Every byte of the frame is read: those of its object, and those of the two vectors in it. -/
def Envelope.Consumes (lim : Limits) (reg : Registry μ) (frame : List UInt8)
    (decoded : Envelope) : Prop :=
  ∃ out body errorBytes, bufferDeserializeWithSchema lim reg frame = .ok (out, []) ∧
    out.lookup FIELD_PAYLOAD = some (.bytes body) ∧
    decodePayload lim reg decoded.withSchema body = .ok (decoded.payload, []) ∧
    out.lookup FIELD_ERROR = some (.bytes errorBytes) ∧
    decodeError lim reg errorBytes = .ok (decoded.error, [])

section RoundTrip

variable {lim : Limits} {reg : Registry μ} {errorProto envelopeProto : Prototype μ}

theorem readField_own {α : Type} {cast : Value → Except Exn α} {name : Key} {d : Fields}
    {v : Value} {a : α} (hv : d.lookup name = some v) (hcast : cast v = .ok a) :
    readField reg cast name d = .ok (a, d) := by
  rw [readField, bind_ok (InstanceOf.subscript_own hv), hcast]
  rfl

theorem readField_key {name k : Key} {d : Fields} (h : d.lookup name = some (.key k)) :
    readField reg castKey name d = .ok (k, d) :=
  readField_own h rfl

theorem readField_bool {name : Key} {b : Bool} {d : Fields} (h : d.lookup name = some (.bool b)) :
    readField reg castBool name d = .ok (b, d) :=
  readField_own h rfl

theorem readField_bytes {name : Key} {b : List UInt8} {d : Fields}
    (h : d.lookup name = some (.bytes b)) : readField reg asBytes name d = .ok (b, d) :=
  readField_own h rfl

/-- Once both vectors are known, so is what `encode` and `decode` do. -/
theorem roundTrip_of_vectors (hs : reg.HasSchemas errorProto envelopeProto) {env : Envelope}
    {body : List UInt8} {error : Option (List UInt8)} {d payload decodedError : Fields}
    (hfit : VectorsFit lim body error)
    (hpay : encodePayload reg env.withSchema env.payload = .ok (body, d))
    (hback : decodePayload lim reg env.withSchema body = .ok (payload, []))
    (herr : encodeError reg env.error = .ok error)
    (hdec : decodeError lim reg (error.getD []) = .ok (decodedError, [])) :
    ∃ frame, env.encode reg = .ok frame ∧
      Envelope.decode lim reg frame = .ok { env with payload := payload, error := decodedError } ∧
      Envelope.Consumes lim reg frame { env with payload := payload, error := decodedError } := by
  obtain ⟨d₁, d₂, frame, out, hheader, htrailer, hwrite, hread, hfield⟩ :=
    frame_roundTrip hs env hfit
  have hassigned : ∀ k v dflt, k ≠ CLASS → k ≠ NAMESPACE →
      (registeredSchema envelopeSchema).lookup k = some dflt →
      (env.header body).lookup k = some v → (env.trailer error).lookup k = none →
      out.lookup k = some v := by
    intro k v dflt hclass hns hk hv hnot
    rw [hfield k dflt hclass hns hk, Envelope.assigned, List.lookup_append, hnot, hv]
    rfl
  have htrail : ∀ k, k ≠ FIELD_ERROR → k ≠ FIELD_ONEWAY → (env.trailer error).lookup k = none := by
    intro k hk hk'
    cases error with
    | none =>
      rw [Envelope.trailer, lookup_cons_ite, if_neg hk']
      rfl
    | some bytes =>
      rw [Envelope.trailer, lookup_cons_ite, if_neg hk, lookup_cons_ite, if_neg hk']
      rfl
  have hversion : out.lookup FIELD_VERSION = some (.int32 env.version) :=
    hassigned _ _ _ (by decide) (by decide) rfl rfl (htrail _ (by decide) (by decide))
  have hkind : out.lookup FIELD_KIND = some (.key env.kind) :=
    hassigned _ _ _ (by decide) (by decide) rfl rfl (htrail _ (by decide) (by decide))
  have hop : out.lookup FIELD_OP = some (.key env.op) :=
    hassigned _ _ _ (by decide) (by decide) rfl rfl (htrail _ (by decide) (by decide))
  have hrequest : out.lookup FIELD_REQUEST_ID = some (.key env.requestId) :=
    hassigned _ _ _ (by decide) (by decide) rfl rfl (htrail _ (by decide) (by decide))
  have hobject : out.lookup FIELD_OBJECT_ID = some (.key env.objectId) :=
    hassigned _ _ _ (by decide) (by decide) rfl rfl (htrail _ (by decide) (by decide))
  have hgroup : out.lookup FIELD_GROUP = some (.key env.group) :=
    hassigned _ _ _ (by decide) (by decide) rfl rfl (htrail _ (by decide) (by decide))
  have hschema : out.lookup FIELD_WITH_SCHEMA = some (.bool env.withSchema) :=
    hassigned _ _ _ (by decide) (by decide) rfl rfl (htrail _ (by decide) (by decide))
  have hpayload : out.lookup FIELD_PAYLOAD = some (.bytes body) :=
    hassigned _ _ _ (by decide) (by decide) rfl rfl (htrail _ (by decide) (by decide))
  have honeway : out.lookup FIELD_ONEWAY = some (.bool env.oneway) := by
    rw [hfield FIELD_ONEWAY (.bool false) (by decide) (by decide) rfl]
    cases error <;> rfl
  have herror : out.lookup FIELD_ERROR = some (.bytes (error.getD [])) := by
    rw [hfield FIELD_ERROR (.bytes []) (by decide) (by decide) rfl]
    cases error <;> rfl
  refine ⟨frame, ?_, ?_, out, body, error.getD [], hread, hpayload, hback, herror, hdec⟩
  · rw [Envelope.encode, hpay]
    simp only [ok_bind, hheader, herr, htrailer, hwrite]
    rfl
  · have hof : Envelope.ofFields lim reg out =
        .ok ({ env with payload := payload, error := decodedError }, out) := by
      have hlift : ∀ r : Fields × List UInt8,
          Decoder.lift (Except.ok r : Except Exn _) out = Except.ok (r, out) := fun _ => rfl
      have hint : readField reg castInt32 FIELD_VERSION out = .ok (env.version, out) :=
        readField_own hversion rfl
      rw [Envelope.ofFields, bind_ok hint, bind_ok (readField_key hkind),
        bind_ok (readField_key hop), bind_ok (readField_key hrequest),
        bind_ok (readField_key hobject), bind_ok (readField_key hgroup),
        bind_ok (readField_bool hschema), bind_ok (readField_bool honeway),
        bind_ok (readField_bytes hpayload), hback, bind_ok (hlift _)]
      simp only
      rw [bind_ok (readField_bytes herror), hdec, bind_ok (hlift _)]
      rfl
    rw [Envelope.decode, hread]
    simp only [ok_bind, hof]
    rfl

/-- **Main result**: an envelope whose payload and error survive comes back: every field is the
same, the payload is what its format gives back, the error has its code, message and details, and
where there is no error the code reads as 0. Nothing of the frame is left. -/
theorem envelope_roundTrip (hs : reg.HasSchemas errorProto envelopeProto) {env : Envelope}
    {payload : Fields} {code : Key} {error : Option Fields}
    (hpay : env.PayloadReturns lim reg payload) (herr : env.HasError lim reg code error) :
    ∃ frame decoded, env.encode reg = .ok frame ∧ Envelope.decode lim reg frame = .ok decoded ∧
      decoded = { env with payload := payload, error := decoded.error } ∧
      (∃ d, asKey FIELD_ERROR_CODE decoded.error = .ok (code, d)) ∧
      (∀ e, error = some e → ErrorReturned e decoded.error) ∧
      Envelope.Consumes lim reg frame decoded := by
  obtain ⟨body, d, hbody, hlen, hback⟩ := hpay
  cases herr with
  | none d' hfind =>
    have hfit : VectorsFit lim body none := ⟨hlen, nofun⟩
    obtain ⟨frame, hencode, hdecode, hconsumes⟩ :=
      roundTrip_of_vectors hs hfit hbody hback (encodeError_none hfind) rfl
    exact ⟨frame, _, hencode, hdecode, rfl, ⟨_, rfl⟩, nofun, hconsumes⟩
  | some code error hfind hsurvives hbytes =>
    obtain ⟨bytes, decodedError, hwrite, hne, hread, hreturned⟩ :=
      encodeError_some hs hfind hsurvives
    have hdec : decodeError lim reg ((some bytes).getD []) = .ok (decodedError, []) := by
      have hnot : ¬ bytes.isEmpty = true := by
        rw [List.isEmpty_iff]
        exact hne
      show (if bytes.isEmpty then _ else _) = _
      rw [if_neg hnot]
      exact hread
    have hfit : VectorsFit lim body (some bytes) := by
      refine ⟨hlen, ?_⟩
      rintro _ ⟨⟩
      exact hbytes bytes hwrite
    obtain ⟨frame, hencode, hdecode, hconsumes⟩ :=
      roundTrip_of_vectors hs hfit hbody hback hwrite hdec
    refine ⟨frame, _, hencode, hdecode, rfl, ⟨decodedError, ?_⟩, ?_, hconsumes⟩
    · have hcode := hreturned.code
      rw [(findField_keeps hfind).2] at hcode
      rw [asKey, hcode]
    · rintro e ⟨⟩
      exact hreturned

/-- A payload in the standard format comes back as it is where it survives that format. -/
theorem Envelope.payloadReturns_standard {env : Envelope} (hstandard : env.withSchema = false)
    (hlen : (Dynamic.serialize env.payload).length ≤ lim.maxBytes)
    (hsurvives : bufferDeserialize lim reg (Dynamic.serialize env.payload) =
      .ok (env.payload, [])) : env.PayloadReturns lim reg env.payload := by
  refine ⟨Dynamic.serialize env.payload, env.payload, ?_, hlen, ?_⟩
  · rw [hstandard]
    rfl
  · rw [hstandard]
    exact hsurvives

end RoundTrip

/-! ## A failed call -/

namespace SampleFrames

def limits : Limits where
  maxString := 1024
  maxBools := 1024
  maxInt32s := 1024
  maxFloats := 1024
  maxBytes := 1024

def errorProto : Prototype Unit where
  fields := registeredSchema errorSchema
  factorySorted := Prototype.noFactory_sorted
  factoryThrows := Prototype.noFactory_throws

def envelopeProto : Prototype Unit where
  fields := registeredSchema envelopeSchema
  factorySorted := Prototype.noFactory_sorted
  factoryThrows := Prototype.noFactory_throws

def registry : Registry Unit := [(0, [(CLASS_ERROR, errorProto), (CLASS_ENVELOPE, envelopeProto)])]

theorem hasSchemas : registry.HasSchemas errorProto envelopeProto :=
  ⟨⟨_, rfl, rfl, rfl, rfl⟩, rfl, rfl⟩

/-- The error of the call: its code, its message and an object with details. -/
def error : Fields :=
  insertAll [(CLASS, .key CLASS_ERROR)]
    [(FIELD_ERROR_CODE, .key ERR_OBJECT_NOT_FOUND),
      (FIELD_ERROR_MESSAGE, .string (ascii "no such object")),
      (FIELD_ERROR_DETAILS, .object (withNamespace Dynamic.empty))]

/-- The answer to a call, with a payload of no class. -/
def answer (withSchema : Bool) : Envelope :=
  { kind := KIND_RESPONSE, op := OP_CALL, requestId := 7, objectId := 3, withSchema,
    payload := insert (key "x") (.int32 5) Dynamic.empty }

theorem survives : ErrorSurvives limits registry error where
  sorted := by decide
  isGlobal := .inl rfl
  carried := by
    intro e he
    unfold error at he
    simp only [insertAll_cons, insertAll_nil] at he
    rcases mem_insert he with rfl | he
    · exact ⟨⟨by decide, trivial, trivial, trivial⟩, rfl⟩
    rcases mem_insert he with rfl | he
    · exact ⟨show 14 ≤ 1024 by decide, rfl⟩
    rcases mem_insert he with rfl | he
    · exact ⟨trivial, rfl⟩
    obtain rfl := List.mem_singleton.mp he
    exact ⟨trivial, rfl⟩

end SampleFrames

/-- The answer comes back with its payload, and with the code of its error. -/
theorem envelope_roundTrip_answer : ∃ frame decoded,
    ({ SampleFrames.answer false with error := SampleFrames.error } : Envelope).encode
      SampleFrames.registry = .ok frame ∧
    Envelope.decode SampleFrames.limits SampleFrames.registry frame = .ok decoded ∧
    decoded.payload = (SampleFrames.answer false).payload ∧
    ∃ d, asKey FIELD_ERROR_CODE decoded.error = .ok (ERR_OBJECT_NOT_FOUND, d) := by
  have hbytes : ∀ bytes, encodeError SampleFrames.registry SampleFrames.error = .ok (some bytes) →
      bytes.length ≤ SampleFrames.limits.maxBytes := by
    intro bytes h
    obtain rfl := Option.some.inj (Except.ok.inj h).symm
    decide
  let env : Envelope := { SampleFrames.answer false with error := SampleFrames.error }
  have hback : bufferDeserialize SampleFrames.limits SampleFrames.registry
      (Dynamic.serialize (SampleFrames.answer false).payload) =
      .ok ((SampleFrames.answer false).payload, []) := rfl
  have hpayload : env.PayloadReturns SampleFrames.limits SampleFrames.registry env.payload :=
    Envelope.payloadReturns_standard rfl (by decide) hback
  have herror : env.HasError SampleFrames.limits SampleFrames.registry ERR_OBJECT_NOT_FOUND
      (some SampleFrames.error) :=
    .some ERR_OBJECT_NOT_FOUND SampleFrames.error rfl SampleFrames.survives hbytes
  obtain ⟨frame, decoded, hencode, hdecode, heq, hcode, -⟩ :=
    envelope_roundTrip SampleFrames.hasSchemas hpayload herror
  exact ⟨frame, decoded, hencode, hdecode, by rw [heq], hcode⟩

/-- A payload of no class survives the standard format, and is lost where `with_schema` asks for
the other one. -/
theorem envelope_loses_payload :
    bufferDeserialize SampleFrames.limits SampleFrames.registry
        (Dynamic.serialize (SampleFrames.answer true).payload) =
      .ok ((SampleFrames.answer true).payload, []) ∧
    ∃ frame decoded, (SampleFrames.answer true).encode SampleFrames.registry = .ok frame ∧
      Envelope.decode SampleFrames.limits SampleFrames.registry frame = .ok decoded ∧
      decoded.payload.lookup (key "x") = none := by
  have hbody : encodePayload SampleFrames.registry true (SampleFrames.answer true).payload =
      .ok (writeWord 0 ++ writeWord 0, withNamespace (SampleFrames.answer true).payload) := rfl
  have hback : decodePayload SampleFrames.limits SampleFrames.registry true
      (writeWord 0 ++ writeWord 0) = .ok (Dynamic.empty, []) := rfl
  have hfit : VectorsFit SampleFrames.limits (writeWord 0 ++ writeWord 0) none :=
    ⟨show 8 ≤ 1024 by decide, nofun⟩
  have herror : encodeError SampleFrames.registry (SampleFrames.answer true).error = .ok none := rfl
  obtain ⟨frame, hencode, hdecode, -⟩ :=
    roundTrip_of_vectors SampleFrames.hasSchemas hfit hbody hback herror rfl
  exact ⟨rfl, frame, _, hencode, hdecode, rfl⟩

end Bison
