import Bison.Core.Lookup
import Bison.Core.Serialization

/-!
# The standard format

`dynamic::serialize` and `dynamic::deserialize` (bison_object.hpp:1913–2149, FORMAT.md
"standard format"): a field count, then for each field its key, its type tag and its
payload; a nested object is written the same way behind a presence byte.

Decoding a nested object is not only structural. `deserialize_instance` looks the decoded
class up in the registry, has its factory make an instance, and overwrites the fields of
that instance. `Value.revive` is exactly this part: what the decoder makes of a value that
was written. The development is in two steps:

- `Value.deserialize_reads`: decoding what was written consumes exactly it and gives the
  revived value, or fails as reviving does.
- `Value.revive_eq_complete`: where every nested object carries its class as a key and
  registered factories add no fields, reviving only adds a missing NAMESPACE field.

**Main result** `deserialize_serialize`: the round trip of whole trees.
-/

namespace Bison

open SortedMap Decoder

/-! ## Writing -/

mutual

/-- `field::serialize(buffer_serializer&)`: tag byte and payload (bison_object.hpp:2024). -/
def Value.serialize : Value → List UInt8
  | .monostate => [0]
  | .hash h => 1 :: writeWord h
  | .key k => 2 :: writeWord k
  | .bool b => [3, writeBool b]
  | .int32 i => 4 :: writeWord i.toUInt32
  | .float bits => 5 :: writeWord bits
  | .null => [6, writeBool false]
  | .object fields => 6 :: writeBool true :: (writeCount fields.length ++ serializeEntries fields)
  | .string s => 7 :: writeBytes s
  | .bools v => 8 :: writeBools v
  | .int32s v => 9 :: writeWords (v.map Int32.toUInt32)
  | .floats v => 10 :: writeWords v
  | .bytes v => 11 :: writeBytes v

/-- The loop of `dynamic::serialize`: key and field, in map order. -/
def serializeEntries : Fields → List UInt8
  | [] => []
  | (k, v) :: rest => writeWord k ++ (v.serialize ++ serializeEntries rest)

end

/-- `dynamic::serialize(buffer_serializer&)` (bison_object.hpp:2092). -/
def Dynamic.serialize (fields : Fields) : List UInt8 :=
  writeCount fields.length ++ serializeEntries fields

/-! ## Reading -/

section Reading

variable {σ μ : Type} (rd : Reader σ)

/-- The switch of `field::deserialize` on the tag (bison_object.hpp:2043). `nested` decodes
the object behind a presence byte. -/
def Field.deserializeTagged (nested : Decoder Exn σ Fields) : Nat → Decoder Exn σ Value
  | 0 => pure .monostate
  | 1 => Value.hash <$> rd.word
  | 2 => Value.key <$> rd.word
  | 3 => Value.bool <$> rd.bool
  | 4 => (fun w => Value.int32 w.toInt32) <$> rd.word
  | 5 => Value.float <$> rd.word
  | 6 => do
    let present ← rd.bool
    if present then Value.object <$> nested else pure .null
  | 7 => Value.string <$> rd.string
  | 8 => Value.bools <$> rd.bools
  | 9 => (fun v => Value.int32s (v.map UInt32.toInt32)) <$> rd.int32s
  | 10 => Value.floats <$> rd.floats
  | 11 => Value.bytes <$> rd.bytes
  | _ => throw (.runtimeError "Not implemented")

/-- `field::deserialize`. -/
def Field.deserialize (nested : Decoder Exn σ Fields) : Decoder Exn σ Value := do
  let type ← rd.byte
  Field.deserializeTagged rd nested type.toNat

/-- The loop of `dynamic::deserialize`: `dyn.fields_[key] = field::deserialize(in)`. -/
def Dynamic.deserializeLoop (readField : Decoder Exn σ Value) :
    Nat → Fields → Decoder Exn σ Fields
  | 0, dyn => pure dyn
  | n + 1, dyn => do
    let key ← rd.word
    let f ← readField
    Dynamic.deserializeLoop readField n (insert key f dyn)

/-- `dynamic::deserialize`, given how a field is read (bison_object.hpp:2127). -/
def Dynamic.deserializeWith (readField : Decoder Exn σ Value) : Decoder Exn σ Fields := do
  let count ← rd.varint
  Dynamic.deserializeLoop rd readField count.toNat Dynamic.empty

/-- The tail of `deserialize_instance` (bison_object.hpp:2139): make an instance of the
decoded class and overwrite its fields with the decoded ones. -/
def finishInstance (reg : Registry μ) (dyn : Fields) : Except Exn Fields := do
  let (ns, dyn) ← getAsKey reg NAMESPACE dyn
  let (klass, dyn) ← getAsKey reg CLASS dyn
  match ← createInstance reg ns klass with
  | none => return dyn
  | some made => return insertAll made dyn

/-- `dynamic::deserialize_instance`; the fuel bounds the nesting depth. -/
def deserializeInstance (reg : Registry μ) : Nat → Decoder Exn σ Fields
  | 0 => throw .outOfFuel
  | fuel + 1 => do
    let dyn ← Dynamic.deserializeWith rd (Field.deserialize rd (deserializeInstance reg fuel))
    Decoder.lift (finishInstance reg dyn)

/-- `dynamic::deserialize` with `fuel` levels of nesting. -/
def Dynamic.deserialize (reg : Registry μ) (fuel : Nat) : Decoder Exn σ Fields :=
  Dynamic.deserializeWith rd (Field.deserialize rd (deserializeInstance rd reg fuel))

end Reading

/-- `dynamic::deserialize(buffer_deserializer&)` over a byte range. A nested object takes at
least one byte, so the range bounds the nesting depth. -/
def bufferDeserialize {μ : Type} (lim : Limits) (reg : Registry μ) :
    Decoder Exn (List UInt8) Fields :=
  fun bytes => Dynamic.deserialize (bufferReader lim) reg (bytes.length + 1) bytes

/-! ## What decoding makes of a written value -/

section Revive

variable {μ : Type} (reg : Registry μ)

mutual

/-- The value the decoder returns for a written value: nested objects go through
`deserialize_instance`. -/
def Value.revive : Value → Except Exn Value
  | .object fields => do
    let dyn ← reviveEntries fields Dynamic.empty
    Value.object <$> finishInstance reg dyn
  | v => .ok v

/-- The fields the decoding loop adds to `acc` for written fields. -/
def reviveEntries : Fields → Fields → Except Exn Fields
  | [], acc => .ok acc
  | (k, v) :: rest, acc => do
    let v' ← v.revive
    reviveEntries rest (insert k v' acc)

end

end Revive

mutual

/-- The containers of a value are ones a program can hold: maps are sorted, and strings and
vectors no larger than their maximum. -/
def Value.Fits (lim : Limits) : Value → Prop
  | .object fields => Sorted fields ∧ entriesFit lim fields
  | .string s => s.length ≤ lim.maxString
  | .bools v => v.length ≤ lim.maxBools
  | .int32s v => v.length ≤ lim.maxInt32s
  | .floats v => v.length ≤ lim.maxFloats
  | .bytes v => v.length ≤ lim.maxBytes
  | _ => True

def entriesFit (lim : Limits) : Fields → Prop
  | [] => True
  | (_, v) :: rest => v.Fits lim ∧ entriesFit lim rest

end

theorem entriesFit_iff {lim : Limits} : ∀ {es : Fields},
    entriesFit lim es ↔ ∀ e ∈ es, e.2.Fits lim
  | [] => by simp [entriesFit]
  | (k, v) :: rest => by simp [entriesFit, entriesFit_iff]

/-- Every encoding starts with a tag byte. -/
theorem Value.serialize_pos (v : Value) : 1 ≤ v.serialize.length := by
  cases v <;> simp [Value.serialize]

section Reads

variable {μ : Type} {lim : Limits} (reg : Registry μ)

/-- A tag byte selects its case of the switch. -/
theorem tagged_reads {nested : Decoder Exn (List UInt8) Fields} {tag : UInt8}
    {body : List UInt8} {r : Except Exn Value}
    (h : Reads (Field.deserializeTagged (bufferReader lim) nested tag.toNat) body r) :
    Reads (Field.deserialize (bufferReader lim) nested) (tag :: body) r :=
  (bufferReader_byte lim tag).bind_ok h

/-- A decoded count and the loop it drives. -/
theorem deserializeWith_reads {readField : Decoder Exn (List UInt8) Value} {fields : Fields}
    (hsorted : Sorted fields) {body : List UInt8} {r : Except Exn Fields}
    (h : Reads (Dynamic.deserializeLoop (bufferReader lim) readField fields.length Dynamic.empty)
      body r) :
    Reads (Dynamic.deserializeWith (bufferReader lim) readField)
      (writeCount fields.length ++ body) r := by
  have hlen : fields.length < 2 ^ 64 :=
    lt_of_le_of_lt (Fields.length_le hsorted) (by decide)
  refine counted_reads hlen fun count hcount => ?_
  rw [hcount]
  exact h

mutual

/-- Decoding a written field gives its revived value and stops at its end. -/
theorem Value.deserialize_reads : ∀ (v : Value) (fuel : Nat), v.Fits lim →
    v.serialize.length ≤ fuel →
      Reads (Field.deserialize (bufferReader lim)
        (deserializeInstance (bufferReader lim) reg fuel)) v.serialize (v.revive reg)
  | .monostate, _, _, _ => tagged_reads (Reads.pure _)
  | .hash h, _, _, _ => tagged_reads ((bufferReader_word lim h).map Value.hash)
  | .key k, _, _, _ => tagged_reads ((bufferReader_word lim k).map Value.key)
  | .bool b, _, _, _ => tagged_reads ((bufferReader_bool lim b).map Value.bool)
  | .int32 i, _, _, _ => by
    have h := (bufferReader_word lim i.toUInt32).map fun w => Value.int32 w.toInt32
    have hback : i.toUInt32.toInt32 = i := by simp
    simp only [Except.map, hback] at h
    exact tagged_reads h
  | .float bits, _, _, _ => tagged_reads ((bufferReader_word lim bits).map Value.float)
  | .null, _, _, _ =>
    tagged_reads ((bufferReader_bool lim false).bind_ok (Reads.pure _))
  | .string s, _, hfit, _ => tagged_reads ((bufferReader_string hfit).map Value.string)
  | .bools v, _, hfit, _ => tagged_reads ((bufferReader_bools hfit).map Value.bools)
  | .int32s v, _, hfit, _ => by
    have hlen : (v.map Int32.toUInt32).length ≤ lim.maxInt32s := by
      rw [List.length_map]; exact hfit
    have h := (bufferWords_reads lim.int32s_lt hlen).map fun v =>
      Value.int32s (v.map UInt32.toInt32)
    have hback : (v.map Int32.toUInt32).map UInt32.toInt32 = v := by
      simp [Function.comp_def]
    simp only [Except.map, hback] at h
    exact tagged_reads h
  | .floats v, _, hfit, _ =>
    tagged_reads ((bufferWords_reads lim.floats_lt hfit).map Value.floats)
  | .bytes v, _, hfit, _ => tagged_reads ((bufferReader_bytes hfit).map Value.bytes)
  | .object fields, fuel, hfit, hfuel => by
    -- the object spends a tag and a presence byte, so its fields have less than `fuel`
    obtain ⟨hsorted, hfields⟩ := hfit
    obtain ⟨fuel, rfl⟩ : ∃ f, fuel = f + 1 := ⟨fuel - 1, by
      simp only [Value.serialize, List.length_cons] at hfuel
      omega⟩
    have hloop := entries_deserialize_reads fields Dynamic.empty fuel hfields (by
      simp only [Value.serialize, List.length_cons, List.length_append] at hfuel
      omega)
    have hdyn := deserializeWith_reads hsorted hloop
    have hinst := hdyn.bind (f := fun dyn => Decoder.lift (finishInstance reg dyn))
      (g := finishInstance reg) fun dyn _ => Reads.lift (finishInstance reg dyn)
    rw [List.append_nil] at hinst
    have hobj := hinst.map Value.object
    have hpres := (bufferReader_bool lim true).bind_ok
      (f := fun present => if present then
        Value.object <$> deserializeInstance (bufferReader lim) reg (fuel + 1) else pure .null) hobj
    have hrev : (Value.object fields).revive reg =
        ((reviveEntries reg fields Dynamic.empty).bind (finishInstance reg)).map Value.object := by
      rw [Value.revive]
      cases reviveEntries reg fields Dynamic.empty <;> rfl
    rw [hrev]
    exact tagged_reads hpres

/-- Decoding written fields folds their revived values into the map. -/
theorem entries_deserialize_reads : ∀ (fields acc : Fields) (fuel : Nat), entriesFit lim fields →
    (serializeEntries fields).length ≤ fuel →
      Reads (Dynamic.deserializeLoop (bufferReader lim)
        (Field.deserialize (bufferReader lim) (deserializeInstance (bufferReader lim) reg fuel))
        fields.length acc) (serializeEntries fields) (reviveEntries reg fields acc)
  | [], acc, _, _, _ => Reads.pure acc
  | (k, v) :: rest, acc, fuel, hfit, hfuel => by
    simp only [serializeEntries, List.length_append] at hfuel
    have hv := Value.deserialize_reads v fuel hfit.1 (by omega)
    rw [serializeEntries, reviveEntries]
    refine (bufferReader_word lim k).bind_ok ?_
    refine hv.bind fun v' _ => ?_
    exact entries_deserialize_reads rest (insert k v' acc) fuel hfit.2 (by omega)

end

end Reads

/-! ## Trees as the API builds them -/

/-- The bookkeeping fields of one object: the class is a key, and the namespace is a key
where it is set. -/
def HeaderKeyed (d : Fields) : Prop :=
  (keyAt d CLASS).isSome ∧ (d.lookup NAMESPACE = none ∨ (keyAt d NAMESPACE).isSome)

instance (d : Fields) : Decidable (HeaderKeyed d) :=
  inferInstanceAs (Decidable (_ ∧ (_ ∨ _)))

mutual

/-- Every object of the value has keyed bookkeeping fields. -/
def Value.Keyed : Value → Prop
  | .object fields => HeaderKeyed fields ∧ entriesKeyed fields
  | _ => True

def entriesKeyed : Fields → Prop
  | [] => True
  | (_, v) :: rest => v.Keyed ∧ entriesKeyed rest

end

/-- A finite tree of dynamics: sorted maps, containers within their limits, and CLASS and
NAMESPACE holding keys in every object. -/
structure Tree (lim : Limits) where
  fields : Fields
  fits : (Value.object fields).Fits lim
  keyed : (Value.object fields).Keyed

/-- An object whose namespace was never resolved gets namespace 0. -/
def withNamespace (d : Fields) : Fields :=
  if (d.lookup NAMESPACE).isSome then d else insert NAMESPACE (.key 0) d

mutual

/-- The value with namespace 0 added to every nested object that has no namespace. -/
def Value.complete : Value → Value
  | .object fields => .object (withNamespace (completeEntries fields))
  | v => v

def completeEntries : Fields → Fields
  | [] => []
  | (k, v) :: rest => (k, v.complete) :: completeEntries rest

end

/-- Registered factories add no fields: what they make, if anything, holds at most CLASS and
NAMESPACE. -/
def Registry.FactoriesAddNothing {μ : Type} (reg : Registry μ) : Prop :=
  ∀ ns col klass p made, reg.lookup ns = some col → Collection.find col klass = some p →
    p.factory = some made → ∃ obj, made = .ok obj ∧
      ∀ d, obj = some d → ∀ k, (d.lookup k).isSome → k = CLASS ∨ k = NAMESPACE

/-! ## Reviving is completing -/

section Complete

variable {μ : Type} {reg : Registry μ}

theorem completeEntries_keys : ∀ es : Fields, (completeEntries es).map Prod.fst = es.map Prod.fst
  | [] => by rw [completeEntries]
  | (k, v) :: rest => by rw [completeEntries, List.map_cons, List.map_cons,
      completeEntries_keys rest]

theorem completeEntries_lookup (k : Key) : ∀ es : Fields,
    (completeEntries es).lookup k = (es.lookup k).map Value.complete
  | [] => by rw [completeEntries]; rfl
  | (k', v) :: rest => by
    rw [completeEntries, lookup_cons_ite, lookup_cons_ite, completeEntries_lookup k rest]
    split <;> rfl

theorem completeEntries_sorted {es : Fields} (h : Sorted es) : Sorted (completeEntries es) := by
  rw [sorted_iff_keys, completeEntries_keys]
  exact sorted_iff_keys.mp h

theorem completeEntries_keyAt (k : Key) (es : Fields) :
    keyAt (completeEntries es) k = keyAt es k := by
  unfold keyAt
  rw [completeEntries_lookup]
  cases es.lookup k with
  | none => rfl
  | some v => cases v <;> simp [Value.complete]

theorem completeEntries_headerKeyed {es : Fields} (h : HeaderKeyed es) :
    HeaderKeyed (completeEntries es) := by
  unfold HeaderKeyed
  rw [completeEntries_keyAt, completeEntries_keyAt, completeEntries_lookup, Option.map_eq_none_iff]
  exact h

/-- An empty dynamic, overwritten with the fields of an object, is that object. -/
theorem insertAll_empty {d : Fields} (hsorted : Sorted d) (hclass : (keyAt d CLASS).isSome) :
    insertAll Dynamic.empty d = d := by
  refine insertAll_eq_of_keys (sorted_singleton _ _) hsorted fun k hk => ?_
  have hk' : k = CLASS := by
    by_contra hne
    rw [Dynamic.empty, lookup_cons_ite, if_neg hne] at hk
    cases hk
  obtain ⟨c, hc⟩ := Option.isSome_iff_exists.mp hclass
  rw [hk', keyAt_eq_some_iff.mp hc]
  rfl

theorem keyAt_withNamespace (d : Fields) {k : Key} (h : k ≠ NAMESPACE) :
    keyAt (withNamespace d) k = keyAt d k := by
  refine keyAt_congr ?_
  unfold withNamespace
  split
  · rfl
  · exact lookup_insert_ne _ h d

theorem withNamespace_sorted {d : Fields} (h : Sorted d) : Sorted (withNamespace d) := by
  unfold withNamespace
  split
  · exact h
  · exact h.insert _ _

/-- The namespace of an object with keyed bookkeeping fields is a key once resolved. -/
theorem getAsKey_namespace (reg : Registry μ) {d : Fields} (h : HeaderKeyed d) :
    ∃ ns, keyAt (withNamespace d) NAMESPACE = some ns ∧
      getAsKey reg NAMESPACE d = .ok (ns, withNamespace d) := by
  obtain ⟨hclass, hns⟩ := h
  rcases hns with hnone | hkey
  · have hw : withNamespace d = insert NAMESPACE (.key 0) d := by
      rw [withNamespace, hnone]
      rfl
    rw [hw]
    exact ⟨0, by rw [keyAt_eq_some_iff, lookup_insert_self],
      getAsKey_namespace_none reg hnone hclass⟩
  · obtain ⟨ns, hns⟩ := Option.isSome_iff_exists.mp hkey
    have hw : withNamespace d = d := by
      rw [withNamespace, keyAt_eq_some_iff.mp hns]
      rfl
    rw [hw]
    exact ⟨ns, hns, getAsKey_of_keyAt hns⟩

/-- What `create_instance` makes holds at most CLASS and NAMESPACE. -/
theorem createInstance_addsNothing (hfac : reg.FactoriesAddNothing) (ns klass : Key) :
    ∃ obj, createInstance reg ns klass = .ok obj ∧
      ∀ d, obj = some d → Sorted d ∧ ∀ k, (d.lookup k).isSome → k = CLASS ∨ k = NAMESPACE := by
  unfold createInstance
  cases hcol : reg.lookup ns with
  | none => exact ⟨none, rfl, fun d h => nomatch h⟩
  | some col =>
    cases hp : Collection.find col klass with
    | none => exact ⟨none, by simp only [hp], fun d h => nomatch h⟩
    | some p =>
      simp only [hp]
      cases hf : p.factory with
      | none =>
        refine ⟨some (instantiate ns klass), rfl, ?_⟩
        rintro d ⟨⟩
        exact ⟨instantiate_sorted ns klass, instantiate_keys ns klass⟩
      | some made =>
        obtain ⟨obj, rfl, hobj⟩ := hfac ns col klass p made hcol hp hf
        refine ⟨obj, rfl, ?_⟩
        rintro d rfl
        exact ⟨p.factorySorted d hf, hobj d rfl⟩

/-- Passing an object with keyed bookkeeping fields through `deserialize_instance` only
resolves its namespace. -/
theorem finishInstance_eq (hfac : reg.FactoriesAddNothing) {d : Fields} (hsorted : Sorted d)
    (h : HeaderKeyed d) : finishInstance reg d = .ok (withNamespace d) := by
  obtain ⟨ns, hns, hgetns⟩ := getAsKey_namespace reg h
  obtain ⟨c, hc⟩ := Option.isSome_iff_exists.mp h.1
  rw [← keyAt_withNamespace d CLASS_ne_NAMESPACE] at hc
  obtain ⟨obj, hmade, hobj⟩ := createInstance_addsNothing hfac ns c
  unfold finishInstance
  simp only [hgetns, getAsKey_of_keyAt hc, hmade, Decoder.ok_bind]
  cases obj with
  | none => rfl
  | some made =>
    obtain ⟨hmsorted, hkeys⟩ := hobj made rfl
    have hall : insertAll made (withNamespace d) = withNamespace d := by
      refine insertAll_eq_of_keys hmsorted (withNamespace_sorted hsorted) fun k hk => ?_
      rcases hkeys k hk with rfl | rfl
      · rw [keyAt_eq_some_iff.mp hc]
        rfl
      · rw [keyAt_eq_some_iff.mp hns]
        rfl
    exact congrArg Except.ok hall

mutual

/-- **Reviving is completing** on trees the API builds. -/
theorem Value.revive_eq_complete (hfac : reg.FactoriesAddNothing) {lim : Limits} :
    ∀ v : Value, v.Fits lim → v.Keyed → v.revive reg = .ok v.complete
  | .object fields, hfit, hkeyed => by
    have hcomp := completeEntries_headerKeyed hkeyed.1
    have hsorted := completeEntries_sorted hfit.1
    rw [Value.revive, reviveEntries_eq_complete hfac fields _ hfit.2 hkeyed.2]
    simp only [Decoder.ok_bind, insertAll_empty hsorted hcomp.1,
      finishInstance_eq hfac hsorted hcomp]
    rw [Value.complete]
    rfl
  | .monostate, _, _ | .hash _, _, _ | .key _, _, _ | .bool _, _, _ | .int32 _, _, _
  | .float _, _, _ | .null, _, _ | .string _, _, _ | .bools _, _, _ | .int32s _, _, _
  | .floats _, _, _ | .bytes _, _, _ => by
    simp only [Value.revive, Value.complete]

theorem reviveEntries_eq_complete (hfac : reg.FactoriesAddNothing) {lim : Limits} :
    ∀ es acc : Fields, entriesFit lim es → entriesKeyed es →
      reviveEntries reg es acc = .ok (insertAll acc (completeEntries es))
  | [], acc, _, _ => by rw [reviveEntries, completeEntries, insertAll_nil]
  | (k, v) :: rest, acc, hfit, hkeyed => by
    rw [reviveEntries, Value.revive_eq_complete hfac v hfit.1 hkeyed.1, completeEntries,
      insertAll_cons]
    exact reviveEntries_eq_complete hfac rest (insert k v.complete acc) hfit.2 hkeyed.2

end

end Complete

/-! ## Completing twice -/

theorem completeEntries_insert_key (k k' : Key) (fields : Fields) :
    completeEntries (insert k (.key k') fields) = insert k (.key k') (completeEntries fields) := by
  induction fields with
  | nil => simp [completeEntries, Value.complete, SortedMap.insert]
  | cons e fields ih =>
    obtain ⟨k₁, v⟩ := e
    simp only [completeEntries, SortedMap.insert]
    split_ifs <;> simp [completeEntries, Value.complete, ih]

theorem completeEntries_withNamespace (fields : Fields) :
    completeEntries (withNamespace fields) = withNamespace (completeEntries fields) := by
  unfold withNamespace
  rw [completeEntries_lookup, Option.isSome_map]
  split
  · rfl
  · exact completeEntries_insert_key _ _ _

theorem withNamespace_twice (fields : Fields) :
    withNamespace (withNamespace fields) = withNamespace fields := by
  by_cases h : (fields.lookup NAMESPACE).isSome
  · have hsame : withNamespace fields = fields := if_pos h
    rw [hsame, hsame]
  · have hadded : withNamespace fields = insert NAMESPACE (.key 0) fields := if_neg h
    rw [hadded]
    exact if_pos (by rw [lookup_insert_self]; rfl)

mutual

/-- A value that has been read back once is read back the same. -/
theorem Value.complete_complete : ∀ v : Value, v.complete.complete = v.complete
  | .object fields => by
    simp only [Value.complete, completeEntries_withNamespace, completeEntries_twice fields,
      withNamespace_twice]
  | .monostate | .hash _ | .key _ | .bool _ | .int32 _ | .float _ | .null | .string _ | .bools _
  | .int32s _ | .floats _ | .bytes _ => by simp only [Value.complete]

theorem completeEntries_twice : ∀ fields : Fields,
    completeEntries (completeEntries fields) = completeEntries fields
  | [] => rfl
  | (k, v) :: rest => by
    simp only [completeEntries, Value.complete_complete v, completeEntries_twice rest]

end

/-! ## Round trip -/

/-- **Main result**: the buffer deserializer, applied to the bytes of `dynamic::serialize`
followed by anything, returns the tree and stops exactly at the end of those bytes. Keys,
tags and values are those written; a nested object without a namespace has gained
NAMESPACE = 0. -/
theorem deserialize_serialize {μ : Type} {lim : Limits} (reg : Registry μ)
    (hfac : reg.FactoriesAddNothing) (t : Tree lim) (rest : List UInt8) :
    bufferDeserialize lim reg (Dynamic.serialize t.fields ++ rest) =
      .ok (completeEntries t.fields, rest) := by
  obtain ⟨fields, ⟨hsorted, hfit⟩, hkeyed⟩ := t
  show Dynamic.deserialize (bufferReader lim) reg _ (Dynamic.serialize fields ++ rest) = _
  have hloop := entries_deserialize_reads reg fields Dynamic.empty
    ((Dynamic.serialize fields ++ rest).length + 1) hfit (by
      simp only [Dynamic.serialize, List.length_append]
      omega)
  have hread := deserializeWith_reads hsorted hloop rest
  have hcomp := completeEntries_headerKeyed hkeyed.1
  rw [reviveEntries_eq_complete hfac fields _ hfit hkeyed.2,
    insertAll_empty (completeEntries_sorted hsorted) hcomp.1] at hread
  exact hread

/-! ## A concrete tree -/

namespace Sample

/-- A class `A` with one integer field and a factory that makes a bare instance. -/
def classA : Prototype Unit where
  fields := [(CLASS, .key (key "A")), (NAMESPACE, .key 0), (PARENT, .key 0), (key "x", .int32 3)]
  factory := some (.ok (some (instantiate 0 (key "A"))))
  factorySorted := by
    rintro d ⟨⟩
    exact instantiate_sorted _ _

def registry : Registry Unit := [(0, [(key "A", classA)])]

def limits : Limits where
  maxString := 16
  maxBools := 16
  maxInt32s := 16
  maxFloats := 16
  maxBytes := 16

/-- An anonymous object holding an instance of `A` that sets a string and an array. -/
def tree : Tree limits where
  fields :=
    [(CLASS, .key 0),
      (key "child", .object
        [(key "name", .string [104, 105]), (CLASS, .key (key "A")),
          (key "v", .bools [true, false])])]
  fits := ⟨by decide, trivial, ⟨by decide, show 2 ≤ 16 by decide, trivial,
    show 2 ≤ 16 by decide, trivial⟩, trivial⟩
  keyed := ⟨by decide, trivial, ⟨by decide, trivial, trivial, trivial, trivial⟩, trivial⟩

theorem factoriesAddNothing : registry.FactoriesAddNothing := by
  intro ns col klass p made hcol hp hmade
  have hcol' := mem_of_lookup hcol
  obtain ⟨rfl, rfl⟩ := Prod.mk.inj (List.mem_singleton.mp hcol')
  obtain ⟨rfl, rfl⟩ := Prod.mk.inj (List.mem_singleton.mp (mem_of_lookup hp))
  obtain rfl := Option.some.inj hmade
  refine ⟨_, rfl, ?_⟩
  rintro d ⟨⟩
  exact instantiate_keys _ _

end Sample

/-- The nested instance comes back with namespace 0, and the byte after the encoding is
left. -/
theorem deserialize_serialize_sample :
    bufferDeserialize Sample.limits Sample.registry
        (Dynamic.serialize Sample.tree.fields ++ [9]) =
      .ok ([(CLASS, .key 0),
        (key "child", .object
          [(key "name", .string [104, 105]), (CLASS, .key (key "A")), (NAMESPACE, .key 0),
            (key "v", .bools [true, false])])], [9]) := by
  rw [deserialize_serialize Sample.registry Sample.factoriesAddNothing Sample.tree [9]]
  rfl

end Bison
