import Mathlib.Algebra.BigOperators.Group.List.Basic
import Mathlib.Data.List.Forall2
import Bison.Core.StandardFormat

/-!
# The schema format

`dynamic::serializeWithSchema` and `dynamic::deserializeWithSchema` (bison_object.hpp:2101,
2151, FORMAT.md "schema format"): namespace and class, then, for every class from the
object's own up to the root, the value of each field the class declares, without keys or
tags of the object. The reader walks the same chain in the registry and stores each value
under the key the class declares it with.

A field that several classes of the chain declare is therefore on the wire several times,
and the reader keeps the copy it reads last, the one of the class nearest to the root. The
object itself resolves such a field to its own value, else to the default of the class
nearest to it (`findField`). So the two agree exactly where the copies do:

- `serializeWithSchema_eq`, `schema_reads`: the writer's bytes and what the reader makes of
  them, for every registered chain.
- `findField_eq_nearest`: what `findField` resolves.
- `schemaRoundTrip_iff`: **main result**, the round trip holds exactly when every written
  value decodes, own values come back unchanged, and the root-most default of each field
  the object does not set comes back as the nearest one.
-/

namespace Bison

open SortedMap Decoder

variable {μ : Type}

/-! ## Writing -/

/-- What the writer emits for one class: each declared field, with the object's own value
where it has one and the default otherwise. -/
def writtenAt (d : Fields) (p : Prototype μ) : Fields :=
  p.fields.map fun e => (e.1, (d.lookup e.1).getD e.2)

/-- `dynamic::serializeWithSchema(buffer_serializer&)` (bison_object.hpp:2101). -/
def Dynamic.serializeWithSchema (reg : Registry μ) : DynamicM (List UInt8) := fun d => do
  let (klass, d) ← asKey CLASS d
  let (ns, d) ← resolveNamespace d
  let header := writeWord ns ++ writeWord klass
  match reg.lookup ns with
  | none => .ok (header, d)
  | some col =>
    match col.chain klass with
    | none => .error .diverges
    | some ps =>
      .ok (header ++ ps.flatMap fun p => (writtenAt d p).flatMap fun e => e.2.serialize, d)

/-! ## Reading -/

section Reading

variable {σ : Type}

/-- The inner loop of the reader: one value for each field the prototype declares. -/
def readDeclared (readField : Decoder Exn σ Value) : Fields → Fields → Decoder Exn σ Fields
  | [], dyn => pure dyn
  | (k, _) :: rest, dyn => do
    let f ← readField
    readDeclared readField rest (insert k f dyn)

/-- The outer loop of the reader, up the class chain; the fuel bounds its length. -/
def schemaLoop (readField : Decoder Exn σ Value) (col : Collection μ) :
    Nat → Key → Fields → Decoder Exn σ Fields
  | 0, _, _ => throw .outOfFuel
  | fuel + 1, klass, dyn =>
    match Collection.find col klass with
    | none => pure dyn
    | some p => do
      let dyn ← readDeclared readField p.fields dyn
      schemaLoop readField col fuel p.parent dyn

/-- `dynamic::deserializeWithSchema` (bison_object.hpp:2151). -/
def Dynamic.deserializeWithSchema (rd : Reader σ) (reg : Registry μ) (fuel : Nat) :
    Decoder Exn σ Fields := do
  let ns ← rd.word
  let klass ← rd.word
  match reg.lookup ns with
  | none => pure Dynamic.empty
  | some col =>
    schemaLoop (Field.deserialize rd (deserializeInstance rd reg fuel)) col fuel klass
      Dynamic.empty

end Reading

/-- `deserializeWithSchema(buffer_deserializer&)` over a byte range: every class of the chain
and every nested object takes at least one byte. -/
def bufferDeserializeWithSchema (lim : Limits) (reg : Registry μ) :
    Decoder Exn (List UInt8) Fields :=
  fun bytes => Dynamic.deserializeWithSchema (bufferReader lim) reg (bytes.length + 1) bytes

/-! ## Reviving a list of bindings -/

section Revive

variable (reg : Registry μ)

theorem reviveEntries_append : ∀ es es' acc : Fields,
    reviveEntries reg (es ++ es') acc = (reviveEntries reg es acc).bind (reviveEntries reg es')
  | [], es', acc => by
    rw [reviveEntries]
    rfl
  | (k, v) :: es, es', acc => by
    rw [List.cons_append, reviveEntries, reviveEntries]
    cases v.revive reg with
    | error e => rfl
    | ok v' => exact reviveEntries_append es es' (insert k v' acc)

/-- `e'` is the binding `e` after decoding. -/
def Revived (e e' : Key × Value) : Prop :=
  e'.1 = e.1 ∧ e.2.revive reg = .ok e'.2

/-- Reviving a list of bindings into a map succeeds exactly where each binding revives. -/
theorem reviveEntries_eq_ok {r : Fields} : ∀ {es acc : Fields},
    reviveEntries reg es acc = .ok r ↔
      ∃ es', List.Forall₂ (Revived reg) es es' ∧ r = insertAll acc es'
  | [], acc => by
    rw [reviveEntries]
    constructor
    · rintro ⟨⟩
      exact ⟨[], .nil, rfl⟩
    · rintro ⟨es', hes, rfl⟩
      cases hes
      rfl
  | (k, v) :: es, acc => by
    rw [reviveEntries]
    cases hv : v.revive reg with
    | error e =>
      constructor
      · rintro ⟨⟩
      · rintro ⟨es', hes, -⟩
        cases hes with
        | cons h _ =>
          rw [h.2] at hv
          cases hv
    | ok v' =>
      rw [ok_bind, reviveEntries_eq_ok]
      constructor
      · rintro ⟨es', hes, rfl⟩
        exact ⟨(k, v') :: es', .cons ⟨rfl, hv⟩ hes, rfl⟩
      · rintro ⟨es', hes, rfl⟩
        cases hes with
        | @cons _ e' _ es' h hes =>
          obtain ⟨k', w⟩ := e'
          obtain ⟨rfl, hw⟩ := h
          rw [hv] at hw
          cases hw
          exact ⟨es', hes, rfl⟩

/-- Bindings revive together exactly where each does. -/
theorem exists_revived {es : Fields} :
    (∃ es', List.Forall₂ (Revived reg) es es') ↔ ∀ e ∈ es, ∃ v', e.2.revive reg = .ok v' := by
  induction es with
  | nil =>
    constructor
    · intro _ e he
      cases he
    · intro _
      exact ⟨[], .nil⟩
  | cons e es ih =>
    constructor
    · rintro ⟨_, hes⟩
      cases hes with
      | cons he hes =>
        intro x hx
        rcases List.mem_cons.mp hx with rfl | hx
        · exact ⟨_, he.2⟩
        · exact ih.mp ⟨_, hes⟩ x hx
    · intro h
      obtain ⟨v', hv⟩ := h e (by simp)
      obtain ⟨es', hes⟩ := ih.mpr fun x hx => h x (List.mem_cons_of_mem _ hx)
      exact ⟨(e.1, v') :: es', .cons ⟨rfl, hv⟩ hes⟩

/-- Lookup goes through reviving. -/
theorem lookup_revived {es es' : Fields} (h : List.Forall₂ (Revived reg) es es') (k : Key) :
    match es.lookup k with
    | none => es'.lookup k = none
    | some v => ∃ v', v.revive reg = .ok v' ∧ es'.lookup k = some v' := by
  induction h with
  | nil => rfl
  | @cons e e' es es' he _ ih =>
    obtain ⟨k₁, v₁⟩ := e
    obtain ⟨k₂, v₂⟩ := e'
    obtain ⟨rfl, hv⟩ := he
    simp only [lookup_cons_ite]
    by_cases hk : k = k₂
    · simp only [if_pos hk]
      exact ⟨v₂, hv, rfl⟩
    · simp only [if_neg hk]
      exact ih

end Revive

/-! ## The bytes are read back along the same chain -/

section Reads

variable (reg : Registry μ)

theorem readDeclared_reads {readField : Decoder Exn (List UInt8) Value}
    (w : Key × Value → Value) : ∀ fs acc : Fields,
    (∀ e ∈ fs, Reads readField (w e).serialize ((w e).revive reg)) →
      Reads (readDeclared readField fs acc) (fs.flatMap fun e => (w e).serialize)
        (reviveEntries reg (fs.map fun e => (e.1, w e)) acc)
  | [], acc, _ => by
    rw [List.map_nil, reviveEntries]
    exact Reads.pure acc
  | (k, v) :: rest, acc, h => by
    rw [List.flatMap_cons, List.map_cons, reviveEntries]
    refine (h (k, v) (by simp)).bind fun v' _ => ?_
    exact readDeclared_reads w rest (insert k v' acc) fun e he => h e (List.mem_cons_of_mem _ he)

/-- **Loop lemma**: on the values written for the classes of the chain, the reader's loop
revives them all into the map, first class first. -/
theorem schemaLoop_reads {readField : Decoder Exn (List UInt8) Value} {col : Collection μ}
    {d : Fields} :
    ∀ (n fuel : Nat) (klass : Key) (ps : List (Prototype μ)) (acc : Fields),
      Chase.chain (Collection.find col) Prototype.parent n klass = some ps →
      ps.length < fuel →
      (∀ p ∈ ps, ∀ e ∈ writtenAt d p, Reads readField e.2.serialize (e.2.revive reg)) →
      Reads (schemaLoop readField col fuel klass acc)
        (ps.flatMap fun p => (writtenAt d p).flatMap fun e => e.2.serialize)
        (reviveEntries reg (ps.flatMap (writtenAt d)) acc)
  | n + 1, fuel + 1, klass, ps, acc, hchain, hfuel, hread => by
    rw [schemaLoop]
    cases hp : Collection.find col klass with
    | none =>
      rw [Chase.chain_of_none n hp] at hchain
      cases hchain
      rw [List.flatMap_nil, List.flatMap_nil, reviveEntries]
      exact Reads.pure acc
    | some p =>
      rw [Chase.chain_of_some n hp, Option.map_eq_some_iff] at hchain
      obtain ⟨ps, hps, rfl⟩ := hchain
      have hhead := readDeclared_reads reg (fun e => (d.lookup e.1).getD e.2) p.fields acc
        fun e he => hread p (by simp) _ (List.mem_map_of_mem he)
      have hbytes : (writtenAt d p).flatMap (fun e => e.2.serialize) =
          p.fields.flatMap fun e => ((d.lookup e.1).getD e.2).serialize := by
        rw [writtenAt, List.flatMap_map]
      rw [List.flatMap_cons, List.flatMap_cons, reviveEntries_append, hbytes]
      refine hhead.bind fun dyn _ => ?_
      exact schemaLoop_reads n fuel p.parent ps dyn hps
        (by rw [List.length_cons] at hfuel; omega)
        fun q hq => hread q (List.mem_cons_of_mem _ hq)

end Reads

/-! ## What the object resolves, and what is written last -/

section Copies

variable {reg : Registry μ}

/-- The value `findField` resolves along a chain: the own value, else the default of the
nearest class that declares the field. -/
def nearest (d : Fields) (ps : List (Prototype μ)) (k : Key) : Option Value :=
  (d.lookup k).or (ps.findSome? fun p => p.fields.lookup k)

/-- The copy of a field that is written last: the own value, else the default of the
root-most class that declares the field. -/
def rootmost (d : Fields) (ps : List (Prototype μ)) (k : Key) : Option Value :=
  nearest d ps.reverse k

theorem lookup_writtenAt (d : Fields) (p : Prototype μ) (k : Key) :
    (writtenAt d p).reverse.lookup k = (p.fields.lookup k).map fun v => (d.lookup k).getD v := by
  have hsorted : Sorted (writtenAt d p) := by
    rw [sorted_iff_keys, writtenAt, List.map_map]
    exact sorted_iff_keys.mp p.sorted
  rw [hsorted.lookup_reverse, writtenAt]
  generalize p.fields = fs
  induction fs with
  | nil => rfl
  | cons e fs ih =>
    obtain ⟨k', v⟩ := e
    rw [List.map_cons, lookup_cons_ite, lookup_cons_ite, ih]
    by_cases hk : k = k'
    · rw [if_pos hk, if_pos hk, hk]
      rfl
    · rw [if_neg hk, if_neg hk]

/-- The last copy of a declared field among everything written for the chain. -/
theorem lookup_written (d : Fields) (k : Key) : ∀ ps : List (Prototype μ),
    (ps.flatMap (writtenAt d)).reverse.lookup k =
      (ps.reverse.findSome? fun p => p.fields.lookup k).map fun v => (d.lookup k).getD v
  | [] => rfl
  | p :: ps => by
    rw [List.flatMap_cons, List.reverse_append, List.lookup_append, lookup_written d k ps,
      lookup_writtenAt, List.reverse_cons, List.findSome?_append, List.findSome?_singleton]
    cases ps.reverse.findSome? fun p => p.fields.lookup k <;> rfl

/-- What the reader has under a declared key: the copy written last, decoded. -/
theorem lookup_of_revived {d r : Fields} {ps : List (Prototype μ)} {k : Key} {dflt : Value}
    (h : reviveEntries reg (ps.flatMap (writtenAt d)) Dynamic.empty = .ok r)
    (hk : (ps.reverse.findSome? fun p => p.fields.lookup k) = some dflt) :
    ∃ v, ((d.lookup k).getD dflt).revive reg = .ok v ∧ r.lookup k = some v := by
  obtain ⟨es', hes, rfl⟩ := (reviveEntries_eq_ok reg).mp h
  have hlast := lookup_revived reg (List.rel_reverse hes) k
  rw [lookup_written, hk] at hlast
  obtain ⟨v, hv, hlook⟩ := hlast
  refine ⟨v, hv, ?_⟩
  rw [lookup_insertAll, hlook]
  rfl

end Copies

/-! ## Instances of a registered class -/

/-- An object whose class is registered in its namespace. -/
structure ClassInstance (lim : Limits) (reg : Registry μ) where
  fields : Fields
  ns : Key
  klass : Key
  col : Collection μ
  sorted : Sorted fields
  fits : entriesFit lim fields
  isClass : keyAt fields CLASS = some klass
  inNamespace : fields.lookup NAMESPACE = none ∧ ns = 0 ∨ keyAt fields NAMESPACE = some ns
  hasNamespace : reg.lookup ns = some col
  registered : (Collection.find col klass).isSome

/-- The containers in every prototype are ones a program can hold. -/
def Registry.Fits (lim : Limits) (reg : Registry μ) : Prop :=
  ∀ ns col klass p, reg.lookup ns = some col → Collection.find col klass = some p →
    entriesFit lim p.fields

namespace ClassInstance

variable {lim : Limits} {reg : Registry μ} (i : ClassInstance lim reg)

/-- The classes of the object, its own first. -/
def classes : List (Prototype μ) :=
  (Collection.chain i.col i.klass).getD []

/-- The field map once the namespace is resolved. -/
def resolved : Fields := withNamespace i.fields

/-- A field, other than the bookkeeping ones, that some class of the chain declares. -/
def UserField (k : Key) : Prop :=
  k ≠ CLASS ∧ k ≠ PARENT ∧ k ≠ NAMESPACE ∧ ∃ p ∈ i.classes, (p.fields.lookup k).isSome

/-- **The round trip**: what was written for the object is read back, whatever follows it;
the reader stops at its end, and CLASS, NAMESPACE and every user field have the value that
`findField` resolves on the object. -/
def SchemaRoundTrips (rest : List UInt8) : Prop :=
  ∃ bytes d' r, Dynamic.serializeWithSchema reg i.fields = .ok (bytes, d') ∧
    bufferDeserializeWithSchema lim reg (bytes ++ rest) = .ok (r, rest) ∧
    ∀ k, k = CLASS ∨ k = NAMESPACE ∨ i.UserField k →
      ∃ v dk, findField reg k i.fields = .ok (some v, dk) ∧ r.lookup k = some v

/-- The condition for it, on the values alone. `decodes`: no nested object is refused by
the instance-creating decoder. `own`: a value the object sets comes back as it is.
`defaults`: where the object does not set a field, the default of the root-most class that
declares it comes back as the default of the nearest one. -/
structure CopiesAgree : Prop where
  decodes : ∀ p ∈ i.classes, ∀ e ∈ writtenAt i.resolved p, ∃ v, e.2.revive reg = .ok v
  own : ∀ k v, i.UserField k → i.fields.lookup k = some v → v.revive reg = .ok v
  defaults : ∀ k near far, i.UserField k → i.fields.lookup k = none →
    nearest i.fields i.classes k = some near → rootmost i.fields i.classes k = some far →
      far.revive reg = .ok near

/-! ### The chain, the header and the resolved fields -/

variable {i}

theorem chain_eq (hac : reg.Acyclic) : Collection.chain i.col i.klass = some i.classes := by
  obtain ⟨ps, hps⟩ := (hac i.ns i.col i.hasNamespace).chain i.klass
  rw [classes, hps]
  rfl

theorem classes_ne_nil (hac : reg.Acyclic) : i.classes ≠ [] := by
  obtain ⟨p, hp⟩ := Option.isSome_iff_exists.mp i.registered
  have hchain := chain_eq (i := i) hac
  rw [Collection.chain, Chase.chain_of_some _ hp, Option.map_eq_some_iff] at hchain
  obtain ⟨ps, -, heq⟩ := hchain
  rw [← heq]
  exact List.cons_ne_nil _ _

theorem fits_of_mem (hac : reg.Acyclic) (hfit : reg.Fits lim) {p : Prototype μ}
    (hp : p ∈ i.classes) : entriesFit lim p.fields := by
  obtain ⟨k, hk⟩ := Chase.find_of_mem_chain (chain_eq hac) p hp
  exact hfit i.ns i.col k p i.hasNamespace hk

theorem resolveNamespace_eq : resolveNamespace i.fields = .ok (i.ns, i.resolved) := by
  unfold resolveNamespace resolved withNamespace
  rcases i.inNamespace with ⟨hnone, hns⟩ | hkey
  · rw [hnone, hns]
    rfl
  · rw [keyAt_eq_some_iff.mp hkey]
    rfl

theorem lookup_resolved {k : Key} (hk : k ≠ NAMESPACE) :
    i.resolved.lookup k = i.fields.lookup k := by
  unfold resolved withNamespace
  split
  · rfl
  · exact lookup_insert_ne _ hk _

theorem resolved_class : keyAt i.resolved CLASS = some i.klass := by
  rw [keyAt_congr (lookup_resolved CLASS_ne_NAMESPACE)]
  exact i.isClass

theorem resolved_namespace : keyAt i.resolved NAMESPACE = some i.ns := by
  unfold resolved withNamespace
  rcases i.inNamespace with ⟨hnone, hns⟩ | hkey
  · rw [hnone, hns]
    exact keyAt_eq_some_iff.mpr (lookup_insert_self _ _ _)
  · rw [keyAt_eq_some_iff.mp hkey]
    exact hkey

/-- The bytes the writer emits. -/
def bytes (i : ClassInstance lim reg) : List UInt8 :=
  writeWord i.ns ++ writeWord i.klass ++
    i.classes.flatMap fun p => (writtenAt i.resolved p).flatMap fun e => e.2.serialize

theorem serializeWithSchema_eq (hac : reg.Acyclic) :
    Dynamic.serializeWithSchema reg i.fields = .ok (i.bytes, i.resolved) := by
  rw [Dynamic.serializeWithSchema, asKey_of_keyAt i.isClass]
  simp only [ok_bind, resolveNamespace_eq, i.hasNamespace, chain_eq hac]
  rfl

/-! ### What `findField` resolves -/

/-- `findField` on a user field gives the own value, else the nearest default. -/
theorem findField_eq_nearest (hac : reg.Acyclic) {k : Key} (hk : i.UserField k) :
    ∃ dk, findField reg k i.fields = .ok (nearest i.fields i.classes k, dk) := by
  unfold findField nearest
  cases hown : i.fields.lookup k with
  | some v => exact ⟨_, rfl⟩
  | none =>
    have hres : i.resolved.lookup k = none := by
      rw [lookup_resolved hk.2.2.1, hown]
    have hsearch : Collection.search i.col (fun p => p.fields.lookup k) i.klass =
        some (i.classes.findSome? fun p => p.fields.lookup k) :=
      Chase.search_of_chain _ (chain_eq hac)
    simp only [resolveNamespace_eq, ok_bind, i.hasNamespace, asKey_of_keyAt resolved_class,
      hsearch, Option.none_or]
    cases i.classes.findSome? fun p => p.fields.lookup k with
    | none => exact ⟨i.resolved, by simp only [hres]⟩
    | some v =>
      have hnew : insertNew k v i.resolved = insert k v i.resolved := by
        rw [insertNew, hres]
        rfl
      exact ⟨insert k v i.resolved, by simp only [hnew, lookup_insert_self]⟩

theorem findField_class : findField reg CLASS i.fields = .ok (some (.key i.klass), i.fields) := by
  rw [findField, keyAt_eq_some_iff.mp i.isClass]

theorem findField_namespace :
    findField reg NAMESPACE i.fields = .ok (some (.key i.ns), i.resolved) := by
  unfold resolved withNamespace
  rcases i.inNamespace with ⟨hnone, hns⟩ | hkey
  · rw [hnone, hns]
    exact findField_namespace_none reg hnone (by rw [i.isClass]; rfl)
  · rw [findField, keyAt_eq_some_iff.mp hkey]
    rfl

/-! ### Reading the bytes back -/

theorem written_fits (hac : reg.Acyclic) (hfit : reg.Fits lim) {p : Prototype μ}
    (hp : p ∈ i.classes) {e : Key × Value} (he : e ∈ writtenAt i.resolved p) : e.2.Fits lim := by
  obtain ⟨e', he', rfl⟩ := List.mem_map.mp he
  show ((i.resolved.lookup e'.1).getD e'.2).Fits lim
  cases hown : i.resolved.lookup e'.1 with
  | none => exact entriesFit_iff.mp (fits_of_mem hac hfit hp) e' he'
  | some v =>
    have hmem := mem_of_lookup hown
    unfold resolved withNamespace at hmem
    split at hmem
    · exact entriesFit_iff.mp i.fits _ hmem
    · rcases mem_insert hmem with heq | hmem
      · rw [(Prod.mk.inj heq).2]
        trivial
      · exact entriesFit_iff.mp i.fits _ hmem

/-- A written value is no longer than everything written. -/
theorem serialize_length_le {p : Prototype μ} (hp : p ∈ i.classes) {e : Key × Value}
    (he : e ∈ writtenAt i.resolved p) : e.2.serialize.length ≤ i.bytes.length := by
  have hinner := (List.sublist_flatten_of_mem
    (List.mem_map_of_mem (f := fun e : Key × Value => e.2.serialize) he)).length_le
  have houter := (List.sublist_flatten_of_mem (List.mem_map_of_mem
    (f := fun p => (writtenAt i.resolved p).flatMap fun e => e.2.serialize) hp)).length_le
  rw [← List.flatMap_def] at hinner houter
  rw [bytes, List.length_append]
  omega

/-- Every class of the chain writes at least one byte. -/
theorem classes_length_le : i.classes.length ≤ i.bytes.length := by
  have hone : ∀ p : Prototype μ,
      1 ≤ ((writtenAt i.resolved p).flatMap fun e => e.2.serialize).length := by
    intro p
    obtain ⟨c, hc⟩ := Option.isSome_iff_exists.mp p.hasClass
    have hmem : (CLASS, (i.resolved.lookup CLASS).getD (.key c)) ∈ writtenAt i.resolved p :=
      List.mem_map_of_mem (f := fun e : Key × Value => (e.1, (i.resolved.lookup e.1).getD e.2))
        (mem_of_lookup (keyAt_eq_some_iff.mp hc))
    have hle := (List.sublist_flatten_of_mem
      (List.mem_map_of_mem (f := fun e : Key × Value => e.2.serialize) hmem)).length_le
    rw [← List.flatMap_def] at hle
    exact le_trans (Value.serialize_pos _) hle
  have hsum := List.length_le_sum_of_one_le
    (i.classes.map fun p => ((writtenAt i.resolved p).flatMap fun e => e.2.serialize).length)
    (by
      intro n hn
      obtain ⟨p, -, rfl⟩ := List.mem_map.mp hn
      exact hone p)
  rw [List.length_map, ← List.length_flatMap] at hsum
  rw [bytes, List.length_append]
  omega

/-- The reader, on the writer's bytes and anything after them. -/
theorem schema_reads (hac : reg.Acyclic) (hfit : reg.Fits lim) (rest : List UInt8) :
    bufferDeserializeWithSchema lim reg (i.bytes ++ rest) =
      (reviveEntries reg (i.classes.flatMap (writtenAt i.resolved)) Dynamic.empty).map
        fun r => (r, rest) := by
  show Dynamic.deserializeWithSchema (bufferReader lim) reg _ (i.bytes ++ rest) = _
  generalize hfuel : (i.bytes ++ rest).length + 1 = fuel
  have hle : i.bytes.length < fuel := by
    rw [List.length_append] at hfuel
    omega
  have hloop := schemaLoop_reads reg (d := i.resolved) _ fuel i.klass i.classes Dynamic.empty
    (chain_eq hac) (lt_of_le_of_lt classes_length_le hle) fun p hp e he =>
      Value.deserialize_reads reg e.2 fuel (written_fits hac hfit hp he)
        (le_trans (serialize_length_le hp he) hle.le)
  unfold Dynamic.deserializeWithSchema bytes
  rw [List.append_assoc, List.append_assoc, bind_ok (bufferReader_word lim i.ns _),
    bind_ok (bufferReader_word lim i.klass _)]
  simp only [i.hasNamespace]
  exact hloop rest

/-! ### The round trip -/

/-- Every class declares the bookkeeping fields, so a chain has copies of them. -/
theorem declared_of_all (hac : reg.Acyclic) {k : Key}
    (hk : ∀ p : Prototype μ, (p.fields.lookup k).isSome) :
    ∃ v, (i.classes.reverse.findSome? fun p => p.fields.lookup k) = some v := by
  obtain ⟨p, hp⟩ := List.exists_mem_of_ne_nil _ (classes_ne_nil (i := i) hac)
  exact Option.isSome_iff_exists.mp (List.findSome?_isSome_iff.mpr
    ⟨p, List.mem_reverse.mpr hp, hk p⟩)

theorem declared_of_userField {k : Key} (hk : i.UserField k) :
    ∃ v, (i.classes.reverse.findSome? fun p => p.fields.lookup k) = some v := by
  obtain ⟨p, hp, hsome⟩ := hk.2.2.2
  exact Option.isSome_iff_exists.mp (List.findSome?_isSome_iff.mpr
    ⟨p, List.mem_reverse.mpr hp, hsome⟩)

/-- A bookkeeping key the object holds is read back as it is. -/
theorem lookup_key_of_revived {r : Fields} (hac : reg.Acyclic)
    (h : reviveEntries reg (i.classes.flatMap (writtenAt i.resolved)) Dynamic.empty = .ok r)
    {k c : Key} (hk : ∀ p : Prototype μ, (p.fields.lookup k).isSome)
    (hc : keyAt i.resolved k = some c) : r.lookup k = some (.key c) := by
  obtain ⟨dflt, hdflt⟩ := declared_of_all (i := i) hac hk
  obtain ⟨v, hv, hlook⟩ := lookup_of_revived h hdflt
  rw [keyAt_eq_some_iff.mp hc] at hv
  cases hv
  exact hlook

/-- The reader succeeds exactly with what the written bindings revive to. -/
theorem reviveEntries_of_read (hac : reg.Acyclic) (hfit : reg.Fits lim) {rest : List UInt8}
    {r : Fields} (h : bufferDeserializeWithSchema lim reg (i.bytes ++ rest) = .ok (r, rest)) :
    reviveEntries reg (i.classes.flatMap (writtenAt i.resolved)) Dynamic.empty = .ok r := by
  rw [schema_reads hac hfit rest] at h
  cases hrev : reviveEntries reg (i.classes.flatMap (writtenAt i.resolved)) Dynamic.empty with
  | error e =>
    rw [hrev] at h
    cases h
  | ok r' =>
    rw [hrev] at h
    exact congrArg (Except.ok ∘ Prod.fst) (Except.ok.inj h)

/-- The nearest default of a field exists where the field is declared. -/
theorem nearest_isSome {k : Key} (hk : i.UserField k) :
    ∃ v, nearest i.fields i.classes k = some v := by
  unfold nearest
  cases i.fields.lookup k with
  | some v => exact ⟨v, rfl⟩
  | none =>
    obtain ⟨p, hp, hsome⟩ := hk.2.2.2
    exact Option.isSome_iff_exists.mp (List.findSome?_isSome_iff.mpr ⟨p, hp, hsome⟩)

theorem copiesAgree_of_roundTrips (hac : reg.Acyclic) (hfit : reg.Fits lim) {rest : List UInt8}
    (h : i.SchemaRoundTrips rest) : i.CopiesAgree := by
  obtain ⟨bytes, d', r, hw, hr, hfields⟩ := h
  rw [serializeWithSchema_eq hac] at hw
  obtain ⟨rfl, -⟩ := Prod.mk.inj (Except.ok.inj hw)
  have hr' := reviveEntries_of_read hac hfit hr
  -- what was read under a user field is what `findField` resolves
  have hfield : ∀ k v, i.UserField k → nearest i.fields i.classes k = some v →
      r.lookup k = some v := by
    intro k v hk hv
    obtain ⟨v', dk, hfind, hlook⟩ := hfields k (Or.inr (Or.inr hk))
    obtain ⟨dk', hnear⟩ := findField_eq_nearest hac hk
    rw [hfind] at hnear
    rw [hlook, ← hv]
    exact congrArg Prod.fst (Except.ok.inj hnear)
  refine ⟨?_, ?_, ?_⟩
  · intro p hp e he
    obtain ⟨es', hes, -⟩ := (reviveEntries_eq_ok reg).mp hr'
    exact (exists_revived reg).mp ⟨es', hes⟩ e (List.mem_flatMap.mpr ⟨p, hp, he⟩)
  · intro k v hk hown
    obtain ⟨dflt, hdflt⟩ := declared_of_userField hk
    obtain ⟨v', hv', hlook⟩ := lookup_of_revived hr' hdflt
    rw [lookup_resolved hk.2.2.1, hown] at hv'
    have hnear : nearest i.fields i.classes k = some v := by
      rw [nearest, hown]
      rfl
    rw [hfield k v hk hnear] at hlook
    cases hlook
    exact hv'
  · intro k near far hk hown hnear hfar
    rw [rootmost, nearest, hown, Option.none_or] at hfar
    obtain ⟨v', hv', hlook⟩ := lookup_of_revived hr' hfar
    rw [lookup_resolved hk.2.2.1, hown] at hv'
    rw [hfield k near hk hnear] at hlook
    cases hlook
    exact hv'

theorem roundTrips_of_copiesAgree (hac : reg.Acyclic) (hfit : reg.Fits lim) (rest : List UInt8)
    (h : i.CopiesAgree) : i.SchemaRoundTrips rest := by
  have hall : ∀ e ∈ i.classes.flatMap (writtenAt i.resolved), ∃ v, e.2.revive reg = .ok v := by
    intro e he
    obtain ⟨p, hp, he⟩ := List.mem_flatMap.mp he
    exact h.decodes p hp e he
  obtain ⟨es', hes⟩ := (exists_revived reg).mpr hall
  have hr : reviveEntries reg (i.classes.flatMap (writtenAt i.resolved)) Dynamic.empty =
      .ok (insertAll Dynamic.empty es') :=
    (reviveEntries_eq_ok reg).mpr ⟨es', hes, rfl⟩
  have hread : bufferDeserializeWithSchema lim reg (i.bytes ++ rest) =
      .ok (insertAll Dynamic.empty es', rest) := by
    rw [schema_reads hac hfit rest, hr]
    rfl
  refine ⟨i.bytes, i.resolved, _, serializeWithSchema_eq hac, hread, ?_⟩
  rintro k (rfl | rfl | hk)
  · exact ⟨_, _, findField_class,
      lookup_key_of_revived hac hr Prototype.class_isSome resolved_class⟩
  · exact ⟨_, _, findField_namespace,
      lookup_key_of_revived hac hr Prototype.namespace_isSome resolved_namespace⟩
  · obtain ⟨dk, hfind⟩ := findField_eq_nearest hac hk
    obtain ⟨near, hnear⟩ := nearest_isSome hk
    obtain ⟨far, hfar⟩ := declared_of_userField hk
    obtain ⟨v, hv, hlook⟩ := lookup_of_revived hr hfar
    rw [lookup_resolved hk.2.2.1] at hv
    refine ⟨near, dk, by rw [hfind, hnear], ?_⟩
    rw [hlook]
    cases hown : i.fields.lookup k with
    | some own =>
      rw [hown, Option.getD_some, h.own k own hk hown] at hv
      rw [nearest, hown] at hnear
      rw [← hnear]
      exact congrArg some (Except.ok.inj hv).symm
    | none =>
      have hroot : rootmost i.fields i.classes k = some far := by
        rw [rootmost, nearest, hown, Option.none_or, hfar]
      rw [hown, Option.getD_none, h.defaults k near far hk hown hnear hroot] at hv
      exact congrArg some (Except.ok.inj hv).symm

/-- **Main result**: the schema round trip holds exactly when the copies agree. -/
theorem schemaRoundTrips_iff (i : ClassInstance lim reg) (hac : reg.Acyclic)
    (hfit : reg.Fits lim) (rest : List UInt8) : i.SchemaRoundTrips rest ↔ i.CopiesAgree :=
  ⟨copiesAgree_of_roundTrips hac hfit, roundTrips_of_copiesAgree hac hfit rest⟩

end ClassInstance

/-! ## A redeclared field -/

namespace Redeclared

/-- `Base` declares `x = 2`; its subclass `Child` redeclares it as `x = 1`. -/
def base : Prototype Unit where
  fields := [(CLASS, .key (key "Base")), (NAMESPACE, .key 0), (PARENT, .key 0),
    (key "x", .int32 2)]

def child : Prototype Unit where
  fields := [(CLASS, .key (key "Child")), (NAMESPACE, .key 0), (PARENT, .key (key "Base")),
    (key "x", .int32 1)]

def classes : Collection Unit := [(key "Base", base), (key "Child", child)]

def registry : Registry Unit := [(0, classes)]

theorem acyclic : registry.Acyclic := by
  intro ns col h
  obtain ⟨-, rfl⟩ := Prod.mk.inj (List.mem_singleton.mp (mem_of_lookup h))
  refine Collection.acyclic_of_chains fun k hk => ?_
  have hk' : k ∈ [key "Base", key "Child"] := hk
  rcases List.mem_cons.mp hk' with rfl | hk'
  · rfl
  · rw [List.mem_singleton.mp hk']
    rfl

theorem fits : registry.Fits Sample.limits := by
  intro ns col klass p h hp
  obtain ⟨-, rfl⟩ := Prod.mk.inj (List.mem_singleton.mp (mem_of_lookup h))
  rcases List.mem_cons.mp (mem_of_lookup hp) with heq | hmem
  · obtain ⟨-, rfl⟩ := Prod.mk.inj heq
    exact ⟨trivial, trivial, trivial, trivial, trivial⟩
  · obtain ⟨-, rfl⟩ := Prod.mk.inj (List.mem_singleton.mp hmem)
    exact ⟨trivial, trivial, trivial, trivial, trivial⟩

/-- An instance of `Child` that leaves `x` at its default. -/
def plain : ClassInstance Sample.limits registry where
  fields := [(CLASS, .key (key "Child"))]
  ns := 0
  klass := key "Child"
  col := classes
  sorted := by decide
  fits := ⟨trivial, trivial⟩
  isClass := rfl
  inNamespace := Or.inl ⟨by decide, rfl⟩
  hasNamespace := rfl
  registered := by decide

/-- An instance of `Child` that sets `x`. -/
def setsX : ClassInstance Sample.limits registry where
  fields := [(CLASS, .key (key "Child")), (key "x", .int32 7)]
  ns := 0
  klass := key "Child"
  col := classes
  sorted := by decide
  fits := ⟨trivial, trivial, trivial⟩
  isClass := rfl
  inNamespace := Or.inl ⟨by decide, rfl⟩
  hasNamespace := rfl
  registered := by decide

theorem userField_x : plain.UserField (key "x") :=
  ⟨by decide, by decide, by decide, child, List.mem_cons_self .., by decide⟩

/-- The only user field of the chain is `x`. -/
theorem userField_eq_x {k : Key} (h : setsX.UserField k) : k = key "x" := by
  obtain ⟨hc, hp, hn, p, hmem, hsome⟩ := h
  have hmem' : p ∈ [child, base] := hmem
  have hkeys : p.fields.map Prod.fst = [CLASS, NAMESPACE, PARENT, key "x"] := by
    rcases List.mem_cons.mp hmem' with rfl | hmem'
    · rfl
    · rw [List.mem_singleton.mp hmem']
      rfl
  obtain ⟨v, hv⟩ := Option.isSome_iff_exists.mp hsome
  have hk : k ∈ p.fields.map Prod.fst := List.mem_map.mpr ⟨(k, v), mem_of_lookup hv, rfl⟩
  rw [hkeys] at hk
  simpa [hc, hp, hn] using hk

theorem copiesAgree : setsX.CopiesAgree := by
  refine ⟨?_, ?_, ?_⟩
  · intro p hp e he
    have hp' : p ∈ [child, base] := hp
    rcases List.mem_cons.mp hp' with rfl | hp'
    · have he' : e ∈ [(CLASS, .key (key "Child")), (NAMESPACE, .key 0),
          (PARENT, .key (key "Base")), (key "x", .int32 7)] := he
      simp only [List.mem_cons, List.not_mem_nil, or_false] at he'
      rcases he' with rfl | rfl | rfl | rfl <;> exact ⟨_, rfl⟩
    · rw [List.mem_singleton.mp hp'] at he
      have he' : e ∈ [(CLASS, .key (key "Child")), (NAMESPACE, .key 0), (PARENT, .key 0),
          (key "x", .int32 7)] := he
      simp only [List.mem_cons, List.not_mem_nil, or_false] at he'
      rcases he' with rfl | rfl | rfl | rfl <;> exact ⟨_, rfl⟩
  · intro k v hk hown
    rw [userField_eq_x hk] at hown
    cases hown
    rfl
  · intro k near far hk hown
    rw [userField_eq_x hk] at hown
    cases hown

end Redeclared

/-- `x` is read back as the default of `Base` although the object resolves it to the default
of `Child`. -/
theorem schemaRoundTrips_redeclared :
    Redeclared.registry.Acyclic ∧ ¬ Redeclared.plain.SchemaRoundTrips [] := by
  refine ⟨Redeclared.acyclic, ?_⟩
  rintro ⟨bytes, d', r, hw, hr, hfields⟩
  have hbytes : Dynamic.serializeWithSchema Redeclared.registry Redeclared.plain.fields =
      .ok (Redeclared.plain.bytes, Redeclared.plain.resolved) := rfl
  rw [hbytes] at hw
  obtain ⟨rfl, -⟩ := Prod.mk.inj (Except.ok.inj hw)
  obtain ⟨v, dk, hfind, hlook⟩ := hfields (key "x") (Or.inr (Or.inr Redeclared.userField_x))
  have hread : ∃ r, bufferDeserializeWithSchema Sample.limits Redeclared.registry
      (Redeclared.plain.bytes ++ []) = .ok (r, []) ∧ r.lookup (key "x") = some (.int32 2) :=
    ⟨_, rfl, rfl⟩
  have hresolve : ∃ dk, findField Redeclared.registry (key "x") Redeclared.plain.fields =
      .ok (some (.int32 1), dk) := ⟨_, rfl⟩
  obtain ⟨r', hr', hlook'⟩ := hread
  obtain ⟨dk', hfind'⟩ := hresolve
  rw [hr'] at hr
  rw [hfind'] at hfind
  obtain ⟨rfl, -⟩ := Prod.mk.inj (Except.ok.inj hr)
  obtain ⟨h1, -⟩ := Prod.mk.inj (Except.ok.inj hfind)
  rw [hlook', ← h1] at hlook
  cases hlook

/-- With `x` set on the object the copies agree, and it is read back. -/
theorem schemaRoundTrips_setsX : Redeclared.setsX.SchemaRoundTrips [9] :=
  (ClassInstance.schemaRoundTrips_iff Redeclared.setsX Redeclared.acyclic Redeclared.fits [9]).mpr
    Redeclared.copiesAgree

end Bison
