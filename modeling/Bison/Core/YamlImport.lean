import Bison.Core.JsonImport
import Bison.Core.YamlExport

/-!
# What an import of YAML leaves

`from_yaml` (bison.cpp) reads the events of a stream, and narrows the `long` that `strtol` gives.

- `Yaml`: a tree of YAML, and its events. `Yaml.doc`: its document.
- `yamlParseValue_converts`: the importer reads a tree up to its end, and narrows its literals.
- `fromYaml_converts`: **main result**, the same of a whole stream.
- `fromYaml_ends`: the fuel of the model is enough for any events.
-/

namespace Bison

open SortedMap Decoder Doc

variable {μ : Type} {narrow : Int → Int32}

/-! ## Scalars of YAML -/

section Yaml

variable (floats : FloatTexts) (charSigned : Bool) (reg : Registry μ)

/-- The number that a text stands for, if it is a decimal integer literal. -/
def decimalLiteral? (text : List UInt8) : Option Int :=
  let (negative, text) := takeSign (text.dropWhile isSpace)
  if text ≠ [] ∧ text.all isDigit then
    some (if negative then -(digitsValue text : Int) else digitsValue text)
  else none

/-- What `strtol` and the cast to `int32_t` make of a literal. -/
def narrowLong (z : Int) : Int32 :=
  Int32.ofInt (max (min z 0x7FFFFFFFFFFFFFFF) (-0x8000000000000000))

/-- What a scalar is. -/
def scalarDoc (value : List UInt8) (plain : Bool) : Doc :=
  let value := cString value
  if plain then
    if value = ascii "null" ∨ value = ascii "~" ∨ value = ascii "" then .other
    else if value = ascii "true" ∨ value = ascii "yes" ∨ value = ascii "on" then .boolean
    else if value = ascii "false" ∨ value = ascii "no" ∨ value = ascii "off" then .boolean
    else
      match decimalLiteral? value with
      | some z => .integer z
      | none =>
        match floats.strtod value with
        | some (_, []) => .real
        | _ => .other
  else .other

theorem strtol_of_literal {text : List UInt8} {z : Int} (h : decimalLiteral? text = some z) :
    ∃ iv, strtol text = some (iv, []) ∧ Int32.ofInt iv = narrowLong z := by
  unfold decimalLiteral? at h
  unfold strtol
  generalize takeSign (text.dropWhile isSpace) = signed at h ⊢
  obtain ⟨negative, rest⟩ := signed
  simp only [Option.ite_none_right_eq_some] at h
  obtain ⟨⟨hne, hall⟩, hz⟩ := h
  have hdigits := List.all_eq_true.1 hall
  have htake : rest.takeWhile isDigit = rest := List.takeWhile_eq_self_iff.2 hdigits
  have hdrop : rest.dropWhile isDigit = [] := List.dropWhile_eq_nil_iff.2 hdigits
  simp only [htake, hdrop, List.isEmpty_iff, hne, if_false]
  refine ⟨_, rfl, ?_⟩
  cases Option.some.inj hz
  unfold narrowLong
  congr 1
  cases negative with
  | true =>
    simp only [if_true]
    omega
  | false =>
    simp only [Bool.false_eq_true, if_false]
    omega

theorem literal_of_strtol {text : List UInt8} {iv : Int} (h : strtol text = some (iv, [])) :
    ∃ z, decimalLiteral? text = some z := by
  unfold strtol at h
  unfold decimalLiteral?
  generalize takeSign (text.dropWhile isSpace) = signed at h ⊢
  obtain ⟨negative, rest⟩ := signed
  simp only [Option.ite_none_left_eq_some, Option.some.injEq, Prod.mk.injEq] at h
  obtain ⟨hdigits, -, hdrop⟩ := h
  have hall := List.dropWhile_eq_nil_iff.1 hdrop
  refine ⟨_, if_pos ⟨?_, List.all_eq_true.2 hall⟩⟩
  rintro rfl
  exact hdigits rfl

theorem yamlScalarToField_converts (value : List UInt8) (plain : Bool) :
    Converts narrowLong (scalarDoc floats value plain) (yamlScalarToField floats value plain) := by
  unfold scalarDoc yamlScalarToField
  simp only [List.mem_cons, List.not_mem_nil, or_false]
  split_ifs
  · exact .other trivial
  · exact .boolean true
  · exact .boolean false
  · cases hliteral : decimalLiteral? (cString value) with
    | some z =>
      obtain ⟨iv, hstrtol, hnarrow⟩ := strtol_of_literal hliteral
      simp only [hstrtol, hnarrow]
      exact .integer z
    | none =>
      have hnot (iv : Int) : strtol (cString value) ≠ some (iv, []) := by
        intro hstrtol
        obtain ⟨z, hz⟩ := literal_of_strtol hstrtol
        rw [hliteral] at hz
        cases hz
      rcases hstrtol : strtol (cString value) with _ | ⟨iv, _ | ⟨c, rest⟩⟩
      · rcases floats.strtod (cString value) with _ | ⟨dv, _ | ⟨c, rest⟩⟩
        · exact .other trivial
        · exact .real _
        · exact .other trivial
      · exact absurd hstrtol (hnot iv)
      · rcases floats.strtod (cString value) with _ | ⟨dv, _ | ⟨c, rest⟩⟩
        · exact .other trivial
        · exact .real _
        · exact .other trivial
  · exact .other trivial

/-! ## Sequences of YAML -/

variable {docs : List Doc} {items : List Value}

/-- A test of the values is a test of the parts they are imported for. -/
theorem mapM_isSome {β : Type} {f : Value → Option β} {p : Doc → Bool}
    (h : ∀ doc v, Converts narrow doc v → (f v).isSome = p doc)
    (hall : List.Forall₂ (Converts narrow) docs items) : (items.mapM f).isSome = docs.all p := by
  induction hall with
  | nil => rfl
  | cons hfirst _ ih =>
    rw [List.mapM_cons, List.all_cons, ← h _ _ hfirst, ← ih]
    cases f _ with
    | none => rfl
    | some b => cases List.mapM f _ <;> rfl

theorem toBool?_isSome (doc : Doc) (v : Value) (h : Converts narrow doc v) :
    v.toBool?.isSome = doc.isBoolean := by
  cases h with
  | other hinert => cases v <;> first | rfl | cases hinert
  | _ => rfl

theorem toInt32?_isSome (doc : Doc) (v : Value) (h : Converts narrow doc v) :
    v.toInt32?.isSome = doc.isInteger := by
  cases h with
  | other hinert => cases v <;> first | rfl | cases hinert
  | _ => rfl

theorem toFloat?_isSome (doc : Doc) (v : Value) (h : Converts narrow doc v) :
    v.toFloat?.isSome = doc.isNumber := by
  cases h with
  | other hinert => cases v <;> first | rfl | cases hinert
  | _ => rfl

theorem mapM_toInt32? (hall : List.Forall₂ (Converts narrow) docs items) {ints : List Int32}
    (h : items.mapM Value.toInt32? = some ints) :
    ∃ zs : List Int, docs = zs.map .integer ∧ ints = zs.map narrow := by
  induction hall generalizing ints with
  | nil =>
    cases h
    exact ⟨[], rfl, rfl⟩
  | cons hfirst _ ih =>
    rw [List.mapM_cons] at h
    obtain ⟨i, hi, h⟩ := Option.bind_eq_some_iff.1 h
    obtain ⟨rest, hrest, h⟩ := Option.bind_eq_some_iff.1 h
    cases h
    obtain ⟨zs, hzs, hints⟩ := ih hrest
    have hsome := toInt32?_isSome _ _ hfirst
    rw [hi] at hsome
    cases hfirst with
    | integer z =>
      cases hi
      exact ⟨z :: zs, congrArg _ hzs, congrArg _ hints⟩
    | _ => cases hsome

theorem yamlItemsToIndexed_fills (hall : List.Forall₂ (Converts narrow) docs items) (idx : Nat)
    (d : Fields) : Fills narrow (indexed docs idx) d (yamlItemsToIndexed items idx d) := by
  induction hall generalizing idx d with
  | nil => exact .nil d
  | cons hfirst _ ih =>
    exact .cons ⟨by rw [lookup_insert, if_pos rfl], fun _ hk => .insert hk⟩ hfirst (ih _ _)

theorem yamlSequenceToField_converts (hall : List.Forall₂ (Converts narrow) docs items) :
    Converts narrow (.array docs) (yamlSequenceToField items) := by
  have hindexed := yamlItemsToIndexed_fills hall 0 Dynamic.empty
  have hbool := mapM_isSome toBool?_isSome hall
  have hint := mapM_isSome toInt32?_isSome hall
  have hfloat := mapM_isSome toFloat?_isSome hall
  unfold yamlSequenceToField
  split_ifs with hempty
  · rw [List.isEmpty_iff] at hempty
    subst hempty
    cases hall
    exact hindexed.items fun hvector => hvector.1 rfl
  · have hne : docs ≠ [] := by
      rintro rfl
      cases hall
      exact hempty rfl
    cases hbools : items.mapM Value.toBool? with
    | some v =>
      rw [hbools] at hbool
      exact .bools v hne hbool.symm
    | none =>
      rw [hbools] at hbool
      cases hints : items.mapM Value.toInt32? with
      | some v =>
        obtain ⟨zs, rfl, rfl⟩ := mapM_toInt32? hall hints
        refine .int32s ?_
        rintro rfl
        exact hne rfl
      | none =>
        rw [hints] at hint
        cases hfloats : items.mapM Value.toFloat? with
        | some v =>
          rw [hfloats] at hfloat
          refine .floats v hfloat.symm ?_
          rw [← hint]
          exact Bool.false_ne_true
        | none =>
          rw [hfloats] at hfloat
          refine hindexed.items ?_
          rintro ⟨-, hall | hall⟩
          · exact Bool.false_ne_true (hbool.trans hall)
          · exact Bool.false_ne_true (hfloat.trans hall)

end Yaml

/-! ## Documents of YAML -/

/-- A tree of YAML. The names of a mapping can be anything, but only scalars are imported. -/
inductive Yaml where
  | scalar (value : List UInt8) (style : ScalarStyle)
  | alias
  | sequence (items : List Yaml)
  | mapping (entries : List (Yaml × Yaml))

mutual

/-- The events of a tree. -/
def Yaml.events : Yaml → List YamlEvent
  | .scalar value style => [.scalar value style]
  | .alias => [.alias]
  | .sequence items => .sequenceStart :: itemEvents items
  | .mapping entries => .mappingStart :: pairEvents entries

/-- The rest of a sequence. -/
def itemEvents : List Yaml → List YamlEvent
  | [] => [.sequenceEnd]
  | item :: rest => item.events ++ itemEvents rest

/-- The rest of a mapping. -/
def pairEvents : List (Yaml × Yaml) → List YamlEvent
  | [] => [.mappingEnd]
  | (name, value) :: rest => name.events ++ (value.events ++ pairEvents rest)

end

theorem map_eq_ok {ε σ α β : Type} {f : α → β} {p : Decoder ε σ α} {s s' : σ} {b : β}
    (h : (f <$> p) s = .ok (b, s')) : ∃ a s₁, p s = .ok (a, s₁) ∧ (f a, s₁) = (b, s') := by
  rw [map_apply] at h
  cases hp : p s with
  | error e =>
    rw [hp] at h
    cases h
  | ok r =>
    rw [hp] at h
    exact ⟨r.1, r.2, rfl, Except.ok.inj h⟩

theorem lift_eq_ok {ε σ α : Type} {x : Except ε α} {s s' : σ} {a : α}
    (h : Decoder.lift x s = .ok (a, s')) : x = .ok a ∧ s' = s := by
  cases x with
  | error e => cases h
  | ok a' =>
    cases h
    exact ⟨rfl, rfl⟩

section Trees

variable (floats : FloatTexts) (charSigned : Bool) (reg : Registry μ)

mutual

/-- The document of a tree. -/
def Yaml.doc : Yaml → Doc
  | .scalar value style => scalarDoc floats value (style = .plain)
  | .alias => .other
  | .sequence items => .array (itemDocs items)
  | .mapping entries => .object (pairDocs entries)

def itemDocs : List Yaml → List Doc
  | [] => []
  | item :: rest => item.doc :: itemDocs rest

def pairDocs : List (Yaml × Yaml) → List (Key × Doc)
  | [] => []
  | (.scalar name _, value) :: rest =>
    (nameKey charSigned (cString name), value.doc) :: pairDocs rest
  | _ :: rest => pairDocs rest

end

/-- An event that a tree can begin with. -/
def YamlEvent.Starts : YamlEvent → Prop
  | .scalar _ _ | .alias | .sequenceStart | .mappingStart => True
  | _ => False

theorem Yaml.events_eq (y : Yaml) : ∃ ev tail, y.events = ev :: tail ∧ ev.Starts := by
  cases y <;> exact ⟨_, _, rfl, trivial⟩

/-- An item that is not the end of the sequence. -/
theorem yamlCollectItems_start {fuel : Nat} {ev : YamlEvent} (h : ev.Starts)
    (tail : List YamlEvent) :
    yamlCollectItems floats charSigned reg (fuel + 1) (ev :: tail) =
      (do
        let v ← yamlParseValue floats (yamlParseMapping floats charSigned reg fuel Dynamic.empty)
          (yamlCollectItems floats charSigned reg fuel) ev
        let items ← yamlCollectItems floats charSigned reg fuel
        return v :: items) tail := by
  cases ev <;> first | rfl | cases h

theorem yamlParseMapping_named (fuel : Nat) (d : Fields) (name : List UInt8) (style : ScalarStyle)
    (ev : YamlEvent) (tail : List YamlEvent) :
    yamlParseMapping floats charSigned reg (fuel + 1) d (.scalar name style :: ev :: tail) =
      (do
        let v ← yamlParseValue floats (yamlParseMapping floats charSigned reg fuel Dynamic.empty)
          (yamlCollectItems floats charSigned reg fuel) ev
        let (_, d) ← Decoder.lift (writeField reg (nameKey charSigned (cString name)) v d)
        yamlParseMapping floats charSigned reg fuel d) tail := rfl

mutual

/-- The value of a tree is read up to its end. -/
theorem yamlParseValue_converts : ∀ (y : Yaml) {fuel : Nat} {ev : YamlEvent}
    {tail rest s : List YamlEvent} {v : Value}, y.events ++ rest = ev :: tail →
    yamlParseValue floats (yamlParseMapping floats charSigned reg fuel Dynamic.empty)
      (yamlCollectItems floats charSigned reg fuel) ev tail = .ok (v, s) →
    s = rest ∧ Converts narrowLong (y.doc floats charSigned) v
  | .scalar value style, _, _, _, _, _, _, hevents, h => by
    cases hevents
    cases h
    exact ⟨rfl, yamlScalarToField_converts floats value _⟩
  | .alias, _, _, _, _, _, _, hevents, h => by
    cases hevents
    cases h
    exact ⟨rfl, .other trivial⟩
  | .sequence items, fuel, _, _, rest, s, v, hevents, h => by
    have hitems {items' : List Value} {s : List YamlEvent}
        (hcollect : yamlCollectItems floats charSigned reg fuel (itemEvents items ++ rest) =
          .ok (items', s)) := yamlCollectItems_converts items hcollect
    cases hevents
    obtain ⟨items', s', hcollect, hv⟩ := map_eq_ok h
    cases hv
    obtain ⟨rfl, hall⟩ := hitems hcollect
    exact ⟨rfl, yamlSequenceToField_converts hall⟩
  | .mapping entries, fuel, _, _, rest, s, v, hevents, h => by
    have hfills {d : Fields} {s : List YamlEvent}
        (hparse : yamlParseMapping floats charSigned reg fuel Dynamic.empty
          (pairEvents entries ++ rest) = .ok (d, s)) := yamlParseMapping_fills entries hparse
    cases hevents
    obtain ⟨d, s', hparse, hv⟩ := map_eq_ok h
    cases hv
    obtain ⟨rfl, hfilled⟩ := hfills hparse
    exact ⟨rfl, hfilled.object⟩

/-- The items of a sequence are read up to its end. -/
theorem yamlCollectItems_converts : ∀ (ys : List Yaml) {fuel : Nat} {rest s : List YamlEvent}
    {items : List Value},
    yamlCollectItems floats charSigned reg fuel (itemEvents ys ++ rest) = .ok (items, s) →
    s = rest ∧ List.Forall₂ (Converts narrowLong) (itemDocs floats charSigned ys) items
  | [], 0, _, _, _, h => by cases h
  | [], _ + 1, _, _, _, h => by
    cases h
    exact ⟨rfl, .nil⟩
  | y :: ys, 0, _, _, _, h => by cases h
  | y :: ys, fuel + 1, rest, s, items, h => by
    have hvalue {ev : YamlEvent} {tail rest s : List YamlEvent} {v : Value}
        (hevents : y.events ++ rest = ev :: tail)
        (hparse : yamlParseValue floats
          (yamlParseMapping floats charSigned reg fuel Dynamic.empty)
          (yamlCollectItems floats charSigned reg fuel) ev tail = .ok (v, s)) :=
      yamlParseValue_converts y hevents hparse
    have hitems {rest s : List YamlEvent} {items : List Value}
        (hcollect : yamlCollectItems floats charSigned reg fuel (itemEvents ys ++ rest) =
          .ok (items, s)) := yamlCollectItems_converts ys hcollect
    obtain ⟨ev, tail, hevents, hstarts⟩ := y.events_eq
    rw [itemEvents, hevents, List.append_assoc, List.cons_append,
      yamlCollectItems_start floats charSigned reg hstarts] at h
    obtain ⟨v, s₁, hparse, hmore⟩ := bind_eq_ok.1 h
    obtain ⟨items', s₂, hcollect, hreturn⟩ := bind_eq_ok.1 hmore
    cases hreturn
    have htail : y.events ++ (itemEvents ys ++ rest) = ev :: (tail ++ (itemEvents ys ++ rest)) := by
      rw [hevents]
      rfl
    obtain ⟨rfl, hv⟩ := hvalue htail hparse
    obtain ⟨rfl, hall⟩ := hitems hcollect
    exact ⟨rfl, .cons hv hall⟩

/-- The entries of a mapping fill the object. -/
theorem yamlParseMapping_fills : ∀ (entries : List (Yaml × Yaml)) {fuel : Nat}
    {rest s : List YamlEvent} {d d' : Fields},
    yamlParseMapping floats charSigned reg fuel d (pairEvents entries ++ rest) = .ok (d', s) →
    s = rest ∧ Fills narrowLong (pairDocs floats charSigned entries) d d'
  | [], 0, _, _, _, _, h => by cases h
  | [], _ + 1, _, _, d, _, h => by
    cases h
    exact ⟨rfl, .nil d⟩
  | (name, y) :: entries, 0, _, _, _, _, h => by cases h
  | (name, y) :: entries, fuel + 1, rest, s, d, d', h => by
    have hvalue {ev : YamlEvent} {tail rest s : List YamlEvent} {v : Value}
        (hevents : y.events ++ rest = ev :: tail)
        (hparse : yamlParseValue floats
          (yamlParseMapping floats charSigned reg fuel Dynamic.empty)
          (yamlCollectItems floats charSigned reg fuel) ev tail = .ok (v, s)) :=
      yamlParseValue_converts y hevents hparse
    have hfills {rest s : List YamlEvent} {d d' : Fields}
        (hparse : yamlParseMapping floats charSigned reg fuel d (pairEvents entries ++ rest) =
          .ok (d', s)) := yamlParseMapping_fills entries hparse
    cases name with
    | scalar key style =>
      obtain ⟨ev, tail, hevents, -⟩ := y.events_eq
      have hinput : pairEvents ((.scalar key style, y) :: entries) ++ rest =
          .scalar key style :: (ev :: (tail ++ (pairEvents entries ++ rest))) := by
        rw [pairEvents, hevents]
        simp only [Yaml.events, List.append_assoc, List.cons_append, List.nil_append]
      rw [hinput, yamlParseMapping_named] at h
      obtain ⟨v, s₁, hparse, hassign⟩ := bind_eq_ok.1 h
      obtain ⟨⟨⟨⟩, d₁⟩, s₂, hlift, hloop⟩ := bind_eq_ok.1 hassign
      obtain ⟨hwrite, rfl⟩ := lift_eq_ok hlift
      have htail : y.events ++ (pairEvents entries ++ rest) =
          ev :: (tail ++ (pairEvents entries ++ rest)) := by
        rw [hevents]
        rfl
      obtain ⟨rfl, hv⟩ := hvalue htail hparse
      obtain ⟨rfl, hfilled⟩ := hfills hloop
      exact ⟨rfl, .cons (writeField_assigned hwrite) hv hfilled⟩
    | «alias» => cases h
    | sequence items => cases h
    | mapping items => cases h

end

/-! ## Streams of YAML -/

/-- The events of a document of the stream. -/
def rootEvents (y : Yaml) : List YamlEvent := .documentStart :: (y.events ++ [.documentEnd])

def streamEvents (roots : List Yaml) : List YamlEvent :=
  .streamStart :: (roots.flatMap rootEvents ++ [.streamEnd])

/-- What is imported of a root: a sequence becomes an object in any case, a scalar nothing. -/
def Yaml.root : Yaml → Option Doc
  | .sequence items => some (.object (indexed (itemDocs floats charSigned items) 0))
  | .mapping entries => some (.object (pairDocs floats charSigned entries))
  | _ => none

/-- The last root that is imported, if there is one. -/
def lastRoot (roots : List Yaml) (doc : Option Doc) : Option Doc :=
  roots.foldl (fun doc y => (y.root floats charSigned).or doc) doc

/-- The document of a stream. -/
def streamDoc (roots : List Yaml) : Doc := (lastRoot floats charSigned roots none).getD (.object [])

/-- What the loop has imported so far. -/
def Imported : Option Doc → Option Fields → Prop :=
  Option.Rel fun doc d => Converts narrowLong doc (.object d)

variable {floats charSigned reg}

/-- An event that the loop over the stream passes over. -/
def YamlEvent.Passed : YamlEvent → Prop
  | .streamEnd | .mappingStart | .sequenceStart => False
  | _ => True

theorem fromYamlLoop_skip {ev : YamlEvent} {fuel : Nat} {result result' : Option Fields}
    {s s' : List YamlEvent}
    (hloop : fromYamlLoop floats charSigned reg fuel result (ev :: s) = .ok (result', s'))
    (h : ev.Passed) :
    ∃ fuel', fromYamlLoop floats charSigned reg fuel' result s = .ok (result', s') := by
  cases fuel with
  | zero => cases hloop
  | succ fuel =>
    refine ⟨fuel, ?_⟩
    cases ev <;> first | exact hloop | cases h

/-- A root is imported in place of the ones before it. -/
theorem fromYamlLoop_root (y : Yaml) {fuel : Nat} {doc : Option Doc}
    {result result' : Option Fields} {rest s : List YamlEvent} (hresult : Imported doc result)
    (hloop : fromYamlLoop floats charSigned reg fuel result (y.events ++ rest) =
      .ok (result', s)) :
    ∃ fuel' next, fromYamlLoop floats charSigned reg fuel' next rest = .ok (result', s) ∧
      Imported ((y.root floats charSigned).or doc) next := by
  cases y with
  | scalar value style =>
    obtain ⟨fuel', hrest⟩ := fromYamlLoop_skip hloop trivial
    exact ⟨fuel', result, hrest, hresult⟩
  | «alias» =>
    obtain ⟨fuel', hrest⟩ := fromYamlLoop_skip hloop trivial
    exact ⟨fuel', result, hrest, hresult⟩
  | sequence items =>
    cases fuel with
    | zero => cases hloop
    | succ fuel =>
      obtain ⟨ev, s₀, hev, hmatch⟩ := bind_eq_ok.1 hloop
      cases hev
      obtain ⟨items', s₁, hcollect, hrest⟩ := bind_eq_ok.1 hmatch
      obtain ⟨rfl, hall⟩ := yamlCollectItems_converts floats charSigned reg items hcollect
      exact ⟨fuel, _, hrest, .some (yamlItemsToIndexed_fills hall 0 Dynamic.empty).object⟩
  | mapping entries =>
    cases fuel with
    | zero => cases hloop
    | succ fuel =>
      obtain ⟨ev, s₀, hev, hmatch⟩ := bind_eq_ok.1 hloop
      cases hev
      obtain ⟨d, s₁, hparse, hrest⟩ := bind_eq_ok.1 hmatch
      obtain ⟨rfl, hfilled⟩ := yamlParseMapping_fills floats charSigned reg entries hparse
      exact ⟨fuel, _, hrest, .some hfilled.object⟩

theorem fromYamlLoop_roots (roots : List Yaml) {fuel : Nat} {doc : Option Doc}
    {result result' : Option Fields} {s : List YamlEvent} (hresult : Imported doc result)
    (hloop : fromYamlLoop floats charSigned reg fuel result
      (roots.flatMap rootEvents ++ [.streamEnd]) = .ok (result', s)) :
    Imported (lastRoot floats charSigned roots doc) result' := by
  induction roots generalizing fuel doc result with
  | nil =>
    cases fuel with
    | zero => cases hloop
    | succ fuel =>
      cases hloop
      exact hresult
  | cons y roots ih =>
    have hinput : (y :: roots).flatMap rootEvents ++ [.streamEnd] =
        .documentStart :: (y.events ++ (.documentEnd ::
          (roots.flatMap rootEvents ++ [.streamEnd]))) := by
      simp only [List.flatMap_cons, rootEvents, List.cons_append, List.append_assoc,
        List.nil_append]
    rw [hinput] at hloop
    obtain ⟨fuel₁, hroot⟩ := fromYamlLoop_skip hloop trivial
    obtain ⟨fuel₂, next, hend, hnext⟩ := fromYamlLoop_root y hresult hroot
    obtain ⟨fuel₃, hrest⟩ := fromYamlLoop_skip hend trivial
    exact ih hnext hrest

/-- An import of YAML narrows the literals of the stream. -/
theorem fromYaml_converts {lib : YamlLibrary} {text : List UInt8} {roots : List Yaml}
    (hparse : lib.parse text = streamEvents roots) {d : Fields}
    (h : fromYaml floats charSigned reg lib text = .ok d) :
    Converts narrowLong (streamDoc floats charSigned roots) (.object d) := by
  unfold fromYaml at h
  obtain ⟨⟨result, s⟩, hloop, hresult⟩ := except_bind_eq_ok h
  cases hresult
  rw [hparse] at hloop
  obtain ⟨fuel, hroots⟩ := fromYamlLoop_skip hloop trivial
  have hnone : Imported none none := .none
  have himported := fromYamlLoop_roots roots hnone hroots
  unfold streamDoc
  generalize lastRoot floats charSigned roots none = doc at himported ⊢
  cases himported with
  | none => exact (Fills.nil Dynamic.empty).object
  | some hconverts => exact hconverts

end Trees

/-! ## Fuel -/

section Fuel

/-- A reader that does not run out of fuel on fewer events than this, and does not go back. -/
def Suffices {α : Type} (n : Nat) (p : Decoder Exn (List YamlEvent) α) : Prop :=
  ∀ s, s.length < n →
    p s ≠ .error .outOfFuel ∧ ∀ a s', p s = .ok (a, s') → s'.length ≤ s.length

variable {α β : Type} {n : Nat}

theorem Suffices.pure (a : α) : Suffices n (pure a : Decoder Exn (List YamlEvent) α) := by
  intro s _
  refine ⟨nofun, fun b s' h => ?_⟩
  cases h
  exact Nat.le_refl _

theorem Suffices.throw {e : Exn} (h : e ≠ .outOfFuel) :
    Suffices n (throw e : Decoder Exn (List YamlEvent) α) := by
  intro s _
  refine ⟨fun heq => h (Except.error.inj heq), fun b s' h => ?_⟩
  cases h

theorem Suffices.bind {p : Decoder Exn (List YamlEvent) α} {f : α → Decoder Exn (List YamlEvent) β}
    (hp : Suffices n p) (hf : ∀ a, Suffices n (f a)) : Suffices n (p >>= f) := by
  intro s hs
  obtain ⟨hfuel, hlength⟩ := hp s hs
  cases hr : p s with
  | error e =>
    rw [bind_error hr]
    refine ⟨fun heq => hfuel (hr.trans (congrArg _ (Except.error.inj heq))), fun b s' h => ?_⟩
    cases h
  | ok r =>
    obtain ⟨a, s₁⟩ := r
    rw [bind_ok hr]
    have hle := hlength a s₁ hr
    obtain ⟨hfuel', hlength'⟩ := hf a s₁ (hle.trans_lt hs)
    exact ⟨hfuel', fun b s' h => (hlength' b s' h).trans hle⟩

theorem Suffices.lift {x : Except Exn α} (h : x ≠ .error .outOfFuel) :
    Suffices n (Decoder.lift x) := by
  intro s _
  cases x with
  | error e =>
    refine ⟨fun heq => h (congrArg _ (Except.error.inj heq)), fun b s' h => ?_⟩
    cases h
  | ok a =>
    refine ⟨nofun, fun b s' h => ?_⟩
    cases h
    exact Nat.le_refl _

theorem Suffices.map {p : Decoder Exn (List YamlEvent) α} (h : Suffices n p) (f : α → β) :
    Suffices n (f <$> p) :=
  h.bind fun a => .pure (f a)

/-- Taking an event makes up for one of fuel. -/
theorem Suffices.next {failure : String} {f : YamlEvent → Decoder Exn (List YamlEvent) α}
    (h : ∀ ev, Suffices n (f ev)) : Suffices (n + 1) (nextEvent failure >>= f) := by
  intro s hs
  cases s with
  | nil => exact ⟨nofun, fun b s' h => by cases h⟩
  | cons ev s =>
    obtain ⟨hfuel, hlength⟩ := h ev s (Nat.lt_of_succ_lt_succ hs)
    exact ⟨hfuel, fun b s' hr => (hlength b s' hr).trans (Nat.le_succ _)⟩

theorem Suffices.event (failure : String) : Suffices n (nextEvent failure) := by
  intro s _
  cases s with
  | nil => exact ⟨nofun, fun b s' h => by cases h⟩
  | cons ev s =>
    refine ⟨nofun, fun b s' h => ?_⟩
    cases h
    exact Nat.le_succ _

theorem findField_ne_outOfFuel (reg : Registry μ) (name : Key) (d : Fields) :
    findField reg name d ≠ .error .outOfFuel := by
  cases hown : d.lookup name with
  | some v =>
    unfold findField
    rw [hown]
    exact nofun
  | none =>
    rw [findField_of_none reg hown]
    cases hstart : walkStart reg d with
    | error e =>
      intro heq
      cases heq
      exact walkStart_thrown hstart
    | ok w =>
      rw [Decoder.ok_bind]
      rcases w with ⟨_ | ⟨col, c⟩, d₁⟩
      · exact nofun
      · simp only
        split <;> exact nofun

theorem writeField_ne_outOfFuel (reg : Registry μ) (name : Key) (v : Value) (d : Fields) :
    writeField reg name v d ≠ .error .outOfFuel := by
  unfold writeField subscript
  cases hfind : findField reg name d with
  | error e =>
    intro heq
    rw [bind_error (bind_error hfind _)] at heq
    exact findField_ne_outOfFuel reg name d (hfind.trans (congrArg _ (Except.error.inj heq)))
  | ok r =>
    obtain ⟨found, d₁⟩ := r
    cases found <;> rw [bind_apply, bind_ok hfind] <;> exact nofun

variable (floats : FloatTexts) (charSigned : Bool) (reg : Registry μ)

theorem yamlParseValue_suffices {mapping : Decoder Exn (List YamlEvent) Fields}
    {items : Decoder Exn (List YamlEvent) (List Value)} (hmapping : Suffices n mapping)
    (hitems : Suffices n items) (ev : YamlEvent) :
    Suffices n (yamlParseValue floats mapping items ev) := by
  cases ev with
  | mappingStart => exact hmapping.map _
  | sequenceStart => exact hitems.map _
  | _ => exact .pure _

theorem yaml_suffices (fuel : Nat) :
    (∀ d, Suffices fuel (yamlParseMapping floats charSigned reg fuel d)) ∧
      Suffices fuel (yamlCollectItems floats charSigned reg fuel) := by
  induction fuel with
  | zero =>
    exact ⟨fun d s hs => absurd hs (Nat.not_lt_zero _), fun s hs => absurd hs (Nat.not_lt_zero _)⟩
  | succ fuel ih =>
    obtain ⟨hmapping, hitems⟩ := ih
    have hvalue (ev : YamlEvent) :=
      yamlParseValue_suffices floats (hmapping Dynamic.empty) hitems ev
    refine ⟨fun d => .next fun ev => ?_, .next fun ev => ?_⟩
    · cases ev with
      | mappingEnd => exact .pure d
      | scalar name style =>
        refine (Suffices.event _).bind fun ev => (hvalue ev).bind fun v => ?_
        exact (Suffices.lift (writeField_ne_outOfFuel reg _ v d)).bind fun r => hmapping r.2
      | _ => exact .throw nofun
    · cases ev with
      | sequenceEnd => exact .pure []
      | _ => exact (hvalue _).bind fun v => hitems.bind fun items => .pure _

theorem fromYamlLoop_suffices (fuel : Nat) :
    ∀ result, Suffices fuel (fromYamlLoop floats charSigned reg fuel result) := by
  induction fuel with
  | zero => exact fun result s hs => absurd hs (Nat.not_lt_zero _)
  | succ fuel ih =>
    obtain ⟨hmapping, hitems⟩ := yaml_suffices floats charSigned reg fuel
    refine fun result => .next fun ev => ?_
    cases ev with
    | streamEnd => exact .pure result
    | mappingStart => exact (hmapping Dynamic.empty).bind fun d => ih _
    | sequenceStart => exact hitems.bind fun items => ih _
    | _ => exact ih result

/-- The fuel that `from_yaml` is given in the model is enough. -/
theorem fromYaml_ends (lib : YamlLibrary) (text : List UInt8) :
    fromYaml floats charSigned reg lib text ≠ .error .outOfFuel := by
  obtain ⟨hfuel, -⟩ := fromYamlLoop_suffices floats charSigned reg _ none (lib.parse text)
    (Nat.lt_succ_self _)
  intro h
  unfold fromYaml at h
  cases hloop : fromYamlLoop floats charSigned reg ((lib.parse text).length + 1) none
      (lib.parse text) with
  | error e =>
    simp only [hloop, Decoder.error_bind] at h
    exact hfuel (hloop.trans (congrArg _ (Except.error.inj h)))
  | ok r =>
    simp only [hloop, Decoder.ok_bind] at h
    cases h

end Fuel

end Bison
