import Bison.Core.Documents
import Bison.Core.JsonExport

/-!
# What an import of JSON leaves

`from_json` (bison.cpp) assigns one field after the other, each of which looks the field up first,
and so may write a class or a namespace.

- `Assigned`: a field is assigned, and the others are kept but for empty ones.
- `Fills`: what a loop over the entries leaves in an object.
- `Json.doc`: the document of a JSON value.
- `fromJsonEntries_fills`: **main result**, the import narrows the integer literals to 32 bits.
-/

namespace Bison

open SortedMap Decoder

variable {μ : Type}

/-! ## Assigning one field -/

/-- What a lookup leaves of the fields: an empty one may have become a key. -/
def Kept (d d' : Fields) (k : Key) : Prop :=
  ∀ w, d.lookup k = some w → d'.lookup k = some w ∨ w = .monostate ∧ d'.lookup k = some (.key 0)

theorem Kept.refl (d : Fields) (k : Key) : Kept d d k := fun _ h => .inl h

theorem Kept.trans {d d' d'' : Fields} {k : Key} (h : Kept d d' k) (h' : Kept d' d'' k) :
    Kept d d'' k := by
  intro w hw
  rcases h w hw with hsame | ⟨rfl, hkey⟩
  · exact h' w hsame
  · rcases h' _ hkey with hsame | ⟨hkey, -⟩
    · exact .inr ⟨rfl, hsame⟩
    · cases hkey

theorem Kept.insert {d : Fields} {k name : Key} {v : Value} (h : k ≠ name) :
    Kept d (SortedMap.insert name v d) k := by
  intro w hw
  rw [lookup_insert, if_neg h]
  exact .inl hw

theorem Kept.insert_key {d : Fields} (name k : Key)
    (h : d.lookup name = none ∨ d.lookup name = some .monostate) :
    Kept d (SortedMap.insert name (.key 0) d) k := by
  by_cases hk : k = name
  · subst hk
    intro w hw
    rcases h with hnone | hempty
    · rw [hnone] at hw
      cases hw
    · rw [hempty] at hw
      cases hw
      exact .inr ⟨rfl, by rw [lookup_insert, if_pos rfl]⟩
  · exact .insert hk

theorem resolveNamespace_kept {d d' : Fields} {ns : Key} (h : resolveNamespace d = .ok (ns, d'))
    (k : Key) : Kept d d' k := by
  unfold resolveNamespace at h
  split at h
  · cases h
    exact .refl d k
  · next hns =>
    cases h
    exact .insert_key _ k (.inl hns)
  · next hns =>
    cases h
    exact .insert_key _ k (.inr hns)
  · cases h

theorem asKey_kept {name : Key} {d d' : Fields} {c : Key} (h : asKey name d = .ok (c, d'))
    (k : Key) : Kept d d' k := by
  unfold asKey at h
  split at h
  · next hn =>
    cases h
    exact .insert_key _ k (.inl hn)
  · next hn =>
    cases h
    exact .insert_key _ k (.inr hn)
  · cases h
    exact .refl d k
  · cases h

theorem walkStart_kept {reg : Registry μ} {d d' : Fields} {r : Option (Collection μ × Key)}
    (h : walkStart reg d = .ok (r, d')) (k : Key) : Kept d d' k := by
  unfold walkStart at h
  cases hns : resolveNamespace d with
  | error e =>
    rw [hns] at h
    cases h
  | ok r' =>
    obtain ⟨ns, d₁⟩ := r'
    have hkept := resolveNamespace_kept hns k
    simp only [hns, Decoder.ok_bind] at h
    cases hcol : reg.lookup ns with
    | none =>
      simp only [hcol] at h
      cases h
      exact hkept
    | some col =>
      cases hclass : asKey CLASS d₁ with
      | error e =>
        simp only [hcol, hclass, Decoder.error_bind] at h
        cases h
      | ok r' =>
        simp only [hcol, hclass, Decoder.ok_bind] at h
        cases h
        exact hkept.trans (asKey_kept hclass k)

theorem insertNew_kept (name : Key) (v : Value) (d : Fields) (k : Key) :
    Kept d (insertNew name v d) k := by
  unfold insertNew
  cases hown : d.lookup name with
  | some w => exact .refl d k
  | none =>
    by_cases hk : k = name
    · subst hk
      intro w hw
      rw [hown] at hw
      cases hw
    · exact .insert hk

theorem findField_kept {reg : Registry μ} {name : Key} {d d' : Fields} {r : Option Value}
    (h : findField reg name d = .ok (r, d')) (k : Key) : Kept d d' k := by
  cases hown : d.lookup name with
  | some v =>
    unfold findField at h
    rw [hown] at h
    cases h
    exact .refl d k
  | none =>
    rw [findField_of_none reg hown] at h
    cases hstart : walkStart reg d with
    | error e =>
      rw [hstart] at h
      cases h
    | ok w =>
      rw [hstart, Decoder.ok_bind] at h
      rcases w with ⟨_ | ⟨col, c⟩, d₁⟩
      · cases h
        exact walkStart_kept hstart k
      · simp only at h
        split at h
        · cases h
        · cases h
          exact walkStart_kept hstart k
        · cases h
          exact (walkStart_kept hstart k).trans (insertNew_kept _ _ _ k)

theorem subscript_kept {reg : Registry μ} {name : Key} {d d' : Fields} {v : Value}
    (h : subscript reg name d = .ok (v, d')) {k : Key} (hk : k ≠ name) : Kept d d' k := by
  obtain ⟨r, d₁, hfind, hput⟩ := bind_eq_ok.1 h
  have hkept := findField_kept hfind k
  cases r with
  | some v =>
    cases hput
    exact hkept
  | none =>
    cases hput
    exact hkept.trans (.insert hk)

/-- A field has been assigned, and the others are kept. -/
structure Assigned (name : Key) (v : Value) (d d' : Fields) : Prop where
  own : d'.lookup name = some v
  kept : ∀ k, k ≠ name → Kept d d' k

theorem Assigned.of_subscript {reg : Registry μ} {name : Key} {d d₁ : Fields} {old : Value}
    (h : subscript reg name d = .ok (old, d₁)) (v : Value) :
    Assigned name v d (insert name v d₁) where
  own := by rw [lookup_insert, if_pos rfl]
  kept _ hk := (subscript_kept h hk).trans (.insert hk)

theorem writeField_assigned {reg : Registry μ} {name : Key} {v : Value} {d d' : Fields}
    (h : writeField reg name v d = .ok ((), d')) : Assigned name v d d' := by
  obtain ⟨old, d₁, hsub, hput⟩ := bind_eq_ok.1 h
  cases hput
  exact .of_subscript hsub v

theorem assign_eq {old v new : Value} (h : old.assign v = .ok new) : new = v := by
  unfold Value.assign at h
  split_ifs at h
  cases h
  rfl

theorem setField_assigned {reg : Registry μ} {name : Key} {v : Value} {d d' : Fields}
    (h : setField reg name v d = .ok ((), d')) : Assigned name v d d' := by
  obtain ⟨old, d₁, hsub, hrest⟩ := bind_eq_ok.1 h
  obtain ⟨new, d₂, hassign, hput⟩ := bind_eq_ok.1 hrest
  cases hput
  cases hold : old.assign v with
  | error e =>
    rw [hold] at hassign
    cases hassign
  | ok w =>
    rw [hold] at hassign
    cases hassign
    rw [assign_eq hold]
    exact .of_subscript hsub v

theorem assignImported_assigned {reg : Registry μ} {whole : Bool} {name : Key} {v : Value}
    {d d' : Fields} (h : assignImported reg whole name v d = .ok ((), d')) :
    Assigned name v d d' := by
  unfold assignImported at h
  split_ifs at h
  · exact writeField_assigned h
  · exact setField_assigned h

theorem setIndex_assigned {idx : Nat} {whole : Bool} {v : Value} {d d' : Fields}
    (h : setIndex idx whole v d = .ok d') : Assigned (UInt32.ofNat idx) v d d' := by
  have hassigned : Assigned (UInt32.ofNat idx) v d (insert (UInt32.ofNat idx) v d) :=
    ⟨by rw [lookup_insert, if_pos rfl], fun _ hk => .insert hk⟩
  unfold setIndex at h
  split_ifs at h
  · cases h
    exact hassigned
  · cases hold : ((d.lookup (UInt32.ofNat idx)).getD .monostate).assign v with
    | error e =>
      simp only [hold] at h
      cases h
    | ok w =>
      simp only [hold] at h
      cases h
      rw [assign_eq hold]
      exact hassigned

/-! ## Assigning one after the other -/

variable {narrow : Int → Int32}

open Doc

/-- What a loop over the entries leaves: for each key the import of its last entry, and the rest as
it was. -/
structure Fills (narrow : Int → Int32) (entries : List (Key × Doc)) (d d' : Fields) : Prop where
  found : ∀ k child, last entries k = some child →
    ∃ w, d'.lookup k = some w ∧ Converts narrow child w
  kept : ∀ k, last entries k = none → Kept d d' k

theorem Fills.nil (d : Fields) : Fills narrow [] d d where
  found k child h := by cases h
  kept k _ := .refl d k

/-- An empty value is none that a key cannot stand in for. -/
theorem converts_key {doc : Doc} (h : Converts narrow doc .monostate) (c : Key) :
    Converts narrow doc (.key c) := by
  cases h
  exact .other trivial

theorem Fills.cons {name : Key} {child : Doc} {v : Value} {rest : List (Key × Doc)}
    {d d₁ d' : Fields} (hassigned : Assigned name v d d₁) (hv : Converts narrow child v)
    (hrest : Fills narrow rest d₁ d') : Fills narrow ((name, child) :: rest) d d' where
  found k c hlast := by
    rw [last] at hlast
    cases hlater : last rest k with
    | some c' =>
      rw [hlater, Option.some_or] at hlast
      cases hlast
      exact hrest.found k c hlater
    | none =>
      rw [hlater, Option.none_or] at hlast
      split_ifs at hlast with hk
      subst hk
      cases hlast
      rcases hrest.kept k hlater v hassigned.own with hsame | ⟨rfl, hkey⟩
      · exact ⟨v, hsame, hv⟩
      · exact ⟨_, hkey, converts_key hv 0⟩
  kept k hlast := by
    rw [last, Option.or_eq_none_iff] at hlast
    obtain ⟨hlater, hne⟩ := hlast
    split_ifs at hne with hk
    exact (hassigned.kept k hk).trans (hrest.kept k hlater)

theorem Fills.object {entries : List (Key × Doc)} {d d' : Fields} (h : Fills narrow entries d d') :
    Converts narrow (.object entries) (.object d') := by
  refine .object (fun k child hlast => ?_) fun k child w hlast hw => ?_
  · obtain ⟨w, hw, -⟩ := h.found k child hlast
    exact ⟨w, hw⟩
  · obtain ⟨w', hw', hconverts⟩ := h.found k child hlast
    rw [hw] at hw'
    cases hw'
    exact hconverts

theorem Fills.items {items : List Doc} {d d' : Fields} (h : Fills narrow (indexed items 0) d d')
    (hvector : ¬ IsVector items) : Converts narrow (.array items) (.object d') := by
  refine .items hvector (fun k child hlast => ?_) fun k child w hlast hw => ?_
  · obtain ⟨w, hw, -⟩ := h.found k child hlast
    exact ⟨w, hw⟩
  · obtain ⟨w', hw', hconverts⟩ := h.found k child hlast
    rw [hw] at hw'
    cases hw'
    exact hconverts

/-! ## JSON -/

theorem except_bind_eq_ok {ε α β : Type} {x : Except ε α} {f : α → Except ε β} {b : β}
    (h : x >>= f = .ok b) : ∃ a, x = .ok a ∧ f a = .ok b := by
  cases x with
  | error e => cases h
  | ok a => exact ⟨a, rfl, h⟩

section Json

variable (charSigned : Bool) (reg : Registry μ)

mutual

/-- The document of a JSON value. The library keeps an integer literal of 64 bits as it is, and
makes a floating-point number of any other. -/
def Json.doc : Json → Doc
  | .integer i => .integer i.toInt
  | .unsigned u => .integer u.toNat
  | .float _ => .real
  | .boolean _ => .boolean
  | .null | .string _ => .other
  | .array data => .array (elementDocs data)
  | .object data => .object (entryDocs data)

def elementDocs : List Json → List Doc
  | [] => []
  | el :: rest => Json.doc el :: elementDocs rest

def entryDocs : List (List UInt8 × Json) → List (Key × Doc)
  | [] => []
  | (name, el) :: rest => (nameKey charSigned name, Json.doc el) :: entryDocs rest

end

theorem elementDocs_eq (data : List Json) :
    elementDocs charSigned data = data.map (Json.doc charSigned) := by
  induction data with
  | nil => rfl
  | cons el rest ih => rw [elementDocs, ih, List.map_cons]

theorem isBoolean_doc (el : Json) : (el.doc charSigned).isBoolean = el.isBoolean := by
  cases el <;> rfl

theorem isInteger_doc (el : Json) : (el.doc charSigned).isInteger = el.isInteger := by
  cases el <;> rfl

theorem isNumber_doc (el : Json) :
    (el.doc charSigned).isNumber = (el.isInteger || el.isFloat) := by
  cases el <;> rfl

theorem all_doc {p : Doc → Bool} {q : Json → Bool} (h : ∀ el, p (Json.doc charSigned el) = q el)
    (data : List Json) : (elementDocs charSigned data).all p = data.all q := by
  rw [elementDocs_eq, List.all_map]
  exact congrArg _ (funext h)

theorem toInt32_unsigned (u : UInt64) : u.toInt64.toInt32 = Int32.ofInt u.toNat := by
  have hsigned : u.toInt64 = Int64.ofNat u.toNat := by
    rw [← UInt64.toInt64_ofNat', UInt64.ofNat_toNat]
  rw [← Int32.toInt_inj, Int64.toInt_toInt32, hsigned, Int64.toInt_ofNat', Int32.toInt_ofInt]
  exact Int.bmod_bmod_of_dvd (by decide)

/-- `int32_t{el}` keeps the low bits. -/
theorem toInt32_doc {el : Json} (h : el.isInteger = true) :
    ∃ z, Json.doc charSigned el = .integer z ∧ el.toInt32 = Int32.ofInt z := by
  cases el with
  | integer i => exact ⟨i.toInt, rfl, (Int32.ofInt_int64ToInt i).symm⟩
  | unsigned u => exact ⟨u.toNat, rfl, toInt32_unsigned u⟩
  | _ => cases h

theorem toInt32_docs {data : List Json} (h : data.all Json.isInteger = true) :
    ∃ zs : List Int, elementDocs charSigned data = zs.map .integer ∧
      data.map Json.toInt32 = zs.map Int32.ofInt := by
  induction data with
  | nil => exact ⟨[], rfl, rfl⟩
  | cons el rest ih =>
    obtain ⟨hel, hrest⟩ := (Bool.and_eq_true _ _).mp h
    obtain ⟨z, hz, hnarrow⟩ := toInt32_doc charSigned hel
    obtain ⟨zs, hzs, hnarrows⟩ := ih hrest
    refine ⟨z :: zs, ?_, ?_⟩
    · rw [elementDocs, hz, hzs, List.map_cons]
    · rw [List.map_cons, hnarrow, hnarrows, List.map_cons]

/-- An array, whose elements fill an object where they make up no vector. -/
theorem fromJsonArray_converts {data : List Json} {v : Value}
    (hfills : ∀ d, ¬ IsVector (elementDocs charSigned data) →
      fromJsonElements charSigned reg data 0 Dynamic.empty = .ok d →
        Converts Int32.ofInt (.array (elementDocs charSigned data)) (.object d))
    (h : fromJsonValue charSigned reg (.array data) = .ok v) :
    Converts Int32.ofInt (.array (elementDocs charSigned data)) v := by
  have hbooleans := all_doc charSigned (isBoolean_doc charSigned) data
  have hintegers := all_doc charSigned (isInteger_doc charSigned) data
  have hnumbers := all_doc charSigned (isNumber_doc charSigned) data
  have hobject (hvector : ¬ IsVector (elementDocs charSigned data))
      (h : (do return Value.object (← fromJsonElements charSigned reg data 0 Dynamic.empty)) =
        Except.ok v) : Converts Int32.ofInt (.array (elementDocs charSigned data)) v := by
    obtain ⟨d, hd, hv⟩ := except_bind_eq_ok h
    cases hv
    exact hfills d hvector hd
  rw [fromJsonValue] at h
  split_ifs at h with hempty hboolean hinteger hnumber
  · refine hobject ?_ h
    rw [List.isEmpty_iff.1 hempty]
    exact fun hvector => hvector.1 rfl
  · cases h
    have hne : elementDocs charSigned data ≠ [] := by
      rw [elementDocs_eq]
      exact fun hnil => hempty (List.isEmpty_iff.2 (List.map_eq_nil_iff.1 hnil))
    exact .bools _ hne (hbooleans.trans hboolean)
  · cases h
    obtain ⟨zs, hzs, hnarrow⟩ := toInt32_docs charSigned hinteger
    have hne : zs ≠ [] := by
      rintro rfl
      rw [List.map_nil, elementDocs_eq] at hzs
      exact hempty (List.isEmpty_iff.2 (List.map_eq_nil_iff.1 hzs))
    rw [hzs, hnarrow]
    exact .int32s hne
  · cases h
    exact .floats _ (hnumbers.trans hnumber) fun hall => hinteger (hintegers.symm.trans hall)
  · refine hobject ?_ h
    rintro ⟨-, hall | hall⟩
    · exact hboolean (hbooleans.symm.trans hall)
    · exact hnumber (hnumbers.symm.trans hall)

mutual

theorem fromJsonValue_converts : ∀ (j : Json) {v : Value},
    fromJsonValue charSigned reg j = .ok v → Converts Int32.ofInt (j.doc charSigned) v
  | .null, _, h => by
    cases h
    exact .other trivial
  | .boolean b, _, h => by
    cases h
    exact .boolean b
  | .integer i, _, h => by
    cases h
    rw [← Int32.ofInt_int64ToInt]
    exact .integer _
  | .unsigned u, _, h => by
    cases h
    rw [toInt32_unsigned]
    exact .integer _
  | .float bits, _, h => by
    cases h
    exact .real _
  | .string s, _, h => by
    cases h
    exact .other trivial
  | .array data, _, h => by
    have hfills (d : Fields) (hvector : ¬ IsVector (elementDocs charSigned data))
        (hd : fromJsonElements charSigned reg data 0 Dynamic.empty = .ok d) :
        Converts Int32.ofInt (.array (elementDocs charSigned data)) (.object d) :=
      (fromJsonElements_fills data hd).items hvector
    exact fromJsonArray_converts charSigned reg hfills h
  | .object data, v, h => by
    have hfills {d : Fields} (hd : fromJsonEntries charSigned reg data Dynamic.empty = .ok d) :
        Converts Int32.ofInt (.object (entryDocs charSigned data)) (.object d) :=
      (fromJsonEntries_fills data hd).object
    rw [fromJsonValue] at h
    cases hd : fromJsonEntries charSigned reg data Dynamic.empty with
    | error e =>
      rw [hd] at h
      cases h
    | ok d =>
      rw [hd] at h
      cases h
      exact hfills hd

/-- The loop over an array fills the object with its elements. -/
theorem fromJsonElements_fills : ∀ (data : List Json) {idx : Nat} {d d' : Fields},
    fromJsonElements charSigned reg data idx d = .ok d' →
    Fills Int32.ofInt (indexed (elementDocs charSigned data) idx) d d'
  | [], _, d, _, h => by
    cases h
    exact .nil d
  | el :: rest, idx, d, d', h => by
    have hconverts {v : Value} (hv : fromJsonValue charSigned reg el = .ok v) :=
      fromJsonValue_converts el hv
    have hfills {d₁ : Fields} (hd : fromJsonElements charSigned reg rest (idx + 1) d₁ = .ok d') :=
      fromJsonElements_fills rest hd
    rw [fromJsonElements] at h
    obtain ⟨v, hv, h⟩ := except_bind_eq_ok h
    obtain ⟨d₁, hset, hrest⟩ := except_bind_eq_ok h
    exact .cons (setIndex_assigned hset) (hconverts hv) (hfills hrest)

/-- The loop over an object fills it with its entries. -/
theorem fromJsonEntries_fills : ∀ (data : List (List UInt8 × Json)) {d d' : Fields},
    fromJsonEntries charSigned reg data d = .ok d' →
    Fills Int32.ofInt (entryDocs charSigned data) d d'
  | [], d, _, h => by
    cases h
    exact .nil d
  | (name, el) :: rest, d, d', h => by
    have hconverts {v : Value} (hv : fromJsonValue charSigned reg el = .ok v) :=
      fromJsonValue_converts el hv
    have hfills {d₁ : Fields} (hd : fromJsonEntries charSigned reg rest d₁ = .ok d') :=
      fromJsonEntries_fills rest hd
    rw [fromJsonEntries] at h
    obtain ⟨v, hv, h⟩ := except_bind_eq_ok h
    obtain ⟨⟨⟨⟩, d₁⟩, hset, hrest⟩ := except_bind_eq_ok h
    exact .cons (assignImported_assigned hset) (hconverts hv) (hfills hrest)

end

end Json

end Bison
