import Bison.Core.Instances
import Bison.Core.Numbers

/-!
# Objects as text documents

What `to_json`, `to_yaml` and their importers share (bison.cpp): keys are written as names and
hashed again, the class and the namespace are left out where they are unset, and an importer fills
an object of no class, field by field.

- `resolveKey`, `isZeroBookkeepingField`: what the exporters write for a key, and which fields they
  leave out.
- `Value.significant`: a value without the fields that stand for nothing.
- `Filled`: an object whose fields were imported one after the other.
- `Filled.significant`: it has the significant fields that were exported.
-/

namespace Bison

open SortedMap Decoder

variable {μ : Type}

/-! ## Names -/

/-- `key_t(const std::string&)` (bison_common.hpp:150). -/
def nameKey (charSigned : Bool) (name : List UInt8) : Key := hash charSigned (cString name)

/-- `key_map`: the names of keys that the caller of an export knows. -/
abbrev KeyMap := Key → Option (List UInt8)

/-- `resolve_key` (bison.cpp:440): the name, or `#` and the number. -/
def resolveKey (keys : KeyMap) (id : Key) : List UInt8 :=
  (keys id).getD (ascii "#" ++ decimal id.toNat)

/-- The table has a name of the key, which is hashed to it again. -/
def HasName (charSigned : Bool) (keys : KeyMap) (k : Key) : Prop :=
  ∃ name, keys k = some name ∧ nameKey charSigned name = k

theorem HasName.nameKey {charSigned : Bool} {keys : KeyMap} {k : Key}
    (h : HasName charSigned keys k) :
    Bison.nameKey charSigned (resolveKey keys k) = k := by
  obtain ⟨name, hname, hkey⟩ := h
  rw [resolveKey, hname]
  exact hkey

/-- A byte as two lowercase hexadecimal digits. -/
def hexByte (b : UInt8) : List UInt8 :=
  let digit (n : UInt8) : UInt8 := if n < 10 then 48 + n else 87 + n
  [digit (b / 16), digit (b % 16)]

/-! ## Fields that stand for nothing -/

/-- `is_zero_bookkeeping_field_p` (bison.cpp:413): a class or namespace that is unset. -/
def isZeroBookkeepingField (k : Key) (f : Value) : Bool :=
  (k == CLASS || k == NAMESPACE) &&
    match f with
    | .key id => id == 0
    | _ => false

theorem isZeroBookkeepingField_iff {k : Key} {f : Value} :
    isZeroBookkeepingField k f = true ↔ (k = CLASS ∨ k = NAMESPACE) ∧ f = .key 0 := by
  cases f <;> simp [isZeroBookkeepingField]

theorem isZeroBookkeepingField_of_ne {k : Key} (hclass : k ≠ CLASS) (hns : k ≠ NAMESPACE)
    (f : Value) : isZeroBookkeepingField k f = false := by
  rw [← Bool.not_eq_true, isZeroBookkeepingField_iff]
  rintro ⟨hk | hk, -⟩
  · exact hclass hk
  · exact hns hk

/-- The fields that are exported. -/
def exportedFields (d : Fields) : Fields := d.filter fun e => !isZeroBookkeepingField e.1 e.2

theorem mem_exportedFields {d : Fields} {e : Key × Value} :
    e ∈ exportedFields d ↔ e ∈ d ∧ isZeroBookkeepingField e.1 e.2 = false := by
  simp [exportedFields]

mutual

/-- The value without the unset classes and namespaces of its objects. -/
def Value.significant : Value → Value
  | .object fields => .object (significantFields fields)
  | v => v

def significantFields : Fields → Fields
  | [] => []
  | (k, v) :: rest =>
    if isZeroBookkeepingField k v then significantFields rest
    else (k, v.significant) :: significantFields rest

end

theorem mem_significantFields {e : Key × Value} : ∀ {d : Fields}, e ∈ significantFields d →
    ∃ v, (e.1, v) ∈ d ∧ isZeroBookkeepingField e.1 v = false ∧ v.significant = e.2
  | (k, v) :: rest, h => by
    rw [significantFields] at h
    have hrest : e ∈ significantFields rest → ∃ w, (e.1, w) ∈ (k, v) :: rest ∧
        isZeroBookkeepingField e.1 w = false ∧ w.significant = e.2 := by
      intro he
      obtain ⟨w, hw, hzero, hsig⟩ := mem_significantFields he
      exact ⟨w, List.mem_cons_of_mem _ hw, hzero, hsig⟩
    split at h
    · exact hrest h
    · next hzero =>
      rcases List.mem_cons.mp h with rfl | h
      · exact ⟨v, List.mem_cons_self, Bool.not_eq_true _ ▸ hzero, rfl⟩
      · exact hrest h

theorem significantFields_sorted : ∀ {d : Fields}, Sorted d → Sorted (significantFields d)
  | [], _ => sorted_nil
  | (k, v) :: rest, h => by
    rw [significantFields]
    split
    · exact significantFields_sorted h.tail
    · refine List.Pairwise.cons (fun e he => ?_) (significantFields_sorted h.tail)
      obtain ⟨w, hw, -⟩ := mem_significantFields he
      show k < (e.1, w).1
      exact h.lt_of_mem hw

theorem lookup_significantFields (k : Key) : ∀ {d : Fields}, Sorted d →
    (significantFields d).lookup k =
      (d.lookup k).bind fun v => if isZeroBookkeepingField k v then none else some v.significant
  | [], _ => rfl
  | (k', v) :: rest, h => by
    have ih := lookup_significantFields k h.tail
    rw [significantFields, lookup_cons_ite]
    by_cases hk : k = k'
    · rw [if_pos hk, Option.bind_some, hk]
      split
      · next hzero =>
        rw [← hk, ih, hk, h.lookup_eq_none]
        rfl
      · rw [lookup_cons_ite, if_pos rfl]
    · rw [if_neg hk]
      split
      · exact ih
      · rw [lookup_cons_ite, if_neg hk]
        exact ih

/-! ## What holds of every field -/

mutual

/-- `P` holds of every field of every object in the value, except those that stand for nothing. -/
def Value.Each (P : Key → Value → Prop) : Value → Prop
  | .object fields => fieldsEach P fields
  | _ => True

def fieldsEach (P : Key → Value → Prop) : Fields → Prop
  | [] => True
  | (k, v) :: rest =>
    ((isZeroBookkeepingField k v = false → P k v) ∧ v.Each P) ∧ fieldsEach P rest

end

theorem fieldsEach_iff {P : Key → Value → Prop} {d : Fields} : fieldsEach P d ↔
    ∀ e ∈ d, (isZeroBookkeepingField e.1 e.2 = false → P e.1 e.2) ∧ e.2.Each P := by
  induction d with
  | nil => simp [fieldsEach]
  | cons e rest ih => simp [fieldsEach, ih]

/-- What a text document can say of a field without loss: the key has a name, and the value is
one of these. -/
def Exportable (named : Key → Prop) (k : Key) (v : Value) : Prop :=
  named k ∧ (k = CLASS ∨ k = NAMESPACE → ∃ c, v = .key c) ∧
    match v with
    | .bool _ | .int32 _ | .string _ | .null => True
    | .object fields => Sorted fields
    | .bools v => v ≠ []
    | .int32s v => v ≠ []
    | .key c => (k = CLASS ∨ k = NAMESPACE) ∧ named c
    | _ => False

/-- The field is not the class or the namespace of an object. -/
def Anonymous (k : Key) (_ : Value) : Prop := k ≠ CLASS ∧ k ≠ NAMESPACE

/-! ## Importing fields -/

/-- `d'` is the object `d` of no class after `v` was put into its field `k`. -/
structure Put (k : Key) (v : Value) (d d' : Fields) : Prop where
  inst : InstanceOf 0 d'
  own : d'.lookup k = some v
  kept : ∀ j, j ≠ k → j ≠ NAMESPACE → d'.lookup j = d.lookup j

/-- The fields of the first list were imported into an object, one after the other. -/
inductive Filled : Fields → Fields → Fields → Prop where
  | nil (d : Fields) : Filled [] d d
  | cons {k : Key} {v w : Value} {rest d d₁ d' : Fields} : Put k w d d₁ →
      w.significant = v.significant → Filled rest d₁ d' → Filled ((k, v) :: rest) d d'

theorem Filled.inst {ps d d' : Fields} (h : Filled ps d d') (hd : InstanceOf 0 d) :
    InstanceOf 0 d' := by
  induction h with
  | nil => exact hd
  | cons hput _ _ ih => exact ih hput.inst

theorem Filled.lookup {ps d d' : Fields} (h : Filled ps d d') (hnd : (ps.map Prod.fst).Nodup)
    {k : Key} (hk : k ≠ NAMESPACE) :
    match ps.lookup k with
    | none => d'.lookup k = d.lookup k
    | some v => ∃ w, d'.lookup k = some w ∧ w.significant = v.significant := by
  induction h with
  | nil => rfl
  | @cons k₀ v w rest d d₁ d' hput hsig _ ih =>
    obtain ⟨hfresh, hnd⟩ := List.nodup_cons.mp hnd
    have ih := ih hnd
    rw [lookup_cons_ite]
    by_cases hk₀ : k = k₀
    · subst hk₀
      have hnone : rest.lookup k = none := by
        rw [List.lookup_eq_none_iff]
        intro e he
        rw [bne_iff_ne]
        exact (ne_of_mem_of_not_mem (List.mem_map_of_mem (f := Prod.fst) he) hfresh).symm
      rw [hnone] at ih
      rw [if_pos rfl]
      exact ⟨w, ih.trans hput.own, hsig⟩
    · rw [if_neg hk₀]
      cases hrest : rest.lookup k with
      | none =>
        rw [hrest] at ih
        exact ih.trans (hput.kept k hk₀ hk)
      | some v' =>
        rw [hrest] at ih
        exact ih

theorem instanceOf_empty : InstanceOf 0 Dynamic.empty :=
  ⟨sorted_singleton _ _, rfl, .inl rfl⟩

/-- The imported object has the significant fields that were exported. -/
theorem Filled.significant {ps d d' : Fields} (h : Filled ps Dynamic.empty d')
    (hnd : (ps.map Prod.fst).Nodup) (hs : Sorted d)
    (hps : ∀ e, e ∈ ps ↔ e ∈ d ∧ isZeroBookkeepingField e.1 e.2 = false)
    (hanon : ∀ e ∈ ps, Anonymous e.1 e.2) : significantFields d' = significantFields d := by
  have hinst := h.inst instanceOf_empty
  refine ext (significantFields_sorted hinst.sorted) (significantFields_sorted hs) fun k => ?_
  rw [lookup_significantFields k hinst.sorted, lookup_significantFields k hs]
  by_cases hbook : k = CLASS ∨ k = NAMESPACE
  · -- neither side has a class or a namespace
    have hnone : ((d.lookup k).bind fun v => if isZeroBookkeepingField k v then none
        else some v.significant) = none := by
      cases hv : d.lookup k with
      | none => rfl
      | some v =>
        by_cases hzero : isZeroBookkeepingField k v = true
        · rw [Option.bind_some, if_pos hzero]
        · have hmem := (hps (k, v)).mpr ⟨mem_of_lookup hv, Bool.not_eq_true _ ▸ hzero⟩
          obtain ⟨hclass, hns⟩ := hanon _ hmem
          rcases hbook with hk | hk
          · exact absurd hk hclass
          · exact absurd hk hns
    rw [hnone]
    rcases hbook with rfl | rfl
    · rw [keyAt_eq_some_iff.mp hinst.isClass, Option.bind_some,
        if_pos (isZeroBookkeepingField_iff.mpr ⟨.inl rfl, rfl⟩)]
    · rcases hinst.isGlobal with hnone | hkey
      · rw [hnone]
        rfl
      · rw [keyAt_eq_some_iff.mp hkey, Option.bind_some,
          if_pos (isZeroBookkeepingField_iff.mpr ⟨.inr rfl, rfl⟩)]
  · obtain ⟨hclass, hns⟩ := not_or.mp hbook
    have hzero := isZeroBookkeepingField_of_ne hclass hns
    have hlook := h.lookup hnd hns
    have hmem : ∀ v, ps.lookup k = some v ↔ d.lookup k = some v := by
      intro v
      constructor
      · intro hv
        exact hs.lookup_of_mem ((hps _).mp (mem_of_lookup hv)).1
      · intro hv
        have hin := (hps (k, v)).mpr ⟨mem_of_lookup hv, hzero v⟩
        cases hv' : ps.lookup k with
        | none =>
          rw [List.lookup_eq_none_iff] at hv'
          exact absurd rfl (bne_iff_ne.mp (hv' _ hin))
        | some v' =>
          have hd := hs.lookup_of_mem ((hps _).mp (mem_of_lookup hv')).1
          rw [hv] at hd
          exact hd.symm
    cases hv : d.lookup k with
    | none =>
      have hnone : ps.lookup k = none := by
        cases hv' : ps.lookup k with
        | none => rfl
        | some v =>
          rw [(hmem v).mp hv'] at hv
          cases hv
      have hempty : Dynamic.empty.lookup k = none := by
        rw [Dynamic.empty, lookup_cons_ite, if_neg hclass]
        rfl
      rw [hnone, hempty] at hlook
      rw [hlook]
    | some v =>
      rw [(hmem v).mpr hv] at hlook
      obtain ⟨w, hw, hsig⟩ := hlook
      rw [hw, Option.bind_some, Option.bind_some, hzero, hzero, hsig]

end Bison
