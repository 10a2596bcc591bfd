import Bison.Core.SchemaFormat

/-!
# Objects of the global namespace

The fields of an object are its own or the defaults of its class. Where that class has no parent,
the schema format is the class's fields in order.

- `InstanceOf.subscript`, `InstanceOf.setField`, `InstanceOf.writeField`: `operator[]`, and what is
  assigned through it.
- `InstanceOf.roundTrip`: what the schema format gives back of an object of a class without parent.
-/

namespace Bison

open SortedMap Decoder

variable {μ : Type}

/-- The default that objects of the global class `klass` have for a field, if one of its classes
declares it. -/
def classDefault (reg : Registry μ) (klass name : Key) : Except Exn (Option Value) :=
  match reg.lookup 0 with
  | none => .ok none
  | some col =>
    match col.search (fun p => p.fields.lookup name) klass with
    | none => .error .diverges
    | some found => .ok found

/-- `p` is the global class `klass`, and its parent is no class. -/
structure Registry.Root (reg : Registry μ) (klass : Key) (p : Prototype μ) : Prop where
  registered : ∃ col, reg.lookup 0 = some col ∧ Collection.find col klass = some p ∧
    Collection.find col p.parent = none

theorem chain_root {col : Collection μ} {klass : Key} {p : Prototype μ}
    (h : Collection.find col klass = some p) (hroot : Collection.find col p.parent = none) :
    Collection.chain col klass = some [p] := by
  have hne : col ≠ [] := by
    rintro rfl
    cases h
  obtain ⟨n, hn⟩ := Nat.exists_eq_succ_of_ne_zero (mt List.length_eq_zero_iff.mp hne)
  rw [Collection.chain, Chase.chain_of_some _ h, hn, Chase.chain_of_none n hroot]
  rfl

theorem Registry.Root.default {reg : Registry μ} {klass : Key} {p : Prototype μ}
    (h : reg.Root klass p) (name : Key) :
    classDefault reg klass name = .ok (p.fields.lookup name) := by
  obtain ⟨col, hcol, hp, hparent⟩ := h.registered
  have hsearch : Collection.search col (fun q => q.fields.lookup name) klass =
      some ([p].findSome? fun q => q.fields.lookup name) :=
    Chase.search_of_chain _ (chain_root hp hparent)
  unfold classDefault
  simp only [hcol, hsearch, List.findSome?_singleton]

/-- An object of the global class `klass`. -/
structure InstanceOf (klass : Key) (d : Fields) : Prop where
  sorted : Sorted d
  isClass : keyAt d CLASS = some klass
  isGlobal : d.lookup NAMESPACE = none ∨ keyAt d NAMESPACE = some 0

theorem lookup_withNamespace (d : Fields) {k : Key} (h : k ≠ NAMESPACE) :
    (withNamespace d).lookup k = d.lookup k := by
  unfold withNamespace
  split
  · rfl
  · exact lookup_insert_ne _ h d

namespace InstanceOf

variable {reg : Registry μ} {klass : Key} {p : Prototype μ} {d : Fields}

/-! ## Looking at a field -/

/-- A field that is there. -/
theorem subscript_own {name : Key} {v : Value} (hown : d.lookup name = some v) :
    Bison.subscript reg name d = .ok (v, d) := by
  have hfind : findField reg name d = .ok (some v, d) := by rw [findField, hown]
  rw [Bison.subscript, bind_ok hfind]
  rfl

theorem namespace_cases (h : InstanceOf klass d) :
    d.lookup NAMESPACE = none ∧ withNamespace d = insert NAMESPACE (.key 0) d ∨
      keyAt d NAMESPACE = some 0 ∧ withNamespace d = d := by
  rcases h.isGlobal with hnone | hkey
  · exact .inl ⟨hnone, by rw [withNamespace, hnone]; rfl⟩
  · exact .inr ⟨hkey, by rw [withNamespace, keyAt_eq_some_iff.mp hkey]; rfl⟩

theorem resolve (h : InstanceOf klass d) : resolveNamespace d = .ok (0, withNamespace d) := by
  unfold resolveNamespace
  rcases h.namespace_cases with ⟨hnone, hwith⟩ | ⟨hkey, hwith⟩
  · rw [hnone, hwith]
  · rw [keyAt_eq_some_iff.mp hkey, hwith]

theorem withNamespace_lookup (h : InstanceOf klass d) :
    keyAt (withNamespace d) NAMESPACE = some 0 := by
  rcases h.namespace_cases with ⟨-, hwith⟩ | ⟨hkey, hwith⟩
  · rw [hwith]
    exact keyAt_eq_some_iff.mpr (lookup_insert_self _ _ _)
  · rw [hwith]
    exact hkey

theorem resolved (h : InstanceOf klass d) : InstanceOf klass (withNamespace d) where
  sorted := withNamespace_sorted h.sorted
  isClass := by
    rw [keyAt_withNamespace d CLASS_ne_NAMESPACE]
    exact h.isClass
  isGlobal := .inr h.withNamespace_lookup

/-- A field written on the object, which keeps its class and namespace. -/
theorem write (h : InstanceOf klass d) {name : Key} {v : Value}
    (hclass : name = CLASS → v = .key klass) (hns : name = NAMESPACE → v = .key 0) :
    InstanceOf klass (insert name v d) where
  sorted := h.sorted.insert _ _
  isClass := by
    rw [keyAt_insert]
    by_cases hn : CLASS = name
    · rw [if_pos hn, hclass hn.symm]
    · rw [if_neg hn]
      exact h.isClass
  isGlobal := by
    by_cases hn : name = NAMESPACE
    · refine .inr ?_
      rw [keyAt_insert, if_pos hn.symm, hns hn]
    · rw [lookup_insert_ne v (Ne.symm hn), keyAt_insert, if_neg (Ne.symm hn)]
      exact h.isGlobal

/-- `findField` of a field the object does not set: the default of its class. -/
theorem findField_default (h : InstanceOf klass d) (reg : Registry μ) {name : Key}
    (hname : name ≠ NAMESPACE) (hown : d.lookup name = none) : findField reg name d =
      (classDefault reg klass name).map fun found => (found, match found with
        | none => withNamespace d
        | some v => insert name v (withNamespace d)) := by
  have hnone : (withNamespace d).lookup name = none := by
    rw [lookup_withNamespace d hname]
    exact hown
  unfold findField classDefault
  simp only [hown, h.resolve, ok_bind]
  cases reg.lookup 0 with
  | none =>
    simp only [hnone]
    rfl
  | some col =>
    simp only [asKey_of_keyAt h.resolved.isClass, ok_bind]
    cases Collection.search col (fun p => p.fields.lookup name) klass with
    | none => rfl
    | some found =>
      cases found with
      | none =>
        simp only [hnone]
        rfl
      | some v =>
        have hnew : insertNew name v (withNamespace d) = insert name v (withNamespace d) := by
          rw [insertNew, hnone]
          rfl
        simp only [hnew, lookup_insert_self]
        rfl

/-- `operator[]`: the field of the object, else its default, else an empty one. Of the other
fields only the namespace may become known. -/
theorem subscript (h : InstanceOf klass d) {name : Key} {dflt : Option Value}
    (hdefault : classDefault reg klass name = .ok dflt) (hname : name ≠ NAMESPACE)
    (hclass : name ≠ CLASS) :
    ∃ d', Bison.subscript reg name d = .ok (((d.lookup name).or dflt).getD .monostate, d') ∧
      InstanceOf klass d' ∧ ∀ k, k ≠ name → k ≠ NAMESPACE → d'.lookup k = d.lookup k := by
  have hwrite : ∀ v, InstanceOf klass (insert name v (withNamespace d)) := fun v =>
    h.resolved.write (fun hc => absurd hc hclass) fun hn => absurd hn hname
  have hkept : ∀ v k, k ≠ name → k ≠ NAMESPACE →
      (insert name v (withNamespace d)).lookup k = d.lookup k := by
    intro v k hk hns
    rw [lookup_insert_ne v hk, lookup_withNamespace d hns]
  cases hown : d.lookup name with
  | some v => exact ⟨d, subscript_own hown, h, fun k _ _ => rfl⟩
  | none =>
    have hfind := h.findField_default reg hname hown
    rw [hdefault] at hfind
    cases dflt with
    | some v =>
      refine ⟨_, ?_, hwrite v, hkept v⟩
      rw [Bison.subscript, bind_ok hfind]
      rfl
    | none =>
      refine ⟨_, ?_, hwrite .monostate, hkept .monostate⟩
      rw [Bison.subscript, bind_ok hfind]
      rfl

/-- Where the walk for a default does not end, neither does `operator[]`. -/
theorem subscript_error (h : InstanceOf klass d) {name : Key} {e : Exn}
    (hdefault : classDefault reg klass name = .error e) (hname : name ≠ NAMESPACE)
    (hown : d.lookup name = none) : Bison.subscript reg name d = .error e := by
  have hfind := h.findField_default reg hname hown
  rw [hdefault] at hfind
  rw [Bison.subscript, bind_error hfind]

/-! ## Writing a field -/

/-- `(*this)[name] = v` where both the object and its class have values of the type of `v`. -/
theorem setField (h : InstanceOf klass d) {name : Key} {v : Value} {dflt : Option Value}
    (hdefault : classDefault reg klass name = .ok dflt) (hname : name ≠ NAMESPACE)
    (hclass : name ≠ CLASS) (hown : ∀ w, d.lookup name = some w → w.index = v.index)
    (htype : ∀ w, dflt = some w → w.index = 0 ∨ w.index = v.index) :
    ∃ d', Bison.setField reg name v d = .ok ((), d') ∧ InstanceOf klass d' ∧
      d'.lookup name = some v ∧
      ∀ k, k ≠ name → k ≠ NAMESPACE → d'.lookup k = d.lookup k := by
  obtain ⟨d₁, hsub, hinst, hkept⟩ := h.subscript hdefault hname hclass
  refine ⟨insert name v d₁, ?_, hinst.write (fun hc => absurd hc hclass)
    fun hn => absurd hn hname, lookup_insert_self _ _ _, fun k hk hns => ?_⟩
  · have hassign : (((d.lookup name).or dflt).getD .monostate).assign v = .ok v := by
      refine if_pos ?_
      cases ho : d.lookup name with
      | some w => exact .inr (hown w ho)
      | none =>
        cases dflt with
        | some w => exact htype w rfl
        | none => exact .inl rfl
    rw [Bison.setField, bind_ok hsub, hassign]
    rfl
  · rw [lookup_insert_ne v hk, hkept k hk hns]

/-- `(*this)[name] = value` takes a field of any type. -/
theorem writeField (h : InstanceOf klass d) {name : Key} {v : Value} {dflt : Option Value}
    (hdefault : classDefault reg klass name = .ok dflt) (hclass : name ≠ CLASS)
    (hns : name = NAMESPACE → v = .key 0) :
    ∃ d', Bison.writeField reg name v d = .ok ((), d') ∧ InstanceOf klass d' ∧
      d'.lookup name = some v ∧
      ∀ k, k ≠ name → k ≠ NAMESPACE → d'.lookup k = d.lookup k := by
  have hsub : ∃ w d₁, Bison.subscript reg name d = .ok (w, d₁) ∧ InstanceOf klass d₁ ∧
      ∀ k, k ≠ name → k ≠ NAMESPACE → d₁.lookup k = d.lookup k := by
    by_cases hname : name = NAMESPACE
    · subst hname
      rcases h.namespace_cases with ⟨hnone, hwith⟩ | ⟨hkey, -⟩
      · have hfind := findField_namespace_none reg hnone (by rw [h.isClass]; rfl)
        refine ⟨.key 0, withNamespace d, ?_, h.resolved,
          fun k _ hk => lookup_withNamespace d hk⟩
        rw [Bison.subscript, bind_ok hfind, hwith]
        rfl
      · exact ⟨_, d, subscript_own (keyAt_eq_some_iff.mp hkey), h, fun k _ _ => rfl⟩
    · obtain ⟨d₁, hsub, hinst, hkept⟩ := h.subscript hdefault hname hclass
      exact ⟨_, d₁, hsub, hinst, hkept⟩
  obtain ⟨w, d₁, hsub, hinst, hkept⟩ := hsub
  refine ⟨insert name v d₁, ?_, hinst.write (fun hc => absurd hc hclass) hns,
    lookup_insert_self _ _ _, fun k hk hkns => ?_⟩
  · rw [Bison.writeField, bind_ok hsub]
  · rw [lookup_insert_ne v hk, hkept k hk hkns]

/-! ## The schema format -/

/-- What is written for the object. -/
def written (p : Prototype μ) (d : Fields) : Fields := writtenAt (withNamespace d) p

theorem writes (hroot : reg.Root klass p) (h : InstanceOf klass d) :
    Dynamic.serializeWithSchema reg d = .ok (writeWord 0 ++ writeWord klass ++
      (written p d).flatMap fun e => e.2.serialize, withNamespace d) := by
  obtain ⟨col, hcol, hp, hparent⟩ := hroot.registered
  rw [Dynamic.serializeWithSchema, asKey_of_keyAt h.isClass]
  simp only [ok_bind, h.resolve, hcol, chain_root hp hparent, List.flatMap_singleton]
  rfl

theorem reads (hroot : reg.Root klass p) {lim : Limits}
    (hfits : ∀ e ∈ written p d, e.2.Fits lim) (rest : List UInt8) :
    bufferDeserializeWithSchema lim reg (writeWord 0 ++ writeWord klass ++
        ((written p d).flatMap fun e => e.2.serialize) ++ rest) =
      (reviveEntries reg (written p d) Dynamic.empty).map fun r => (r, rest) := by
  obtain ⟨col, hcol, hp, hparent⟩ := hroot.registered
  have hflat : ([p].flatMap fun q => (writtenAt (withNamespace d) q).flatMap fun e =>
      e.2.serialize) = (written p d).flatMap fun e => e.2.serialize :=
    List.flatMap_singleton _ _
  show Dynamic.deserializeWithSchema (bufferReader lim) reg _ _ = _
  generalize hfuel : (writeWord 0 ++ writeWord klass ++
    ((written p d).flatMap fun e => e.2.serialize) ++ rest).length + 1 = fuel
  simp only [List.length_append] at hfuel
  have hword : (writeWord klass).length = 4 := rfl
  have hread : ∀ q ∈ [p], ∀ e ∈ writtenAt (withNamespace d) q,
      Reads (Field.deserialize (bufferReader lim) (deserializeInstance (bufferReader lim) reg fuel))
        e.2.serialize (e.2.revive reg) := by
    intro q hq e he
    rw [List.mem_singleton.mp hq] at he
    have hle := (List.sublist_flatten_of_mem
      (List.mem_map_of_mem (f := fun e : Key × Value => e.2.serialize) he)).length_le
    rw [← List.flatMap_def] at hle
    refine Value.deserialize_reads reg e.2 fuel (hfits e he) ?_
    unfold written at hfuel
    omega
  have hloop := schemaLoop_reads reg _ fuel klass [p] Dynamic.empty (chain_root hp hparent)
    (show 1 < fuel by omega) hread
  rw [hflat, List.flatMap_singleton] at hloop
  unfold Dynamic.deserializeWithSchema
  rw [List.append_assoc, List.append_assoc, bind_ok (bufferReader_word lim 0 _),
    bind_ok (bufferReader_word lim klass _)]
  simp only [hcol]
  exact hloop rest

/-- What is written is read back, to its end: each field of the class has the object's value, or
the default, as that comes back. -/
theorem roundTrip (hroot : reg.Root klass p) (h : InstanceOf klass d) {lim : Limits}
    (hfits : ∀ e ∈ written p d, e.2.Fits lim)
    (hrevives : ∀ e ∈ written p d, ∃ v, e.2.revive reg = .ok v) :
    ∃ bytes r, Dynamic.serializeWithSchema reg d = .ok (bytes, withNamespace d) ∧ bytes ≠ [] ∧
      bufferDeserializeWithSchema lim reg bytes = .ok (r, []) ∧
      ∀ k dflt, p.fields.lookup k = some dflt → ∃ v,
        (((withNamespace d).lookup k).getD dflt).revive reg = .ok v ∧ r.lookup k = some v := by
  obtain ⟨es, hes⟩ := (exists_revived reg).mpr hrevives
  have hr : reviveEntries reg (written p d) Dynamic.empty = .ok (insertAll Dynamic.empty es) :=
    (reviveEntries_eq_ok reg).mpr ⟨es, hes, rfl⟩
  refine ⟨_, insertAll Dynamic.empty es, h.writes hroot, ?_, ?_, ?_⟩
  · intro hnil
    have hlen := congrArg List.length hnil
    simp only [List.length_append, List.length_nil] at hlen
    have hword : (writeWord klass).length = 4 := rfl
    omega
  · have hread := reads hroot hfits []
    rw [List.append_nil, hr] at hread
    exact hread
  · intro k dflt hk
    have hwritten : reviveEntries reg ([p].flatMap (writtenAt (withNamespace d))) Dynamic.empty =
        .ok (insertAll Dynamic.empty es) := by
      rw [List.flatMap_singleton]
      exact hr
    have hdeclared : ([p].reverse.findSome? fun q => q.fields.lookup k) = some dflt := by
      rw [List.reverse_singleton, List.findSome?_singleton]
      exact hk
    exact lookup_of_revived hwritten hdeclared

end InstanceOf

end Bison
