import Bison.Lib.Returns
import Bison.Core.Instances
import Bison.Core.RegistryLock
import Bison.Core.Resolution

/-!
# Assignments to an object of a known class

`obj[name] = v` looks `name` up along the classes of the object, and keeps the type of what it
finds. So an object takes the value or refuses it by what its classes declare.

- `Headed c ns d`: what the object says of its class and its namespace.
- `Admits`: what the classes declare for a name lets a value be assigned.
- `put`, `putAll`: the object after an assignment, and after several.
- `setField_returns`, `writeField_returns`, `forEach_write_returns`: **main results**, when an
  assignment returns.
-/

namespace Bison

open SortedMap Program

variable {μ : Type}

/-- An object of class `c`, in namespace `ns`. An object that names none is in namespace 0. -/
structure Headed (c ns : Key) (d : Fields) : Prop where
  isClass : keyAt d CLASS = some c
  inNamespace : d.lookup NAMESPACE = none ∧ ns = 0 ∨ keyAt d NAMESPACE = some ns

/-- What a field keeps of its type when `v` is assigned. -/
def Value.Takes (old v : Value) : Prop := old.index = 0 ∨ old.index = v.index

instance (old v : Value) : Decidable (old.Takes v) := inferInstanceAs (Decidable (_ ∨ _))

theorem Value.assign_of_takes {old v : Value} (h : old.Takes v) : old.assign v = .ok v := if_pos h

theorem Value.assign_of_not_takes {old v : Value} (h : ¬ old.Takes v) :
    old.assign v = .error (.runtimeError "Invalid type") := if_neg h

/-- The classes of an object of class `c` in namespace `ns` are walked to an end, in search of a
field. -/
def Registry.Ends (reg : Registry μ) (ns c k : Key) : Prop :=
  (reg.inherited (fun p => p.fields.lookup k) ns c).isSome

/-- What the classes declare for `k`, if anything, takes `v`. -/
def Registry.Admits (reg : Registry μ) (ns c k : Key) (v : Value) : Prop :=
  ∃ found, reg.inherited (fun p => p.fields.lookup k) ns c = some found ∧
    ∀ old, found = some old → old.Takes v

/-- The object after an assignment. Where the field is looked up, the namespace is written. -/
def put (k : Key) (v : Value) (d : Fields) : Fields :=
  insert k v (if (d.lookup k).isSome then d else withNamespace d)

/-- The object after assignments. -/
def putAll (ws : List (Key × Value)) (d : Fields) : Fields :=
  ws.foldl (fun d x => put x.1 x.2 d) d

theorem putAll_cons (x : Key × Value) (ws : List (Key × Value)) (d : Fields) :
    putAll (x :: ws) d = putAll ws (put x.1 x.2 d) := rfl

theorem lookup_put_self (k : Key) (v : Value) (d : Fields) : (put k v d).lookup k = some v :=
  lookup_insert_self _ _ _

theorem lookup_put_ne {k k' : Key} (hk : k' ≠ k) (hns : k' ≠ NAMESPACE) (v : Value) (d : Fields) :
    (put k v d).lookup k' = d.lookup k' := by
  rw [put, lookup_insert_ne _ hk]
  split
  · rfl
  · exact lookup_withNamespace d hns

/-- A field that is not assigned is what it was. -/
theorem lookup_putAll_of_none {k : Key} (hns : k ≠ NAMESPACE) :
    ∀ {ws : List (Key × Value)} (d : Fields), ws.lookup k = none →
      (putAll ws d).lookup k = d.lookup k
  | [], _, _ => rfl
  | (k', v) :: ws, d, h => by
    rw [lookup_cons_ite] at h
    split_ifs at h with hk
    rw [putAll_cons, lookup_putAll_of_none hns _ h, lookup_put_ne hk hns]

/-- A lookup writes no field that is there. -/
theorem lookup_withNamespace_some {k : Key} {v : Value} {d : Fields} (h : d.lookup k = some v) :
    (withNamespace d).lookup k = some v := by
  unfold withNamespace
  split
  · exact h
  · next hnone =>
    rw [lookup_insert_ne _ fun heq => hnone (by rw [← heq, h]; rfl)]
    exact h

theorem lookup_put_kept {k k' : Key} {v : Value} {d : Fields} (hk : k ≠ k')
    (h : d.lookup k = some v) (v' : Value) : (put k' v' d).lookup k = some v := by
  rw [put, lookup_insert_ne _ hk]
  split
  · exact h
  · exact lookup_withNamespace_some h

theorem lookup_putAll_kept {k : Key} {v : Value} :
    ∀ {ws : List (Key × Value)} (d : Fields), k ∉ ws.map Prod.fst → d.lookup k = some v →
      (putAll ws d).lookup k = some v
  | [], _, _, h => h
  | x :: ws, d, hx, h => by
    rw [List.map_cons, List.mem_cons, not_or] at hx
    rw [putAll_cons]
    exact lookup_putAll_kept _ hx.2 (lookup_put_kept hx.1 h x.2)

/-- A field that is assigned once is what was assigned. -/
theorem lookup_putAll_of_some {k : Key} {v : Value} :
    ∀ {ws : List (Key × Value)} (d : Fields), (ws.map Prod.fst).Nodup → ws.lookup k = some v →
      (putAll ws d).lookup k = some v
  | (k', v') :: ws, d, hnodup, h => by
    rw [List.map_cons, List.nodup_cons] at hnodup
    rw [lookup_cons_ite] at h
    rw [putAll_cons]
    split_ifs at h with hk
    · cases h
      subst hk
      exact lookup_putAll_kept _ hnodup.1 (lookup_put_self _ _ _)
    · exact lookup_putAll_of_some _ hnodup.2 h

namespace Headed

variable {reg : Registry μ} {c ns k : Key} {d : Fields} {v : Value}

theorem resolve (h : Headed c ns d) : resolveNamespace d = .ok (ns, withNamespace d) := by
  unfold resolveNamespace withNamespace
  rcases h.inNamespace with ⟨hnone, rfl⟩ | hkey
  · rw [hnone]
    rfl
  · rw [keyAt_eq_some_iff.mp hkey]
    rfl

/-- A field is written, and the object says what it said of its class and its namespace. -/
theorem insert (h : Headed c ns d) (hclass : k = CLASS → v = .key c)
    (hns : k = NAMESPACE → v = .key ns) : Headed c ns (SortedMap.insert k v d) := by
  constructor
  · rw [keyAt_insert]
    split_ifs with hk
    · rw [hclass hk.symm]
    · exact h.isClass
  · by_cases hk : k = NAMESPACE
    · right
      rw [keyAt_insert, if_pos hk.symm, hns hk]
    · rw [lookup_insert_ne _ (Ne.symm hk), keyAt_insert, if_neg (Ne.symm hk)]
      exact h.inNamespace

theorem withNamespace (h : Headed c ns d) : Headed c ns (Bison.withNamespace d) := by
  unfold Bison.withNamespace
  split
  · exact h
  · next hnone =>
    rcases h.inNamespace with ⟨-, rfl⟩ | hkey
    · exact h.insert (fun heq => absurd heq CLASS_ne_NAMESPACE.symm) fun _ => rfl
    · rw [keyAt_eq_some_iff.mp hkey] at hnone
      exact absurd rfl hnone

theorem put (h : Headed c ns d) (hclass : k = CLASS → v = .key c)
    (hns : k = NAMESPACE → v = .key ns) : Headed c ns (Bison.put k v d) := by
  unfold Bison.put
  split
  · exact h.insert hclass hns
  · exact h.withNamespace.insert hclass hns

theorem putAll (h : Headed c ns d) {ws : List (Key × Value)}
    (hws : ∀ x ∈ ws, x.1 ≠ CLASS ∧ x.1 ≠ NAMESPACE) : Headed c ns (Bison.putAll ws d) := by
  induction ws generalizing d with
  | nil => exact h
  | cons x ws ih =>
    obtain ⟨hclass, hns⟩ := hws x List.mem_cons_self
    exact ih (h.put (fun heq => absurd heq hclass) fun heq => absurd heq hns)
      fun y hy => hws y (List.mem_cons_of_mem _ hy)

/-- An object that is put into another namespace. -/
theorem put_namespace (h : Headed c ns d) (ns' : Key) :
    Headed c ns' (Bison.put NAMESPACE (.key ns') d) := by
  refine ⟨?_, .inr ?_⟩
  · rw [keyAt_congr (lookup_put_ne CLASS_ne_NAMESPACE CLASS_ne_NAMESPACE _ _)]
    exact h.isClass
  · exact keyAt_eq_some_iff.mpr (lookup_put_self _ _ _)

/-- An object that is made one of another class. -/
theorem put_class (h : Headed c ns d) (c' : Key) : Headed c' ns (Bison.put CLASS (.key c') d) := by
  refine ⟨keyAt_eq_some_iff.mpr (lookup_put_self _ _ _), ?_⟩
  have hown : (d.lookup CLASS).isSome := by
    rw [keyAt_eq_some_iff.mp h.isClass]
    rfl
  rw [Bison.put, if_pos hown, keyAt_insert, if_neg CLASS_ne_NAMESPACE.symm,
    lookup_insert_ne _ CLASS_ne_NAMESPACE.symm]
  exact h.inNamespace

theorem walkStart (h : Headed c ns d) : walkStart reg d =
    .ok ((reg.lookup ns).map fun col => (col, c), Bison.withNamespace d) := by
  simp only [Bison.walkStart, h.resolve, Decoder.ok_bind]
  cases reg.lookup ns with
  | none => rfl
  | some col => simp only [asKey_of_keyAt h.withNamespace.isClass, Decoder.ok_bind, Option.map_some]

/-- A field that the object does not have is looked up in its classes. -/
theorem findField (h : Headed c ns d) (hk : k ≠ NAMESPACE) (hown : d.lookup k = none) :
    findField reg k d = match reg.inherited (fun p => p.fields.lookup k) ns c with
      | none => .error .diverges
      | some none => .ok (none, Bison.withNamespace d)
      | some (some v) => .ok (some v, SortedMap.insert k v (Bison.withNamespace d)) := by
  have hnone : (Bison.withNamespace d).lookup k = none := by
    rw [lookup_withNamespace d hk]
    exact hown
  rw [findField_of_none reg hown, h.walkStart, Decoder.ok_bind]
  unfold Registry.inherited
  cases reg.lookup ns with
  | none =>
    simp only [Option.map_none]
    rw [hnone]
  | some col =>
    simp only [Option.map_some]
    cases col.search (fun p => p.fields.lookup k) c with
    | none => rfl
    | some found =>
      cases found with
      | none =>
        simp only
        rw [hnone]
      | some v =>
        simp only [insertNew, hnone]
        simp

theorem subscript (h : Headed c ns d) (hk : k ≠ NAMESPACE) (hown : d.lookup k = none) :
    subscript reg k d = match reg.inherited (fun p => p.fields.lookup k) ns c with
      | none => .error .diverges
      | some found => .ok (found.getD .monostate,
          SortedMap.insert k (found.getD .monostate) (Bison.withNamespace d)) := by
  unfold Bison.subscript
  rw [Decoder.bind_apply, h.findField hk hown]
  cases reg.inherited (fun p => p.fields.lookup k) ns c with
  | none => rfl
  | some found => cases found <;> rfl

/-- The namespace is found to be 0 where the object does not say. -/
theorem subscript_namespace (h : Headed c ns d) (hown : d.lookup NAMESPACE = none) :
    Bison.subscript reg NAMESPACE d =
      .ok (.key 0, SortedMap.insert NAMESPACE (.key 0) d) := by
  have hclass : (keyAt d CLASS).isSome := by
    rw [h.isClass]
    rfl
  exact Decoder.bind_ok (findField_namespace_none reg hown hclass) _

end Headed

/-- `operator[]` for a name that the object does not have. -/
theorem insert_put_of_none {k : Key} {d : Fields} (hown : d.lookup k = none) (w v : Value) :
    insert k v (insert k w (withNamespace d)) = put k v d := by
  rw [put, hown]
  exact insert_insert k v w _

namespace Locked

variable {reg : Registry μ} {c ns k : Key} {d : Fields}

/-- A field of its own takes a value by its own type. -/
theorem setField_own_returns {old : Value} (hown : d.lookup k = some old) (v : Value) :
    ReturnsIff (old.Takes v) (setField reg k v) d () (put k v d) := by
  have hput : put k v d = insert k v d := by
    rw [put, hown]
    rfl
  have hsub : Bison.subscript reg k d = .ok (old, d) := InstanceOf.subscript_own hown
  refine .of_mirrors (setField_wraps reg k v).mirrors (fun h => ?_) fun h => ?_
  · rw [Bison.setField, Decoder.bind_ok hsub, Value.assign_of_takes h, hput]
    rfl
  · rw [Bison.setField, Decoder.bind_ok hsub, Value.assign_of_not_takes h]
    exact ⟨_, rfl⟩

/-- Another is taken by what the classes of the object declare. -/
theorem setField_returns (h : Headed c ns d) (hk : k ≠ NAMESPACE) (hown : d.lookup k = none)
    (v : Value) : ReturnsIff (reg.Admits ns c k v) (setField reg k v) d () (put k v d) := by
  have hsub : Bison.subscript reg k d = _ := h.subscript hk hown
  refine .of_mirrors (setField_wraps reg k v).mirrors (fun hadmits => ?_) fun hadmits => ?_
  · obtain ⟨found, hfound, htakes⟩ := hadmits
    have htakes : (found.getD .monostate).Takes v := by
      cases found with
      | none => exact .inl rfl
      | some old => exact htakes old rfl
    simp only [hfound] at hsub
    rw [Bison.setField, Decoder.bind_ok hsub, Value.assign_of_takes htakes]
    exact congrArg (fun d => Except.ok ((), d)) (insert_put_of_none hown _ v)
  · rw [Bison.setField, Decoder.bind_apply, hsub]
    cases hfound : reg.inherited (fun p => p.fields.lookup k) ns c with
    | none => exact ⟨_, rfl⟩
    | some found =>
      cases found with
      | none => exact (hadmits ⟨none, hfound, fun old heq => by cases heq⟩).elim
      | some old =>
        have hnot : ¬ old.Takes v := by
          intro htakes
          exact hadmits ⟨some old, hfound, fun old' heq => by cases heq; exact htakes⟩
        refine ⟨.runtimeError "Invalid type", ?_⟩
        show (Decoder.lift (old.assign v) >>= _ : DynamicM Unit) _ = _
        rw [Value.assign_of_not_takes hnot]
        rfl

/-- The namespace, which is looked up like any other field, is there by then. -/
theorem setField_namespace_fails (h : Headed c ns d) {v : Value}
    (hnot : ∀ k, ¬ (Value.key k).Takes v) :
    ReturnsIff False (setField reg NAMESPACE v) d () d := by
  rcases h.inNamespace with ⟨hnone, -⟩ | hkey
  · refine .of_mirrors (setField_wraps reg NAMESPACE v).mirrors (fun h => h.elim) fun _ => ?_
    rw [Bison.setField, Decoder.bind_ok (h.subscript_namespace hnone),
      Value.assign_of_not_takes (hnot 0)]
    exact ⟨_, rfl⟩
  · have hown : ReturnsIff _ (setField reg NAMESPACE v) _ _ _ :=
      setField_own_returns (keyAt_eq_some_iff.mp hkey) v
    exact ⟨fun h => h.elim, fun _ => hown.fails (hnot ns)⟩

/-- A field is copied whatever its type is. -/
theorem writeField_returns (h : Headed c ns d) (v : Value) :
    ReturnsIff (k ≠ NAMESPACE → d.lookup k = none → reg.Ends ns c k) (writeField reg k v) d ()
      (put k v d) := by
  have hwraps := (writeField_wraps reg k v).mirrors
  cases hown : d.lookup k with
  | some old =>
    have hsub : Bison.subscript reg k d = .ok (old, d) := InstanceOf.subscript_own hown
    refine .of_mirrors hwraps (fun _ => ?_) fun h => (h fun _ hnone => by cases hnone).elim
    rw [Bison.writeField, Decoder.bind_ok hsub, put, hown]
    rfl
  | none =>
    by_cases hk : k = NAMESPACE
    · -- looking for it puts it there
      subst hk
      refine .of_mirrors hwraps (fun _ => ?_) fun h => (h fun hne => absurd rfl hne).elim
      rw [Bison.writeField, Decoder.bind_ok (h.subscript_namespace hown),
        ← insert_put_of_none hown (.key 0) v, withNamespace, hown]
      simp [insert_insert]
    · have hsub : Bison.subscript reg k d = _ := h.subscript hk hown
      refine .of_mirrors hwraps (fun hends => ?_) fun hends => ?_
      · obtain ⟨found, hfound⟩ := Option.isSome_iff_exists.mp (hends hk rfl)
        simp only [hfound] at hsub
        rw [Bison.writeField, Decoder.bind_ok hsub]
        exact congrArg (fun d => Except.ok ((), d)) (insert_put_of_none hown _ v)
      · rw [Bison.writeField, Decoder.bind_apply, hsub]
        cases hfound : reg.inherited (fun p => p.fields.lookup k) ns c with
        | none => exact ⟨_, rfl⟩
        | some found =>
          refine (hends fun _ _ => ?_).elim
          rw [Registry.Ends, hfound]
          rfl

/-- Values are assigned to fields that the object does not have. -/
theorem forEach_write_returns {ws : List (Key × Value)} (h : Headed c ns d)
    (hnodup : (ws.map Prod.fst).Nodup)
    (hfresh : ∀ x ∈ ws, x.1 ≠ CLASS ∧ x.1 ≠ NAMESPACE ∧ d.lookup x.1 = none) :
    ReturnsIff (∀ x ∈ ws, reg.Admits ns c x.1 x.2)
      (forEach (fun x => setField reg x.1 x.2) ws) d () (putAll ws d) := by
  refine ReturnsIff.forEach
    (I := fun ws d => Headed c ns d ∧ (ws.map Prod.fst).Nodup ∧
      ∀ x ∈ ws, x.1 ≠ CLASS ∧ x.1 ≠ NAMESPACE ∧ d.lookup x.1 = none)
    (fun x ws d hI => ?_) (fun x ws d hI _ => ?_) ws d ⟨h, hnodup, hfresh⟩
  · obtain ⟨-, hns, hnone⟩ := hI.2.2 x List.mem_cons_self
    exact setField_returns hI.1 hns hnone x.2
  · obtain ⟨h, hnodup, hfresh⟩ := hI
    obtain ⟨hclass, hns, -⟩ := hfresh x List.mem_cons_self
    rw [List.map_cons, List.nodup_cons] at hnodup
    refine ⟨h.put (fun heq => absurd heq hclass) fun heq => absurd heq hns, hnodup.2,
      fun y hy => ?_⟩
    obtain ⟨hclass', hns', hnone'⟩ := hfresh y (List.mem_cons_of_mem _ hy)
    refine ⟨hclass', hns', ?_⟩
    rw [lookup_put_ne (fun heq => hnodup.1 ?_) hns', hnone']
    exact List.mem_map.mpr ⟨y, hy, heq⟩

end Locked

end Bison
