import Bison.Core.Registry

/-!
# Lookups along the class chain

The other accessors of `dynamic` that walk the class chain, and when the walks end.

- `subscript`, `setField`, `writeField`: `operator[](key_t)` and what is assigned through it.
- `findMethod`, `findClass`: the two walks besides that of `findField`.
- `Registry.Acyclic.walksEnd`: **main result**, in an acyclic registry every one of these
  walks ends, from any object.
- `findField_thrown`: a walk for a field that every prototype has ends in any registry.
-/

namespace Bison

open SortedMap

variable {μ : Type}

/-- `operator[](key_t)` (bison_object.hpp:1102): the field found, or a new empty one. -/
def subscript (reg : Registry μ) (name : Key) : DynamicM Value := do
  match ← findField reg name with
  | some f => return f
  | none => fun d => .ok (.monostate, insert name .monostate d)

/-- `(*this)[name] = k`: a field that is neither empty nor a key refuses it
(bison_object.hpp:473). -/
def assignKey (reg : Registry μ) (name k : Key) : DynamicM Unit := do
  match ← subscript reg name with
  | .monostate | .key _ => fun d => .ok ((), insert name (.key k) d)
  | _ => throw (.runtimeError "Invalid type")

/-- Which alternative of `field_base` a value is (bison_common.hpp:280). -/
def Value.index : Value → Nat
  | .monostate => 0
  | .hash _ => 1
  | .key _ => 2
  | .bool _ => 3
  | .int32 _ => 4
  | .float _ => 5
  | .null => 6
  | .object _ => 6
  | .string _ => 7
  | .bools _ => 8
  | .int32s _ => 9
  | .floats _ => 10
  | .bytes _ => 11

/-- `field::operator=(const T&)` without attributes (bison_object.hpp:473): a field that is not
empty keeps its type. -/
def Value.assign (old v : Value) : Except Exn Value :=
  if old.index = 0 ∨ old.index = v.index then .ok v else .error (.runtimeError "Invalid type")

/-- `(*this)[name] = v`, for a `v` that is not itself a field. -/
def setField (reg : Registry μ) (name : Key) (v : Value) : DynamicM Unit := do
  let old ← subscript reg name
  let new ← Decoder.lift (old.assign v)
  fun d => .ok ((), insert name new d)

/-- `obj[name] = v` of one field to another. -/
def writeField (reg : Registry μ) (name : Key) (v : Value) : DynamicM Unit := do
  let _ ← subscript reg name
  fun d => .ok ((), insert name v d)

/-- How every walk starts: the collection of the object's namespace, if there is one, and
the object's class. -/
def walkStart (reg : Registry μ) : DynamicM (Option (Collection μ × Key)) := fun d => do
  let (ns, d) ← resolveNamespace d
  match reg.lookup ns with
  | none => .ok (none, d)
  | some col =>
    let (classKey, d) ← asKey CLASS d
    .ok (some (col, classKey), d)

/-- `findMethod` (bison_object.hpp:1687): the own or cached method, or that of the nearest
class that has one, which is then cached. Gives the method and the method map. -/
def findMethod (reg : Registry μ) (name : Key) (methods : List (Key × μ)) :
    DynamicM (Option μ × List (Key × μ)) := fun d =>
  match methods.lookup name with
  | some m => .ok ((some m, methods), d)
  | none => do
    match ← walkStart reg d with
    | (none, d) => .ok ((none, methods), d)
    | (some (col, classKey), d) =>
      match col.search (fun p => p.methods.lookup name) classKey with
      | none => .error .diverges
      | some none => .ok ((none, methods), d)
      | some (some m) => .ok ((some m, insert name m methods), d)

/-- `findClass` (bison_object.hpp:1730): the prototype of a class among the ancestors. -/
def findClass (reg : Registry μ) (name : Key) : DynamicM (Option (Prototype μ)) := fun d => do
  match ← walkStart reg d with
  | (none, d) => .ok (none, d)
  | (some (col, klass), d) =>
    match col.seek name klass with
    | none => .error .diverges
    | some k => .ok (Collection.find col k, d)

/-- Assigning a key is one case of assigning a value. -/
theorem setField_key (reg : Registry μ) (name k : Key) :
    setField reg name (.key k) = assignKey reg name k := by
  unfold setField assignKey
  funext d
  rw [Decoder.bind_apply, Decoder.bind_apply]
  cases subscript reg name d with
  | error e => rfl
  | ok r =>
    obtain ⟨old, d'⟩ := r
    cases old <;> rfl

/-! ## Where a lookup fails -/

theorem resolveNamespace_thrown {d : Fields} {e : Exn} (h : resolveNamespace d = .error e) :
    e.Thrown := by
  unfold resolveNamespace at h
  split at h <;> cases h
  trivial

theorem asKey_thrown {name : Key} {d : Fields} {e : Exn} (h : asKey name d = .error e) :
    e.Thrown := by
  unfold asKey at h
  split at h <;> cases h
  trivial

theorem walkStart_thrown {reg : Registry μ} {d : Fields} {e : Exn}
    (h : walkStart reg d = .error e) : e.Thrown := by
  unfold walkStart at h
  cases hns : resolveNamespace d with
  | error e' =>
    simp only [hns, Decoder.error_bind] at h
    rw [← Except.error.inj h]
    exact resolveNamespace_thrown hns
  | ok r =>
    obtain ⟨ns, d'⟩ := r
    simp only [hns, Decoder.ok_bind] at h
    cases hcol : reg.lookup ns with
    | none =>
      simp only [hcol] at h
      cases h
    | some col =>
      cases hclass : asKey CLASS d' with
      | error e' =>
        simp only [hcol, hclass, Decoder.error_bind] at h
        rw [← Except.error.inj h]
        exact asKey_thrown hclass
      | ok r' =>
        simp only [hcol, hclass, Decoder.ok_bind] at h
        cases h

/-- A walk is over a collection of the registry. -/
theorem walkStart_ok {reg : Registry μ} {d d' : Fields} {col : Collection μ} {c : Key}
    (h : walkStart reg d = .ok (some (col, c), d')) : ∃ ns, reg.lookup ns = some col := by
  unfold walkStart at h
  cases hns : resolveNamespace d with
  | error e' =>
    simp only [hns, Decoder.error_bind] at h
    cases h
  | ok r =>
    obtain ⟨ns, d'⟩ := r
    simp only [hns, Decoder.ok_bind] at h
    cases hcol : reg.lookup ns with
    | none =>
      simp only [hcol] at h
      cases h
    | some col' =>
      cases hclass : asKey CLASS d' with
      | error e' =>
        simp only [hcol, hclass, Decoder.error_bind] at h
        cases h
      | ok r' =>
        simp only [hcol, hclass, Decoder.ok_bind] at h
        cases h
        exact ⟨ns, hcol⟩

/-- What follows the start fails by throwing where it does over each collection of the
registry. -/
theorem walk_thrown {ρ : Type} {reg : Registry μ} {d : Fields} {e : Exn}
    {walk : Option (Collection μ × Key) × Fields → Except Exn ρ}
    (h : (walkStart reg d >>= walk) = .error e)
    (hnone : ∀ d', walk (none, d') = .error e → e.Thrown)
    (hsome : ∀ ns col c d', reg.lookup ns = some col →
      walk (some (col, c), d') = .error e → e.Thrown) : e.Thrown := by
  cases hstart : walkStart reg d with
  | error e' =>
    rw [hstart, Decoder.error_bind] at h
    rw [← Except.error.inj h]
    exact walkStart_thrown hstart
  | ok r =>
    rw [hstart, Decoder.ok_bind] at h
    rcases r with ⟨_ | ⟨col, c⟩, d'⟩
    · exact hnone d' h
    · obtain ⟨ns, hcol⟩ := walkStart_ok hstart
      exact hsome ns col c d' hcol h

/-- `findField` of a field the object does not hold. -/
theorem findField_of_none (reg : Registry μ) {name : Key} {d : Fields}
    (h : d.lookup name = none) : findField reg name d = (do
      match ← walkStart reg d with
      | (none, d) => .ok (d.lookup name, d)
      | (some (col, classKey), d) =>
        match col.search (fun p => p.fields.lookup name) classKey with
        | none => .error .diverges
        | some none => .ok (d.lookup name, d)
        | some (some inherited) =>
          .ok ((insertNew name inherited d).lookup name, insertNew name inherited d)) := by
  unfold findField walkStart
  rw [h]
  cases resolveNamespace d with
  | error e => rfl
  | ok r =>
    obtain ⟨ns, d'⟩ := r
    simp only [Decoder.ok_bind]
    cases reg.lookup ns with
    | none => rfl
    | some col =>
      cases asKey CLASS d' with
      | error e => rfl
      | ok r' => rfl

/-- `findField` throws, and nothing else, where the walks for the field end. -/
theorem findField_thrown {reg : Registry μ} {name : Key}
    (hends : ∀ ns col, reg.lookup ns = some col → ∀ k,
      (col.search (fun p => p.fields.lookup name) k).isSome) {d : Fields} {e : Exn}
    (h : findField reg name d = .error e) : e.Thrown := by
  cases hown : d.lookup name with
  | some v =>
    unfold findField at h
    rw [hown] at h
    cases h
  | none =>
    rw [findField_of_none reg hown] at h
    refine walk_thrown h (fun d' hw => by cases hw) fun ns col c d' hcol hw => ?_
    obtain ⟨found, hfound⟩ := Option.isSome_iff_exists.mp (hends ns col hcol c)
    simp only [hfound] at hw
    cases found <;> cases hw

theorem findMethod_thrown {reg : Registry μ} {name : Key}
    (hends : ∀ ns col, reg.lookup ns = some col → ∀ k,
      (col.search (fun p => p.methods.lookup name) k).isSome) {methods : List (Key × μ)}
    {d : Fields} {e : Exn} (h : findMethod reg name methods d = .error e) : e.Thrown := by
  unfold findMethod at h
  cases hown : methods.lookup name with
  | some m =>
    rw [hown] at h
    cases h
  | none =>
    simp only [hown] at h
    refine walk_thrown h (fun d' hw => by cases hw) fun ns col c d' hcol hw => ?_
    obtain ⟨found, hfound⟩ := Option.isSome_iff_exists.mp (hends ns col hcol c)
    simp only [hfound] at hw
    cases found <;> cases hw

theorem findClass_thrown {reg : Registry μ} {name : Key}
    (hends : ∀ ns col, reg.lookup ns = some col → ∀ k, (col.seek name k).isSome)
    {d : Fields} {e : Exn} (h : findClass reg name d = .error e) : e.Thrown := by
  unfold findClass at h
  refine walk_thrown h (fun d' hw => by cases hw) fun ns col c d' hcol hw => ?_
  obtain ⟨k, hk⟩ := Option.isSome_iff_exists.mp (hends ns col hcol c)
  simp only [hk] at hw
  cases hw

/-- A field that every prototype holds is found in the first class met, so looking for it
ends even where the class chain is cyclic. -/
theorem findField_thrown_of_held {reg : Registry μ} {name : Key}
    (hall : ∀ p : Prototype μ, (p.fields.lookup name).isSome) {d : Fields} {e : Exn}
    (h : findField reg name d = .error e) : e.Thrown := by
  refine findField_thrown (fun _ col _ k => ?_) h
  rw [Collection.search, Chase.search_of_accepting hall]
  rfl

/-- Writing a field that every prototype holds throws or succeeds. -/
theorem assignKey_thrown {reg : Registry μ} {name : Key}
    (hall : ∀ p : Prototype μ, (p.fields.lookup name).isSome) {k : Key} {d : Fields} {e : Exn}
    (h : assignKey reg name k d = .error e) : e.Thrown := by
  rcases Decoder.bind_eq_error.mp h with h | ⟨f, d', -, h⟩
  · rcases Decoder.bind_eq_error.mp h with h | ⟨f, d', -, h⟩
    · exact findField_thrown_of_held hall h
    · cases f <;> cases h
  · split at h <;> cases h
    trivial

/-! ## What a lookup writes

Lookups only add: a field that holds a key still holds it afterwards. -/

/-- `d'` is a map that holds every key `d` holds. -/
structure Keeps (d d' : Fields) : Prop where
  sorted : Sorted d → Sorted d'
  keyAt : ∀ name k, keyAt d name = some k → keyAt d' name = some k

theorem Keeps.refl (d : Fields) : Keeps d d := ⟨id, fun _ _ => id⟩

theorem Keeps.trans {d d' d'' : Fields} (h : Keeps d d') (h' : Keeps d' d'') : Keeps d d'' :=
  ⟨fun hs => h'.sorted (h.sorted hs), fun name k hk => h'.keyAt name k (h.keyAt name k hk)⟩

theorem keyAt_insert (name other : Key) (v : Value) (d : Fields) :
    keyAt (insert name v d) other =
      if other = name then (match v with | .key k => some k | _ => none) else keyAt d other := by
  unfold keyAt
  rw [lookup_insert]
  by_cases h : other = name
  · rw [if_pos h, if_pos h]
    cases v <;> rfl
  · rw [if_neg h, if_neg h]

/-- Writing a field that held no key. -/
theorem Keeps.insert {d : Fields} {name : Key} (h : Bison.keyAt d name = none) (v : Value) :
    Keeps d (insert name v d) := by
  refine ⟨fun hs => hs.insert name v, fun other k hk => ?_⟩
  have hne : other ≠ name := by
    rintro rfl
    rw [h] at hk
    cases hk
  rw [keyAt_insert, if_neg hne]
  exact hk

theorem resolveNamespace_keeps {d d' : Fields} {ns : Key}
    (h : resolveNamespace d = .ok (ns, d')) : Keeps d d' := by
  unfold resolveNamespace at h
  split at h
  · cases h
    exact Keeps.refl d
  · next hns =>
    cases h
    exact Keeps.insert (by rw [keyAt, hns]) _
  · next hns =>
    cases h
    exact Keeps.insert (by rw [keyAt, hns]) _
  · cases h

theorem asKey_keeps {name : Key} {d d' : Fields} {k : Key} (h : asKey name d = .ok (k, d')) :
    Keeps d d' ∧ keyAt d' name = some k := by
  unfold asKey at h
  split at h
  · next hn =>
    cases h
    exact ⟨Keeps.insert (by rw [keyAt, hn]) _, by rw [keyAt_insert, if_pos rfl]⟩
  · next hn =>
    cases h
    exact ⟨Keeps.insert (by rw [keyAt, hn]) _, by rw [keyAt_insert, if_pos rfl]⟩
  · next hn =>
    cases h
    exact ⟨Keeps.refl d, keyAt_eq_some_iff.mpr hn⟩
  · cases h

theorem walkStart_keeps {reg : Registry μ} {d d' : Fields} {r : Option (Collection μ × Key)}
    (h : walkStart reg d = .ok (r, d')) : Keeps d d' := by
  unfold walkStart at h
  cases hns : resolveNamespace d with
  | error e => rw [hns] at h; cases h
  | ok r' =>
    obtain ⟨ns, d₁⟩ := r'
    have hkeeps := resolveNamespace_keeps hns
    simp only [hns, Decoder.ok_bind] at h
    cases hcol : reg.lookup ns with
    | none =>
      simp only [hcol] at h
      cases h
      exact hkeeps
    | some col =>
      cases hclass : asKey CLASS d₁ with
      | error e => simp only [hcol, hclass, Decoder.error_bind] at h; cases h
      | ok r' =>
        simp only [hcol, hclass, Decoder.ok_bind] at h
        cases h
        exact hkeeps.trans (asKey_keeps hclass).1

theorem insertNew_keeps (name : Key) (v : Value) (d : Fields) : Keeps d (insertNew name v d) := by
  unfold insertNew
  cases h : d.lookup name with
  | some w => exact Keeps.refl d
  | none => exact Keeps.insert (by rw [keyAt, h]) v

theorem findField_keeps {reg : Registry μ} {name : Key} {d d' : Fields} {r : Option Value}
    (h : findField reg name d = .ok (r, d')) : Keeps d d' ∧ d'.lookup name = r := by
  cases hown : d.lookup name with
  | some v =>
    unfold findField at h
    rw [hown] at h
    cases h
    exact ⟨Keeps.refl d, hown⟩
  | none =>
    rw [findField_of_none reg hown] at h
    cases hstart : walkStart reg d with
    | error e => rw [hstart] at h; cases h
    | ok w =>
      rw [hstart, Decoder.ok_bind] at h
      rcases w with ⟨_ | ⟨col, c⟩, d₁⟩
      · cases h
        exact ⟨walkStart_keeps hstart, rfl⟩
      · simp only at h
        split at h
        · cases h
        · cases h
          exact ⟨walkStart_keeps hstart, rfl⟩
        · cases h
          exact ⟨(walkStart_keeps hstart).trans (insertNew_keeps _ _ _), rfl⟩

theorem subscript_keeps {reg : Registry μ} {name : Key} {d d' : Fields} {v : Value}
    (h : subscript reg name d = .ok (v, d')) : Keeps d d' := by
  obtain ⟨r, d₁, hfind, hput⟩ := Decoder.bind_eq_ok.mp h
  obtain ⟨hkeeps, hr⟩ := findField_keeps hfind
  cases r with
  | some v =>
    cases hput
    exact hkeeps
  | none =>
    cases hput
    exact hkeeps.trans (Keeps.insert (by rw [keyAt, hr]) _)

/-- After `(*this)[name] = k` the field is the key and every other key is as it was. -/
theorem assignKey_ok {reg : Registry μ} {name k : Key} {d d' : Fields}
    (h : assignKey reg name k d = .ok ((), d')) :
    (Sorted d → Sorted d') ∧ keyAt d' name = some k ∧
      ∀ other, other ≠ name → ∀ v, keyAt d other = some v → keyAt d' other = some v := by
  obtain ⟨f, d₁, hsub, hput⟩ := Decoder.bind_eq_ok.mp h
  have hkeeps : Keeps d d₁ := subscript_keeps hsub
  have hput : d' = insert name (.key k) d₁ := by
    split at hput <;> cases hput <;> rfl
  subst hput
  refine ⟨fun hs => (hkeeps.sorted hs).insert _ _, by rw [keyAt_insert, if_pos rfl], ?_⟩
  intro other hne v hv
  rw [keyAt_insert, if_neg hne]
  exact hkeeps.keyAt other v hv

/-- A field that holds a key is found as it is. -/
theorem subscript_of_keyAt {reg : Registry μ} {name v : Key} {d : Fields}
    (h : keyAt d name = some v) : subscript reg name d = .ok (.key v, d) := by
  have hfind : findField reg name d = .ok (some (.key v), d) := by
    rw [findField, keyAt_eq_some_iff.mp h]
  rw [subscript, Decoder.bind_ok hfind]
  rfl

/-- Assigning over a field that holds a key only replaces it. -/
theorem assignKey_of_keyAt {reg : Registry μ} {name k v : Key} {d : Fields}
    (h : keyAt d name = some v) :
    assignKey reg name k d = .ok ((), insert name (.key k) d) := by
  rw [assignKey, Decoder.bind_ok (subscript_of_keyAt h)]

/-! ## Acyclic registries -/

/-- A search along a class chain ends. -/
theorem Registry.Acyclic.search_isSome {reg : Registry μ} (h : reg.Acyclic) {β : Type}
    (p : Prototype μ → Option β) {ns : Key} {col : Collection μ} (hcol : reg.lookup ns = some col)
    (k : Key) : (col.search p k).isSome := by
  obtain ⟨ps, hps⟩ := (h ns col hcol).chain k
  rw [Collection.search, Chase.search_of_chain _ hps]
  rfl

theorem Registry.Acyclic.findField_failsOnly {reg : Registry μ} (h : reg.Acyclic) (name : Key) :
    Decoder.FailsOnly Exn.Thrown (findField reg name) := fun _ _ =>
  findField_thrown fun _ _ hcol k => h.search_isSome _ hcol k

theorem Registry.Acyclic.findMethod_failsOnly {reg : Registry μ} (h : reg.Acyclic) (name : Key)
    (methods : List (Key × μ)) : Decoder.FailsOnly Exn.Thrown (findMethod reg name methods) :=
  fun _ _ => findMethod_thrown fun _ _ hcol k => h.search_isSome _ hcol k

theorem Registry.Acyclic.subscript_failsOnly {reg : Registry μ} (h : reg.Acyclic) (name : Key) :
    Decoder.FailsOnly Exn.Thrown (subscript reg name) := by
  refine .bind (h.findField_failsOnly name) fun found => ?_
  cases found with
  | some v => exact .pure v
  | none => exact nofun

theorem asKey_failsOnly (name : Key) : Decoder.FailsOnly Exn.Thrown (asKey name) :=
  fun _ _ => asKey_thrown

/-- Every walk along the class chain ends, from any object. -/
structure Registry.WalksEnd (reg : Registry μ) : Prop where
  findField : ∀ name d, findField reg name d ≠ .error .diverges
  findMethod : ∀ name methods d, findMethod reg name methods d ≠ .error .diverges
  findClass : ∀ name d, findClass reg name d ≠ .error .diverges

theorem Registry.Acyclic.walksEnd {reg : Registry μ} (h : reg.Acyclic) : reg.WalksEnd where
  findField name d hd := h.findField_failsOnly name d _ hd
  findMethod name methods d hd := h.findMethod_failsOnly name methods d _ hd
  findClass name d hd := by
    refine findClass_thrown (fun ns col hcol k => ?_) hd
    obtain ⟨ps, hps⟩ := (h ns col hcol).chain k
    exact Option.isSome_iff_exists.mpr (Chase.seek_of_chain name hps)

end Bison
