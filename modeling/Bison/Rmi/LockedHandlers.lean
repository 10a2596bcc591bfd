import Bison.Core.RegistryLock
import Bison.Rmi.EnvelopeFormat
import Bison.Rmi.Standalone

/-!
# Handlers that hold the lock of the registry

The parts of handlers that hold the lock of the registry themselves: those of server.cpp and
server.hpp, the same in standalone.cpp, and those of bison_c.cpp. Describe and dictionary fill their
responses in the scope, through `operator[]`, which may look a key up along a class chain.

- `Attributes`, `Annotations`: what describe, dictionary and help read of the attributes.
- `Locked.describe`, `dictionary`, `help`, `resetObject`, `checkClass`: the scopes.
- `describe_plain_iff`, `dictionary_plain_iff`: when they open a scope inside.
-/

namespace Bison

open SortedMap Program

variable {μ σ : Type}

def FIELD_DISPLAY_NAME : Key := key "__displayName"
def FIELD_DESCRIPTION : Key := key "__description"
def FIELD_CATEGORY : Key := key "__category"
def FIELD_OBSOLETE : Key := key "__obsolete"
def FIELD_OBSOLETE_MESSAGE : Key := key "__obsoleteMessage"
def FIELD_REQUIRED : Key := key "__required"
def FIELD_FIELDS : Key := key "__fields"
def FIELD_METHODS : Key := key "__methods"

/-- The attributes of a field or a method that are read here: `DisplayName`, `Description`,
`Category`, `Obsolete` with its message, and `Required`. -/
structure Attributes where
  displayName : Option Text := none
  description : Option Text := none
  category : Option Text := none
  obsolete : Option Text := none
  required : Bool := false
  deriving DecidableEq

/-- The attributes of what is registered, by namespace and class: of fields (a class has those of
its CLASS field), of methods, and of the fields in the specifications of a method. -/
structure Annotations where
  ofField : Key → Key → Key → Attributes
  ofMethod : Key → Key → Key → Attributes
  ofSpecs : Key → Key → Key → List (Key × Attributes)

/-- The registered classes with their namespaces and names, without the schema of envelopes. -/
def Registry.listed (reg : Registry μ) : List (Key × Key × Prototype μ) :=
  reg.flatMap fun (ns, col) =>
    (col.filter fun e => e.1 ≠ CLASS_ENVELOPE).map fun (klass, p) => (ns, klass, p)

namespace Attributes

variable (a : Attributes)

/-- What `apply_attrs` returns. -/
def any : Bool :=
  a.displayName.isSome || a.description.isSome || a.category.isSome || a.obsolete.isSome ||
    a.required

/-- The line that help has for what has a display name. -/
def helpLine (indent : String) : Text :=
  match a.displayName with
  | none => []
  | some name =>
    ascii indent ++ name ++
      (match a.description with
        | none => []
        | some text => ascii " -- " ++ text) ++ ascii "\n"

end Attributes

namespace Locked

section Describing

variable (reg : Registry μ) (ann : Annotations)

/-! ## Describe -/

/-- `if (auto* b = o) p(b)`. -/
def whenSome {β : Type} (o : Option β) (p : β → Locked Fields Unit) : Locked Fields Unit :=
  match o with
  | none => pure ()
  | some b => p b

/-- `apply_attrs` (server.cpp:160). -/
def applyAttrs (a : Attributes) : Locked Fields Bool := do
  whenSome a.displayName fun name => setField reg FIELD_DISPLAY_NAME (.string name)
  whenSome a.description fun text => setField reg FIELD_DESCRIPTION (.string text)
  whenSome a.category fun name => setField reg FIELD_CATEGORY (.string name)
  whenSome a.obsolete fun message => do
    setField reg FIELD_OBSOLETE (.bool true)
    if message ≠ [] then setField reg FIELD_OBSOLETE_MESSAGE (.string message)
  if a.required then setField reg FIELD_REQUIRED (.bool true)
  return a.any

/-- `apply_method_attrs` (server.cpp:190), whose result does not count `Required`. -/
def applyMethodAttrs (a : Attributes) : Locked Fields Bool := do
  let _ ← applyAttrs reg a
  return { a with required := false }.any

/-- `proto->findField(CLASS)`. -/
def classField (p : Prototype μ) : Locked σ (Option Value) := do
  let (found, _) ← within p.fields (findField reg CLASS)
  return found

/-- The attributes of a class. -/
def applyClassAttrs (ns klass : Key) (p : Prototype μ) : Locked Fields Unit := do
  match ← classField reg p with
  | none => pure ()
  | some _ =>
    let _ ← applyAttrs reg (ann.ofField ns klass CLASS)

/-- `resp[pos] = v`: `operator[](size_t)` (bison_object.hpp:1062) looks nothing up. -/
def setIndex (pos : Nat) (v : Value) : Locked Fields Unit :=
  ofDecoder fun d => do
    let new ← ((d.lookup (UInt32.ofNat pos)).getD .monostate).assign v
    .ok ((), insert (UInt32.ofNat pos) new d)

/-- The listing of classes, from an index on. -/
def describeListed : List (Key × Key × Prototype μ) → Nat → Locked Fields Unit
  | [], _ => pure ()
  | (ns, klass, p) :: rest, idx => do
    let (_, desc) ← within Dynamic.empty do
      setField reg FIELD_KLASS (.key klass)
      applyClassAttrs reg ann ns klass p
    setIndex idx (.object desc)
    describeListed rest (idx + 1)

/-- The fields of a prototype are copied, and what is known of them is collected. -/
def describeFields (ns klass : Key) : Fields → Fields × Bool → Locked Fields (Fields × Bool)
  | [], collected => pure collected
  | (k, v) :: rest, (fieldsMeta, hasFieldMeta) => do
    writeField reg k v
    if k = CLASS ∨ k = PARENT ∨ k = NAMESPACE then
      describeFields ns klass rest (fieldsMeta, hasFieldMeta)
    else
      let (applied, fmeta) ← within Dynamic.empty (applyAttrs reg (ann.ofField ns klass k))
      if applied then
        let (_, fieldsMeta) ← within fieldsMeta (setField reg k (.object fmeta))
        describeFields ns klass rest (fieldsMeta, true)
      else describeFields ns klass rest (fieldsMeta, hasFieldMeta)

def describeMethods (ns klass : Key) : List (Key × μ) → Fields → Locked Fields Fields
  | [], methodsMeta => pure methodsMeta
  | (k, _) :: rest, methodsMeta => do
    let (_, mmeta) ← within Dynamic.empty (applyMethodAttrs reg (ann.ofMethod ns klass k))
    let (_, methodsMeta) ← within methodsMeta (setField reg k (.object mmeta))
    describeMethods ns klass rest methodsMeta

/-- The description of one class. -/
def describeClass (ns klass : Key) (p : Prototype μ) : Locked Fields Unit := do
  setField reg FIELD_KLASS (.key klass)
  applyClassAttrs reg ann ns klass p
  let (fieldsMeta, hasFieldMeta) ← describeFields reg ann ns klass p.fields (Dynamic.empty, false)
  if hasFieldMeta then setField reg FIELD_FIELDS (.object fieldsMeta)
  let methodsMeta ← describeMethods reg ann ns klass p.methods Dynamic.empty
  if !p.methods.isEmpty then setField reg FIELD_METHODS (.object methodsMeta)

/-- The prototype of that name in the first namespace that has one. -/
def findAnywhere (requested : Key) : Option (Key × Prototype μ) :=
  reg.findSome? fun (ns, col) => (Collection.find col requested).map fun p => (ns, p)

/-- The scope of `handle_describe` (server.cpp:629): whether the class was found. -/
def describe (requested : Key) : Locked Fields Bool :=
  rlock <|
    if requested = 0 then do
      describeListed reg ann reg.listed 0
      return true
    else
      match findAnywhere reg requested with
      | none => return false
      | some (ns, p) => do
        describeClass reg ann ns requested p
        return true

/-- What `handle_describe` (server.cpp:623) does with the payload: the response, if there is a class
to describe. -/
def handleDescribe : Locked Fields (Option Fields) := do
  let requested ← ofDecoder (asKey FIELD_KLASS)
  let (found, resp) ← within Dynamic.empty (describe reg ann requested)
  return if found then some resp else none

/-- `standalone::handle_describe` (standalone.cpp:401), in one namespace. -/
def describeIn (ns klass : Key) : Locked Fields Unit :=
  rlock <|
    if klass = 0 then
      match reg.lookup ns with
      | none => pure ()
      | some col => describeListed reg ann (Registry.listed [(ns, col)]) 0
    else
      match (reg.lookup ns).bind fun col => Collection.find col klass with
      | none => throw (.runtimeError "Class not found")
      | some p => describeClass reg ann ns klass p

/-! ## Dictionary and help -/

/-- The keys of a class that have display names, with these: its own, those of its fields and
methods, and those of the fields of their specifications. -/
def namesOf (ns klass : Key) (p : Prototype μ) : List (Key × Text) :=
  let named := fun e : Key × Attributes => e.2.displayName.map fun name => (e.1, name)
  (named (klass, ann.ofField ns klass CLASS)).toList ++
    (p.fields.filter fun e => e.1 ≠ CLASS ∧ e.1 ≠ PARENT ∧ e.1 ≠ NAMESPACE).filterMap
      (fun e => named (e.1, ann.ofField ns klass e.1)) ++
    p.methods.flatMap fun e =>
      (named (e.1, ann.ofMethod ns klass e.1)).toList ++ (ann.ofSpecs ns klass e.1).filterMap named

/-- `handle_dictionary` (server.cpp:997): the scope, in which the dictionary is filled. -/
def dictionary : Locked Fields Unit :=
  rlock <|
    forEach (fun e => do
      let _ ← classField reg e.2.2
      forEach (fun x => setField reg x.1 (.string x.2)) (namesOf ann e.1 e.2.1 e.2.2))
      reg.listed

/-- What help says of a class that has a display name. -/
def classHelp (ns klass : Key) (p : Prototype μ) : Text :=
  let titled := fun (title : String) (lines : Text) =>
    if lines = [] then [] else ascii title ++ lines
  if (ann.ofField ns klass CLASS).displayName.isNone then []
  else
    (ann.ofField ns klass CLASS).helpLine "  " ++
      titled "    Fields:\n"
        ((p.fields.filter fun e => e.1 ≠ CLASS ∧ e.1 ≠ PARENT ∧ e.1 ≠ NAMESPACE).flatMap
          fun e => (ann.ofField ns klass e.1).helpLine "      ") ++
      titled "    Methods:\n"
        (p.methods.flatMap fun e => (ann.ofMethod ns klass e.1).helpLine "      ")

/-- `handle_help` (server.cpp:1038): the text is made in a scope, and put into the response after
it. -/
def help (preamble : Text) : Locked Fields Unit := do
  rlock (forEach (fun e => do let _ ← classField reg e.2.2) reg.listed)
  setField reg FIELD_DESCRIPTION
    (.string ((if preamble = [] then [] else preamble ++ ascii "\n\n") ++
      ascii "Registered classes:\n" ++
      reg.listed.flatMap fun e => classHelp ann e.1 e.2.1 e.2.2))

/-! ## The other scopes -/

/-- `on_check_class` (server.hpp:311), and the check of `standalone::handle_instantiate`. -/
def checkClass (ns klass : Key) : Locked σ Bool :=
  rlock <| pure <|
    match reg.lookup ns with
    | none => false
    | some col => (Collection.find col klass).isSome

/-- What a class says its objects start with. -/
def startFields (ns klass : Key) : Fields :=
  match reg.lookup ns with
  | none => instantiate 0 klass
  | some col =>
    match Collection.find col klass with
    | some proto => proto.fields
    | none => instantiate ns klass

/-- `clear` puts the object back to what its class says (server.cpp:771, standalone.cpp:521). -/
def resetObject : Locked Fields Unit := do
  let klass ← ofDecoder (asKey CLASS)
  let declared ← findField reg NAMESPACE
  let ns := match declared with
    | some (.key ns) => ns
    | _ => 0
  rlock (modify fun _ => startFields reg ns klass)

/-- `bison_find_class` (bison_c.cpp:235). -/
def bisonFindClass (ns klass : Key) : Locked σ (Option (Prototype μ)) :=
  rlock <| pure <| (reg.lookup ns).bind fun col => Collection.find col klass

/-- `bison_get_class_attributes` (bison_c.cpp:272). -/
def bisonGetClassAttributes (ns klass : Key) : Locked σ (Option Attributes) :=
  rlock <|
    match (reg.lookup ns).bind fun col => Collection.find col klass with
    | none => pure none
    | some p => do
      match ← classField reg p with
      | none => return some {}
      | some _ => return some (ann.ofField ns klass CLASS)

/-- `bison_clear_registry` (bison_c.cpp:251). -/
def bisonClearRegistry : Locked (Registry μ) Unit := wlock (modify fun _ => [])

end Describing

/-! ## What opens a scope -/

section Scopes

variable {reg : Registry μ} {ann : Annotations}

/-- A field that an object does not have is looked up. -/
theorem subscript_trace_ne_nil {name : Key} {d : Fields} (h : d.lookup name = none) :
    (subscript reg name d).trace ≠ [] := by
  intro hnil
  rw [subscript_trace_nil_iff, h] at hnil
  cases hnil

theorem setField_trace_ne_nil {name : Key} {d : Fields} (h : d.lookup name = none) (v : Value) :
    (setField reg name v d).trace ≠ [] :=
  bind_trace_ne_nil (subscript_trace_ne_nil h) _

theorem writeField_trace_ne_nil {name : Key} {d : Fields} (h : d.lookup name = none) (v : Value) :
    (writeField reg name v d).trace ≠ [] :=
  bind_trace_ne_nil (subscript_trace_ne_nil h) _

/-- An object that has nothing but its class. -/
theorem lookup_class_only {k : Key} (hk : k ≠ CLASS) (v : Value) :
    ([(CLASS, v)] : Fields).lookup k = none := by
  rw [lookup_cons_ite, if_neg hk]
  rfl

theorem setField_klass (klass : Key) : setField reg FIELD_KLASS (.key klass) Dynamic.empty =
    ⟨.ok (), [], [(CLASS, .key klass)]⟩ := rfl

theorem subscript_own {name : Key} {d : Fields} {v : Value} (h : d.lookup name = some v) :
    subscript reg name d = ⟨.ok v, [], d⟩ := bind_ok (findField_own reg h) _

theorem writeField_own {name : Key} {d : Fields} {old : Value} (h : d.lookup name = some old)
    (v : Value) : writeField reg name v d = ⟨.ok (), [], insert name v d⟩ :=
  bind_ok (subscript_own h) _

/-- Attributes that are none are not written. -/
theorem applyAttrs_none {a : Attributes} (h : a.any = false) (d : Fields) :
    applyAttrs reg a d = ⟨.ok false, [], d⟩ := by
  obtain ⟨_ | _, _ | _, _ | _, _ | _, _ | _⟩ := a <;> first | rfl | cases h

theorem whenSome_none_bind {β γ : Type} (p : β → Locked Fields Unit) (f : Unit → Locked Fields γ) :
    (whenSome none p >>= f) = f () := rfl

/-- The first attribute is written to a field that is not there. -/
theorem applyAttrs_trace_ne_nil {a : Attributes} (h : a.any = true) {d : Fields}
    (hfresh : ∀ k, k ≠ CLASS → d.lookup k = none) : (applyAttrs reg a d).trace ≠ [] := by
  obtain ⟨displayName, description, category, obsolete, required⟩ := a
  have hset : ∀ k, k ≠ CLASS → ∀ v, (setField reg k v d).trace ≠ [] := fun k hk =>
    setField_trace_ne_nil (hfresh k hk)
  unfold applyAttrs
  cases displayName with
  | some name => exact bind_trace_ne_nil (hset _ (by decide) _) _
  | none =>
    rw [whenSome_none_bind]
    cases description with
    | some text => exact bind_trace_ne_nil (hset _ (by decide) _) _
    | none =>
      rw [whenSome_none_bind]
      cases category with
      | some name => exact bind_trace_ne_nil (hset _ (by decide) _) _
      | none =>
        rw [whenSome_none_bind]
        cases obsolete with
        | some message => exact bind_trace_ne_nil (bind_trace_ne_nil (hset _ (by decide) _) _) _
        | none =>
          rw [whenSome_none_bind]
          cases required with
          | true => exact bind_trace_ne_nil (hset _ (by decide) _) _
          | false => cases h

theorem classField_run (reg : Registry μ) (p : Prototype μ) (s : σ) : ∃ v,
    classField reg p s = ⟨.ok (some v), [], s⟩ := by
  obtain ⟨v, hv⟩ := Option.isSome_iff_exists.mp p.class_isSome
  refine ⟨v, ?_⟩
  have hwithin : (within p.fields (findField reg CLASS) : Locked σ _) s =
      ⟨.ok (some v, p.fields), [], s⟩ := by
    rw [within, findField_own reg hv]
    rfl
  exact bind_ok hwithin _

theorem applyClassAttrs_none {ns klass : Key} (h : (ann.ofField ns klass CLASS).any = false)
    (p : Prototype μ) (d : Fields) : applyClassAttrs reg ann ns klass p d = ⟨.ok (), [], d⟩ := by
  obtain ⟨v, hv⟩ := classField_run reg p d
  unfold applyClassAttrs
  rw [bind_ok hv]
  simp only
  rw [bind_ok (applyAttrs_none h d)]
  rfl

theorem applyClassAttrs_trace_ne_nil {ns klass : Key}
    (h : (ann.ofField ns klass CLASS).any = true) (p : Prototype μ) {d : Fields}
    (hfresh : ∀ k, k ≠ CLASS → d.lookup k = none) :
    (applyClassAttrs reg ann ns klass p d).trace ≠ [] := by
  obtain ⟨v, hv⟩ := classField_run reg p d
  unfold applyClassAttrs
  rw [bind_ok hv]
  exact bind_trace_ne_nil (applyAttrs_trace_ne_nil h hfresh) _

/-! ### Describe -/

/-- An entry of a listing, for a class without attributes. -/
theorem describeEntry_none {ns klass : Key} (h : (ann.ofField ns klass CLASS).any = false)
    (p : Prototype μ) (s : σ) :
    (within Dynamic.empty (do
        setField reg FIELD_KLASS (.key klass)
        applyClassAttrs reg ann ns klass p) : Locked σ (Unit × Fields)) s =
      ⟨.ok ((), [(CLASS, .key klass)]), [], s⟩ := by
  rw [within, bind_ok (setField_klass klass), applyClassAttrs_none h]
  rfl

theorem describeEntry_trace_ne_nil {ns klass : Key} (h : (ann.ofField ns klass CLASS).any = true)
    (p : Prototype μ) (s : σ) :
    ((within Dynamic.empty (do
        setField reg FIELD_KLASS (.key klass)
        applyClassAttrs reg ann ns klass p) : Locked σ (Unit × Fields)) s).trace ≠ [] := by
  rw [within, bind_ok (setField_klass klass)]
  exact applyClassAttrs_trace_ne_nil h p fun k hk => lookup_class_only hk _

/-- A response that has entries up to an index. -/
structure ListedTo (idx : Nat) (d : Fields) : Prop where
  bound : idx ≤ CLASS.toNat
  isClass : (keyAt d CLASS).isSome
  free : ∀ pos, idx ≤ pos → pos < CLASS.toNat → d.lookup (UInt32.ofNat pos) = none

theorem ofNat_eq_iff {m n : Nat} (hm : m ≤ CLASS.toNat) (hn : n ≤ CLASS.toNat) :
    UInt32.ofNat m = UInt32.ofNat n ↔ m = n := by
  have hlt : CLASS.toNat < 2 ^ 32 := CLASS.toNat_lt
  rw [← UInt32.toNat_inj, UInt32.toNat_ofNat', UInt32.toNat_ofNat', Nat.mod_eq_of_lt (by omega),
    Nat.mod_eq_of_lt (by omega)]

namespace ListedTo

variable {idx : Nat} {d : Fields}

/-- At the index of the class field, the class refuses the entry. -/
theorem setIndex_refused (hd : ListedTo CLASS.toNat d) (desc : Fields) :
    setIndex CLASS.toNat (.object desc) d = ⟨.error (.runtimeError "Invalid type"), [], d⟩ := by
  obtain ⟨c, hc⟩ := Option.isSome_iff_exists.mp hd.isClass
  have hown : d.lookup (UInt32.ofNat CLASS.toNat) = some (.key c) := by
    rw [UInt32.ofNat_toNat]
    exact keyAt_eq_some_iff.mp hc
  refine ofDecoder_error ?_
  simp only [hown]
  rfl

theorem setIndex_ok (hd : ListedTo idx d) (hlt : idx < CLASS.toNat) (desc : Fields) :
    setIndex idx (.object desc) d =
      ⟨.ok (), [], insert (UInt32.ofNat idx) (.object desc) d⟩ := by
  refine ofDecoder_ok ?_
  simp only [hd.free idx le_rfl hlt]
  rfl

theorem next (hd : ListedTo idx d) (hlt : idx < CLASS.toNat) (desc : Fields) :
    ListedTo (idx + 1) (insert (UInt32.ofNat idx) (.object desc) d) where
  bound := hlt
  isClass := by
    have hne : CLASS ≠ UInt32.ofNat idx := by
      intro heq
      have hsame : UInt32.ofNat CLASS.toNat = UInt32.ofNat idx := UInt32.ofNat_toNat.trans heq
      exact hlt.ne' ((ofNat_eq_iff le_rfl hd.bound).mp hsame)
    rw [keyAt_insert, if_neg hne]
    exact hd.isClass
  free pos hpos hposlt := by
    rw [lookup_insert_ne]
    · exact hd.free pos (by omega) hposlt
    · rw [Ne, ofNat_eq_iff hposlt.le hd.bound]
      omega

end ListedTo

/-- A listing looks nothing up as long as no class has attributes. It ends where the index is that
of the class field. -/
theorem describeListed_trace_nil_iff (l : List (Key × Key × Prototype μ)) :
    ∀ {idx : Nat} {d : Fields}, ListedTo idx d →
      ((describeListed reg ann l idx d).trace = [] ↔
        ∀ e ∈ l.take (CLASS.toNat + 1 - idx), (ann.ofField e.1 e.2.1 CLASS).any = false) := by
  induction l with
  | nil =>
    intro idx d _
    exact iff_of_true rfl (fun e he => by cases List.take_nil ▸ he)
  | cons e rest ih =>
    intro idx d hd
    obtain ⟨ns, klass, p⟩ := e
    obtain ⟨n, hn⟩ : ∃ n, CLASS.toNat + 1 - idx = n + 1 := ⟨CLASS.toNat - idx, by
      have := hd.bound
      omega⟩
    rw [hn, List.take_succ_cons, List.forall_mem_cons]
    unfold describeListed
    cases hany : (ann.ofField ns klass CLASS).any with
    | true =>
      constructor
      · intro hnil
        exact absurd (bind_trace_nil_iff.mp hnil).1 (describeEntry_trace_ne_nil hany p d)
      · intro h
        cases h.1
    | false =>
      rw [bind_ok (describeEntry_none hany p d), List.nil_append, and_iff_right rfl]
      show ((setIndex idx (.object [(CLASS, .key klass)]) >>= fun _ =>
        describeListed reg ann rest (idx + 1)) d).trace = [] ↔ _
      by_cases hidx : idx = CLASS.toNat
      · subst hidx
        rw [Program.bind_error (hd.setIndex_refused _)]
        have hn0 : n = 0 := by omega
        simp [hn0]
      · have hlt : idx < CLASS.toNat := lt_of_le_of_ne hd.bound hidx
        have hn' : CLASS.toNat + 1 - (idx + 1) = n := by omega
        rw [bind_ok (hd.setIndex_ok hlt _), List.nil_append, ih (hd.next hlt _), hn']

/-- The fields of a prototype are copied into a response without them. -/
theorem describeFields_trace_ne_nil {ns klass : Key} (l : Fields)
    (hl : ∃ e ∈ l, e.1 ≠ CLASS) : ∀ {collected : Fields × Bool} {d : Fields},
      (d.lookup CLASS).isSome → (∀ k, k ≠ CLASS → d.lookup k = none) →
        (describeFields reg ann ns klass l collected d).trace ≠ [] := by
  induction l with
  | nil =>
    obtain ⟨e, he, -⟩ := hl
    cases he
  | cons e rest ih =>
    obtain ⟨k, v⟩ := e
    rintro ⟨fieldsMeta, hasFieldMeta⟩ d hclass hfresh
    unfold describeFields
    by_cases hk : k = CLASS
    · obtain ⟨old, hold⟩ := Option.isSome_iff_exists.mp hclass
      subst hk
      rw [bind_ok (writeField_own hold v), if_pos (.inl rfl), List.nil_append]
      have hrest : ∃ e ∈ rest, e.1 ≠ CLASS := by
        obtain ⟨e, he, hne⟩ := hl
        rcases List.mem_cons.mp he with rfl | he
        · exact absurd rfl hne
        · exact ⟨e, he, hne⟩
      refine ih hrest ?_ fun k hk => ?_
      · rw [lookup_insert_self]
        rfl
      · rw [lookup_insert_ne _ hk]
        exact hfresh k hk
    · exact bind_trace_ne_nil (writeField_trace_ne_nil (hfresh k hk) v) _

/-- The description of a class looks its fields up. -/
theorem describeClass_trace_ne_nil {ns klass : Key} (p : Prototype μ) :
    (describeClass reg ann ns klass p Dynamic.empty).trace ≠ [] := by
  have hfresh : ∀ k, k ≠ CLASS → ([(CLASS, .key klass)] : Fields).lookup k = none :=
    fun k hk => lookup_class_only hk _
  unfold describeClass
  rw [bind_ok (setField_klass klass), List.nil_append]
  cases hany : (ann.ofField ns klass CLASS).any with
  | true => exact bind_trace_ne_nil (applyClassAttrs_trace_ne_nil hany p hfresh) _
  | false =>
    rw [bind_ok (applyClassAttrs_none hany p _), List.nil_append]
    refine bind_trace_ne_nil (describeFields_trace_ne_nil p.fields ?_ rfl hfresh) _
    obtain ⟨v, hv⟩ := Option.isSome_iff_exists.mp p.parent_isSome
    exact ⟨(PARENT, v), mem_of_lookup hv, CLASS_ne_PARENT.symm⟩

theorem listedTo_empty : ListedTo 0 Dynamic.empty where
  bound := Nat.zero_le _
  isClass := rfl
  free pos _ hlt := by
    refine lookup_class_only (fun heq => ?_) _
    rw [← heq, UInt32.toNat_ofNat'] at hlt
    exact absurd (Nat.mod_le pos (2 ^ 32)) (by omega)

/-- Of the classes that are listed before the listing ends, none has attributes. -/
def ListsPlainly (ann : Annotations) (l : List (Key × Key × Prototype μ)) : Prop :=
  ∀ e ∈ l.take (CLASS.toNat + 1), (ann.ofField e.1 e.2.1 CLASS).any = false

/-- Describe looks nothing up if it describes no class, and lists none that has attributes. -/
def DescribesPlainly (reg : Registry μ) (ann : Annotations) (requested : Key) : Prop :=
  if requested = 0 then ListsPlainly ann reg.listed else findAnywhere reg requested = none

theorem describeListed_plain_iff (l : List (Key × Key × Prototype μ)) :
    (describeListed reg ann l 0 Dynamic.empty).trace = [] ↔ ListsPlainly ann l :=
  describeListed_trace_nil_iff l listedTo_empty

theorem describe_plain_iff (requested : Key) :
    (∀ h ∈ (describe reg ann requested Dynamic.empty).trace, h.Plain) ↔
      DescribesPlainly reg ann requested := by
  refine hold_plain_iff.trans ?_
  unfold DescribesPlainly
  split
  · rw [bind_trace_nil_iff, describeListed_plain_iff]
    exact and_iff_left fun _ _ => rfl
  · cases hfound : findAnywhere reg requested with
    | none => exact iff_of_true rfl rfl
    | some e =>
      refine iff_of_false (fun hnil => ?_) (Option.some_ne_none e)
      exact describeClass_trace_ne_nil e.2 (bind_trace_nil_iff.mp hnil).1

/-- **Main result**: `handle_describe` opens a scope inside another exactly if it describes a class
or lists one that has attributes. -/
theorem handleDescribe_plain_iff (payload : Fields) :
    (∀ h ∈ (handleDescribe reg ann payload).trace, h.Plain) ↔
      ∀ requested payload', asKey FIELD_KLASS payload = .ok (requested, payload') →
        DescribesPlainly reg ann requested := by
  unfold handleDescribe
  cases hasked : asKey FIELD_KLASS payload with
  | error e =>
    rw [Program.bind_error (ofDecoder_error hasked)]
    exact iff_of_true (fun h hh => by cases hh) (fun _ _ h => by cases h)
  | ok r =>
    obtain ⟨requested, payload'⟩ := r
    have htrace : (handleDescribe reg ann payload).trace =
        (describe reg ann requested Dynamic.empty).trace := by
      unfold handleDescribe
      rw [bind_ok (ofDecoder_ok hasked), List.nil_append, bind_run, within]
      rcases hrun : describe reg ann requested Dynamic.empty with ⟨e | found, trace, resp⟩
      · rfl
      · exact List.append_nil trace
    constructor
    · rintro h _ _ heq
      cases heq
      rw [← describe_plain_iff, ← htrace]
      exact h
    · intro h
      show ∀ x ∈ (handleDescribe reg ann payload).trace, x.Plain
      rw [htrace, describe_plain_iff]
      exact h requested payload' rfl

/-- What `standalone::handle_describe` describes or lists. -/
def DescribesPlainlyIn (reg : Registry μ) (ann : Annotations) (ns klass : Key) : Prop :=
  if klass = 0 then
    ∀ col, reg.lookup ns = some col → ListsPlainly ann (Registry.listed [(ns, col)])
  else ((reg.lookup ns).bind fun col => Collection.find col klass) = none

theorem describeIn_plain_iff (ns klass : Key) :
    (∀ h ∈ (describeIn reg ann ns klass Dynamic.empty).trace, h.Plain) ↔
      DescribesPlainlyIn reg ann ns klass := by
  refine hold_plain_iff.trans ?_
  unfold DescribesPlainlyIn
  split
  · cases hcol : reg.lookup ns with
    | none => exact iff_of_true rfl (fun _ h => by cases h)
    | some col =>
      rw [describeListed_plain_iff]
      constructor
      · rintro h _ heq
        cases heq
        exact h
      · exact fun h => h col rfl
  · cases hfound : (reg.lookup ns).bind fun col => Collection.find col klass with
    | none => exact iff_of_true rfl rfl
    | some p => exact iff_of_false (describeClass_trace_ne_nil p) (Option.some_ne_none p)

/-! ### Dictionary, help and the rest -/

/-- The class of a prototype is its own, so reading it changes nothing. -/
theorem classField_bind {β : Type} (p : Prototype μ) (q : Locked σ β) :
    (classField reg p >>= fun _ => q) = q := by
  funext s
  obtain ⟨v, hv⟩ := classField_run reg p s
  exact bind_ok hv _

/-- The first display name decides: the class of the dictionary refuses it, and any other field is
looked up. -/
theorem setField_empty_trace_nil_iff (reg : Registry μ) (name : Key) (text : Text) :
    (setField reg name (.string text) Dynamic.empty).trace = [] ↔ name = CLASS := by
  constructor
  · intro hnil
    by_contra hne
    exact setField_trace_ne_nil (lookup_class_only hne _) _ hnil
  · rintro rfl
    rfl

/-- There is no display name to write, or the first is refused by the class of the dictionary. -/
def NamesPlainly (names : List (Key × Text)) : Prop := ∀ x ∈ names.head?, x.1 = CLASS

theorem forEach_setField_trace_nil_iff (names : List (Key × Text)) :
    (forEach (fun x : Key × Text => setField reg x.1 (.string x.2)) names
      Dynamic.empty).trace = [] ↔ NamesPlainly names := by
  cases names with
  | nil => exact iff_of_true rfl (fun _ h => by cases h)
  | cons x rest =>
    obtain ⟨name, text⟩ := x
    have hhead : NamesPlainly ((name, text) :: rest) ↔ name = CLASS := by
      simp [NamesPlainly]
    rw [hhead, ← setField_empty_trace_nil_iff reg name text]
    constructor
    · exact fun hnil => (bind_trace_nil_iff.mp hnil).1
    · intro hnil
      refine bind_trace_nil_iff.mpr ⟨hnil, fun _ hok => ?_⟩
      rw [setField_empty_trace_nil_iff] at hnil
      subst hnil
      cases hok

/-- **Main result**: `handle_dictionary` opens a scope inside another exactly if there is a display
name to write, and the first is not refused. -/
theorem dictionary_plain_iff : (∀ h ∈ (dictionary reg ann Dynamic.empty).trace, h.Plain) ↔
    NamesPlainly (reg.listed.flatMap fun e => namesOf ann e.1 e.2.1 e.2.2) := by
  have hloop : (dictionary reg ann) = rlock (forEach
      (fun x : Key × Text => setField reg x.1 (.string x.2))
      (reg.listed.flatMap fun e => namesOf ann e.1 e.2.1 e.2.2)) := by
    unfold dictionary
    simp only [classField_bind]
    rw [forEach_flatMap]
  rw [hloop]
  exact hold_plain_iff.trans (forEach_setField_trace_nil_iff _)

theorem help_flat (preamble : Text) : Flat (help reg ann preamble) := by
  unfold help
  simp only [classField_bind, forEach_pure]
  exact flat_composes.bind (Silent.hold fun _ => rfl) fun _ => (setField_wraps reg _ _).flat

theorem checkClass_flat (ns klass : Key) : Flat (checkClass reg ns klass : Locked σ Bool) :=
  Silent.hold fun _ => rfl

theorem resetObject_flat : Flat (resetObject reg) :=
  flat_composes.bind (Silent.ofDecoder _).flat fun _ =>
    flat_composes.bind (findField_wraps reg NAMESPACE).flat fun _ => Silent.hold fun _ => rfl

theorem bisonFindClass_flat (ns klass : Key) : Flat (bisonFindClass reg ns klass : Locked σ _) :=
  Silent.hold fun _ => rfl

theorem bisonGetClassAttributes_flat (ns klass : Key) :
    Flat (bisonGetClassAttributes reg ann ns klass : Locked σ _) := by
  refine Silent.hold fun s => ?_
  cases (reg.lookup ns).bind fun col => Collection.find col klass with
  | none => rfl
  | some p =>
    obtain ⟨v, hv⟩ := classField_run reg p s
    simp only
    rw [bind_ok hv]
    rfl

theorem bisonClearRegistry_flat : Flat (bisonClearRegistry : Locked (Registry μ) Unit) :=
  Silent.hold fun _ => rfl

/-! ### The handlers of the server -/

/-- `on_check_class` is the check of the server. -/
theorem checkClass_result {τ : Type} (srv : Server μ τ) (ns klass : Key) (s : σ) :
    (checkClass srv.registry ns klass s).result = .ok (srv.onCheckClass ns klass) := rfl

/-- A class is described exactly if the server has it in some namespace. -/
theorem findAnywhere_isSome (requested : Key) : (findAnywhere reg requested).isSome =
    reg.any fun col => (Collection.find col.2 requested).isSome := by
  unfold findAnywhere
  rw [List.isSome_findSome?]
  simp only [Option.isSome_map]

theorem onFields_of_ok {τ β : Type} {p : Locked Fields β} {q : DynamicM β} (h : Mirrors p q)
    {obj : Instance μ} {a : β} {trace : List (Hold Access)} {d : Fields}
    (hp : p obj.fields = ⟨.ok a, trace, d⟩) (w : World μ τ) :
    onFields q (obj, w) = ⟨.ok a, [], ({ obj with fields := d }, w)⟩ := by
  refine onFields_run ?_ w
  rw [← h, hp]
  rfl

theorem onFields_of_error {τ β : Type} {p : Locked Fields β} {q : DynamicM β} (h : Mirrors p q)
    {obj : Instance μ} {e : Exn} {trace : List (Hold Access)} {d : Fields}
    (hp : p obj.fields = ⟨.error e, trace, d⟩) (w : World μ τ) : onFields q (obj, w) =
      ⟨.error (.ofExn e), [], ({ obj with fields := afterThrow obj.fields }, w)⟩ := by
  have hq : q obj.fields = .error e := by
    rw [← h, hp]
    rfl
  simp only [onFields, Program.ofState, hq]

/-- But for the scope, `clear` resets the fields of an object as the server does. -/
theorem resetObject_mirrors {τ : Type} (srv : Server μ τ) (obj : Instance μ) (w : World μ τ) :
    (srv.resetObject (obj, w)).result =
        (resetObject srv.registry obj.fields).result.mapError .ofExn ∧
      ((resetObject srv.registry obj.fields).result = .ok () →
        (srv.resetObject (obj, w)).state.1.fields =
          (resetObject srv.registry obj.fields).state) := by
  have hclass : Mirrors (ofDecoder (asKey CLASS) : Locked Fields Key) (asKey CLASS) := .ofDecoder _
  have hdeclared := (findField_wraps srv.registry NAMESPACE).mirrors
  unfold resetObject Server.resetObject
  rcases hrun : (ofDecoder (asKey CLASS) : Locked Fields Key) obj.fields with
    ⟨e | klass, trace, d⟩
  · rw [Program.bind_error hrun, Program.bind_error (onFields_of_error hclass hrun w)]
    exact ⟨rfl, fun h => by cases h⟩
  · rw [Program.bind_ok hrun, Program.bind_ok (onFields_of_ok hclass hrun w)]
    simp only
    rcases hrun' : findField srv.registry NAMESPACE d with ⟨e | declared, trace', d'⟩
    · rw [Program.bind_error hrun', Program.bind_error (onFields_of_error hdeclared hrun' w)]
      exact ⟨rfl, fun h => by cases h⟩
    · rw [Program.bind_ok hrun', Program.bind_ok (onFields_of_ok hdeclared hrun' w)]
      refine ⟨rfl, fun _ => ?_⟩
      have hstart : ∀ ns, Instance.fields (μ := μ)
          (match srv.registry.lookup ns with
          | none => ⟨instantiate 0 klass, []⟩
          | some col =>
            match Collection.find col klass with
            | some proto => ⟨proto.fields, proto.methods⟩
            | none => ⟨instantiate ns klass, []⟩) = startFields srv.registry ns klass := by
        intro ns
        unfold startFields
        cases srv.registry.lookup ns with
        | none => rfl
        | some col =>
          simp only
          cases Collection.find col klass <;> rfl
      cases declared with
      | none => exact hstart 0
      | some v => cases v <;> exact hstart _

end Scopes

end Locked

end Bison
