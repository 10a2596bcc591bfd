import Bison.Core.Assignments
import Bison.Lib.Triple
import Bison.Rmi.LockedHandlers

/-!
# Descriptions of classes

What describe says of a class: its fields, and under names of the protocol its name, and the
metadata of its fields and its methods. Everything is in one object, and that object is of the class
that it describes, so what is assigned to it is looked up along the classes of that name.

- `Describes`: what a description of a class says.
- `Assembles`: no assignment to the reply is refused, and no lookup goes round in a cycle.
- `NoClash`: a field of the class that has the name of an entry of the reply holds that entry.
- `describe_answers_iff`: **main result**, the requests that the server and the standalone backend
  answer for the class that was asked.
- `describe_ignores_namespace`: a class of another namespace is described.
-/

namespace Bison

open SortedMap Program

variable {μ : Type}

/-! ## Descriptions -/

/-- What `apply_attrs` writes. -/
def Attributes.entries (a : Attributes) : List (Key × Value) :=
  (a.displayName.map fun name => (FIELD_DISPLAY_NAME, Value.string name)).toList ++
    ((a.description.map fun text => (FIELD_DESCRIPTION, Value.string text)).toList ++
    ((a.category.map fun name => (FIELD_CATEGORY, Value.string name)).toList ++
    ((match a.obsolete with
      | none => []
      | some message => (FIELD_OBSOLETE, .bool true) ::
        if message ≠ [] then [(FIELD_OBSOLETE_MESSAGE, .string message)] else []) ++
    if a.required then [(FIELD_REQUIRED, .bool true)] else [])))

/-- The value is an object with these attributes. Every object has its class and may have its
namespace. -/
def Value.Shows (v : Value) (a : Attributes) : Prop :=
  ∃ m, v = .object m ∧ ∀ k, k ≠ CLASS → k ≠ NAMESPACE → m.lookup k = a.entries.lookup k

/-- The value is an object that has the attributes of each of the names, and nothing else. -/
def Value.Lists (v : Value) (names : List Key) (of : Key → Attributes) : Prop :=
  ∃ m, v = .object m ∧ (∀ k ∈ names, ∃ w, m.lookup k = some w ∧ w.Shows (of k)) ∧
    ∀ k, k ∉ names → k ≠ CLASS → k ≠ NAMESPACE → m.lookup k = none

/-- The prototype that is registered under exactly this namespace and name. -/
def Registry.prototype (reg : Registry μ) (ns klass : Key) : Option (Prototype μ) :=
  (reg.lookup ns).bind fun col => Collection.find col klass

/-- The fields that have metadata: those that are not reserved, if they have attributes. -/
def annotated (ann : Annotations) (ns klass : Key) (fields : Fields) : List Key :=
  (fields.map Prod.fst).filter fun k =>
    ¬ (k = CLASS ∨ k = PARENT ∨ k = NAMESPACE) ∧ (ann.ofField ns klass k).any

/-- What is said of a class: its name, its fields, and the metadata of those of its fields and
methods that have some. -/
structure Describes (ann : Annotations) (ns klass : Key) (p : Prototype μ) (r : Fields) : Prop where
  isClass : r.lookup FIELD_KLASS = some (.key klass)
  defaults : ∀ k v, p.fields.lookup k = some v → r.lookup k = some v
  fields : annotated ann ns klass p.fields ≠ [] → ∃ v, r.lookup FIELD_FIELDS = some v ∧
    v.Lists (annotated ann ns klass p.fields) (ann.ofField ns klass)
  methods : p.methods ≠ [] → ∃ v, r.lookup FIELD_METHODS = some v ∧
    v.Lists (p.methods.map Prod.fst) (ann.ofMethod ns klass)

/-- The request is answered for the class that was asked. -/
def AnswersFor (reg : Registry μ) (ann : Annotations) (ns klass : Key) (notFound : Prop)
    (replied : Fields → Prop) : Prop :=
  match reg.prototype ns klass with
  | none => notFound
  | some p => ∃ r, replied r ∧ Describes ann ns klass p r

/-- What `client::describe` (client.cpp:84) sends. -/
def describeRequest (ns klass : Key) : Fields :=
  insert FIELD_KLASS (.key klass) (insert FIELD_NAMESPACE (.key ns) Dynamic.empty)

/-! ## What is written -/

namespace Attributes

/-- The names of attributes in a description. -/
def names : List Key :=
  [FIELD_DISPLAY_NAME, FIELD_DESCRIPTION, FIELD_CATEGORY, FIELD_OBSOLETE, FIELD_OBSOLETE_MESSAGE,
    FIELD_REQUIRED]

theorem entries_names (a : Attributes) : (a.entries.map Prod.fst).Sublist names := by
  obtain ⟨displayName, description, category, obsolete, required⟩ := a
  have hone : ∀ {β : Type} (o : Option β) (k : Key) (v : β → Value),
      ((o.map fun b => (k, v b)).toList.map Prod.fst).Sublist [k] := by
    intro β o k v
    cases o with
    | none => exact List.nil_sublist _
    | some b => exact List.Sublist.refl _
  simp only [entries, List.map_append]
  refine (hone displayName _ _).append ((hone description _ _).append ((hone category _ _).append
    (@List.Sublist.append _ _ [FIELD_OBSOLETE, FIELD_OBSOLETE_MESSAGE] _ [FIELD_REQUIRED] ?_ ?_)))
  · cases obsolete with
    | none => exact List.nil_sublist _
    | some message =>
      simp only
      split
      · exact List.Sublist.refl _
      · exact (List.nil_sublist _).cons_cons _
  · cases required with
    | true => exact List.Sublist.refl _
    | false => exact List.nil_sublist _

theorem entries_nodup (a : Attributes) : (a.entries.map Prod.fst).Nodup :=
  a.entries_names.nodup (by decide)

theorem entries_ne {a : Attributes} {x : Key × Value} (hx : x ∈ a.entries) :
    x.1 ∈ names := a.entries_names.subset (List.mem_map_of_mem hx)

theorem entries_ne_header {a : Attributes} {x : Key × Value} (hx : x ∈ a.entries) :
    x.1 ≠ CLASS ∧ x.1 ≠ NAMESPACE := by
  have hname := entries_ne hx
  constructor
  · intro heq
    rw [heq] at hname
    exact absurd hname (by decide)
  · intro heq
    rw [heq] at hname
    exact absurd hname (by decide)

theorem entries_of_not_any {a : Attributes} (h : a.any = false) : a.entries = [] := by
  obtain ⟨_ | _, _ | _, _ | _, _ | _, _ | _⟩ := a <;> first | rfl | cases h

end Attributes

/-- The object in which attributes are shown. -/
def metaOf (a : Attributes) : Fields := putAll a.entries Dynamic.empty

/-- The names with the attributes that each has. -/
def metaEntries (names : List Key) (of : Key → Attributes) : List (Key × Value) :=
  names.map fun k => (k, .object (metaOf (of k)))

/-- The object in which the attributes of names are listed. -/
def metadata (names : List Key) (of : Key → Attributes) : Fields :=
  putAll (metaEntries names of) Dynamic.empty

namespace Prototype

variable (p : Prototype μ)

/-- What the prototype says of its class. -/
def className : Key := (keyAt p.fields CLASS).get p.hasClass

/-- What the prototype says of its namespace. -/
def namespaceName : Key := (keyAt p.fields NAMESPACE).get p.hasNamespace

/-- The class that the reply is of when a field is copied to it. The fields are copied in the order
of their names. -/
def classAt (klass k : Key) : Key := if k < CLASS then klass else p.className

/-- The namespace that the reply is in when a field is copied to it. -/
def namespaceAt (k : Key) : Key := if k < NAMESPACE then 0 else p.namespaceName

theorem lookup_class : p.fields.lookup CLASS = some (.key p.className) :=
  keyAt_eq_some_iff.mp (Option.some_get p.hasClass).symm

theorem lookup_namespace : p.fields.lookup NAMESPACE = some (.key p.namespaceName) :=
  keyAt_eq_some_iff.mp (Option.some_get p.hasNamespace).symm

end Prototype

namespace Locked

section Runs

variable {σ : Type} {reg : Registry μ} {ann : Annotations} {c ns klass : Key} {d : Fields}

theorem whenSome_set {β : Type} (o : Option β) (k : Key) (v : β → Value) :
    whenSome o (fun b => setField reg k (v b)) =
      forEach (fun x => setField reg x.1 x.2) (o.map fun b => (k, v b)).toList := by
  cases o with
  | none => rfl
  | some b => exact (bind_pure _).symm

/-- `apply_attrs` writes the entries, one after another. -/
theorem applyAttrs_eq (a : Attributes) : applyAttrs reg a =
    (forEach (fun x => setField reg x.1 x.2) a.entries >>= fun _ => pure a.any) := by
  have hobsolete : whenSome a.obsolete (fun message => do
      setField reg FIELD_OBSOLETE (.bool true)
      if message ≠ [] then setField reg FIELD_OBSOLETE_MESSAGE (.string message)) =
      forEach (fun x => setField reg x.1 x.2) (match a.obsolete with
        | none => []
        | some message => (FIELD_OBSOLETE, .bool true) ::
          if message ≠ [] then [(FIELD_OBSOLETE_MESSAGE, .string message)] else []) := by
    cases a.obsolete with
    | none => rfl
    | some message =>
      simp only [whenSome]
      split
      · exact congrArg (setField reg FIELD_OBSOLETE (.bool true) >>= ·)
          (funext fun _ => (bind_pure _).symm)
      · rfl
  have hrequired : (if a.required then setField reg FIELD_REQUIRED (.bool true) else pure ()) =
      forEach (fun x => setField reg x.1 x.2)
        (if a.required then [(FIELD_REQUIRED, .bool true)] else []) := by
    split
    · exact (bind_pure _).symm
    · rfl
  unfold applyAttrs Attributes.entries
  rw [forEach_append, forEach_append, forEach_append, forEach_append, ← whenSome_set,
    ← whenSome_set, ← whenSome_set, ← hobsolete, ← hrequired]
  simp only [bind_assoc]
  cases a.required <;> rfl

theorem applyAttrs_returns (a : Attributes) (h : Headed c ns d)
    (hfresh : ∀ k ∈ Attributes.names, d.lookup k = none) :
    ReturnsIff (∀ x ∈ a.entries, reg.Admits ns c x.1 x.2) (applyAttrs reg a) d a.any
      (putAll a.entries d) := by
  rw [applyAttrs_eq]
  refine (forEach_write_returns h a.entries_nodup fun x hx => ?_).followed _
  obtain ⟨hclass, hns⟩ := Attributes.entries_ne_header hx
  exact ⟨hclass, hns, hfresh _ (Attributes.entries_ne hx)⟩

theorem headed_empty : Headed 0 0 Dynamic.empty := ⟨rfl, .inl ⟨rfl, rfl⟩⟩

/-- The attributes that are shown are written to an object of their own, which is of class 0. -/
theorem shown_returns (a : Attributes) (s : σ) :
    ReturnsIff (∀ x ∈ a.entries, reg.Admits 0 0 x.1 x.2)
      (within Dynamic.empty (applyAttrs reg a)) s (a.any, metaOf a) s := by
  refine (applyAttrs_returns a headed_empty fun k hk => lookup_class_only ?_ _).within s
  rintro rfl
  exact absurd hk (by decide)

theorem shownMethod_returns (a : Attributes) (s : σ) :
    ReturnsIff (∀ x ∈ a.entries, reg.Admits 0 0 x.1 x.2)
      (within Dynamic.empty (applyMethodAttrs reg a)) s
      ({ a with required := false }.any, metaOf a) s := by
  refine ((applyAttrs_returns a headed_empty fun k hk => lookup_class_only ?_ _).followed
    fun _ => _).within s
  rintro rfl
  exact absurd hk (by decide)

/-! ### The fields are copied -/

/-- What is left to copy of the fields of the prototype, and the reply. -/
structure Copying (p : Prototype μ) (klass : Key) (l d : Fields) : Prop where
  sorted : Sorted l
  declared : ∀ e ∈ l, p.fields.lookup e.1 = some e.2
  passed : ∀ k, (p.fields.lookup k).isSome → l.lookup k = none → ∀ e ∈ l, k < e.1
  headed : Headed (if (l.lookup CLASS).isSome then klass else p.className)
    (if (l.lookup NAMESPACE).isSome then 0 else p.namespaceName) d

namespace Copying

variable {p : Prototype μ} {e : Key × Value} {l : Fields}

theorem lookup_rest (h : Copying p klass (e :: l) d) : l.lookup e.1 = none :=
  Sorted.lookup_eq_none h.sorted

/-- The reply is of the class and the namespace that the head of the list is looked up in. -/
theorem headed_at (h : Copying p klass (e :: l) d) (hclass : e.1 ≠ CLASS)
    (hns : e.1 ≠ NAMESPACE) : Headed (p.classAt klass e.1) (p.namespaceAt e.1) d := by
  have hat : ∀ {k : Key} {v : Value}, p.fields.lookup k = some v → e.1 ≠ k →
      (((e :: l).lookup k).isSome ↔ e.1 < k) := by
    intro k v hk hne
    constructor
    · intro hsome
      obtain ⟨w, hw⟩ := Option.isSome_iff_exists.mp hsome
      rw [lookup_cons_ite, if_neg (Ne.symm hne)] at hw
      exact h.sorted.lt_of_mem (mem_of_lookup hw)
    · intro hlt
      by_contra hnone
      rw [Bool.not_eq_true, Option.isSome_eq_false_iff, Option.isNone_iff_eq_none] at hnone
      have hgt := h.passed k (by rw [hk]; rfl) hnone e List.mem_cons_self
      exact UInt32.lt_asymm hlt hgt
  have hheaded := h.headed
  simp only [hat p.lookup_class hclass, hat p.lookup_namespace hns] at hheaded
  exact hheaded

theorem next (h : Copying p klass (e :: l) d) : Copying p klass l (put e.1 e.2 d) := by
  obtain ⟨k, v⟩ := e
  have hdeclared := h.declared (k, v) List.mem_cons_self
  have hrest := h.lookup_rest
  have hheaded := h.headed
  refine ⟨h.sorted.tail, fun e he => h.declared e (List.mem_cons_of_mem _ he),
    fun k' hk' hnone e he => ?_, ?_⟩
  · by_cases hkk : k' = k
    · rw [hkk]
      exact h.sorted.lt_of_mem he
    · refine h.passed k' hk' ?_ e (List.mem_cons_of_mem _ he)
      rw [lookup_cons_ite, if_neg hkk]
      exact hnone
  · simp only [lookup_cons_ite] at hheaded
    by_cases hclass : k = CLASS
    · subst hclass
      rw [p.lookup_class] at hdeclared
      cases hdeclared
      simp only [CLASS_ne_NAMESPACE.symm, if_false] at hheaded
      rw [hrest]
      exact hheaded.put_class _
    · by_cases hns : k = NAMESPACE
      · subst hns
        rw [p.lookup_namespace] at hdeclared
        cases hdeclared
        simp only [CLASS_ne_NAMESPACE, if_false] at hheaded
        rw [hrest]
        exact hheaded.put_namespace _
      · simp only [Ne.symm hclass, Ne.symm hns, if_false] at hheaded
        exact hheaded.put (fun heq => absurd heq hclass) fun heq => absurd heq hns

theorem run : ∀ {l d : Fields}, Copying p klass l d → Copying p klass [] (putAll l d)
  | [], _, h => h
  | _ :: _, _, h => h.next.run

end Copying

/-- An object is taken by what takes any object. -/
theorem setObject_returns {k : Key} (h : Headed c ns d) (hk : k ≠ NAMESPACE)
    (hown : d.lookup k = none) (o : Fields) : ReturnsIff (reg.Admits ns c k (.object []))
      (setField reg k (.object o)) d () (put k (.object o) d) :=
  setField_returns h hk hown (.object o)

/-- The attributes of a name are written to an object, and that to the metadata. -/
def MetaTaken (reg : Registry μ) (of : Key → Attributes) (k : Key) : Prop :=
  (∀ x ∈ (of k).entries, reg.Admits 0 0 x.1 x.2) ∧ reg.Admits 0 0 k (.object [])

theorem annotated_cons (ann : Annotations) (ns klass k : Key) (v : Value) (l : Fields) :
    annotated ann ns klass ((k, v) :: l) =
    if ¬ (k = CLASS ∨ k = PARENT ∨ k = NAMESPACE) ∧ (ann.ofField ns klass k).any then
      k :: annotated ann ns klass l
    else annotated ann ns klass l := by
  simp only [annotated, List.map_cons, List.filter_cons, decide_eq_true_eq]

/-- A field is looked up by what the reply says by then, unless the reply has it. -/
theorem Copying.copies {p : Prototype μ} {k : Key} {v : Value} {l : Fields}
    (h : Copying p klass ((k, v) :: l) d) :
    ReturnsIff (k ≠ NAMESPACE → d.lookup k = none →
      reg.Ends (p.namespaceAt k) (p.classAt klass k) k) (writeField reg k v) d () (put k v d) := by
  by_cases hns : k = NAMESPACE
  · exact (writeField_returns h.headed v).congr
      (iff_of_true (fun hne => absurd hns hne) fun hne => absurd hns hne)
  · by_cases hclass : k = CLASS
    · have hown : d.lookup k ≠ none := by
        rw [hclass, keyAt_eq_some_iff.mp h.headed.isClass]
        nofun
      exact (writeField_returns h.headed v).congr
        (iff_of_true (fun _ hnone => absurd hnone hown) fun _ hnone => absurd hnone hown)
    · exact writeField_returns (h.headed_at hclass hns) v

/-- The fields that the reply does not have are looked up to an end. -/
def CopiesEnd (reg : Registry μ) (p : Prototype μ) (klass : Key) (l d : Fields) : Prop :=
  ∀ e ∈ l, e.1 ≠ NAMESPACE → d.lookup e.1 = none →
    reg.Ends (p.namespaceAt e.1) (p.classAt klass e.1) e.1

theorem Copying.copiesEnd_iff {p : Prototype μ} {k : Key} {v : Value} {l : Fields}
    (h : Copying p klass ((k, v) :: l) d) : CopiesEnd reg p klass ((k, v) :: l) d ↔
      (k ≠ NAMESPACE → d.lookup k = none → reg.Ends (p.namespaceAt k) (p.classAt klass k) k) ∧
        CopiesEnd reg p klass l (put k v d) := by
  unfold CopiesEnd
  rw [List.forall_mem_cons]
  refine and_congr_right fun _ => forall₂_congr fun e he => imp_congr_right fun hns => ?_
  have hne : e.1 ≠ k := fun heq => UInt32.lt_irrefl _ (heq ▸ h.sorted.lt_of_mem he)
  rw [lookup_put_ne hne hns]

/-- The metadata of the fields behind is still to come. -/
theorem Copying.still_fresh {p : Prototype μ} {k : Key} {v : Value} {l fieldsMeta : Fields}
    (h : Copying p klass ((k, v) :: l) d)
    (hfresh : ∀ k' ∈ annotated ann ns klass l, fieldsMeta.lookup k' = none) {w : Value} :
    ∀ k' ∈ annotated ann ns klass l, (put k w fieldsMeta).lookup k' = none := by
  intro k' hk'
  obtain ⟨hkey, hshown⟩ := List.mem_filter.mp hk'
  have hne : k' ≠ k := by
    rintro rfl
    obtain ⟨e, he, heq⟩ := List.mem_map.mp hkey
    exact UInt32.lt_irrefl _ (heq ▸ h.sorted.lt_of_mem he)
  have hns : k' ≠ NAMESPACE := by
    rintro rfl
    exact absurd hshown (by simp)
  rw [lookup_put_ne hne hns, hfresh k' hk']

/-- The fields are copied, and their metadata is added to what there is. -/
theorem describeFields_returns {p : Prototype μ} (l : Fields) :
    ∀ {d fieldsMeta : Fields} {hasFieldMeta : Bool}, Copying p klass l d →
      Headed 0 0 fieldsMeta → (∀ k ∈ annotated ann ns klass l, fieldsMeta.lookup k = none) →
      ReturnsIff (CopiesEnd reg p klass l d ∧
          ∀ k ∈ annotated ann ns klass l, MetaTaken reg (ann.ofField ns klass) k)
        (describeFields reg ann ns klass l (fieldsMeta, hasFieldMeta)) d
        (putAll (metaEntries (annotated ann ns klass l) (ann.ofField ns klass)) fieldsMeta,
          hasFieldMeta || !(annotated ann ns klass l).isEmpty) (putAll l d) := by
  induction l with
  | nil =>
    intro d fieldsMeta hasFieldMeta _ _ _
    have hempty : annotated ann ns klass [] = [] := rfl
    simp only [metaEntries, hempty, List.map_nil, putAll, List.foldl_nil, List.isEmpty_nil,
      Bool.not_true, Bool.or_false]
    refine (ReturnsIff.pure _ _).congr (iff_of_true trivial ⟨fun e he => ?_, fun k hk => ?_⟩)
    · exact absurd he List.not_mem_nil
    · exact absurd hk List.not_mem_nil
  | cons e rest ih =>
    obtain ⟨k, v⟩ := e
    intro d fieldsMeta hasFieldMeta hd hmeta hfresh
    have hcons := annotated_cons ann ns klass k v rest
    unfold describeFields
    rw [hd.copiesEnd_iff, and_assoc]
    by_cases hreserved : k = CLASS ∨ k = PARENT ∨ k = NAMESPACE
    · -- the header is copied, and has no metadata
      rw [if_neg fun h => h.1 hreserved] at hcons
      rw [hcons] at hfresh
      rw [hcons]
      refine hd.copies.bind fun _ => ?_
      rw [if_pos hreserved]
      exact ih hd.next hmeta hfresh
    · cases hany : (ann.ofField ns klass k).any with
      | false =>
        -- its attributes are shown, but there are none
        rw [if_neg fun h => by rw [hany] at h; cases h.2] at hcons
        rw [hcons] at hfresh
        rw [hcons]
        refine hd.copies.bind fun _ => ?_
        rw [if_neg hreserved]
        refine ReturnsIff.after ((shown_returns _ _).congr ?_) ?_
        · rw [Attributes.entries_of_not_any hany]
          exact iff_of_true (fun x hx => absurd hx List.not_mem_nil) trivial
        · rw [hany]
          exact ih hd.next hmeta hfresh
      | true =>
        -- what is shown becomes an entry of the metadata, where no field before had one
        rw [if_pos ⟨hreserved, hany⟩] at hcons
        rw [hcons, List.forall_mem_cons] at hfresh
        rw [hcons, List.forall_mem_cons, List.isEmpty_cons, Bool.not_false,
          Bool.or_true]
        obtain ⟨hclass, hparent, hns⟩ : k ≠ CLASS ∧ k ≠ PARENT ∧ k ≠ NAMESPACE := by
          simpa only [not_or] using hreserved
        refine hd.copies.bind fun _ => ?_
        rw [if_neg hreserved]
        refine ReturnsIff.congr (P := (∀ x ∈ (ann.ofField ns klass k).entries,
            reg.Admits 0 0 x.1 x.2) ∧ reg.Admits 0 0 k (.object []) ∧
            CopiesEnd reg p klass rest (put k v d) ∧
            ∀ k ∈ annotated ann ns klass rest, MetaTaken reg (ann.ofField ns klass) k) ?_ ?_
        · refine (shown_returns _ _).bind fun _ => ?_
          rw [hany]
          refine ((setObject_returns hmeta hns hfresh.1 _).within _).bind fun _ => ?_
          exact ih hd.next (hmeta.put (fun heq => absurd heq hclass) fun heq => absurd heq hns)
            (hd.still_fresh hfresh.2)
        · unfold MetaTaken
          tauto

/-! ### Methods -/

/-- What is listed takes the place of what is listed, or of nothing. -/
def Listing (reg : Registry μ) (m : Fields) : Prop :=
  Headed 0 0 m ∧ ∀ k, k ≠ CLASS → k ≠ NAMESPACE →
    m.lookup k = none ∨ (∃ o, m.lookup k = some (.object o)) ∧ reg.Admits 0 0 k (.object [])

/-- An entry has neither the name of the class nor that of the namespace. -/
theorem Listing.set_returns {m : Fields} {k : Key} (h : Listing reg m) (o : Fields) :
    ReturnsIff (k ≠ CLASS ∧ k ≠ NAMESPACE ∧ reg.Admits 0 0 k (.object []))
      (setField reg k (.object o)) m () (put k (.object o) m) := by
  have hkey : ∀ k, ¬ (Value.key k).Takes (.object o) := fun k h => by
    rcases h with h | h <;> cases h
  by_cases hclass : k = CLASS
  · subst hclass
    have hown := keyAt_eq_some_iff.mp h.1.isClass
    exact (setField_own_returns hown _).congr (iff_of_false (hkey 0) fun h => h.1 rfl)
  · by_cases hns : k = NAMESPACE
    · subst hns
      have hfails : ReturnsIff _ (setField reg NAMESPACE (.object o)) _ _ _ :=
        setField_namespace_fails h.1 hkey
      exact ⟨fun h => absurd rfl h.2.1, fun _ => hfails.fails id⟩
    · rcases h.2 k hclass hns with hnone | ⟨⟨old, hold⟩, hadmits⟩
      · refine (setObject_returns h.1 hns hnone o).congr ?_
        rw [and_iff_right hclass, and_iff_right hns]
      · exact (setField_own_returns hold _).congr
          (iff_of_true (.inr rfl) ⟨hclass, hns, hadmits⟩)

theorem Listing.put {m : Fields} {k : Key} (h : Listing reg m) (hclass : k ≠ CLASS)
    (hns : k ≠ NAMESPACE) (hadmits : reg.Admits 0 0 k (.object [])) (o : Fields) :
    Listing reg (put k (.object o) m) := by
  refine ⟨h.1.put (fun heq => absurd heq hclass) fun heq => absurd heq hns,
    fun k' hclass' hns' => ?_⟩
  by_cases hk : k' = k
  · subst hk
    exact .inr ⟨⟨o, lookup_put_self _ _ _⟩, hadmits⟩
  · rw [lookup_put_ne hk hns']
    exact h.2 k' hclass' hns'

theorem listing_empty : Listing reg Dynamic.empty :=
  ⟨headed_empty, fun _ hclass _ => .inl (lookup_class_only hclass _)⟩

theorem describeMethods_returns (l : List (Key × μ)) : ∀ {m : Fields}, Listing reg m →
    ReturnsIff (∀ k ∈ l.map Prod.fst, k ≠ CLASS ∧ k ≠ NAMESPACE ∧
        MetaTaken reg (ann.ofMethod ns klass) k)
      (describeMethods reg ann ns klass l m) d
      (putAll (metaEntries (l.map Prod.fst) (ann.ofMethod ns klass)) m) d := by
  induction l with
  | nil =>
    intro m _
    exact (ReturnsIff.pure _ _).congr (iff_of_true trivial nofun)
  | cons e rest ih =>
    obtain ⟨k, method⟩ := e
    intro m hm
    unfold describeMethods
    rw [List.map_cons, List.forall_mem_cons]
    refine ReturnsIff.congr (P := (∀ x ∈ (ann.ofMethod ns klass k).entries,
        reg.Admits 0 0 x.1 x.2) ∧ (k ≠ CLASS ∧ k ≠ NAMESPACE ∧ reg.Admits 0 0 k (.object [])) ∧
        ∀ k ∈ rest.map Prod.fst, k ≠ CLASS ∧ k ≠ NAMESPACE ∧
          MetaTaken reg (ann.ofMethod ns klass) k) ?_ ?_
    · refine (shownMethod_returns _ _).bind fun _ => ?_
      refine ((hm.set_returns _).within _).bind fun h => ?_
      exact ih (hm.put h.1 h.2.1 h.2.2 _)
    · unfold MetaTaken
      tauto

/-! ### The description of a class -/

/-- The reply with the name of the class and its attributes. -/
def titled (ann : Annotations) (ns klass : Key) : Fields :=
  putAll (ann.ofField ns klass CLASS).entries [(CLASS, .key klass)]

/-- The reply with the fields of the class. -/
def copied (ann : Annotations) (ns klass : Key) (p : Prototype μ) : Fields :=
  putAll p.fields (titled ann ns klass)

/-- The description of a class. -/
def description (ann : Annotations) (ns klass : Key) (p : Prototype μ) : Fields :=
  let d := copied ann ns klass p
  let d := if annotated ann ns klass p.fields ≠ [] then
      put FIELD_FIELDS
        (.object (metadata (annotated ann ns klass p.fields) (ann.ofField ns klass))) d
    else d
  if p.methods ≠ [] then
    put FIELD_METHODS (.object (metadata (p.methods.map Prod.fst) (ann.ofMethod ns klass))) d
  else d

/-- An entry takes the place of a field that is empty or has an object, or is the default for one
by that name, or there is none. -/
def EntryTaken (reg : Registry μ) (p : Prototype μ) (name : Key) : Prop :=
  match p.fields.lookup name with
  | some old => old.Takes (.object [])
  | none => reg.Admits p.namespaceName p.className name (.object [])

/-- No assignment is refused, and every lookup comes to an end. -/
structure Assembles (reg : Registry μ) (ann : Annotations) (ns klass : Key) (p : Prototype μ) :
    Prop where
  attributes : ∀ x ∈ (ann.ofField ns klass CLASS).entries, reg.Admits 0 klass x.1 x.2
  copies : CopiesEnd reg p klass p.fields (titled ann ns klass)
  ofFields : ∀ k ∈ annotated ann ns klass p.fields, MetaTaken reg (ann.ofField ns klass) k
  fields : annotated ann ns klass p.fields ≠ [] → EntryTaken reg p FIELD_FIELDS
  ofMethods : ∀ k ∈ p.methods.map Prod.fst, k ≠ CLASS ∧ k ≠ NAMESPACE ∧
    MetaTaken reg (ann.ofMethod ns klass) k
  methods : p.methods ≠ [] → EntryTaken reg p FIELD_METHODS

variable {p : Prototype μ} {name : Key}

theorem titled_lookup (hclass : name ≠ CLASS) (hns : name ≠ NAMESPACE)
    (hname : name ∉ Attributes.names) : (titled ann ns klass).lookup name = none := by
  rw [titled, lookup_putAll_of_none hns]
  · exact lookup_class_only hclass _
  · refine List.lookup_eq_none_iff.mpr fun x hx => bne_iff_ne.mpr ?_
    rintro rfl
    exact hname (Attributes.entries_ne hx)

theorem copied_lookup (ann : Annotations) (ns klass : Key) (p : Prototype μ)
    (hclass : name ≠ CLASS) (hns : name ≠ NAMESPACE) (hname : name ∉ Attributes.names) :
    (copied ann ns klass p).lookup name = p.fields.lookup name := by
  cases hown : p.fields.lookup name with
  | some v => exact lookup_putAll_of_some _ p.sorted.nodup_keys hown
  | none =>
    rw [copied, lookup_putAll_of_none hns _ hown]
    exact titled_lookup hclass hns hname

theorem titled_headed : Headed klass 0 (titled ann ns klass) :=
  Headed.putAll ⟨rfl, .inl ⟨rfl, rfl⟩⟩ fun _ => Attributes.entries_ne_header

theorem copying_start : Copying p klass p.fields (titled ann ns klass) := by
  refine ⟨p.sorted, fun e he => p.sorted.lookup_of_mem he, fun k hk hnone => ?_, ?_⟩
  · rw [hnone] at hk
    cases hk
  · rw [p.lookup_class, p.lookup_namespace]
    exact titled_headed

theorem copied_headed : Headed p.className p.namespaceName (copied ann ns klass p) :=
  copying_start.run.headed

/-- An entry that the fields of the class leave to what the classes declare. -/
theorem entry_returns (h : Headed p.className p.namespaceName d) (hns : name ≠ NAMESPACE)
    (hd : d.lookup name = p.fields.lookup name) (o : Fields) :
    ReturnsIff (EntryTaken reg p name) (setField reg name (.object o)) d ()
      (put name (.object o) d) := by
  unfold EntryTaken
  rw [← hd]
  cases hown : d.lookup name with
  | some old => exact setField_own_returns hown (.object o)
  | none => exact setObject_returns h hns hown o

theorem methods_returns (h : Headed p.className p.namespaceName d)
    (hd : d.lookup FIELD_METHODS = p.fields.lookup FIELD_METHODS) :
    ReturnsIff ((∀ k ∈ p.methods.map Prod.fst, k ≠ CLASS ∧ k ≠ NAMESPACE ∧
        MetaTaken reg (ann.ofMethod ns klass) k) ∧
        (p.methods ≠ [] → EntryTaken reg p FIELD_METHODS))
      (describeMethods reg ann ns klass p.methods Dynamic.empty >>= fun methodsMeta =>
        if !p.methods.isEmpty then setField reg FIELD_METHODS (.object methodsMeta) else pure ())
      d ()
      (if p.methods ≠ [] then
        put FIELD_METHODS (.object (metadata (p.methods.map Prod.fst) (ann.ofMethod ns klass))) d
      else d) := by
  refine (describeMethods_returns p.methods listing_empty).bind fun _ => ?_
  cases p.methods with
  | nil => exact (ReturnsIff.pure () d).congr (iff_of_true trivial fun h => absurd rfl h)
  | cons method rest =>
    exact (entry_returns h (by decide) hd _).congr
      ⟨fun h _ => h, fun h => h (List.cons_ne_nil _ _)⟩

theorem titled_returns : ReturnsIff
    (∀ x ∈ (ann.ofField ns klass CLASS).entries, reg.Admits 0 klass x.1 x.2)
    (applyClassAttrs reg ann ns klass p) [(CLASS, .key klass)] () (titled ann ns klass) := by
  obtain ⟨v, hv⟩ := classField_run reg p ([(CLASS, .key klass)] : Fields)
  refine (ReturnsIff.of_run hv).after ((applyAttrs_returns _ ⟨rfl, .inl ⟨rfl, rfl⟩⟩
    fun k hk => lookup_class_only ?_ _).followed _)
  rintro rfl
  exact absurd hk (by decide)

/-- The description is made if nothing is refused. -/
theorem describeClass_returns : ReturnsIff (Assembles reg ann ns klass p)
    (describeClass reg ann ns klass p) Dynamic.empty () (description ann ns klass p) := by
  have hheaded : Headed p.className p.namespaceName (copied ann ns klass p) := copied_headed
  have hfields : (copied ann ns klass p).lookup FIELD_FIELDS = p.fields.lookup FIELD_FIELDS :=
    copied_lookup ann ns klass p (by decide) (by decide) (by decide)
  have hmethods : (copied ann ns klass p).lookup FIELD_METHODS = p.fields.lookup FIELD_METHODS :=
    copied_lookup ann ns klass p (by decide) (by decide) (by decide)
  unfold describeClass
  refine ReturnsIff.after (.of_run (setField_klass klass)) ?_
  refine ReturnsIff.congr (P := (∀ x ∈ (ann.ofField ns klass CLASS).entries,
      reg.Admits 0 klass x.1 x.2) ∧ (CopiesEnd reg p klass p.fields (titled ann ns klass) ∧
      ∀ k ∈ annotated ann ns klass p.fields, MetaTaken reg (ann.ofField ns klass) k) ∧
      (annotated ann ns klass p.fields ≠ [] → EntryTaken reg p FIELD_FIELDS) ∧
      (∀ k ∈ p.methods.map Prod.fst, k ≠ CLASS ∧ k ≠ NAMESPACE ∧
        MetaTaken reg (ann.ofMethod ns klass) k) ∧
      (p.methods ≠ [] → EntryTaken reg p FIELD_METHODS)) ?_ ?_
  · refine titled_returns.bind fun _ => ?_
    refine (describeFields_returns p.fields copying_start headed_empty fun k hk => ?_).bind
      fun _ => ?_
    · refine lookup_class_only ?_ _
      rintro rfl
      exact absurd (List.mem_filter.mp hk).2 (by simp)
    · unfold description
      cases hmeta : annotated ann ns klass p.fields with
      | nil =>
        refine (methods_returns hheaded hmethods).congr (and_iff_right fun h => ?_).symm
        exact absurd rfl h
      | cons k rest =>
        refine ReturnsIff.congr (P := EntryTaken reg p FIELD_FIELDS ∧ _) ?_
          (and_congr_left' ⟨fun h _ => h, fun h => h (List.cons_ne_nil _ _)⟩)
        refine (entry_returns hheaded (by decide) hfields _).bind fun _ => ?_
        refine methods_returns (hheaded.put (fun heq => ?_) fun heq => ?_) ?_
        · exact absurd heq (by decide)
        · exact absurd heq (by decide)
        · rw [lookup_put_ne (by decide) (by decide)]
          exact hmethods
  · constructor
    · rintro ⟨h₁, ⟨h₂, h₃⟩, h₄, h₅, h₆⟩
      exact ⟨h₁, h₂, h₃, h₄, h₅, h₆⟩
    · rintro ⟨h₁, h₂, h₃, h₄, h₅, h₆⟩
      exact ⟨h₁, ⟨h₂, h₃⟩, h₄, h₅, h₆⟩

/-! ### What the description says -/

/-- A class field that has the name of an entry of the reply holds what the entry says. -/
structure NoClash (ann : Annotations) (ns klass : Key) (p : Prototype μ) : Prop where
  fields : annotated ann ns klass p.fields ≠ [] → ∀ v, p.fields.lookup FIELD_FIELDS = some v →
    v = .object (metadata (annotated ann ns klass p.fields) (ann.ofField ns klass))
  methods : p.methods ≠ [] → ∀ v, p.fields.lookup FIELD_METHODS = some v →
    v = .object (metadata (p.methods.map Prod.fst) (ann.ofMethod ns klass))

theorem metaOf_shows (a : Attributes) : (Value.object (metaOf a)).Shows a := by
  refine ⟨_, rfl, fun k hclass hns => ?_⟩
  cases hown : a.entries.lookup k with
  | some v => exact lookup_putAll_of_some _ a.entries_nodup hown
  | none =>
    rw [metaOf, lookup_putAll_of_none hns _ hown]
    exact lookup_class_only hclass _

theorem lookup_metaEntries {k : Key} (of : Key → Attributes) :
    ∀ {names : List Key} (d : Fields), k ∈ names →
      (putAll (metaEntries names of) d).lookup k = some (.object (metaOf (of k)))
  | k' :: names, d, hk => by
    show (putAll (metaEntries names of) (put k' (.object (metaOf (of k'))) d)).lookup k = _
    by_cases hrest : k ∈ names
    · exact lookup_metaEntries of _ hrest
    · obtain rfl : k = k' := (List.mem_cons.mp hk).resolve_right hrest
      refine lookup_putAll_kept _ (fun hmem => hrest ?_) (lookup_put_self _ _ _)
      obtain ⟨x, hx, heq⟩ := List.mem_map.mp hmem
      obtain ⟨k', hk', rfl⟩ := List.mem_map.mp hx
      exact heq ▸ hk'

theorem metadata_lists (names : List Key) (of : Key → Attributes) :
    (Value.object (metadata names of)).Lists names of := by
  refine ⟨_, rfl, fun k hk => ⟨_, lookup_metaEntries of _ hk, metaOf_shows _⟩,
    fun k hk hclass hns => ?_⟩
  rw [metadata, lookup_putAll_of_none hns]
  · exact lookup_class_only hclass _
  · refine List.lookup_eq_none_iff.mpr fun x hx => bne_iff_ne.mpr ?_
    obtain ⟨k', hk', rfl⟩ := List.mem_map.mp hx
    rintro rfl
    exact hk hk'

theorem description_methods (h : p.methods ≠ []) :
    (description ann ns klass p).lookup FIELD_METHODS =
      some (.object (metadata (p.methods.map Prod.fst) (ann.ofMethod ns klass))) := by
  unfold description
  rw [if_pos h]
  exact lookup_put_self _ _ _

theorem description_fields (h : annotated ann ns klass p.fields ≠ []) :
    (description ann ns klass p).lookup FIELD_FIELDS = some (.object
      (metadata (annotated ann ns klass p.fields) (ann.ofField ns klass))) := by
  unfold description
  simp only [if_pos h]
  split
  · exact lookup_put_kept (by decide) (lookup_put_self _ _ _) _
  · exact lookup_put_self _ _ _

/-- Whatever is not an entry of the reply is as the class has it. -/
theorem description_copied {k : Key} {v : Value} (hv : p.fields.lookup k = some v)
    (hfields : k ≠ FIELD_FIELDS ∨ annotated ann ns klass p.fields = [])
    (hmethods : k ≠ FIELD_METHODS ∨ p.methods = []) :
    (description ann ns klass p).lookup k = some v := by
  have hcopied : (copied ann ns klass p).lookup k = some v :=
    lookup_putAll_of_some _ p.sorted.nodup_keys hv
  have hinner : (if annotated ann ns klass p.fields ≠ [] then
      put FIELD_FIELDS (.object (metadata (annotated ann ns klass p.fields)
        (ann.ofField ns klass))) (copied ann ns klass p)
      else copied ann ns klass p).lookup k = some v := by
    split
    · next h => exact lookup_put_kept (hfields.resolve_right h) hcopied _
    · exact hcopied
  unfold description
  simp only
  split
  · next h => exact lookup_put_kept (hmethods.resolve_right h) hinner _
  · exact hinner

/-- The description of a class is one exactly if it is the class of that name, and no field gets in
the way of an entry. -/
theorem describes_iff : Describes ann ns klass p (description ann ns klass p) ↔
    p.className = klass ∧ NoClash ann ns klass p := by
  constructor
  · rintro ⟨hclass, hdefaults, -, -⟩
    refine ⟨?_, fun hmeta v hv => ?_, fun hmeta v hv => ?_⟩
    · have hname := hdefaults _ _ p.lookup_class
      cases hname.symm.trans hclass
      rfl
    · have hentry := hdefaults _ _ hv
      rw [description_fields hmeta] at hentry
      exact (Option.some.inj hentry).symm
    · have hentry := hdefaults _ _ hv
      rw [description_methods hmeta] at hentry
      exact (Option.some.inj hentry).symm
  · rintro ⟨hclass, hfields, hmethods⟩
    refine ⟨?_, fun k v hv => ?_, fun h => ⟨_, description_fields h, metadata_lists _ _⟩,
      fun h => ⟨_, description_methods h, metadata_lists _ _⟩⟩
    · rw [← hclass]
      exact description_copied p.lookup_class (.inl (by decide)) (.inl (by decide))
    · by_cases hk : k = FIELD_FIELDS ∧ annotated ann ns klass p.fields ≠ []
      · obtain ⟨rfl, hmeta⟩ := hk
        rw [description_fields hmeta, hfields hmeta v hv]
      · by_cases hk' : k = FIELD_METHODS ∧ p.methods ≠ []
        · obtain ⟨rfl, hmeta⟩ := hk'
          rw [description_methods hmeta, hmethods hmeta v hv]
        · refine description_copied hv ?_ ?_
          · tauto
          · tauto

/-! ### Both backends -/

/-- What the server describes is the class that was asked. -/
def ServerDescribes (reg : Registry μ) (ann : Annotations) (ns klass : Key) : Prop :=
  klass ≠ 0 ∧
    match reg.prototype ns klass, findAnywhere reg klass with
    | none, found => found = none
    | some _, none => False
    | some p, some (ns', p') => Assembles reg ann ns' klass p' ∧
      if ns' = ns then p.className = klass ∧ NoClash ann ns klass p
      else Describes ann ns klass p (description ann ns' klass p')

/-- What the standalone backend describes is the class that was asked. -/
def StandaloneDescribes (reg : Registry μ) (ann : Annotations) (ns klass : Key) : Prop :=
  klass ≠ 0 ∧ ∀ p, reg.prototype ns klass = some p →
    Assembles reg ann ns klass p ∧ p.className = klass ∧ NoClash ann ns klass p

theorem findAnywhere_own {ns' : Key} {p' : Prototype μ}
    (hfound : findAnywhere reg klass = some (ns', p')) (hp : reg.prototype ns' klass = some p) :
    p' = p := by
  unfold findAnywhere at hfound
  unfold Registry.prototype at hp
  induction reg with
  | nil => cases hfound
  | cons e rest ih =>
    obtain ⟨ns, col⟩ := e
    rw [List.findSome?_cons] at hfound
    rw [lookup_cons_ite] at hp
    cases hcol : Collection.find col klass with
    | some q =>
      simp only [hcol, Option.map_some, Option.some.injEq, Prod.mk.injEq] at hfound
      obtain ⟨rfl, rfl⟩ := hfound
      rw [if_pos rfl, Option.bind_some, hcol] at hp
      exact Option.some.inj hp
    | none =>
      simp only [hcol, Option.map_none] at hfound
      refine ih hfound ?_
      split_ifs at hp with heq
      · rw [Option.bind_some, hcol] at hp
        cases hp
      · exact hp

/-! ### Listings -/

/-- The one exception that says that there is no such class. -/
def NotSaid (e : Exn) : Prop := e ≠ .runtimeError "Class not found"

theorem walkStart_notSaid {e : Exn} (h : walkStart reg d = .error e) : NotSaid e := by
  unfold walkStart at h
  cases hns : resolveNamespace d with
  | error e' =>
    simp only [hns, Decoder.error_bind] at h
    cases h
    unfold resolveNamespace at hns
    split at hns <;> cases hns
    exact fun heq => by simp at heq
  | ok r =>
    obtain ⟨ns, d'⟩ := r
    simp only [hns, Decoder.ok_bind] at h
    cases hcol : reg.lookup ns with
    | none =>
      simp only [hcol] at h
      cases h
    | some col =>
      simp only [hcol] at h
      cases hclass : asKey CLASS d' with
      | error e' =>
        simp only [hclass, Decoder.error_bind] at h
        cases h
        unfold asKey at hclass
        split at hclass <;> cases hclass
        exact fun heq => by simp at heq
      | ok r' =>
        simp only [hclass, Decoder.ok_bind] at h
        cases h

theorem findField_notSaid {k : Key} {e : Exn} (h : Bison.findField reg k d = .error e) :
    NotSaid e := by
  cases hown : d.lookup k with
  | some v =>
    rw [Bison.findField, hown] at h
    cases h
  | none =>
    rw [findField_of_none reg hown] at h
    cases hstart : walkStart reg d with
    | error e' =>
      rw [hstart, Decoder.error_bind] at h
      cases h
      exact walkStart_notSaid hstart
    | ok r =>
      obtain ⟨_ | ⟨col, c⟩, d'⟩ := r
      · rw [hstart] at h
        cases h
      · rw [hstart, Decoder.ok_bind] at h
        simp only at h
        split at h
        · cases h
          exact fun heq => by cases heq
        · cases h
        · cases h

theorem assign_notSaid {old v : Value} {e : Exn} (h : old.assign v = .error e) : NotSaid e := by
  unfold Value.assign at h
  split at h
  · cases h
  · cases h
    exact fun heq => by simp at heq

theorem setField_failsOnly (k : Key) (v : Value) :
    Decoder.FailsOnly NotSaid (Bison.setField reg k v) := by
  have hsub : Decoder.FailsOnly NotSaid (Bison.subscript reg k) := by
    refine .bind (fun _ _ h => findField_notSaid h) fun found => ?_
    cases found with
    | none => exact fun _ _ h => by cases h
    | some v => exact .pure v
  refine .bind hsub fun old => .bind (fun d e h => ?_) fun _ _ _ h => by cases h
  cases hassign : old.assign v with
  | error e' =>
    rw [hassign] at h
    cases h
    exact assign_notSaid hassign
  | ok _ =>
    rw [hassign] at h
    cases h

/-- An assignment never says that there is no such class. -/
theorem setField_notSaid (k : Key) (v : Value) : Triple (fun _ => True) (setField reg k v)
    (fun _ _ => True) fun e _ => NotSaid e := by
  intro d _
  have hmirrors := (setField_wraps reg k v).mirrors d
  rcases hrun : setField reg k v d with ⟨e | _, trace, d'⟩
  · rw [hrun] at hmirrors
    exact setField_failsOnly k v d e hmirrors.symm
  · trivial

theorem applyClassAttrs_notSaid : Triple (fun _ => True) (applyClassAttrs reg ann ns klass p)
    (fun _ _ => True) fun e _ => NotSaid e := by
  intro d _
  obtain ⟨v, hv⟩ := classField_run reg p d
  have hattrs : Triple (fun _ => True) (applyAttrs reg (ann.ofField ns klass CLASS))
      (fun _ _ => True) fun e _ => NotSaid e := by
    rw [applyAttrs_eq]
    refine .bind (.forEach (I := fun _ _ => True) (fun x _ => setField_notSaid x.1 x.2) _)
      fun _ => .pure fun _ _ => trivial
  have hrun := Triple.bind hattrs (f := fun _ => (pure () : Locked Fields Unit))
    (S := fun _ _ => True) (fun _ => .pure fun _ _ => trivial) d trivial
  unfold applyClassAttrs
  rw [bind_ok hv]
  exact hrun

theorem setIndex_listed (pos : Nat) (desc : Fields) :
    Triple (fun d => keyAt d PARENT = none) (setIndex pos (.object desc))
      (fun _ d => keyAt d PARENT = none) fun e _ => NotSaid e := by
  intro d hd
  unfold setIndex
  rw [ofDecoder]
  cases hassign : ((d.lookup (UInt32.ofNat pos)).getD .monostate).assign (.object desc) with
  | error e => exact assign_notSaid hassign
  | ok new =>
    have hnew : new = .object desc := by
      unfold Value.assign at hassign
      split at hassign <;> cases hassign
      rfl
    show keyAt (insert (UInt32.ofNat pos) new d) PARENT = none
    rw [hnew, keyAt_insert]
    split
    · rfl
    · exact hd

theorem within_notSaid {α : Type} {P : σ → Prop} {q : Locked Fields α}
    (h : Triple (fun _ => True) q (fun _ _ => True) fun e _ => NotSaid e) (d : Fields) :
    Triple P (within d q) (fun _ => P) fun e _ => NotSaid e := by
  intro s hs
  have hq := h d trivial
  unfold within
  cases hr : (q d).result with
  | error e =>
    rw [hr] at hq
    exact hq
  | ok a => exact hs

/-- A listing writes no key but the name of its own class, and never says that there is no such
class. -/
theorem describeListed_listed (reg : Registry μ) (ann : Annotations)
    (l : List (Key × Key × Prototype μ)) (idx : Nat) :
    Triple (fun d => keyAt d PARENT = none) (describeListed reg ann l idx)
      (fun _ d => keyAt d PARENT = none) fun e _ => NotSaid e := by
  induction l generalizing idx with
  | nil => exact .pure fun _ h => h
  | cons e rest ih =>
    obtain ⟨ns, klass, p⟩ := e
    have hentry : Triple (fun _ => True) (do
        setField reg FIELD_KLASS (.key klass)
        applyClassAttrs reg ann ns klass p) (fun _ _ => True) fun e _ => NotSaid e :=
      .bind (setField_notSaid FIELD_KLASS _) fun _ => applyClassAttrs_notSaid
    exact .bind (within_notSaid hentry _) fun r =>
      .bind (setIndex_listed idx r.2) fun _ => ih (idx + 1)

/-- What a listing has is no class. -/
theorem not_describes_listing {l : List (Key × Key × Prototype μ)} {r : Fields}
    (hr : (describeListed reg ann l 0 Dynamic.empty).state = r)
    (hok : (describeListed reg ann l 0 Dynamic.empty).result = .ok ()) :
    ¬ Describes ann ns klass p r := by
  intro hdescribes
  obtain ⟨parent, hparent⟩ := Option.isSome_iff_exists.mp p.hasParent
  have hlisted := describeListed_listed reg ann l 0 Dynamic.empty rfl
  rw [hok, hr] at hlisted
  have hkey := keyAt_eq_some_iff.mpr (hdescribes.defaults _ _ (keyAt_eq_some_iff.mp hparent))
  cases hkey.symm.trans hlisted

/-! ### When a request is answered -/

theorem request_asked : asKey FIELD_KLASS (describeRequest ns klass) =
    .ok (klass, describeRequest ns klass) :=
  asKey_of_keyAt (keyAt_eq_some_iff.mpr (lookup_insert_self _ _ _))

/-- What the server replies is what the scope made, if the class was found. -/
theorem handleDescribe_result : (handleDescribe reg ann (describeRequest ns klass)).result =
    (describe reg ann klass Dynamic.empty).result.map fun found =>
      if found then some (describe reg ann klass Dynamic.empty).state else none := by
  unfold handleDescribe
  rw [bind_ok (ofDecoder_ok request_asked), bind_run, within]
  rcases describe reg ann klass Dynamic.empty with ⟨e | found, trace, resp⟩
  · rfl
  · rfl

/-- The scope makes the description of the class that is found. -/
theorem describe_returns {ns' : Key} {p' : Prototype μ} (hklass : klass ≠ 0)
    (hfound : findAnywhere reg klass = some (ns', p')) :
    ReturnsIff (Assembles reg ann ns' klass p') (describe reg ann klass) Dynamic.empty true
      (description ann ns' klass p') := by
  unfold describe
  rw [if_neg hklass, hfound]
  exact (describeClass_returns.followed fun _ => true).hold

theorem handleDescribe_some_iff {ns' : Key} {p' : Prototype μ} (hklass : klass ≠ 0)
    (hfound : findAnywhere reg klass = some (ns', p')) (reply : Option Fields) :
    (handleDescribe reg ann (describeRequest ns klass)).result = .ok reply ↔
      Assembles reg ann ns' klass p' ∧ reply = some (description ann ns' klass p') := by
  have hreturns : ReturnsIff _ (describe reg ann klass) _ _ _ := describe_returns hklass hfound
  rw [handleDescribe_result]
  by_cases h : Assembles reg ann ns' klass p'
  · obtain ⟨hresult, hstate⟩ := hreturns.returns h
    rw [hresult, hstate, and_iff_right h]
    exact ⟨fun heq => by cases heq; rfl, fun heq => by rw [heq]; rfl⟩
  · obtain ⟨e, he⟩ := hreturns.fails h
    rw [he]
    exact iff_of_false (fun heq => by cases heq) fun h' => h h'.1

/-- Asked for class 0, the server makes a listing. -/
theorem server_lists (reg : Registry μ) (ann : Annotations) (ns : Key) :
    (∃ e, (handleDescribe reg ann (describeRequest ns 0)).result = .error e) ∨
    ∃ r, (handleDescribe reg ann (describeRequest ns 0)).result = .ok (some r) ∧
      (describeListed reg ann reg.listed 0 Dynamic.empty).result = .ok () ∧
      (describeListed reg ann reg.listed 0 Dynamic.empty).state = r := by
  have hscope : describe reg ann 0 = rlock (describeListed reg ann reg.listed 0 >>= fun _ =>
    pure true) := rfl
  rw [handleDescribe_result, hscope, rlock, hold, bind_run]
  rcases describeListed reg ann reg.listed 0 Dynamic.empty with ⟨e | _, trace, r⟩
  · exact .inl ⟨e, rfl⟩
  · exact .inr ⟨r, rfl, rfl, rfl⟩

theorem server_answers_iff : (AnswersFor reg ann ns klass
      ((handleDescribe reg ann (describeRequest ns klass)).result = .ok none)
      fun r => (handleDescribe reg ann (describeRequest ns klass)).result = .ok (some r)) ↔
    ServerDescribes reg ann ns klass := by
  unfold AnswersFor ServerDescribes
  by_cases hklass : klass = 0
  · -- a listing describes no class
    subst hklass
    refine iff_of_false ?_ fun h => h.1 rfl
    rcases server_lists reg ann ns with ⟨e, he⟩ | ⟨r, hr, hok, hstate⟩
    · rw [he]
      cases reg.prototype ns 0 with
      | none => exact fun h => by cases h
      | some p => exact fun ⟨r, h, _⟩ => by cases h
    · rw [hr]
      cases reg.prototype ns 0 with
      | none => exact fun h => by cases h
      | some p =>
        rintro ⟨r', heq, hdescribes⟩
        cases heq
        exact not_describes_listing hstate hok hdescribes
  · rw [and_iff_right hklass]
    cases hfound : findAnywhere reg klass with
    | none =>
      have hresult : (handleDescribe reg ann (describeRequest ns klass)).result = .ok none := by
        rw [handleDescribe_result]
        unfold describe
        rw [if_neg hklass, hfound]
        rfl
      rw [hresult]
      cases reg.prototype ns klass with
      | none => exact iff_of_true rfl rfl
      | some p => exact iff_of_false (fun ⟨r, h, _⟩ => by cases h) id
    | some found =>
      obtain ⟨ns', p'⟩ := found
      simp only [handleDescribe_some_iff hklass hfound]
      cases hp : reg.prototype ns klass with
      | none => exact iff_of_false (fun h => by cases h.2) fun h => by cases h
      | some p =>
        -- the class that is found is the one that is asked for if it is found in its namespace
        simp only [Option.some.injEq]
        constructor
        · rintro ⟨r, ⟨hassembles, rfl⟩, hdescribes⟩
          refine ⟨hassembles, ?_⟩
          split_ifs with hns
          · subst hns
            obtain rfl := findAnywhere_own hfound hp
            exact describes_iff.mp hdescribes
          · exact hdescribes
        · rintro ⟨hassembles, h⟩
          refine ⟨_, ⟨hassembles, rfl⟩, ?_⟩
          split_ifs at h with hns
          · subst hns
            obtain rfl := findAnywhere_own hfound hp
            exact describes_iff.mpr h
          · exact h

theorem standalone_answers_iff : (AnswersFor reg ann ns klass
      ((describeIn reg ann ns klass Dynamic.empty).result =
        .error (.runtimeError "Class not found"))
      fun r => (describeIn reg ann ns klass Dynamic.empty).result = .ok () ∧
        (describeIn reg ann ns klass Dynamic.empty).state = r) ↔
    StandaloneDescribes reg ann ns klass := by
  unfold AnswersFor StandaloneDescribes
  by_cases hklass : klass = 0
  · subst hklass
    refine iff_of_false ?_ fun h => h.1 rfl
    unfold describeIn Registry.prototype
    rw [if_pos rfl]
    cases hcol : reg.lookup ns with
    | none => exact fun h => by cases h
    | some col =>
      have hlisted := describeListed_listed reg ann
        (Registry.listed [(ns, col)]) 0 Dynamic.empty rfl
      rw [Option.bind_some]
      cases Collection.find col 0 with
      | none =>
        -- no lookup that a listing makes says that there is no such class
        intro h
        have herror : (describeListed reg ann (Registry.listed [(ns, col)]) 0
          Dynamic.empty).result = .error (.runtimeError "Class not found") := h
        rw [herror] at hlisted
        exact hlisted rfl
      | some p =>
        rintro ⟨r, ⟨hok, hstate⟩, hdescribes⟩
        exact not_describes_listing hstate hok hdescribes
  · rw [and_iff_right hklass]
    cases hp : reg.prototype ns klass with
    | none =>
      refine iff_of_true ?_ nofun
      unfold describeIn
      unfold Registry.prototype at hp
      rw [if_neg hklass, hp]
      rfl
    | some p =>
      have hreturns : ReturnsIff (Assembles reg ann ns klass p) (describeIn reg ann ns klass)
          Dynamic.empty () (description ann ns klass p) := by
        unfold describeIn
        unfold Registry.prototype at hp
        rw [if_neg hklass, hp]
        exact describeClass_returns.hold
      constructor
      · rintro ⟨r, ⟨hok, rfl⟩, hdescribes⟩ p' hp'
        cases hp'
        have hassembles := (hreturns.result_iff.mp hok).1
        rw [(hreturns.returns hassembles).2] at hdescribes
        exact ⟨hassembles, describes_iff.mp hdescribes⟩
      · intro h
        obtain ⟨hassembles, hclash⟩ := h p rfl
        exact ⟨_, hreturns.returns hassembles, describes_iff.mpr hclash⟩

end Runs

/-- **Main result**: the server answers for the class that was asked if a class is asked for, the
first namespace that has one of that name is the one asked for or has one that is described alike,
and its description can be put together without a clash of names. The standalone backend looks in
no other namespace. -/
theorem describe_answers_iff (reg : Registry μ) (ann : Annotations) (ns klass : Key) :
    ((AnswersFor reg ann ns klass
        ((handleDescribe reg ann (describeRequest ns klass)).result = .ok none)
        fun r => (handleDescribe reg ann (describeRequest ns klass)).result = .ok (some r)) ↔
      ServerDescribes reg ann ns klass) ∧
    ((AnswersFor reg ann ns klass
        ((describeIn reg ann ns klass Dynamic.empty).result =
          .error (.runtimeError "Class not found"))
        fun r => (describeIn reg ann ns klass Dynamic.empty).result = .ok () ∧
          (describeIn reg ann ns klass Dynamic.empty).state = r) ↔
      StandaloneDescribes reg ann ns klass) :=
  ⟨server_answers_iff, standalone_answers_iff⟩

/-- Class 5 in namespace 1, without attributes. -/
def oneClass : Registry Unit :=
  [(1, [(5, {
    fields := [(CLASS, .key 5), (NAMESPACE, .key 1), (PARENT, .key 0)]
    factorySorted := Prototype.noFactory_sorted
    factoryThrows := Prototype.noFactory_throws })])]

def noAnnotations : Annotations := ⟨fun _ _ _ => {}, fun _ _ _ => {}, fun _ _ _ => []⟩

/-- The server does not say that there is no class 5 in namespace 2. -/
theorem describe_ignores_namespace :
    ¬ AnswersFor oneClass noAnnotations 2 5
      ((handleDescribe oneClass noAnnotations (describeRequest 2 5)).result = .ok none)
      fun r => (handleDescribe oneClass noAnnotations (describeRequest 2 5)).result =
        .ok (some r) := by
  intro h
  have hnone : (handleDescribe oneClass noAnnotations (describeRequest 2 5)).result = .ok none := h
  cases ((handleDescribe_some_iff (by decide) rfl none).mp hnone).2

end Locked

end Bison
