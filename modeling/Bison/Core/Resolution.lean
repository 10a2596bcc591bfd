import Bison.Core.Lookup

/-!
# What fields and methods resolve to

A field of an object is its own, or the default of the nearest class that declares it. A lookup
copies the default into the object, and resolves its namespace and class, so it changes the object
that is looked at. It does not change what fields and methods resolve to.

- `Registry.resolve`: what a field resolves to, as a function of the object alone.
- `SameHeader`: the class and the namespace under which an object is looked up.
- `findField_resolve`, `findMethod_resolve`: **main results**, what the lookups give.
- `findField_leaves`, `findMethod_leaves`, `writeField_leaves`: what they leave, and what a write
  leaves.
-/

namespace Bison

open SortedMap

variable {μ : Type}

/-! ## The header of an object -/

/-- `resolveNamespace`, without the write. -/
def namespaceOf (d : Fields) : Except Exn Key := (resolveNamespace d).map Prod.fst

/-- `as<key_t>(CLASS)`, without the write. -/
def classOf (d : Fields) : Except Exn Key := (asKey CLASS d).map Prod.fst

/-- The objects are looked up in the same collection, from the same class on. -/
structure SameHeader (d d' : Fields) : Prop where
  ns : namespaceOf d' = namespaceOf d
  class' : classOf d' = classOf d

theorem SameHeader.refl (d : Fields) : SameHeader d d := ⟨rfl, rfl⟩

theorem SameHeader.trans {d d' d'' : Fields} (h : SameHeader d d') (h' : SameHeader d' d'') :
    SameHeader d d'' :=
  ⟨h'.ns.trans h.ns, h'.class'.trans h.class'⟩

theorem namespaceOf_congr {d d' : Fields} (h : d'.lookup NAMESPACE = d.lookup NAMESPACE) :
    namespaceOf d' = namespaceOf d := by
  unfold namespaceOf resolveNamespace
  rw [h]
  split <;> rfl

theorem classOf_congr {d d' : Fields} (h : d'.lookup CLASS = d.lookup CLASS) :
    classOf d' = classOf d := by
  unfold classOf asKey
  rw [h]
  split <;> rfl

theorem SameHeader.insert {name : Key} (hclass : name ≠ CLASS) (hns : name ≠ NAMESPACE) (v : Value)
    (d : Fields) : SameHeader d (insert name v d) :=
  ⟨namespaceOf_congr (lookup_insert_ne v hns.symm d),
    classOf_congr (lookup_insert_ne v hclass.symm d)⟩

theorem namespaceOf_key {d : Fields} {ns : Key} (h : keyAt d NAMESPACE = some ns) :
    namespaceOf d = .ok ns := by
  unfold namespaceOf resolveNamespace
  rw [keyAt_eq_some_iff.mp h]
  rfl

theorem classOf_key {d : Fields} {c : Key} (h : keyAt d CLASS = some c) : classOf d = .ok c := by
  unfold classOf
  rw [asKey_of_keyAt h]
  rfl

theorem resolveNamespace_header {d d' : Fields} {ns : Key}
    (h : resolveNamespace d = .ok (ns, d')) :
    SameHeader d d' ∧ namespaceOf d = .ok ns ∧ keyAt d' NAMESPACE = some ns ∧
      ∀ k, k ≠ NAMESPACE → d'.lookup k = d.lookup k := by
  have hns : namespaceOf d = .ok ns := by
    rw [namespaceOf, h]
    rfl
  unfold resolveNamespace at h
  split at h
  · next hown =>
    cases h
    exact ⟨.refl d, hns, by rw [keyAt, hown], fun _ _ => rfl⟩
  · cases h
    refine ⟨⟨?_, classOf_congr (lookup_insert_ne _ CLASS_ne_NAMESPACE d)⟩, hns, ?_,
      fun k hk => lookup_insert_ne _ hk d⟩
    · rw [hns]
      exact namespaceOf_key (by rw [keyAt_insert, if_pos rfl])
    · rw [keyAt_insert, if_pos rfl]
  · cases h
    refine ⟨⟨?_, classOf_congr (lookup_insert_ne _ CLASS_ne_NAMESPACE d)⟩, hns, ?_,
      fun k hk => lookup_insert_ne _ hk d⟩
    · rw [hns]
      exact namespaceOf_key (by rw [keyAt_insert, if_pos rfl])
    · rw [keyAt_insert, if_pos rfl]
  · cases h

theorem asKey_header {d d' : Fields} {c : Key} (h : asKey CLASS d = .ok (c, d')) :
    SameHeader d d' ∧ classOf d = .ok c ∧ ∀ k, k ≠ CLASS → d'.lookup k = d.lookup k := by
  have hc : classOf d = .ok c := by
    rw [classOf, h]
    rfl
  unfold asKey at h
  split at h
  · cases h
    refine ⟨⟨namespaceOf_congr (lookup_insert_ne _ CLASS_ne_NAMESPACE.symm d), ?_⟩, hc,
      fun k hk => lookup_insert_ne _ hk d⟩
    rw [hc]
    exact classOf_key (by rw [keyAt_insert, if_pos rfl])
  · cases h
    refine ⟨⟨namespaceOf_congr (lookup_insert_ne _ CLASS_ne_NAMESPACE.symm d), ?_⟩, hc,
      fun k hk => lookup_insert_ne _ hk d⟩
    rw [hc]
    exact classOf_key (by rw [keyAt_insert, if_pos rfl])
  · cases h
    exact ⟨.refl d, hc, fun _ _ => rfl⟩
  · cases h

/-- Where a walk along the class chain starts, without the writes. -/
def Registry.startOf (reg : Registry μ) (d : Fields) :
    Except Exn (Option (Collection μ × Key)) := do
  let ns ← namespaceOf d
  match reg.lookup ns with
  | none => .ok none
  | some col =>
    let c ← classOf d
    .ok (some (col, c))

theorem Registry.startOf_congr (reg : Registry μ) {d d' : Fields} (h : SameHeader d d') :
    reg.startOf d' = reg.startOf d := by
  unfold Registry.startOf
  rw [h.ns, h.class']

theorem walkStart_start (reg : Registry μ) (d : Fields) :
    (walkStart reg d).map Prod.fst = reg.startOf d := by
  unfold walkStart Registry.startOf
  cases hns : resolveNamespace d with
  | error e =>
    have hof : namespaceOf d = .error e := by
      rw [namespaceOf, hns]
      rfl
    rw [hof]
    rfl
  | ok r =>
    obtain ⟨ns, d₁⟩ := r
    obtain ⟨hheader, hof, -, -⟩ := resolveNamespace_header hns
    rw [hof]
    simp only [Decoder.ok_bind]
    cases reg.lookup ns with
    | none => rfl
    | some col =>
      simp only
      rw [← hheader.class', classOf]
      cases asKey CLASS d₁ <;> rfl

/-- The start of a walk leaves the header and every other field. -/
theorem walkStart_header {reg : Registry μ} {d d' : Fields} {r : Option (Collection μ × Key)}
    (h : walkStart reg d = .ok (r, d')) :
    SameHeader d d' ∧ ∀ k, k ≠ NAMESPACE → k ≠ CLASS → d'.lookup k = d.lookup k := by
  unfold walkStart at h
  cases hns : resolveNamespace d with
  | error e =>
    rw [hns, Decoder.error_bind] at h
    cases h
  | ok resolved =>
    obtain ⟨ns, d₁⟩ := resolved
    obtain ⟨hheader, -, -, hsame⟩ := resolveNamespace_header hns
    simp only [hns, Decoder.ok_bind] at h
    cases hcol : reg.lookup ns with
    | none =>
      simp only [hcol] at h
      cases h
      exact ⟨hheader, fun k hk _ => hsame k hk⟩
    | some col =>
      cases hclass : asKey CLASS d₁ with
      | error e =>
        simp only [hcol, hclass, Decoder.error_bind] at h
        cases h
      | ok found =>
        obtain ⟨c, d₂⟩ := found
        obtain ⟨hheader', -, hsame'⟩ := asKey_header hclass
        simp only [hcol, hclass, Decoder.ok_bind] at h
        cases h
        exact ⟨hheader.trans hheader', fun k hk hk' => (hsame' k hk').trans (hsame k hk)⟩

/-! ## Fields -/

/-- The field `k` of the object: its own, or that of the nearest class that declares it. -/
def Registry.resolve (reg : Registry μ) (d : Fields) (k : Key) : Except Exn (Option Value) :=
  match d.lookup k with
  | some v => .ok (some v)
  | none => do
    match ← reg.startOf d with
    | none => .ok none
    | some (col, c) =>
      match col.search (fun p => p.fields.lookup k) c with
      | none => .error .diverges
      | some inherited => .ok inherited

theorem Registry.resolve_congr (reg : Registry μ) {d d' : Fields} {k : Key} (h : SameHeader d d')
    (hk : d'.lookup k = d.lookup k) : reg.resolve d' k = reg.resolve d k := by
  unfold Registry.resolve
  rw [hk, reg.startOf_congr h]

theorem Registry.resolve_own (reg : Registry μ) {d : Fields} {k : Key} {v : Value}
    (h : d.lookup k = some v) : reg.resolve d k = .ok (some v) := by
  unfold Registry.resolve
  rw [h]

/-- `findField` finds what the field resolves to. -/
theorem findField_resolve (reg : Registry μ) {k : Key} (hns : k ≠ NAMESPACE) (hclass : k ≠ CLASS)
    (d : Fields) : (findField reg k d).map Prod.fst = reg.resolve d k := by
  cases hown : d.lookup k with
  | some v =>
    rw [reg.resolve_own hown, findField, hown]
    rfl
  | none =>
    unfold Registry.resolve
    rw [hown, findField_of_none reg hown, ← walkStart_start]
    cases hstart : walkStart reg d with
    | error e => rfl
    | ok r =>
      obtain ⟨start, d₁⟩ := r
      have hnone : d₁.lookup k = none := ((walkStart_header hstart).2 k hns hclass).trans hown
      rcases start with _ | ⟨col, c⟩
      · show Except.ok (d₁.lookup k) = .ok none
        rw [hnone]
      · simp only [Except.map, Decoder.ok_bind]
        cases col.search (fun p => p.fields.lookup k) c with
        | none => rfl
        | some inherited =>
          cases inherited with
          | none =>
            simp only
            rw [hnone]
          | some v =>
            simp only [insertNew, hnone]
            exact congrArg Except.ok (lookup_insert_self k v d₁)

/-- The start of a walk has written the namespace, and the class where the walk goes on. -/
theorem walkStart_settles {reg : Registry μ} {d d' : Fields} {r : Option (Collection μ × Key)}
    (h : walkStart reg d = .ok (r, d')) :
    (d'.lookup NAMESPACE).isSome ∧ (r.isSome → (d'.lookup CLASS).isSome) := by
  unfold walkStart at h
  cases hns : resolveNamespace d with
  | error e =>
    rw [hns, Decoder.error_bind] at h
    cases h
  | ok resolved =>
    obtain ⟨ns, d₁⟩ := resolved
    obtain ⟨-, -, hkey, -⟩ := resolveNamespace_header hns
    simp only [hns, Decoder.ok_bind] at h
    cases hcol : reg.lookup ns with
    | none =>
      simp only [hcol] at h
      cases h
      rw [keyAt_eq_some_iff.mp hkey]
      exact ⟨rfl, fun hr => by cases hr⟩
    | some col' =>
      cases hclass : asKey CLASS d₁ with
      | error e =>
        simp only [hcol, hclass, Decoder.error_bind] at h
        cases h
      | ok found =>
        obtain ⟨c', d₂⟩ := found
        obtain ⟨hkeeps, hkey'⟩ := asKey_keeps hclass
        simp only [hcol, hclass, Decoder.ok_bind] at h
        cases h
        rw [keyAt_eq_some_iff.mp hkey', keyAt_eq_some_iff.mp (hkeeps.keyAt _ _ hkey)]
        exact ⟨rfl, fun _ => rfl⟩

/-- A lookup leaves the header and every other field, and the field as it is found. -/
structure LeftBy (reg : Registry μ) (k : Key) (d d' : Fields) : Prop where
  header : SameHeader d d'
  others : ∀ k', k' ≠ k → k' ≠ NAMESPACE → k' ≠ CLASS → d'.lookup k' = d.lookup k'
  /-- The field is the object's own afterwards, or still nobody's. -/
  itself : k ≠ NAMESPACE → k ≠ CLASS → reg.resolve d k = .ok (d'.lookup k)

theorem findField_leaves {reg : Registry μ} {k : Key} {d d' : Fields} {r : Option Value}
    (h : findField reg k d = .ok (r, d')) : LeftBy reg k d d' := by
  have hitself (hns : k ≠ NAMESPACE) (hclass : k ≠ CLASS) :
      reg.resolve d k = .ok (d'.lookup k) := by
    rw [← findField_resolve reg hns hclass d, h, (findField_keeps h).2]
    rfl
  suffices hframe : SameHeader d d' ∧
      ∀ k', k' ≠ k → k' ≠ NAMESPACE → k' ≠ CLASS → d'.lookup k' = d.lookup k' from
    ⟨hframe.1, hframe.2, hitself⟩
  cases hown : d.lookup k with
  | some v =>
    rw [findField, hown] at h
    cases h
    exact ⟨.refl d, fun _ _ _ _ => rfl⟩
  | none =>
    rw [findField_of_none reg hown] at h
    cases hstart : walkStart reg d with
    | error e =>
      rw [hstart, Decoder.error_bind] at h
      cases h
    | ok w =>
      rw [hstart, Decoder.ok_bind] at h
      obtain ⟨start, d₁⟩ := w
      obtain ⟨hheader, hsame⟩ := walkStart_header hstart
      rcases start with _ | ⟨col, c⟩
      · cases h
        exact ⟨hheader, fun k' _ => hsame k'⟩
      · simp only at h
        split at h
        · cases h
        · cases h
          exact ⟨hheader, fun k' _ => hsame k'⟩
        · next v _ =>
          cases h
          obtain ⟨hns, hclass⟩ := walkStart_settles hstart
          unfold insertNew
          split_ifs with hset
          · exact ⟨hheader, fun k' _ => hsame k'⟩
          · -- The class and the namespace are there, so it is another field that is new.
            refine ⟨hheader.trans (.insert ?_ ?_ v d₁), fun k' hne hns hclass => ?_⟩
            · rintro rfl
              exact hset (hclass rfl)
            · rintro rfl
              exact hset hns
            · rw [lookup_insert_ne v hne, hsame k' hns hclass]

namespace LeftBy

variable {reg : Registry μ} {k : Key} {d d' : Fields}

/-- Every field resolves to what it resolved to. -/
theorem resolve (h : LeftBy reg k d d') {k' : Key} (hns : k' ≠ NAMESPACE) (hclass : k' ≠ CLASS) :
    reg.resolve d' k' = reg.resolve d k' := by
  by_cases hk : k' = k
  · subst hk
    cases hset : d'.lookup k' with
    | some v => rw [reg.resolve_own hset, h.itself hns hclass, hset]
    | none =>
      have hgone : d.lookup k' = none := by
        cases hown : d.lookup k' with
        | none => rfl
        | some v =>
          have hsame := h.itself hns hclass
          rw [reg.resolve_own hown, hset] at hsame
          cases hsame
      exact reg.resolve_congr h.header (hset.trans hgone.symm)
  · exact reg.resolve_congr h.header (h.others k' hk hns hclass)

end LeftBy

/-- The namespace is always found. -/
theorem findField_namespace {reg : Registry μ} {d d' : Fields} {r : Option Value}
    (h : findField reg NAMESPACE d = .ok (r, d')) : r.isSome := by
  cases hown : d.lookup NAMESPACE with
  | some v =>
    rw [findField, hown] at h
    cases h
    rfl
  | none =>
    rw [findField_of_none reg hown] at h
    cases hstart : walkStart reg d with
    | error e =>
      rw [hstart, Decoder.error_bind] at h
      cases h
    | ok w =>
      rw [hstart, Decoder.ok_bind] at h
      obtain ⟨start, d₁⟩ := w
      have hns := (walkStart_settles hstart).1
      rcases start with _ | ⟨col, c⟩
      · cases h
        exact hns
      · simp only at h
        split at h
        · cases h
        · cases h
          exact hns
        · cases h
          unfold insertNew
          rw [if_pos hns]
          exact hns

/-- A write leaves the header and every other field. -/
structure WrittenBy (k : Key) (v : Value) (d d' : Fields) : Prop where
  itself : d'.lookup k = some v
  others : ∀ k', k' ≠ k → k' ≠ NAMESPACE → k' ≠ CLASS → d'.lookup k' = d.lookup k'
  ns : k ≠ NAMESPACE → namespaceOf d' = namespaceOf d
  class' : k ≠ CLASS → classOf d' = classOf d

theorem WrittenBy.header {k : Key} {v : Value} {d d' : Fields} (h : WrittenBy k v d d')
    (hns : k ≠ NAMESPACE) (hclass : k ≠ CLASS) : SameHeader d d' := ⟨h.ns hns, h.class' hclass⟩

theorem WrittenBy.insert (k : Key) (v : Value) (d : Fields) : WrittenBy k v d (insert k v d) where
  itself := lookup_insert_self k v d
  others _ hk _ _ := lookup_insert_ne v hk d
  ns hns := namespaceOf_congr (lookup_insert_ne v hns.symm d)
  class' hclass := classOf_congr (lookup_insert_ne v hclass.symm d)

theorem writeField_leaves {reg : Registry μ} {k : Key} {v : Value} {d d' : Fields}
    (h : writeField reg k v d = .ok ((), d')) : WrittenBy k v d d' := by
  obtain ⟨old, d₁, hsub, hput⟩ := Decoder.bind_eq_ok.1 h
  obtain ⟨found, d₂, hfind, hadd⟩ := Decoder.bind_eq_ok.1 hsub
  cases hput
  have hleft := findField_leaves hfind
  have hwritten := WrittenBy.insert k v d₁
  cases found with
  | some f =>
    cases hadd
    exact ⟨hwritten.itself,
      fun k' hk hns hclass => (hwritten.others k' hk hns hclass).trans
        (hleft.others k' hk hns hclass),
      fun hns => (hwritten.ns hns).trans hleft.header.ns,
      fun hclass => (hwritten.class' hclass).trans hleft.header.class'⟩
  | none =>
    cases hadd
    have hempty := WrittenBy.insert k .monostate d₂
    exact ⟨hwritten.itself,
      fun k' hk hns hclass => (hwritten.others k' hk hns hclass).trans
        ((hempty.others k' hk hns hclass).trans (hleft.others k' hk hns hclass)),
      fun hns => (hwritten.ns hns).trans ((hempty.ns hns).trans hleft.header.ns),
      fun hclass => (hwritten.class' hclass).trans
        ((hempty.class' hclass).trans hleft.header.class')⟩

/-! ## Where lookups succeed -/

/-- The class and the namespace of the object can be read. -/
def Resolvable (d : Fields) : Prop := (∃ ns, namespaceOf d = .ok ns) ∧ ∃ c, classOf d = .ok c

theorem Resolvable.congr {d d' : Fields} (h : Resolvable d) (hsame : SameHeader d d') :
    Resolvable d' := by
  unfold Resolvable
  rw [hsame.ns, hsame.class']
  exact h

theorem Resolvable.startOf (reg : Registry μ) {d : Fields} (h : Resolvable d) :
    ∃ start, reg.startOf d = .ok start := by
  obtain ⟨⟨ns, hns⟩, c, hc⟩ := h
  unfold Registry.startOf
  simp only [hns, hc, Decoder.ok_bind]
  cases reg.lookup ns with
  | none => exact ⟨none, rfl⟩
  | some col => exact ⟨some (col, c), rfl⟩

theorem Resolvable.walkStart (reg : Registry μ) {d : Fields} (h : Resolvable d) :
    ∃ start d', Bison.walkStart reg d = .ok (start, d') := by
  obtain ⟨start, hstart⟩ := h.startOf reg
  rw [← walkStart_start] at hstart
  cases hw : Bison.walkStart reg d with
  | error e =>
    rw [hw] at hstart
    cases hstart
  | ok r => exact ⟨r.1, r.2, rfl⟩

/-- In an acyclic registry a lookup in such an object ends with an answer. -/
theorem Resolvable.findField {reg : Registry μ} (hreg : reg.Acyclic) {d : Fields}
    (h : Resolvable d) (k : Key) : ∃ r d', Bison.findField reg k d = .ok (r, d') := by
  cases hown : d.lookup k with
  | some v => exact ⟨some v, d, by rw [Bison.findField, hown]⟩
  | none =>
    obtain ⟨start, d₁, hstart⟩ := h.walkStart reg
    rw [findField_of_none reg hown, hstart, Decoder.ok_bind]
    rcases start with _ | ⟨col, c⟩
    · exact ⟨_, d₁, rfl⟩
    · obtain ⟨ns, hcol⟩ := walkStart_ok hstart
      have hends := hreg.search_isSome (fun p => p.fields.lookup k) hcol c
      obtain ⟨inherited, hsearch⟩ := Option.isSome_iff_exists.1 hends
      simp only [hsearch]
      cases inherited with
      | none => exact ⟨_, d₁, rfl⟩
      | some v => exact ⟨_, _, rfl⟩

theorem Resolvable.subscript {reg : Registry μ} (hreg : reg.Acyclic) {d : Fields}
    (h : Resolvable d) (k : Key) : ∃ v d', Bison.subscript reg k d = .ok (v, d') := by
  obtain ⟨r, d₁, hfind⟩ := h.findField hreg k
  rw [Bison.subscript, Decoder.bind_ok hfind]
  cases r with
  | some v => exact ⟨v, d₁, rfl⟩
  | none => exact ⟨.monostate, _, rfl⟩

/-- A write of a field other than the class. The namespace it writes, if it does, is one that
another object has. -/
theorem Resolvable.writeField {reg : Registry μ} (hreg : reg.Acyclic) {d other : Fields}
    (h : Resolvable d) {k : Key} (hclass : k ≠ CLASS) {v : Value}
    (hother : Resolvable other) (hv : other.lookup k = some v) :
    ∃ d', Bison.writeField reg k v d = .ok ((), d') ∧ Resolvable d' := by
  obtain ⟨old, d₁, hsub⟩ := h.subscript hreg k
  have hwrite : Bison.writeField reg k v d = .ok ((), insert k v d₁) := by
    rw [Bison.writeField, Decoder.bind_ok hsub]
  have hwritten := writeField_leaves hwrite
  refine ⟨insert k v d₁, hwrite, ?_, ?_⟩
  · by_cases hns : k = NAMESPACE
    · subst hns
      rw [namespaceOf_congr (hwritten.itself.trans hv.symm)]
      exact hother.1
    · rw [hwritten.ns hns]
      exact h.1
  · rw [hwritten.class' hclass]
    exact h.2

/-! ## Methods -/

/-- The method `k` of the object: its own or cached one, or that of the nearest class. -/
def Registry.resolveMethod (reg : Registry μ) (d : Fields) (methods : List (Key × μ)) (k : Key) :
    Except Exn (Option μ) :=
  match methods.lookup k with
  | some m => .ok (some m)
  | none => do
    match ← reg.startOf d with
    | none => .ok none
    | some (col, c) =>
      match col.search (fun p => p.methods.lookup k) c with
      | none => .error .diverges
      | some inherited => .ok inherited

theorem Registry.resolveMethod_congr (reg : Registry μ) {d d' : Fields}
    {methods methods' : List (Key × μ)} {k : Key} (h : SameHeader d d')
    (hk : methods'.lookup k = methods.lookup k) :
    reg.resolveMethod d' methods' k = reg.resolveMethod d methods k := by
  unfold Registry.resolveMethod
  rw [hk, reg.startOf_congr h]

theorem Registry.resolveMethod_own (reg : Registry μ) {methods : List (Key × μ)} {k : Key} {m : μ}
    (h : methods.lookup k = some m) (d : Fields) :
    reg.resolveMethod d methods k = .ok (some m) := by
  unfold Registry.resolveMethod
  rw [h]

/-- `findMethod` finds what the method resolves to. -/
theorem findMethod_resolve (reg : Registry μ) (k : Key) (methods : List (Key × μ)) (d : Fields) :
    (findMethod reg k methods d).map (fun r => r.1.1) = reg.resolveMethod d methods k := by
  unfold findMethod Registry.resolveMethod
  cases methods.lookup k with
  | some m => rfl
  | none =>
    simp only
    rw [← walkStart_start]
    cases hstart : walkStart reg d with
    | error e => rfl
    | ok w =>
      obtain ⟨start, d₁⟩ := w
      rcases start with _ | ⟨col, c⟩
      · rfl
      · simp only [Except.map, Decoder.ok_bind]
        cases col.search (fun p => p.methods.lookup k) c with
        | none => rfl
        | some inherited => cases inherited <;> rfl

/-- Looking up a method leaves every field that is not of the header, and what every method
resolves to. -/
theorem findMethod_leaves {reg : Registry μ} {k : Key} {methods methods' : List (Key × μ)}
    {d d' : Fields} {r : Option μ} (h : findMethod reg k methods d = .ok ((r, methods'), d')) :
    SameHeader d d' ∧ (∀ k', k' ≠ NAMESPACE → k' ≠ CLASS → d'.lookup k' = d.lookup k') ∧
      ∀ k', reg.resolveMethod d' methods' k' = reg.resolveMethod d methods k' := by
  have hresolve := findMethod_resolve reg k methods d
  rw [h] at hresolve
  unfold findMethod at h
  cases hown : methods.lookup k with
  | some m =>
    rw [hown] at h
    cases h
    exact ⟨.refl d, fun _ _ _ => rfl, fun _ => rfl⟩
  | none =>
    simp only [hown] at h
    cases hstart : walkStart reg d with
    | error e =>
      rw [hstart, Decoder.error_bind] at h
      cases h
    | ok w =>
      rw [hstart, Decoder.ok_bind] at h
      obtain ⟨start, d₁⟩ := w
      obtain ⟨hheader, hsame⟩ := walkStart_header hstart
      rcases start with _ | ⟨col, c⟩
      · cases h
        exact ⟨hheader, hsame, fun _ => reg.resolveMethod_congr hheader rfl⟩
      · simp only at h
        split at h
        · cases h
        · cases h
          exact ⟨hheader, hsame, fun _ => reg.resolveMethod_congr hheader rfl⟩
        · next m _ =>
          cases h
          refine ⟨hheader, hsame, fun k' => ?_⟩
          by_cases hk : k' = k
          · subst hk
            rw [reg.resolveMethod_own (lookup_insert_self k' m methods)]
            exact hresolve
          · exact reg.resolveMethod_congr hheader (lookup_insert_ne m hk methods)

/-! ## Lookups that change nothing -/

/-- What the classes of an object of class `c` in namespace `ns` declare, nearest first. -/
def Registry.inherited (reg : Registry μ) {β : Type} (p : Prototype μ → Option β) (ns c : Key) :
    Option (Option β) :=
  match reg.lookup ns with
  | none => some none
  | some col => col.search p c

theorem walkStart_keyed {reg : Registry μ} {d : Fields} {c ns : Key} (hc : keyAt d CLASS = some c)
    (hns : keyAt d NAMESPACE = some ns) :
    walkStart reg d = .ok ((reg.lookup ns).map fun col => (col, c), d) := by
  have hresolve : resolveNamespace d = .ok (ns, d) := by
    rw [resolveNamespace, keyAt_eq_some_iff.mp hns]
  simp only [walkStart, hresolve, Decoder.ok_bind]
  cases reg.lookup ns with
  | none => rfl
  | some col => simp only [asKey_of_keyAt hc, Decoder.ok_bind, Option.map_some]

theorem findField_settled {reg : Registry μ} {d : Fields} {c ns k : Key}
    (hc : keyAt d CLASS = some c) (hns : keyAt d NAMESPACE = some ns)
    (h : (d.lookup k).isSome ∨
      reg.inherited (fun p => p.fields.lookup k) ns c = some none) :
    findField reg k d = .ok (d.lookup k, d) := by
  cases hown : d.lookup k with
  | some v =>
    unfold findField
    rw [hown]
  | none =>
    have hnone : reg.inherited (fun p => p.fields.lookup k) ns c = some none := by
      simpa [hown] using h
    rw [findField_of_none reg hown, walkStart_keyed hc hns, Decoder.ok_bind]
    unfold Registry.inherited at hnone
    cases hcol : reg.lookup ns with
    | none => simp only [Option.map_none, hown]
    | some col =>
      have hsearch : col.search (fun p => p.fields.lookup k) c = some none := by
        simpa only [hcol] using hnone
      simp only [Option.map_some, hsearch, hown]

theorem findMethod_none {reg : Registry μ} {d : Fields} {methods : List (Key × μ)} {c ns k : Key}
    (hc : keyAt d CLASS = some c) (hns : keyAt d NAMESPACE = some ns)
    (hown : methods.lookup k = none)
    (h : reg.inherited (fun p => p.methods.lookup k) ns c = some none) :
    findMethod reg k methods d = .ok ((none, methods), d) := by
  simp only [findMethod, hown, walkStart_keyed hc hns, Decoder.ok_bind]
  unfold Registry.inherited at h
  cases hcol : reg.lookup ns with
  | none => rfl
  | some col =>
    have hsearch : col.search (fun p => p.methods.lookup k) c = some none := by
      simpa only [hcol] using h
    simp only [Option.map_some, hsearch]

theorem findMethod_own (reg : Registry μ) {methods : List (Key × μ)} {k : Key} {m : μ}
    (h : methods.lookup k = some m) (d : Fields) :
    findMethod reg k methods d = .ok ((some m, methods), d) := by
  simp only [findMethod, h]

end Bison
