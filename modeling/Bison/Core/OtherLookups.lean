import Bison.Core.CachedLookup

/-!
# What a lookup leaves of other lookups

A lookup writes keys that were absent, and copies one default. So other lookups find what they
found, and where neither an object nor its classes have an object in a field, none is found there.

- `Steady S k m m'`: for lookups of `k` the objects `S` are as they were.
- `FindsNoObject m p k`: a lookup of `k` in `p` finds no object.
- `FindsNoObject.steady`: that is so afterwards too.
- `findField_steady`, `subscript_steady`: **main result**, a lookup changes no other one, and finds
  no object where there is none.
-/

namespace Bison

namespace Memory

open Program

/-- The keys that a lookup needs. -/
def HeaderKey (k : Key) : Prop := k = NAMESPACE ∨ k = CLASS ∨ k = PARENT

/-- There is no object in the node. -/
def Plain (m : Memory) (n : Node) : Prop := ∀ q, m.content n ≠ .object q

/-- For lookups of `k` the objects `S` are as they were: what has been written there is no
object. -/
structure Steady (S : Ptr → Prop) (k : Key) (m m' : Memory) : Prop where
  classes : m'.classes = m.classes
  keys : ∀ q l, S q → HeaderKey l → m'.keyOf q l = m.keyOf q l
  stays : ∀ q n, S q → (m.object q).fields.lookup k = some n →
    (m'.object q).fields.lookup k = some n ∧ (m'.content n = m.content n ∨ m'.Plain n)
  added : ∀ q n, S q → (m.object q).fields.lookup k = none →
    (m'.object q).fields.lookup k = some n → m'.Plain n
  missed : ∀ q, S q → ¬ HeaderKey k → (m.object q).lookup.lookup k = some none →
    (m'.object q).lookup.lookup k = some none

/-- A lookup of the field finds no object: neither the object has one there, nor the nearest class
that declares the field, if the lookup gets there. -/
structure FindsNoObject (m : Memory) (p : Ptr) (k : Key) : Prop where
  own : ∀ n, (m.object p).fields.lookup k = some n → m.Plain n
  inherited : (m.object p).fields.lookup k = none → (m.object p).lookup.lookup k ≠ some none →
    k ≠ NAMESPACE → ∀ n, m.Default p k (some n) → m.Plain n

variable {m m' m'' : Memory} {S : Ptr → Prop} {p q r : Ptr} {k name : Key} {n : Node} {depth : Nat}

theorem Fills.headerKey (h : m.Fills p q k) : HeaderKey k := by
  rcases h with ⟨-, hk | hk⟩ | ⟨-, hk⟩
  · exact .inl hk
  · exact .inr (.inl hk)
  · exact .inr (.inr hk)

theorem Plain.of_content (h : m.Plain n) (hn : m'.content n = m.content n) : m'.Plain n :=
  fun q hq => h q (hn.symm.trans hq)

theorem plain_of_eq {v : Value} (hn : m.content n = .plain v) : m.Plain n :=
  fun _ hq => by cases hn.symm.trans hq

theorem keyOf_congr (hk : (m'.object q).fields.lookup k = (m.object q).fields.lookup k)
    (hcontent : ∀ n, (m.object q).fields.lookup k = some n → m'.content n = m.content n) :
    m'.keyOf q k = m.keyOf q k := by
  cases hn : (m.object q).fields.lookup k with
  | none =>
    unfold Memory.keyOf
    rw [hk, hn]
  | some n => rw [keyOf_some hn, keyOf_some (hk.trans hn), hcontent n hn]

/-! ## Steady memories -/

theorem Steady.refl (S : Ptr → Prop) (k : Key) (m : Memory) : Steady S k m m :=
  ⟨rfl, fun _ _ _ _ => rfl, fun _ _ _ hn => ⟨hn, .inl rfl⟩,
    fun _ _ _ hnone hn => (nomatch hnone.symm.trans hn), fun _ _ _ h => h⟩

theorem Steady.absent (h : Steady S k m m') (hq : S q)
    (hnone : (m'.object q).fields.lookup k = none) : (m.object q).fields.lookup k = none := by
  cases hold : (m.object q).fields.lookup k with
  | none => rfl
  | some n => cases hnone.symm.trans (h.stays q n hq hold).1

theorem Steady.kept (h : Steady S k m m') (hq : S q)
    (hn : (m'.object q).fields.lookup k = some n) :
    m'.Plain n ∨ (m.object q).fields.lookup k = some n ∧ m'.content n = m.content n := by
  cases hold : (m.object q).fields.lookup k with
  | none => exact .inl (h.added q n hq hold hn)
  | some n₀ =>
    obtain ⟨hn₀, hcontent⟩ := h.stays q n₀ hq hold
    cases hn.symm.trans hn₀
    exact hcontent.symm.imp_right fun hsame => ⟨rfl, hsame⟩

/-- A node without an object is one afterwards. -/
theorem Steady.plain (h : Steady S k m m') (hq : S q)
    (hn : (m.object q).fields.lookup k = some n) (hplain : m.Plain n) : m'.Plain n :=
  (h.stays q n hq hn).2.elim hplain.of_content id

theorem Steady.trans (h : Steady S k m m') (h' : Steady S k m' m'') : Steady S k m m'' := by
  refine ⟨h'.classes.trans h.classes, fun q l hq hl => (h'.keys q l hq hl).trans (h.keys q l hq hl),
    fun q n hq hn => ?_, fun q n hq hnone hn => ?_,
    fun q hq hk hmiss => h'.missed q hq hk (h.missed q hq hk hmiss)⟩
  · obtain ⟨hn', hcontent⟩ := h.stays q n hq hn
    refine ⟨(h'.stays q n hq hn').1, ?_⟩
    rcases hcontent with hsame | hplain
    · exact (h'.stays q n hq hn').2.imp_left fun hsame' => hsame'.trans hsame
    · exact .inr (h'.plain hq hn' hplain)
  · rcases h'.kept hq hn with hplain | ⟨hn', hsame⟩
    · exact hplain
    · exact (h.added q n hq hnone hn').of_content hsame

theorem Looked.steady (h : m.Looked p m') (S : Ptr → Prop) (k : Key) : Steady S k m m' := by
  refine ⟨h.classes, fun q l _ _ => h.keyOf q l, fun q n _ hn => ?_,
    fun q n _ hnone hn => plain_of_eq (h.filled q k n hnone hn).2,
    fun q _ hk => h.missed q k fun hfills => hk hfills.headerKey⟩
  obtain ⟨hn', hcontent⟩ := h.kept q k n hn
  exact ⟨hn', hcontent.imp_right fun hkey => plain_of_eq hkey.2.2⟩

/-- Objects that are what they were, with the nodes that they have. -/
theorem steady_of_same (hclasses : m'.classes = m.classes)
    (hobject : ∀ q, S q → (m'.object q).fields = (m.object q).fields)
    (hcontent : ∀ q l n, S q → (m.object q).fields.lookup l = some n → m'.content n = m.content n)
    (hmissed : ∀ q, S q → (m.object q).lookup.lookup k = some none →
      (m'.object q).lookup.lookup k = some none) : Steady S k m m' := by
  refine ⟨hclasses, fun q l hq _ => ?_, fun q n hq hn => ?_, fun q n hq hnone hn => ?_,
    fun q hq _ => hmissed q hq⟩
  · exact keyOf_congr (congrArg (FinMap.lookup l) (hobject q hq)) fun n => hcontent q l n hq
  · rw [hobject q hq]
    exact ⟨hn, .inl (hcontent q k n hq hn)⟩
  · rw [hobject q hq, hnone] at hn
    cases hn

theorem Extends.steady (h : m.Extends (fun _ => False) m') (hm : m.Valid)
    (hS : ∀ q, S q → q < m.objects) (k : Key) : Steady S k m m' := by
  have hobject (q : Ptr) (hq : S q) : m'.object q = m.object q := h.object q (hS q hq) id
  refine steady_of_same h.classes (fun q hq => congrArg Dyn.fields (hobject q hq))
    (fun q l n _ hn => h.content n (hm.node q l n hn)) fun q hq hmiss => ?_
  rw [hobject q hq]
  exact hmiss

/-- The field `name` is added to `p`. -/
theorem steady_withField (hm : m.Valid) (hk : S p → k ≠ name) (hname : ¬ HeaderKey name)
    {c : Content} : Steady S k m (m.withField p name c) := by
  have hlookup {q : Ptr} {l : Key} (hl : ¬ (q = p ∧ l = name)) :
      ((m.withField p name c).object q).fields.lookup l = (m.object q).fields.lookup l := by
    rw [lookup_withField, if_neg hl]
  have hcontent {q : Ptr} {l : Key} {n : Node} (hn : (m.object q).fields.lookup l = some n) :
      (m.withField p name c).content n = m.content n := by
    rw [content_withField, if_neg (hm.node q l n hn).ne]
  have hother {q : Ptr} (hq : S q) : ¬ (q = p ∧ k = name) := fun heq => hk (heq.1 ▸ hq) heq.2
  refine ⟨rfl, fun q l _ hl => ?_, fun q n hq hn => ?_, fun q n hq hnone hn => ?_,
    fun q _ _ hmiss => ?_⟩
  · exact keyOf_congr (hlookup fun heq => hname (heq.2 ▸ hl)) fun _ => hcontent
  · rw [hlookup (hother hq)]
    exact ⟨hn, .inl (hcontent hn)⟩
  · rw [hlookup (hother hq), hnone] at hn
    cases hn
  · rw [cache_withField]
    exact hmiss

/-- The field `name` of `p` is remembered. -/
theorem steady_withCache (hk : S p → k ≠ name) (found : Option Node) :
    Steady S k m (m.withCache p ((m.object p).lookup.insert name found)) := by
  refine steady_of_same rfl (fun q _ => fields_withCache m p q _) (fun _ _ _ _ _ => rfl)
    fun q hq hmiss => ?_
  unfold withCache
  rw [object_setObject]
  split_ifs with heq
  · rw [FinMap.lookup_insert, if_neg (hk (heq ▸ hq))]
    exact heq ▸ hmiss
  · exact hmiss

/-- The nearest class is the same, and if it has got an object in the field, it had it before. -/
theorem Steady.nearest (h : Steady S k m m') {col : List (Key × Ptr)}
    (hclass : ∀ klass proto, col.lookup klass = some proto → S proto) {klass : Key}
    {found : Option Node} (hfound : m'.Nearest col k klass found) (n : Node)
    (hn : found = some n) :
    m'.Plain n ∨ m.Nearest col k klass (some n) ∧ m'.content n = m.content n := by
  induction hfound with
  | outside _ => cases hn
  | @declared klass proto n' hcol hname =>
    cases hn
    rcases h.kept (hclass klass proto hcol) hname with hplain | ⟨hold, hsame⟩
    · exact .inl hplain
    · exact .inr ⟨.declared hcol hold, hsame⟩
  | @inherited klass parent proto found hcol hname hparent _ ih =>
    have hproto := hclass klass proto hcol
    rw [h.keys proto PARENT hproto (.inr (.inr rfl))] at hparent
    exact (ih hn).imp_right fun ⟨hnearest, hsame⟩ =>
      ⟨.inherited hcol (h.absent hproto hname) hparent hnearest, hsame⟩

theorem Steady.default (h : Steady S k m m') (hp : S p) (hclass : ∀ q, m.IsClass q → S q)
    (hn : m'.Default p k (some n)) :
    m'.Plain n ∨ m.Default p k (some n) ∧ m'.content n = m.content n := by
  cases hn with
  | @nearest ns klass col _ hns hcol hklass hnearest =>
    rw [h.keys p NAMESPACE hp (.inl rfl)] at hns
    rw [h.keys p CLASS hp (.inr (.inl rfl))] at hklass
    rw [h.classes] at hcol
    exact (h.nearest (fun klass proto hproto => hclass proto ⟨ns, col, klass, hcol, hproto⟩)
      hnearest n rfl).imp_right fun ⟨hnearest, hsame⟩ => ⟨.nearest hns hcol hklass hnearest, hsame⟩

/-- A lookup that finds no object finds none afterwards. -/
theorem FindsNoObject.steady (h : m.FindsNoObject p k) (hsteady : Steady S k m m') (hp : S p)
    (hclass : ∀ q, m.IsClass q → S q) (hk : k ≠ CLASS ∧ k ≠ PARENT) : m'.FindsNoObject p k := by
  constructor
  · intro n hn
    rcases hsteady.kept hp hn with hplain | ⟨hold, hsame⟩
    · exact hplain
    · exact (h.own n hold).of_content hsame
  · intro hown hmiss hns n hn
    have hheader : ¬ HeaderKey k := fun hheader =>
      hheader.elim hns fun hheader => hheader.elim hk.1 hk.2
    rcases hsteady.default hp hclass hn with hplain | ⟨hold, hsame⟩
    · exact hplain
    · exact (h.inherited (hsteady.absent hp hown)
        (fun hmissed => hmiss (hsteady.missed p hp hheader hmissed)) hns n hold).of_content hsame

/-! ## One lookup -/

theorem getObject_run_bind {α : Type} {Q : α → Memory → Prop} {E : Exn → Memory → Prop}
    {f : Dyn → MemoryM α} (h : Triple (· = m) (f (m.object p)) Q E) :
    Triple (· = m) (getObject p >>= f) Q E := by
  intro m' hm'
  subst hm'
  rw [bind_ok (getObject_run p m')]
  exact h m' rfl

/-- What is read of a field is what it holds. -/
theorem getContent_run_bind {α : Type} {Q : α → Memory → Prop} {E : Exn → Memory → Prop}
    {f : Content → MemoryM α} (h : ∀ c, m.content n = c → Triple (· = m) (f c) Q E) :
    Triple (· = m) (getContent n >>= f) Q E := by
  intro m' hm'
  subst hm'
  rw [bind_ok (getContent_run n m')]
  exact h _ rfl m' rfl

/-- What a lookup of the field does: nothing to other lookups, and in the field there is no object
if there was none to be found. -/
structure Harmless (S : Ptr → Prop) (m : Memory) (p : Ptr) (name : Key) (found : Node → Prop)
    (m' : Memory) : Prop where
  steady : ∀ k, (S p → k ≠ name) → Steady S k m m'
  plain : (∀ n, (m.object p).fields.lookup name = some n → m.Plain n) →
    ((m.object p).fields.lookup name = none → ∀ n, found n → m.Plain n) →
    ∀ n, (m'.object p).fields.lookup name = some n → m'.Plain n

/-- A copy holds an object only if what it is a copy of does. -/
theorem copyContent_kept (hm : m.Valid) {c : Content} (hlive : ∀ q, c = .object q → q < m.objects) :
    Triple (· = m) (copyContent depth c) (fun c' m' => m'.Valid ∧ m.Extends (fun _ => False) m' ∧
        ∀ q', c' = .object q' → ∃ q, c = .object q)
      fun _ m' => m'.Valid ∧ m.Extends (fun _ => False) m' := by
  cases c with
  | plain v =>
    refine .pure fun m' hm' => ?_
    subst hm'
    exact ⟨hm, Extends.refl _ m', nofun⟩
  | object q =>
    refine .bind ((clonePtr_cloned depth m q hm (hlive q rfl)).imp (fun _ _ h => h)
      fun _ _ h => ⟨h.valid, h.kept⟩) fun q' => .pure fun m' h => ?_
    have hkept := h.2.kept.mono fun p hp heq => (h.1.trans_lt (heq ▸ hp)).false
    exact ⟨h.2.valid, hkept, fun _ _ => ⟨q, rfl⟩⟩

theorem inherit_harmless (hm : m.Valid) (hS : ∀ q, S q → q < m.objects) (hp : p < m.objects)
    (hlive : ∀ q, m.content n = .object q → q < m.objects)
    (hheader : HeaderKey name → (m.object p).fields.lookup name ≠ none) :
    Triple (· = m) (inherit depth p name n) (fun _ => Harmless S m p name (· = n))
      fun _ m' => ∀ k, (S p → k ≠ name) → Steady S k m m' := by
  refine getContent_run_bind fun c hc => ?_
  subst hc
  refine .bind ((copyContent_kept hm hlive).imp (fun _ _ h => h)
    fun _ _ h k _ => h.2.steady hm hS k) fun c' => getObject_bind fun d => ?_
  refine .mono (P := fun m₁ => (m₁.Valid ∧ m.Extends (fun _ => False) m₁) ∧
    (m.object p = d ∧ ∀ q', c' = .object q' → ∃ q, m.content n = .object q)) (.given fun h => ?_)
    (fun m₁ h => ⟨⟨h.1.1, h.1.2.1⟩, h.2 ▸ (h.1.2.1.object p hp id).symm, h.1.2.2⟩)
    (fun _ _ h => h) fun _ _ h => h
  obtain ⟨rfl, hplain⟩ := h
  cases hown : (m.object p).fields.lookup name with
  | some n₀ =>
    refine .pure fun m₁ h => ⟨fun k _ => h.2.steady hm hS k, fun hold _ n' hn' => ?_⟩
    rw [h.2.object p hp id, hown] at hn'
    cases hn'
    exact (hold n₀ hown).of_content (h.2.content n₀ (hm.node p name n₀ hown))
  | none =>
    have hname : ¬ HeaderKey name := fun hheader' => hheader hheader' hown
    intro m₁ h
    refine ⟨fun k hk => (h.2.steady hm hS k).trans (steady_withField h.1 hk hname),
      fun _ hnew n' hn' q hq => ?_⟩
    have hadded := lookup_withField m₁ p p name name c'
    rw [if_pos ⟨rfl, rfl⟩] at hadded
    cases hn'.symm.trans hadded
    have hc' : (m₁.withField p name c').content m₁.nodes = c' := if_pos rfl
    obtain ⟨q', hq'⟩ := hplain q (hc'.symm.trans hq)
    exact hnew hown n rfl q' hq'

/-- What is in the field is what was, or what the search has found. -/
theorem Harmless.after {found found' : Node → Prop} (hlooked : m.Looked p m')
    (h : Harmless S m' p name found m'')
    (hfound : (m'.object p).fields.lookup name = none → ∀ n, found n →
      m'.Plain n ∨ found' n ∧ (m.Plain n → m'.Plain n)) :
    Harmless S m p name found' m'' := by
  have hsteady (k : Key) : Steady (fun _ => True) k m m' := hlooked.steady _ k
  refine ⟨fun k hk => (hlooked.steady S k).trans (h.steady k hk), fun hown hnew => h.plain ?_ ?_⟩
  · intro n hn
    rcases (hsteady name).kept trivial hn with hplain | ⟨hold, hsame⟩
    · exact hplain
    · exact (hown n hold).of_content hsame
  · intro hnone n hn
    have hold := (hsteady name).absent trivial hnone
    exact (hfound hnone n hn).elim id fun ⟨hn, hkept⟩ => hkept (hnew hold n hn)

theorem walkClasses_harmless {col : List (Key × Ptr)} (hm : m.Valid)
    (hS : ∀ q, S q → q < m.objects) (hp : p < m.objects)
    (hclass : ∀ klass proto, col.lookup klass = some proto → m.IsClass proto)
    (hheader : HeaderKey name → (m.object p).fields.lookup name ≠ none) (steps : Nat)
    (klass : Key) :
    Triple (m.Looked p) (walkClasses depth col p name steps klass)
      (fun _ => Harmless S m p name fun n => m.Nearest col name klass (some n))
      fun _ m' => ∀ k, (S p → k ≠ name) → Steady S k m m' := by
  induction steps generalizing klass with
  | zero => exact .throw fun m' h k _ => h.steady S k
  | succ steps ih =>
    unfold walkClasses
    cases hcol : col.lookup klass with
    | none =>
      refine .pure fun m' h => ⟨fun k _ => h.steady S k, fun hown _ n hn => ?_⟩
      rcases (h.steady (fun _ => True) name).kept trivial hn with hplain | ⟨hold, hsame⟩
      · exact hplain
      · exact (hown n hold).of_content hsame
    | some proto =>
      refine getObject_bind fun d => ?_
      cases hname : d.fields.lookup name with
      | some n =>
        refine .each fun m' hm' => ?_
        obtain ⟨h, rfl⟩ := hm'
        have hlive (q : Ptr) (hq : m'.content n = .object q) : q < m'.objects :=
          h.valid.child proto q ⟨name, n, hname, hq⟩
        have hheader' (hk : HeaderKey name) : (m'.object p).fields.lookup name ≠ none :=
          fun hnone => hheader hk ((h.steady (fun _ => True) name).absent trivial hnone)
        refine (inherit_harmless h.valid (fun q hq => h.objects ▸ hS q hq) (h.objects ▸ hp) hlive
          hheader').imp (fun _ m'' hdone => hdone.after h ?_)
          fun _ m'' hfail k hk => (h.steady S k).trans (hfail k hk)
        rintro - n' rfl
        rcases (h.steady (fun _ => True) name).kept trivial hname with
          hplain | ⟨hold, hsame⟩
        · exact .inl hplain
        · exact .inr ⟨.declared hcol hold, fun hplain => hplain.of_content hsame⟩
      | none =>
        have hnone (m' : Memory) (h : m.Looked p m' ∧ m'.object proto = d) :
            m.Looked p m' ∧ (m.object proto).fields.lookup name = none :=
          ⟨h.1, (h.1.steady (fun _ => True) name).absent trivial (h.2 ▸ hname)⟩
        refine .mono (.given fun hnone => ?_) hnone (fun _ _ h => h) fun _ _ h => h
        have hfills : m.Fills p proto PARENT := .inr ⟨hclass klass proto hcol, rfl⟩
        refine .bind ((asKey_looked hm hp hfills).imp (fun _ _ h => h)
          fun _ _ h k _ => h.1.steady S k) fun parent => .given fun hparent => ?_
        refine (ih parent).imp (fun _ m'' hdone => ⟨hdone.steady, fun hown hnew =>
          hdone.plain hown fun hnone' n hn => ?_⟩) fun _ _ h => h
        exact hnew hnone' _ (.inherited hcol hnone hparent hn)

/-- The namespace is in its field after it has been resolved. -/
theorem resolveNamespace_present (hm : m.Valid) (hp : p < m.objects) :
    Triple (· = m) (resolveNamespace p) (fun ns m' => (m.Looked p m' ∧
        (m'.object p).fields.lookup NAMESPACE ≠ none) ∧ m.keyOf p NAMESPACE = some ns)
      fun _ => m.Looked p := by
  intro m' hm'
  subst hm'
  have h := resolveNamespace_looked hp m' (Looked.refl hm p)
  cases hk : (m'.object p).fields.lookup NAMESPACE with
  | some n =>
    rcases hrun : resolveNamespace p m' with ⟨e | ns, trace, m₁⟩ <;> rw [hrun] at h
    · exact h.1
    · exact ⟨⟨h.1, by rw [(h.1.kept p NAMESPACE n hk).1]; exact Option.some_ne_none n⟩, h.2⟩
  | none =>
    have hassign := assignKey_run (m := m'.withField p NAMESPACE (.plain .monostate))
      (n := m'.nodes) (k := 0) (if_pos rfl) (.inl rfl)
    rw [withField_setContent] at hassign
    have hrun : resolveNamespace p m' =
        ⟨.ok 0, [], m'.withField p NAMESPACE (.plain (.key 0))⟩ := by
      unfold resolveNamespace
      rw [bind_ok (getObject_run p m')]
      simp only [hk, bind_ok (nodeAt_none hk), bind_ok hassign]
      rfl
    rw [hrun] at h ⊢
    refine ⟨⟨h.1, ?_⟩, h.2⟩
    rw [lookup_withField, if_pos ⟨rfl, rfl⟩]
    exact Option.some_ne_none _

theorem searchClasses_harmless (hm : m.Valid) (hS : ∀ q, S q → q < m.objects) (hp : p < m.objects)
    (hname : name ≠ CLASS ∧ name ≠ PARENT) (hown : (m.object p).fields.lookup name = none) :
    Triple (· = m) (searchClasses depth p name) (fun _ => Harmless S m p name fun n =>
        name ≠ NAMESPACE ∧ m.Default p name (some n))
      fun _ m' => ∀ k, (S p → k ≠ name) → Steady S k m m' := by
  refine .bind ((resolveNamespace_present hm hp).imp (fun _ _ h => h)
    fun _ _ h k _ => h.steady S k) fun ns => .given fun hns => .get_bind fun m₁ h => ?_
  obtain ⟨hlooked, hpresent⟩ := h
  have hsteady (k : Key) (T : Ptr → Prop) : Steady T k m m₁ := hlooked.steady T k
  have hp₁ : p < m₁.objects := hlooked.objects ▸ hp
  have hS₁ (q : Ptr) (hq : S q) : q < m₁.objects := hlooked.objects ▸ hS q hq
  have hheader (hk : HeaderKey name) : (m₁.object p).fields.lookup name ≠ none := by
    rcases hk with rfl | hk | hk
    · exact hpresent
    · exact (hname.1 hk).elim
    · exact (hname.2 hk).elim
  -- The field was absent: what it holds now is a key.
  have hnew (n : Node) (hn : (m₁.object p).fields.lookup name = some n) : m₁.Plain n :=
    plain_of_eq (hlooked.filled p name n hown hn).2
  cases hcol : m₁.classes.lookup ns with
  | none =>
    refine .pure fun m' hm' => ?_
    subst hm'
    exact ⟨fun k _ => hsteady k S, fun _ _ => hnew⟩
  | some col =>
    have hclass (klass : Key) (proto : Ptr) (h : col.lookup klass = some proto) :
        m₁.IsClass proto := ⟨ns, col, klass, hcol, h⟩
    have hfills : m₁.Fills p p CLASS := .inl ⟨rfl, .inr rfl⟩
    refine .bind ((asKey_looked hlooked.valid hp₁ hfills).mono
      (fun m' hm' => hm' ▸ Looked.refl hlooked.valid p) (fun _ _ h => h)
      fun _ _ h k _ => (hsteady k S).trans (h.1.steady S k)) fun klass => .given fun hklass => ?_
    refine (walkClasses_harmless hlooked.valid hS₁ hp₁ hclass hheader _ klass).imp
      (fun _ m' hdone => hdone.after hlooked fun hnone n hn => ?_)
      fun _ _ hfail k hk => (hsteady k S).trans (hfail k hk)
    have hns' : name ≠ NAMESPACE := by
      rintro rfl
      exact hpresent hnone
    rcases (hsteady name fun _ => True).nearest (fun _ _ _ => trivial) hn n rfl with
      hplain | ⟨hnearest, hsame⟩
    · exact .inl hplain
    · rw [hlooked.keyOf] at hklass
      rw [hlooked.classes] at hcol
      exact .inr ⟨⟨hns', .nearest hns hcol hklass hnearest⟩, fun hplain => hplain.of_content hsame⟩

/-- What has been found is remembered. -/
theorem remember_found {P : Memory → Prop} {Q : Option Node → Memory → Prop}
    {E : Exn → Memory → Prop} (h : ∀ m, P m → Q (some n) m)
    (hcache : ∀ m, P m → Q (some n) (m.withCache p ((m.object p).lookup.insert name (some n)))) :
    Triple P (do cacheNew p name n; return some n) Q E := by
  intro m hm
  rcases cacheNew_run p name n m with hrun | hrun <;> rw [bind_ok hrun]
  · exact h m hm
  · exact hcache m hm

/-- A lookup changes no other one, and finds no object where there is none. -/
theorem findField_steady (hm : m.Valid) (hcoherent : (m.object p).Coherent)
    (hS : ∀ q, S q → q < m.objects) (hp : p < m.objects) (hname : name ≠ CLASS ∧ name ≠ PARENT)
    (depth : Nat) :
    Triple (· = m) (findField depth p name) (fun found m' =>
        (∀ k, (S p → k ≠ name) → Steady S k m m') ∧
          (m.FindsNoObject p name → ∀ n, found = some n → m'.Plain n))
      fun _ m' => ∀ k, (S p → k ≠ name) → Steady S k m m' := by
  refine getObject_run_bind ?_
  cases hcached : (m.object p).lookup.lookup name with
  | some found =>
    refine .pure fun m' hm' => ?_
    subst hm'
    refine ⟨fun k _ => .refl S k m', fun h n hn => h.own n ?_⟩
    exact (hcoherent name found hcached).trans hn
  | none =>
    refine getObject_run_bind ?_
    cases hown : (m.object p).fields.lookup name with
    | some n =>
      refine remember_found (fun m' hm' => ?_) fun m' hm' => ?_ <;> subst hm'
      · exact ⟨fun k _ => .refl S k m', fun h n' hn' => Option.some.inj hn' ▸ h.own n hown⟩
      · exact ⟨fun k hk => steady_withCache hk _,
          fun h n' hn' => Option.some.inj hn' ▸ h.own n hown⟩
    | none =>
      refine .bind (searchClasses_harmless hm hS hp hname hown) fun _ => .each fun m₁ h =>
        getObject_run_bind ?_
      have hnone (hnew : m.FindsNoObject p name) (n : Node)
          (hn : (m₁.object p).fields.lookup name = some n) : m₁.Plain n := by
        refine h.plain hnew.own (fun _ n' hn' => hnew.inherited hown ?_ hn'.1 n' hn'.2) n hn
        rw [hcached]
        exact (Option.some_ne_none _).symm
      have hcache (k : Key) (hk : S p → k ≠ name) (found : Option Node) :
          Steady S k m (m₁.withCache p ((m₁.object p).lookup.insert name found)) :=
        (h.steady k hk).trans (steady_withCache hk found)
      cases hfound : (m₁.object p).fields.lookup name with
      | some n =>
        refine remember_found (fun m' hm' => ?_) fun m' hm' => ?_ <;> subst hm'
        · exact ⟨h.steady, fun hnew n' hn' => Option.some.inj hn' ▸ hnone hnew n hfound⟩
        · exact ⟨fun k hk => hcache k hk _,
            fun hnew n' hn' => Option.some.inj hn' ▸ hnone hnew n hfound⟩
      | none =>
        refine .bind (Q := fun _ m' => m' = m₁.withCache p ((m₁.object p).lookup.insert name none))
          (.modify fun m' hm' => hm' ▸ rfl) fun _ => .pure fun m' hm' => ?_
        subst hm'
        exact ⟨fun k hk => hcache k hk none, fun _ n hn => nomatch hn⟩

/-- What is found is in the map. -/
theorem findField_own (hcoherent : (m.object p).Coherent) (depth : Nat) :
    Triple (· = m) (findField depth p name)
      (fun found m' => (m'.object p).fields.lookup name = found) fun _ _ => True := by
  refine getObject_run_bind ?_
  cases hcached : (m.object p).lookup.lookup name with
  | some found => exact .pure fun m' hm' => hm' ▸ hcoherent name found hcached
  | none =>
    refine getObject_run_bind ?_
    have hcache {m₁ m' : Memory} {found : Option Node} (lookup : FinMap Key (Option Node))
        (hfound : (m₁.object p).fields.lookup name = found) (hm' : m' = m₁) :
        ((m'.withCache p lookup).object p).fields.lookup name = found := by
      rw [fields_withCache, hm']
      exact hfound
    cases hown : (m.object p).fields.lookup name with
    | some n => exact remember_found (fun m' hm' => hm' ▸ hown) fun m' => hcache _ hown
    | none =>
      refine .bind (Q := fun _ _ => True) (fun m' _ => ?_) fun _ => .each fun m₁ _ =>
        getObject_run_bind ?_
      · cases (searchClasses depth p name m').result <;> trivial
      · cases hfound : (m₁.object p).fields.lookup name with
        | some n => exact remember_found (fun m' hm' => hm' ▸ hfound) fun m' => hcache _ hfound
        | none =>
          exact .bind (Q := fun _ m' => (m'.object p).fields.lookup name = none)
            (.modify fun m' => hcache _ hfound) fun _ => .pure fun _ h => h

/-! ## A lookup elsewhere -/

/-- Of another object a field is written. -/
theorem steady_elsewhere (hm : m.Valid) (hr : ¬ S r) (hclasses : m'.classes = m.classes)
    (hobject : ∀ q, q ≠ r → m'.object q = m.object q)
    (hcontent : ∀ n, n < m.nodes → (∀ l, (m.object r).fields.lookup l ≠ some n) →
      m'.content n = m.content n) (k : Key) : Steady S k m m' := by
  have hne {q : Ptr} (hq : S q) : q ≠ r := fun heq => hr (heq ▸ hq)
  refine steady_of_same hclasses (fun q hq => congrArg Dyn.fields (hobject q (hne hq)))
    (fun q l n hq hn => hcontent n (hm.node q l n hn) fun l' hl' =>
      hne hq (hm.owner q r l l' n hn hl').1) fun q hq hmiss => ?_
  rw [hobject q (hne hq)]
  exact hmiss

theorem subscript_none (hnone : (m.object r).fields.lookup name = none) :
    (nodeAt r name >>= fun n => cache r name (some n) >>= fun _ => pure n : MemoryM Node) m =
      ⟨.ok m.nodes, [], (m.withField r name (.plain .monostate)).withCache r (FinMap.insert name
        (some m.nodes) ((m.withField r name (.plain .monostate)).object r).lookup)⟩ := by
  rw [bind_ok (nodeAt_none hnone)]
  rfl

/-- **Main result**: `operator[]` of another object changes no lookup. -/
theorem subscript_steady (hm : m.Valid) (hcoherent : (m.object r).Coherent) (hr : r < m.objects)
    (hS : ∀ q, S q → q < m.objects ∧ q ≠ r) (hname : name ≠ CLASS ∧ name ≠ PARENT) (depth : Nat) :
    Triple (· = m) (subscript depth r name) (fun _ m' => ∀ k, Steady S k m m')
      fun _ m' => ∀ k, Steady S k m m' := by
  have hne : ¬ S r := fun h => (hS r h).2 rfl
  refine .bind (((findField_steady hm hcoherent (fun q hq => (hS q hq).1) hr hname depth).and
    ((findField_grows hm hr depth name).and (findField_own hcoherent depth))).imp
      (fun _ _ h => h) fun _ _ h k => h.1 k fun hr => (hne hr).elim) fun found => ?_
  cases found with
  | some n => exact .pure fun _ h k => h.1.1 k fun hr => (hne hr).elim
  | none =>
    intro m₁ h
    obtain ⟨⟨hsteady, -⟩, hgrows, hnone⟩ := h
    dsimp only
    rw [subscript_none hnone]
    intro k
    refine (hsteady k fun hr => (hne hr).elim).trans (steady_elsewhere hgrows.valid hne ?_
      (fun q hq => ?_) (fun n hn _ => ?_) k)
    · rfl
    · exact (if_neg hq).trans (if_neg hq)
    · exact (content_withField m₁ r name _ n).trans (if_neg hn.ne)

end Memory

end Bison
