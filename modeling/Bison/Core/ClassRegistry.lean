import Bison.Core.Lookup

/-!
# Registering classes

`dynamic::addClass` (bison_object.hpp:1470–1561). Prototypes are shared pointers: the
registry and the caller hold the same object, and the links the walks follow are fields of
it. So the registry maps names to addresses here, and the objects are on a heap that
`addClass` writes to.

`addClass` writes the parent, the namespace (and, in its overloads, the factory and the
class attributes) into the prototype first and checks for cycles and duplicates after. On
a prototype that is not registered this is harmless. On a registered one a refused call
has changed it all the same, and the changed parent can close a cycle.

- `Classes.call`: a call, in any overload.
- `Classes.Safe`: the calls that do no harm.
- `Classes.Sound`, `SafeRun`: what is promised, and the runs of safe calls.
-/

namespace Bison

open SortedMap

/-- Where a `dynamic` is: a `dynamic_ptr` that is not null. -/
abbrev Ptr := Nat

/-- A factory, by what a call of it gives: an instance, null, or an exception. -/
structure Factory where
  made : Except Exn (Option Fields)
  sorted : ∀ d, made = .ok (some d) → Sorted d
  throws : ∀ e, made = .error e → e.Thrown

/-- A `dynamic` on the heap. `attributes` are those attached to its CLASS field. -/
structure Object (μ α : Type) where
  fields : Fields
  methods : List (Key × μ) := []
  factory : Option Factory := none
  attributes : List α := []
  sorted : Sorted fields := by decide

/-- The fields `addClass` needs or writes are keys. -/
structure Linked (d : Fields) : Prop where
  hasClass : (keyAt d CLASS).isSome
  hasParent : (keyAt d PARENT).isSome
  hasNamespace : (keyAt d NAMESPACE).isSome

theorem Keeps.linked {d d' : Fields} (h : Keeps d d') (hd : Linked d) : Linked d' := by
  obtain ⟨c, hc⟩ := Option.isSome_iff_exists.mp hd.hasClass
  obtain ⟨p, hp⟩ := Option.isSome_iff_exists.mp hd.hasParent
  obtain ⟨n, hn⟩ := Option.isSome_iff_exists.mp hd.hasNamespace
  exact ⟨by rw [h.keyAt _ _ hc]; rfl, by rw [h.keyAt _ _ hp]; rfl, by rw [h.keyAt _ _ hn]; rfl⟩

variable {μ α : Type}

/-- A linked object as the class prototype it is. -/
def Object.prototype (o : Object μ α) (h : Linked o.fields) : Prototype μ where
  fields := o.fields
  methods := o.methods
  factory := o.factory.map Factory.made
  sorted := o.sorted
  hasClass := h.hasClass
  hasParent := h.hasParent
  hasNamespace := h.hasNamespace
  factorySorted d hd := by
    obtain ⟨f, -, hf⟩ := Option.map_eq_some_iff.mp hd
    exact f.sorted d hf
  factoryThrows e he := by
    obtain ⟨f, -, hf⟩ := Option.map_eq_some_iff.mp he
    exact f.throws e hf

theorem Object.withFields_eq {o : Object μ α} {d : Fields} {h : Sorted d} (hd : d = o.fields) :
    { o with fields := d, sorted := h } = o := by
  subst hd
  rfl

/-- The heap and the namespace registry. What is registered is linked. -/
structure Classes (μ α : Type) where
  heap : Ptr → Object μ α
  namespaces : List (Key × List (Key × Ptr))
  linked : ∀ e ∈ namespaces, ∀ x ∈ e.2, Linked (heap x.2).fields

namespace Classes

/-- Before any class is registered. -/
def start (heap : Ptr → Object μ α) : Classes μ α := ⟨heap, [], fun _ h => nomatch h⟩

variable (s : Classes μ α)

/-- `lp->find(ns)->second.find(k)`. -/
def find (ns k : Key) : Option Ptr := (s.namespaces.lookup ns).bind fun col => col.lookup k

/-- Some collection maps some name to the pointer. -/
def Registered (p : Ptr) : Prop := ∃ e ∈ s.namespaces, ∃ x ∈ e.2, x.2 = p

/-- The registry with the prototypes as they are now: what the lookups of a `dynamic`
walk over. -/
def registry : Registry μ :=
  s.namespaces.pmap
    (fun e h => (e.1, e.2.pmap (fun x hx => (x.1, (s.heap x.2).prototype hx)) h)) s.linked

/-- The prototypes of namespace `ns`. -/
def collection (ns : Key) : Collection μ := (s.registry.lookup ns).getD []

/-- Class `a` of namespace `ns` has parent `b`. -/
def Link (ns a b : Key) : Prop :=
  ∃ p, s.find ns a = some p ∧ keyAt (s.heap p).fields PARENT = some b

/-! ## Writing to the heap and the registry -/

theorem linked_of_registered {p : Ptr} (h : s.Registered p) : Linked (s.heap p).fields := by
  obtain ⟨e, he, x, hx, rfl⟩ := h
  exact s.linked e he x hx

/-- Change the object at `p`; a registered one stays linked. -/
def write (p : Ptr) (o : Object μ α) (h : s.Registered p → Linked o.fields) :
    Classes μ α where
  heap q := if q = p then o else s.heap q
  namespaces := s.namespaces
  linked e he x hx := by
    by_cases hp : x.2 = p
    · rw [if_pos hp]
      exact h ⟨e, he, x, hx, hp⟩
    · rw [if_neg hp]
      exact s.linked e he x hx

/-- `(*lp)[ns]`: get or create the collection. -/
def entries (ns : Key) : List (Key × Ptr) := (s.namespaces.lookup ns).getD []

theorem mem_entries {ns : Key} {x : Key × Ptr} (h : x ∈ s.entries ns) :
    ∃ e ∈ s.namespaces, x ∈ e.2 := by
  unfold entries at h
  cases hl : s.namespaces.lookup ns with
  | none => rw [hl] at h; cases h
  | some col =>
    rw [hl] at h
    exact ⟨(ns, col), mem_of_lookup hl, h⟩

/-- Store a collection that registers `p` under `name` besides what was registered. -/
def store (ns name : Key) (p : Ptr) (h : Linked (s.heap p).fields) : Classes μ α where
  heap := s.heap
  namespaces := insert ns (insert name p (s.entries ns)) s.namespaces
  linked e he x hx := by
    rcases mem_insert he with rfl | he
    · rcases mem_insert hx with rfl | hx
      · exact h
      · obtain ⟨e, he, hx⟩ := s.mem_entries hx
        exact s.linked e he x hx
    · exact s.linked e he x hx

/-- Only create the collection. -/
def touch (ns : Key) : Classes μ α where
  heap := s.heap
  namespaces := insert ns (s.entries ns) s.namespaces
  linked e he x hx := by
    rcases mem_insert he with rfl | he
    · obtain ⟨e, he, hx⟩ := s.mem_entries hx
      exact s.linked e he x hx
    · exact s.linked e he x hx

end Classes

/-! ## `addClass` -/

/-- The first three statements of `addClass`, on the fields of the prototype: read its name,
write the two links. Where one throws, what was written before stays. -/
def linkClass (reg : Registry μ) (ns parent : Key) (d : Fields) : Fields × Except Exn Key :=
  match asKey CLASS d with
  | .error e => (d, .error e)
  | .ok (name, d) =>
    match assignKey reg PARENT parent d with
    | .error e => (d, .error e)
    | .ok (_, d) =>
      match assignKey reg NAMESPACE ns d with
      | .error e => (d, .error e)
      | .ok (_, d) => (d, .ok name)

theorem linkClass_sorted (reg : Registry μ) (ns parent : Key) {d : Fields} (h : Sorted d) :
    Sorted (linkClass reg ns parent d).1 := by
  unfold linkClass
  cases hc : asKey CLASS d with
  | error e => exact h
  | ok r =>
    obtain ⟨name, d₁⟩ := r
    have h₁ : Sorted d₁ := (asKey_keeps hc).1.sorted h
    cases hp : assignKey reg PARENT parent d₁ with
    | error e => simpa [hp] using h₁
    | ok r =>
      obtain ⟨⟨⟩, d₂⟩ := r
      have h₂ : Sorted d₂ := (assignKey_ok hp).1 h₁
      cases hn : assignKey reg NAMESPACE ns d₂ with
      | error e => simpa [hp, hn] using h₂
      | ok r => simpa [hp, hn] using (assignKey_ok hn).1 h₂

/-- Once all three went through, the prototype is linked. -/
theorem linkClass_ok {reg : Registry μ} {ns parent name : Key} {d : Fields}
    (h : (linkClass reg ns parent d).2 = .ok name) :
    keyAt (linkClass reg ns parent d).1 CLASS = some name ∧
      keyAt (linkClass reg ns parent d).1 PARENT = some parent ∧
      keyAt (linkClass reg ns parent d).1 NAMESPACE = some ns := by
  unfold linkClass at h ⊢
  cases hc : asKey CLASS d with
  | error e => rw [hc] at h; cases h
  | ok r =>
    obtain ⟨name', d₁⟩ := r
    cases hp : assignKey reg PARENT parent d₁ with
    | error e => simp only [hc, hp] at h; cases h
    | ok r =>
      obtain ⟨⟨⟩, d₂⟩ := r
      cases hn : assignKey reg NAMESPACE ns d₂ with
      | error e => simp only [hc, hp, hn] at h; cases h
      | ok r =>
        obtain ⟨⟨⟩, d₃⟩ := r
        simp only [hc, hp, hn] at h ⊢
        cases h
        obtain ⟨-, hparent, hkept⟩ := assignKey_ok hp
        obtain ⟨-, hnamespace, hkept'⟩ := assignKey_ok hn
        have hclass := hkept _ CLASS_ne_PARENT _ (asKey_keeps hc).2
        exact ⟨hkept' _ CLASS_ne_NAMESPACE _ hclass,
          hkept' _ PARENT_ne_NAMESPACE _ hparent, hnamespace⟩

/-- On a linked prototype nothing throws, and only the two links change. -/
theorem linkClass_of_linked (reg : Registry μ) (ns parent : Key) {d : Fields} {name : Key}
    (h : Linked d) (hname : keyAt d CLASS = some name) :
    linkClass reg ns parent d =
      (insert NAMESPACE (.key ns) (insert PARENT (.key parent) d), .ok name) := by
  obtain ⟨p, hp⟩ := Option.isSome_iff_exists.mp h.hasParent
  obtain ⟨n, hn⟩ := Option.isSome_iff_exists.mp h.hasNamespace
  have hn' : keyAt (insert PARENT (.key parent) d) NAMESPACE = some n := by
    rw [keyAt_insert, if_neg PARENT_ne_NAMESPACE.symm]
    exact hn
  unfold linkClass
  simp only [asKey_of_keyAt hname, assignKey_of_keyAt hp, assignKey_of_keyAt hn']

theorem linkClass_linked (reg : Registry μ) (ns parent : Key) {d : Fields} (h : Linked d) :
    Linked (linkClass reg ns parent d).1 := by
  obtain ⟨name, hname⟩ := Option.isSome_iff_exists.mp h.hasClass
  have hok : (linkClass reg ns parent d).2 = .ok name := by
    rw [linkClass_of_linked reg ns parent h hname]
  obtain ⟨hc, hp, hn⟩ := linkClass_ok hok
  exact ⟨by rw [hc]; rfl, by rw [hp]; rfl, by rw [hn]; rfl⟩

/-- What a caller registers a prototype with: the overloads of `addClass`. -/
inductive Overload (α : Type) where
  | plain
  | withFactory (factory : Option Factory)
  | withAttributes (attributes : List α)

/-- The arguments of one call. -/
structure Call (α : Type) where
  ns : Key
  proto : Ptr
  parent : Key
  overload : Overload α := .plain

namespace Classes

variable (s : Classes μ α)

/-- The prototype after its links were written, or as far as that went. -/
def link (ns : Key) (p : Ptr) (parent : Key) : Classes μ α :=
  s.write p
    { s.heap p with
      fields := (linkClass s.registry ns parent (s.heap p).fields).1
      sorted := linkClass_sorted _ _ _ (s.heap p).sorted }
    fun h => linkClass_linked _ _ _ (s.linked_of_registered h)

theorem link_heap_self (ns : Key) (p : Ptr) (parent : Key) :
    ((s.link ns p parent).heap p).fields =
      (linkClass s.registry ns parent (s.heap p).fields).1 := by
  show (if p = p then _ else _ : Object μ α).fields = _
  rw [if_pos rfl]

theorem link_linked {ns : Key} {p : Ptr} {parent name : Key}
    (h : (linkClass s.registry ns parent (s.heap p).fields).2 = .ok name) :
    Linked ((s.link ns p parent).heap p).fields := by
  rw [link_heap_self]
  obtain ⟨hc, hp, hn⟩ := linkClass_ok h
  exact ⟨by rw [hc]; rfl, by rw [hp]; rfl, by rw [hn]; rfl⟩

/-- `col.try_emplace(name, klass).second`, on the collection of `ns`. -/
def tryEmplace (ns name : Key) (p : Ptr) (h : Linked (s.heap p).fields) :
    Except Exn Bool × Classes μ α :=
  match s.find ns name with
  | some _ => (.ok false, s.touch ns)
  | none => (.ok true, s.store ns name p h)

/-- The body of `addClass` past the writes: walk from the parent, refuse where the walk
meets the name, register otherwise. -/
def register (ns name parent : Key) (p : Ptr) (h : Linked (s.heap p).fields) :
    Except Exn Bool × Classes μ α :=
  match (s.collection ns).seek name parent with
  | none => (.error .diverges, s.touch ns)
  | some ancestor =>
    if ancestor = name then (.ok false, s.touch ns)
    else s.tryEmplace ns name p h

/-- `addClass(ns, klass, parent)` (bison_object.hpp:1540). -/
def addClass (ns : Key) (p : Ptr) (parent : Key) : Except Exn Bool × Classes μ α :=
  match h : (linkClass s.registry ns parent (s.heap p).fields).2 with
  | .error e => (.error e, s.link ns p parent)
  | .ok name => (s.link ns p parent).register ns name parent p (s.link_linked h)

/-- `klass->factory_ = std::move(factory)`. -/
def setFactory (p : Ptr) (factory : Option Factory) : Classes μ α :=
  s.write p { s.heap p with factory := factory } s.linked_of_registered

/-- `for (auto& a : class_attrs) (*klass)[CLASS].addAttribute(a)`. -/
def addAttributes (p : Ptr) (attributes : List α) : Except Exn Unit × Classes μ α :=
  if attributes.isEmpty then (.ok (), s)
  else
    match h : subscript s.registry CLASS (s.heap p).fields with
    | .error e => (.error e, s)
    | .ok (_, d) =>
      (.ok (), s.write p
        { s.heap p with
          fields := d
          attributes := (s.heap p).attributes ++ attributes
          sorted := (subscript_keeps h).sorted (s.heap p).sorted }
        fun hp => (subscript_keeps h).linked (s.linked_of_registered hp))

/-- What an overload does before it calls `addClass(ns, klass, parent)`. -/
def prepare (p : Ptr) : Overload α → Except Exn Unit × Classes μ α
  | .plain => (.ok (), s)
  | .withFactory factory => (.ok (), s.setFactory p factory)
  | .withAttributes attributes => s.addAttributes p attributes

/-- A call of `addClass`, in any of its overloads. -/
def call (c : Call α) : Except Exn Bool × Classes μ α :=
  match s.prepare c.proto c.overload with
  | (.error e, s) => (.error e, s)
  | (.ok _, s) => s.addClass c.ns c.proto c.parent

end Classes

/-! ## Safe calls -/

section Safety

variable (s : Classes μ α)

/-- The checks of `addClass` will fail: the name is taken, or it is an ancestor of the
class it is to be registered as. -/
def Classes.Refuses (c : Call α) : Prop :=
  ∃ name, keyAt (s.heap c.proto).fields CLASS = some name ∧
    ((s.find c.ns name).isSome ∨ Relation.ReflTransGen (s.Link c.ns) c.parent name)

/-- The prototype already holds everything the call writes before its checks. -/
def Classes.Holds (c : Call α) : Prop :=
  keyAt (s.heap c.proto).fields PARENT = some c.parent ∧
    keyAt (s.heap c.proto).fields NAMESPACE = some c.ns ∧
    match c.overload with
    | .plain => True
    | .withFactory f => (s.heap c.proto).factory = f
    | .withAttributes as => as = []

/-- A call on a prototype that is not registered, or else one whose parent is no descendant
of it under any name it is registered with, and that writes nothing new where it is going
to be refused. -/
def Classes.Safe (c : Call α) : Prop :=
  s.Registered c.proto →
    (∀ ns k, s.find ns k = some c.proto → ¬ Relation.ReflTransGen (s.Link ns) c.parent k) ∧
      (s.Refuses c → s.Holds c)

/-- The same names are registered, for prototypes that are as they were. -/
def Classes.Unchanged (s s' : Classes μ α) : Prop :=
  (∀ ns k, s'.find ns k = s.find ns k) ∧ ∀ p, s.Registered p → s'.heap p = s.heap p

/-- What registration promises in state `s`: no class is its own ancestor, every walk along
parents ends, that of `addClass` included, and a refused call leaves no trace. -/
structure Classes.Sound (s : Classes μ α) : Prop where
  acyclic : s.registry.Acyclic
  walksEnd : s.registry.WalksEnd
  returns : ∀ c, s.Safe c → (s.call c).1 ≠ .error .diverges
  refused : ∀ c, s.Safe c → (s.call c).1 = .ok false → s.Unchanged (s.call c).2

/-- The states of runs in which every call is safe. Between calls the caller may change an
object it holds in any way, its name included; only the links of a registered prototype
are left to `addClass`. -/
inductive SafeRun : Classes μ α → Prop
  | start (heap : Ptr → Object μ α) : SafeRun (Classes.start heap)
  | edit {s : Classes μ α} (h : SafeRun s) {p : Ptr} {o : Object μ α}
      (hlinked : s.Registered p → Linked o.fields)
      (hparent : s.Registered p → keyAt o.fields PARENT = keyAt (s.heap p).fields PARENT) :
      SafeRun (s.write p o hlinked)
  | call {s : Classes μ α} (h : SafeRun s) {c : Call α} (hc : s.Safe c) : SafeRun (s.call c).2

end Safety

end Bison
