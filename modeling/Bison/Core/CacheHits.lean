import Bison.Core.CachedLookup

/-!
# What a cache remembers of fields that are there

A cache that is coherent says of a field that is there what the field map says. So it does not
matter of which of these fields it says anything: two memories that differ in nothing else go on
alike.

- `SameButHits m m'`: the memories differ in what the caches say of fields that are there.
- `Blind p`: the program writes to the caches at most.
- `findField_indistinct`, `subscript_indistinct`, `addClass_indistinct`: with caches that are
  settled, those that read them answer alike, too.
-/

namespace Bison

/-- The two objects have the same fields, and of the same fields it is known that they are
absent. -/
structure Dyn.SameButHits (d d' : Dyn) : Prop where
  fields : d'.fields = d.fields
  missed : ∀ k, d'.lookup.lookup k = some none ↔ d.lookup.lookup k = some none

namespace Dyn.SameButHits

variable {d d' : Dyn} {k : Key}

theorem refl (d : Dyn) : d.SameButHits d := ⟨rfl, fun _ => .rfl⟩

/-- The fields change alike. -/
theorem withFields (h : d.SameButHits d') (f : FinMap Key Node → FinMap Key Node) :
    SameButHits { d with fields := f d.fields } { d' with fields := f d'.fields } where
  fields := congrArg f h.fields
  missed := h.missed

/-- The caches are told the same. -/
theorem cache (h : d.SameButHits d') (k : Key) (found : Option Node) :
    SameButHits { d with lookup := d.lookup.insert k found }
      { d' with lookup := d'.lookup.insert k found } where
  fields := h.fields
  missed k' := by
    simp only [FinMap.lookup_insert]
    split_ifs with heq
    · exact .rfl
    · exact h.missed k'

/-- One of them is told of a field that is there. -/
theorem hit (h : d.SameButHits d') {n : Node} (hk : d'.lookup.lookup k ≠ some none) :
    SameButHits d { d' with lookup := d'.lookup.insert k (some n) } where
  fields := h.fields
  missed k' := by
    simp only [FinMap.lookup_insert]
    split_ifs with heq
    · rw [heq, ← h.missed k]
      exact iff_of_false (fun hmiss => by cases hmiss) hk
    · exact h.missed k'

theorem symm (h : d.SameButHits d') : d'.SameButHits d where
  fields := h.fields.symm
  missed k := (h.missed k).symm

theorem trans {d'' : Dyn} (h : d.SameButHits d') (h' : d'.SameButHits d'') :
    d.SameButHits d'' where
  fields := h'.fields.trans h.fields
  missed k := (h'.missed k).trans (h.missed k)

theorem erase (h : d.SameButHits d') (k : Key) :
    SameButHits { fields := d.fields.erase k, lookup := d.lookup.erase k }
      { fields := d'.fields.erase k, lookup := d'.lookup.erase k } where
  fields := congrArg (·.erase k) h.fields
  missed k' := by
    simp only [FinMap.lookup_erase]
    split_ifs
    · exact .rfl
    · exact h.missed k'

end Dyn.SameButHits

namespace Memory

open Program

/-- The memories differ in what the caches say of fields that are there. -/
structure SameButHits (m m' : Memory) : Prop where
  object : ∀ p, (m.object p).SameButHits (m'.object p)
  content : m'.content = m.content
  objects : m'.objects = m.objects
  nodes : m'.nodes = m.nodes
  classes : m'.classes = m.classes

namespace SameButHits

variable {m m' : Memory}

theorem refl (m : Memory) : m.SameButHits m := ⟨fun _ => .refl _, rfl, rfl, rfl, rfl⟩

theorem symm (h : m.SameButHits m') : m'.SameButHits m where
  object p := (h.object p).symm
  content := h.content.symm
  objects := h.objects.symm
  nodes := h.nodes.symm
  classes := h.classes.symm

theorem setObject (h : m.SameButHits m') (p : Ptr) {d d' : Dyn} (hd : d.SameButHits d') :
    (m.setObject p d).SameButHits (m'.setObject p d') where
  object q := by
    simp only [object_setObject]
    split_ifs
    · exact hd
    · exact h.object q
  content := h.content
  objects := h.objects
  nodes := h.nodes
  classes := h.classes

theorem setContent (h : m.SameButHits m') (n : Node) (c : Content) :
    (m.setContent n c).SameButHits (m'.setContent n c) where
  object := h.object
  content := by
    funext n'
    simp only [content_setContent, h.content]
  objects := h.objects
  nodes := h.nodes
  classes := h.classes

theorem setClasses (h : m.SameButHits m') (classes : List (Key × List (Key × Ptr))) :
    SameButHits { m with classes } { m' with classes } where
  object := h.object
  content := h.content
  objects := h.objects
  nodes := h.nodes
  classes := rfl

/-- One of them is told of a field that is there. -/
theorem hit (h : m.SameButHits m') {p : Ptr} {k : Key} {n : Node}
    (hk : (m'.object p).lookup.lookup k ≠ some none) :
    m.SameButHits (m'.setObject p
      { m'.object p with lookup := (m'.object p).lookup.insert k (some n) }) where
  object q := by
    rw [object_setObject]
    split_ifs with heq
    · rw [heq]
      exact (h.object p).hit hk
    · exact h.object q
  content := h.content
  objects := h.objects
  nodes := h.nodes
  classes := h.classes

/-- They show the same trees. -/
theorem read (h : m.SameButHits m') (depth : Nat) (p : Ptr) : m'.read depth p = m.read depth p := by
  induction depth generalizing p with
  | zero => rfl
  | succ depth ih => simp only [Memory.read, (h.object p).fields, h.content, ih]

theorem trans {m'' : Memory} (h : m.SameButHits m') (h' : m'.SameButHits m'') :
    m.SameButHits m'' where
  object p := (h.object p).trans (h'.object p)
  content := h'.content.trans h.content
  objects := h'.objects.trans h.objects
  nodes := h'.nodes.trans h.nodes
  classes := h'.classes.trans h.classes

end SameButHits

/-! ## Programs that do not read a cache -/

/-- The program does the same in both memories. -/
abbrev Blind {α : Type} (p : MemoryM α) : Prop := Coupled SameButHits p p

variable {α : Type} {p q : Ptr} {n : Node}

theorem getObject_blind {f g : Dyn → MemoryM α}
    (h : ∀ d d' : Dyn, d.SameButHits d' → Coupled SameButHits (f d) (g d')) :
    Coupled SameButHits (getObject p >>= f) (getObject p >>= g) :=
  fun m m' hm => h _ _ (hm.object p) m m' hm

theorem getContent_blind (n : Node) : Blind (getContent n) :=
  fun m m' hm => ⟨by rw [getContent_run, getContent_run, hm.content], rfl, hm⟩

theorem putContent_blind (n : Node) (c : Content) : Blind (putContent n c) :=
  .modify fun _ _ hm => hm.setContent n c

theorem modifyObject_blind {f g : Dyn → Dyn}
    (h : ∀ d d' : Dyn, d.SameButHits d' → (f d).SameButHits (g d')) :
    Coupled SameButHits (modifyObject p f) (modifyObject p g) :=
  .modify fun _ _ hm => hm.setObject p (h _ _ (hm.object p))

theorem newObject_blind (d : Dyn) : Blind (newObject d) := by
  refine .ofState fun m m' hm => ⟨congrArg Except.ok hm.objects.symm, ?_⟩
  have hset := hm.setObject m.objects (.refl d)
  rw [hm.objects]
  exact ⟨hset.object, hset.content, rfl, hset.nodes, hset.classes⟩

theorem newNode_blind (c : Content) : Blind (newNode c) := by
  refine .ofState fun m m' hm => ⟨congrArg Except.ok hm.nodes.symm, ?_⟩
  have hset := hm.setContent m.nodes c
  rw [hm.nodes]
  exact ⟨hset.object, hset.content, hset.objects, rfl, hset.classes⟩

theorem destroy_blind (p : Ptr) : Blind (destroy p) := modifyObject_blind fun _ _ _ => .refl _

theorem nodeAt_blind (p : Ptr) (k : Key) : Blind (nodeAt p k) := by
  refine getObject_blind fun d d' hd => ?_
  rw [hd.fields]
  cases d.fields.lookup k with
  | some n => exact .pure n
  | none =>
    exact .bind (newNode_blind _) fun n => .bind
      (modifyObject_blind fun _ _ h => h.withFields (·.insert k n)) fun _ => .pure n

theorem cache_blind (p : Ptr) (k : Key) (found : Option Node) : Blind (cache p k found) :=
  modifyObject_blind fun _ _ h => h.cache k found

/-- Where an entry is there it stays, and what it says of the field both caches say. -/
theorem cacheNew_blind (p : Ptr) (k : Key) (n : Node) : Blind (cacheNew p k n) := by
  intro m m' hm
  have hrun (m : Memory) : cacheNew p k n m = ⟨.ok (), [],
      if ((m.object p).lookup.lookup k).isSome then m else
        m.setObject p { m.object p with lookup := (m.object p).lookup.insert k (some n) }⟩ := by
    unfold cacheNew
    rw [bind_ok (getObject_run p m)]
    split_ifs <;> rfl
  rw [hrun, hrun]
  refine ⟨rfl, rfl, ?_⟩
  have hd := hm.object p
  by_cases hentry : ((m.object p).lookup.lookup k).isSome = true <;>
    by_cases hentry' : ((m'.object p).lookup.lookup k).isSome = true <;>
      simp only [hentry, hentry', if_true]
  · exact hm
  · refine hm.hit fun hmiss => hentry' ?_
    rw [hmiss]
    rfl
  · refine (hm.symm.hit fun hmiss => hentry ?_).symm
    rw [hmiss]
    rfl
  · exact hm.setObject p (hd.cache k (some n))

theorem assignKey_blind (n : Node) (k : Key) : Blind (assignKey n k) := by
  refine .bind (getContent_blind n) fun c => .bind (getContent_blind n) fun c' => ?_
  split
  · exact putContent_blind n _
  · exact .throw _

theorem construct_blind (klass : Key) (fields : FinMap Key Content) :
    Blind (construct klass fields) := by
  refine .bind (newObject_blind {}) fun p => .bind (.forEach fun kv _ => ?_) fun _ =>
    .bind (nodeAt_blind p CLASS) fun n => .bind (assignKey_blind n klass) fun _ => .pure p
  exact .bind (newNode_blind kv.2) fun n => modifyObject_blind fun _ _ h =>
    h.withFields (·.insert kv.1 n)

theorem init_blind (T : FieldType) : Blind T.init := by
  cases T with
  | object => exact .bind (construct_blind 0 ∅) fun p => .pure _
  | _ => exact .pure _

theorem asType_blind (T : FieldType) (n : Node) : Blind (asType T n) := by
  refine .bind (getContent_blind n) fun c => ?_
  split
  · exact .bind (init_blind T) fun c => putContent_blind n c
  split
  · exact .pure ()
  · exact .throw _

theorem index_blind (p : Ptr) (pos : Nat) : Blind (index p pos) :=
  .bind (nodeAt_blind p _) fun n => .bind (cache_blind p _ (some n)) fun _ => .pure n

theorem as_blind (T : FieldType) (p : Ptr) (name : Key) : Blind (as T p name) :=
  .bind (nodeAt_blind p name) fun n => .bind (cache_blind p name (some n)) fun _ =>
    .bind (asType_blind T n) fun _ => .pure n

theorem asKey_blind (p : Ptr) (name : Key) : Blind (asKey p name) := by
  refine .bind (as_blind .key p name) fun n => .bind (getContent_blind n) fun c => ?_
  split <;> exact .pure _

theorem erase_blind (p : Ptr) (pos : Nat) : Blind (erase p pos) :=
  modifyObject_blind fun _ _ h => h.erase _

theorem clear_blind (p : Ptr) : Blind (clear p) :=
  modifyObject_blind fun _ _ h => ⟨congrArg (·.filter fun k => 0x80000000 ≤ k) h.fields,
    fun _ => .rfl⟩

theorem addField_blind (p : Ptr) (name : Key) (c : Content) : Blind (addField p name c) := by
  refine getObject_blind fun d d' hd => ?_
  rw [hd.fields]
  cases d.fields.lookup name with
  | some n => exact .pure false
  | none =>
    exact .bind (newNode_blind c) fun n => .bind
      (modifyObject_blind fun _ _ h => h.withFields (·.insert name n)) fun _ =>
        .bind (cache_blind p name (some n)) fun _ => .pure true

theorem resolveNamespace_blind (p : Ptr) : Blind (resolveNamespace p) := by
  refine getObject_blind fun d d' hd => ?_
  rw [hd.fields]
  cases d.fields.lookup NAMESPACE with
  | some n =>
    refine .bind (getContent_blind n) fun c => ?_
    split
    · exact .pure _
    · exact .bind (assignKey_blind n 0) fun _ => .pure 0
  | none =>
    exact .bind (nodeAt_blind p NAMESPACE) fun n => .bind (assignKey_blind n 0) fun _ => .pure 0

/-! ## Copies -/

theorem copyFields_blind (src dst : Ptr) : Blind (copyFields src dst) := by
  refine getObject_blind fun d d' hd => .bind (modifyObject_blind fun _ _ _ => .refl _) fun _ => ?_
  rw [hd.fields]
  refine .forEach fun kv _ => .bind (getContent_blind kv.2) fun c => .bind (newNode_blind c)
    fun n => modifyObject_blind fun _ _ h => h.withFields (·.insert kv.1 n)

theorem cloneChildren_blind {cloneChild : Ptr → MemoryM Ptr} (h : ∀ q, Blind (cloneChild q))
    (dst : Ptr) : Blind (cloneChildren cloneChild dst) := by
  refine getObject_blind fun d d' hd => ?_
  rw [hd.fields]
  refine .forEach fun kv _ => .bind (getContent_blind kv.2) fun c => ?_
  cases c with
  | plain v => exact .pure ()
  | object q => exact .bind (h q) fun p => putContent_blind kv.2 _

theorem clonePtr_blind (depth : Nat) (src : Ptr) : Blind (clonePtr depth src) := by
  induction depth generalizing src with
  | zero => exact .throw _
  | succ depth ih =>
    exact .bind (construct_blind 0 ∅) fun dst => .bind (copyFields_blind src dst) fun _ =>
      .bind (cloneChildren_blind ih dst) fun _ => .pure dst

theorem cloneInto_blind (depth : Nat) (src dst : Ptr) : Blind (cloneInto depth src dst) :=
  .bind (copyFields_blind src dst) fun _ => cloneChildren_blind (clonePtr_blind depth) dst

theorem copyConstruct_blind (depth : Nat) (src : Ptr) : Blind (copyConstruct depth src) :=
  .bind (newObject_blind {}) fun dst => .bind (copyFields_blind src dst) fun _ =>
    .bind (cloneChildren_blind (clonePtr_blind depth) dst) fun _ => .pure dst

theorem moveConstruct_blind (src : Ptr) : Blind (moveConstruct src) := by
  refine getObject_blind fun d d' hd => ?_
  rw [hd.fields]
  exact .bind (newObject_blind _) fun dst => .bind
    (modifyObject_blind fun _ _ h => h.withFields fun _ => ∅) fun _ => .pure dst

theorem clone_blind (depth : Nat) (src : Ptr) : Blind (clone depth src) :=
  .bind (clonePtr_blind depth src) fun q => .bind (moveConstruct_blind q) fun dst =>
    .bind (destroy_blind q) fun _ => .pure dst

theorem decodeInto_blind (p : Ptr) (fields : FinMap Key Content) : Blind (decodeInto p fields) := by
  refine .bind (.forEach fun kv _ => .bind (nodeAt_blind p kv.1) fun n => putContent_blind n kv.2)
    fun _ => modifyObject_blind fun _ _ h => ⟨h.fields, fun _ => .rfl⟩

theorem instantiate_blind (ns klass : Key) : Blind (instantiate ns klass) := by
  refine .bind (construct_blind klass ∅) fun p => ?_
  split
  · exact .pure p
  · exact .bind (nodeAt_blind p NAMESPACE) fun n => .bind (assignKey_blind n ns) fun _ => .pure p

/-! ## Lookups -/

theorem copyContent_blind (depth : Nat) (c : Content) : Blind (copyContent depth c) := by
  cases c with
  | plain v => exact .pure _
  | object q => exact .bind (clonePtr_blind depth q) fun p => .pure _

theorem inherit_blind (depth : Nat) (p : Ptr) (name : Key) (proto : Node) :
    Blind (inherit depth p name proto) := by
  refine .bind (getContent_blind proto) fun c => .bind (copyContent_blind depth c) fun inherited =>
    getObject_blind fun d d' hd => ?_
  rw [hd.fields]
  cases d.fields.lookup name with
  | some n => exact .pure ()
  | none =>
    exact .bind (newNode_blind inherited) fun n => modifyObject_blind fun _ _ h =>
      h.withFields (·.insert name n)

theorem walkClasses_blind (depth : Nat) (col : List (Key × Ptr)) (p : Ptr) (name : Key)
    (steps : Nat) (klass : Key) : Blind (walkClasses depth col p name steps klass) := by
  induction steps generalizing klass with
  | zero => exact .throw _
  | succ steps ih =>
    unfold walkClasses
    cases col.lookup klass with
    | none => exact .pure ()
    | some proto =>
      refine getObject_blind fun d d' hd => ?_
      rw [hd.fields]
      cases d.fields.lookup name with
      | some n => exact inherit_blind depth p name n
      | none => exact .bind (asKey_blind proto PARENT) ih

theorem searchClasses_blind (depth : Nat) (p : Ptr) (name : Key) :
    Blind (searchClasses depth p name) := by
  refine .bind (resolveNamespace_blind p) fun ns => .get_bind fun m m' hm => ?_
  rw [hm.classes]
  cases m.classes.lookup ns with
  | none => exact .pure ()
  | some col =>
    exact .bind (asKey_blind p CLASS) fun klass => walkClasses_blind depth col p name _ klass

theorem walkAncestors_blind (col : List (Key × Ptr)) (name : Key) (steps : Nat) (ancestor : Key) :
    Blind (walkAncestors col name steps ancestor) := by
  induction steps generalizing ancestor with
  | zero => exact .throw _
  | succ steps ih =>
    unfold walkAncestors
    cases col.lookup ancestor with
    | none => exact .pure _
    | some proto =>
      simp only
      split
      · exact .pure _
      · exact .bind (asKey_blind proto PARENT) ih

/-! ## Lookups in the caches -/

/-- The caches on both sides are settled, and the objects `L` are there. -/
structure Indistinct (L : Ptr → Prop) (m m' : Memory) : Prop where
  left : m.Fit L
  right : m'.Fit L
  same : m.SameButHits m'

variable {L : Ptr → Prop} {depth : Nat} {name : Key}

/-- A program that keeps the caches settled, and tells them apart by no more than misses. -/
theorem indistinct_of_same {p : MemoryM α} (hfit : Maintains (Fit L) p)
    (h : ∀ m m', m.Indistinct L m' → (p m).result = (p m').result ∧ (p m).trace = (p m').trace ∧
      (p m).state.SameButHits (p m').state) : Coupled (Indistinct L) p p := by
  intro m m' hm
  obtain ⟨hresult, htrace, hsame⟩ := h m m' hm
  exact ⟨hresult, htrace, hfit.state hm.left, hfit.state hm.right, hsame⟩

theorem Blind.indistinct {p : MemoryM α} (h : Blind p) (hfit : Maintains (Fit L) p) :
    Coupled (Indistinct L) p p :=
  indistinct_of_same hfit fun m m' hm => h m m' hm.same

/-- The lookup of a field that the object has. -/
theorem findField_present (depth : Nat) {m : Memory} (hcoherent : (m.object p).Coherent) {n : Node}
    (hown : (m.object p).fields.lookup name = some n) :
    ∃ m', findField depth p name m = ⟨.ok (some n), [], m'⟩ ∧ m.SameButHits m' := by
  cases hcached : (m.object p).lookup.lookup name with
  | some found =>
    have hfound : some n = found := hown.symm.trans (hcoherent name found hcached)
    rw [← hfound] at hcached
    exact ⟨m, findField_cached hcached, .refl m⟩
  | none =>
    have hunmissed : (m.object p).lookup.lookup name ≠ some none := by
      rw [hcached]
      nofun
    have hrun : findField depth p name m =
        (do cacheNew p name n; return some n : MemoryM (Option Node)) m := by
      unfold findField
      rw [bind_ok (getObject_run p m)]
      simp only [hcached]
      rw [bind_ok (getObject_run p m)]
      simp only [hown]
      rfl
    rw [hrun]
    rcases cacheNew_run p name n m with hcache | hcache <;> rw [bind_ok hcache]
    · exact ⟨m, rfl, .refl m⟩
    · exact ⟨_, rfl, (SameButHits.refl m).hit hunmissed⟩

/-- One cache has the field, the other need not know of it. -/
theorem findField_hit {m m' : Memory} (h : m.SameButHits m') (hcoherent : (m.object p).Coherent)
    (hcoherent' : (m'.object p).Coherent) {n : Node}
    (hhit : (m.object p).lookup.lookup name = some (some n)) :
    (findField depth p name m).result = (findField depth p name m').result ∧
      (findField depth p name m).trace = (findField depth p name m').trace ∧
      (findField depth p name m).state.SameButHits (findField depth p name m').state := by
  have hown := hcoherent name (some n) hhit
  have hown' : (m'.object p).fields.lookup name = some n := by rw [(h.object p).fields, hown]
  obtain ⟨m₁, hrun, hsame⟩ := findField_present depth hcoherent hown
  obtain ⟨m₁', hrun', hsame'⟩ := findField_present depth hcoherent' hown'
  rw [hrun, hrun']
  exact ⟨rfl, rfl, (hsame.symm.trans h).trans hsame'⟩

/-- Neither cache has an entry for the field. -/
theorem findField_unknown {m m' : Memory} (h : m.SameButHits m')
    (hentry : (m.object p).lookup.lookup name = none)
    (hentry' : (m'.object p).lookup.lookup name = none) :
    (findField depth p name m).result = (findField depth p name m').result ∧
      (findField depth p name m).trace = (findField depth p name m').trace ∧
      (findField depth p name m).state.SameButHits (findField depth p name m').state := by
  unfold findField
  rw [bind_ok (getObject_run p m), bind_ok (getObject_run p m')]
  simp only [hentry, hentry']
  refine (getObject_blind fun d d' hd => ?_ : Coupled SameButHits _ _) m m' h
  rw [hd.fields]
  cases d.fields.lookup name with
  | some n => exact .bind (cacheNew_blind p name n) fun _ => .pure (some n)
  | none =>
    refine .bind (searchClasses_blind depth p name) fun _ => getObject_blind fun d d' hd => ?_
    rw [hd.fields]
    cases d.fields.lookup name with
    | some n => exact .bind (cacheNew_blind p name n) fun _ => .pure (some n)
    | none => exact .bind (cache_blind p name none) fun _ => .pure none

theorem findField_indistinct (depth : Nat) (name : Key) (hp : L p) :
    Coupled (Indistinct L) (findField depth p name) (findField depth p name) := by
  refine indistinct_of_same (findField_sound depth name hp) fun m m' hm => ?_
  have hcoherent := (hm.left.settled p).coherent
  have hcoherent' := (hm.right.settled p).coherent
  have hd := hm.same.object p
  cases hentry : (m.object p).lookup.lookup name with
  | some found =>
    cases found with
    | none =>
      -- Both know that there is none.
      have hentry' := (hd.missed name).2 hentry
      rw [findField_cached hentry, findField_cached hentry']
      exact ⟨rfl, rfl, hm.same⟩
    | some n => exact findField_hit hm.same hcoherent hcoherent' hentry
  | none =>
    cases hentry' : (m'.object p).lookup.lookup name with
    | some found =>
      cases found with
      | none =>
        rw [(hd.missed name).1 hentry'] at hentry
        cases hentry
      | some n =>
        obtain ⟨hresult, htrace, hstate⟩ := findField_hit hm.same.symm hcoherent' hcoherent hentry'
        exact ⟨hresult.symm, htrace.symm, hstate.symm⟩
    | none => exact findField_unknown hm.same hentry hentry'

theorem subscript_indistinct (depth : Nat) (name : Key) (hp : L p) :
    Coupled (Indistinct L) (subscript depth p name) (subscript depth p name) := by
  refine .bind (findField_indistinct depth name hp) fun found => ?_
  cases found with
  | some n => exact .pure n
  | none =>
    have htouch : Blind (nodeAt p name >>= fun n => cache p name (some n) >>= fun _ => pure n) :=
      .bind (nodeAt_blind p name) fun n => .bind (cache_blind p name (some n)) fun _ => .pure n
    exact htouch.indistinct (touch_sound fun n => .pure fun _ h => h.1)

theorem addClass_indistinct (depth : Nat) (ns : Key) (parent : Key) (hp : L p) :
    Coupled (Indistinct L) (addClass depth ns p parent) (addClass depth ns p parent) := by
  have hassign (n : Node) (k : Key) : Coupled (Indistinct L) (assignKey n k) (assignKey n k) :=
    (assignKey_blind n k).indistinct (assignKey_sound n k)
  have hclasses (f g : Memory → List (Key × List (Key × Ptr)))
      (h : ∀ m m' : Memory, m.SameButHits m' → f m = g m') : Coupled (Indistinct L)
        (Program.modify fun m => { m with classes := f m } : MemoryM Unit)
        (Program.modify fun m => { m with classes := g m }) := by
    refine .modify fun m m' hm => ⟨hm.left.of_objects rfl rfl, hm.right.of_objects rfl rfl, ?_⟩
    rw [h m m' hm.same]
    exact hm.same.setClasses _
  refine .bind ((asKey_blind p CLASS).indistinct (asKey_sound p CLASS)) fun name =>
    .bind (subscript_indistinct depth PARENT hp) fun n => .bind (hassign n parent) fun _ =>
      .bind (subscript_indistinct depth NAMESPACE hp) fun n => .bind (hassign n ns) fun _ =>
        .get_bind fun m m' hm => ?_
  rw [hm.same.classes]
  refine .bind (hclasses _ _ fun m m' hm => by rw [hm.classes]) fun _ =>
    .bind ((walkAncestors_blind _ name _ parent).indistinct (walkAncestors_sound _ name _ parent))
      fun ancestor => ?_
  split
  · exact .pure false
  split
  · exact .pure false
  · exact .bind (hclasses _ _ fun m m' hm => by rw [hm.classes]) fun _ => .pure true

end Memory

end Bison
