import Bison.Core.Memory
import Bison.Lib.Sharing

/-!
# The heap

Which object holds which, and what a change of the memory leaves as it was.

- `Child p q`: a field of `p` holds `q`; `Memory.Reach`, `Acyclic` and `Separate` are about it.
- `Valid`: a node is in one map, and pointers lead to objects that are there.
- `Extends X m m'`: what was there is as it was, but for the objects `X`.
- `read_congr`: the tree of an object depends on what is reached from it only.
- `read_of_acyclic`: an acyclic object shows a tree.
-/

namespace Bison

namespace Memory

/-- A field of the object at `p` holds the object at `q`. -/
def Child (m : Memory) (p q : Ptr) : Prop :=
  ∃ k n, (m.object p).fields.lookup k = some n ∧ m.content n = .object q

abbrev Reach (m : Memory) : Ptr → Ptr → Prop := Graph.Reach m.Child

abbrev Acyclic (m : Memory) : Ptr → Prop := Graph.Acyclic m.Child

/-- No object is reached from both. -/
abbrev Separate (m : Memory) : Ptr → Ptr → Prop := Graph.Separate m.Child

/-- The object is a prototype of the registry. -/
def IsClass (m : Memory) (p : Ptr) : Prop :=
  ∃ ns col name, m.classes.lookup ns = some col ∧ col.lookup name = some p

/-- What holds of every heap: a node belongs to one field of one object, and there are no dangling
pointers. -/
structure Valid (m : Memory) : Prop where
  absent : ∀ p, m.objects ≤ p → m.object p = {}
  node : ∀ p k n, (m.object p).fields.lookup k = some n → n < m.nodes
  owner : ∀ p q k l n, (m.object p).fields.lookup k = some n →
    (m.object q).fields.lookup l = some n → p = q ∧ k = l
  child : ∀ p q, m.Child p q → q < m.objects
  proto : ∀ p, m.IsClass p → p < m.objects

theorem valid_empty : Valid {} :=
  ⟨fun _ _ => rfl, nofun, nofun, fun _ _ ⟨_, _, hk, _⟩ => (nomatch hk),
    fun _ ⟨_, _, _, hns, _⟩ => (nomatch hns)⟩

/-- The objects that are there. -/
theorem Valid.closed {m : Memory} (h : m.Valid) : Graph.Closed m.Child (· < m.objects) :=
  fun p q _ hchild => h.child p q hchild

/-! ## What stays -/

/-- Everything that was there is as it was, but for the objects `X`. -/
structure Extends (X : Ptr → Prop) (m m' : Memory) : Prop where
  objects : m.objects ≤ m'.objects
  nodes : m.nodes ≤ m'.nodes
  object : ∀ p, p < m.objects → ¬ X p → m'.object p = m.object p
  content : ∀ n, n < m.nodes → m'.content n = m.content n
  classes : m'.classes = m.classes

variable {m m' m'' : Memory} {X Y : Ptr → Prop}

theorem Extends.refl (X : Ptr → Prop) (m : Memory) : m.Extends X m :=
  ⟨le_rfl, le_rfl, fun _ _ _ => rfl, fun _ _ => rfl, rfl⟩

theorem Extends.trans (h : m.Extends X m') (h' : m'.Extends Y m'')
    (hXY : ∀ p, Y p → p < m.objects → X p) : m.Extends X m'' :=
  ⟨h.objects.trans h'.objects, h.nodes.trans h'.nodes,
    fun p hp hX => (h'.object p (hp.trans_le h.objects) fun hY => hX (hXY p hY hp)).trans
      (h.object p hp hX),
    fun n hn => (h'.content n (hn.trans_le h.nodes)).trans (h.content n hn),
    h'.classes.trans h.classes⟩

theorem Extends.mono (h : m.Extends X m') (hXY : ∀ p, p < m.objects → X p → Y p) :
    m.Extends Y m' :=
  ⟨h.objects, h.nodes, fun p hp hY => h.object p hp fun hX => hY (hXY p hp hX), h.content,
    h.classes⟩

/-- The children of an object that stays are the same. -/
theorem Extends.child (h : m.Extends X m') (hm : m.Valid) {p q : Ptr} (hp : p < m.objects)
    (hX : ¬ X p) : m'.Child p q ↔ m.Child p q := by
  unfold Child
  rw [h.object p hp hX]
  refine exists_congr fun k => exists_congr fun n => and_congr_right fun hn => ?_
  rw [h.content n (hm.node p k n hn)]

/-! ## Writes -/

/-- An object with fields is there. -/
theorem Valid.lt (h : m.Valid) {p : Ptr} {k : Key} {n : Node}
    (hk : (m.object p).fields.lookup k = some n) : p < m.objects := by
  by_contra hp
  rw [h.absent p (not_lt.1 hp)] at hk
  cases hk

/-- The object loses fields, or gets none. -/
theorem Valid.setObject (h : m.Valid) {p : Ptr} {d : Dyn} (hp : p < m.objects)
    (hd : ∀ k n, d.fields.lookup k = some n → (m.object p).fields.lookup k = some n) :
    (m.setObject p d).Valid := by
  have hlookup {q : Ptr} {k : Key} {n : Node}
      (hk : ((m.setObject p d).object q).fields.lookup k = some n) :
      (m.object q).fields.lookup k = some n := by
    rw [object_setObject] at hk
    split_ifs at hk with heq
    · exact heq ▸ hd k n hk
    · exact hk
  refine ⟨fun q hq => ?_, fun q k n hk => h.node q k n (hlookup hk),
    fun q q' k l n hk hl => h.owner q q' k l n (hlookup hk) (hlookup hl), ?_, h.proto⟩
  · rw [object_setObject, if_neg (hp.trans_le hq).ne']
    exact h.absent q hq
  · rintro q q' ⟨k, n, hk, hn⟩
    exact h.child q q' ⟨k, n, hlookup hk, hn⟩

/-- A pointer to an object that is there is written. -/
theorem Valid.setContent (h : m.Valid) {n : Node} {c : Content}
    (hc : ∀ q, c = .object q → q < m.objects) : (m.setContent n c).Valid := by
  refine ⟨h.absent, h.node, h.owner, ?_, h.proto⟩
  rintro p q ⟨k, n', hk, hn'⟩
  rw [content_setContent] at hn'
  split_ifs at hn'
  · exact hc q hn'
  · exact h.child p q ⟨k, n', hk, hn'⟩

/-- The memory with one more object. -/
def withObject (m : Memory) (d : Dyn) : Memory :=
  { m.setObject m.objects d with objects := m.objects + 1 }

theorem Valid.withObject (h : m.Valid) {d : Dyn} (hd : d.fields = ∅) : (m.withObject d).Valid := by
  have hlookup {q : Ptr} {k : Key} {n : Node}
      (hk : ((m.withObject d).object q).fields.lookup k = some n) :
      (m.object q).fields.lookup k = some n := by
    have hobject := object_setObject m m.objects q d
    rw [show (m.withObject d).object q = _ from hobject] at hk
    split_ifs at hk
    · rw [hd] at hk
      cases hk
    · exact hk
  refine ⟨fun q hq => ?_, fun q k n hk => h.node q k n (hlookup hk),
    fun q q' k l n hk hl => h.owner q q' k l n (hlookup hk) (hlookup hl), ?_,
    fun q hq => Nat.lt_succ_of_lt (h.proto q hq)⟩
  · show (m.setObject m.objects d).object q = {}
    rw [object_setObject, if_neg (Nat.lt_of_succ_le hq).ne']
    exact h.absent q (Nat.le_of_succ_le hq)
  · rintro q q' ⟨k, n, hk, hn⟩
    exact Nat.lt_succ_of_lt (h.child q q' ⟨k, n, hlookup hk, hn⟩)

theorem extends_withObject (m : Memory) (d : Dyn) (X : Ptr → Prop) :
    m.Extends X (m.withObject d) := by
  refine ⟨Nat.le_succ _, le_rfl, fun p hp _ => ?_, fun _ _ => rfl, rfl⟩
  show (m.setObject m.objects d).object p = _
  rw [object_setObject, if_neg hp.ne]

/-- The fields of one object have gone to another. -/
structure HandsOver (m : Memory) (src dst : Ptr) (m' : Memory) : Prop where
  objects : m.objects ≤ m'.objects
  nodes : m'.nodes = m.nodes
  content : m'.content = m.content
  classes : m'.classes = m.classes
  live : dst < m'.objects
  given : (m'.object dst).fields = (m.object src).fields
  left : (m'.object src).fields = ∅
  other : ∀ p, p ≠ src → p ≠ dst → m'.object p = m.object p

theorem HandsOver.lookup {src dst : Ptr} (h : m.HandsOver src dst m') {p : Ptr} {k : Key} {n : Node}
    (hk : (m'.object p).fields.lookup k = some n) :
    p = dst ∧ (m.object src).fields.lookup k = some n ∨
      p ≠ dst ∧ p ≠ src ∧ (m.object p).fields.lookup k = some n := by
  by_cases hdst : p = dst
  · exact .inl ⟨hdst, h.given ▸ hdst ▸ hk⟩
  · by_cases hsrc : p = src
    · rw [hsrc, h.left] at hk
      cases hk
    · exact .inr ⟨hdst, hsrc, h.other p hsrc hdst ▸ hk⟩

theorem HandsOver.child {src dst : Ptr} (h : m.HandsOver src dst m') {p q : Ptr}
    (hchild : m'.Child p q) :
    p = dst ∧ m.Child src q ∨ p ≠ dst ∧ p ≠ src ∧ m.Child p q := by
  obtain ⟨k, n, hk, hn⟩ := hchild
  rw [h.content] at hn
  exact (h.lookup hk).imp (fun hk => ⟨hk.1, k, n, hk.2, hn⟩)
    fun hk => ⟨hk.1, hk.2.1, k, n, hk.2.2, hn⟩

theorem Valid.handsOver (hm : m.Valid) {src dst : Ptr} (hsrc : src < m.objects)
    (h : m.HandsOver src dst m') : m'.Valid := by
  refine ⟨fun p hp => ?_, fun p k n hk => ?_, fun p q k l n hk hl => ?_, fun p q hchild => ?_,
    fun p hp => ?_⟩
  · rw [h.other p (hsrc.trans_le (h.objects.trans hp)).ne' (h.live.trans_le hp).ne']
    exact hm.absent p (h.objects.trans hp)
  · rw [h.nodes]
    rcases h.lookup hk with ⟨-, hk⟩ | ⟨-, -, hk⟩ <;> exact hm.node _ k n hk
  · rcases h.lookup hk with ⟨hp, hk⟩ | ⟨hp, hp', hk⟩ <;>
      rcases h.lookup hl with ⟨hq, hl⟩ | ⟨hq, hq', hl⟩
    · exact ⟨hp.trans hq.symm, (hm.owner _ _ _ _ _ hk hl).2⟩
    · exact (hq' (hm.owner _ _ _ _ _ hk hl).1.symm).elim
    · exact (hp' (hm.owner _ _ _ _ _ hk hl).1).elim
    · exact hm.owner _ _ _ _ _ hk hl
  · rcases h.child hchild with ⟨-, hchild⟩ | ⟨-, -, hchild⟩ <;>
      exact (hm.child _ q hchild).trans_le h.objects
  · refine (hm.proto p ?_).trans_le h.objects
    unfold IsClass at hp ⊢
    exact h.classes ▸ hp

/-- The memory with one more field, in a node of its own. -/
def withField (m : Memory) (p : Ptr) (k : Key) (c : Content) : Memory :=
  { (m.setContent m.nodes c).setObject p
      { m.object p with fields := (m.object p).fields.insert k m.nodes } with
    nodes := m.nodes + 1 }

theorem lookup_withField (m : Memory) (p q : Ptr) (k l : Key) (c : Content) :
    ((m.withField p k c).object q).fields.lookup l =
      if q = p ∧ l = k then some m.nodes else (m.object q).fields.lookup l := by
  show (if q = p then ({ m.object p with fields := (m.object p).fields.insert k m.nodes } : Dyn)
    else m.object q).fields.lookup l = _
  by_cases hq : q = p
  · subst hq
    rw [if_pos rfl, FinMap.lookup_insert]
    simp only [true_and]
  · rw [if_neg hq, if_neg fun h => hq h.1]

theorem cache_withField (m : Memory) (p q : Ptr) (k : Key) (c : Content) :
    ((m.withField p k c).object q).lookup = (m.object q).lookup := by
  show (if q = p then _ else m.object q : Dyn).lookup = _
  split_ifs with heq
  · rw [heq]
  · rfl

theorem content_withField (m : Memory) (p : Ptr) (k : Key) (c : Content) (n : Node) :
    (m.withField p k c).content n = if n = m.nodes then c else m.content n := rfl

/-- The new field may hold an object; the others hold what they held. -/
theorem Valid.child_withField (h : m.Valid) {p q r : Ptr} {k : Key} {c : Content}
    (hchild : (m.withField p k c).Child q r) : m.Child q r ∨ q = p ∧ c = .object r := by
  obtain ⟨l, n, hl, hn⟩ := hchild
  rw [lookup_withField] at hl
  rw [content_withField] at hn
  split_ifs at hl with heq
  · rw [if_pos (Option.some.inj hl).symm] at hn
    exact .inr ⟨heq.1, hn⟩
  · rw [if_neg (h.node q l n hl).ne] at hn
    exact .inl ⟨l, n, hl, hn⟩

theorem Valid.withField (h : m.Valid) {p : Ptr} (hp : p < m.objects) (k : Key) {c : Content}
    (hc : ∀ q, c = .object q → q < m.objects) : (m.withField p k c).Valid := by
  refine ⟨fun q hq => ?_, fun q l n hl => ?_, fun q q' l l' n hl hl' => ?_, ?_, h.proto⟩
  · show (m.setObject p _).object q = {}
    rw [object_setObject, if_neg (hp.trans_le hq).ne']
    exact h.absent q hq
  · rw [lookup_withField] at hl
    split_ifs at hl
    · exact Option.some.inj hl ▸ Nat.lt_succ_self _
    · exact Nat.lt_succ_of_lt (h.node q l n hl)
  · rw [lookup_withField] at hl hl'
    split_ifs at hl hl' with heq heq' heq'
    · exact ⟨heq.1.trans heq'.1.symm, heq.2.trans heq'.2.symm⟩
    · cases hl
      exact (lt_irrefl _ (h.node q' l' _ hl')).elim
    · cases hl'
      exact (lt_irrefl _ (h.node q l _ hl)).elim
    · exact h.owner q q' l l' n hl hl'
  · intro q r hchild
    rcases h.child_withField hchild with hchild | ⟨-, hr⟩
    · exact h.child q r hchild
    · exact hc r hr

theorem extends_withField (m : Memory) (p : Ptr) (k : Key) (c : Content) :
    m.Extends (· = p) (m.withField p k c) := by
  refine ⟨le_rfl, Nat.le_succ _, fun q _ hq => ?_, fun n hn => ?_, rfl⟩
  · exact if_neg hq
  · rw [content_withField, if_neg hn.ne]

theorem withField_setContent (m : Memory) (p : Ptr) (k : Key) (c c' : Content) :
    (m.withField p k c).setContent m.nodes c' = m.withField p k c' := by
  have hcontent : ((m.withField p k c).setContent m.nodes c').content =
      (m.withField p k c').content := by
    funext n
    rw [content_setContent, content_withField, content_withField]
    split_ifs <;> rfl
  exact congrArg (fun content => { m.withField p k c with content }) hcontent

theorem nodeAt_none {p : Ptr} {k : Key} (h : (m.object p).fields.lookup k = none) :
    nodeAt p k m = ⟨.ok m.nodes, [], m.withField p k (.plain .monostate)⟩ := by
  unfold nodeAt
  rw [Program.bind_ok (getObject_run p m), h]
  rfl

theorem nodeAt_some {p : Ptr} {k : Key} {n : Node} (h : (m.object p).fields.lookup k = some n) :
    nodeAt p k m = ⟨.ok n, [], m⟩ := by
  unfold nodeAt
  rw [Program.bind_ok (getObject_run p m), h]
  rfl

/-- A key is written where there is a key, or nothing yet. -/
theorem assignKey_run {n : Node} {k : Key} {v : Value} (hv : m.content n = .plain v)
    (h : v.index = 0 ∨ v.index = 2) :
    assignKey n k m = ⟨.ok (), [], m.setContent n (.plain (.key k))⟩ := by
  unfold assignKey
  rw [Program.bind_ok (getContent_run n m), Program.bind_ok (getContent_run n m), hv]
  have hindex : (Content.plain v).index = 0 ∨ (Content.plain v).index = 2 := h
  rw [if_pos hindex]
  rfl

/-- A new object has its class, and no other fields. -/
theorem construct_run (m : Memory) (klass : Key) : construct klass ∅ m =
    ⟨.ok m.objects, [], (m.withObject {}).withField m.objects CLASS (.plain (.key klass))⟩ := by
  have hnone : ((m.withObject {}).object m.objects).fields.lookup CLASS = none := by
    show ((m.setObject m.objects {}).object m.objects).fields.lookup CLASS = none
    rw [object_self]
    rfl
  have hnew : newObject {} m = ⟨.ok m.objects, [], m.withObject {}⟩ := rfl
  have hassign := assignKey_run
    (m := (m.withObject {}).withField m.objects CLASS (.plain .monostate))
    (n := (m.withObject {}).nodes) (k := klass) (if_pos rfl) (.inl rfl)
  unfold construct
  rw [Program.bind_ok hnew]
  show (nodeAt m.objects CLASS >>= _) (m.withObject {}) = _
  rw [Program.bind_ok (nodeAt_none hnone), Program.bind_ok hassign]
  exact congrArg (Program.Outcome.mk (.ok m.objects) []) (withField_setContent (m.withObject {}) ..)

/-! ## Trees -/

/-- What a node shows. -/
def readNode (m : Memory) (depth : Nat) (n : Node) : Option Value :=
  match m.content n with
  | .plain v => some v
  | .object q => (m.read depth q).map .object

/-- The values are put together if all of them are there. -/
def collect (values : FinMap Key (Option Value)) : Option Fields :=
  values.entries.mapM fun kv => kv.2.map (Prod.mk kv.1)

theorem read_succ (m : Memory) (depth : Nat) (p : Ptr) :
    m.read (depth + 1) p = collect ((m.object p).fields.map (m.readNode depth)) := by
  rw [read, collect, FinMap.map, List.mapM_map]
  congr 1
  funext kv
  show _ = (m.readNode depth kv.2).map (Prod.mk kv.1)
  unfold readNode
  cases m.content kv.2 with
  | plain v => rfl
  | object q => exact (Option.map_map (Prod.mk kv.1) Value.object (m.read depth q)).symm

/-- Objects whose fields show the same show the same. -/
theorem read_eq {depth depth' : Nat} {p q : Ptr}
    (h : ∀ k, ((m'.object q).fields.lookup k).map (m'.readNode depth') =
      ((m.object p).fields.lookup k).map (m.readNode depth)) :
    m'.read (depth' + 1) q = m.read (depth + 1) p := by
  rw [read_succ, read_succ]
  congr 1
  ext1 k
  rw [FinMap.lookup_map, FinMap.lookup_map, h k]

/-- A tree depends on what is reached from its root only. -/
theorem read_congr {S : Ptr → Prop} (hS : Graph.Closed m.Child S)
    (hobject : ∀ p, S p → (m'.object p).fields = (m.object p).fields)
    (hcontent : ∀ p k n, S p → (m.object p).fields.lookup k = some n →
      m'.content n = m.content n) (depth : Nat) {p : Ptr} (hp : S p) :
    m'.read depth p = m.read depth p := by
  induction depth generalizing p with
  | zero => rfl
  | succ depth ih =>
    refine read_eq fun k => ?_
    rw [hobject p hp]
    cases hk : (m.object p).fields.lookup k with
    | none => rfl
    | some n =>
      refine congrArg some ?_
      unfold readNode
      rw [hcontent p k n hp hk]
      cases hn : m.content n with
      | plain v => rfl
      | object q => exact congrArg (Option.map Value.object) (ih (hS p q hp ⟨k, n, hk, hn⟩))

/-- What was there shows what it did, if nothing that it holds has changed. -/
theorem Extends.read (h : m.Extends X m') (hm : m.Valid) {S : Ptr → Prop}
    (hS : Graph.Closed m.Child S) (hlt : ∀ p, S p → p < m.objects) (hX : ∀ p, S p → ¬ X p)
    (depth : Nat) {p : Ptr} (hp : S p) : m'.read depth p = m.read depth p :=
  read_congr hS (fun p hp => by rw [h.object p (hlt p hp) (hX p hp)])
    (fun p k n _ hk => h.content n (hm.node p k n hk)) depth hp

theorem collect_isSome {values : FinMap Key (Option Value)} :
    (collect values).isSome ↔ ∀ k v, values.lookup k = some v → v.isSome := by
  have hlist : ∀ es : List (Key × Option Value),
      (es.mapM fun kv => kv.2.map (Prod.mk kv.1) : Option Fields).isSome ↔
        ∀ kv ∈ es, kv.2.isSome := by
    intro es
    induction es with
    | nil => simp
    | cons kv es ih =>
      rw [List.mapM_cons, List.forall_mem_cons, ← ih]
      cases kv.2 with
      | none => simp
      | some v =>
        cases hes : (es.mapM fun kv => kv.2.map (Prod.mk kv.1) : Option Fields) <;> simp
  rw [collect, hlist]
  exact ⟨fun h k v hk => h (k, v) (FinMap.mem_entries.2 hk),
    fun h kv hkv => h kv.1 kv.2 (FinMap.mem_entries.1 hkv)⟩

/-- An object shows a tree only if what it holds does. -/
theorem read_none {depth : Nat} {p q : Ptr} (hchild : m.Child p q) (h : m.read depth q = none) :
    m.read (depth + 1) p = none := by
  obtain ⟨k, n, hk, hn⟩ := hchild
  by_contra hsome
  rw [read_succ, ← ne_eq, Option.ne_none_iff_isSome, collect_isSome] at hsome
  have hnode := hsome k (m.readNode depth n) (by rw [FinMap.lookup_map, hk]; rfl)
  rw [readNode, hn] at hnode
  change ((m.read depth q).map Value.object).isSome at hnode
  rw [h] at hnode
  cases hnode

/-- With more room the tree is the same. -/
theorem read_mono {depth depth' : Nat} (hle : depth ≤ depth') {p : Ptr} {d : Fields}
    (h : m.read depth p = some d) : m.read depth' p = some d := by
  induction depth generalizing p d depth' with
  | zero => cases h
  | succ depth ih =>
    obtain ⟨depth', rfl⟩ := Nat.exists_eq_add_of_le' (Nat.le_trans (Nat.le_add_left 1 depth) hle)
    rw [← h]
    refine read_eq fun k => ?_
    cases hk : (m.object p).fields.lookup k with
    | none => rfl
    | some n =>
      refine congrArg some ?_
      have hsome : (m.readNode depth n).isSome := by
        rw [read_succ] at h
        refine collect_isSome.1 (Option.isSome_of_eq_some h) k _ ?_
        rw [FinMap.lookup_map, hk]
        rfl
      unfold readNode at hsome ⊢
      cases hn : m.content n with
      | plain v => rfl
      | object q =>
        rw [hn] at hsome
        obtain ⟨d', hd'⟩ := Option.isSome_iff_exists.1 (Option.isSome_map.symm.trans hsome)
        show (m.read depth' q).map _ = (m.read depth q).map _
        rw [hd', ih (Nat.le_of_succ_le_succ hle) hd']

theorem readNode_mono {depth depth' : Nat} (hle : depth ≤ depth') {n : Node}
    (h : (m.readNode depth n).isSome) : (m.readNode depth' n).isSome := by
  unfold readNode at h ⊢
  cases hn : m.content n with
  | plain v => rfl
  | object q =>
    rw [hn] at h
    obtain ⟨d, hd⟩ := Option.isSome_iff_exists.1 (Option.isSome_map.symm.trans h)
    show ((m.read depth' q).map Value.object).isSome
    rw [read_mono hle hd]
    rfl

/-- **An acyclic object shows a tree.** -/
theorem read_of_acyclic (hm : m.Valid) {p : Ptr} (hp : p < m.objects) (h : m.Acyclic p) :
    ∃ depth d, m.read depth p = some d := by
  refine Graph.Acyclic.induct (P := fun p => ∃ depth d, m.read depth p = some d)
    (S := (· < m.objects)) (Set.finite_lt_nat m.objects) hm.closed h hp fun x hx ih => ?_
  -- Enough room for the children is room for each of them.
  have hdepth : ∀ es : List (Key × Node), (∀ kv ∈ es, (m.object x).fields.lookup kv.1 = some kv.2) →
      ∃ depth, ∀ kv ∈ es, (m.readNode depth kv.2).isSome := by
    intro es hes
    induction es with
    | nil => exact ⟨0, nofun⟩
    | cons kv es ihes =>
      rw [List.forall_mem_cons] at hes
      obtain ⟨depth, hdepth⟩ := ihes hes.2
      have hfirst : ∃ depth, (m.readNode depth kv.2).isSome := by
        cases hn : m.content kv.2 with
        | plain v => exact ⟨0, by simp [readNode, hn]⟩
        | object q =>
          obtain ⟨depth, d, hd⟩ := ih q ⟨kv.1, kv.2, hes.1, hn⟩
          exact ⟨depth, by simp [readNode, hn, hd]⟩
      obtain ⟨depth', hdepth'⟩ := hfirst
      refine ⟨max depth depth', List.forall_mem_cons.2 ⟨?_, fun kv' hkv' => ?_⟩⟩
      · exact readNode_mono (le_max_right ..) hdepth'
      · exact readNode_mono (le_max_left ..) (hdepth kv' hkv')
  obtain ⟨depth, hdepth⟩ := hdepth (m.object x).fields.entries
    fun kv hkv => FinMap.mem_entries.1 hkv
  refine ⟨depth + 1, Option.isSome_iff_exists.1 ?_⟩
  rw [read_succ, collect_isSome]
  intro k v hk
  rw [FinMap.lookup_map, Option.map_eq_some_iff] at hk
  obtain ⟨n, hn, rfl⟩ := hk
  exact hdepth (k, n) (FinMap.mem_entries.2 hn)

end Memory

end Bison
