import Bison.Core.Clones
import Bison.Lib.Chase

/-!
# The chain of an object

The classes of an object, nearest first, as the registry has them, and what the slow path of
`findField` makes of them. On its way it writes the keys that it needs and that are absent: the
namespace and the class of the object, and the parents of the classes.

- `Nearest`: the nearest class that declares a field.
- `Looked`: the memory is as it was, but for keys that were written as `0`.
- `Grows`: no object that was there holds another object that was there and that it did not hold.
- `searchClasses_answers`: **main result**, a search brings about no sharing, and finds the default
  of the nearest class.
-/

namespace Bison

namespace Memory

open Program

/-! ## Classes -/

/-- The key in a field: `0` if there is none, and none if there is something else. -/
def keyOf (m : Memory) (p : Ptr) (k : Key) : Option Key :=
  match (m.object p).fields.lookup k with
  | none => some 0
  | some n =>
    match m.content n with
    | .plain .monostate => some 0
    | .plain (.key key) => some key
    | _ => none

/-- From the class on, the nearest one that declares the field has it in the node. -/
inductive Nearest (m : Memory) (col : List (Key × Ptr)) (name : Key) : Key → Option Node → Prop
  | outside {klass : Key} : col.lookup klass = none → Nearest m col name klass none
  | declared {klass : Key} {proto : Ptr} {n : Node} : col.lookup klass = some proto →
    (m.object proto).fields.lookup name = some n → Nearest m col name klass (some n)
  | inherited {klass parent : Key} {proto : Ptr} {found : Option Node} :
    col.lookup klass = some proto → (m.object proto).fields.lookup name = none →
    m.keyOf proto PARENT = some parent → Nearest m col name parent found →
    Nearest m col name klass found

/-- The default that the object has for the field. -/
inductive Default (m : Memory) (p : Ptr) (name : Key) : Option Node → Prop
  | unknown {ns : Key} : m.keyOf p NAMESPACE = some ns → m.classes.lookup ns = none →
    Default m p name none
  | nearest {ns klass : Key} {col : List (Key × Ptr)} {found : Option Node} :
    m.keyOf p NAMESPACE = some ns → m.classes.lookup ns = some col →
    m.keyOf p CLASS = some klass → Nearest m col name klass found → Default m p name found

variable {m m' m'' : Memory} {p q : Ptr} {k name : Key} {n : Node} {depth : Nat}

theorem Nearest.unique {col : List (Key × Ptr)} {klass : Key} {found found' : Option Node}
    (h : m.Nearest col name klass found) (h' : m.Nearest col name klass found') :
    found = found' := by
  induction h with
  | outside hcol =>
    cases h' with
    | outside _ => rfl
    | declared hcol' _ => cases hcol.symm.trans hcol'
    | inherited hcol' _ _ _ => cases hcol.symm.trans hcol'
  | declared hcol hname =>
    cases h' with
    | outside hcol' => cases hcol.symm.trans hcol'
    | declared hcol' hname' =>
      cases hcol.symm.trans hcol'
      exact hname.symm.trans hname'
    | inherited hcol' hname' _ _ =>
      cases hcol.symm.trans hcol'
      cases hname.symm.trans hname'
  | inherited hcol hname hparent _ ih =>
    cases h' with
    | outside hcol' => cases hcol.symm.trans hcol'
    | declared hcol' hname' =>
      cases hcol.symm.trans hcol'
      cases hname.symm.trans hname'
    | inherited hcol' hname' hparent' hnext =>
      cases hcol.symm.trans hcol'
      cases hparent.symm.trans hparent'
      exact ih hnext

/-! ## What a lookup writes -/

/-- The keys that a lookup in `p` writes where they are absent. -/
def Fills (m : Memory) (p q : Ptr) (k : Key) : Prop :=
  q = p ∧ (k = NAMESPACE ∨ k = CLASS) ∨ m.IsClass q ∧ k = PARENT

/-- The memory is as it was, but for keys that were absent, and now are `0`. -/
structure Looked (m : Memory) (p : Ptr) (m' : Memory) : Prop where
  valid : m'.Valid
  objects : m'.objects = m.objects
  nodes : m.nodes ≤ m'.nodes
  classes : m'.classes = m.classes
  kept : ∀ q k n, (m.object q).fields.lookup k = some n →
    (m'.object q).fields.lookup k = some n ∧ (m'.content n = m.content n ∨
      m.Fills p q k ∧ m.content n = .plain .monostate ∧ m'.content n = .plain (.key 0))
  filled : ∀ q k n, (m.object q).fields.lookup k = none →
    (m'.object q).fields.lookup k = some n → m.Fills p q k ∧ m'.content n = .plain (.key 0)
  missed : ∀ q k, ¬ m.Fills p q k → (m.object q).lookup.lookup k = some none →
    (m'.object q).lookup.lookup k = some none

theorem Looked.refl (hm : m.Valid) (p : Ptr) : m.Looked p m :=
  ⟨hm, rfl, le_rfl, rfl, fun _ _ _ hk => ⟨hk, .inl rfl⟩, fun _ _ _ hk hk' =>
    (nomatch hk.symm.trans hk'), fun _ _ _ hk => hk⟩

theorem Looked.isClass (h : m.Looked p m') : m'.IsClass q ↔ m.IsClass q := by
  unfold IsClass
  rw [h.classes]

/-- Every key is what it was. -/
theorem Looked.keyOf (h : m.Looked p m') (q : Ptr) (k : Key) : m'.keyOf q k = m.keyOf q k := by
  unfold Memory.keyOf
  cases hk : (m.object q).fields.lookup k with
  | some n =>
    obtain ⟨hk', hn⟩ := h.kept q k n hk
    rw [hk']
    rcases hn with hn | ⟨-, hn, hn'⟩
    · simp only [hn]
    · simp only [hn, hn']
  | none =>
    cases hk' : (m'.object q).fields.lookup k with
    | none => rfl
    | some n => simp only [(h.filled q k n hk hk').2]

/-- A field that a lookup does not add is there if it was. -/
theorem Looked.lookup (h : m.Looked p m')
    (hfills : m.Fills p q k → (m.object q).fields.lookup k ≠ none) :
    (m'.object q).fields.lookup k = (m.object q).fields.lookup k := by
  cases hk : (m.object q).fields.lookup k with
  | some n => exact (h.kept q k n hk).1
  | none =>
    cases hk' : (m'.object q).fields.lookup k with
    | none => rfl
    | some n => exact (hfills (h.filled q k n hk hk').1 hk).elim

theorem Looked.child (h : m.Looked p m') : m'.Child = m.Child := by
  funext x y
  refine propext ⟨?_, ?_⟩
  · rintro ⟨k, n, hk, hn⟩
    cases hold : (m.object x).fields.lookup k with
    | none => cases hn.symm.trans (h.filled x k n hold hk).2
    | some n' =>
      obtain ⟨hk', hn'⟩ := h.kept x k n' hold
      cases hk.symm.trans hk'
      rcases hn' with hn' | ⟨-, -, hn'⟩
      · exact ⟨k, n, hold, hn' ▸ hn⟩
      · cases hn.symm.trans hn'
  · rintro ⟨k, n, hk, hn⟩
    obtain ⟨hk', hn'⟩ := h.kept x k n hk
    rcases hn' with hn' | ⟨-, hn', -⟩
    · exact ⟨k, n, hk', hn' ▸ hn⟩
    · cases hn.symm.trans hn'

/-- The cache is not what an object shows. -/
theorem Looked.cached (h : m.Looked p m') (hq : q < m'.objects)
    {lookup : FinMap Key (Option Node)} (hmissed : ∀ k, ¬ m.Fills p q k →
      (m'.object q).lookup.lookup k = some none → lookup.lookup k = some none) :
    m.Looked p (m'.setObject q { m'.object q with lookup }) := by
  have hfields (x : Ptr) : ((m'.setObject q { m'.object q with lookup }).object x).fields =
      (m'.object x).fields := by
    rw [object_setObject]
    split_ifs with heq
    · rw [heq]
    · rfl
  refine ⟨h.valid.setObject hq fun _ _ hk => hk, h.objects, h.nodes, h.classes,
    fun x k n hk => ?_, fun x k n hk hk' => ?_, fun x k hk hmiss => ?_⟩
  · rw [hfields]
    exact h.kept x k n hk
  · rw [hfields] at hk'
    exact h.filled x k n hk hk'
  · rw [object_setObject]
    split_ifs with heq
    · exact hmissed k (heq ▸ hk) (heq ▸ h.missed x k hk hmiss)
    · exact h.missed x k hk hmiss

/-- A key that the lookup may write is remembered. -/
theorem Looked.remembered (h : m.Looked p m') (hq : q < m'.objects) (hfills : m.Fills p q k)
    (found : Option Node) : m.Looked p
      (m'.setObject q { m'.object q with lookup := (m'.object q).lookup.insert k found }) := by
  refine h.cached hq fun l hl hmiss => ?_
  have hne : l ≠ k := by
    rintro rfl
    exact hl hfills
  rw [FinMap.lookup_insert, if_neg hne]
  exact hmiss

/-- The key is absent, and is written. -/
theorem Looked.fill (h : m.Looked p m') (hq : q < m'.objects) (hfills : m.Fills p q k)
    (hk : (m'.object q).fields.lookup k = none) :
    m.Looked p (m'.withField q k (.plain (.key 0))) := by
  refine ⟨h.valid.withField hq k nofun, h.objects, h.nodes.trans (Nat.le_succ _), h.classes,
    fun x l n hl => ?_, fun x l n hl hl' => ?_, fun x l hl hmiss => ?_⟩
  · obtain ⟨hl', hn⟩ := h.kept x l n hl
    have hne : ¬ (x = q ∧ l = k) := by
      rintro ⟨rfl, rfl⟩
      cases hk.symm.trans hl'
    rw [lookup_withField, if_neg hne, content_withField,
      if_neg (h.valid.node x l n hl').ne]
    exact ⟨hl', hn⟩
  · rw [lookup_withField] at hl'
    rw [content_withField]
    split_ifs at hl' with heq
    · rw [if_pos (Option.some.inj hl').symm, heq.1, heq.2]
      exact ⟨hfills, rfl⟩
    · rw [if_neg (h.valid.node x l n hl').ne]
      exact h.filled x l n hl hl'
  · rw [cache_withField]
    exact h.missed x l hl hmiss

/-- The key is empty, and is written. -/
theorem Looked.write (h : m.Looked p m') (hfills : m.Fills p q k)
    (hk : (m'.object q).fields.lookup k = some n) (hn : m'.content n = .plain .monostate) :
    m.Looked p (m'.setContent n (.plain (.key 0))) := by
  refine ⟨h.valid.setContent nofun, h.objects, h.nodes, h.classes, fun x l n' hl => ?_,
    fun x l n' hl hl' => ?_, h.missed⟩
  · obtain ⟨hl', hn'⟩ := h.kept x l n' hl
    refine ⟨hl', ?_⟩
    rw [content_setContent]
    split_ifs with heq
    · obtain ⟨rfl, rfl⟩ := h.valid.owner q x k l n' (heq ▸ hk) hl'
      rcases hn' with hn' | ⟨-, -, hn'⟩
      · exact .inr ⟨hfills, hn' ▸ heq ▸ hn, rfl⟩
      · cases (heq ▸ hn).symm.trans hn'
    · exact hn'
  · rw [content_setContent]
    split_ifs with heq
    · obtain ⟨rfl, rfl⟩ := h.valid.owner q x k l n' (heq ▸ hk) hl'
      exact ⟨hfills, rfl⟩
    · exact h.filled x l n' hl hl'

theorem Fills.lt (hm : m.Valid) (hp : p < m.objects) (h : m.Fills p q k) : q < m.objects := by
  rcases h with ⟨rfl, -⟩ | ⟨h, -⟩
  · exact hp
  · exact hm.proto q h

theorem keyOf_some (hk : (m.object q).fields.lookup k = some n) : m.keyOf q k =
    match m.content n with
    | .plain .monostate => some 0
    | .plain (.key key) => some key
    | _ => none := by
  unfold keyOf
  rw [hk]

theorem asType_key_run (n : Node) (m : Memory) : asType .key n m =
    if (m.content n).index = 0 then ⟨.ok (), [], m.setContent n (.plain (.key 0))⟩
    else if (m.content n).index = 2 then ⟨.ok (), [], m⟩
    else ⟨.error (.runtimeError "Invalid type"), [], m⟩ := by
  unfold asType
  rw [bind_ok (getContent_run n m)]
  have hindex : FieldType.key.index = 2 := rfl
  rw [hindex]
  split_ifs <;> rfl

theorem asKey_eq (p : Ptr) (k : Key) : asKey p k = do
    let n ← nodeAt p k
    cache p k n
    asType .key n
    match ← getContent n with
    | .plain (.key key) => return key
    | _ => return 0 := by
  unfold asKey as
  simp only [Program.bind_assoc]
  rfl

/-- `as<key_t>` of a field that is there. -/
theorem asKey_some (h : m.Looked p m') (hq : q < m'.objects) (hfills : m.Fills p q k)
    (hk : (m'.object q).fields.lookup k = some n) :
    (∃ key m₁, asKey q k m' = ⟨.ok key, [], m₁⟩ ∧ m.Looked p m₁ ∧ m.keyOf q k = some key) ∨
      ∃ e m₁, asKey q k m' = ⟨.error e, [], m₁⟩ ∧ m.Looked p m₁ ∧ m.keyOf q k = none := by
  set m₂ : Memory := m'.setObject q { m'.object q with
    lookup := (m'.object q).lookup.insert k (some n) } with hm₂
  have hlooked : m.Looked p m₂ := h.remembered hq hfills _
  have hk₂ : (m₂.object q).fields.lookup k = some n := by
    rw [hm₂, object_self]
    exact hk
  have hcache : cache q k (some n) m' = ⟨.ok (), [], m₂⟩ := rfl
  have hkey := (h.keyOf q k).symm.trans (keyOf_some hk)
  have hcontent : m₂.content n = m'.content n := rfl
  have htype := asType_key_run n m₂
  rw [asKey_eq, bind_ok (nodeAt_some hk), bind_ok hcache]
  rw [hcontent] at htype
  -- What the field holds decides it.
  have hother (hindex : (m'.content n).index ≠ 0) (hindex' : (m'.content n).index ≠ 2) :
      asType .key n m₂ = ⟨.error (.runtimeError "Invalid type"), [], m₂⟩ := by
    rw [htype, if_neg hindex, if_neg hindex']
  cases hn : m'.content n with
  | object x =>
    rw [hn] at hkey hother
    rw [bind_error (hother nofun nofun)]
    exact .inr ⟨_, _, rfl, hlooked, hkey⟩
  | plain v =>
    rw [hn] at hkey hother htype
    cases v with
    | monostate =>
      have hread := getContent_run n (m₂.setContent n (.plain (.key 0)))
      rw [content_setContent, if_pos rfl] at hread
      rw [bind_ok (htype.trans (if_pos rfl)), bind_ok hread]
      exact .inl ⟨0, _, rfl, hlooked.write hfills hk₂ (hcontent.trans hn), hkey⟩
    | key key =>
      have hread := getContent_run n m₂
      rw [hcontent, hn] at hread
      rw [bind_ok (htype.trans ((if_neg nofun).trans (if_pos rfl))), bind_ok hread]
      exact .inl ⟨key, _, rfl, hlooked, hkey⟩
    | _ =>
      rw [bind_error (hother nofun nofun)]
      exact .inr ⟨_, _, rfl, hlooked, hkey⟩

/-- `as<key_t>`, of a key that a lookup may write. -/
theorem asKey_looked (hm : m.Valid) (hp : p < m.objects) (hfills : m.Fills p q k) :
    Triple (m.Looked p) (asKey q k) (fun key m' => m.Looked p m' ∧ m.keyOf q k = some key)
      fun _ m' => m.Looked p m' ∧ m.keyOf q k = none := by
  intro m' h
  have hq : q < m'.objects := h.objects ▸ hfills.lt hm hp
  cases hk : (m'.object q).fields.lookup k with
  | some n =>
    rcases asKey_some h hq hfills hk with ⟨key, m₁, hrun, hdone⟩ | ⟨e, m₁, hrun, hdone⟩ <;>
      rw [hrun] <;> exact hdone
  | none =>
    -- The field is added, empty, and then written.
    set m₁ := m'.withField q k (.plain .monostate) with hm₁
    set d : Dyn := { m₁.object q with lookup := (m₁.object q).lookup.insert k (some m'.nodes) }
    have hcache : cache q k (some m'.nodes) m₁ = ⟨.ok (), [], m₁.setObject q d⟩ := rfl
    have hcontent : (m₁.setObject q d).content m'.nodes = .plain .monostate := if_pos rfl
    have htype := asType_key_run m'.nodes (m₁.setObject q d)
    rw [hcontent] at htype
    have hread := getContent_run m'.nodes ((m₁.setObject q d).setContent m'.nodes (.plain (.key 0)))
    rw [content_setContent, if_pos rfl] at hread
    rw [asKey_eq, bind_ok (nodeAt_none hk), bind_ok hcache, bind_ok (htype.trans (if_pos rfl)),
      bind_ok hread]
    have hkey : m.keyOf q k = some 0 := by
      rw [← h.keyOf, Memory.keyOf, hk]
    have hstate : (m₁.setObject q d).setContent m'.nodes (.plain (.key 0)) =
        (m'.withField q k (.plain (.key 0))).setObject q d :=
      congrArg (fun m => m.setObject q d) (withField_setContent m' q k _ _)
    exact ⟨hstate ▸ (h.fill hq hfills hk).remembered hq hfills (some m'.nodes), hkey⟩

theorem assignKey_error {v : Content} {l : Key} (hv : m.content n = v)
    (h : ¬ (v.index = 0 ∨ v.index = 2)) :
    assignKey n l m = ⟨.error (.runtimeError "Invalid type"), [], m⟩ := by
  unfold assignKey
  rw [bind_ok (getContent_run n m), bind_ok (getContent_run n m), hv, if_neg h]
  rfl

theorem resolveNamespace_looked (hp : p < m.objects) :
    Triple (m.Looked p) (resolveNamespace p)
      (fun ns m' => m.Looked p m' ∧ m.keyOf p NAMESPACE = some ns)
      fun _ m' => m.Looked p m' ∧ m.keyOf p NAMESPACE = none := by
  have hfills : m.Fills p p NAMESPACE := .inl ⟨rfl, .inl rfl⟩
  intro m' h
  have hp' : p < m'.objects := h.objects ▸ hp
  unfold resolveNamespace
  rw [bind_ok (getObject_run p m')]
  cases hk : (m'.object p).fields.lookup NAMESPACE with
  | none =>
    have hkey : m.keyOf p NAMESPACE = some 0 := by
      rw [← h.keyOf, Memory.keyOf, hk]
    have hassign := assignKey_run (m := m'.withField p NAMESPACE (.plain .monostate))
      (n := m'.nodes) (k := 0) (if_pos rfl) (.inl rfl)
    rw [withField_setContent] at hassign
    simp only [bind_ok (nodeAt_none hk), bind_ok hassign]
    exact ⟨h.fill hp' hfills hk, hkey⟩
  | some n =>
    have hkey := (h.keyOf p NAMESPACE).symm.trans (keyOf_some hk)
    simp only [bind_ok (getContent_run n m')]
    cases hn : m'.content n with
    | object x =>
      rw [hn] at hkey
      simp only [bind_error (assignKey_error (l := 0) hn nofun)]
      exact ⟨h, hkey⟩
    | plain v =>
      rw [hn] at hkey
      cases v with
      | key key => exact ⟨h, hkey⟩
      | monostate =>
        simp only [bind_ok (assignKey_run (k := 0) hn (.inl rfl))]
        exact ⟨h.write hfills hk hn, hkey⟩
      | _ =>
        simp only [bind_error (assignKey_error (l := 0) hn nofun)]
        exact ⟨h, hkey⟩

/-! ## What a lookup brings about -/

/-- The object shows what it did. -/
def Untouched (m : Memory) (q : Ptr) (m' : Memory) : Prop :=
  (m'.object q).fields = (m.object q).fields ∧
    ∀ k n, (m.object q).fields.lookup k = some n → m'.content n = m.content n

theorem Untouched.trans (h : m.Untouched q m') (h' : m'.Untouched q m'') : m.Untouched q m'' :=
  ⟨h'.1.trans h.1, fun k n hk => (h'.2 k n (h.1.symm ▸ hk)).trans (h.2 k n hk)⟩

/-- No object that was there holds another one that was there and that it did not hold: only the
object itself holds something new, in which there are new objects only. -/
structure Grows (m : Memory) (p : Ptr) (m' : Memory) : Prop where
  valid : m'.Valid
  objects : m.objects ≤ m'.objects
  nodes : m.nodes ≤ m'.nodes
  classes : m'.classes = m.classes
  other : ∀ q, q < m.objects → q ≠ p → ¬ m.IsClass q → m.Untouched q m'
  child : ∃ new : Ptr → Prop, Graph.Closed m'.Child new ∧ (∀ x, new x → m.objects ≤ x) ∧
    ∀ x y, x < m.objects → m'.Child x y → m.Child x y ∨ x = p ∧ new y

/-- No two objects share what they did not share. -/
theorem Grows.separate (h : m.Grows p m') (hm : m.Valid) {a b : Ptr} (ha : a < m.objects)
    (hb : b < m.objects) (hseparate : m.Separate a b) : m'.Separate a b := by
  obtain ⟨new, hnew, hfresh, hedge⟩ := h.child
  exact hseparate.grow hm.closed hnew (fun x hx hx' => (hfresh x hx').not_gt hx) hedge ha hb

theorem Looked.untouched (h : m.Looked p m') (hp : q ≠ p) (hclass : ¬ m.IsClass q) :
    m.Untouched q m' := by
  have hfills (k : Key) (hfills : m.Fills p q k) : False :=
    hfills.elim (fun h => hp h.1) fun h => hclass h.1
  refine ⟨?_, fun k n hk => (h.kept q k n hk).2.resolve_right fun heq => hfills k heq.1⟩
  ext1 k
  exact h.lookup fun hk => (hfills k hk).elim

theorem Looked.grows (h : m.Looked p m') : m.Grows p m' :=
  ⟨h.valid, h.objects.ge, h.nodes, h.classes, fun _ _ => h.untouched, fun _ => False, nofun, nofun,
    fun _ _ _ hxy => .inl (h.child ▸ hxy)⟩

theorem Looked.grows_trans (h : m.Looked p m') (h' : m'.Grows p m'') : m.Grows p m'' := by
  obtain ⟨new, hnew, hfresh, hedge⟩ := h'.child
  refine ⟨h'.valid, h.objects ▸ h'.objects, h.nodes.trans h'.nodes, h'.classes.trans h.classes,
    fun q hq hp hclass => (h.untouched hp hclass).trans
      (h'.other q (h.objects ▸ hq) hp fun hclass' => hclass (h.isClass.1 hclass')),
    new, hnew, fun x hx => h.objects ▸ hfresh x hx, fun x y hx hxy => ?_⟩
  rw [← h.child]
  exact hedge x y (h.objects ▸ hx) hxy

theorem Extends.untouched (h : m.Extends (fun _ => False) m') (hm : m.Valid) (hq : q < m.objects) :
    m.Untouched q m' :=
  ⟨congrArg Dyn.fields (h.object q hq id), fun k n hk => h.content n (hm.node q k n hk)⟩

/-- Everything that was there is as it was. -/
theorem Extends.grows (h : m.Extends (fun _ => False) m') (hm : m.Valid) (hm' : m'.Valid) :
    m.Grows p m' :=
  ⟨hm', h.objects, h.nodes, h.classes, fun _ hq _ _ => h.untouched hm hq, fun _ => False, nofun,
    nofun, fun _ _ hx hxy => .inl ((h.child hm hx id).1 hxy)⟩

section NewField

variable {new : Ptr → Prop} {c : Content}

/-- A field is added that holds nothing, or a new object. -/
theorem grows_withField (hm : m.Valid) (hm' : m'.Valid) (hp : p < m.objects)
    (hkept : m.Extends (fun _ => False) m') (hnew : Graph.Closed m'.Child new)
    (hfresh : ∀ x, new x → m.objects ≤ x) (hc : ∀ q, c = .object q → new q ∧ q < m'.objects) :
    m.Grows p (m'.withField p name c) := by
  refine ⟨hm'.withField (hp.trans_le hkept.objects) name fun q hq => (hc q hq).2, hkept.objects,
    hkept.nodes.trans (Nat.le_succ _), hkept.classes, fun q hq hne _ =>
      (hkept.untouched hm hq).trans ⟨congrArg Dyn.fields (if_neg hne), fun k n hk => ?_⟩,
    new, fun x y hx hxy => ?_, hfresh, fun x y hx hxy => ?_⟩
  · rw [content_withField, if_neg (hm'.node q k n hk).ne]
  · refine hnew x y hx ((hm'.child_withField hxy).resolve_right ?_)
    rintro ⟨rfl, -⟩
    exact (hfresh x hx).not_gt hp
  · rcases hm'.child_withField hxy with hxy | ⟨rfl, hy⟩
    · exact .inl ((hkept.child hm hx id).1 hxy)
    · exact .inr ⟨rfl, (hc y hy).1⟩

/-- The field shows what it is given. -/
theorem readNode_withField (hp : ¬ new p) (hm : m.Valid) (hnew : Graph.Closed m.Child new)
    (hc : ∀ q, c = .object q → new q) :
    (m.withField p name c).readNode depth m.nodes = match c with
      | .plain v => some v
      | .object q => (m.read depth q).map .object := by
  have hcontent : (m.withField p name c).content m.nodes = c := if_pos rfl
  unfold readNode
  rw [hcontent]
  cases c with
  | plain v => rfl
  | object q =>
    refine congrArg (Option.map Value.object) (read_congr hnew (fun x hx => ?_)
      (fun x k n _ hk => ?_) depth (hc q rfl))
    · exact congrArg Dyn.fields (if_neg fun heq : x = p => hp (heq ▸ hx))
    · rw [content_withField, if_neg (hm.node x k n hk).ne]

end NewField

/-- In the node there are new objects only, from that address on. -/
def NewIn (m : Memory) (objects : Ptr) (n : Node) : Prop :=
  ∀ c, m.content n = .object c → c < m.objects ∧ ∀ x, m.Reach c x → objects ≤ x

/-- The default has been copied into the object, if the field was absent. -/
theorem inherit_copies (hm : m.Valid) (hp : p < m.objects)
    (hlive : ∀ q, m.content n = .object q → q < m.objects) (depth : Nat) (name : Key) :
    Triple (· = m) (inherit depth p name n)
      (fun _ m' => m.Grows p m' ∧ ((m.object p).fields.lookup name = none → ∃ n',
        (m'.object p).fields.lookup name = some n' ∧ m'.readNode depth n' = m.readNode depth n ∧
        m'.NewIn m.objects n'))
      fun _ m' => m.Grows p m' ∧ m.readNode depth n = none := by
  intro m' hm'
  subst hm'
  have hadded (m₁ : Memory) (c : Content) :
      ((m₁.withField p name c).object p).fields.lookup name = some m₁.nodes := by
    rw [lookup_withField, if_pos ⟨rfl, rfl⟩]
  unfold inherit
  rw [bind_ok (getContent_run n m')]
  cases hn : m'.content n with
  | plain v =>
    have hcopy : copyContent depth (.plain v) m' = ⟨.ok (.plain v), [], m'⟩ := rfl
    have hclosed : Graph.Closed m'.Child fun _ => False := nofun
    rw [bind_ok hcopy, bind_ok (getObject_run p m')]
    cases hname : (m'.object p).fields.lookup name with
    | some n' =>
      exact ⟨(Extends.refl _ m').grows hm hm, fun hnone => nomatch hnone⟩
    | none =>
      refine ⟨grows_withField hm hm hp (Extends.refl _ m') hclosed nofun nofun, fun _ =>
        ⟨m'.nodes, hadded m' (.plain v), ?_, fun c hc => ?_⟩⟩
      · refine (readNode_withField (c := .plain v) id hm hclosed nofun).trans ?_
        rw [readNode, hn]
      · have hcontent : (m'.withField p name (.plain v)).content m'.nodes = .plain v := if_pos rfl
        cases hcontent.symm.trans hc
  | object q =>
    have hclone := clonePtr_cloned depth m' q hm (hlive q hn) m' rfl
    have hcopy : copyContent depth (.object q) = clonePtr depth q >>= fun q' => pure (.object q') :=
      rfl
    have hread : m'.readNode depth n = (m'.read depth q).map .object := by
      rw [readNode, hn]
    rw [hcopy, Program.bind_assoc, hread]
    rcases hrun : clonePtr depth q m' with ⟨e | q', trace, m₁⟩ <;> rw [hrun] at hclone
    · rw [bind_error hrun]
      exact ⟨hclone.kept.grows hm hclone.valid, by rw [hclone.tree]; rfl⟩
    · obtain ⟨hfresh, hclone⟩ := hclone
      have hkept : m'.Extends (fun _ => False) m₁ :=
        hclone.kept.mono fun x hx heq => (hfresh.trans_lt (heq ▸ hx)).false
      have hclosed : Graph.Closed m₁.Child (m'.objects ≤ ·) :=
        fun x y hx hxy => (hclone.child x y (.inr hx) hxy).1
      have hobject : m₁.object p = m'.object p := hkept.object p hp id
      have hpure : (pure (Content.object q') : MemoryM Content) m₁ = ⟨.ok (.object q'), [], m₁⟩ :=
        rfl
      rw [bind_ok hrun, bind_ok hpure, bind_ok (getObject_run p m₁)]
      cases hname : (m₁.object p).fields.lookup name with
      | some n' =>
        refine ⟨hkept.grows hm hclone.valid, fun hnone => ?_⟩
        rw [hobject] at hname
        cases hname.symm.trans hnone
      | none =>
        have hc (x : Ptr) (hx : Content.object q' = .object x) : m'.objects ≤ x ∧ x < m₁.objects :=
          Content.object.inj hx ▸ ⟨hfresh, hclone.live⟩
        refine ⟨grows_withField hm hclone.valid hp hkept hclosed (fun _ hx => hx) hc, fun _ =>
          ⟨m₁.nodes, hadded m₁ (.object q'), ?_, fun c hc' => ?_⟩⟩
        · refine (readNode_withField hp.not_ge hclone.valid hclosed fun x hx =>
            (hc x hx).1).trans ?_
          exact congrArg (Option.map Value.object) hclone.tree
        · have hcontent : (m₁.withField p name (.object q')).content m₁.nodes = .object q' :=
            if_pos rfl
          cases hcontent.symm.trans hc'
          have hclosed' : Graph.Closed (m₁.withField p name (.object q')).Child (m'.objects ≤ ·) :=
            fun x y hx hxy => hclosed x y hx ((hclone.valid.child_withField hxy).resolve_right
              fun heq => (heq.1 ▸ hx).not_gt hp)
          exact ⟨hclone.live, fun x hx => hclosed'.reach hfresh hx⟩

/-! ## The search -/

/-- The lookup does not add the field itself. -/
def Unfilled (m : Memory) (p : Ptr) (name : Key) : Prop :=
  ∀ q, m.Fills p q name → (m.object q).fields.lookup name ≠ none

/-- The object has a copy of the default, if there is one. Before the default was copied the keys
were written that the lookup needs. -/
def Answered (m : Memory) (depth : Nat) (p : Ptr) (name : Key) (found : Option Node)
    (m' : Memory) : Prop :=
  match found with
  | none => m.Looked p m'
  | some n₀ => ∃ m₁ n, m.Looked p m₁ ∧ (m'.object p).fields.lookup name = some n ∧
    m'.readNode depth n = m₁.readNode depth n₀ ∧ m'.NewIn m.objects n

/-- There is no default, or the stack does not do for it. -/
def Unanswered (m : Memory) (depth : Nat) (p : Ptr) (defaults : Option Node → Prop) : Prop :=
  ∀ found, defaults found → ∃ n₀ m₁, found = some n₀ ∧ m.Looked p m₁ ∧
    m₁.readNode depth n₀ = none

section Walk

variable {col : List (Key × Ptr)}

/-- The class, if it does not declare the field. -/
def undeclared (m : Memory) (col : List (Key × Ptr)) (name klass : Key) : Option Ptr :=
  (col.lookup klass).filter fun proto => ((m.object proto).fields.lookup name).isNone

def parentOf (m : Memory) (proto : Ptr) : Key := (m.keyOf proto PARENT).getD 0

theorem undeclared_eq_some {klass : Key} {proto : Ptr} (hcol : col.lookup klass = some proto)
    (hname : (m.object proto).fields.lookup name = none) :
    m.undeclared col name klass = some proto := by
  rw [undeclared, hcol, Option.filter_some, if_pos (by rw [hname]; rfl)]

/-- A chain in which the nearest class is found has an end. -/
theorem Nearest.ends {klass : Key} {found : Option Node} (h : m.Nearest col name klass found) :
    Chase.Ends (m.undeclared col name) m.parentOf klass := by
  induction h with
  | outside hcol =>
    refine ⟨1, [], Chase.chain_of_none 0 ?_⟩
    rw [undeclared, hcol]
    rfl
  | declared hcol hname =>
    refine ⟨1, [], Chase.chain_of_none 0 ?_⟩
    rw [undeclared, hcol, Option.filter_some, if_neg (by rw [hname]; nofun)]
  | @inherited klass parent proto found hcol hname hparent _ ih =>
    obtain ⟨n, vs, hvs⟩ := ih
    refine ⟨n + 1, proto :: vs, ?_⟩
    rw [Chase.chain_of_some n (undeclared_eq_some hcol hname), parentOf, hparent, Option.getD_some,
      hvs]
    rfl

/-- The walk has as many steps as it needs. -/
def Enough (m : Memory) (col : List (Key × Ptr)) (name : Key) (steps : Nat) (klass : Key) : Prop :=
  ∀ found, m.Nearest col name klass found →
    ∃ vs, Chase.chain (m.undeclared col name) m.parentOf steps klass = some vs

/-- A walk that meets more classes than there are never ends. -/
theorem enough_length (klass : Key) : m.Enough col name (col.length + 1) klass := by
  intro found h
  have hdom (klass : Key) (proto : Ptr) (hk : m.undeclared col name klass = some proto) :
      klass ∈ col.map Prod.fst := by
    obtain ⟨hcol, -⟩ := Option.filter_eq_some_iff.1 hk
    exact List.mem_map_of_mem (SortedMap.mem_of_lookup hcol)
  have hends := (Chase.ends_iff hdom klass).1 h.ends
  rwa [List.length_map] at hends

theorem Enough.next {steps : Nat} {klass parent : Key} {proto : Ptr}
    (h : m.Enough col name (steps + 1) klass) (hcol : col.lookup klass = some proto)
    (hname : (m.object proto).fields.lookup name = none)
    (hparent : m.keyOf proto PARENT = some parent) : m.Enough col name steps parent := by
  intro found hnearest
  obtain ⟨vs, hvs⟩ := h found (.inherited hcol hname hparent hnearest)
  rw [Chase.chain_of_some steps (undeclared_eq_some hcol hname), parentOf, hparent,
    Option.map_eq_some_iff] at hvs
  obtain ⟨vs, hvs, -⟩ := hvs
  exact ⟨vs, hvs⟩

theorem walkClasses_answers (hm : m.Valid) (hp : p < m.objects)
    (hclass : ∀ klass proto, col.lookup klass = some proto → m.IsClass proto)
    (hown : (m.object p).fields.lookup name = none) (steps : Nat) (klass : Key)
    (hsteps : m.Unfilled p name → m.Enough col name steps klass) :
    Triple (m.Looked p) (walkClasses depth col p name steps klass)
      (fun _ m' => m.Grows p m' ∧ (m.Unfilled p name → ∃ found, m.Nearest col name klass found ∧
        m.Answered depth p name found m'))
      fun _ m' => m.Grows p m' ∧
        (m.Unfilled p name → m.Unanswered depth p (m.Nearest col name klass)) := by
  induction steps generalizing klass with
  | zero =>
    refine .throw fun m' h => ⟨h.grows, fun hunfilled found hfound => ?_⟩
    obtain ⟨vs, hvs⟩ := hsteps hunfilled found hfound
    cases hvs
  | succ steps ih =>
    unfold walkClasses
    cases hcol : col.lookup klass with
    | none => exact .pure fun m' h => ⟨h.grows, fun _ => ⟨none, .outside hcol, h⟩⟩
    | some proto =>
      have hsame {m' : Memory} (h : m.Looked p m') (hunfilled : m.Unfilled p name) (q : Ptr) :
          (m'.object q).fields.lookup name = (m.object q).fields.lookup name :=
        h.lookup (hunfilled q)
      refine getObject_bind fun d => ?_
      cases hname : d.fields.lookup name with
      | some n =>
        refine .each fun m' hm' => ?_
        obtain ⟨h, rfl⟩ := hm'
        have hlive (q : Ptr) (hq : m'.content n = .object q) : q < m'.objects :=
          h.valid.child proto q ⟨name, n, hname, hq⟩
        have hdeclared (hunfilled : m.Unfilled p name) : m.Nearest col name klass (some n) :=
          .declared hcol ((hsame h hunfilled proto).symm.trans hname)
        refine (inherit_copies h.valid (h.objects ▸ hp) hlive depth name).imp
          (fun _ m'' hdone => ?_) fun _ m'' hfail => ?_
        · refine ⟨h.grows_trans hdone.1, fun hunfilled => ⟨some n, hdeclared hunfilled, ?_⟩⟩
          obtain ⟨n', hn', hread, hnew⟩ := hdone.2 ((hsame h hunfilled p).trans hown)
          exact ⟨m', n', h, hn', hread, h.objects ▸ hnew⟩
        · refine ⟨h.grows_trans hfail.1, fun hunfilled found hfound => ?_⟩
          exact ⟨n, m', hfound.unique (hdeclared hunfilled), h, hfail.2⟩
      | none =>
        have hnone (m' : Memory) (h : m.Looked p m' ∧ m'.object proto = d) :
            m.Looked p m' ∧ (m.Unfilled p name → (m.object proto).fields.lookup name = none) :=
          ⟨h.1, fun hunfilled => (hsame h.1 hunfilled proto).symm.trans (h.2 ▸ hname)⟩
        refine .mono (.given fun hnone => ?_) hnone (fun _ _ h => h) fun _ _ h => h
        have hfills : m.Fills p proto PARENT := .inr ⟨hclass klass proto hcol, rfl⟩
        -- The parent is what the class above it is looked up with.
        have hnext {found : Option Node} (hunfilled : m.Unfilled p name)
            (hfound : m.Nearest col name klass found) :
            ∃ parent, m.keyOf proto PARENT = some parent ∧ m.Nearest col name parent found := by
          cases hfound with
          | outside hcol' => cases hcol.symm.trans hcol'
          | declared hcol' hname' =>
            cases hcol.symm.trans hcol'
            cases (hnone hunfilled).symm.trans hname'
          | inherited hcol' _ hparent hnearest =>
            cases hcol.symm.trans hcol'
            exact ⟨_, hparent, hnearest⟩
        refine .bind ((asKey_looked hm hp hfills).imp (fun _ _ h => h)
          fun _ m'' hfail => ⟨hfail.1.grows, fun hunfilled found hfound => ?_⟩) fun parent =>
            .given fun hparent => ?_
        · obtain ⟨parent, hparent, -⟩ := hnext hunfilled hfound
          cases hfail.2.symm.trans hparent
        · have hsteps' (hunfilled : m.Unfilled p name) : m.Enough col name steps parent :=
            (hsteps hunfilled).next hcol (hnone hunfilled) hparent
          refine (ih parent hsteps').imp (fun _ m'' hdone => ⟨hdone.1, fun hunfilled => ?_⟩)
            fun _ m'' hfail => ⟨hfail.1, fun hunfilled found hfound => ?_⟩
          · obtain ⟨found, hfound, hanswered⟩ := hdone.2 hunfilled
            exact ⟨found, .inherited hcol (hnone hunfilled) hparent hfound, hanswered⟩
          · obtain ⟨parent', hparent', hfound⟩ := hnext hunfilled hfound
            cases hparent.symm.trans hparent'
            exact hfail.2 hunfilled found hfound

end Walk

/-- **Main result**: a search brings about no sharing, and what it finds is the default of the
nearest class. -/
theorem searchClasses_answers (hm : m.Valid) (hp : p < m.objects)
    (hown : (m.object p).fields.lookup name = none) :
    Triple (· = m) (searchClasses depth p name)
      (fun _ m' => m.Grows p m' ∧ (m.Unfilled p name → ∃ found, m.Default p name found ∧
        m.Answered depth p name found m'))
      fun _ m' => m.Grows p m' ∧ (m.Unfilled p name → m.Unanswered depth p (m.Default p name)) := by
  refine .bind ((resolveNamespace_looked hp).mono (fun m' hm' => hm' ▸ Looked.refl hm p)
    (fun _ _ h => h) fun _ m' hfail => ⟨hfail.1.grows, fun _ found hfound => ?_⟩) fun ns =>
      .given fun hns => .get_bind fun m' h => ?_
  · cases hfound with
    | unknown hns _ => cases hfail.2.symm.trans hns
    | nearest hns _ _ _ => cases hfail.2.symm.trans hns
  have hclasses : m'.classes.lookup ns = m.classes.lookup ns := by rw [h.classes]
  cases hcol : m'.classes.lookup ns with
  | none =>
    refine .pure fun m'' heq => ⟨heq ▸ h.grows, fun _ => ⟨none, .unknown hns ?_, heq ▸ h⟩⟩
    exact hclasses.symm.trans hcol
  | some col =>
    have hcol' : m.classes.lookup ns = some col := hclasses.symm.trans hcol
    refine .bind ((asKey_looked hm hp (.inl ⟨rfl, .inr rfl⟩)).mono (fun m'' heq => heq ▸ h)
      (fun _ _ h => h) fun _ m'' hfail => ⟨hfail.1.grows, fun _ found hfound => ?_⟩) fun klass =>
        .given fun hklass => ?_
    · cases hfound with
      | unknown hns' hnone =>
        cases hns.symm.trans hns'
        cases hcol'.symm.trans hnone
      | nearest _ _ hklass _ => cases hfail.2.symm.trans hklass
    · have hclass (klass : Key) (proto : Ptr) (hproto : col.lookup klass = some proto) :
          m.IsClass proto := ⟨ns, col, klass, hcol', hproto⟩
      refine (walkClasses_answers hm hp hclass hown (col.length + 1) klass
        fun _ => enough_length klass).imp (fun _ m'' hdone => ⟨hdone.1, fun hunfilled => ?_⟩)
          fun _ m'' hfail => ⟨hfail.1, fun hunfilled found hfound => ?_⟩
      · obtain ⟨found, hfound, hanswered⟩ := hdone.2 hunfilled
        exact ⟨found, .nearest hns hcol' hklass hfound, hanswered⟩
      · cases hfound with
        | unknown hns' hnone =>
          cases hns.symm.trans hns'
          cases hcol'.symm.trans hnone
        | nearest hns' hcol'' hklass' hnearest =>
          cases hns.symm.trans hns'
          cases hcol'.symm.trans hcol''
          cases hklass.symm.trans hklass'
          exact hfail.2 hunfilled found hnearest

end Memory

end Bison
