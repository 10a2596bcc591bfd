import Bison.Core.Memory
import Bison.Lib.Machine

/-!
# The cache of a field map

`field_lookup_` maps a key to the node of the field, or to null where the field is absent. What the
map says and what the cache says agree in every object, and the operations keep that, but for one
thing: an object that is moved from gives its nodes away, and keeps the pointers to them.

- `Dyn.Coherent`: every entry of the cache is what the field map says.
- `Memory.Sound`: what a lookup relies on while it is under way.
- `Operation`: what is done to objects; `Operation.Clean`: a move does not leave pointers behind.
- `caches_coherent`: **main result**, the runs in which every cache is coherent.
- `moved_from_points_away`: a cache that points to nodes which are another object's.
-/

namespace Bison

/-! ## Coherent caches -/

namespace Dyn

/-- Every entry of the cache is what the field map says: the node of the field, or that there is
none. -/
def Coherent (d : Dyn) : Prop :=
  ∀ k found, d.lookup.lookup k = some found → d.fields.lookup k = found

/-- No field was looked up in vain, and the namespace, which is written behind the back of the
cache, is not said to be absent. -/
structure Settled (d : Dyn) : Prop where
  coherent : d.Coherent
  namespaced : d.lookup.lookup NAMESPACE ≠ some none

theorem settled_of_empty {d : Dyn} (h : d.lookup = ∅) : d.Settled := by
  refine ⟨fun k found hk => ?_, ?_⟩
  · rw [h] at hk
    cases hk
  · rw [h]
    nofun

/-- The cache points to no node. -/
def PointsNowhere (d : Dyn) : Prop := ∀ k n, d.lookup.lookup k ≠ some (some n)

/-- A field is written to the map and to the cache. -/
theorem Settled.touch {d : Dyn} (h : d.Settled) {fields : FinMap Key Node} {k : Key} {n : Node}
    (hfields : fields.lookup k = some n)
    (hsame : ∀ k', k' ≠ k → fields.lookup k' = d.fields.lookup k') :
    Settled { fields, lookup := d.lookup.insert k (some n) } := by
  refine ⟨fun k' found hk' => ?_, ?_⟩
  · rw [FinMap.lookup_insert] at hk'
    split_ifs at hk' with heq
    · cases hk'
      rw [heq]
      exact hfields
    · exact (hsame k' heq).trans (h.coherent k' found hk')
  · rw [FinMap.lookup_insert]
    split_ifs
    · exact fun heq => by cases heq
    · exact h.namespaced

/-- A field of which the cache says nothing is written to the map. -/
theorem Settled.insert {d : Dyn} (h : d.Settled) {k : Key} (hk : d.lookup.lookup k = none)
    (n : Node) : Settled { d with fields := d.fields.insert k n } := by
  refine ⟨fun k' found hk' => ?_, h.namespaced⟩
  have hne : k' ≠ k := by
    rintro rfl
    rw [hk] at hk'
    cases hk'
  show (d.fields.insert k n).lookup k' = found
  rw [FinMap.lookup_insert, if_neg hne]
  exact h.coherent k' found hk'

/-- A field that the map does not have, and that is not said to be absent, is not in the cache. -/
theorem Settled.unknown {d : Dyn} (h : d.Settled) {k : Key} (hfields : d.fields.lookup k = none)
    (hk : d.lookup.lookup k ≠ some none) : d.lookup.lookup k = none := by
  cases hfound : d.lookup.lookup k with
  | none => rfl
  | some found =>
    have hnone := h.coherent k found hfound
    rw [hfields] at hnone
    rw [hfound, ← hnone] at hk
    exact (hk rfl).elim

theorem Settled.erase {d : Dyn} (h : d.Settled) (k : Key) :
    Settled { fields := d.fields.erase k, lookup := d.lookup.erase k } := by
  refine ⟨fun k' found hk' => ?_, ?_⟩
  · rw [FinMap.lookup_erase] at hk' ⊢
    split_ifs at hk' with heq
    rw [if_neg heq]
    exact h.coherent k' found hk'
  · rw [FinMap.lookup_erase]
    split_ifs
    · exact fun heq => by cases heq
    · exact h.namespaced

/-- It is known that the field is absent. -/
theorem Settled.miss {d : Dyn} (h : d.Settled) {k : Key} (hk : d.fields.lookup k = none)
    (hns : k ≠ NAMESPACE) : Settled { d with lookup := d.lookup.insert k none } := by
  refine ⟨fun k' found hk' => ?_, ?_⟩
  · rw [FinMap.lookup_insert] at hk'
    split_ifs at hk' with heq
    · cases hk'
      rw [heq]
      exact hk
    · exact h.coherent k' found hk'
  · rw [FinMap.lookup_insert, if_neg hns.symm]
    exact h.namespaced

/-- An object whose nodes have gone to another. -/
theorem coherent_moved_iff {d : Dyn} :
    Coherent { d with fields := ∅ } ↔ d.PointsNowhere := by
  constructor
  · intro hcoherent k n hk
    have := hcoherent k (some n) hk
    rw [FinMap.lookup_empty] at this
    cases this
  · intro hnowhere k found hk
    cases found with
    | none => rfl
    | some n => exact (hnowhere k n hk).elim

theorem Settled.moved {d : Dyn} (h : d.Settled) (hnowhere : d.PointsNowhere) :
    Settled { d with fields := ∅ } :=
  ⟨coherent_moved_iff.2 hnowhere, h.namespaced⟩

end Dyn

/-! ## Lookups -/

namespace Memory

/-- Every cache is coherent. -/
def Coherent (m : Memory) : Prop := ∀ p, (m.object p).Coherent

/-- The caches are settled, objects `L` are there, of the fields `W` it is not known that they are
absent, and the fields `B` are there. -/
structure Sound (L : Ptr → Prop) (W B : Ptr → Key → Prop) (m : Memory) : Prop where
  settled : ∀ p, (m.object p).Settled
  live : ∀ p, L p → p < m.objects
  unmissed : ∀ p k, W p k → p < m.objects ∧ (m.object p).lookup.lookup k ≠ some none
  bound : ∀ p k, B p k → p < m.objects ∧ ((m.object p).fields.lookup k).isSome

variable {L : Ptr → Prop} {W B : Ptr → Key → Prop}

/-- Between two operations. -/
abbrev Fit (L : Ptr → Prop) : Memory → Prop := Sound L (fun _ _ => False) fun _ _ => False

/-- Nothing is asked of the object. -/
def Free (L : Ptr → Prop) (W B : Ptr → Key → Prop) (p : Ptr) : Prop :=
  ¬ L p ∧ ∀ k, ¬ W p k ∧ ¬ B p k

theorem Sound.setObject {m : Memory} (h : m.Sound L W B) {p : Ptr} {d : Dyn} (hd : d.Settled)
    (hW : ∀ k, W p k → d.lookup.lookup k ≠ some none)
    (hB : ∀ k, B p k → (d.fields.lookup k).isSome) : (m.setObject p d).Sound L W B := by
  refine ⟨fun q => ?_, h.live, fun q k hk => ⟨(h.unmissed q k hk).1, ?_⟩,
    fun q k hk => ⟨(h.bound q k hk).1, ?_⟩⟩ <;> rw [object_setObject] <;> split_ifs with heq
  · exact hd
  · exact h.settled q
  · exact hW k (heq ▸ hk)
  · exact (h.unmissed q k hk).2
  · exact hB k (heq ▸ hk)
  · exact (h.bound q k hk).2

/-- A program that touches neither the objects nor their number. -/
theorem Sound.of_objects {m m' : Memory} (h : m.Sound L W B) (hobject : m'.object = m.object)
    (hobjects : m'.objects = m.objects) : m'.Sound L W B := by
  obtain ⟨hsettled, hlive, hunmissed, hbound⟩ := h
  rw [← hobject] at hsettled
  rw [← hobjects] at hlive
  rw [← hobject, ← hobjects] at hunmissed hbound
  exact ⟨hsettled, hlive, hunmissed, hbound⟩

section Programs

open Program

theorem putContent_sound (n : Node) (c : Content) : Maintains (Sound L W B) (putContent n c) :=
  .modify fun _ h => h.of_objects rfl rfl

/-- One more object is there. -/
def With (L : Ptr → Prop) (p : Ptr) (q : Ptr) : Prop := L q ∨ q = p

theorem Sound.with {m : Memory} (h : m.Sound L W B) {p : Ptr} (hp : p < m.objects) :
    m.Sound (With L p) W B :=
  ⟨h.settled, fun q hq => hq.elim (h.live q) fun heq => heq ▸ hp, h.unmissed, h.bound⟩

theorem Sound.forget {m : Memory} {p : Ptr} (h : m.Sound (With L p) W B) : m.Sound L W B :=
  ⟨h.settled, fun q hq => h.live q (.inl hq), h.unmissed, h.bound⟩

/-- The cache of the object is empty. -/
def Blank (L : Ptr → Prop) (W B : Ptr → Key → Prop) (p : Ptr) (m : Memory) : Prop :=
  m.Sound (With L p) W B ∧ (m.object p).lookup = ∅

theorem newObject_blank (L : Ptr → Prop) (W B : Ptr → Key → Prop) {d : Dyn} (hd : d.lookup = ∅) :
    Triple (Sound L W B) (newObject d) (fun p m => Blank L W B p m ∧ Free L W B p)
      fun _ => Sound L W B := by
  refine .ofState fun m h => ?_
  have hfresh : Free L W B m.objects :=
    ⟨fun hL => lt_irrefl _ (h.live _ hL), fun k =>
      ⟨fun hW => lt_irrefl _ (h.unmissed _ k hW).1, fun hB => lt_irrefl _ (h.bound _ k hB).1⟩⟩
  have hset := h.setObject (p := m.objects) (Dyn.settled_of_empty hd)
    (fun k hk => ((hfresh.2 k).1 hk).elim) fun k hk => ((hfresh.2 k).2 hk).elim
  refine ⟨⟨⟨hset.settled, fun q hq => ?_, fun q k hk =>
    ⟨Nat.lt_succ_of_lt (h.unmissed q k hk).1, (hset.unmissed q k hk).2⟩, fun q k hk =>
    ⟨Nat.lt_succ_of_lt (h.bound q k hk).1, (hset.bound q k hk).2⟩⟩, ?_⟩, hfresh⟩
  · rcases hq with hq | rfl
    · exact Nat.lt_succ_of_lt (h.live q hq)
    · exact Nat.lt_succ_self _
  · show (if m.objects = m.objects then d else _ : Dyn).lookup = ∅
    rw [if_pos rfl, hd]

/-- A node is put into the map of an object whose cache does not know the field. -/
theorem Sound.insert {m : Memory} (h : m.Sound L W B) {p : Ptr} {k : Key}
    (hk : (m.object p).lookup.lookup k = none) (n : Node) :
    (m.setObject p { m.object p with fields := (m.object p).fields.insert k n }).Sound L W B := by
  refine h.setObject ((h.settled p).insert hk n) (fun k' hk' => (h.unmissed p k' hk').2)
    fun k' hk' => ?_
  show ((m.object p).fields.insert k n).lookup k' |>.isSome
  rw [FinMap.lookup_insert]
  split_ifs
  · rfl
  · exact (h.bound p k' hk').2

theorem Sound.touch {m : Memory} (h : m.Sound L W B) {p : Ptr} {k : Key} {n : Node}
    {fields : FinMap Key Node} (hfields : fields.lookup k = some n)
    (hsame : ∀ k', k' ≠ k → fields.lookup k' = (m.object p).fields.lookup k') :
    (m.setObject p { fields, lookup := (m.object p).lookup.insert k (some n) }).Sound L W B := by
  refine h.setObject ((h.settled p).touch hfields hsame) (fun k' hk' => ?_) fun k' hk' => ?_
  · show ((m.object p).lookup.insert k (some n)).lookup k' ≠ some none
    rw [FinMap.lookup_insert]
    split_ifs
    · exact fun heq => by cases heq
    · exact (h.unmissed p k' hk').2
  · by_cases heq : k' = k
    · rw [heq, hfields]
      rfl
    · rw [hsame k' heq]
      exact (h.bound p k' hk').2

/-- The memory after `fields_[key]`. -/
theorem nodeAt_run (p : Ptr) (k : Key) (m : Memory) :
    ((m.object p).fields.lookup k = none ∧ nodeAt p k m = ⟨.ok m.nodes, [],
        { (m.setContent m.nodes (.plain .monostate)).setObject p
            { m.object p with fields := (m.object p).fields.insert k m.nodes } with
          nodes := m.nodes + 1 }⟩) ∨
      ∃ n, (m.object p).fields.lookup k = some n ∧ nodeAt p k m = ⟨.ok n, [], m⟩ := by
  unfold nodeAt
  rw [bind_ok (getObject_run p m)]
  cases hk : (m.object p).fields.lookup k with
  | none => exact .inl ⟨rfl, rfl⟩
  | some n => exact .inr ⟨n, rfl, rfl⟩

/-- `fields_[key]`, and the cache is told. -/
theorem touch_sound {α : Type} {p : Ptr} {k : Key} {f : Node → MemoryM α} {Q : α → Memory → Prop}
    (hf : ∀ n, Triple (fun m => m.Sound L W B ∧ (m.object p).fields.lookup k = some n) (f n) Q
      fun _ => Sound L W B) :
    Triple (Sound L W B) (nodeAt p k >>= fun n => cache p k (some n) >>= fun _ => f n) Q
      fun _ => Sound L W B := by
  refine .bind (Q := fun n m => (m.setObject p { m.object p with
    lookup := (m.object p).lookup.insert k (some n) }).Sound L W B ∧
      (m.object p).fields.lookup k = some n) (fun m h => ?_) fun n => .bind (.modify fun m h => ?_)
    fun _ => hf n
  · rcases nodeAt_run p k m with ⟨-, hrun⟩ | ⟨n, hn, hrun⟩ <;> rw [hrun]
    · set d : Dyn := { m.object p with fields := (m.object p).fields.insert k m.nodes } with hd
      have hn : d.fields.lookup k = some m.nodes := by
        rw [hd, FinMap.lookup_insert, if_pos rfl]
      have htouched := h.touch (p := p) hn fun k' hk' => by
        rw [hd, FinMap.lookup_insert, if_neg hk']
      simp only [object_self]
      have hobject := congrArg Memory.object (setObject_setObject m p d
        { d with lookup := d.lookup.insert k (some m.nodes) })
      exact ⟨htouched.of_objects hobject rfl, hn⟩
    · exact ⟨h.touch hn fun _ _ => rfl, hn⟩
  · refine ⟨h.1, ?_⟩
    rw [object_self]
    exact h.2

/-- `fields_[key]`, where the field is not said to be absent. -/
theorem nodeAt_sound (p : Ptr) (k : Key) :
    Triple (fun m => m.Sound L W B ∧ (m.object p).lookup.lookup k ≠ some none) (nodeAt p k)
      (fun n m => m.Sound L W B ∧ (m.object p).fields.lookup k = some n)
      fun _ => Sound L W B := by
  intro m h
  rcases nodeAt_run p k m with ⟨hnone, hrun⟩ | ⟨n, hn, hrun⟩ <;> rw [hrun]
  · have hunknown := (h.1.settled p).unknown hnone h.2
    refine ⟨(h.1.insert hunknown m.nodes).of_objects rfl rfl, ?_⟩
    show ((m.setObject p _).object p).fields.lookup k = some m.nodes
    rw [object_self, FinMap.lookup_insert, if_pos rfl]
  · exact ⟨h.1, hn⟩

theorem assignKey_sound (n : Node) (k : Key) : Maintains (Sound L W B) (assignKey n k) := by
  refine getContent_bind fun c => getContent_bind fun c' => ?_
  split
  · exact putContent_sound _ _
  · exact .throw fun _ h => h

/-! ## Copies -/

/-- A field is put into a map to which no cache points. -/
theorem putField_blank {p : Ptr} (k : Key) (c : Content) {E : Exn → Memory → Prop} :
    Triple (Blank L W B p) (newNode c >>= fun n =>
      modifyObject p fun d => { d with fields := d.fields.insert k n }) (fun _ => Blank L W B p)
      E := by
  refine .bind (Q := fun _ => Blank L W B p) (.ofState fun m h => ?_) fun n => .modify fun m h => ?_
  · exact ⟨h.1.of_objects rfl rfl, h.2⟩
  · have hunknown : (m.object p).lookup.lookup k = none := by rw [h.2, FinMap.lookup_empty]
    refine ⟨h.1.insert hunknown n, ?_⟩
    rw [object_self]
    exact h.2

theorem construct_sound (klass : Key) (fields : FinMap Key Content) :
    Triple (Sound L W B) (construct klass fields) (fun p m => m.Sound (With L p) W B ∧ Free L W B p)
      fun _ => Sound L W B := by
  refine .bind (newObject_blank L W B rfl) fun p => .given fun hfree => ?_
  refine .bind (Q := fun _ => Blank L W B p)
    (.forEach (I := fun _ => Blank L W B p) (fun kv _ => putField_blank kv.1 kv.2) _) fun _ => ?_
  refine .bind (Q := fun _ => Sound (With L p) W B) ?_ fun n => ?_
  · refine (nodeAt_sound p CLASS).mono (fun m h => ⟨h.1, ?_⟩) (fun _ _ h => h.1) fun _ _ h =>
      h.forget
    rw [h.2, FinMap.lookup_empty]
    nofun
  · exact .bind ((assignKey_sound n klass).imp (fun _ _ h => h) fun _ _ h =>
      h.forget) fun _ => .pure fun _ h => ⟨h, hfree⟩

theorem copyFields_sound (src : Ptr) {dst : Ptr} (hfree : ∀ k, ¬ W dst k ∧ ¬ B dst k)
    (hlive : L dst) : Maintains (Sound L W B) (copyFields src dst) := by
  refine getObject_bind fun d => .bind (Q := fun _ m => Blank L W B dst m) ?_ fun _ => ?_
  · refine .modify fun m h => ?_
    have hset := h.1.setObject (p := dst) (d := {}) (Dyn.settled_of_empty rfl)
      (fun k hk => ((hfree k).1 hk).elim) fun k hk => ((hfree k).2 hk).elim
    refine ⟨hset.with (h.1.live dst hlive), ?_⟩
    rw [object_self]
  · refine .mono (.forEach (I := fun _ => Blank L W B dst) (fun kv _ => ?_) _) (fun _ h => h)
      (fun _ _ h => h.1.forget) (E := fun _ => Sound L W B) fun _ _ h => h
    exact getContent_bind fun c => putField_blank kv.1 c

theorem cloneChildren_sound {cloneChild : Ptr → MemoryM Ptr}
    (h : ∀ q, Maintains (Sound L W B) (cloneChild q)) (dst : Ptr) :
    Maintains (Sound L W B) (cloneChildren cloneChild dst) := by
  refine getObject_bind fun d => .mono (P := Sound L W B) (Maintains.forEach fun kv _ => ?_)
    (fun _ h => h.1) (fun _ _ h => h) fun _ _ h => h
  refine getContent_bind fun c => ?_
  cases c with
  | plain v => exact .pure fun _ h => h
  | object q => exact .bind (h q) fun p => putContent_sound _ _

theorem clonePtr_sound (depth : Nat) (src : Ptr) :
    Triple (Sound L W B) (clonePtr depth src) (fun p m => m.Sound (With L p) W B ∧ Free L W B p)
      fun _ => Sound L W B := by
  induction depth generalizing src L W B with
  | zero => exact .throw fun _ h => h
  | succ depth ih =>
    refine .bind (construct_sound 0 ∅) fun dst => .given fun hfree => ?_
    refine .bind ((copyFields_sound src hfree.2 (.inr rfl)).imp (fun _ _ h => h)
      fun _ _ h => h.forget) fun _ => .bind (Q := fun _ => Sound (With L dst) W B) ?_ fun _ =>
        .pure fun _ h => ⟨h, hfree⟩
    refine (cloneChildren_sound (fun q => ?_) dst).imp (fun _ _ h => h) fun _ _ h => h.forget
    exact (ih q).imp (fun _ _ h => h.1.forget) fun _ _ h => h

theorem copyConstruct_sound (depth : Nat) (src : Ptr) :
    Triple (Sound L W B) (copyConstruct depth src)
      (fun p m => m.Sound (With L p) W B ∧ Free L W B p) fun _ => Sound L W B := by
  refine .bind (newObject_blank L W B rfl) fun dst => .given fun hfree => ?_
  refine .bind ((copyFields_sound src hfree.2 (.inr rfl)).mono (fun _ h => h.1) (fun _ _ h => h)
    fun _ _ h => h.forget) fun _ => .bind (Q := fun _ => Sound (With L dst) W B) ?_ fun _ =>
      .pure fun _ h => ⟨h, hfree⟩
  refine (cloneChildren_sound (fun q => ?_) dst).imp (fun _ _ h => h) fun _ _ h => h.forget
  exact (clonePtr_sound depth q).imp (fun _ _ h => h.1.forget) fun _ _ h => h

/-! ## Lookups -/

theorem init_sound (T : FieldType) : Maintains (Sound L W B) T.init := by
  cases T with
  | object =>
    exact .bind ((construct_sound 0 ∅).imp (fun _ _ h => h.1.forget) fun _ _ h => h)
      fun p => .pure fun _ h => h
  | _ => exact .pure fun _ h => h

theorem asType_sound (T : FieldType) (n : Node) : Maintains (Sound L W B) (asType T n) := by
  refine getContent_bind fun c => ?_
  split
  · exact .bind (init_sound T) fun c => putContent_sound n c
  split
  · exact .pure fun _ h => h
  · exact .throw fun _ h => h

theorem as_sound (T : FieldType) (p : Ptr) (name : Key) : Maintains (Sound L W B) (as T p name) :=
  touch_sound fun n => .bind ((asType_sound T n).mono (fun _ h => h.1) (fun _ _ h => h)
    fun _ _ h => h) fun _ => .pure fun _ h => h

theorem asKey_sound (p : Ptr) (name : Key) : Maintains (Sound L W B) (asKey p name) := by
  refine .bind (as_sound .key p name) fun n => getContent_bind fun c => ?_
  split <;> exact .pure fun _ h => h

/-- After it the namespace is there. -/
theorem resolveNamespace_sound {p : Ptr} (hp : L p) :
    Triple (Sound L W B) (resolveNamespace p)
      (fun _ => Sound L W fun q k => B q k ∨ q = p ∧ k = NAMESPACE) fun _ => Sound L W B := by
  have hbound {m : Memory} {n : Node} (h : m.Sound L W B)
      (hn : (m.object p).fields.lookup NAMESPACE = some n) :
      m.Sound L W fun q k => B q k ∨ q = p ∧ k = NAMESPACE := by
    refine ⟨h.settled, h.live, h.unmissed, ?_⟩
    rintro q k (hk | ⟨rfl, rfl⟩)
    · exact h.bound q k hk
    · exact ⟨h.live q hp, by rw [hn]; rfl⟩
  refine getObject_bind fun d => ?_
  cases hns : d.fields.lookup NAMESPACE with
  | none =>
    refine .bind ((nodeAt_sound p NAMESPACE).mono (fun m h => ⟨h.1, ?_⟩) (fun _ _ h => h)
      fun _ _ h => h) fun n => ?_
    · exact (h.1.settled p).namespaced
    · refine .bind ((assignKey_sound n 0).mono (fun m h => hbound h.1 h.2) (fun _ _ h => h)
        fun _ m h => ?_) fun _ => .pure fun _ h => h
      exact ⟨h.settled, h.live, h.unmissed, fun q k hk => h.bound q k (.inl hk)⟩
  | some n =>
    refine getContent_bind fun c => ?_
    have hpre (m : Memory) (h : m.Sound L W B ∧ m.object p = d) := hbound h.1 (h.2 ▸ hns)
    split
    · exact .pure hpre
    · refine .bind ((assignKey_sound n 0).mono hpre (fun _ _ h => h) fun _ m h => ?_) fun _ =>
        .pure fun _ h => h
      exact ⟨h.settled, h.live, h.unmissed, fun q k hk => h.bound q k (.inl hk)⟩

theorem copyContent_sound (depth : Nat) (c : Content) :
    Maintains (Sound L W B) (copyContent depth c) := by
  cases c with
  | plain v => exact .pure fun _ h => h
  | object q =>
    exact .bind ((clonePtr_sound depth q).imp (fun _ _ h => h.1.forget)
      fun _ _ h => h) fun p => .pure fun _ h => h

theorem inherit_sound (depth : Nat) {p : Ptr} {name : Key} (hp : W p name) (proto : Node) :
    Maintains (Sound L W B) (inherit depth p name proto) := by
  refine getContent_bind fun c => .bind (copyContent_sound depth c) fun inherited =>
    getObject_bind fun d => ?_
  cases hname : d.fields.lookup name with
  | some n => exact .pure fun _ h => h.1
  | none =>
    refine .bind (Q := fun _ m => m.Sound L W B ∧ m.object p = d) (.ofState fun m h => ?_) fun n =>
      .modify fun m h => ?_
    · exact ⟨h.1.of_objects rfl rfl, h.2⟩
    · refine h.1.insert ((h.1.settled p).unknown ?_ (h.1.unmissed p name hp).2) n
      rw [h.2]
      exact hname

theorem walkClasses_sound (depth : Nat) (col : List (Key × Ptr)) {p : Ptr} {name : Key}
    (hp : W p name) (steps : Nat) (klass : Key) :
    Maintains (Sound L W B) (walkClasses depth col p name steps klass) := by
  induction steps generalizing klass with
  | zero => exact .throw fun _ h => h
  | succ steps ih =>
    unfold walkClasses
    cases col.lookup klass with
    | none => exact .pure fun _ h => h
    | some proto =>
      refine getObject_bind fun d => ?_
      cases d.fields.lookup name with
      | some n =>
        exact (inherit_sound depth hp n).mono (fun _ h => h.1) (fun _ _ h => h) fun _ _ h => h
      | none =>
        exact .bind ((asKey_sound proto PARENT).mono (fun _ h => h.1) (fun _ _ h => h)
          fun _ _ h => h) ih

/-- After the search the namespace is there, and the field is not said to be absent. -/
theorem searchClasses_sound (depth : Nat) {p : Ptr} {name : Key} (hlive : L p) (hp : W p name) :
    Triple (Sound L W B) (searchClasses depth p name)
      (fun _ => Sound L W fun q k => B q k ∨ q = p ∧ k = NAMESPACE) fun _ => Sound L W B := by
  have hforget (e : Exn) (m : Memory)
      (h : m.Sound L W fun q k => B q k ∨ q = p ∧ k = NAMESPACE) : m.Sound L W B :=
    ⟨h.settled, h.live, h.unmissed, fun q k hk => h.bound q k (.inl hk)⟩
  refine .bind (resolveNamespace_sound hlive) fun ns => .bind (.get fun _ h => h) fun m => ?_
  cases m.classes.lookup ns with
  | none => exact .pure fun _ h => h
  | some col =>
    exact .bind ((asKey_sound p CLASS).imp (fun _ _ h => h) hforget) fun klass =>
      (walkClasses_sound depth col hp _ klass).imp (fun _ _ h => h) hforget

theorem cacheNew_sound {p : Ptr} {k : Key} {n : Node} :
    Triple (fun m => m.Sound L W B ∧ (m.object p).fields.lookup k = some n) (cacheNew p k n)
      (fun _ => Sound L W B) fun _ => Sound L W B := by
  refine getObject_bind fun d => ?_
  split
  · exact .pure fun _ h => h.1.1
  · exact .modify fun m h => h.1.1.touch h.1.2 fun _ _ => rfl

/-- A lookup leaves the caches coherent. -/
theorem findField_sound (depth : Nat) {p : Ptr} (name : Key) (hlive : L p) :
    Maintains (Fit L) (findField depth p name) := by
  refine getObject_bind fun d => ?_
  cases hcached : d.lookup.lookup name with
  | some found =>
    exact .pure fun _ h => h.1
  | none =>
    refine getObject_bind fun d' => ?_
    cases hown : d'.fields.lookup name with
    | some n =>
      refine .bind ((cacheNew_sound (n := n)).mono (fun m h => ⟨h.1.1, h.2 ▸ hown⟩)
        (fun _ _ h => h) fun _ _ h => h) fun _ => .pure fun _ h => h
    | none =>
      -- Nothing is known of the field, and after the search its absence still is not.
      have hforget {B : Ptr → Key → Prop} {m : Memory}
          (h : m.Sound L (fun q k => q = p ∧ k = name) B) : m.Fit L :=
        ⟨h.settled, h.live, nofun, nofun⟩
      refine .bind ((searchClasses_sound depth (W := fun q k => q = p ∧ k = name)
        (B := fun _ _ => False) hlive ⟨rfl, rfl⟩).mono (fun m h => ?_) (fun _ _ h => h)
          fun _ _ h => hforget h) fun _ => getObject_bind fun d'' => ?_
      · obtain ⟨⟨hsound, hd⟩, hd'⟩ := h
        refine ⟨hsound.settled, hsound.live, ?_, nofun⟩
        rintro q k ⟨rfl, rfl⟩
        refine ⟨hsound.live q hlive, ?_⟩
        rw [hd, hcached]
        nofun
      · cases hfound : d''.fields.lookup name with
        | some n =>
          refine .bind ((cacheNew_sound (n := n)).mono (fun m h => ⟨hforget h.1, h.2 ▸ hfound⟩)
            (fun _ _ h => h) fun _ _ h => h) fun _ => .pure fun _ h => h
        | none =>
          refine .bind (Q := fun _ => Fit L) (.modify fun m h => ?_) fun _ => .pure fun _ h => h
          have hne : name ≠ NAMESPACE := by
            rintro rfl
            have hbound := (h.1.bound p NAMESPACE (.inr ⟨rfl, rfl⟩)).2
            rw [h.2, hfound] at hbound
            cases hbound
          have hmiss := (h.1.settled p).miss (h.2 ▸ hfound) hne
          exact (hforget h.1).setObject hmiss nofun nofun

theorem subscript_sound (depth : Nat) {p : Ptr} (name : Key) (hlive : L p) :
    Maintains (Fit L) (subscript depth p name) := by
  refine .bind (findField_sound depth name hlive) fun found => ?_
  cases found with
  | some n => exact .pure fun _ h => h
  | none => exact touch_sound fun n => .pure fun _ h => h.1

theorem getAsKey_sound (depth : Nat) {p : Ptr} (k : Key) (hlive : L p) :
    Maintains (Fit L) (getAsKey depth p k) := by
  refine .bind (findField_sound depth k hlive) fun found => ?_
  cases found with
  | none => exact .pure fun _ h => h
  | some n =>
    refine getContent_bind fun c => ?_
    cases c with
    | plain v => exact .lift (fun _ _ h _ => h) fun _ _ h _ => h
    | object q => exact .throw fun _ h => h

/-! ## The other operations -/

theorem erase_sound (p : Ptr) (pos : Nat) : Maintains (Fit L) (erase p pos) :=
  .modify fun _ h => h.setObject ((h.settled p).erase _) nofun nofun

theorem clear_sound (p : Ptr) : Maintains (Fit L) (clear p) :=
  .modify fun _ h => h.setObject (Dyn.settled_of_empty rfl) nofun nofun

theorem destroy_sound (p : Ptr) : Maintains (Fit L) (destroy p) :=
  .modify fun _ h => h.setObject (Dyn.settled_of_empty rfl) nofun nofun

theorem addField_sound (p : Ptr) (name : Key) (c : Content) :
    Maintains (Fit L) (addField p name c) := by
  refine getObject_bind fun d => ?_
  cases hname : d.fields.lookup name with
  | some n => exact .pure fun _ h => h.1
  | none =>
    refine .bind (Q := fun _ => Fit L) (.ofState fun m h => h.1.of_objects rfl rfl) fun n => ?_
    intro m h
    have hn : ((m.object p).fields.insert name n).lookup name = some n := by
      rw [FinMap.lookup_insert, if_pos rfl]
    have htouched := h.touch (p := p) hn fun k' hk' => by rw [FinMap.lookup_insert, if_neg hk']
    have hobject := congrArg Memory.object (setObject_setObject m p
      { m.object p with fields := (m.object p).fields.insert name n }
      { fields := (m.object p).fields.insert name n,
        lookup := (m.object p).lookup.insert name (some n) })
    refine htouched.of_objects (Eq.trans ?_ hobject) rfl
    show (((m.setObject p _).setObject p _).object) = _
    simp only [object_self]

theorem instantiate_sound (ns klass : Key) :
    Triple (Fit L) (instantiate ns klass) (fun p m => m.Fit (With L p)) fun _ => Fit L := by
  refine .bind ((construct_sound klass ∅).imp (fun _ _ h => h.1) fun _ _ h => h)
    fun p => ?_
  split
  · exact .pure fun _ h => h
  · refine .bind ((nodeAt_sound p NAMESPACE).mono (fun m h => ⟨h, ?_⟩) (fun _ _ h => h.1)
      fun _ _ h => h.forget) fun n => ?_
    · exact (h.settled p).namespaced
    · exact .bind ((assignKey_sound n ns).imp (fun _ _ h => h) fun _ _ h =>
        h.forget) fun _ => .pure fun _ h => h

theorem walkAncestors_sound (col : List (Key × Ptr)) (name : Key) (steps : Nat) (ancestor : Key) :
    Maintains (Fit L) (walkAncestors col name steps ancestor) := by
  induction steps generalizing ancestor with
  | zero => exact .throw fun _ h => h
  | succ steps ih =>
    unfold walkAncestors
    cases col.lookup ancestor with
    | none => exact .pure fun _ h => h
    | some proto =>
      simp only
      split
      · exact .pure fun _ h => h
      · exact .bind (asKey_sound proto PARENT) ih

theorem putClasses_sound (f : Memory → List (Key × List (Key × Ptr))) :
    Maintains (Fit L) (Program.modify fun m => { m with classes := f m } : MemoryM Unit) := by
  refine .modify fun m h => ?_
  have hobjects : ({ m with classes := f m } : Memory).objects = m.objects := rfl
  exact h.of_objects rfl hobjects

theorem addClass_sound (depth : Nat) (ns : Key) {klass : Ptr} (parent : Key) (hlive : L klass) :
    Maintains (Fit L) (addClass depth ns klass parent) := by
  refine .bind (asKey_sound klass CLASS) fun name => .bind (subscript_sound depth PARENT hlive)
    fun n => .bind (assignKey_sound n parent) fun _ =>
      .bind (subscript_sound depth NAMESPACE hlive) fun n => .bind (assignKey_sound n ns) fun _ =>
        .bind (.get fun _ h => h) fun m => .bind (putClasses_sound _) fun _ =>
          .bind (walkAncestors_sound _ name _ parent) fun ancestor => ?_
  split
  · exact .pure fun _ h => h
  split
  · exact .pure fun _ h => h
  · exact .bind (putClasses_sound _) fun _ => .pure fun _ h => h

theorem moveConstruct_sound {src : Ptr} (hlive : L src) :
    Triple (fun m => m.Fit L ∧ (m.object src).PointsNowhere) (moveConstruct src)
      (fun p m => m.Fit (With L p)) fun _ => Fit L := by
  refine getObject_bind fun d => ?_
  refine .bind (Q := fun p m => (m.Fit (With L p) ∧ (m.object src).PointsNowhere)) ?_ fun p =>
    .bind (Q := fun _ => Fit (With L p)) (.modify fun m h => ?_) fun _ => .pure fun _ h => h
  · intro m h
    have hfresh := newObject_blank L (fun _ _ => False) (fun _ _ => False)
      (d := { fields := d.fields }) rfl m h.1.1
    refine ⟨hfresh.1.1, ?_⟩
    have hne : src ≠ m.objects := (h.1.1.live src hlive).ne
    show ((m.setObject m.objects _).object src).PointsNowhere
    rw [object_setObject, if_neg hne]
    exact h.1.2
  · exact h.1.setObject ((h.1.settled src).moved h.2) nofun nofun

theorem moveAssign_sound {dst src : Ptr} :
    Triple (fun m => m.Fit L ∧ (dst = src ∨ (m.object src).PointsNowhere)) (moveAssign dst src)
      (fun _ => Fit L) fun _ => Fit L := by
  unfold moveAssign
  split
  · exact .pure fun _ h => h.1
  · next hne =>
    refine getObject_bind fun d => .bind (Q := fun _ => Fit L) (.modify fun m h => ?_) fun _ =>
      .modify fun _ h => h.setObject (Dyn.settled_of_empty rfl) nofun nofun
    exact h.1.1.setObject ((h.1.1.settled src).moved (h.1.2.resolve_left hne)) nofun nofun

/-- Everything but the one object is fit. -/
def FitBut (L : Ptr → Prop) (p : Ptr) (m : Memory) : Prop := (m.setObject p {}).Fit L

theorem Sound.but {m : Memory} (h : m.Fit L) (p : Ptr) : m.FitBut L p :=
  h.setObject (Dyn.settled_of_empty rfl) nofun nofun

theorem FitBut.setObject {m : Memory} {p : Ptr} (h : m.FitBut L p) (d : Dyn) :
    (m.setObject p d).FitBut L p := by
  unfold FitBut
  rw [setObject_setObject]
  exact h

theorem FitBut.restored {m : Memory} {p : Ptr} (h : m.FitBut L p) {d : Dyn} (hd : d.lookup = ∅) :
    (m.setObject p d).Fit L := by
  rw [← setObject_setObject m p {} d]
  exact Sound.setObject h (Dyn.settled_of_empty hd) nofun nofun

/-- Fields are written behind the back of the cache, which is cleared in the end. -/
theorem decodeInto_sound (p : Ptr) (fields : FinMap Key Content) :
    Maintains (Fit L) (decodeInto p fields) := by
  refine .bind (Q := fun _ => FitBut L p) (E := fun _ => Fit L) ?_ fun _ =>
    .modify fun m h => h.restored rfl
  refine (Triple.forEach (I := fun _ => FitBut L p) (fun kv _ => ?_) _).mono
    (fun _ h => h.but p) (fun _ _ h => h) fun _ _ h => h
  refine .bind (Q := fun _ => FitBut L p) (fun m h => ?_) fun n => .modify fun m h => ?_
  · rcases nodeAt_run p kv.1 m with ⟨-, hrun⟩ | ⟨n, -, hrun⟩ <;> rw [hrun]
    · exact Sound.of_objects (h.setObject _) rfl rfl
    · exact h
  · exact Sound.of_objects h rfl rfl

theorem createInstance_sound {made : Option (Option Ptr)} (ns klass : Key)
    (hmade : ∀ p, made = some (some p) → L p) :
    Triple (Fit L) (createInstance made ns klass)
      (fun found m => m.Fit fun q => L q ∨ found = some q) fun _ => Fit L := by
  have hnone {m : Memory} (h : m.Fit L) : m.Fit fun q => L q ∨ (none : Option Ptr) = some q :=
    ⟨h.settled, fun q hq => hq.elim (h.live q) nofun, nofun, nofun⟩
  refine .bind (.get fun _ h => h) fun m => ?_
  cases (m.classes.lookup ns).bind fun col => col.lookup klass with
  | none => exact .pure fun _ h => hnone h
  | some proto =>
    cases made with
    | some found =>
      refine .pure fun m h => ⟨h.settled, ?_, nofun, nofun⟩
      exact fun q hq => hq.elim (h.live q) fun heq => h.live q (hmade q (congrArg some heq))
    | none =>
      refine .bind (instantiate_sound ns klass) fun p => .pure fun m h => ?_
      exact ⟨h.settled, fun q hq => h.live q (hq.imp id fun heq => (Option.some.inj heq).symm),
        nofun, nofun⟩

/-- An object that is moved from and ends. -/
theorem moveConstruct_destroy_sound (src : Ptr) {α : Type} (f : Ptr → MemoryM α)
    (hf : ∀ p, Maintains (Fit L) (f p)) :
    Maintains (Fit L) (moveConstruct src >>= fun p => destroy src >>= fun _ => f p) := by
  refine .bind (Q := fun _ => FitBut L src) ?_ fun p => .bind (Q := fun _ => Fit L)
    (.modify fun m h => h.restored rfl) fun _ => hf p
  refine getObject_bind fun d => .bind (Q := fun _ => Fit L) ?_ fun p =>
    .bind (Q := fun _ => FitBut L src) (.modify fun m h => (h.but src).setObject _) fun _ =>
      .pure fun _ h => h
  refine (newObject_blank L (fun _ _ => False) (fun _ _ => False) rfl).mono (fun _ h => h.1)
    (fun _ _ h => h.1.1.forget) fun _ _ h => h

theorem deserializeInstance_sound (depth : Nat) {made : Option (Option Ptr)}
    (hmade : ∀ p, made = some (some p) → L p) (fields : FinMap Key Content) :
    Maintains (Fit L) (deserializeInstance depth made fields) := by
  refine .bind (construct_sound 0 ∅) fun dyn => .given fun _ => ?_
  have hread (k : Key) := getAsKey_sound (L := With L dyn) depth k (.inr rfl)
  have hstop {P : Memory → Prop} {α : Type} {p : MemoryM α} {Q : α → Memory → Prop}
      (h : Triple P p Q fun _ => Fit (With L dyn)) : Triple P p Q fun _ => Fit L :=
    h.imp (fun _ _ h => h) fun _ _ h => h.forget
  refine .bind (hstop (decodeInto_sound dyn fields)) fun _ => .bind (hstop (hread NAMESPACE))
    fun ns => .bind (hstop (hread CLASS)) fun klass =>
      .bind (hstop (createInstance_sound ns klass fun p hp => .inl (hmade p hp))) fun found => ?_
  have hless {m : Memory} (h : m.Fit fun q => With L dyn q ∨ found = some q) : m.Fit L :=
    ⟨h.settled, fun q hq => h.live q (.inl (.inl hq)), nofun, nofun⟩
  cases found with
  | none =>
    exact (moveConstruct_destroy_sound dyn _ fun p => .pure fun _ h => h).mono
      (fun _ h => hless h) (fun _ _ h => h) fun _ _ h => h
  | some p =>
    refine .bind (Q := fun _ => Fit L) (.bind (Q := fun _ => Fit L) (.get fun _ h => hless h)
      fun _ => .pure fun _ h => h) fun values => .bind (decodeInto_sound p values) fun _ =>
        .bind (destroy_sound dyn) fun _ => .pure fun _ h => h

/-! ## Runs -/

/-- What is done to objects. -/
inductive Operation where
  | construct (klass : Key) (fields : FinMap Key Content)
  | instantiate (ns klass : Key)
  | copyConstruct (src : Ptr)
  | moveConstruct (src : Ptr)
  | moveAssign (dst src : Ptr)
  | clone (src : Ptr)
  | clonePtr (src : Ptr)
  | cloneInto (src dst : Ptr)
  | index (p : Ptr) (pos : Nat)
  | subscript (p : Ptr) (name : Key)
  | as (T : FieldType) (p : Ptr) (name : Key)
  | addField (p : Ptr) (name : Key) (c : Content)
  | erase (p : Ptr) (pos : Nat)
  | clear (p : Ptr)
  | findField (p : Ptr) (name : Key)
  | deserializeInstance (made : Option (Option Ptr)) (fields : FinMap Key Content)
  /-- A field is written through a reference. -/
  | put (n : Node) (c : Content)
  | addClass (ns : Key) (klass : Ptr) (parent : Key)
  | destroy (p : Ptr)

namespace Operation

def run (depth : Nat) : Operation → MemoryM Unit
  | construct klass fields => do let _ ← Memory.construct klass fields
  | instantiate ns klass => do let _ ← Memory.instantiate ns klass
  | copyConstruct src => do let _ ← Memory.copyConstruct depth src
  | moveConstruct src => do let _ ← Memory.moveConstruct src
  | moveAssign dst src => Memory.moveAssign dst src
  | clone src => do let _ ← Memory.clone depth src
  | clonePtr src => do let _ ← Memory.clonePtr depth src
  | cloneInto src dst => Memory.cloneInto depth src dst
  | index p pos => do let _ ← Memory.index p pos
  | subscript p name => do let _ ← Memory.subscript depth p name
  | as T p name => do let _ ← Memory.as T p name
  | addField p name c => do let _ ← Memory.addField p name c
  | erase p pos => Memory.erase p pos
  | clear p => Memory.clear p
  | findField p name => do let _ ← Memory.findField depth p name
  | deserializeInstance made fields => do let _ ← Memory.deserializeInstance depth made fields
  | put n c => Memory.putContent n c
  | addClass ns klass parent => do let _ ← Memory.addClass depth ns klass parent
  | destroy p => Memory.destroy p

/-- The objects it is given. -/
def targets : Operation → List Ptr
  | construct _ fields => fields.entries.flatMap fun kv => kv.2.pointers
  | instantiate _ _ => []
  | put _ c => c.pointers
  | moveAssign dst src | cloneInto src dst => [src, dst]
  | addField p _ c => p :: c.pointers
  | deserializeInstance made fields =>
    made.join.toList ++ fields.entries.flatMap fun kv => kv.2.pointers
  | copyConstruct p | moveConstruct p | clone p | clonePtr p | index p _ | subscript p _
  | as _ p _ | erase p _ | clear p | findField p _ | addClass _ p _ | destroy p => [p]

/-- A move leaves no pointers behind. -/
def Clean (m : Memory) : Operation → Prop
  | moveConstruct src => (m.object src).PointsNowhere
  | moveAssign dst src => dst = src ∨ (m.object src).PointsNowhere
  | _ => True

theorem run_sound (depth : Nat) (op : Operation) (hlive : ∀ p ∈ op.targets, L p) :
    Triple (fun m => m.Fit L ∧ op.Clean m) (op.run depth) (fun _ => Fit L) fun _ => Fit L := by
  have hdrop {α : Type} {p : MemoryM α} {Q : α → Memory → Prop}
      (h : Triple (Fit L) p Q fun _ => Fit L) (hQ : ∀ a m, Q a m → m.Fit L) :
      Triple (fun m => m.Fit L ∧ op.Clean m) (do let _ ← p) (fun _ => Fit L) fun _ => Fit L :=
    .bind (h.mono (fun _ hm => hm.1) (fun a m hm => hQ a m hm) fun _ _ hm => hm) fun _ =>
      .pure fun _ hm => hm
  have hunit {p : MemoryM Unit} (h : Maintains (Fit L) p) :
      Triple (fun m => m.Fit L ∧ op.Clean m) p (fun _ => Fit L) fun _ => Fit L :=
    h.mono (fun _ hm => hm.1) (fun _ _ hm => hm) fun _ _ hm => hm
  have htarget {p : Ptr} (hp : p ∈ op.targets) : L p := hlive p hp
  cases op with
  | construct klass fields => exact hdrop (construct_sound klass fields) fun _ _ h => h.1.forget
  | instantiate ns klass => exact hdrop (instantiate_sound ns klass) fun _ _ h => h.forget
  | copyConstruct src => exact hdrop (copyConstruct_sound depth src) fun _ _ h => h.1.forget
  | moveConstruct src =>
    exact .bind ((moveConstruct_sound (htarget (List.mem_singleton_self src))).imp
      (fun _ _ h => h.forget) fun _ _ h => h) fun _ => .pure fun _ h => h
  | moveAssign dst src => exact moveAssign_sound
  | clone src =>
    exact hdrop (.bind ((clonePtr_sound depth src).imp (fun _ _ h => h.1.forget)
      fun _ _ h => h) fun q => moveConstruct_destroy_sound q _ fun p => .pure fun _ h => h)
      fun _ _ h => h
  | clonePtr src => exact hdrop (clonePtr_sound depth src) fun _ _ h => h.1.forget
  | cloneInto src dst =>
    refine hunit (.bind (copyFields_sound src (fun _ => ⟨id, id⟩) (htarget ?_)) fun _ =>
      cloneChildren_sound (fun q => (clonePtr_sound depth q).imp
        (fun _ _ h => h.1.forget) fun _ _ h => h) dst)
    exact List.mem_cons_of_mem src (List.mem_singleton_self dst)
  | index p pos => exact hdrop (touch_sound fun n => .pure fun _ h => h.1) fun _ _ h => h
  | subscript p name =>
    exact hdrop (subscript_sound depth name (htarget (List.mem_singleton_self p))) fun _ _ h => h
  | as T p name => exact hdrop (as_sound T p name) fun _ _ h => h
  | addField p name c => exact hdrop (addField_sound p name c) fun _ _ h => h
  | erase p pos => exact hunit (erase_sound p pos)
  | clear p => exact hunit (clear_sound p)
  | findField p name =>
    exact hdrop (findField_sound depth name (htarget (List.mem_singleton_self p))) fun _ _ h => h
  | deserializeInstance made fields =>
    refine hdrop (deserializeInstance_sound depth (fun p hp => htarget ?_) fields) fun _ _ h => h
    rw [hp]
    exact List.mem_append_left _ (List.mem_singleton_self p)
  | put n c => exact hunit (putContent_sound n c)
  | addClass ns klass parent =>
    exact hdrop (addClass_sound depth ns parent (htarget (List.mem_singleton_self klass)))
      fun _ _ h => h
  | destroy p => exact hunit (destroy_sound p)

/-- A move from an object whose cache points to a node leaves that pointer behind. -/
theorem clean_of_coherent (depth : Nat) {op : Operation} {m : Memory}
    (hlive : ∀ p ∈ op.targets, p < m.objects) (h : (op.run depth m).state.Coherent) :
    op.Clean m := by
  cases op with
  | moveConstruct src =>
    have hne : src ≠ m.objects := (hlive src (List.mem_singleton_self src)).ne
    have hobject : ((run depth (moveConstruct src) m).state).object src =
        { m.object src with fields := ∅ } := by
      show (if src = src then ({ (if src = m.objects then _ else m.object src : Dyn) with
        fields := ∅ } : Dyn) else _) = _
      rw [if_pos rfl, if_neg hne]
    have hsrc := h src
    rw [hobject] at hsrc
    exact Dyn.coherent_moved_iff.1 hsrc
  | moveAssign dst src =>
    by_cases heq : dst = src
    · exact .inl heq
    · have hobject : ((run depth (moveAssign dst src) m).state).object src =
          { m.object src with fields := ∅ } := by
        have hrun : run depth (moveAssign dst src) = Memory.moveAssign dst src := rfl
        rw [hrun, Memory.moveAssign, if_neg heq]
        show (if src = dst then _ else if src = src then ({ m.object src with fields := ∅ } : Dyn)
          else _) = _
        rw [if_neg (Ne.symm heq), if_pos rfl]
      have hsrc := h src
      rw [hobject] at hsrc
      exact .inr (Dyn.coherent_moved_iff.1 hsrc)
  | _ => exact trivial

end Operation

/-- The memory after an operation on objects that are there. -/
def step (depth : Nat) (m : Memory) (op : Operation) : Option Memory :=
  if ∀ p ∈ op.targets, p < m.objects then some (op.run depth m).state else none

theorem step_eq_some {depth : Nat} {m m' : Memory} {op : Operation}
    (h : step depth m op = some m') :
    (∀ p ∈ op.targets, p < m.objects) ∧ (op.run depth m).state = m' := by
  unfold step at h
  split_ifs at h with hlive
  exact ⟨hlive, Option.some.inj h⟩

theorem step_fit {depth : Nat} {m m' : Memory} {op : Operation} (h : m.Fit fun _ => False)
    (hclean : op.Clean m) (hstep : step depth m op = some m') : m'.Fit fun _ => False := by
  obtain ⟨hlive, rfl⟩ := step_eq_some hstep
  have hfit : m.Fit fun p => p < m.objects := ⟨h.settled, fun _ hp => hp, nofun, nofun⟩
  exact ⟨((op.run_sound depth hlive).state ⟨hfit, hclean⟩).settled, nofun, nofun, nofun⟩

/-- In a run whose moves leave no pointers behind the caches are settled. -/
theorem reached_fit {depth : Nat} {ops : List Operation} {m : Memory}
    (hclean : Machine.Each (step depth) (fun m op => op.Clean m) {} ops)
    (hrun : Machine.run (step depth) {} ops = some m) : m.Fit fun _ => False :=
  Machine.run_invariant_of_each (fun _ _ _ h hclean hstep => step_fit h hclean hstep)
    ⟨fun _ => Dyn.settled_of_empty rfl, nofun, nofun, nofun⟩ hclean hrun

/-- **Main result**: in a run whose moves leave no pointers behind every cache is coherent, and
after one more operation every cache still is exactly if that is no such move. -/
theorem caches_coherent {depth : Nat} {ops : List Operation} {m : Memory}
    (hclean : Machine.Each (step depth) (fun m op => op.Clean m) {} ops)
    (hrun : Machine.run (step depth) {} ops = some m) :
    m.Coherent ∧ ∀ op m', step depth m op = some m' → (m'.Coherent ↔ op.Clean m) := by
  have hfit := reached_fit hclean hrun
  refine ⟨fun p => (hfit.settled p).coherent, fun op m' hstep => ⟨fun h => ?_, fun h p => ?_⟩⟩
  · obtain ⟨hlive, rfl⟩ := step_eq_some hstep
    exact op.clean_of_coherent depth hlive h
  · exact ((step_fit hfit h hstep).settled p).coherent

/-- An object is looked into, and another one, which was not, is moved from. -/
theorem caches_coherent_moved : ∃ m : Memory, m.Coherent ∧ ∀ op m',
    step 1 m op = some m' → (m'.Coherent ↔ op.Clean m) := by
  have hclean : Machine.Each (step 1) (fun m op => op.Clean m) {}
      [.construct 5 ∅, .clonePtr 0, .findField 0 CLASS, .moveConstruct 1] := by
    refine (Machine.each_cons rfl).2 ⟨trivial, (Machine.each_cons rfl).2 ⟨trivial,
      (Machine.each_cons rfl).2 ⟨trivial, ?_, fun _ _ => trivial⟩⟩⟩
    intro k n hk
    cases hk
  exact ⟨_, caches_coherent hclean rfl⟩

/-- The object that is moved from after its class was looked up keeps the pointer to the node. -/
theorem moved_from_points_away : ∃ m : Memory,
    Machine.run (step 1) {} [.construct 5 ∅, .findField 0 CLASS, .moveConstruct 0] = some m ∧
      ¬ m.Coherent :=
  ⟨_, rfl, fun h => nomatch h 0 CLASS (some 0) rfl⟩

end Programs

end Memory

end Bison
