import Bison.Core.CacheHits
import Bison.Core.OtherLookups

/-!
# Lookups that only copy a default

A lookup reads keys on its way (the namespace and the class of the object, the parents of the
classes) and writes those that are absent. Where they are all there, and a class has the field,
it only copies that default into the object.

- `quietSearch`: what a lookup comes to without writing a key, read off the memory.
- `copyDefault`: the copying of the default.
- `Answerable`: the lookup finds a value, or throws, and writes nothing but that copy.
- `getField_quiet_iff`: **main result**, exactly then a getter does nothing else either, if its
  lookup returns.
-/

namespace Bison

namespace Memory

open Program

/-- The field of a key. -/
inductive KeyField where
  | holds (key : Key)
  /-- Something else is there. -/
  | other
  /-- There is no field, or an empty one. -/
  | unwritten

/-- What a search without writing a key comes to. -/
inductive Search where
  /-- The field of the nearest class that has it. -/
  | found (n : Node)
  /-- Something else than a key is where a key should be. -/
  | refused
  /-- No class has the field, or a key would have to be written, or the parents go in a circle. -/
  | lost

def KeyField.ofContent : Content → KeyField
  | .plain (.key key) => .holds key
  | c => if c.index = 0 then .unwritten else .other

/-- What is in the field of the key. -/
def keyField (m : Memory) (p : Ptr) (k : Key) : KeyField :=
  match (m.object p).fields.lookup k with
  | some n => .ofContent (m.content n)
  | none => .unwritten

/-- The search goes on with the key. -/
def KeyField.search (next : Key → Search) : KeyField → Search
  | holds key => next key
  | other => .refused
  | unwritten => .lost

/-- From the class on, along the parents. -/
def classSearch (m : Memory) (col : List (Key × Ptr)) (name : Key) : Nat → Key → Search
  | 0, _ => .lost
  | steps + 1, klass =>
    match col.lookup klass with
    | none => .lost
    | some proto =>
      match (m.object proto).fields.lookup name with
      | some n => .found n
      | none => (m.keyField proto PARENT).search (classSearch m col name steps)

/-- From the object on. -/
def quietSearch (m : Memory) (p : Ptr) (name : Key) : Search :=
  (m.keyField p NAMESPACE).search fun ns =>
    match m.classes.lookup ns with
    | none => .lost
    | some col => (m.keyField p CLASS).search (m.classSearch col name (col.length + 1))

/-- What is found is not empty, or an exception comes before anything is found. -/
def Search.Answered (m : Memory) : Search → Prop
  | found n => (m.content n).index ≠ 0
  | refused => True
  | lost => False

/-- The object has a value in the field. If it does not have the field, it is not known to be
absent, and its classes have a value there. -/
def Answerable (m : Memory) (p : Ptr) (name : Key) : Prop :=
  match (m.object p).fields.lookup name with
  | some n => (m.content n).index ≠ 0
  | none => (m.object p).lookup.lookup name ≠ some none ∧ (m.quietSearch p name).Answered m

/-- What is found is copied into the object. -/
def Search.copy (depth : Nat) (p : Ptr) (name : Key) (m : Memory) : Search → Memory
  | found n => (inherit depth p name n m).state
  | _ => m

/-- The default that the object has for the field is copied into it, if it is not there and not
known to be absent. -/
def copyDefault (depth : Nat) (p : Ptr) (name : Key) (m : Memory) : Memory :=
  if ((m.object p).fields.lookup name).isSome ∨ (m.object p).lookup.lookup name = some none then m
  else (m.quietSearch p name).copy depth p name m

/-- `(*dyn(h))[name].as<T>()`. -/
def getField (depth : Nat) (T : FieldType) (p : Ptr) (name : Key) : MemoryM Content := do
  let n ← subscript depth p name
  asType T n
  getContent n

variable {m m₀ m' : Memory} {L : Ptr → Prop} {p q : Ptr} {k key name : Key} {n : Node}
  {depth : Nat} {T : FieldType}

/-! ## Searches in memories that differ in their caches -/

theorem SameButHits.keyField (h : m.SameButHits m') (p : Ptr) (k : Key) :
    m'.keyField p k = m.keyField p k := by
  unfold Memory.keyField
  rw [(h.object p).fields, h.content]

theorem SameButHits.classSearch (h : m.SameButHits m') (col : List (Key × Ptr)) (name : Key)
    (steps : Nat) (klass : Key) :
    m'.classSearch col name steps klass = m.classSearch col name steps klass := by
  induction steps generalizing klass with
  | zero => rfl
  | succ steps ih =>
    unfold Memory.classSearch
    cases col.lookup klass with
    | none => rfl
    | some proto =>
      dsimp only
      rw [(h.object proto).fields, h.keyField, funext ih]

theorem SameButHits.quietSearch (h : m.SameButHits m') (p : Ptr) (name : Key) :
    m'.quietSearch p name = m.quietSearch p name := by
  unfold Memory.quietSearch
  rw [h.keyField, h.keyField, h.classes]
  simp only [funext (h.classSearch _ name _)]

theorem SameButHits.inherit (h : m.SameButHits m') (depth : Nat) (p : Ptr) (name : Key)
    (n : Node) : (inherit depth p name n m).state.SameButHits (inherit depth p name n m').state :=
  (inherit_blind depth p name n m m' h).2.2

theorem SameButHits.copyDefault (h : m.SameButHits m') (depth : Nat) (p : Ptr) (name : Key) :
    (copyDefault depth p name m).SameButHits (copyDefault depth p name m') := by
  unfold Memory.copyDefault
  simp only [(h.object p).fields, (h.object p).missed name, h.quietSearch]
  split_ifs
  · exact h
  · cases m.quietSearch p name with
    | found n => exact h.inherit depth p name n
    | _ => exact h

/-! ## Keys -/

/-- A field that is there is told to the cache only. -/
theorem as_present (hcoherent : (m.object p).Coherent)
    (hown : (m.object p).fields.lookup name = some n) :
    ∃ m', as T p name m = (asType T n >>= fun _ => pure n) m' ∧ m.SameButHits m' := by
  have hunmissed : (m.object p).lookup.lookup name ≠ some none := by
    intro hmiss
    rw [hcoherent name none hmiss] at hown
    cases hown
  refine ⟨m.setObject p { m.object p with lookup := (m.object p).lookup.insert name (some n) }, ?_,
    (SameButHits.refl m).hit hunmissed⟩
  unfold as
  rw [bind_ok (nodeAt_some hown)]
  rfl

/-- What is of the type already is left alone, and so is what is of another one. -/
theorem asType_present (h : (m.content n).index ≠ 0) :
    (T.index = (m.content n).index ∧ asType T n m = ⟨.ok (), [], m⟩) ∨
      T.index ≠ (m.content n).index ∧
        asType T n m = ⟨.error (.runtimeError "Invalid type"), [], m⟩ := by
  unfold asType
  rw [bind_ok (getContent_run n m), if_neg h]
  by_cases hT : (m.content n).index = T.index
  · rw [if_pos hT]
    exact .inl ⟨hT.symm, rfl⟩
  · rw [if_neg hT]
    exact .inr ⟨fun heq => hT heq.symm, rfl⟩

/-- What is done is what the search has come to, with the caches told of more fields at most. -/
def Search.Ends (L : Ptr → Prop) (depth : Nat) (p : Ptr) (name : Key) (m : Memory)
    (r : Outcome Exn Empty Memory Unit) : Search → Prop
  | found n => ∃ m', m.Indistinct L m' ∧ r = inherit depth p name n m'
  | refused => ∃ e m', m.Indistinct L m' ∧ r = ⟨.error e, [], m'⟩
  | lost => True

theorem ofContent_holds {c : Content} (h : KeyField.ofContent c = .holds key) :
    c = .plain (.key key) := by
  unfold KeyField.ofContent at h
  split at h
  · cases h
    rfl
  · split_ifs at h

theorem ofContent_other {c : Content} (h : KeyField.ofContent c = .other) :
    c.index ≠ 0 ∧ c.index ≠ 2 := by
  cases c with
  | object q => exact ⟨nofun, nofun⟩
  | plain v => cases v <;> cases h <;> exact ⟨nofun, nofun⟩

/-- A key that is there is read. -/
theorem asKey_holds (hcoherent : (m.object q).Coherent) (h : m.keyField q k = .holds key) :
    ∃ m', asKey q k m = ⟨.ok key, [], m'⟩ ∧ m.SameButHits m' := by
  unfold Memory.keyField at h
  cases hown : (m.object q).fields.lookup k with
  | none =>
    rw [hown] at h
    cases h
  | some n =>
    rw [hown] at h
    obtain ⟨m', hrun, hsame⟩ := as_present (T := .key) hcoherent hown
    have hcontent : m'.content n = .plain (.key key) := by rw [hsame.content, ofContent_holds h]
    have htype : asType .key n m' = ⟨.ok (), [], m'⟩ := by
      rw [asType_key_run, hcontent]
      rfl
    have has : as .key q k m = ⟨.ok n, [], m'⟩ := hrun.trans (bind_ok htype _)
    refine ⟨m', ?_, hsame⟩
    unfold asKey
    rw [bind_ok has, bind_ok (getContent_run n m'), hcontent]
    rfl

/-- What is no key is refused. -/
theorem asKey_other (hcoherent : (m.object q).Coherent) (h : m.keyField q k = .other) :
    ∃ e m', asKey q k m = ⟨.error e, [], m'⟩ ∧ m.SameButHits m' := by
  unfold Memory.keyField at h
  cases hown : (m.object q).fields.lookup k with
  | none =>
    rw [hown] at h
    cases h
  | some n =>
    rw [hown] at h
    obtain ⟨hempty, hkey⟩ := ofContent_other h
    obtain ⟨m', hrun, hsame⟩ := as_present (T := .key) hcoherent hown
    have htype : asType .key n m' = ⟨.error (.runtimeError "Invalid type"), [], m'⟩ := by
      rw [asType_key_run, hsame.content, if_neg hempty, if_neg hkey]
    have has : as .key q k m = _ := hrun.trans (bind_error htype _)
    exact ⟨_, m', bind_error has _, hsame⟩

/-- A key is read, and the search goes on with it. -/
theorem asKey_ends {next : Key → Search} {f : Key → MemoryM Unit} (h : m₀.Indistinct L m)
    (hnext : ∀ key m', m₀.Indistinct L m' → (next key).Ends L depth p name m₀ (f key m')) :
    ((m₀.keyField q k).search next).Ends L depth p name m₀ ((asKey q k >>= f) m) := by
  have hcoherent := (h.right.settled q).coherent
  have hfit := (asKey_sound q k).state h.right
  rw [← h.same.keyField]
  cases hfield : m.keyField q k with
  | holds key =>
    obtain ⟨m', hrun, hsame⟩ := asKey_holds hcoherent hfield
    rw [hrun] at hfit
    rw [bind_ok hrun]
    exact hnext key m' ⟨h.left, hfit, h.same.trans hsame⟩
  | other =>
    obtain ⟨e, m', hrun, hsame⟩ := asKey_other hcoherent hfield
    rw [hrun] at hfit
    exact ⟨e, m', ⟨h.left, hfit, h.same.trans hsame⟩, bind_error hrun f⟩
  | unwritten => exact trivial

/-- So is the namespace. -/
theorem resolveNamespace_ends {next : Key → Search} {f : Key → MemoryM Unit}
    (h : m₀.Indistinct L m)
    (hnext : ∀ key m', m₀.Indistinct L m' → (next key).Ends L depth p name m₀ (f key m')) :
    ((m₀.keyField p NAMESPACE).search next).Ends L depth p name m₀
      ((resolveNamespace p >>= f) m) := by
  rw [← h.same.keyField]
  unfold Memory.keyField
  cases hown : (m.object p).fields.lookup NAMESPACE with
  | none => exact trivial
  | some n =>
    dsimp only
    cases hfield : KeyField.ofContent (m.content n) with
    | holds key =>
      have hkey : resolveNamespace p m = ⟨.ok key, [], m⟩ := by
        unfold resolveNamespace
        rw [bind_ok (getObject_run p m), hown]
        dsimp only
        rw [bind_ok (getContent_run n m), ofContent_holds hfield]
        rfl
      rw [bind_ok hkey]
      exact hnext key m h
    | other =>
      have hcontent : ¬ ((m.content n).index = 0 ∨ (m.content n).index = 2) :=
        not_or.2 (ofContent_other hfield)
      have hother : resolveNamespace p m = ⟨.error (.runtimeError "Invalid type"), [], m⟩ := by
        unfold resolveNamespace
        rw [bind_ok (getObject_run p m), hown]
        dsimp only
        have hassign := assignKey_error (l := 0) rfl hcontent
        rw [bind_ok (getContent_run n m)]
        rcases hn : m.content n with (_ | _ | key | _) | x
        case plain.key => exact (hcontent (by rw [hn]; exact .inr rfl)).elim
        all_goals simp only [bind_error hassign, List.nil_append]
      exact ⟨_, m, h, bind_error hother f⟩
    | unwritten => exact trivial

theorem walkClasses_ends {col : List (Key × Ptr)} (h : m₀.Indistinct L m) (steps : Nat)
    (klass : Key) : (m₀.classSearch col name steps klass).Ends L depth p name m₀
      (walkClasses depth col p name steps klass m) := by
  induction steps generalizing klass m with
  | zero => exact trivial
  | succ steps ih =>
    unfold walkClasses classSearch
    cases col.lookup klass with
    | none => exact trivial
    | some proto =>
      dsimp only
      rw [bind_ok (getObject_run proto m), (h.same.object proto).fields]
      cases (m₀.object proto).fields.lookup name with
      | some n => exact ⟨m, h, rfl⟩
      | none => exact asKey_ends h fun key m' h' => ih h' key

theorem searchClasses_ends (h : m₀.Indistinct L m) :
    (m₀.quietSearch p name).Ends L depth p name m₀ (searchClasses depth p name m) := by
  refine resolveNamespace_ends h fun ns m' h' => ?_
  rw [bind_ok (get_run m'), h'.same.classes]
  cases m₀.classes.lookup ns with
  | none => exact trivial
  | some col => exact asKey_ends h' fun klass m'' h'' => walkClasses_ends h'' _ klass

/-! ## The copy -/

/-- The object is as it was. -/
structure Aside (p : Ptr) (d : Dyn) (m : Memory) : Prop where
  live : p < m.objects
  object : m.object p = d

variable {d : Dyn} {E : Exn → Memory → Prop}

theorem modifyObject_aside (hq : q ≠ p) (f : Dyn → Dyn) :
    Triple (Aside p d) (modifyObject q f) (fun _ => Aside p d) E :=
  .modify fun _ h => ⟨h.live, (if_neg hq.symm).trans h.object⟩

theorem newNode_aside (c : Content) :
    Triple (Aside p d) (newNode c) (fun _ => Aside p d) E :=
  .ofState fun _ h => ⟨h.live, h.object⟩

theorem putContent_aside (n : Node) (c : Content) :
    Triple (Aside p d) (putContent n c) (fun _ => Aside p d) E :=
  .modify fun _ h => ⟨h.live, h.object⟩

theorem putField_aside (hq : q ≠ p) (k : Key) (c : Content) :
    Triple (Aside p d) (newNode c >>= fun n =>
      modifyObject q fun d => { d with fields := d.fields.insert k n }) (fun _ => Aside p d) E :=
  .bind (newNode_aside c) fun _ => modifyObject_aside hq _

/-- An object that is new is another one. -/
theorem construct_aside :
    Triple (Aside p d) (construct 0 ∅) (fun q m => Aside p d m ∧ q ≠ p) E := by
  intro m h
  rw [construct_run]
  refine ⟨⟨Nat.lt_succ_of_lt h.live, ?_⟩, h.live.ne'⟩
  exact (if_neg h.live.ne).trans ((if_neg h.live.ne).trans h.object)

theorem clonePtr_aside (depth : Nat) (src : Ptr) :
    Maintains (Aside p d) (clonePtr depth src) := by
  induction depth generalizing src with
  | zero => exact .throw fun _ h => h
  | succ depth ih =>
    refine .bind construct_aside fun dst => .given fun hdst =>
      .bind (Q := fun _ => Aside p d) ?_ fun _ =>
        .bind (Q := fun _ => Aside p d) ?_ fun _ => .pure fun _ h => h
    · refine getObject_bind fun d' => .bind ((modifyObject_aside hdst _).weaken
        fun _ h => h.1) fun _ => Maintains.forEach fun kv _ => getContent_bind fun c => ?_
      exact putField_aside hdst kv.1 c
    · refine getObject_bind fun d' => .weaken (Maintains.forEach fun kv _ =>
        getContent_bind fun c => ?_) fun _ h => h.1
      cases c with
      | plain v => exact .pure fun _ h => h
      | object q => exact .bind (ih q) fun q' => putContent_aside kv.2 _

/-- A copy of a value is a value. -/
theorem copyContent_aside (depth : Nat) {c : Content} (hc : c.index ≠ 0) :
    Triple (Aside p d) (copyContent depth c) (fun c' m => Aside p d m ∧ c'.index ≠ 0)
      fun _ => Aside p d := by
  cases c with
  | plain v => exact .pure fun _ h => ⟨h, hc⟩
  | object q => exact .bind (clonePtr_aside depth q) fun q' => .pure fun _ h => ⟨h, nofun⟩

/-- The object has the value afterwards. -/
theorem inherit_value (depth : Nat) (hp : p < m.objects)
    (hnone : (m.object p).fields.lookup name = none) (hn : (m.content n).index ≠ 0) :
    Triple (· = m) (inherit depth p name n) (fun _ m' => ∃ n',
        (m'.object p).fields.lookup name = some n' ∧ (m'.content n').index ≠ 0)
      fun _ _ => True := by
  intro m' hm'
  subst hm'
  unfold inherit
  rw [bind_ok (getContent_run n m')]
  have hcopy := copyContent_aside (p := p) (d := m'.object p) depth hn m' ⟨hp, rfl⟩
  rcases hrun : copyContent depth (m'.content n) m' with ⟨e | c, trace, m₁⟩ <;> rw [hrun] at hcopy
  · rw [bind_error hrun]
    exact trivial
  · -- The copy has left the object alone: the field is absent still.
    obtain ⟨⟨-, hobject⟩, hc⟩ := hcopy
    rw [bind_ok hrun, bind_ok (getObject_run p m₁), hobject, hnone]
    refine ⟨m₁.nodes, ?_, ?_⟩
    · show ((if p = p then _ else _ : Dyn).fields).lookup name = some m₁.nodes
      rw [if_pos rfl, FinMap.lookup_insert, if_pos rfl]
    · show (if m₁.nodes = m₁.nodes then c else _ : Content).index ≠ 0
      rw [if_pos rfl]
      exact hc

/-! ## Getters -/

/-- The value that the lookup finds is left alone. -/
theorem getField_found {trace : List Empty}
    (hfound : findField depth p name m = ⟨.ok (some n), trace, m'⟩)
    (hn : (m'.content n).index ≠ 0) : (getField depth T p name m).state = m' := by
  have hsubscript : subscript depth p name m = ⟨.ok n, trace ++ [], m'⟩ := bind_ok hfound _
  unfold getField
  rw [bind_ok hsubscript]
  rcases asType_present (T := T) hn with ⟨-, htype⟩ | ⟨-, htype⟩
  · rw [bind_ok htype]
    rfl
  · rw [bind_error htype]

theorem getField_error {trace : List Empty} {e : Exn}
    (herror : findField depth p name m = ⟨.error e, trace, m'⟩) :
    (getField depth T p name m).state = m' := by
  have hsubscript : subscript depth p name m = ⟨.error e, trace, m'⟩ := bind_error herror _
  unfold getField
  rw [bind_error hsubscript]

/-- The lookup comes to what its search comes to. -/
theorem getField_search (hcached : (m.object p).lookup.lookup name = none)
    (hown : (m.object p).fields.lookup name = none) {r : Outcome Exn Empty Memory Unit}
    (hsearch : searchClasses depth p name m = r)
    (hvalue : ∀ u, r.result = .ok u → ∃ n, (r.state.object p).fields.lookup name = some n ∧
      (r.state.content n).index ≠ 0)
    (hcoherent : (r.state.object p).Coherent) :
    r.state.SameButHits (getField depth T p name m).state := by
  obtain ⟨e | u, trace, m'⟩ := r
  · have herror := (findField_run hcached hown).trans (bind_error hsearch _)
    rw [getField_error herror]
    exact .refl m'
  · obtain ⟨n, hn, hindex⟩ := hvalue u rfl
    have hunmissed : (m'.object p).lookup.lookup name ≠ some none := by
      intro hmiss
      cases hn.symm.trans (hcoherent name none hmiss)
    have hfound := (findField_run hcached hown).trans (bind_ok hsearch _)
    rw [bind_ok (getObject_run p m')] at hfound
    dsimp only at hfound
    rw [hn] at hfound
    dsimp only at hfound
    rcases cacheNew_run p name n m' with hcache | hcache <;> rw [bind_ok hcache] at hfound
    · rw [getField_found hfound hindex]
      exact .refl m'
    · rw [getField_found hfound hindex]
      exact (SameButHits.refl m').hit hunmissed

theorem inherit_fit (hm : m.Fit L) (hp : L p)
    (hunmissed : (m.object p).lookup.lookup name ≠ some none) (n : Node) :
    (inherit depth p name n m).state.Fit L := by
  have hsound : m.Sound L (fun q k => q = p ∧ k = name) fun _ _ => False := by
    refine ⟨hm.settled, hm.live, ?_, nofun⟩
    rintro q k ⟨rfl, rfl⟩
    exact ⟨hm.live q hp, hunmissed⟩
  have hdone : (inherit depth p name n m).state.Sound L (fun q k => q = p ∧ k = name) _ :=
    (inherit_sound depth ⟨rfl, rfl⟩ n).state hsound
  exact ⟨hdone.settled, hdone.live, nofun, nofun⟩

theorem copyDefault_fit (hm : m.Fit L) (hp : L p) (depth : Nat) (name : Key) :
    (copyDefault depth p name m).Fit L := by
  unfold copyDefault
  split_ifs with h
  · exact hm
  · cases m.quietSearch p name with
    | found n => exact inherit_fit hm hp (not_or.1 h).2 n
    | _ => exact hm

/-- A getter that finds a value copies a default at most. -/
theorem getField_state (depth : Nat) (hm : m.Fit L) (hp : L p) (h : m.Answerable p name) :
    (copyDefault depth p name m).SameButHits (getField depth T p name m).state := by
  have hcoherent := (hm.settled p).coherent
  unfold Answerable at h
  cases hown : (m.object p).fields.lookup name with
  | some n =>
    rw [hown] at h
    have hcopy : copyDefault depth p name m = m := if_pos (.inl (by rw [hown]; rfl))
    obtain ⟨m', hfound, hsame⟩ := findField_present depth hcoherent hown
    have hn : (m'.content n).index ≠ 0 := by
      rw [hsame.content]
      exact h
    rw [getField_found hfound hn, hcopy]
    exact hsame
  | none =>
    rw [hown] at h
    -- Nothing is known of the field, so the lookup goes to the classes.
    obtain ⟨hunmissed, hanswered⟩ := h
    have hcached := (hm.settled p).unknown hown hunmissed
    have hcopy : copyDefault depth p name m = (m.quietSearch p name).copy depth p name m := by
      refine if_neg (not_or.2 ⟨?_, hunmissed⟩)
      rw [hown]
      nofun
    have hends : (m.quietSearch p name).Ends L depth p name m (searchClasses depth p name m) :=
      searchClasses_ends ⟨hm, hm, .refl m⟩
    rw [hcopy]
    cases hsearch : m.quietSearch p name with
    | found n =>
      rw [hsearch] at hanswered hends
      obtain ⟨m', hm', hrun⟩ := hends
      have hvalue := inherit_value depth (n := n) (hm'.right.live p hp)
        (by rw [(hm'.same.object p).fields]; exact hown)
        (by rw [hm'.same.content]; exact hanswered) m' rfl
      refine (hm'.same.inherit depth p name n).trans (getField_search hcached hown hrun ?_ ?_)
      · intro u hu
        rw [hu] at hvalue
        exact hvalue
      · have hunmissed' := (not_congr ((hm'.same.object p).missed name)).2 hunmissed
        exact ((inherit_fit hm'.right hp hunmissed' n).settled p).coherent
    | refused =>
      -- It throws, and has only told caches of keys that are there.
      rw [hsearch] at hends
      obtain ⟨e, m', hm', hrun⟩ := hends
      exact hm'.same.trans (getField_search hcached hown hrun nofun
        (hm'.right.settled p).coherent)
    | lost =>
      rw [hsearch] at hanswered
      exact hanswered.elim

/-! ## Getters that write -/

/-- The object has a value in the field. -/
def HasValue (m : Memory) (p : Ptr) (name : Key) : Prop :=
  ∃ n, (m.object p).fields.lookup name = some n ∧ (m.content n).index ≠ 0

theorem SameButHits.hasValue (h : m.SameButHits m') : m'.HasValue p name ↔ m.HasValue p name := by
  unfold HasValue
  rw [(h.object p).fields, h.content]

theorem init_value (hp : p < m.objects) (T : FieldType) :
    ∃ c m', T.init m = ⟨.ok c, [], m'⟩ ∧ c.index ≠ 0 ∧ m'.object p = m.object p := by
  cases T with
  | object =>
    refine ⟨_, _, bind_ok (construct_run m 0) _, nofun, ?_⟩
    exact (if_neg hp.ne).trans (if_neg hp.ne)
  | _ => exact ⟨_, m, rfl, nofun, rfl⟩

/-- An empty field gets a value, and one that is not keeps it. -/
theorem asType_value (hp : p < m.objects) (hn : (m.object p).fields.lookup name = some n) :
    (asType T n m).state.HasValue p name := by
  by_cases hempty : (m.content n).index = 0
  · -- `T{}` may be a new object, but not this one.
    obtain ⟨c, m', hinit, hc, hobject⟩ := init_value hp T
    have hrun : asType T n m = ⟨.ok (), [], m'.setContent n c⟩ := by
      unfold asType
      rw [bind_ok (getContent_run n m), if_pos hempty, bind_ok hinit]
      rfl
    rw [hrun]
    refine ⟨n, ?_, ?_⟩
    · show (m'.object p).fields.lookup name = some n
      rw [hobject, hn]
    · rw [content_setContent, if_pos rfl]
      exact hc
  · rcases asType_present (T := T) hempty with ⟨-, hrun⟩ | ⟨-, hrun⟩ <;> rw [hrun] <;>
      exact ⟨n, hn, hempty⟩

/-- `operator[]` returns the field. -/
theorem subscript_own (hm : m.Fit L) (hp : L p) (depth : Nat) (name : Key) :
    Triple (· = m) (subscript depth p name)
      (fun n m' => m'.Fit L ∧ (m'.object p).fields.lookup name = some n) fun _ _ => True := by
  have hlookup := ((findField_sound depth name hp).at hm).and
    (findField_own (hm.settled p).coherent depth)
  refine .bind (hlookup.imp (fun _ _ h => h) fun _ _ _ => trivial) fun found => ?_
  cases found with
  | some n => exact .pure fun _ h => h
  | none =>
    refine .mono (touch_sound (L := L) fun n => .pure fun _ h => h) (fun _ h => h.1)
      (fun _ _ h => h) fun _ _ _ => trivial

theorem inherit_empty (hnone : (m.object p).fields.lookup name = none)
    (hn : (m.content n).index = 0) : ¬ (inherit depth p name n m).state.HasValue p name := by
  have hcontent : m.content n = .plain .monostate := by
    rcases hc : m.content n with v | q <;> rw [hc] at hn
    · cases v <;> cases hn
      rfl
    · cases hn
  have hcopy : copyContent depth (.plain .monostate) m = ⟨.ok (.plain .monostate), [], m⟩ := rfl
  unfold inherit
  rw [bind_ok (getContent_run n m), hcontent, bind_ok hcopy, bind_ok (getObject_run p m), hnone]
  rintro ⟨n', hn', hvalue⟩
  have hnew : n' = m.nodes := by
    change ((if p = p then _ else _ : Dyn).fields).lookup name = some n' at hn'
    rw [if_pos rfl, FinMap.lookup_insert, if_pos rfl] at hn'
    exact (Option.some.inj hn').symm
  subst hnew
  exact hvalue (congrArg Content.index (if_pos rfl))

theorem subscript_returns {found : Option Node}
    (hfound : (findField depth p name m).result = .ok found) :
    ∃ n trace m', subscript depth p name m = ⟨.ok n, trace, m'⟩ := by
  rcases hrun : findField depth p name m with ⟨result, trace, m₁⟩
  rw [hrun] at hfound
  cases hfound
  cases found with
  | some n => exact ⟨n, _, m₁, bind_ok hrun _⟩
  | none =>
    unfold subscript
    rw [bind_ok hrun]
    dsimp only
    rcases nodeAt_run p name m₁ with ⟨-, hnode⟩ | ⟨n, -, hnode⟩ <;> rw [bind_ok hnode] <;>
      exact ⟨_, _, _, rfl⟩

/-- Where nothing is found, or what is found is empty, nothing with a value is copied. -/
theorem copyDefault_empty (h : ¬ m.Answerable p name) :
    ¬ (copyDefault depth p name m).HasValue p name := by
  unfold Answerable at h
  cases hown : (m.object p).fields.lookup name with
  | some n =>
    rw [hown] at h
    have hcopy : copyDefault depth p name m = m := if_pos (.inl (by rw [hown]; rfl))
    rw [hcopy]
    rintro ⟨n', hn', hvalue⟩
    cases hown.symm.trans hn'
    exact h hvalue
  | none =>
    rw [hown] at h
    have habsent : ¬ m.HasValue p name := by
      rintro ⟨n, hn, -⟩
      cases hown.symm.trans hn
    unfold copyDefault
    split_ifs with hmissed
    · exact habsent
    · cases hsearch : m.quietSearch p name with
      | found n =>
        refine inherit_empty hown ?_
        by_contra hvalue
        refine h ⟨(not_or.1 hmissed).2, ?_⟩
        rw [hsearch]
        exact hvalue
      | _ => exact habsent

/-- After a getter whose lookup returns, the object has a value in the field. -/
theorem getField_value (hm : m.Fit L) (hp : L p) {found : Option Node}
    (hfound : (findField depth p name m).result = .ok found) :
    (getField depth T p name m).state.HasValue p name := by
  obtain ⟨n, trace, m', hrun⟩ := subscript_returns hfound
  have hown := subscript_own hm hp depth name m rfl
  rw [hrun] at hown
  have hvalue := asType_value (T := T) (hown.1.live p hp) hown.2
  unfold getField
  rw [bind_ok hrun]
  rcases htype : asType T n m' with ⟨e | u, trace', m''⟩ <;> rw [htype] at hvalue
  · rw [bind_error htype]
    exact hvalue
  · rw [bind_ok htype]
    exact hvalue

/-- **Main result**: a getter whose lookup returns copies a default at most, exactly if the lookup
finds a value. -/
theorem getField_quiet_iff (hm : m.Fit L) (hp : L p) {found : Option Node}
    (hfound : (findField depth p name m).result = .ok found) :
    (copyDefault depth p name m).SameButHits (getField depth T p name m).state ↔
      m.Answerable p name := by
  refine ⟨fun hsame => ?_, getField_state depth hm hp⟩
  by_contra hanswerable
  exact copyDefault_empty hanswerable (hsame.hasValue.1 (getField_value hm hp hfound))

end Memory

end Bison
