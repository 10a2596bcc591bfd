import Bison.Core.Chains
import Bison.Core.FieldLookup

/-!
# The heap stays valid

Every operation on objects leaves a valid heap, whether it returns or fails.

- `findField_grows`: a lookup brings about no sharing.
- `Operation.run_valid`, `reached_valid`: **main result**, the heap is valid in every run.
-/

namespace Bison

namespace Memory

open Program

variable {m m' : Memory} {L : Ptr → Prop} {p : Ptr} {k name : Key}

/-! ## Lookups -/

/-- The memory with another cache. -/
def withCache (m : Memory) (p : Ptr) (lookup : FinMap Key (Option Node)) : Memory :=
  m.setObject p { m.object p with lookup }

theorem fields_withCache (m : Memory) (p q : Ptr) (lookup : FinMap Key (Option Node)) :
    ((m.withCache p lookup).object q).fields = (m.object q).fields := by
  unfold withCache
  rw [object_setObject]
  split_ifs with heq
  · rw [heq]
  · rfl

theorem child_withCache (m : Memory) (p : Ptr) (lookup : FinMap Key (Option Node)) :
    (m.withCache p lookup).Child = m.Child := by
  funext x y
  unfold Child
  rw [fields_withCache]
  rfl

theorem readNode_withCache (m : Memory) (p : Ptr) (lookup : FinMap Key (Option Node))
    (depth : Nat) (n : Node) : (m.withCache p lookup).readNode depth n = m.readNode depth n := by
  have hall : Graph.Closed m.Child fun _ => True := fun _ _ _ _ => trivial
  have hcontent : (m.withCache p lookup).content n = m.content n := rfl
  unfold readNode
  rw [hcontent]
  cases m.content n with
  | plain v => rfl
  | object q =>
    exact congrArg (Option.map Value.object) (read_congr hall
      (fun x _ => fields_withCache m p x lookup) (fun _ _ _ _ _ => rfl) depth trivial)

theorem Grows.withCache (h : m.Grows p m') (hp : p < m.objects)
    (lookup : FinMap Key (Option Node)) : m.Grows p (m'.withCache p lookup) := by
  refine ⟨h.valid.setObject (hp.trans_le h.objects) fun _ _ hk => hk, h.objects, h.nodes, h.classes,
    fun q hq hne hclass => (h.other q hq hne hclass).trans
      ⟨fields_withCache m' p q lookup, fun _ _ _ => rfl⟩, ?_⟩
  rw [child_withCache]
  exact h.child

/-- `field_lookup_.emplace`. -/
theorem cacheNew_run (p : Ptr) (name : Key) (n : Node) (m : Memory) :
    cacheNew p name n m = ⟨.ok (), [], m⟩ ∨
      cacheNew p name n m = ⟨.ok (), [], m.withCache p ((m.object p).lookup.insert name n)⟩ := by
  unfold cacheNew
  rw [bind_ok (getObject_run p m)]
  split_ifs
  · exact .inl rfl
  · exact .inr rfl

/-- A lookup brings about no sharing. -/
theorem findField_grows (hm : m.Valid) (hp : p < m.objects) (depth : Nat) (name : Key) :
    Triple (· = m) (findField depth p name) (fun _ => m.Grows p) fun _ => m.Grows p := by
  have hstart {m' : Memory} (h : m' = m) : m.Grows p m' := h ▸ (Extends.refl _ m).grows hm hm
  have hfound (n : Node) : Triple (m.Grows p) (do cacheNew p name n; return some n)
      (fun _ => m.Grows p) fun _ => m.Grows p := by
    refine .bind (Q := fun _ => m.Grows p) (fun m' h => ?_) fun _ => .pure fun _ h => h
    rcases cacheNew_run p name n m' with hrun | hrun <;> rw [hrun]
    · exact h
    · exact h.withCache hp _
  refine getObject_bind fun d => ?_
  cases d.lookup.lookup name with
  | some found => exact .pure fun _ h => hstart h.1
  | none =>
    refine getObject_bind fun d' => ?_
    cases hown : d'.fields.lookup name with
    | some n => exact (hfound n).mono (fun _ h => hstart h.1.1) (fun _ _ h => h) fun _ _ h => h
    | none =>
      refine .bind (Q := fun _ => m.Grows p) (.each fun m' h => ?_) fun _ =>
        getObject_bind fun d => ?_
      · obtain ⟨⟨rfl, -⟩, rfl⟩ := h
        exact (searchClasses_answers hm hp hown).imp (fun _ _ h => h.1) fun _ _ h => h.1
      · cases d.fields.lookup name with
        | some n => exact (hfound n).mono (fun _ h => h.1) (fun _ _ h => h) fun _ _ h => h
        | none =>
          exact .bind (Q := fun _ => m.Grows p) (.modify fun _ h => h.1.withCache hp _) fun _ =>
            .pure fun _ h => h

/-! ## Operations -/

/-- The heap is valid, and the objects `L` are there. -/
structure Sane (L : Ptr → Prop) (m : Memory) : Prop where
  valid : m.Valid
  live : ∀ p, L p → p < m.objects

theorem Sane.forget (h : m.Sane (With L p)) : m.Sane L := ⟨h.valid, fun q hq => h.live q (.inl hq)⟩

theorem Sane.with (h : m.Sane L) (hp : p < m.objects) : m.Sane (With L p) :=
  ⟨h.valid, fun q hq => hq.elim (h.live q) fun heq => heq ▸ hp⟩

theorem Sane.withCache (h : m.Sane L) (hp : p < m.objects) (lookup : FinMap Key (Option Node)) :
    (m.withCache p lookup).Sane L :=
  ⟨h.valid.setObject hp fun _ _ hk => hk, h.live⟩

theorem newObject_sane {d : Dyn} (hd : d.fields = ∅) :
    Triple (Sane L) (newObject d) (fun p => Sane (With L p)) fun _ => Sane L :=
  .ofState fun _ h => ⟨h.valid.withObject hd, fun q hq => hq.elim
    (fun hq => Nat.lt_succ_of_lt (h.live q hq)) fun heq => heq ▸ Nat.lt_succ_self _⟩

theorem putContent_sane (n : Node) {c : Content} (hc : ∀ q, c = .object q → L q) :
    Maintains (Sane L) (putContent n c) :=
  .modify fun _ h => ⟨h.valid.setContent fun q hq => h.live q (hc q hq), h.live⟩

theorem nodeAt_sane (hp : L p) (k : Key) : Maintains (Sane L) (nodeAt p k) := by
  intro m h
  cases hk : (m.object p).fields.lookup k with
  | none =>
    rw [nodeAt_none hk]
    exact ⟨h.valid.withField (h.live p hp) k nofun, h.live⟩
  | some n =>
    rw [nodeAt_some hk]
    exact h

theorem cache_sane (hp : L p) (k : Key) (found : Option Node) :
    Maintains (Sane L) (cache p k found) := .modify fun _ h => h.withCache (h.live p hp) _

theorem assignKey_sane (n : Node) (k : Key) : Maintains (Sane L) (assignKey n k) := by
  refine getContent_bind fun c => getContent_bind fun c' => ?_
  split
  · exact putContent_sane n nofun
  · exact .throw fun _ h => h

theorem putField_sane (hp : L p) (k : Key) {c : Content} (hc : ∀ q, c = .object q → L q) :
    Maintains (Sane L) (newNode c >>= fun n =>
      modifyObject p fun d => { d with fields := d.fields.insert k n }) :=
  fun _ h => ⟨h.valid.withField (h.live p hp) k fun q hq => h.live q (hc q hq), h.live⟩

theorem construct_sane (klass : Key) {fields : FinMap Key Content}
    (hfields : ∀ kv ∈ fields.entries, ∀ q, kv.2 = .object q → L q) :
    Triple (Sane L) (construct klass fields) (fun p => Sane (With L p)) fun _ => Sane L := by
  have hstop {α : Type} {p : Ptr} {prog : MemoryM α} {Q : α → Memory → Prop}
      (h : Triple (Sane (With L p)) prog Q fun _ => Sane (With L p)) :
      Triple (Sane (With L p)) prog Q fun _ => Sane L :=
    h.imp (fun _ _ h => h) fun _ _ h => h.forget
  refine .bind (newObject_sane rfl) fun p => .bind (hstop (Maintains.forEach fun kv hkv =>
    putField_sane (.inr rfl) kv.1 fun q hq => .inl (hfields kv hkv q hq))) fun _ =>
      .bind (hstop (nodeAt_sane (.inr rfl) CLASS)) fun n =>
        .bind (hstop (assignKey_sane n klass)) fun _ => .pure fun _ h => h

theorem Sane.extended {X : Ptr → Prop} (h : m.Sane L) (hm' : m'.Valid) (hkept : m.Extends X m') :
    m'.Sane L := ⟨hm', fun q hq => (h.live q hq).trans_le hkept.objects⟩

/-- A copy that is a new object. -/
theorem copy_sane {depth : Nat} {src : Ptr} {copy : MemoryM Ptr}
    (hcopy : ∀ m : Memory, m.Valid → src < m.objects → Triple (· = m) copy
      (fun dst m' => m.objects ≤ dst ∧ m.Cloned depth src dst m')
      fun _ => m.Failed (fun _ => False) depth src) (hsrc : L src) :
    Triple (Sane L) copy (fun p => Sane (With L p)) fun _ => Sane L :=
  .each fun m h => (hcopy m h.valid (h.live src hsrc)).imp
    (fun _ _ hc => (h.extended hc.2.valid hc.2.kept).with hc.2.live)
    fun _ _ hf => h.extended hf.valid hf.kept

/-- Copying into an object that may be a part of the source. -/
theorem cloneInto_sane (depth : Nat) {src dst : Ptr} (hdst : L dst) :
    Maintains (Sane L) (cloneInto depth src dst) := by
  refine .bind (Q := fun _ => Sane L) (.each fun m h => ?_) fun _ => getObject_bind fun d => ?_
  · exact (copyFields_filling h.valid (h.live dst hdst)).imp
      (fun _ _ hf => h.extended hf.valid hf.kept) fun _ _ hfalse => hfalse.elim
  · refine .mono (Maintains.forEach (I := fun m => m.Sane L ∧ m.object dst = d) fun kv hkv =>
      .each fun m h => ?_) (fun _ h => h) (fun _ _ h => h.1) fun _ _ h => h.1
    refine .bind (Q := fun c m' => m' = m ∧ m.content kv.2 = c) (fun m' hm' => ⟨hm', hm' ▸ rfl⟩)
      fun c => .given fun hc => ?_
    cases c with
    | plain v => exact .pure fun _ heq => heq ▸ h
    | object q =>
      have hq : q < m.objects :=
        h.1.valid.child dst q ⟨kv.1, kv.2, h.2 ▸ FinMap.mem_entries.1 hkv, hc⟩
      have hdst' := h.1.live dst hdst
      refine .bind ((clonePtr_cloned depth m q h.1.valid hq).imp (fun _ _ h => h)
        fun _ _ hf => ⟨h.1.extended hf.valid hf.kept, (hf.kept.object dst hdst' id).trans h.2⟩)
          fun q' => .modify fun m' hcloned => ?_
      have hne : dst ≠ q' := (hdst'.trans_le hcloned.1).ne
      have hsane := h.1.extended hcloned.2.valid hcloned.2.kept
      exact ⟨⟨hsane.valid.setContent fun x hx => Content.object.inj hx ▸ hcloned.2.live,
        hsane.live⟩, (hcloned.2.kept.object dst hdst' hne).trans h.2⟩

theorem init_sane (T : FieldType) :
    Triple (Sane L) T.init (fun c => Sane fun q => L q ∨ c = .object q) fun _ => Sane L := by
  have hplain {v : Value} : Triple (Sane L) (pure (.plain v) : MemoryM Content)
      (fun c => Sane fun q => L q ∨ c = .object q) fun _ => Sane L :=
    .pure fun _ h => ⟨h.valid, fun q hq => h.live q (hq.resolve_right nofun)⟩
  cases T with
  | object =>
    refine .bind (construct_sane 0 fun _ hkv => nomatch hkv) fun p => .pure fun _ h => ?_
    exact ⟨h.valid, fun q hq => h.live q (hq.imp_right fun heq => (Content.object.inj heq).symm)⟩
  | _ => exact hplain

theorem asType_sane (T : FieldType) (n : Node) : Maintains (Sane L) (asType T n) := by
  refine getContent_bind fun c => ?_
  split
  · refine .bind (init_sane T) fun c => (putContent_sane n fun q hq => .inr hq).imp
      (fun _ _ h => ⟨h.valid, fun q hq => h.live q (.inl hq)⟩)
      fun _ _ h => ⟨h.valid, fun q hq => h.live q (.inl hq)⟩
  split
  · exact .pure fun _ h => h
  · exact .throw fun _ h => h

theorem as_sane (T : FieldType) (hp : L p) (name : Key) : Maintains (Sane L) (as T p name) :=
  .bind (nodeAt_sane hp name) fun n => .bind (cache_sane hp name n) fun _ =>
    .bind (asType_sane T n) fun _ => .pure fun _ h => h

theorem asKey_sane (hp : L p) (name : Key) : Maintains (Sane L) (asKey p name) := by
  refine .bind (as_sane .key hp name) fun n => getContent_bind fun c => ?_
  split <;> exact .pure fun _ h => h

theorem findField_sane (depth : Nat) (hp : L p) (name : Key) :
    Maintains (Sane L) (findField depth p name) :=
  .each fun _ h => (findField_grows h.valid (h.live p hp) depth name).imp
    (fun _ _ hg => ⟨hg.valid, fun q hq => (h.live q hq).trans_le hg.objects⟩)
    fun _ _ hg => ⟨hg.valid, fun q hq => (h.live q hq).trans_le hg.objects⟩

theorem subscript_sane (depth : Nat) (hp : L p) (name : Key) :
    Maintains (Sane L) (subscript depth p name) := by
  refine .bind (findField_sane depth hp name) fun found => ?_
  cases found with
  | some n => exact .pure fun _ h => h
  | none =>
    exact .bind (nodeAt_sane hp name) fun n => .bind (cache_sane hp name n) fun _ =>
      .pure fun _ h => h

theorem getAsKey_sane (depth : Nat) (hp : L p) (k : Key) :
    Maintains (Sane L) (getAsKey depth p k) := by
  refine .bind (findField_sane depth hp k) fun found => ?_
  cases found with
  | none => exact .pure fun _ h => h
  | some n =>
    refine getContent_bind fun c => ?_
    cases c with
    | plain v => exact .lift (fun _ _ h _ => h) fun _ _ h _ => h
    | object q => exact .throw fun _ h => h

/-- An object loses fields. -/
theorem modifyObject_sane (hp : L p) {f : Dyn → Dyn}
    (hf : ∀ d k n, (f d).fields.lookup k = some n → d.fields.lookup k = some n) :
    Maintains (Sane L) (modifyObject p f) :=
  .modify fun m h => ⟨h.valid.setObject (h.live p hp) (hf (m.object p)), h.live⟩

theorem erase_sane (hp : L p) (pos : Nat) : Maintains (Sane L) (erase p pos) :=
  modifyObject_sane hp fun _ _ _ hk => by
    rw [FinMap.lookup_erase] at hk
    split_ifs at hk
    exact hk

theorem clear_sane (hp : L p) : Maintains (Sane L) (clear p) :=
  modifyObject_sane hp fun _ _ _ hk =>
    FinMap.mem_entries.1 (List.mem_filter.1 (FinMap.mem_entries.2 hk)).1

theorem destroy_sane (hp : L p) : Maintains (Sane L) (destroy p) :=
  modifyObject_sane hp fun _ _ _ hk => nomatch hk

theorem addField_sane (hp : L p) (name : Key) {c : Content} (hc : ∀ q, c = .object q → L q) :
    Maintains (Sane L) (addField p name c) := by
  refine getObject_bind fun d => ?_
  cases d.fields.lookup name with
  | some n => exact .pure fun _ h => h.1
  | none =>
    refine .each fun m h m' hm' => ?_
    subst hm'
    have hfield := h.1.valid.withField (h.1.live p hp) name fun q hq => h.1.live q (hc q hq)
    exact ⟨hfield.setObject (h.1.live p hp) fun _ _ hk => hk, h.1.live⟩

theorem instantiate_sane (ns klass : Key) :
    Triple (Sane L) (instantiate ns klass) (fun p => Sane (With L p)) fun _ => Sane L := by
  refine .bind (construct_sane klass fun _ hkv => nomatch hkv) fun p => ?_
  split
  · exact .pure fun _ h => h
  · exact .bind ((nodeAt_sane (.inr rfl) NAMESPACE).imp (fun _ _ h => h)
      fun _ _ h => h.forget) fun n => .bind ((assignKey_sane n ns).imp
        (fun _ _ h => h) fun _ _ h => h.forget) fun _ => .pure fun _ h => h

/-- Other classes are registered. -/
theorem putClasses_sane {ns : Key} {col : List (Key × Ptr)}
    (hcol : ∀ name q, col.lookup name = some q → L q) :
    Maintains (Sane L)
      (Program.modify fun m => { m with classes := SortedMap.insert ns col m.classes } :
        MemoryM Unit) := by
  refine .modify fun m h =>
    ⟨⟨h.valid.absent, h.valid.node, h.valid.owner, h.valid.child, ?_⟩, h.live⟩
  rintro q ⟨ns', col', name, hns, hname⟩
  rw [SortedMap.lookup_insert] at hns
  split_ifs at hns
  · cases hns
    exact h.live q (hcol name q hname)
  · exact h.valid.proto q ⟨ns', col', name, hns, hname⟩

theorem walkAncestors_sane {col : List (Key × Ptr)}
    (hcol : ∀ name q, col.lookup name = some q → L q) (name : Key) (steps : Nat) (ancestor : Key) :
    Maintains (Sane L) (walkAncestors col name steps ancestor) := by
  induction steps generalizing ancestor with
  | zero => exact .throw fun _ h => h
  | succ steps ih =>
    unfold walkAncestors
    cases hproto : col.lookup ancestor with
    | none => exact .pure fun _ h => h
    | some proto =>
      refine .mono (P := Sane L) ?_ (fun _ h => h) (fun _ _ h => h) fun _ _ h => h
      show Maintains (Sane L) (if ancestor = name then pure ancestor else _)
      split
      · exact .pure fun _ h => h
      · exact .bind (asKey_sane (hcol ancestor proto hproto) PARENT) ih

theorem addClass_sane (depth : Nat) (ns : Key) {klass : Ptr} (parent : Key) (hklass : L klass) :
    Maintains (Sane L) (addClass depth ns klass parent) := by
  refine .bind (asKey_sane hklass CLASS) fun name =>
    .bind (subscript_sane depth hklass PARENT) fun n => .bind (assignKey_sane n parent) fun _ =>
      .bind (subscript_sane depth hklass NAMESPACE) fun n => .bind (assignKey_sane n ns) fun _ =>
        .get_bind fun m h => ?_
  -- The classes of the namespace are there too.
  set col := (m.classes.lookup ns).getD [] with hcol
  set L' : Ptr → Prop := fun q => L q ∨ ∃ name, col.lookup name = some q
  have hstart : m.Sane L' := by
    refine ⟨h.valid, fun q hq => hq.elim (h.live q) ?_⟩
    rintro ⟨name, hname⟩
    cases hns : m.classes.lookup ns with
    | none =>
      rw [hcol, hns] at hname
      cases hname
    | some col' =>
      rw [hcol, hns] at hname
      exact h.valid.proto q ⟨ns, col', name, hns, hname⟩
  have hless {m' : Memory} (h : m'.Sane L') : m'.Sane L := ⟨h.valid, fun q hq => h.live q (.inl hq)⟩
  have hcol' (name : Key) (q : Ptr) (hname : col.lookup name = some q) : L' q := .inr ⟨name, hname⟩
  refine .mono (P := Sane L') ?_ (fun _ heq => heq ▸ hstart) (fun _ _ h => hless h)
    fun _ _ h => hless h
  refine .bind (putClasses_sane hcol') fun _ =>
    .bind (walkAncestors_sane hcol' name _ parent) fun ancestor => ?_
  split
  · exact .pure fun _ h => h
  split
  · exact .pure fun _ h => h
  · refine .bind (putClasses_sane fun name' q hq => ?_) fun _ => .pure fun _ h => h
    rw [SortedMap.lookup_insert] at hq
    split_ifs at hq
    · exact Option.some.inj hq ▸ .inl hklass
    · exact hcol' name' q hq

theorem moveConstruct_sane {src : Ptr} (hsrc : L src) :
    Triple (Sane L) (moveConstruct src) (fun p => Sane (With L p)) fun _ => Sane L := by
  intro m h
  have hne : src ≠ m.objects := (h.live src hsrc).ne
  have hover : m.HandsOver src m.objects (moveConstruct src m).state := by
    refine ⟨Nat.le_succ _, rfl, rfl, rfl, Nat.lt_succ_self _, ?_, ?_, fun p hp hp' => ?_⟩
    · show (if m.objects = src then _ else if m.objects = m.objects then
        ({ fields := (m.object src).fields } : Dyn) else _).fields = _
      rw [if_neg hne.symm, if_pos rfl]
    · show (if src = src then _ else _ : Dyn).fields = ∅
      rw [if_pos rfl]
    · show (if p = src then _ else _) = _
      rw [if_neg hp]
      exact if_neg hp'
  exact Sane.with ⟨h.valid.handsOver (h.live src hsrc) hover,
    fun q hq => Nat.lt_succ_of_lt (h.live q hq)⟩ (Nat.lt_succ_self _)

theorem moveAssign_sane {dst src : Ptr} (hdst : L dst) (hsrc : L src) :
    Maintains (Sane L) (moveAssign dst src) := by
  unfold moveAssign
  split
  · exact .pure fun _ h => h
  · next hne =>
    intro m h
    have hover : m.HandsOver src dst
        ((m.setObject src { m.object src with fields := ∅ }).setObject dst
          { fields := (m.object src).fields }) := by
      refine ⟨le_rfl, rfl, rfl, rfl, h.live dst hdst, ?_, ?_, fun p hp hp' => ?_⟩
      · rw [object_self]
      · rw [object_setObject, if_neg (Ne.symm hne), object_self]
      · rw [object_setObject, if_neg hp', object_setObject, if_neg hp]
    exact ⟨h.valid.handsOver (h.live src hsrc) hover, h.live⟩

theorem decodeInto_sane (hp : L p) {fields : FinMap Key Content}
    (hfields : ∀ kv ∈ fields.entries, ∀ q, kv.2 = .object q → L q) :
    Maintains (Sane L) (decodeInto p fields) :=
  .bind (Maintains.forEach fun kv hkv => .bind (nodeAt_sane hp kv.1) fun n =>
    putContent_sane n (hfields kv hkv)) fun _ => modifyObject_sane hp fun _ _ _ hk => hk

theorem createInstance_sane {made : Option (Option Ptr)} (ns klass : Key)
    (hmade : ∀ p, made = some (some p) → L p) :
    Triple (Sane L) (createInstance made ns klass)
      (fun found => Sane fun q => L q ∨ found = some q) fun _ => Sane L := by
  refine .bind (.get fun _ h => h) fun m => ?_
  cases (m.classes.lookup ns).bind fun col => col.lookup klass with
  | none => exact .pure fun _ h => ⟨h.valid, fun q hq => h.live q (hq.resolve_right nofun)⟩
  | some proto =>
    cases made with
    | some found =>
      refine .pure fun m h => ⟨h.valid, fun q hq => h.live q (hq.elim id fun heq => ?_)⟩
      exact hmade q (congrArg some heq)
    | none =>
      refine .bind (instantiate_sane ns klass) fun p => .pure fun m h => ⟨h.valid, fun q hq => ?_⟩
      exact h.live q (hq.imp_right fun heq => (Option.some.inj heq).symm)

/-- What the fields of an object hold is there. -/
theorem fieldsOf_sane (p : Ptr) :
    Triple (Sane L) (fieldsOf p)
      (fun fields => Sane fun q => L q ∨ ∃ kv ∈ fields.entries, kv.2 = .object q)
      fun _ => Sane L := by
  refine .bind (.get (Q := fun m m' => m'.Sane L ∧ m' = m) fun _ h => ⟨h, rfl⟩) fun m =>
    .pure fun m' h => ⟨h.1.valid, fun q hq => hq.elim (h.1.live q) ?_⟩
  rintro ⟨⟨k, c⟩, hkv, rfl⟩
  have hk := FinMap.mem_entries.1 hkv
  rw [FinMap.lookup_map, Option.map_eq_some_iff] at hk
  obtain ⟨n, hn, hc⟩ := hk
  exact h.1.valid.child p q ⟨k, n, h.2 ▸ hn, h.2 ▸ hc⟩

theorem deserializeInstance_sane (depth : Nat) {made : Option (Option Ptr)}
    (hmade : ∀ p, made = some (some p) → L p) {fields : FinMap Key Content}
    (hfields : ∀ kv ∈ fields.entries, ∀ q, kv.2 = .object q → L q) :
    Maintains (Sane L) (deserializeInstance depth made fields) := by
  refine .bind (construct_sane 0 fun _ hkv => nomatch hkv) fun dyn => ?_
  have hdyn : With L dyn dyn := .inr rfl
  have hless {m : Memory} {found : Option Ptr} (h : m.Sane fun q => With L dyn q ∨ found = some q) :
      m.Sane (With L dyn) := ⟨h.valid, fun q hq => h.live q (.inl hq)⟩
  refine .mono (P := Sane (With L dyn)) (Q := fun _ => Sane (With L dyn))
    (E := fun _ => Sane (With L dyn)) ?_ (fun _ h => h) (fun _ _ h => h.forget)
    fun _ _ h => h.forget
  refine .bind (decodeInto_sane hdyn fun kv hkv q hq => .inl (hfields kv hkv q hq)) fun _ =>
    .bind (getAsKey_sane depth hdyn NAMESPACE) fun ns =>
      .bind (getAsKey_sane depth hdyn CLASS) fun klass =>
        .bind (createInstance_sane ns klass fun p hp => .inl (hmade p hp)) fun found => ?_
  cases found with
  | none =>
    exact .bind ((moveConstruct_sane (.inl hdyn)).imp (fun _ _ h => h.forget)
      fun _ _ h => hless h) fun p => .bind ((destroy_sane (.inl hdyn)).imp
        (fun _ _ h => h) fun _ _ h => hless h) fun _ => .pure fun _ h => hless h
  | some p =>
    have hless' {fields : FinMap Key Content} {m : Memory} (h : m.Sane fun q =>
        (With L dyn q ∨ some p = some q) ∨ ∃ kv ∈ fields.entries, kv.2 = .object q) :
        m.Sane (With L dyn) := ⟨h.valid, fun q hq => h.live q (.inl (.inl hq))⟩
    refine .bind ((fieldsOf_sane dyn).imp (fun _ _ h => h) fun _ _ h => hless h)
      fun values => .bind ((decodeInto_sane (.inl (.inr rfl))
        fun kv hkv q hq => .inr ⟨kv, hkv, hq⟩).imp (fun _ _ h => h)
          fun _ _ h => hless' h) fun _ => ?_
    exact .bind ((destroy_sane (.inl (.inl hdyn))).imp (fun _ _ h => h)
      fun _ _ h => hless' h) fun _ => .pure fun _ h => hless' h

/-! ## Runs -/

/-- Every operation leaves a valid heap. -/
theorem Operation.run_valid (depth : Nat) (op : Operation) (hlive : ∀ p ∈ op.targets, L p) :
    Maintains (Sane L) (op.run depth) := by
  have hnew {copy : MemoryM Ptr} (h : Triple (Sane L) copy (fun p => Sane (With L p))
      fun _ => Sane L) : Maintains (Sane L) (do let _ ← copy) :=
    .bind h fun _ => .pure fun _ h => h.forget
  have hdrop {α : Type} {prog : MemoryM α} (h : Maintains (Sane L) prog) :
      Maintains (Sane L) (do let _ ← prog) := .bind h fun _ => .pure fun _ h => h
  have htarget {p : Ptr} (hp : p ∈ op.targets) : L p := hlive p hp
  have hcontent {c : Content} {q : Ptr} (hq : c = .object q) : q ∈ c.pointers := by
    rw [hq]
    exact List.mem_singleton_self q
  cases op with
  | construct klass fields =>
    exact hnew (construct_sane klass fun kv hkv q hq =>
      htarget (List.mem_flatMap.2 ⟨kv, hkv, hcontent hq⟩))
  | instantiate ns klass => exact hnew (instantiate_sane ns klass)
  | copyConstruct src =>
    exact hnew (copy_sane (fun _ hm hs => copyConstruct_cloned hm hs depth)
      (htarget (List.mem_singleton_self src)))
  | moveConstruct src => exact hnew (moveConstruct_sane (htarget (List.mem_singleton_self src)))
  | moveAssign dst src =>
    exact moveAssign_sane (htarget (List.mem_cons_of_mem src (List.mem_singleton_self dst)))
      (htarget (List.mem_cons_self ..))
  | clone src =>
    exact hnew (copy_sane (fun _ hm hs => clone_cloned hm hs depth)
      (htarget (List.mem_singleton_self src)))
  | clonePtr src =>
    exact hnew (copy_sane (fun m hm hs => clonePtr_cloned depth m src hm hs)
      (htarget (List.mem_singleton_self src)))
  | cloneInto src dst =>
    exact cloneInto_sane depth (htarget (List.mem_cons_of_mem src (List.mem_singleton_self dst)))
  | index p pos =>
    have hp := htarget (List.mem_singleton_self p)
    exact hdrop (.bind (nodeAt_sane hp _) fun n => .bind (cache_sane hp _ n) fun _ =>
      .pure fun _ h => h)
  | subscript p name =>
    exact hdrop (subscript_sane depth (htarget (List.mem_singleton_self p)) name)
  | as T p name => exact hdrop (as_sane T (htarget (List.mem_singleton_self p)) name)
  | addField p name c =>
    exact hdrop (addField_sane (htarget (List.mem_cons_self ..)) name fun q hq =>
      htarget (List.mem_cons_of_mem p (hcontent hq)))
  | erase p pos => exact erase_sane (htarget (List.mem_singleton_self p)) pos
  | clear p => exact clear_sane (htarget (List.mem_singleton_self p))
  | findField p name =>
    exact hdrop (findField_sane depth (htarget (List.mem_singleton_self p)) name)
  | deserializeInstance made fields =>
    refine hdrop (deserializeInstance_sane depth (fun p hp => htarget ?_) fun kv hkv q hq =>
      htarget (List.mem_append_right _ (List.mem_flatMap.2 ⟨kv, hkv, hcontent hq⟩)))
    rw [hp]
    exact List.mem_append_left _ (List.mem_singleton_self p)
  | put n c => exact putContent_sane n fun q hq => htarget (hcontent hq)
  | addClass ns klass parent =>
    exact hdrop (addClass_sane depth ns parent (htarget (List.mem_singleton_self klass)))
  | destroy p => exact destroy_sane (htarget (List.mem_singleton_self p))

theorem step_valid {depth : Nat} {op : Operation} (hm : m.Valid)
    (hstep : step depth m op = some m') : m'.Valid := by
  obtain ⟨hlive, rfl⟩ := step_eq_some hstep
  have hsane : m.Sane (· < m.objects) := ⟨hm, fun _ hp => hp⟩
  exact ((op.run_valid depth hlive).state hsane).valid

/-- **Main result**: the heap is valid in every run. -/
theorem reached_valid {depth : Nat} {ops : List Operation}
    (hrun : Machine.run (step depth) {} ops = some m) : m.Valid :=
  Machine.run_invariant (fun _ _ _ hm hstep => step_valid hm hstep) valid_empty hrun

end Memory

end Bison
