import Bison.Core.ClassRegistry

/-!
# Registration keeps the class graph acyclic

The parent links of a namespace form a relation between class names (`Classes.Link`). A
call of `addClass` changes it twice: the write of the parent relinks every name the
prototype is registered under, and an accepted call adds a name. Both are cases of
`Chase.acyclic_of_relinked`.

- `SafeRun.sound`: **main result**, along every run of safe calls a refused call changes no
  registered prototype and registers nothing, and the parent relation of every namespace
  is acyclic, so every walk ends.
- `refused_leaves_cycle`: registering a class again under a descendant of its own is
  refused, and leaves a cycle.
-/

namespace Bison

open SortedMap

variable {μ α : Type}

/-! ## Links -/

namespace Classes

variable (s : Classes μ α)

/-- No class of any namespace is its own ancestor. -/
def LinksAcyclic : Prop := ∀ ns k, ¬ Relation.TransGen (s.Link ns) k k

theorem registered_of_find {ns k : Key} {p : Ptr} (h : s.find ns k = some p) :
    s.Registered p := by
  obtain ⟨col, hcol, hp⟩ := Option.bind_eq_some_iff.mp h
  exact ⟨(ns, col), mem_of_lookup hcol, (k, p), mem_of_lookup hp, rfl⟩

/-- The walks over the registry follow the links. -/
theorem step_iff (ns a b : Key) :
    Chase.Step (Collection.find (s.collection ns)) Prototype.parent a b ↔ s.Link ns a b := by
  unfold Chase.Step Collection.find Link find collection
  cases hns : s.namespaces.lookup ns with
  | none =>
    have hreg : s.registry.lookup ns = none := by
      refine Option.eq_none_iff_forall_ne_some.mpr fun c hc => ?_
      obtain ⟨col, hcol, -⟩ := (lookup_pmap _ ns _ _ c).mp hc
      rw [hns] at hcol
      cases hcol
    rw [hreg]
    constructor
    · rintro ⟨p, hp, -⟩
      cases hp
    · rintro ⟨p, hp, -⟩
      cases hp
  | some col =>
    have hreg := (lookup_pmap (fun e h => e.2.pmap
      (fun x hx => (x.1, (s.heap x.2).prototype hx)) h) ns s.namespaces s.linked _).mpr
      ⟨col, hns, rfl⟩
    have hreg' : s.registry.lookup ns = _ := hreg
    rw [hreg']
    simp only [Option.getD_some, Option.bind_some]
    constructor
    · rintro ⟨q, hq, rfl⟩
      obtain ⟨p, hp, rfl⟩ := (lookup_pmap _ a _ _ q).mp hq
      exact ⟨p, hp, (Option.some_get _).symm⟩
    · rintro ⟨p, hp, hb⟩
      refine ⟨_, (lookup_pmap _ a _ _ _).mpr ⟨p, hp, rfl⟩, ?_⟩
      show (keyAt (s.heap p).fields PARENT).get _ = b
      exact Option.get_of_eq_some _ hb

theorem step_eq (ns : Key) :
    Chase.Step (Collection.find (s.collection ns)) Prototype.parent = s.Link ns := by
  funext a b
  exact propext (s.step_iff ns a b)

theorem registry_acyclic_iff : s.registry.Acyclic ↔ s.LinksAcyclic := by
  constructor
  · intro h ns k hcycle
    rw [← s.step_eq] at hcycle
    cases hcol : s.registry.lookup ns with
    | none =>
      rw [collection, hcol] at hcycle
      obtain ⟨b, ⟨p, hp, -⟩, -⟩ := Relation.TransGen.head'_iff.mp hcycle
      cases hp
    | some col =>
      rw [collection, hcol] at hcycle
      exact h ns col hcol k hcycle
  · intro h ns col hcol k hcycle
    have hcollection : s.collection ns = col := by rw [collection, hcol]; rfl
    rw [← hcollection, s.step_eq] at hcycle
    exact h ns k hcycle

/-- In a registry without cycles the walk of `addClass` ends, and stops at the name exactly
where the name is an ancestor of the parent. -/
theorem LinksAcyclic.seek {s : Classes μ α} (h : s.LinksAcyclic) (ns name parent : Key) :
    ∃ ancestor, (s.collection ns).seek name parent = some ancestor ∧
      (ancestor = name ↔ Relation.ReflTransGen (s.Link ns) parent name) := by
  have hcol : Collection.Acyclic (s.collection ns) := by
    intro k hcycle
    rw [s.step_eq] at hcycle
    exact h ns k hcycle
  obtain ⟨ps, hps⟩ := hcol.chain parent
  obtain ⟨ancestor, hseek⟩ := Chase.seek_of_chain name hps
  refine ⟨ancestor, hseek, ?_⟩
  rw [Chase.seek_eq_target_iff hseek, s.step_eq]

/-! ### What the updates do to the links -/

theorem entries_lookup (ns k : Key) : (s.entries ns).lookup k = s.find ns k := by
  unfold entries find
  cases s.namespaces.lookup ns <;> rfl

theorem touch_find (ns ns' k : Key) : (s.touch ns).find ns' k = s.find ns' k := by
  show ((insert ns (s.entries ns) s.namespaces).lookup ns').bind _ = _
  rw [lookup_insert]
  by_cases h : ns' = ns
  · subst h
    rw [if_pos rfl]
    exact s.entries_lookup ns' k
  · rw [if_neg h]
    rfl

theorem touch_link (ns ns' a b : Key) : (s.touch ns).Link ns' a b ↔ s.Link ns' a b := by
  unfold Link
  simp only [touch_find]
  rfl

theorem store_find {ns name : Key} {p : Ptr} (h : Linked (s.heap p).fields) (ns' k : Key) :
    (s.store ns name p h).find ns' k =
      if ns' = ns ∧ k = name then some p else s.find ns' k := by
  show ((insert ns (insert name p (s.entries ns)) s.namespaces).lookup ns').bind _ = _
  rw [lookup_insert]
  by_cases hns : ns' = ns
  · subst hns
    rw [if_pos rfl]
    show (insert name p (s.entries ns')).lookup k = _
    rw [lookup_insert, entries_lookup]
    by_cases hk : k = name
    · rw [if_pos hk, if_pos ⟨rfl, hk⟩]
    · rw [if_neg hk, if_neg fun h => hk h.2]
  · rw [if_neg hns, if_neg fun h => hns h.1]
    rfl

theorem write_heap {p : Ptr} {o : Object μ α} (h : s.Registered p → Linked o.fields) (q : Ptr) :
    (s.write p o h).heap q = if q = p then o else s.heap q := rfl

/-- Changing an object whose parent link stays, if it is registered, changes no link. -/
theorem write_link {p : Ptr} {o : Object μ α} (h : s.Registered p → Linked o.fields)
    (hparent : s.Registered p → keyAt o.fields PARENT = keyAt (s.heap p).fields PARENT)
    (ns a b : Key) : (s.write p o h).Link ns a b ↔ s.Link ns a b := by
  have hsame : ∀ q, s.find ns a = some q →
      keyAt ((s.write p o h).heap q).fields PARENT = keyAt (s.heap q).fields PARENT := by
    intro q hq
    rw [write_heap]
    by_cases hqp : q = p
    · subst hqp
      rw [if_pos rfl]
      exact hparent (s.registered_of_find hq)
    · rw [if_neg hqp]
  constructor
  · rintro ⟨q, hq, hb⟩
    exact ⟨q, hq, (hsame q hq) ▸ hb⟩
  · rintro ⟨q, hq, hb⟩
    exact ⟨q, hq, by rw [hsame q hq]; exact hb⟩

theorem LinksAcyclic.of_links {s s' : Classes μ α} (h : s.LinksAcyclic)
    (hlinks : ∀ ns a b, s'.Link ns a b → s.Link ns a b) : s'.LinksAcyclic :=
  fun ns k hcycle => h ns k (Relation.TransGen.mono (hlinks ns) k k hcycle)

/-- Registering a new name for a prototype whose parent does not reach it. -/
theorem LinksAcyclic.store {s : Classes μ α} (hac : s.LinksAcyclic) {ns name parent : Key}
    {p : Ptr} (h : Linked (s.heap p).fields)
    (hparent : keyAt (s.heap p).fields PARENT = some parent)
    (hreach : ¬ Relation.ReflTransGen (s.Link ns) parent name) :
    (s.store ns name p h).LinksAcyclic := by
  intro ns' k
  by_cases hns : ns' = ns
  · subst hns
    have hnew : ∀ a, a = name → ¬ Relation.ReflTransGen (s.Link ns') parent a := by
      rintro a rfl
      exact hreach
    refine Chase.acyclic_of_relinked ?_ ?_ hnew (hac ns') k
    · rintro a b ha ⟨q, hq, hb⟩
      rw [store_find, if_neg fun hh => ha hh.2] at hq
      exact ⟨q, hq, hb⟩
    · rintro a b rfl ⟨q, hq, hb⟩
      rw [store_find, if_pos ⟨rfl, rfl⟩] at hq
      obtain rfl := Option.some.inj hq
      exact Option.some.inj (hb.symm.trans hparent)
  · intro hcycle
    refine hac ns' k (Relation.TransGen.mono ?_ k k hcycle)
    rintro a b ⟨q, hq, hb⟩
    rw [store_find, if_neg fun hh => hns hh.1] at hq
    exact ⟨q, hq, hb⟩

/-! ### One call -/

/-- The writes of `addClass` only change links of the prototype. -/
theorem link_link_of_ne (ns parent : Key) (p : Ptr) (ns' : Key) : ∀ a b, ¬ s.find ns' a = some p →
    (s.link ns p parent).Link ns' a b → s.Link ns' a b := by
  rintro a b ha ⟨q, hq, hb⟩
  have hne : q ≠ p := fun hqp => ha (hqp ▸ hq)
  rw [Classes.link, write_heap, if_neg hne] at hb
  exact ⟨q, hq, hb⟩

/-- They keep the links acyclic where the new parent is no descendant of the prototype. -/
theorem LinksAcyclic.link {s : Classes μ α} (hac : s.LinksAcyclic) (ns : Key) {parent : Key}
    {p : Ptr} (hreach : s.Registered p → ∀ ns k, s.find ns k = some p →
      ¬ Relation.ReflTransGen (s.Link ns) parent k) : (s.link ns p parent).LinksAcyclic := by
  by_cases hp : s.Registered p
  · intro ns' k
    refine Chase.acyclic_of_relinked (s.link_link_of_ne ns parent p ns') ?_ (hreach hp ns')
      (hac ns') k
    rintro a b ha ⟨q, hq, hb⟩
    obtain rfl : p = q := Option.some.inj (ha.symm.trans hq)
    have hl := s.linked_of_registered hp
    obtain ⟨name, hname⟩ := Option.isSome_iff_exists.mp hl.hasClass
    have hok : (linkClass s.registry ns parent (s.heap p).fields).2 = .ok name := by
      rw [linkClass_of_linked s.registry ns parent hl hname]
    rw [link_heap_self] at hb
    exact Option.some.inj (hb.symm.trans (linkClass_ok hok).2.1)
  · exact hac.of_links fun ns' a b =>
      (s.write_link _ (fun h => absurd h hp) ns' a b).mp

theorem register_cases {s : Classes μ α} (hac : s.LinksAcyclic) (ns name parent : Key) {p : Ptr}
    (h : Linked (s.heap p).fields) :
    (s.register ns name parent p h = (.ok false, s.touch ns) ∧
      ((s.find ns name).isSome ∨ Relation.ReflTransGen (s.Link ns) parent name)) ∨
    (s.register ns name parent p h = (.ok true, s.store ns name p h) ∧
      ¬ Relation.ReflTransGen (s.Link ns) parent name) := by
  obtain ⟨ancestor, hseek, hiff⟩ := hac.seek ns name parent
  unfold register
  simp only [hseek]
  by_cases hname : ancestor = name
  · rw [if_pos hname]
    exact Or.inl ⟨rfl, Or.inr (hiff.mp hname)⟩
  · rw [if_neg hname]
    unfold tryEmplace
    cases hfind : s.find ns name with
    | some q => exact Or.inl ⟨rfl, Or.inl rfl⟩
    | none => exact Or.inr ⟨rfl, fun hreach => hname (hiff.mpr hreach)⟩

theorem linkClass_thrown {reg : Registry μ} {ns parent : Key} {d : Fields} {e : Exn}
    (h : (linkClass reg ns parent d).2 = .error e) : e.Thrown := by
  unfold linkClass at h
  cases hc : asKey CLASS d with
  | error e' =>
    rw [hc] at h
    cases h
    exact asKey_thrown hc
  | ok r =>
    obtain ⟨name, d₁⟩ := r
    cases hp : assignKey reg PARENT parent d₁ with
    | error e' =>
      simp only [hc, hp] at h
      cases h
      exact assignKey_thrown Prototype.parent_isSome hp
    | ok r =>
      obtain ⟨⟨⟩, d₂⟩ := r
      cases hn : assignKey reg NAMESPACE ns d₂ with
      | error e' =>
        simp only [hc, hp, hn] at h
        cases h
        exact assignKey_thrown Prototype.namespace_isSome hn
      | ok r => simp only [hc, hp, hn] at h; cases h

/-- How a call ends: it throws and has only written, it is refused, or it registers. -/
theorem addClass_cases {s : Classes μ α} (hac : s.LinksAcyclic) (ns : Key) {parent : Key} {p : Ptr}
    (hreach : s.Registered p → ∀ ns k, s.find ns k = some p →
      ¬ Relation.ReflTransGen (s.Link ns) parent k) :
    (∃ e, e.Thrown ∧ s.addClass ns p parent = (.error e, s.link ns p parent)) ∨
    (∃ name, (linkClass s.registry ns parent (s.heap p).fields).2 = .ok name ∧
      s.addClass ns p parent = (.ok false, (s.link ns p parent).touch ns) ∧
      ((s.find ns name).isSome ∨
        Relation.ReflTransGen ((s.link ns p parent).Link ns) parent name)) ∨
    (∃ name h, s.addClass ns p parent = (.ok true, (s.link ns p parent).store ns name p h) ∧
      keyAt ((s.link ns p parent).heap p).fields PARENT = some parent ∧
      ¬ Relation.ReflTransGen ((s.link ns p parent).Link ns) parent name) := by
  unfold addClass
  split
  · next e he => exact Or.inl ⟨e, linkClass_thrown he, rfl⟩
  · next name hname =>
    right
    rcases register_cases (hac.link ns hreach) ns name parent (s.link_linked hname) with
      ⟨heq, hwhy⟩ | ⟨heq, hnot⟩
    · exact Or.inl ⟨name, hname, heq, hwhy⟩
    · refine Or.inr ⟨name, s.link_linked hname, heq, ?_, hnot⟩
      rw [link_heap_self]
      exact (linkClass_ok hname).2.1

theorem LinksAcyclic.addClass {s : Classes μ α} (hac : s.LinksAcyclic) (ns : Key) {parent : Key}
    {p : Ptr} (hreach : s.Registered p → ∀ ns k, s.find ns k = some p →
      ¬ Relation.ReflTransGen (s.Link ns) parent k) :
    (s.addClass ns p parent).2.LinksAcyclic := by
  have hlink := hac.link ns hreach
  rcases addClass_cases hac ns hreach with ⟨e, -, heq⟩ | ⟨name, -, heq, -⟩ |
    ⟨name, h, heq, hparent, hnot⟩
  · rw [heq]
    exact hlink
  · rw [heq]
    exact hlink.of_links fun ns' a b => (touch_link _ ns ns' a b).mp
  · rw [heq]
    exact hlink.store h hparent hnot

theorem addClass_returns {s : Classes μ α} (hac : s.LinksAcyclic) (ns : Key) {parent : Key}
    {p : Ptr} (hreach : s.Registered p → ∀ ns k, s.find ns k = some p →
      ¬ Relation.ReflTransGen (s.Link ns) parent k) :
    (s.addClass ns p parent).1 ≠ .error .diverges := by
  intro hd
  rcases addClass_cases hac ns hreach with ⟨e, he, heq⟩ | ⟨name, -, heq, -⟩ |
    ⟨name, h, heq, -⟩
  · rw [heq] at hd
    cases hd
    exact he
  · rw [heq] at hd
    cases hd
  · rw [heq] at hd
    cases hd

/-- Where a registered prototype was refused, the name was taken or met by the walk before
the writes as well. -/
theorem addClass_refuses {s : Classes μ α} (hac : s.LinksAcyclic) (ns : Key) {parent : Key}
    {p : Ptr} (hreach : s.Registered p → ∀ ns k, s.find ns k = some p →
      ¬ Relation.ReflTransGen (s.Link ns) parent k) (hp : s.Registered p)
    (hfalse : (s.addClass ns p parent).1 = .ok false) :
    ∃ name, keyAt (s.heap p).fields CLASS = some name ∧
      ((s.find ns name).isSome ∨ Relation.ReflTransGen (s.Link ns) parent name) := by
  have hl := s.linked_of_registered hp
  obtain ⟨name, hname⟩ := Option.isSome_iff_exists.mp hl.hasClass
  refine ⟨name, hname, ?_⟩
  rcases addClass_cases hac ns hreach with ⟨e, -, heq⟩ | ⟨name', hname', -, hwhy⟩ | ⟨_, _, heq, -⟩
  · rw [heq] at hfalse
    cases hfalse
  · obtain rfl : name = name' := by
      rw [linkClass_of_linked s.registry ns parent hl hname] at hname'
      exact Except.ok.inj hname'
    refine hwhy.imp id fun hnew => ?_
    rcases Chase.reflTransGen_of_relinked (s.link_link_of_ne ns parent p ns) hnew with
      hold | ⟨k, hk, hold⟩
    · exact hold
    · exact absurd hold (hreach hp ns k hk)
  · rw [heq] at hfalse
    cases hfalse

/-- A refused call leaves what is registered alone, where the prototype is not registered or
holds both links already. -/
theorem addClass_refused {s : Classes μ α} (hac : s.LinksAcyclic) (ns : Key) {parent : Key}
    {p : Ptr} (hreach : s.Registered p → ∀ ns k, s.find ns k = some p →
      ¬ Relation.ReflTransGen (s.Link ns) parent k)
    (hholds : s.Registered p → keyAt (s.heap p).fields PARENT = some parent ∧
      keyAt (s.heap p).fields NAMESPACE = some ns)
    (hfalse : (s.addClass ns p parent).1 = .ok false) :
    s.Unchanged (s.addClass ns p parent).2 := by
  rcases addClass_cases hac ns hreach with ⟨e, -, heq⟩ | ⟨-, -, heq, -⟩ | ⟨_, _, heq, -⟩
  · rw [heq] at hfalse
    cases hfalse
  · rw [heq]
    refine ⟨fun ns' k => touch_find _ ns ns' k, fun q hq => ?_⟩
    show (s.link ns p parent).heap q = s.heap q
    rw [Classes.link, write_heap]
    by_cases hqp : q = p
    · subst hqp
      rw [if_pos rfl]
      -- both links are rewritten as they were
      have hl := s.linked_of_registered hq
      obtain ⟨name, hname⟩ := Option.isSome_iff_exists.mp hl.hasClass
      obtain ⟨hparent, hns⟩ := hholds hq
      refine Object.withFields_eq ?_
      rw [linkClass_of_linked s.registry ns parent hl hname,
        insert_eq_self (s.heap q).sorted (keyAt_eq_some_iff.mp hparent),
        insert_eq_self (s.heap q).sorted (keyAt_eq_some_iff.mp hns)]
    · rw [if_neg hqp]
  · rw [heq] at hfalse
    cases hfalse

/-! ### What an overload does first -/

/-- The possible outcomes of attaching attributes. -/
theorem addAttributes_cases (p : Ptr) (attributes : List α) :
    (attributes = [] ∧ s.addAttributes p attributes = (.ok (), s)) ∨
    (∃ e, e.Thrown ∧ s.addAttributes p attributes = (.error e, s)) ∨
    (∃ v d, ∃ h : subscript s.registry CLASS (s.heap p).fields = .ok (v, d),
      s.addAttributes p attributes =
        (.ok (), s.write p
          { s.heap p with
            fields := d
            attributes := (s.heap p).attributes ++ attributes
            sorted := (subscript_keeps h).sorted (s.heap p).sorted }
          fun hp => (subscript_keeps h).linked (s.linked_of_registered hp))) := by
  unfold addAttributes
  cases attributes with
  | nil => exact Or.inl ⟨rfl, rfl⟩
  | cons a as =>
    right
    rw [if_neg (by simp)]
    split
    · next e he =>
      refine Or.inl ⟨e, ?_, rfl⟩
      rcases Decoder.bind_eq_error.mp he with he | ⟨f, d', -, he⟩
      · exact findField_thrown_of_held Prototype.class_isSome he
      · cases f <;> cases he
    · next v d hd => exact Or.inr ⟨v, d, hd, rfl⟩

variable (p : Ptr) (overload : Overload α)

theorem prepare_namespaces : (s.prepare p overload).2.namespaces = s.namespaces := by
  cases overload with
  | plain => rfl
  | withFactory factory => rfl
  | withAttributes attributes =>
    show (s.addAttributes p attributes).2.namespaces = _
    rcases s.addAttributes_cases p attributes with ⟨-, heq⟩ | ⟨e, -, heq⟩ | ⟨v, d, h, heq⟩
    · rw [heq]
    · rw [heq]
    · rw [heq]
      rfl

theorem prepare_find (ns k : Key) : (s.prepare p overload).2.find ns k = s.find ns k := by
  unfold find
  rw [prepare_namespaces]

theorem prepare_registered (q : Ptr) : (s.prepare p overload).2.Registered q ↔ s.Registered q := by
  unfold Registered
  rw [prepare_namespaces]

theorem prepare_heap_ne {q : Ptr} (hq : q ≠ p) :
    (s.prepare p overload).2.heap q = s.heap q := by
  cases overload with
  | plain => rfl
  | withFactory factory => exact if_neg hq
  | withAttributes attributes =>
    show (s.addAttributes p attributes).2.heap q = _
    rcases s.addAttributes_cases p attributes with ⟨-, heq⟩ | ⟨e, -, heq⟩ | ⟨v, d, h, heq⟩
    · rw [heq]
    · rw [heq]
    · rw [heq]
      exact if_neg hq

theorem prepare_fields (hp : s.Registered p) :
    ((s.prepare p overload).2.heap p).fields = (s.heap p).fields := by
  cases overload with
  | plain => rfl
  | withFactory factory =>
    show (if p = p then _ else _ : Object μ α).fields = _
    rw [if_pos rfl]
  | withAttributes attributes =>
    show ((s.addAttributes p attributes).2.heap p).fields = _
    rcases s.addAttributes_cases p attributes with ⟨-, heq⟩ | ⟨e, -, heq⟩ | ⟨v, d, h, heq⟩
    · rw [heq]
    · rw [heq]
    · -- the prototype holds its class, so nothing was created
      obtain ⟨name, hname⟩ := Option.isSome_iff_exists.mp (s.linked_of_registered hp).hasClass
      have h' := h
      rw [subscript_of_keyAt hname] at h'
      rw [heq]
      show (if p = p then _ else _ : Object μ α).fields = _
      rw [if_pos rfl]
      exact (Prod.mk.inj (Except.ok.inj h')).2.symm

theorem prepare_link (ns a b : Key) :
    (s.prepare p overload).2.Link ns a b ↔ s.Link ns a b := by
  have hsame : ∀ q, s.find ns a = some q →
      ((s.prepare p overload).2.heap q).fields = (s.heap q).fields := by
    intro q hq
    by_cases hqp : q = p
    · subst hqp
      exact s.prepare_fields q overload (s.registered_of_find hq)
    · rw [prepare_heap_ne _ _ _ hqp]
  unfold Link
  simp only [prepare_find]
  constructor
  · rintro ⟨q, hq, hb⟩
    exact ⟨q, hq, (hsame q hq) ▸ hb⟩
  · rintro ⟨q, hq, hb⟩
    exact ⟨q, hq, by rw [hsame q hq]; exact hb⟩

theorem prepare_link_eq (ns : Key) : (s.prepare p overload).2.Link ns = s.Link ns := by
  funext a b
  exact propext (s.prepare_link p overload ns a b)

theorem prepare_thrown {e : Exn} (h : (s.prepare p overload).1 = .error e) : e.Thrown := by
  cases overload with
  | plain => cases h
  | withFactory factory => cases h
  | withAttributes attributes =>
    have h' : (s.addAttributes p attributes).1 = .error e := h
    rcases s.addAttributes_cases p attributes with ⟨-, heq⟩ | ⟨e', he', heq⟩ | ⟨v, d, hd, heq⟩
    · rw [heq] at h'
      cases h'
    · rw [heq] at h'
      cases h'
      exact he'
    · rw [heq] at h'
      cases h'

end Classes

/-- An overload that writes what the prototype holds already changes nothing. -/
theorem Classes.Holds.prepare {s : Classes μ α} {c : Call α} (h : s.Holds c) :
    (s.prepare c.proto c.overload).2.heap c.proto = s.heap c.proto := by
  obtain ⟨-, -, hover⟩ := h
  cases ho : c.overload with
  | plain => rfl
  | withFactory factory =>
    rw [ho] at hover
    show (if c.proto = c.proto then _ else _ : Object μ α) = _
    rw [if_pos rfl, ← hover]
  | withAttributes attributes =>
    rw [ho] at hover
    rw [hover]
    rfl

/-! ## Runs -/

section Runs

variable {s : Classes μ α} {c : Call α}

/-- What a safe call leaves to `addClass(ns, klass, parent)`. -/
theorem Classes.Safe.prepared (h : s.Safe c) :
    let s' := (s.prepare c.proto c.overload).2
    s'.Registered c.proto → ∀ ns k, s'.find ns k = some c.proto →
      ¬ Relation.ReflTransGen (s'.Link ns) c.parent k := by
  intro s' hp ns k hk
  rw [Classes.prepare_find] at hk
  rw [Classes.prepare_link_eq]
  exact (h ((s.prepare_registered _ _ _).mp hp)).1 ns k hk

theorem Classes.LinksAcyclic.prepared (h : s.LinksAcyclic) (p : Ptr) (overload : Overload α) :
    (s.prepare p overload).2.LinksAcyclic :=
  h.of_links fun ns a b => (s.prepare_link p overload ns a b).mp

/-- One safe call keeps the links acyclic. -/
theorem Classes.LinksAcyclic.call (h : s.LinksAcyclic) (hc : s.Safe c) :
    (s.call c).2.LinksAcyclic := by
  have hprep := h.prepared c.proto c.overload
  have hreach := hc.prepared
  unfold Classes.call
  generalize s.prepare c.proto c.overload = r at hprep hreach
  obtain ⟨e | ⟨⟩, s'⟩ := r
  · exact hprep
  · exact hprep.addClass c.ns hreach

/-- A safe call does not walk forever. -/
theorem Classes.LinksAcyclic.call_returns (h : s.LinksAcyclic) (hc : s.Safe c) :
    (s.call c).1 ≠ .error .diverges := by
  have hprep := h.prepared c.proto c.overload
  have hreach := hc.prepared
  have hthrown := fun e => s.prepare_thrown c.proto c.overload (e := e)
  unfold Classes.call
  generalize s.prepare c.proto c.overload = r at hprep hreach hthrown
  obtain ⟨e | ⟨⟩, s'⟩ := r
  · intro hd
    cases hd
    exact hthrown _ rfl
  · exact Classes.addClass_returns hprep c.ns hreach

/-- A safe call that is refused changes nothing that is registered. -/
theorem Classes.LinksAcyclic.call_refused (h : s.LinksAcyclic) (hc : s.Safe c)
    (hfalse : (s.call c).1 = .ok false) : s.Unchanged (s.call c).2 := by
  have hprep := h.prepared c.proto c.overload
  have hreach := hc.prepared
  have hcall : s.call c = (s.prepare c.proto c.overload).2.addClass c.ns c.proto c.parent := by
    unfold Classes.call at hfalse ⊢
    generalize s.prepare c.proto c.overload = r at hfalse ⊢
    obtain ⟨e | ⟨⟩, s'⟩ := r
    · cases hfalse
    · rfl
  rw [hcall] at hfalse ⊢
  have hheld : s.Registered c.proto → s.Holds c := by
    intro hp
    obtain ⟨name, hname, hwhy⟩ := Classes.addClass_refuses hprep c.ns hreach
      ((s.prepare_registered _ _ _).mpr hp) hfalse
    rw [Classes.prepare_fields _ _ _ hp] at hname
    rw [Classes.prepare_find, Classes.prepare_link_eq] at hwhy
    exact (hc hp).2 ⟨name, hname, hwhy⟩
  have hrest := Classes.addClass_refused hprep c.ns hreach (fun hp => by
    have hp' := (s.prepare_registered _ _ _).mp hp
    rw [Classes.prepare_fields _ _ _ hp']
    exact ⟨(hheld hp').1, (hheld hp').2.1⟩) hfalse
  constructor
  · intro ns k
    rw [hrest.1, Classes.prepare_find]
  · intro q hq
    rw [hrest.2 q ((s.prepare_registered _ _ _).mpr hq)]
    by_cases hqp : q = c.proto
    · subst hqp
      exact (hheld hq).prepare
    · exact s.prepare_heap_ne _ _ hqp

/-- **Registration is sound along safe runs.** -/
theorem SafeRun.sound (h : SafeRun s) : s.Sound := by
  have hac : s.LinksAcyclic := by
    induction h with
    | start heap =>
      intro ns k hcycle
      obtain ⟨b, ⟨p, hp, -⟩, -⟩ := Relation.TransGen.head'_iff.mp hcycle
      cases hp
    | edit h hlinked hparent ih =>
      exact ih.of_links fun ns a b => (Classes.write_link _ hlinked hparent ns a b).mp
    | call h hc ih => exact ih.call hc
  have hreg := s.registry_acyclic_iff.mpr hac
  exact
    { acyclic := hreg
      walksEnd := hreg.walksEnd
      returns := fun c hc => hac.call_returns hc
      refused := fun c hc hfalse => hac.call_refused hc hfalse }

end Runs

namespace Relinked

/-- Two prototypes as their constructors leave them, of classes 1 and 2. -/
def heap : Ptr → Object Unit Unit
  | 0 => { fields := [(CLASS, .key 1)] }
  | _ => { fields := [(CLASS, .key 2)] }

/-- Class 1 is registered as a root class and class 2 under it. -/
def registered : Classes Unit Unit :=
  ((Classes.start heap).call { ns := 0, proto := 0, parent := 0 }).2.call
    { ns := 0, proto := 1, parent := 1 } |>.2

/-- Class 1 is registered again, under class 2. -/
def again : Call Unit := { ns := 0, proto := 0, parent := 2 }

end Relinked

open Relinked in
/-- The second registration of class 1 is refused. It has changed the prototype all the same,
the two classes are now each other's parent, and looking up a field that neither declares
never returns. -/
theorem refused_leaves_cycle :
    (registered.call again).1 = .ok false ∧ ¬ registered.Unchanged (registered.call again).2 ∧
      ¬ (registered.call again).2.registry.Acyclic ∧
      findField (registered.call again).2.registry 7 [(CLASS, .key 1)] = .error .diverges := by
  refine ⟨rfl, fun h => ?_, fun h => ?_, rfl⟩
  · have hsame := h.2 0 ⟨_, List.mem_singleton.mpr rfl, _, List.mem_cons_self .., rfl⟩
    have hparent : keyAt (registered.heap 0).fields PARENT = some 2 := by
      rw [← hsame]
      rfl
    cases hparent
  · refine (Classes.registry_acyclic_iff _).mp h 0 1 ?_
    exact Relation.TransGen.tail (Relation.TransGen.single ⟨0, rfl, rfl⟩) ⟨1, rfl, rfl⟩

open Relinked in
/-- Registering the two classes is a safe run. -/
theorem registered_sound : registered.Sound := by
  refine SafeRun.sound (SafeRun.call (SafeRun.call (SafeRun.start heap) ?_) ?_)
  · rintro ⟨e, he, -⟩
    cases he
  · rintro ⟨e, he, x, hx, hp⟩
    -- only the first prototype is registered so far
    obtain rfl : e = (0, [(1, 0)]) := List.mem_singleton.mp he
    obtain rfl : x = (1, 0) := List.mem_singleton.mp hx
    cases hp

end Bison
