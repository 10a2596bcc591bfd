import Bison.Core.Resolution
import Bison.Core.StandardFormat
import Bison.Rmi.Standalone

/-!
# What a get answers

A get reads the fields that its payload names, or all fields if it names none. The payload is a
dynamic, with fields of its own: its class, and often a namespace, which looking anything up in it
writes. Both backends leave the class and the parent out when they look for what is asked, and take
the namespace for a field that is asked for. So a payload that names the namespace and no other
field is not answered with all fields.

- `Instance.SameView`: the fields and the methods of an object are what they were, where lookups
  have copied some of them into it.
- `Answers`: what the answer to a get is to be.
- `get_answers_iff`: **main result**, when it is that, in both backends.
- `namespace_not_snapshot`: a get that names the namespace only.
-/

namespace Bison

open SortedMap

variable {μ σ : Type}

/-! ## Looked at, and otherwise the same -/

/-- The fields of the object, those of the header apart, and its methods are what they were. -/
structure Instance.SameView (reg : Registry μ) (obj obj' : Instance μ) : Prop where
  header : SameHeader obj.fields obj'.fields
  fields : ∀ k, k ≠ NAMESPACE → k ≠ CLASS →
    reg.resolve obj'.fields k = reg.resolve obj.fields k
  methods : ∀ k, reg.resolveMethod obj'.fields obj'.methods k =
    reg.resolveMethod obj.fields obj.methods k

namespace Instance.SameView

variable {reg : Registry μ} {obj obj' obj'' : Instance μ}

theorem refl (obj : Instance μ) : obj.SameView reg obj := ⟨.refl _, fun _ _ _ => rfl, fun _ => rfl⟩

theorem trans (h : obj.SameView reg obj') (h' : obj'.SameView reg obj'') :
    obj.SameView reg obj'' where
  header := h.header.trans h'.header
  fields k hns hclass := (h'.fields k hns hclass).trans (h.fields k hns hclass)
  methods k := (h'.methods k).trans (h.methods k)

end Instance.SameView

theorem Instance.SameView.of_fields {reg : Registry μ} {obj : Instance μ} {fields : Fields}
    (h : SameHeader obj.fields fields)
    (hsame : ∀ k, k ≠ NAMESPACE → k ≠ CLASS → fields.lookup k = obj.fields.lookup k) :
    obj.SameView reg { obj with fields } where
  header := h
  fields k hns hclass := reg.resolve_congr h (hsame k hns hclass)
  methods _ := reg.resolveMethod_congr h rfl

/-- A program that only looks at its object. -/
def Looks (reg : Registry μ) (s : Instance μ × World μ σ) (trace : List SessionEffect)
    (s' : Instance μ × World μ σ) : Prop :=
  trace = [] ∧ s.1.SameView reg s'.1 ∧ s'.2 = s.2

theorem looks_composes (reg : Registry μ) :
    Program.Composes (Looks (σ := σ) reg) where
  refl s := ⟨rfl, .refl s.1, rfl⟩
  trans h h' := ⟨by rw [h.1, h'.1]; rfl, h.2.1.trans h'.2.1, h'.2.2.trans h.2.2⟩

section Looks

variable {reg : Registry μ}

theorem afterThrow_sameView (obj : Instance μ) :
    obj.SameView reg { obj with fields := afterThrow obj.fields } := by
  unfold afterThrow
  cases h : resolveNamespace obj.fields with
  | error e => exact .refl obj
  | ok r =>
    obtain ⟨hheader, -, -, hsame⟩ := resolveNamespace_header h
    exact .of_fields hheader fun k hns _ => hsame k hns

theorem findField_sameView {k : Key} {obj : Instance μ} {r : Option Value} {fields : Fields}
    (h : findField reg k obj.fields = .ok (r, fields)) :
    obj.SameView reg { obj with fields } where
  header := (findField_leaves h).header
  fields _ hns hclass := (findField_leaves h).resolve hns hclass
  methods _ := reg.resolveMethod_congr (findField_leaves h).header rfl

theorem findMethod_sameView {k : Key} {obj : Instance μ} {r : Option μ} {methods : List (Key × μ)}
    {fields : Fields} (h : findMethod reg k obj.methods obj.fields = .ok ((r, methods), fields)) :
    obj.SameView reg ⟨fields, methods⟩ := by
  obtain ⟨hheader, hsame, hmethods⟩ := findMethod_leaves h
  exact ⟨hheader, fun k hns hclass => reg.resolve_congr hheader (hsame k hns hclass), hmethods⟩

theorem onFields_findField_looks (k : Key) :
    Program.Keeps (Looks reg) (onFields (findField reg k) : ObjectM μ σ (Option Value)) := by
  refine .ofState fun s => ?_
  cases h : findField reg k s.1.fields with
  | error e =>
    simp only [h]
    exact ⟨rfl, afterThrow_sameView s.1, rfl⟩
  | ok r =>
    simp only [h]
    exact ⟨rfl, findField_sameView h, rfl⟩

end Looks

/-! ## What is copied -/

theorem onFields_eq_ok {α : Type} {lookup : DynamicM α} {obj : Instance μ} {w : World μ σ} {a : α}
    {trace : List SessionEffect} {s' : Instance μ × World μ σ}
    (h : onFields lookup (obj, w) = ⟨.ok a, trace, s'⟩) :
    ∃ fields, lookup obj.fields = .ok (a, fields) ∧ trace = [] ∧
      s' = ({ obj with fields }, w) := by
  simp only [onFields, Program.ofState] at h
  cases hlookup : lookup obj.fields with
  | error e =>
    simp only [hlookup] at h
    cases h
  | ok r =>
    simp only [hlookup] at h
    cases h
    exact ⟨r.2, rfl, rfl, rfl⟩

theorem liftE_bind_eq_ok {τ α β : Type} {r : Except Exn α}
    {f : α → Program Failure SessionEffect τ β} {s s' : τ} {b : β} {trace : List SessionEffect}
    (h : (liftE r >>= f) s = ⟨.ok b, trace, s'⟩) :
    ∃ a, r = .ok a ∧ f a s = ⟨.ok b, trace, s'⟩ := by
  cases r with
  | error e =>
    rw [liftE_bind_error rfl] at h
    cases h
  | ok a =>
    rw [liftE_bind_ok rfl] at h
    exact ⟨a, rfl, h⟩

section Project

variable {srv : Server μ σ}

/-- The projected fields that the object has are copied over those of the result. -/
structure Copies (reg : Registry μ) (obj : Instance μ) (keys : List Key) (result reply : Fields) :
    Prop where
  named : ∀ k ∈ keys, k ≠ NAMESPACE → k ≠ CLASS →
    ∃ r, reg.resolve obj.fields k = .ok r ∧ reply.lookup k = r.or (result.lookup k)
  others : ∀ k ∉ keys, k ≠ NAMESPACE → k ≠ CLASS → reply.lookup k = result.lookup k

theorem Server.project_copies {keys : List Key} {obj : Instance μ} {w : World μ σ}
    {result reply : Fields} {trace : List SessionEffect} {s' : Instance μ × World μ σ}
    (h : srv.project keys result (obj, w) = ⟨.ok reply, trace, s'⟩) :
    obj.SameView srv.registry s'.1 ∧ Copies srv.registry obj keys result reply := by
  induction keys generalizing obj result trace with
  | nil =>
    cases h
    exact ⟨.refl _, ⟨fun k hk => (List.not_mem_nil hk).elim, fun _ _ _ _ => rfl⟩⟩
  | cons k keys ih =>
    obtain ⟨found, t, s₁, t', hlook, hrest, -⟩ := Program.bind_eq_ok h
    obtain ⟨fields, hfind, -, rfl⟩ := onFields_eq_ok hlook
    have hview := findField_sameView hfind
    have hfound (hns : k ≠ NAMESPACE) (hclass : k ≠ CLASS) :
        srv.registry.resolve obj.fields k = .ok found := by
      rw [← findField_resolve srv.registry hns hclass, hfind]
      rfl
    cases found with
    | none =>
      obtain ⟨hview', hcopies⟩ := ih hrest
      refine ⟨hview.trans hview', fun k' hk' hns hclass => ?_, fun k' hk' hns hclass => ?_⟩
      · by_cases hlater : k' ∈ keys
        · obtain ⟨r, hr, hreply⟩ := hcopies.named k' hlater hns hclass
          exact ⟨r, (hview.fields k' hns hclass).symm.trans hr, hreply⟩
        · obtain rfl := (List.mem_cons.1 hk').resolve_right hlater
          exact ⟨none, hfound hns hclass, hcopies.others k' hlater hns hclass⟩
      · exact hcopies.others k' (fun hmem => hk' (List.mem_cons_of_mem k hmem)) hns hclass
    | some v =>
      obtain ⟨⟨⟨⟩, result'⟩, hwrite, hrest⟩ := liftE_bind_eq_ok hrest
      obtain ⟨hself, hothers, -, -⟩ := writeField_leaves hwrite
      obtain ⟨hview', hcopies⟩ := ih hrest
      refine ⟨hview.trans hview', fun k' hk' hns hclass => ?_, fun k' hk' hns hclass => ?_⟩
      · by_cases hlater : k' ∈ keys
        · obtain ⟨r, hr, hreply⟩ := hcopies.named k' hlater hns hclass
          have hr' := (hview.fields k' hns hclass).symm.trans hr
          refine ⟨r, hr', hreply.trans ?_⟩
          by_cases hk : k' = k
          · subst hk
            rw [hfound hns hclass] at hr'
            cases hr'
            rfl
          · rw [hothers k' hk hns hclass]
        · obtain rfl := (List.mem_cons.1 hk').resolve_right hlater
          exact ⟨some v, hfound hns hclass, (hcopies.others k' hlater hns hclass).trans hself⟩
      · rw [hcopies.others k' (fun hmem => hk' (List.mem_cons_of_mem k hmem)) hns hclass]
        refine hothers k' ?_ hns hclass
        rintro rfl
        exact hk' (List.mem_cons_self ..)

theorem Server.project_looks (srv : Server μ σ) (keys : List Key) (result : Fields) :
    Program.Keeps (Looks srv.registry) (srv.project keys result) := by
  have hR := looks_composes (σ := σ) srv.registry
  induction keys generalizing result with
  | nil => exact hR.pure result
  | cons k keys ih =>
    refine hR.bind (onFields_findField_looks k) fun found => ?_
    cases found with
    | none => exact ih result
    | some v => exact hR.bind (hR.lift _) fun r => ih r.2

theorem Server.readFields_looks (srv : Server μ σ) (keys : List Key) :
    Program.Keeps (Looks srv.registry) (srv.readFields keys) := by
  have hR := looks_composes (σ := σ) srv.registry
  cases keys with
  | nil => exact hR.bind hR.get fun s => hR.pure s.1.fields
  | cons k keys => exact srv.project_looks (k :: keys) Dynamic.empty

/-- A projection that names only the namespace copies that. -/
theorem Server.project_namespace {keys : List Key} (hkeys : ∀ k ∈ keys, k = NAMESPACE)
    {obj : Instance μ} {v : Value} (hv : obj.fields.lookup NAMESPACE = some v) (w : World μ σ) :
    srv.project keys (insert NAMESPACE v Dynamic.empty) (obj, w) =
      ⟨.ok (insert NAMESPACE v Dynamic.empty), [], (obj, w)⟩ := by
  induction keys with
  | nil => rfl
  | cons k keys ih =>
    obtain rfl := hkeys k (List.mem_cons_self ..)
    have hfind : findField srv.registry NAMESPACE obj.fields = .ok (some v, obj.fields) := by
      rw [findField, hv]
    have hwrite : writeField srv.registry NAMESPACE v (insert NAMESPACE v Dynamic.empty) =
        .ok ((), insert NAMESPACE v Dynamic.empty) := by
      have hown : findField srv.registry NAMESPACE (insert NAMESPACE v Dynamic.empty) =
          .ok (some v, insert NAMESPACE v Dynamic.empty) := by
        rw [findField, lookup_insert_self]
      have hsub : subscript srv.registry NAMESPACE (insert NAMESPACE v Dynamic.empty) =
          .ok (v, insert NAMESPACE v Dynamic.empty) := by
        rw [subscript, Decoder.bind_ok hown]
        rfl
      rw [writeField, Decoder.bind_ok hsub, insert_insert]
    have hrest := ih fun k hk => hkeys k (List.mem_cons_of_mem _ hk)
    rw [project, Program.bind_ok (onFields_run hfind w)]
    simp only [liftE_bind_ok hwrite, hrest, List.nil_append]

theorem Server.project_namespace_only {keys : List Key} (hkeys : ∀ k ∈ keys, k = NAMESPACE)
    (hne : keys ≠ []) {obj : Instance μ} {w : World μ σ} {reply : Fields}
    {trace : List SessionEffect} {s' : Instance μ × World μ σ}
    (h : srv.project keys Dynamic.empty (obj, w) = ⟨.ok reply, trace, s'⟩) :
    ∃ v, reply = insert NAMESPACE v Dynamic.empty ∧
      ∀ v', obj.fields.lookup NAMESPACE = some v' → v' = v := by
  cases keys with
  | nil => exact (hne rfl).elim
  | cons k keys =>
    obtain rfl := hkeys k (List.mem_cons_self ..)
    obtain ⟨found, t, s₁, t', hlook, hrest, -⟩ := Program.bind_eq_ok h
    obtain ⟨fields, hfind, -, rfl⟩ := onFields_eq_ok hlook
    obtain ⟨v, rfl⟩ := Option.isSome_iff_exists.1 (findField_namespace hfind)
    have hsub : subscript srv.registry NAMESPACE Dynamic.empty =
        .ok (.key 0, insert NAMESPACE (.key 0) Dynamic.empty) := by
      rw [subscript, Decoder.bind_ok (findField_namespace_none srv.registry rfl rfl)]
      rfl
    have hwrite : writeField srv.registry NAMESPACE v Dynamic.empty =
        .ok ((), insert NAMESPACE v Dynamic.empty) := by
      rw [writeField, Decoder.bind_ok hsub, insert_insert]
    simp only [liftE_bind_ok hwrite] at hrest
    rw [project_namespace (fun k hk => hkeys k (List.mem_cons_of_mem _ hk))
      (findField_keeps hfind).2] at hrest
    cases hrest
    refine ⟨v, rfl, fun v' hv' => ?_⟩
    rw [findField, hv'] at hfind
    cases hfind
    rfl

/-- An object whose class and namespace can be read is read, in an acyclic registry. -/
theorem Server.project_returns (hreg : srv.registry.Acyclic) {keys : List Key}
    (hkeys : ∀ k ∈ keys, k ≠ CLASS) {obj : Instance μ} (hobj : Resolvable obj.fields)
    {result : Fields} (hresult : Resolvable result) (w : World μ σ) :
    ∃ reply, (srv.project keys result (obj, w)).result = .ok reply := by
  induction keys generalizing obj result with
  | nil => exact ⟨result, rfl⟩
  | cons k keys ih =>
    obtain ⟨found, fields, hfind⟩ := hobj.findField hreg k
    have hlater := fun k hk => hkeys k (List.mem_cons_of_mem _ hk)
    have hobj' : Resolvable fields := hobj.congr (findField_leaves hfind).header
    rw [project, Program.bind_ok (onFields_run hfind w)]
    cases found with
    | none => exact ih hlater hobj' hresult
    | some v =>
      obtain ⟨result', hwrite, hresult'⟩ := hresult.writeField hreg
        (hkeys k (List.mem_cons_self ..)) hobj' (findField_keeps hfind).2
      simp only [liftE_bind_ok hwrite]
      exact ih hlater hobj' hresult'

end Project

/-! ## The answer -/

/-- The fields in which an object keeps its class, its parent and its namespace. -/
def Bookkeeping (k : Key) : Prop := k = CLASS ∨ k = PARENT ∨ k = NAMESPACE

/-- The fields that a projection names. -/
def namedBy (projection : Fields) : List Key := projection.map Prod.fst

/-- What the answer to a get is to be: the fields that are named and that the object has, and
nothing else besides bookkeeping; or a snapshot of the object, if no such field is named. -/
structure Answers (reg : Registry μ) (d projection reply : Fields) : Prop where
  projected : (∃ k ∈ namedBy projection, ¬ Bookkeeping k) → ∀ k, ¬ Bookkeeping k →
    (k ∈ namedBy projection → reg.resolve d k = .ok (reply.lookup k)) ∧
      (k ∉ namedBy projection → reply.lookup k = none)
  full : (∀ k ∈ namedBy projection, Bookkeeping k) → reply = d

/-- The projection names a field that is not bookkeeping, or not the namespace; or the object holds
nothing but the namespace, and class 0. -/
def Projectable (d projection : Fields) : Prop :=
  (∃ k ∈ namedBy projection, ¬ Bookkeeping k) ∨ NAMESPACE ∉ namedBy projection ∨
    ∃ v, d = insert NAMESPACE v Dynamic.empty

/-- The object has no `__getter`, and its classes have none. -/
def NoGetter (reg : Registry μ) (obj : Instance μ) : Prop :=
  reg.resolveMethod obj.fields obj.methods HOOK_GETTER = .ok none

instance (k : Key) : Decidable (Bookkeeping k) := inferInstanceAs (Decidable (_ ∨ _ ∨ _))

theorem isProjectionKey_of_not_bookkeeping {k : Key} (h : ¬ Bookkeeping k) :
    isProjectionKey k = true := by
  rw [isProjectionKey, decide_eq_true_iff]
  exact ⟨fun hk => h (.inl hk), fun hk => h (.inr (.inl hk))⟩

theorem eq_namespace_of_bookkeeping {k : Key} (h : Bookkeeping k)
    (hkey : isProjectionKey k = true) : k = NAMESPACE := by
  rw [isProjectionKey, decide_eq_true_iff] at hkey
  exact (h.resolve_left hkey.1).resolve_left hkey.2

theorem mem_projected_iff {projection : Fields} {k : Key} (h : ¬ Bookkeeping k) :
    k ∈ (projection.map Prod.fst).filter isProjectionKey ↔ k ∈ namedBy projection := by
  rw [List.mem_filter]
  exact ⟨fun hk => hk.1, fun hk => ⟨hk, isProjectionKey_of_not_bookkeeping h⟩⟩

theorem empty_lookup {k : Key} (h : k ≠ CLASS) : Dynamic.empty.lookup k = none := by
  rw [Dynamic.empty, lookup_cons_ite, if_neg h]
  rfl

section Answer

variable {srv : Server μ σ} {obj : Instance μ} {w : World μ σ} {projection reply : Fields}

/-- What is read is the answer, where the projection can be answered. -/
theorem Server.readFields_answers_iff (srv : Server μ σ)
    (h : (srv.readFields ((projection.map Prod.fst).filter isProjectionKey) (obj, w)).result =
      .ok reply) :
    Answers srv.registry obj.fields projection reply ↔ Projectable obj.fields projection := by
  cases hkeys : (projection.map Prod.fst).filter isProjectionKey with
  | nil =>
    -- Nothing is projected.
    rw [hkeys] at h
    cases h
    have hall : ∀ k ∈ namedBy projection, Bookkeeping k := fun k hk => by
      by_contra hnot
      have hmem := (mem_projected_iff hnot).2 hk
      rw [hkeys] at hmem
      cases hmem
    have hns : NAMESPACE ∉ namedBy projection := fun hmem => by
      have hmem : NAMESPACE ∈ (projection.map Prod.fst).filter isProjectionKey :=
        List.mem_filter.2 ⟨hmem, by decide⟩
      rw [hkeys] at hmem
      cases hmem
    exact ⟨fun _ => .inr (.inl hns),
      fun _ => ⟨fun ⟨k, hk, hnot⟩ => (hnot (hall k hk)).elim, fun _ => rfl⟩⟩
  | cons k keys =>
    rw [hkeys] at h
    rcases hrun : srv.project (k :: keys) Dynamic.empty (obj, w) with ⟨result, trace, s'⟩
    have hresult : (srv.project (k :: keys) Dynamic.empty (obj, w)).result = .ok reply := h
    rw [hrun] at hresult
    subst hresult
    by_cases hnamed : ∃ k ∈ namedBy projection, ¬ Bookkeeping k
    · have hcopies := (project_copies hrun).2
      refine ⟨fun _ => .inl hnamed, fun _ => ⟨fun _ k' hnot => ⟨fun hk' => ?_, fun hk' => ?_⟩,
        fun hall => ?_⟩⟩
      · have hmem := (mem_projected_iff hnot).2 hk'
        rw [hkeys] at hmem
        obtain ⟨r, hr, hreply⟩ := hcopies.named k' hmem (fun h => hnot (.inr (.inr h)))
          fun h => hnot (.inl h)
        rw [hr, hreply, empty_lookup fun h => hnot (.inl h), Option.or_none]
      · have hmem := fun h => hk' ((mem_projected_iff hnot).1 h)
        rw [hkeys] at hmem
        rw [hcopies.others k' hmem (fun h => hnot (.inr (.inr h))) fun h => hnot (.inl h)]
        exact empty_lookup fun h => hnot (.inl h)
      · obtain ⟨k', hk', hnot⟩ := hnamed
        exact (hnot (hall k' hk')).elim
    · -- Only the namespace is left of the projection.
      have hall : ∀ k ∈ namedBy projection, Bookkeeping k := fun k hk => by
        by_contra hnot
        exact hnamed ⟨k, hk, hnot⟩
      have honly : ∀ k' ∈ k :: keys, k' = NAMESPACE := fun k' hk' => by
        rw [← hkeys, List.mem_filter] at hk'
        exact eq_namespace_of_bookkeeping (hall k' hk'.1) hk'.2
      have hns : NAMESPACE ∈ namedBy projection := by
        have hmem : k ∈ (projection.map Prod.fst).filter isProjectionKey := by
          rw [hkeys]
          exact List.mem_cons_self ..
        rw [← honly k (List.mem_cons_self ..)]
        exact (List.mem_filter.1 hmem).1
      obtain ⟨v, rfl, hv⟩ := project_namespace_only honly (List.cons_ne_nil k keys) hrun
      refine ⟨fun hanswers => .inr (.inr ⟨v, (hanswers.full hall).symm⟩), fun hable => ?_⟩
      obtain ⟨v', hd⟩ := (hable.resolve_left hnamed).resolve_left fun h => h hns
      refine ⟨fun h => (hnamed h).elim, fun _ => ?_⟩
      rw [hd, hv v' (by rw [hd, lookup_insert_self])]

/-- A method that the object has not is not found. -/
theorem findMethodM_resolved {reg : Registry μ} {k : Key} {obj : Instance μ} {r : Option μ}
    (h : reg.resolveMethod obj.fields obj.methods k = .ok r) (w : World μ σ) :
    ∃ obj', findMethodM reg k (obj, w) = ⟨.ok r, [], (obj', w)⟩ := by
  rw [← findMethod_resolve] at h
  cases hfind : findMethod reg k obj.methods obj.fields with
  | error e =>
    rw [hfind] at h
    cases h
  | ok found =>
    rw [hfind] at h
    cases h
    exact ⟨_, findMethodM_run hfind w⟩

/-- Without a `__getter` the answer is what was read. -/
theorem Server.getFields_read (srv : Server μ σ) (hget : NoGetter srv.registry obj)
    (projection : Fields) (id : Key) (w : World μ σ) :
    (srv.getFields projection id (obj, w)).trace = [] ∧
      (srv.getFields projection id (obj, w)).result =
        (srv.readFields ((projection.map Prod.fst).filter isProjectionKey) (obj, w)).result := by
  unfold getFields
  generalize (projection.map Prod.fst).filter isProjectionKey = keys
  obtain ⟨htrace, hview, hworld⟩ := srv.readFields_looks keys (obj, w)
  rcases hrun : srv.readFields keys (obj, w) with ⟨result, trace, obj', w'⟩
  rw [hrun] at htrace hview hworld
  cases htrace
  cases result with
  | error e =>
    rw [Program.bind_error hrun]
    exact ⟨rfl, rfl⟩
  | ok reply =>
    have hnone : srv.registry.resolveMethod obj'.fields obj'.methods HOOK_GETTER = .ok none :=
      (hview.methods HOOK_GETTER).trans hget
    obtain ⟨obj'', hfind⟩ := findMethodM_resolved hnone w'
    have hhook : runHook srv.registry srv.impl id HOOK_GETTER reply (obj', w') =
        ⟨.ok none, [], (obj'', w')⟩ := by
      rw [runHook, Program.bind_ok hfind]
      rfl
    rw [Program.bind_ok hrun, Program.bind_ok hhook]
    exact ⟨rfl, rfl⟩

/-- The reply to a get is what was read. -/
theorem Server.handleGet_sent_iff {env : Envelope}
    (hobj : w.ctx.objects.lookup env.objectId = some obj) (hget : NoGetter srv.registry obj) :
    .sent (responseEnvelope env OP_GET reply) ∈ (srv.handleGet env w).trace ↔
      (srv.readFields ((env.payload.map Prod.fst).filter isProjectionKey) (obj, w)).result =
        .ok reply := by
  obtain ⟨htrace, hresult⟩ := srv.getFields_read hget env.payload env.objectId w
  rw [handleGet, withObject_found hobj, ← hresult]
  rcases hrun : srv.getFields env.payload env.objectId (obj, w) with ⟨result, trace, obj', w'⟩
  rw [hrun] at htrace
  cases htrace
  have hon : onObject env.objectId obj (srv.getFields env.payload env.objectId) w =
      ⟨result, [], { w' with ctx := w'.ctx.storeObject env.objectId obj' }⟩ := by
    rw [onObject, hrun]
  cases result with
  | error e =>
    rw [Program.bind_error hon]
    simp
  | ok found =>
    rw [Program.bind_ok hon]
    simp [sendResponse, Program.emit, responseEnvelope, eq_comm]

/-- Where the class and the namespace of the object can be read, in an acyclic registry, there is a
reply. -/
theorem Server.readFields_returns (srv : Server μ σ) (hreg : srv.registry.Acyclic)
    (hobj : Resolvable obj.fields) (projection : Fields) (w : World μ σ) :
    ∃ reply, (srv.readFields ((projection.map Prod.fst).filter isProjectionKey) (obj, w)).result =
      .ok reply := by
  cases hkeys : (projection.map Prod.fst).filter isProjectionKey with
  | nil => exact ⟨obj.fields, rfl⟩
  | cons k keys =>
    refine project_returns hreg (fun k' hk' => ?_) hobj ⟨⟨0, rfl⟩, 0, rfl⟩ w
    rw [← hkeys, List.mem_filter] at hk'
    exact (decide_eq_true_iff.1 hk'.2).1

/-! ## The standalone backend -/

variable {sa : Standalone μ σ}

/-- A server with the same classes. -/
def Standalone.asServer (sa : Standalone μ σ) : Server μ σ where
  registry := sa.registry
  impl := sa.impl

theorem Standalone.project_eq (keys : List Key) (result : Fields) :
    sa.project keys result = sa.asServer.project keys result := by
  induction keys generalizing result with
  | nil => rfl
  | cons k keys ih =>
    refine congrArg (onFields (findField sa.registry k) >>= ·) (funext fun found => ?_)
    cases found with
    | none => exact ih result
    | some v => exact congrArg (liftE _ >>= ·) (funext fun r => ih r.2)

theorem Standalone.snapshot_eq (keys : List Key) :
    sa.snapshot keys = sa.asServer.readFields keys := by
  cases keys with
  | nil => rfl
  | cons k keys => exact sa.project_eq (k :: keys) Dynamic.empty

theorem Standalone.getFields_read (hget : NoGetter sa.registry obj) (projection : Fields)
    (id : Key) :
    (sa.getFields id projection (obj, w)).result =
      (sa.asServer.readFields ((projection.map Prod.fst).filter isProjectionKey)
        (obj, w)).result := by
  rw [← Standalone.snapshot_eq]
  unfold getFields
  generalize hkeys : (projection.map Prod.fst).filter isProjectionKey = keys
  have hlooks := sa.asServer.readFields_looks keys (obj, w)
  rw [← Standalone.snapshot_eq] at hlooks
  rcases hrun : sa.snapshot keys (obj, w) with ⟨result, trace, obj', w'⟩
  rw [hrun] at hlooks
  cases result with
  | error e => rw [Program.bind_error hrun]
  | ok reply =>
    have hnone : sa.registry.resolveMethod obj'.fields obj'.methods HOOK_GETTER = .ok none :=
      (hlooks.2.1.methods HOOK_GETTER).trans hget
    obtain ⟨obj'', hfind⟩ := findMethodM_resolved hnone w'
    rw [Program.bind_ok hrun, Program.bind_ok hfind]
    rfl

theorem Standalone.handleGet_result_iff {id : Key} (hobj : w.ctx.objects.lookup id = some obj)
    (hget : NoGetter sa.registry obj) :
    (sa.handleGet id projection w).result = .ok reply ↔
      (sa.asServer.readFields ((projection.map Prod.fst).filter isProjectionKey) (obj, w)).result =
        .ok reply := by
  rw [handleGet, withStored_found hobj, ← getFields_read hget projection id]
  rcases hrun : sa.getFields id projection (obj, w) with ⟨result, trace, obj', w'⟩
  have hon : onObject id obj (sa.getFields id projection) w =
      ⟨result, trace, { w' with ctx := w'.ctx.storeObject id obj' }⟩ := by
    rw [onObject, hrun]
  rw [hon]

end Answer

/-! ## The main result -/

/-- `reply` is what one of the backends answers to a get of `obj`. -/
inductive Replied (reg : Registry μ) (obj : Instance μ) (projection reply : Fields)
    (w : World μ σ) : Prop
  | server (srv : Server μ σ) (env : Envelope) (hreg : srv.registry = reg)
      (hobj : w.ctx.objects.lookup env.objectId = some obj) (hpayload : env.payload = projection)
      (hsent : .sent (responseEnvelope env OP_GET reply) ∈ (srv.handleGet env w).trace)
  | standalone (sa : Standalone μ σ) (id : Key) (hreg : sa.registry = reg)
      (hobj : w.ctx.objects.lookup id = some obj)
      (hresult : (sa.handleGet id projection w).result = .ok reply)

/-- Without a `__getter`, a get is answered as it is to be if and only if the projection names a
field that is not bookkeeping, or does not name the namespace, or the object holds nothing else.
Where the class and the namespace of the object can be read and the registry is acyclic, both
backends reply. -/
theorem get_answers_iff {reg : Registry μ} {obj : Instance μ} (hget : NoGetter reg obj)
    (projection : Fields) (w : World μ σ) :
    (∀ reply, Replied reg obj projection reply w →
      (Answers reg obj.fields projection reply ↔ Projectable obj.fields projection)) ∧
    (reg.Acyclic → Resolvable obj.fields →
      (∀ (srv : Server μ σ) (env : Envelope), srv.registry = reg → env.payload = projection →
        w.ctx.objects.lookup env.objectId = some obj →
          ∃ reply, .sent (responseEnvelope env OP_GET reply) ∈ (srv.handleGet env w).trace) ∧
      ∀ (sa : Standalone μ σ) (id : Key), sa.registry = reg →
        w.ctx.objects.lookup id = some obj →
          ∃ reply, (sa.handleGet id projection w).result = .ok reply) := by
  refine ⟨fun reply hreply => ?_, fun hacyclic hobj => ⟨?_, ?_⟩⟩
  · cases hreply with
    | server srv env hreg hobj hpayload hsent =>
      subst hreg hpayload
      exact srv.readFields_answers_iff ((Server.handleGet_sent_iff hobj hget).1 hsent)
    | standalone sa id hreg hobj hresult =>
      subst hreg
      exact sa.asServer.readFields_answers_iff
        ((Standalone.handleGet_result_iff hobj hget).1 hresult)
  · rintro srv env rfl rfl hfound
    obtain ⟨reply, hread⟩ := srv.readFields_returns hacyclic hobj env.payload w
    exact ⟨reply, (Server.handleGet_sent_iff hfound hget).2 hread⟩
  · rintro sa id rfl hfound
    obtain ⟨reply, hread⟩ := sa.asServer.readFields_returns hacyclic hobj projection w
    exact ⟨reply, (Standalone.handleGet_result_iff hfound hget).2 hread⟩

/-! ## An object with one field -/

namespace Projected

def object : Instance Unit := ⟨[(9, .int32 2), (CLASS, .key 6), (NAMESPACE, .key 0)], []⟩

def backend : Standalone Unit Unit where
  registry := []
  impl := fun _ _ s => (.ok [], s)

def world : World Unit Unit where
  ctx := { objects := .insert 1 object ∅ }
  app := ()
  ids := fun n => UInt32.ofNat n

/-- An empty payload in which a field has been looked up. -/
def namespaceOnly : Fields := insert NAMESPACE (.key 0) Dynamic.empty

end Projected

open Projected in
/-- A get that names the namespace only is answered with that, and not with all fields. -/
theorem namespace_not_snapshot :
    NoGetter backend.registry object ∧
      Replied backend.registry object namespaceOnly namespaceOnly world ∧
      ¬ Answers backend.registry object.fields namespaceOnly namespaceOnly := by
  refine ⟨rfl, .standalone backend 1 rfl rfl rfl, fun h => ?_⟩
  have hnamed : namedBy namespaceOnly = [CLASS, NAMESPACE] := rfl
  have hfull := h.full fun k hk => by
    rw [hnamed, List.mem_cons, List.mem_singleton] at hk
    exact hk.imp_right .inr
  have hsizes : namespaceOnly.length = object.fields.length := congrArg List.length hfull
  exact absurd hsizes (by decide)

open Projected in
theorem get_answers_projected :
    (∀ reply, Replied backend.registry object [(9, .monostate)] reply world →
      (Answers backend.registry object.fields [(9, .monostate)] reply ↔
        Projectable object.fields [(9, .monostate)])) ∧
    ∃ reply, (backend.handleGet 1 [(9, .monostate)] world).result = .ok reply := by
  have hacyclic : backend.registry.Acyclic := fun ns col h => by cases h
  have hget : NoGetter backend.registry object := rfl
  obtain ⟨hanswers, hreplies⟩ := get_answers_iff hget [(9, .monostate)] world
  exact ⟨hanswers, (hreplies hacyclic ⟨⟨0, rfl⟩, 6, rfl⟩).2 backend 1 rfl rfl⟩

end Bison
