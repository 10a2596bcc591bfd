import Bison.Rmi.BackendRuns
import Bison.Rmi.DestructOnce
import Bison.Rmi.ReadOnly
import Bison.Rmi.Projections

/-!
# An object that has been cleared, and one that is new

A clear gives an object the fields and the methods of the prototype of its class. A new object has
none of them: it inherits. The two hold different fields, which a full get shows, but every field
and every method resolves to the same in both, and requests that reach fields and methods by lookups
cannot tell them apart.

- `Instance.Like`: two objects in which everything resolves to the same.
- `MethodBody.Blind`: methods that cannot tell such objects apart.
- `replies_alike`: the replies about two such objects.
- `clear_like_new`: **main result**, the replies about a cleared object, and about a new one.
- `clear_full_get`: a full get tells them apart.
-/

namespace Bison

open SortedMap

variable {μ σ : Type}

/-! ## Objects that resolve alike -/

theorem SameHeader.symm {d d' : Fields} (h : SameHeader d d') : SameHeader d' d :=
  ⟨h.ns.symm, h.class'.symm⟩

theorem Instance.SameView.symm {reg : Registry μ} {obj obj' : Instance μ}
    (h : obj.SameView reg obj') : obj'.SameView reg obj where
  header := h.header.symm
  fields k hns hclass := (h.fields k hns hclass).symm
  methods k := (h.methods k).symm

/-- Everything resolves to the same in both objects, which say their class and namespace by keys. -/
structure Instance.Like (reg : Registry μ) (obj obj' : Instance μ) : Prop where
  view : obj.SameView reg obj'
  left : HeaderKeyed obj.fields
  right : HeaderKeyed obj'.fields

theorem HeaderKeyed.of_resolved {d d₁ d' : Fields} {ns : Key} (h : HeaderKeyed d)
    (hns : resolveNamespace d = .ok (ns, d₁)) (hkeeps : Keeps d₁ d') : HeaderKeyed d' := by
  obtain ⟨c, hc⟩ := Option.isSome_iff_exists.1 h.1
  refine ⟨?_, .inr ?_⟩
  · rw [hkeeps.keyAt _ _ ((resolveNamespace_keeps hns).keyAt _ _ hc)]
    rfl
  · rw [hkeeps.keyAt _ _ (resolveNamespace_resolved hns)]
    rfl

theorem HeaderKeyed.findField {reg : Registry μ} {k : Key} {d d' : Fields} {r : Option Value}
    (h : HeaderKeyed d) (hfind : Bison.findField reg k d = .ok (r, d')) : HeaderKeyed d' := by
  rcases findField_resolved hfind with rfl | ⟨ns, d₁, hns, hkeeps⟩
  · exact h
  · exact h.of_resolved hns hkeeps

theorem HeaderKeyed.findMethod {reg : Registry μ} {k : Key} {methods : List (Key × μ)} {d : Fields}
    {r : (Option μ × List (Key × μ)) × Fields} (h : HeaderKeyed d)
    (hfind : Bison.findMethod reg k methods d = .ok r) : HeaderKeyed r.2 := by
  rcases findMethod_resolved hfind with heq | ⟨ns, d₁, hns, hkeeps⟩
  · rw [heq]
    exact h
  · exact h.of_resolved hns hkeeps

theorem HeaderKeyed.afterThrow {d : Fields} (h : HeaderKeyed d) :
    HeaderKeyed (Bison.afterThrow d) := by
  unfold Bison.afterThrow
  cases hns : resolveNamespace d with
  | error e => exact h
  | ok r => exact h.of_resolved hns (.refl r.2)

theorem HeaderKeyed.insert {d : Fields} (h : HeaderKeyed d) {k : Key} (hns : k ≠ NAMESPACE)
    (hclass : k ≠ CLASS) (v : Value) : HeaderKeyed (SortedMap.insert k v d) := by
  unfold HeaderKeyed
  rw [keyAt_insert, if_neg hclass.symm, keyAt_insert, if_neg hns.symm, lookup_insert_ne v hns.symm]
  exact h

/-- The namespace of such an object is found as a key. -/
theorem HeaderKeyed.findField_namespace (reg : Registry μ) {d : Fields} (h : HeaderKeyed d) :
    ∃ ns d', namespaceOf d = .ok ns ∧
      Bison.findField reg NAMESPACE d = .ok (some (.key ns), d') := by
  rcases h.2 with hnone | hkey
  · refine ⟨0, _, ?_, findField_namespace_none reg hnone h.1⟩
    rw [namespaceOf, resolveNamespace, hnone]
    rfl
  · obtain ⟨ns, hns⟩ := Option.isSome_iff_exists.1 hkey
    exact ⟨ns, d, namespaceOf_key hns, by rw [Bison.findField, keyAt_eq_some_iff.1 hns]⟩

namespace Instance.Like

variable {reg : Registry μ} {obj obj' : Instance μ}

/-- A step on either side that leaves what is resolved leaves them alike. -/
theorem step {next next' : Instance μ} (h : obj.Like reg obj') (hview : obj.SameView reg next)
    (hview' : obj'.SameView reg next') (hleft : HeaderKeyed next.fields)
    (hright : HeaderKeyed next'.fields) : next.Like reg next' :=
  ⟨hview.symm.trans (h.view.trans hview'), hleft, hright⟩

theorem afterThrow (h : obj.Like reg obj') :
    { obj with fields := Bison.afterThrow obj.fields }.Like reg
      { obj' with fields := Bison.afterThrow obj'.fields } :=
  h.step (afterThrow_sameView obj) (afterThrow_sameView obj') h.left.afterThrow h.right.afterThrow

/-- A field is found in both, or in neither. -/
theorem findField_eq (h : obj.Like reg obj') {k : Key} (hclass : k ≠ CLASS) :
    (findField reg k obj.fields).map Prod.fst = (findField reg k obj'.fields).map Prod.fst := by
  by_cases hns : k = NAMESPACE
  · subst hns
    obtain ⟨ns, d, hof, hfind⟩ := h.left.findField_namespace reg
    obtain ⟨ns', d', hof', hfind'⟩ := h.right.findField_namespace reg
    rw [h.view.header.ns, hof] at hof'
    cases hof'
    rw [hfind, hfind']
    rfl
  · rw [findField_resolve reg hns hclass, findField_resolve reg hns hclass,
      h.view.fields k hns hclass]

theorem findMethod_eq (h : obj.Like reg obj') (k : Key) :
    (findMethod reg k obj.methods obj.fields).map (fun r => r.1.1) =
      (findMethod reg k obj'.methods obj'.fields).map (fun r => r.1.1) := by
  rw [findMethod_resolve, findMethod_resolve, h.view.methods]

end Instance.Like

/-! ## Lookups, writes and calls -/

/-- Two such objects, and the same application. -/
def Sides (reg : Registry μ) (s t : World μ σ) (x y : Instance μ × World μ σ) : Prop :=
  ∃ obj obj' app, obj.Like reg obj' ∧ x = (obj, { s with app }) ∧ y = (obj', { t with app })

/-- The same method runs, or the same is sent about the object `b`. -/
inductive Echoes (b : Key) : SessionEffect → SessionEffect → Prop
  | ran (object object' : Option Key) (method : Key) :
      Echoes b (.ran object method) (.ran object' method)
  | sent (env : Envelope) : Echoes b (.sent env) (.sent { env with objectId := b })

section Objects

variable {reg : Registry μ} {s t : World μ σ} {b : Key}

/-- Two computations that give the same fail alike or succeed alike. -/
theorem cases_of_map_eq {α β γ : Type} {x : Except Exn α} {y : Except Exn β} {f : α → γ} {g : β → γ}
    (h : x.map f = y.map g) : (∃ e, x = .error e ∧ y = .error e) ∨
      ∃ a a', x = .ok a ∧ y = .ok a' ∧ f a = g a' := by
  cases x with
  | error e =>
    cases y with
    | error e' =>
      cases h
      exact .inl ⟨e, rfl, rfl⟩
    | ok a' => cases h
  | ok a =>
    cases y with
    | error e' => cases h
    | ok a' => exact .inr ⟨a, a', rfl, rfl, Except.ok.inj h⟩

/-- A lookup that gives the same in both objects, and leaves them alike. -/
theorem onFields_sides {α : Type} {lookup : DynamicM α}
    (h : ∀ obj obj' : Instance μ, obj.Like reg obj' →
      (lookup obj.fields).map Prod.fst = (lookup obj'.fields).map Prod.fst ∧
        ∀ a a' d d', lookup obj.fields = .ok (a, d) → lookup obj'.fields = .ok (a', d') →
          Instance.Like reg { obj with fields := d } { obj' with fields := d' }) :
    Program.Alike (Echoes b) (Sides reg s t) (onFields lookup) (onFields lookup) := by
  refine .ofState ?_
  rintro _ _ ⟨obj, obj', app, hlike, rfl, rfl⟩
  obtain ⟨heq, hleft⟩ := h obj obj' hlike
  simp only
  rcases cases_of_map_eq heq with ⟨e, hx, hy⟩ | ⟨⟨a, d⟩, ⟨a', d'⟩, hx, hy, rfl⟩ <;>
    simp only [hx, hy]
  · exact ⟨trivial, _, _, app, hlike.afterThrow, rfl, rfl⟩
  · exact ⟨trivial, _, _, app, hleft a a d d' hx hy, rfl, rfl⟩

theorem findField_sides {k : Key} (hclass : k ≠ CLASS) :
    Program.Alike (Echoes b) (Sides reg s t) (onFields (findField reg k))
      (onFields (findField reg k)) :=
  onFields_sides fun _ _ hlike => ⟨hlike.findField_eq hclass, fun _ _ _ _ hx hy =>
    hlike.step (findField_sameView hx) (findField_sameView hy) (hlike.left.findField hx)
      (hlike.right.findField hy)⟩

/-- The same value is written to both. -/
theorem Instance.Like.written {obj obj' : Instance μ} (h : obj.Like reg obj') {k : Key} {v : Value}
    (hns : k ≠ NAMESPACE) (hclass : k ≠ CLASS) {d d' : Fields}
    (hd : WrittenBy k v obj.fields d) (hd' : WrittenBy k v obj'.fields d')
    (hleft : HeaderKeyed d) (hright : HeaderKeyed d') :
    Instance.Like reg { obj with fields := d } { obj' with fields := d' } := by
  have hheader : SameHeader d d' :=
    (hd.header hns hclass).symm.trans (h.view.header.trans (hd'.header hns hclass))
  refine ⟨⟨hheader, fun k' hns' hclass' => ?_, fun m => ?_⟩, hleft, hright⟩
  · by_cases hk : k' = k
    · subst hk
      rw [reg.resolve_own hd.itself, reg.resolve_own hd'.itself]
    · rw [reg.resolve_congr (hd.header hns hclass) (hd.others k' hk hns' hclass'),
        reg.resolve_congr (hd'.header hns hclass) (hd'.others k' hk hns' hclass')]
      exact h.view.fields k' hns' hclass'
  · rw [reg.resolveMethod_congr (hd.header hns hclass) rfl,
      reg.resolveMethod_congr (hd'.header hns hclass) rfl]
    exact h.view.methods m

theorem writeField_map (reg : Registry μ) (k : Key) (v : Value) (d : Fields) :
    (writeField reg k v d).map Prod.fst = (findField reg k d).map fun _ => () := by
  cases hfind : findField reg k d with
  | error e =>
    have hsub : subscript reg k d = .error e := by rw [subscript, Decoder.bind_error hfind]
    rw [writeField, Decoder.bind_error hsub]
    rfl
  | ok r =>
    obtain ⟨found, d'⟩ := r
    have hsub : ∃ old d'', subscript reg k d = .ok (old, d'') := by
      rw [subscript, Decoder.bind_ok hfind]
      cases found with
      | some f => exact ⟨_, _, rfl⟩
      | none => exact ⟨_, _, rfl⟩
    obtain ⟨old, d'', hsub⟩ := hsub
    rw [writeField, Decoder.bind_ok hsub]
    rfl

theorem writeField_headerKeyed {k : Key} {v : Value} {d d' : Fields} (h : HeaderKeyed d)
    (hns : k ≠ NAMESPACE) (hclass : k ≠ CLASS) (hwrite : writeField reg k v d = .ok ((), d')) :
    HeaderKeyed d' := by
  obtain ⟨old, d₁, hsub, hput⟩ := Decoder.bind_eq_ok.1 hwrite
  obtain ⟨found, d₂, hfind, hadd⟩ := Decoder.bind_eq_ok.1 hsub
  cases hput
  have hkeyed := h.findField hfind
  cases found with
  | some f =>
    cases hadd
    exact hkeyed.insert hns hclass v
  | none =>
    cases hadd
    exact (hkeyed.insert hns hclass _).insert hns hclass v

theorem writeField_sides {k : Key} (hns : k ≠ NAMESPACE) (hclass : k ≠ CLASS) (v : Value) :
    Program.Alike (Echoes b) (Sides reg s t) (onFields (writeField reg k v))
      (onFields (writeField reg k v)) := by
  refine onFields_sides fun obj obj' hlike => ⟨?_, fun _ _ _ _ hx hy => ?_⟩
  · rw [writeField_map, writeField_map]
    rcases cases_of_map_eq (hlike.findField_eq hclass) with ⟨e, hx, hy⟩ | ⟨a, a', hx, hy, -⟩ <;>
      rw [hx, hy]
    rfl
  · exact hlike.written hns hclass (writeField_leaves hx) (writeField_leaves hy)
      (writeField_headerKeyed hlike.left hns hclass hx)
      (writeField_headerKeyed hlike.right hns hclass hy)

theorem findMethod_sides (name : Key) :
    Program.Alike (Echoes b) (Sides reg s t) (findMethodM reg name) (findMethodM reg name) := by
  refine .ofState ?_
  rintro _ _ ⟨obj, obj', app, hlike, rfl, rfl⟩
  simp only
  rcases cases_of_map_eq (hlike.findMethod_eq name) with
    ⟨e, hx, hy⟩ | ⟨⟨⟨m, methods⟩, d⟩, ⟨⟨m', methods'⟩, d'⟩, hx, hy, hm⟩ <;> simp only [hx, hy]
  · exact ⟨trivial, _, _, app, hlike.afterThrow, rfl, rfl⟩
  · obtain rfl : m = m' := hm
    refine ⟨rfl, _, _, app, hlike.step (findMethod_sameView hx) (findMethod_sameView hy) ?_ ?_,
      rfl, rfl⟩
    · exact hlike.left.findMethod hx
    · exact hlike.right.findMethod hy

end Objects

/-- Methods that look at their object by lookups only: they do the same to two objects in which
everything resolves to the same, and leave them so. -/
def MethodBody.Blind (reg : Registry μ) (body : MethodBody μ σ) : Prop :=
  ∀ m params (obj obj' : Instance μ) app, obj.Like reg obj' →
    (body m params (obj, app)).1 = (body m params (obj', app)).1 ∧
      (body m params (obj, app)).2.2 = (body m params (obj', app)).2.2 ∧
      (body m params (obj, app)).2.1.Like reg (body m params (obj', app)).2.1

section Requests

variable {srv : Server μ σ} {body : MethodBody μ σ} {s t : World μ σ} {a b : Key}
  (himpl : srv.impl = body.onWorld) (hblind : body.Blind srv.registry)

include himpl hblind

theorem invoke_sides (name : Key) (m : μ) (params : Fields) :
    Program.Alike (Echoes b) (Sides srv.registry s t) (invoke srv.impl (some a) name m params)
      (invoke srv.impl (some b) name m params) := by
  rw [himpl]
  refine .bind (.emit (.ran _ _ name)) fun _ => .ofState ?_
  rintro _ _ ⟨obj, obj', app, hlike, rfl, rfl⟩
  obtain ⟨hresult, happ, hafter⟩ := hblind m params obj obj' app hlike
  refine ⟨?_, _, _, (body m params (obj, app)).2.2, hafter, rfl, ?_⟩
  · simp only [MethodBody.onWorld, hresult]
  · simp only [MethodBody.onWorld, happ]

theorem call_sides (name : Key) (params : Fields) :
    Program.Alike (Echoes b) (Sides srv.registry s t)
      (call srv.registry srv.impl (some a) name params)
      (call srv.registry srv.impl (some b) name params) :=
  call_alike_of findMethod_sides (invoke_sides himpl hblind) name params

theorem runHook_sides (hook : Key) (params : Fields) :
    Program.Alike (Echoes b) (Sides srv.registry s t)
      (runHook srv.registry srv.impl (some a) hook params)
      (runHook srv.registry srv.impl (some b) hook params) :=
  runHook_alike_of findMethod_sides (invoke_sides himpl hblind) hook params

omit himpl hblind in
theorem applyPatch_sides (patch : Fields) :
    Program.Alike (Echoes b) (Sides srv.registry s t) (srv.applyPatch patch)
      (srv.applyPatch patch) := by
  refine .forEach fun entry hentry => ?_
  have hkey := (List.mem_filter.1 hentry).2
  rw [isPatchKey, decide_eq_true_iff] at hkey
  exact writeField_sides hkey.2.2 hkey.1 entry.2

theorem setFields_sides (payload : Fields) :
    Program.Alike (Echoes b) (Sides srv.registry s t) (srv.setFields payload a)
      (srv.setFields payload b) := by
  refine .bind (runHook_sides himpl hblind HOOK_SETTER payload) fun ran => ?_
  rcases ran with _ | what | patched
  · exact .bind (applyPatch_sides payload) fun _ => .pure _
  · exact .pure _
  · exact .bind (applyPatch_sides patched) fun _ => .pure _

omit himpl hblind in
theorem project_sides {keys : List Key} (hkeys : ∀ k ∈ keys, k ≠ CLASS) (result : Fields) :
    Program.Alike (Echoes b) (Sides srv.registry s t) (srv.project keys result)
      (srv.project keys result) := by
  induction keys generalizing result with
  | nil => exact .pure result
  | cons k keys ih =>
    have hlater := fun k' hk' => hkeys k' (List.mem_cons_of_mem k hk')
    refine .bind (findField_sides (hkeys k (List.mem_cons_self ..))) fun found => ?_
    cases found with
    | none => exact ih hlater result
    | some v => exact .bind (.lift _) fun r => ih hlater r.2

/-- The projection is not empty, as the server sees it. -/
def Projects (projection : Fields) : Prop :=
  (projection.map Prod.fst).filter isProjectionKey ≠ []

theorem getFields_sides {projection : Fields} (hprojects : Projects projection) :
    Program.Alike (Echoes b) (Sides srv.registry s t) (srv.getFields projection a)
      (srv.getFields projection b) := by
  unfold Server.getFields
  refine .bind ?_ fun result => .bind (runHook_sides himpl hblind HOOK_GETTER result) fun ran => ?_
  · have hkeys : ∀ k ∈ (projection.map Prod.fst).filter isProjectionKey, k ≠ CLASS :=
      fun k hk => (decide_eq_true_iff.1 (List.mem_filter.1 hk).2).1
    unfold Projects at hprojects
    generalize (projection.map Prod.fst).filter isProjectionKey = keys at hkeys hprojects
    cases keys with
    | nil => exact (hprojects rfl).elim
    | cons k keys => exact project_sides hkeys Dynamic.empty
  · rcases ran with _ | what | result'
    · exact .pure _
    · exact .pure _
    · exact .pure _

end Requests

/-! ## The replies -/

/-- Object `a` of one session and object `b` of the other are alike, and the application is the
same. -/
def LikeObjects (reg : Registry μ) (a b : Key) (s t : World μ σ) : Prop :=
  ∃ obj obj', s.ctx.objects.lookup a = some obj ∧ t.ctx.objects.lookup b = some obj' ∧
    obj.Like reg obj' ∧ s.app = t.app

section Replies

variable {srv : Server μ σ} {body : MethodBody μ σ} {s t : World μ σ} {a b : Key}

/-- A program that does the same to both objects. -/
theorem onObject_likeObjects {α : Type} {reg : Registry μ} {obj obj' : Instance μ}
    {p q : ObjectM μ σ α} (h : ∀ s t, Program.Alike (Echoes b) (Sides reg s t) p q)
    (hobj : s.ctx.objects.lookup a = some obj) (hobj' : t.ctx.objects.lookup b = some obj')
    (hlike : obj.Like reg obj') (happ : s.app = t.app) :
    (onObject a obj p s).result = (onObject b obj' q t).result ∧
      List.Forall₂ (Echoes b) (onObject a obj p s).trace (onObject b obj' q t).trace ∧
      LikeObjects reg a b (onObject a obj p s).state (onObject b obj' q t).state := by
  have hsides : Sides reg s t (obj, s) (obj', t) := ⟨obj, obj', s.app, hlike, rfl, by rw [happ]⟩
  obtain ⟨hresult, htrace, next, next', app, hnext, hleft, hright⟩ := h s t _ _ hsides
  unfold onObject
  rcases hrun : p (obj, s) with ⟨result, trace, object, world⟩
  rcases hrun' : q (obj', t) with ⟨result', trace', object', world'⟩
  rw [hrun, hrun'] at hresult htrace
  rw [hrun] at hleft
  rw [hrun'] at hright
  cases hleft
  cases hright
  refine ⟨hresult, htrace, next, next', ?_, ?_, hnext, rfl⟩
  · show (s.ctx.storeObject a next).objects.lookup a = some next
    rw [Context.lookup_storeObject, if_pos rfl, hobj]
    rfl
  · show (t.ctx.storeObject b next').objects.lookup b = some next'
    rw [Context.lookup_storeObject, if_pos rfl, hobj']
    rfl

theorem sendResponse_alike {R : World μ σ → World μ σ → Prop} (env : Envelope) (a op : Key)
    (payload : Fields) : Program.Alike (Echoes b) R
      (sendResponse { env with objectId := a } op payload : ServerM μ σ Unit)
      (sendResponse { env with objectId := b } op payload) :=
  .emit (.sent (responseEnvelope { env with objectId := a } op payload))

theorem sendError_alike {R : World μ σ → World μ σ → Prop} (env : Envelope) (a op code : Key)
    (message : Text) : Program.Alike (Echoes b) R
      (sendError { env with objectId := a } op code message : ServerM μ σ Unit)
      (sendError { env with objectId := b } op code message) :=
  .emit (.sent (errorEnvelope { env with objectId := a } op code message))

variable (himpl : srv.impl = body.onWorld) (hblind : body.Blind srv.registry)

include himpl hblind

theorem handleGet_alike {env : Envelope} (hprojects : Projects env.payload) :
    Program.Alike (Echoes b) (LikeObjects srv.registry a b)
      (srv.handleGet { env with objectId := a }) (srv.handleGet { env with objectId := b }) := by
  rintro s t ⟨obj, obj', hobj, hobj', hlike, happ⟩
  unfold Server.handleGet
  rw [withObject_found hobj, withObject_found hobj']
  exact Program.Alike.bind_at (onObject_likeObjects
    (fun s t => getFields_sides himpl hblind hprojects) hobj hobj' hlike happ)
    fun result => sendResponse_alike env a OP_GET result

theorem handleSet_alike (env : Envelope) :
    Program.Alike (Echoes b) (LikeObjects srv.registry a b)
      (srv.handleSet { env with objectId := a }) (srv.handleSet { env with objectId := b }) := by
  rintro s t ⟨obj, obj', hobj, hobj', hlike, happ⟩
  unfold Server.handleSet
  rw [withObject_found hobj, withObject_found hobj']
  refine Program.Alike.bind_at (onObject_likeObjects
    (fun s t => setFields_sides himpl hblind env.payload) hobj hobj' hlike happ) fun written => ?_
  cases written with
  | error what => exact sendError_alike env a OP_SET _ _
  | ok u => exact sendResponse_alike env a OP_SET _

theorem handleCall_alike (env : Envelope) :
    Program.Alike (Echoes b) (LikeObjects srv.registry a b)
      (srv.handleCall { env with objectId := a }) (srv.handleCall { env with objectId := b }) := by
  rintro s t ⟨obj, obj', hobj, hobj', hlike, happ⟩
  unfold Server.handleCall
  rw [withObject_found hobj, withObject_found hobj']
  cases hparams : callParams srv.registry env.payload with
  | error e =>
    rw [liftE_bind_error rfl, liftE_bind_error rfl]
    exact ⟨rfl, .nil, obj, obj', hobj, hobj', hlike, happ⟩
  | ok r =>
    rw [liftE_bind_ok rfl, liftE_bind_ok rfl]
    refine Program.Alike.bind_at (Program.Alike.attempt_at (onObject_likeObjects
      (fun s t => call_sides himpl hblind _ _) hobj hobj' hlike happ)) fun called => ?_
    cases called with
    | ok result =>
      simp only
      split
      · exact .pure ()
      · exact sendResponse_alike env a OP_CALL result
    | error what =>
      simp only
      split
      · exact .pure ()
      · exact sendError_alike env a OP_CALL _ _

/-- A set, a call, or a get that projects something. -/
inductive OnObject (env : Envelope) : Prop
  | get (hop : Op.find env.op = some .get) (hprojects : Projects env.payload)
  | set (hop : Op.find env.op = some .set)
  | call (hop : Op.find env.op = some .call)

omit himpl hblind in
theorem LikeObjects.inGroup {reg : Registry μ} (h : LikeObjects reg a b s t) (group : Key) :
    LikeObjects reg a b (s.inGroup group) (t.inGroup group) := h

theorem dispatch_alike {env : Envelope} (h : OnObject env) :
    Program.Alike (Echoes b) (LikeObjects srv.registry a b)
      (srv.dispatch { env with objectId := a }) (srv.dispatch { env with objectId := b }) := by
  refine .bind (.modify fun s t hst => hst.inGroup env.group) fun _ => ?_
  cases h with
  | get hop hprojects =>
    simp only [hop]
    exact handleGet_alike himpl hblind hprojects
  | set hop =>
    simp only [hop]
    exact handleSet_alike himpl hblind env
  | call hop =>
    simp only [hop]
    exact handleCall_alike himpl hblind env

theorem handleRequest_alike (hbase : srv.upstream = none) {env : Envelope} (h : OnObject env) :
    Program.Alike (Echoes b) (LikeObjects srv.registry a b)
      (srv.handleRequest { env with objectId := a })
      (srv.handleRequest { env with objectId := b }) := by
  unfold Server.handleRequest
  split
  · exact sendError_alike env a _ _ _
  split
  · exact sendError_alike env a _ _ _
  split
  · exact sendError_alike env a _ _ _
  · rw [hbase]
    exact dispatch_alike himpl hblind h

theorem serviceSession_alike (hbase : srv.upstream = none) {env : Envelope} (h : OnObject env) :
    Program.Alike (Echoes b) (LikeObjects srv.registry a b)
      (srv.serviceSession (.ok { env with objectId := a }))
      (srv.serviceSession (.ok { env with objectId := b })) := by
  refine .bind (.attempt (handleRequest_alike himpl hblind hbase h)) fun served => ?_
  cases served with
  | error what => exact sendError_alike env a _ _ _
  | ok u => exact .pure ()

end Replies

/-! ## Runs -/

/-- The frames that say `b` where the others say `a`. -/
theorem frames_echoes {b : Key} {trace trace' : List SessionEffect}
    (h : List.Forall₂ (Echoes b) trace trace') :
    frames trace' = (frames trace).map fun env => { env with objectId := b } := by
  induction h with
  | nil => rfl
  | cons hhead _ ih =>
    cases hhead with
    | ran object object' method => exact ih
    | sent env => exact congrArg (List.cons _) ih

/-- The requests, each about object `id`. -/
def about (id : Key) (envs : List Envelope) : List Arrival :=
  envs.map fun env => .ok { env with objectId := id }

/-- The replies to the requests, each about object `id`. -/
def Server.replies (srv : Server μ σ) (id : Key) (envs : List Envelope) (w : World μ σ) :
    List (List Envelope) :=
  srv.responses w ((about id envs).map Server.Tagged.original)

theorem replies_alike {srv : Server μ σ} {body : MethodBody μ σ} (himpl : srv.impl = body.onWorld)
    (hblind : body.Blind srv.registry) (hbase : srv.upstream = none) {a b : Key}
    {envs : List Envelope} (henvs : ∀ env ∈ envs, OnObject env) {s t : World μ σ}
    (hst : LikeObjects srv.registry a b s t) :
    srv.replies b envs t =
        (srv.replies a envs s).map (List.map fun env => { env with objectId := b }) ∧
      LikeObjects srv.registry a b (srv.served (about a envs) s) (srv.served (about b envs) t) := by
  induction envs generalizing s t with
  | nil => exact ⟨rfl, hst⟩
  | cons env envs ih =>
    obtain ⟨hresult, htrace, hnext⟩ :=
      serviceSession_alike himpl hblind hbase (henvs env (List.mem_cons_self ..)) s t hst
    obtain ⟨hreplies, hlast⟩ := ih (fun env' h => henvs env' (List.mem_cons_of_mem _ h)) hnext
    refine ⟨?_, hlast⟩
    simp only [Server.replies, about, List.map_cons, Server.responses, Server.Tagged.arrival,
      Server.Tagged.isOriginal, if_true, frames_echoes htrace, ← hresult]
    refine congrArg (List.cons _) ?_
    cases (srv.serviceSession (.ok { env with objectId := a }) s).result with
    | ok u => exact hreplies
    | error e => rfl

/-! ## A cleared object and a new one -/

section Fresh

variable {reg : Registry μ} {ns c : Key} {col : Collection μ} {proto : Prototype μ}

theorem OfClass.header {d : Fields} (h : OfClass d ns c) :
    namespaceOf d = .ok ns ∧ classOf d = .ok c := by
  obtain ⟨d', hns⟩ := h.inNamespace
  refine ⟨?_, classOf_key h.isClass⟩
  rw [namespaceOf, hns]
  rfl

theorem OfClass.startOf {d : Fields} (h : OfClass d ns c) (hcol : reg.lookup ns = some col) :
    reg.startOf d = .ok (some (col, c)) := by
  unfold Registry.startOf
  rw [h.header.1, Decoder.ok_bind, hcol]
  simp only [h.header.2, Decoder.ok_bind]

/-- What the class itself declares is found first. -/
theorem Collection.search_leaf {β : Type} {p : Prototype μ → Option β} {v : β}
    (hproto : Collection.find col c = some proto) (hv : p proto = some v) :
    col.search p c = some (some v) := by
  rw [Collection.search, Chase.search, hproto]
  simp only [hv]

/-- Everything resolves to the same in a copy of the prototype and in an object without fields. -/
theorem Instance.Like.fresh (hcol : reg.lookup ns = some col)
    (hproto : Collection.find col c = some proto) (hof : OfClass proto.fields ns c) :
    Instance.Like reg ⟨proto.fields, proto.methods⟩ ⟨instantiate ns c, []⟩ := by
  have hplain := ofClass_instantiate ns c
  refine ⟨⟨⟨?_, ?_⟩, fun k hns hclass => ?_, fun k => ?_⟩,
    ⟨proto.hasClass, .inr proto.hasNamespace⟩, instantiate_headed ns c⟩
  · rw [hplain.header.1, hof.header.1]
  · rw [hplain.header.2, hof.header.2]
  · have hnone : (instantiate ns c).lookup k = none := by
      by_contra hsome
      rcases instantiate_keys ns c k (Option.isSome_iff_ne_none.2 hsome) with h | h
      · exact hclass h
      · exact hns h
    unfold Registry.resolve
    rw [hnone, hplain.startOf hcol, hof.startOf hcol]
    simp only [Decoder.ok_bind]
    cases hown : proto.fields.lookup k with
    | none => rfl
    | some v =>
      rw [Collection.search_leaf (p := fun p => p.fields.lookup k) hproto hown]
  · unfold Registry.resolveMethod
    simp only [List.lookup_nil, hplain.startOf hcol, hof.startOf hcol, Decoder.ok_bind]
    cases hown : proto.methods.lookup k with
    | none => rfl
    | some m =>
      rw [Collection.search_leaf (p := fun p => p.methods.lookup k) hproto hown]

/-- A method that no class of the object declares is not found. -/
theorem OfClass.findMethod_none {d : Fields} (h : OfClass d ns c) {methods : List (Key × μ)}
    {k : Key} (hown : methods.lookup k = none)
    (hnone : reg.inherited (fun p => p.methods.lookup k) ns c = some none) :
    ∃ methods' d', findMethod reg k methods d = .ok ((none, methods'), d') := by
  have hresolve := findMethod_resolve reg k methods d
  have hresolved : reg.resolveMethod d methods k = .ok none := by
    unfold Registry.resolveMethod
    unfold Registry.inherited at hnone
    rw [hown]
    cases hcol : reg.lookup ns with
    | none =>
      simp only [Registry.startOf, h.header.1, Decoder.ok_bind, hcol]
    | some col =>
      simp only [hcol] at hnone
      simp only [h.startOf hcol, Decoder.ok_bind, hnone]
  rw [hresolved] at hresolve
  rcases hfind : findMethod reg k methods d with e | ⟨⟨m, methods'⟩, d'⟩
  · rw [hfind] at hresolve
    cases hresolve
  · rw [hfind] at hresolve
    cases hresolve
    exact ⟨methods', d', rfl⟩

end Fresh

section Requests

variable {srv : Server μ σ} {ns c : Key} {col : Collection μ} {proto : Prototype μ}
  (hcol : srv.registry.lookup ns = some col) (hproto : Collection.find col c = some proto)
  (hheaded : srv.registry.Headed)

include hcol hproto

/-- `clear` makes the object a copy of the prototype. -/
theorem resetObject_run {obj : Instance μ} (hobj : obj.IsA ns c) (w : World μ σ) :
    srv.resetObject (obj, w) = ⟨.ok (), [], (⟨proto.fields, proto.methods⟩, w)⟩ := by
  obtain ⟨declared, fields, hfind, hns⟩ := hobj.findField_namespace srv.registry
  have hclass : onFields (asKey CLASS) (obj, w) = ⟨.ok c, [], (obj, w)⟩ :=
    onFields_run (asKey_of_keyAt hobj.isClass) w
  have hnamespace : onFields (findField srv.registry NAMESPACE) (obj, w) = _ :=
    onFields_run hfind w
  rw [Server.resetObject, Program.bind_ok hclass, Program.bind_ok hnamespace]
  rcases hns with rfl | ⟨rfl, rfl⟩ <;> simp only [Program.modify, hcol, hproto, List.append_nil]

include hheaded

/-- A class without a `__clear` hook: the object is a copy of the prototype. -/
theorem handleClear_run
    (hclear : srv.registry.inherited (fun p => p.methods.lookup HOOK_CLEAR) ns c = some none)
    {env : Envelope} {w : World μ σ} {obj : Instance μ} (hobj : obj.IsA ns c)
    (hstored : w.ctx.objects.lookup env.objectId = some obj) :
    ∃ obj' trace, srv.handleClear env w = ⟨.ok (), trace,
        { w with ctx := w.ctx.storeObject env.objectId obj' }⟩ ∧
      Instance.Like srv.registry obj' ⟨instantiate ns c, []⟩ := by
  have hof := hheaded ns col c proto hcol hproto
  have hown : proto.methods.lookup HOOK_CLEAR = none := by
    by_contra hsome
    obtain ⟨m, hm⟩ := Option.ne_none_iff_exists'.1 hsome
    have hfound := Collection.search_leaf (p := fun p => p.methods.lookup HOOK_CLEAR) hproto hm
    unfold Registry.inherited at hclear
    simp only [hcol, hfound] at hclear
    cases hclear
  obtain ⟨methods, d, hfind⟩ := hof.findMethod_none hown hclear
  have hlike : Instance.Like srv.registry ⟨d, methods⟩ ⟨instantiate ns c, []⟩ := by
    have hfresh := Instance.Like.fresh hcol hproto hof
    have hview : Instance.SameView srv.registry ⟨proto.fields, proto.methods⟩ ⟨d, methods⟩ :=
      findMethod_sameView hfind
    exact hfresh.step hview (.refl _) (hfresh.left.findMethod hfind) hfresh.right
  have hhook : findMethodM srv.registry HOOK_CLEAR (⟨proto.fields, proto.methods⟩, w) =
      ⟨.ok none, [], (⟨d, methods⟩, w)⟩ := findMethodM_run hfind w
  have hrun : (do
      srv.resetObject
      let _ ← runHook srv.registry srv.impl env.objectId HOOK_CLEAR Dynamic.empty :
        ObjectM μ σ Unit) (obj, w) = ⟨.ok (), [], (⟨d, methods⟩, w)⟩ := by
    rw [Program.bind_ok (resetObject_run hcol hproto hobj w), runHook, Program.bind_assoc,
      Program.bind_ok hhook]
    rfl
  unfold Server.handleClear
  rw [withObject_found hstored]
  have hobject : onObject env.objectId obj (do
      srv.resetObject
      let _ ← runHook srv.registry srv.impl env.objectId HOOK_CLEAR Dynamic.empty) w =
        ⟨.ok (), [], { w with ctx := w.ctx.storeObject env.objectId ⟨d, methods⟩ }⟩ := by
    rw [onObject, hrun]
  rw [Program.bind_ok hobject]
  exact ⟨⟨d, methods⟩, _, rfl, hlike⟩

omit hheaded in
/-- A class without a `__construct` hook that makes plain instances: the object is new. -/
theorem handleInstantiate_run (hcreate : srv.onCreateObject = createObject srv.registry)
    (hmakes : createInstance srv.registry ns c = .ok (some (instantiate ns c)))
    (hconstruct :
      srv.registry.inherited (fun p => p.methods.lookup HOOK_CONSTRUCT) ns c = some none)
    {env : Envelope} (hklass : keyAt env.payload FIELD_KLASS = some c)
    (hns : keyAt env.payload FIELD_NAMESPACE = some ns) (w : World μ σ) :
    ∃ obj trace, srv.handleInstantiate env w = ⟨.ok (), trace,
        { w with ctx := w.ctx.putObject (w.ids w.drawn) obj, drawn := w.drawn + 1 }⟩ ∧
      Instance.SameView srv.registry ⟨instantiate ns c, []⟩ obj ∧ HeaderKeyed obj.fields := by
  have hcheck : srv.onCheckClass ns c = true := by
    simp only [Server.onCheckClass, hcol, hproto, Option.isSome_some]
  have hcreated : srv.onCreateObject ns c w = (.ok (some ⟨instantiate ns c, []⟩), w) := by
    rw [hcreate, createObject, hmakes]
    rfl
  have hmade : tryCatch (external (srv.onCreateObject ns c)) w = _ :=
    tryCatch_ok (external_run hcreated)
  obtain ⟨methods, d, hfind⟩ :=
    (ofClass_instantiate ns c).findMethod_none List.lookup_nil hconstruct
  have hhook : withNewObject ⟨instantiate ns c, []⟩ (srv.constructHook env.payload) w =
      ⟨.ok (.ok (), ⟨d, methods⟩), [], w⟩ := by
    have hnone : findMethodM srv.registry HOOK_CONSTRUCT (⟨instantiate ns c, []⟩, w) =
      ⟨.ok none, [], (⟨d, methods⟩, w)⟩ := findMethodM_run hfind w
    rw [withNewObject, Server.constructHook, Program.bind_ok hnone]
    rfl
  have hview : Instance.SameView srv.registry ⟨instantiate ns c, []⟩ ⟨d, methods⟩ :=
    findMethod_sameView hfind
  unfold Server.handleInstantiate
  rw [liftE_bind_ok (asKey_of_keyAt hklass)]
  simp only
  rw [liftE_bind_ok (namedNamespace_key hns)]
  simp only [if_pos hcheck]
  rw [Program.bind_ok hmade]
  simp only
  rw [Program.bind_ok hhook]
  exact ⟨⟨d, methods⟩, _, rfl, hview, (instantiate_headed ns c).findMethod hfind⟩

end Requests

/-- A request for the operation. -/
structure Envelope.Asks (env : Envelope) (o : Op) : Prop where
  kind : env.kind = KIND_REQUEST
  version : env.version = PROTOCOL_VERSION
  op : Op.find env.op = some o

theorem Envelope.Asks.served {srv : Server μ σ} (hbase : srv.upstream = none) {env : Envelope}
    {o : Op} (h : env.Asks o) {w w' : World μ σ} {trace : List SessionEffect}
    (hrun : srv.handle env o (w.inGroup env.group) = ⟨.ok (), trace, w'⟩) :
    (srv.serviceSession (.ok env) w).state = w' := by
  have hrequest := srv.handleRequest_local h.kind h.version h.op (fun _ => hbase) w
  rw [srv.serviceSession_ok (hrequest.trans hrun)]

/-- **Main result**: for a class without the hooks that makes plain instances, the replies about an
object that has been cleared are those about a new one, and the two stay alike. -/
theorem clear_like_new {srv : Server μ σ} {body : MethodBody μ σ} (himpl : srv.impl = body.onWorld)
    (hblind : body.Blind srv.registry) (hbase : srv.upstream = none)
    (hcreate : srv.onCreateObject = createObject srv.registry) (hheaded : srv.registry.Headed)
    {ns c : Key} (hmakes : createInstance srv.registry ns c = .ok (some (instantiate ns c)))
    (hconstruct :
      srv.registry.inherited (fun p => p.methods.lookup HOOK_CONSTRUCT) ns c = some none)
    (hclear : srv.registry.inherited (fun p => p.methods.lookup HOOK_CLEAR) ns c = some none)
    {w w' : World μ σ} (happ : w.app = w'.app)
    {clear : Envelope} (hclears : clear.Asks .clear) {obj : Instance μ} (hisA : obj.IsA ns c)
    (hobj : w.ctx.objects.lookup clear.objectId = some obj)
    {make : Envelope} (hmake : make.Asks .instantiate)
    (hklass : keyAt make.payload FIELD_KLASS = some c)
    (hns : keyAt make.payload FIELD_NAMESPACE = some ns)
    {envs : List Envelope} (henvs : ∀ env ∈ envs, OnObject env) :
    let a := clear.objectId
    let b := w'.ids w'.drawn
    let s := (srv.serviceSession (.ok clear) w).state
    let t := (srv.serviceSession (.ok make) w').state
    srv.replies b envs t =
        (srv.replies a envs s).map (List.map fun env => { env with objectId := b }) ∧
      LikeObjects srv.registry a b (srv.served (about a envs) s) (srv.served (about b envs) t) := by
  intro a b s t
  obtain ⟨col, proto, hcol, hproto⟩ : ∃ col proto, srv.registry.lookup ns = some col ∧
      Collection.find col c = some proto := by
    unfold createInstance at hmakes
    cases hcol : srv.registry.lookup ns with
    | none =>
      rw [hcol] at hmakes
      cases hmakes
    | some col =>
      rw [hcol] at hmakes
      cases hproto : Collection.find col c with
      | none =>
        simp only [hproto] at hmakes
        cases hmakes
      | some proto => exact ⟨col, proto, rfl, hproto⟩
  obtain ⟨cleared, trace, hrun, hlike⟩ := handleClear_run hcol hproto hheaded hclear
    (w := w.inGroup clear.group) hisA hobj
  obtain ⟨made, trace', hrun', hview, hkeyed⟩ := handleInstantiate_run hcol hproto hcreate hmakes
    hconstruct hklass hns (w'.inGroup make.group)
  have hs : s = _ := hclears.served hbase hrun
  have ht : t = _ := hmake.served hbase hrun'
  refine replies_alike himpl hblind hbase henvs ⟨cleared, made, ?_, ?_,
    hlike.step (.refl _) hview hlike.left hkeyed, ?_⟩
  · have hstored : (w.inGroup clear.group).ctx.objects.lookup clear.objectId = some obj := hobj
    rw [hs]
    refine (Context.lookup_storeObject _ _ _ _).trans ?_
    rw [if_pos rfl, hstored]
    rfl
  · rw [ht]
    exact (Context.lookup_putObject _ _ _ _).trans (if_pos rfl)
  · rw [hs, ht]
    exact happ

/-! ## Requests that tell them apart -/

/-- A class with one field and one method. -/
def counted : Prototype Unit := { Server.classSix with methods := [(4, ())] }

/-- The same class, whose factory sets the field. -/
def manufactured : Prototype Unit :=
  { counted with
    factory := some (.ok (some [(9, .int32 5), (CLASS, .key 6), (NAMESPACE, .key 0)]))
    factorySorted := by
      rintro d ⟨⟩
      decide
    factoryThrows := by
      rintro e ⟨⟩ }

/-- A server whose method says how many fields its object holds. -/
def counting (proto : Prototype Unit) : Server Unit Unit where
  registry := [(0, [(6, proto)])]
  impl := fun _ _ s => (.ok [(9, .key (UInt32.ofNat s.1.fields.length))], s)

def counter : World Unit Unit where
  ctx := { objects := .insert 1 ⟨[(CLASS, .key 6), (NAMESPACE, .key 0)], []⟩ ∅ }
  app := ()
  ids := fun n => UInt32.ofNat (n + 2)

def clearOne : Envelope := { kind := KIND_REQUEST, op := OP_CLEAR, objectId := 1 }

def makeOne : Envelope :=
  { kind := KIND_REQUEST, op := OP_INSTANTIATE
    payload := ObjectRequest.instantiatePayload 0 6 Dynamic.empty }

/-- The payloads of the replies to a request about the cleared object, and about the new one. -/
def afterClear (proto : Prototype Unit) (env : Envelope) : List (List Fields) :=
  let srv := counting proto
  (srv.replies 1 [env] (srv.serviceSession (.ok clearOne) counter).state).map
    (List.map Envelope.payload)

def afterMake (proto : Prototype Unit) (env : Envelope) : List (List Fields) :=
  let srv := counting proto
  (srv.replies 2 [env] (srv.serviceSession (.ok makeOne) counter).state).map
    (List.map Envelope.payload)

def getAll : Envelope := { kind := KIND_REQUEST, op := OP_GET }

def getNine : Envelope :=
  { kind := KIND_REQUEST, op := OP_GET, payload := [(9, .monostate)] }

def callFour : Envelope :=
  { kind := KIND_REQUEST, op := OP_CALL
    payload := [(FIELD_PARAMS, .object Dynamic.empty), (FIELD_NAME, .key 4)] }

/-- A full get shows what the object itself holds, a method may look at it, and a factory may make
what the prototype does not have. -/
theorem clear_full_get :
    afterClear counted getAll ≠ afterMake counted getAll ∧
      afterClear counted callFour ≠ afterMake counted callFour ∧
      afterClear manufactured getNine ≠ afterMake manufactured getNine := by
  refine ⟨fun h => ?_, fun h => ?_, fun h => ?_⟩
  · have hsizes := congrArg (List.map (List.map List.length)) h
    have hcleared : (afterClear counted getAll).map (List.map List.length) = [[4]] := rfl
    have hnew : (afterMake counted getAll).map (List.map List.length) = [[2]] := rfl
    rw [hcleared, hnew] at hsizes
    cases hsizes
  · have hvalues := congrArg (List.map (List.map fun reply => reply.lookup 9)) h
    have hcleared : (afterClear counted callFour).map (List.map fun reply => reply.lookup 9) =
      [[some (.key 4)]] := rfl
    have hnew : (afterMake counted callFour).map (List.map fun reply => reply.lookup 9) =
      [[some (.key 2)]] := rfl
    rw [hcleared, hnew] at hvalues
    cases hvalues
  · have hvalues := congrArg (List.map (List.map fun reply => reply.lookup 9)) h
    have hcleared : (afterClear manufactured getNine).map
      (List.map fun reply => reply.lookup 9) = [[some (.int32 2)]] := rfl
    have hnew : (afterMake manufactured getNine).map (List.map fun reply => reply.lookup 9) =
      [[some (.int32 5)]] := rfl
    rw [hcleared, hnew] at hvalues
    cases hvalues

def echo : MethodBody Unit Unit := fun _ params s => (.ok params, s)

/-- The same server, whose method gives back its parameters. -/
def echoing : Server Unit Unit := { counting counted with impl := echo.onWorld }

theorem echoing_headed : echoing.registry.Headed := by
  intro ns col c p hcol hp
  obtain ⟨hns, rfl⟩ := Prod.mk.inj (List.mem_singleton.mp (mem_of_lookup hcol))
  obtain ⟨hc, rfl⟩ := Prod.mk.inj (List.mem_singleton.mp (mem_of_lookup hp))
  subst hns
  subst hc
  exact ⟨rfl, _, rfl⟩

def setNine : Envelope :=
  { kind := KIND_REQUEST, op := OP_SET, payload := [(9, .int32 3)] }

theorem clear_like_new_echoing :
    let s := (echoing.serviceSession (.ok clearOne) counter).state
    let t := (echoing.serviceSession (.ok makeOne) counter).state
    echoing.replies 2 [getNine, setNine, callFour, getNine] t =
        (echoing.replies 1 [getNine, setNine, callFour, getNine] s).map
          (List.map fun env => { env with objectId := 2 }) ∧
      LikeObjects echoing.registry 1 2
        (echoing.served (about 1 [getNine, setNine, callFour, getNine]) s)
        (echoing.served (about 2 [getNine, setNine, callFour, getNine]) t) := by
  have hblind : echo.Blind echoing.registry := fun _ _ _ _ _ hlike => ⟨rfl, rfl, hlike⟩
  have hmakes : createInstance echoing.registry 0 6 = .ok (some (instantiate 0 6)) := rfl
  have hisA : Instance.IsA (⟨[(CLASS, .key 6), (NAMESPACE, .key 0)], []⟩ : Instance Unit) 0 6 :=
    ⟨rfl, _, rfl⟩
  refine clear_like_new rfl hblind rfl rfl echoing_headed hmakes rfl rfl rfl ⟨rfl, rfl, rfl⟩ hisA
    rfl ⟨rfl, rfl, rfl⟩ (by decide) (by decide) ?_
  have hprojects : Projects getNine.payload := by
    unfold Projects
    decide
  intro env henv
  rcases List.mem_cons.1 henv with rfl | henv
  · exact .get rfl hprojects
  rcases List.mem_cons.1 henv with rfl | henv
  · exact .set rfl
  rcases List.mem_cons.1 henv with rfl | henv
  · exact .call rfl
  · rw [List.mem_singleton.1 henv]
    exact .get rfl hprojects

end Bison
