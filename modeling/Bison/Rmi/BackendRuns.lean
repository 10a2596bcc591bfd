import Bison.Lib.Machine
import Bison.Rmi.Backends
import Bison.Rmi.Destruct

/-!
# Runs of two backends

A client asks both backends for the same, request by request, and names its objects by the ids
that each has given it.

- `ClassLibrary.step`: one request on either side, and the pair of ids that its answers give out.
- `ClassLibrary.together`: one request is answered alike, or neither side returns.
- `BackendPair.standalone_refines`: **main result**, so are the requests of any run, and the tables
  hold the same objects after each.
- `count_sees_namespace`: a method can tell parameters that came over the wire from others.
-/

namespace Bison

open SortedMap

variable {μ σ : Type}

/-! ## New objects -/

/-- The search for a method along the class chain of an object that holds its class and namespace
as keys ends in a class that has the method, or in none, or does not end. -/
theorem findMethod_headed (reg : Registry μ) (name : Key) {d : Fields} (h : HeaderKeyed d) :
    findMethod reg name [] d = .error .diverges ∨
      (∃ methods d', findMethod reg name [] d = .ok ((none, methods), d')) ∨
      ∃ m methods d', findMethod reg name [] d = .ok ((some m, methods), d') ∧
        ∃ ns col klass proto, reg.lookup ns = some col ∧ Collection.find col klass = some proto ∧
          proto.methods.lookup name = some m := by
  obtain ⟨hclass, hns⟩ := h
  obtain ⟨c, hc⟩ := Option.isSome_iff_exists.1 hclass
  have hresolved : ∃ ns d', resolveNamespace d = .ok (ns, d') := by
    unfold resolveNamespace
    rcases hns with hnone | hkey
    · rw [hnone]
      exact ⟨_, _, rfl⟩
    · obtain ⟨ns, hns⟩ := Option.isSome_iff_exists.1 hkey
      rw [keyAt_eq_some_iff.1 hns]
      exact ⟨_, _, rfl⟩
  obtain ⟨ns, d', hresolve⟩ := hresolved
  have hc' := asKey_of_keyAt ((resolveNamespace_keeps hresolve).keyAt _ _ hc)
  simp only [findMethod, List.lookup_nil, walkStart, hresolve, Decoder.ok_bind]
  cases hcol : reg.lookup ns with
  | none => exact .inr (.inl ⟨_, _, rfl⟩)
  | some col =>
    simp only [hc', Decoder.ok_bind]
    cases hsearch : col.search (fun p => p.methods.lookup name) c with
    | none => exact .inl rfl
    | some found =>
      cases found with
      | none => exact .inr (.inl ⟨_, _, rfl⟩)
      | some m =>
        obtain ⟨k, proto, hfind, hm⟩ := Chase.exists_of_search hsearch
        exact .inr (.inr ⟨_, _, _, rfl, ns, col, k, proto, hcol, hfind, hm⟩)

theorem instantiate_headed (ns klass : Key) : HeaderKeyed (instantiate ns klass) := by
  unfold instantiate HeaderKeyed
  split_ifs with hns
  · rw [keyAt_insert, if_neg CLASS_ne_NAMESPACE, keyAt_insert, if_pos rfl]
    exact ⟨rfl, .inr rfl⟩
  · exact ⟨rfl, .inl rfl⟩

namespace ClassLibrary

variable (lib : ClassLibrary μ σ)

/-- What a registered class makes. -/
theorem createInstance_cases {ns klass : Key} (h : lib.standalone.registered ns klass = true) :
    (∃ e, createInstance lib.registry ns klass = .error e) ∨
      ∃ fields, createInstance lib.registry ns klass = .ok (some fields) ∧ HeaderKeyed fields := by
  unfold Standalone.registered at h
  unfold createInstance
  cases hcol : lib.registry.lookup ns with
  | none =>
    simp only [standalone, hcol] at h
    cases h
  | some col =>
    simp only [standalone, hcol] at h
    obtain ⟨proto, hproto⟩ := Option.isSome_iff_exists.1 h
    simp only [hproto]
    cases hfactory : proto.factory with
    | none => exact .inr ⟨_, rfl, instantiate_headed ns klass⟩
    | some outcome =>
      cases outcome with
      | error e => exact .inl ⟨e, rfl⟩
      | ok made =>
        obtain ⟨fields, rfl, hheaded⟩ := lib.makes ns col klass proto made hcol hproto hfactory
        exact .inr ⟨fields, rfl, hheaded⟩

/-- Constructing a new object succeeds, or does not return. -/
theorem construct_returns {fields : Fields} (h : HeaderKeyed fields) (id : Key) (params : Fields)
    (w : World μ σ) :
    (lib.standalone.construct id params (⟨fields, []⟩, w)).result = .ok () ∨
      (lib.standalone.construct id params (⟨fields, []⟩, w)).result = .error .hangs := by
  unfold Standalone.construct
  rcases findMethod_headed lib.registry HOOK_CONSTRUCT h with
    hfind | ⟨methods, d', hfind⟩ | ⟨m, methods, d', hfind, ns, col, klass, proto, hcol, hproto, hm⟩
  · rw [Program.bind_error (findMethodM_error hfind w)]
    exact .inr rfl
  · rw [Program.bind_ok (findMethodM_run hfind w)]
    exact .inl rfl
  · obtain ⟨r, hr⟩ :=
      lib.constructs ns col klass proto m hcol hproto hm params (⟨d', methods⟩, w.app)
    have hrun : (lib.body.onWorld m params (⟨d', methods⟩, w)).1 = .ok r := hr
    have hcall : call lib.registry lib.body.onWorld id HOOK_CONSTRUCT params
        (⟨d', methods⟩, w) = _ := call_found (findMethod_again hfind) id params w
    rw [hrun] at hcall
    have hbody := Program.bind_ok hcall fun _ => (pure () : ObjectM μ σ Unit)
    rw [Program.bind_ok (findMethodM_run hfind w)]
    exact .inl (congrArg Program.Outcome.result hbody)

/-- The `__construct` hook does the same on either side, where the server is sent the same
parameters. -/
theorem construct_alike {s t : World μ σ} (id : Key) {payload params : Fields}
    (h : payload.lookup FIELD_PARAMS = some (.object params)) :
    Program.Alike SameRun (Beside s t) (lib.standalone.construct id params)
      (lib.server.constructHook payload >>= rethrow) := by
  have hparams : subscript lib.registry FIELD_PARAMS payload = .ok (.object params, payload) := by
    have hfind : findField lib.registry FIELD_PARAMS payload =
        .ok (some (.object params), payload) := by
      rw [findField, h]
    rw [subscript, Decoder.bind_ok hfind]
    rfl
  unfold Standalone.construct Server.constructHook
  rw [Program.bind_assoc]
  refine .bind (findMethodM_alike _ _) fun found => ?_
  cases found with
  | none => exact .pure ()
  | some m =>
    rw [tryCatch_rethrow]
    have hbody := funext (liftE_bind_ok (τ := Instance μ × World μ σ) hparams fun found => do
      let _ ← call lib.server.registry lib.server.impl none HOOK_CONSTRUCT (pointee found.1))
    refine Eq.mpr (congrArg _ hbody) ?_
    exact .bind (call_alike _ _ _ _ _ _) fun _ => .pure ()

end ClassLibrary

/-- At most one id has been drawn. -/
structure Advanced (w w' : World μ σ) : Prop where
  ids : w'.ids = w.ids
  drawn : w.drawn ≤ w'.drawn
  once : w'.drawn ≤ w.drawn + 1

/-- An object has been stored under the id generated last. -/
structure Stored (w w' : World μ σ) (obj : Instance μ) (app : σ) : Prop where
  ids : w'.ids = w.ids
  drawn : w'.drawn = w.drawn + 1
  app : w'.app = app
  lookup : ∀ k, w'.ctx.objects.lookup k =
    if k = w.ids w.drawn then some obj else w.ctx.objects.lookup k

theorem Stored.advanced {w w' : World μ σ} {obj : Instance μ} {app : σ} (h : Stored w w' obj app) :
    Advanced w w' :=
  ⟨h.ids, h.drawn ▸ Nat.le_succ _, h.drawn.le⟩

/-- The object is stored under the next id, before it is constructed. -/
def World.holding (w : World μ σ) (obj : Instance μ) : World μ σ :=
  { w with
    drawn := w.drawn + 1
    ctx := { w.ctx with objects := w.ctx.objects.insert (w.ids w.drawn) obj } }

/-- Its hook has been run. -/
def World.constructed (w : World μ σ) (id : Key) (obj : Instance μ) (app : σ) : World μ σ :=
  { w with app, ctx := w.ctx.storeObject id obj }

theorem stored_constructed (w : World μ σ) (made obj : Instance μ) (app : σ) :
    Stored w ((w.holding made).constructed (w.ids w.drawn) obj app) obj app where
  ids := rfl
  drawn := rfl
  app := rfl
  lookup k := by
    have hheld (k : Key) : (w.holding made).ctx.objects.lookup k =
        if k = w.ids w.drawn then some made else w.ctx.objects.lookup k :=
      FinMap.lookup_insert _ _ _ _
    refine (Context.lookup_storeObject _ _ _ _).trans ?_
    rw [hheld, hheld, if_pos rfl]
    split_ifs <;> rfl

theorem stored_filed (w : World μ σ) (obj : Instance μ) (app : σ) :
    Stored w { w with
      app
      drawn := w.drawn + 1
      ctx := w.ctx.putObject (w.ids w.drawn) obj } obj app where
  ids := rfl
  drawn := rfl
  app := rfl
  lookup k := Context.lookup_putObject w.ctx _ k obj

theorem Paired.stored {given : List (Key × Key)} {s t s' t' : World μ σ} {obj : Instance μ}
    {app : σ} (h : Paired given s t) (hs : Stored s s' obj app) (ht : Stored t t' obj app)
    (hleft : s.ids s.drawn ∉ given.map Prod.fst) (hright : t.ids t.drawn ∉ given.map Prod.snd) :
    Paired ((s.ids s.drawn, t.ids t.drawn) :: given) s' t' where
  same ids hids := by
    rw [hs.lookup, ht.lookup]
    rcases List.mem_cons.1 hids with rfl | hids
    · rw [if_pos rfl, if_pos rfl]
    · have hne : ids.1 ≠ s.ids s.drawn := fun heq => hleft (heq ▸ List.mem_map_of_mem hids)
      have hne' : ids.2 ≠ t.ids t.drawn := fun heq => hright (heq ▸ List.mem_map_of_mem hids)
      rw [if_neg hne, if_neg hne', h.same ids hids]
  left k hk := by
    rw [hs.lookup] at hk
    split_ifs at hk with heq
    · rw [heq]
      exact List.mem_cons_self ..
    · exact List.mem_cons_of_mem _ (h.left k hk)
  right k hk := by
    rw [ht.lookup] at hk
    split_ifs at hk with heq
    · rw [heq]
      exact List.mem_cons_self ..
    · exact List.mem_cons_of_mem _ (h.right k hk)
  app := ht.app.trans hs.app.symm
  drawnLeft k hk := by
    rw [hs.ids, hs.drawn]
    rcases List.mem_cons.1 hk with rfl | hk
    · exact ⟨s.drawn, Nat.lt_succ_self _, rfl⟩
    · obtain ⟨n, hn, heq⟩ := h.drawnLeft k hk
      exact ⟨n, Nat.lt_succ_of_lt hn, heq⟩
  drawnRight k hk := by
    rw [ht.ids, ht.drawn]
    rcases List.mem_cons.1 hk with rfl | hk
    · exact ⟨t.drawn, Nat.lt_succ_self _, rfl⟩
    · obtain ⟨n, hn, heq⟩ := h.drawnRight k hk
      exact ⟨n, Nat.lt_succ_of_lt hn, heq⟩
  nodupLeft := List.nodup_cons.2 ⟨hleft, h.nodupLeft⟩
  nodupRight := List.nodup_cons.2 ⟨hright, h.nodupRight⟩

/-- How an `instantiate` ends on the two sides: with an object each, with an error, or not at
all. -/
inductive Instantiates (env : Envelope) (klass : Key) (s t : World μ σ) :
    Program.Outcome Failure SessionEffect (World μ σ) Fields →
    Program.Outcome Failure SessionEffect (World μ σ) Unit → Prop where
  | created {trace trace' s' t'} (obj : Instance μ) (app : σ)
      (hsent : frames trace' =
        [responseEnvelope env OP_INSTANTIATE (instantiateReply (t.ids t.drawn) klass)])
      (hs : Stored s s' obj app) (ht : Stored t t' obj app) :
      Instantiates env klass s t ⟨.ok (instantiateReply (s.ids s.drawn) klass), trace, s'⟩
        ⟨.ok (), trace', t'⟩
  | refused {what trace} (n : Nat) (code : Key) (message : Text) (hcode : code ≠ 0) (hn : n ≤ 1) :
      Instantiates env klass s t
        ⟨.error (.thrown what), trace, { s with drawn := s.drawn + n }⟩
        ⟨.ok (), [.sent (errorEnvelope env OP_INSTANTIATE code message)], t⟩
  | hangs {trace trace' s' t'} :
      Instantiates env klass s t ⟨.error .hangs, trace, s'⟩ ⟨.error .hangs, trace', t'⟩

theorem rethrow_ok {τ α : Type} {q : Program Failure SessionEffect τ (Except Text α)} {s s' : τ}
    {a : α} {trace : List SessionEffect} (h : (q >>= rethrow) s = ⟨.ok a, trace, s'⟩) :
    q s = ⟨.ok (.ok a), trace, s'⟩ := by
  rw [Program.bind_run] at h
  rcases hrun : q s with ⟨e | what | r, trace', s''⟩ <;> rw [hrun] at h
  · cases h
  · cases h
  · simpa [Program.andThen, rethrow, Program.pure_run] using h

theorem rethrow_hangs {τ α : Type} {q : Program Failure SessionEffect τ (Except Text α)} {s s' : τ}
    {trace : List SessionEffect} (h : (q >>= rethrow) s = ⟨.error .hangs, trace, s'⟩) :
    q s = ⟨.error .hangs, trace, s'⟩ := by
  rw [Program.bind_run] at h
  rcases hrun : q s with ⟨e | what | r, trace', s''⟩ <;> rw [hrun] at h
  · cases h
    rfl
  · cases h
  · cases h

namespace ClassLibrary

variable (lib : ClassLibrary μ σ) {given : List (Key × Key)} {s t : World μ σ} {env : Envelope}
  {ns klass : Key} {params : Fields}

/-- What follows once both have made the object. -/
theorem storeObject_instantiates (h : Paired given s t) {fields : Fields}
    (hheaded : HeaderKeyed fields)
    (hparams : env.payload.lookup FIELD_PARAMS = some (.object params)) :
    Instantiates env klass s t
      ((do
        modifyCtx fun ctx =>
          { ctx with objects := ctx.objects.insert (s.ids s.drawn) ⟨fields, []⟩ }
        onObject (s.ids s.drawn) ⟨fields, []⟩
          (lib.standalone.construct (s.ids s.drawn) params)
        return instantiateReply (s.ids s.drawn) klass : ServerM μ σ Fields)
          { s with drawn := s.drawn + 1 })
      ((do
        match ← withNewObject ⟨fields, []⟩ (lib.server.constructHook env.payload) with
        | (.error what, _) =>
          sendError env OP_INSTANTIATE ERR_INTERNAL_ERROR (ascii "__construct failed: " ++ what)
        | (.ok (), obj) =>
          let id ← fileObject obj
          sendResponse env OP_INSTANTIATE (instantiateReply id klass) : ServerM μ σ Unit) t) := by
  have hholding : modifyCtx (fun ctx =>
      { ctx with objects := ctx.objects.insert (s.ids s.drawn) (⟨fields, []⟩ : Instance μ) })
      { s with drawn := s.drawn + 1 } = ⟨.ok (), [], s.holding ⟨fields, []⟩⟩ := rfl
  rw [Program.bind_ok hholding]
  have hbeside : Beside (s.holding ⟨fields, []⟩) t (⟨fields, []⟩, s.holding ⟨fields, []⟩)
      (⟨fields, []⟩, t) := ⟨_, s.app, rfl, by rw [← h.app]⟩
  obtain ⟨hresult, htrace, obj, app, hleft, hright⟩ :=
    lib.construct_alike (s.ids s.drawn) hparams _ _ hbeside
  have hreturns := lib.construct_returns hheaded (s.ids s.drawn) params
    (s.holding ⟨fields, []⟩)
  rcases hrun : lib.standalone.construct (s.ids s.drawn) params
    (⟨fields, []⟩, s.holding ⟨fields, []⟩) with ⟨result, trace, object, world⟩
  rcases hrun' : (lib.server.constructHook env.payload >>= rethrow) (⟨fields, []⟩, t) with
    ⟨result', trace', object', world'⟩
  rw [hrun, hrun'] at hresult htrace
  rw [hrun] at hleft hreturns
  rw [hrun'] at hright
  cases hleft
  cases hright
  cases hresult
  rcases hreturns with rfl | rfl
  · have hobject : onObject (s.ids s.drawn) ⟨fields, []⟩
        (lib.standalone.construct (s.ids s.drawn) params) (s.holding ⟨fields, []⟩) =
          ⟨.ok (), trace, (s.holding ⟨fields, []⟩).constructed (s.ids s.drawn) obj app⟩ := by
      rw [onObject, hrun]
      rfl
    have hnew : withNewObject ⟨fields, []⟩ (lib.server.constructHook env.payload) t =
        ⟨.ok (.ok (), obj), trace', { t with app }⟩ := by
      rw [withNewObject, rethrow_ok hrun']
    rw [Program.bind_ok hobject, Program.bind_ok hnew]
    have hsilent := SameRun.frames_eq_nil htrace
    refine .created obj app ?_ (stored_constructed s _ obj app) (stored_filed t obj app)
    simp only [frames_append, hsilent, List.nil_append]
    rfl
  · have hobject : onObject (s.ids s.drawn) ⟨fields, []⟩
        (lib.standalone.construct (s.ids s.drawn) params) (s.holding ⟨fields, []⟩) =
          ⟨.error .hangs, trace, (s.holding ⟨fields, []⟩).constructed (s.ids s.drawn) obj app⟩ := by
      rw [onObject, hrun]
      rfl
    have hnew : withNewObject ⟨fields, []⟩ (lib.server.constructHook env.payload) t =
        ⟨.error .hangs, trace', { t with app }⟩ := by
      rw [withNewObject, rethrow_hangs hrun']
    rw [Program.bind_error hobject, Program.bind_error hnew]
    exact .hangs

theorem handleInstantiate_instantiates (h : Paired given s t)
    (hklass : keyAt env.payload FIELD_KLASS = some klass)
    (hns : keyAt env.payload FIELD_NAMESPACE = some ns)
    (hparams : env.payload.lookup FIELD_PARAMS = some (.object params)) :
    Instantiates env klass s t (lib.standalone.handleInstantiate ns klass params s)
      (lib.server.handleInstantiate env t) := by
  have hnamed : namedNamespace lib.registry env.payload = .ok (.ok ns, env.payload) :=
    namedNamespace_key hns
  have hcheck : lib.server.onCheckClass ns klass = lib.standalone.registered ns klass := rfl
  unfold Standalone.handleInstantiate Server.handleInstantiate
  rw [liftE_bind_ok (asKey_of_keyAt hklass)]
  simp only
  rw [liftE_bind_ok (r := namedNamespace lib.server.registry env.payload) hnamed]
  simp only [hcheck]
  by_cases hreg : lib.standalone.registered ns klass = true
  · rw [if_pos hreg, if_pos hreg, Program.bind_ok (Server.generateId_run s)]
    rcases lib.createInstance_cases hreg with ⟨e, hmade⟩ | ⟨fields, hmade, hheaded⟩
    · -- The factory throws.
      have hcreate (w : World μ σ) : createObject lib.registry ns klass w =
          (.error ((Failure.ofExn e).what.getD []), w) := by
        rw [createObject, hmade]
      have hleft : external (lib.standalone.onCreateObject ns klass)
          { s with drawn := s.drawn + 1 } = _ := external_run (hcreate _)
      have hright : tryCatch (external (lib.server.onCreateObject ns klass)) t = _ :=
        tryCatch_mapError (external_run (hcreate t))
      rw [Program.bind_error hleft, Program.bind_ok hright]
      exact .refused 1 _ _ (by decide) (le_refl 1)
    · have hcreate (w : World μ σ) : createObject lib.registry ns klass w =
          (.ok (some ⟨fields, []⟩), w) := by
        rw [createObject, hmade]
        rfl
      have hleft : external (lib.standalone.onCreateObject ns klass)
          { s with drawn := s.drawn + 1 } = _ := external_run (hcreate _)
      have hright : tryCatch (external (lib.server.onCreateObject ns klass)) t = _ :=
        tryCatch_mapError (external_run (hcreate t))
      rw [Program.bind_ok hleft, Program.bind_ok hright]
      exact lib.storeObject_instantiates h hheaded hparams
  · rw [if_neg hreg, if_neg hreg]
    exact .refused 0 _ _ (by decide) (Nat.zero_le 1)

end ClassLibrary

/-! ## One request -/

namespace ObjectRequest

variable {ι : Type}

/-- The id in the answer to an `instantiate`: `result.as<key_t>(FIELD_OBJECT_ID)`. -/
def newId (payload : Fields) : Key := (keyAt payload FIELD_OBJECT_ID).getD 0

/-- The ids that the answers to a request give out together. -/
def gives : ObjectRequest ι → Except Text Fields → Except Text Fields → List (Key × Key)
  | instantiate _ _ _, .ok payload, .ok payload' => [(newId payload, newId payload')]
  | _, _, _ => []

/-- The second payload is the first as it comes out of the wire, but for the id of a new object. -/
def SamePayload : ObjectRequest ι → Fields → Fields → Prop
  | instantiate _ klass _, payload, payload' =>
    ∃ a b, payload = instantiateReply a klass ∧ payload' = instantiateReply b klass
  | _, payload, payload' => payload' = completeEntries payload

/-- Two successes with the same payload, or two failures. -/
def SameAnswer (r : ObjectRequest ι) : Except Text Fields → Except Text Fields → Prop
  | .ok payload, .ok payload' => r.SamePayload payload payload'
  | .error _, .error _ => True
  | _, _ => False

/-- The client names an object to both, or one that neither has given out. -/
def Names (given : List (Key × Key)) (r : ObjectRequest (Key × Key)) : Prop :=
  ∀ ids, r.target = some ids → Named given ids

end ObjectRequest

namespace ClassLibrary

variable (lib : ClassLibrary μ σ) {ν : Type}

/-- What the future of a request to the standalone backend gives, if the worker returns. -/
def inProcess (r : ObjectRequest Key) (s : World μ σ) : Option (Except Text Fields × World μ σ) :=
  match lib.standalone.serve r s with
  | ⟨.ok payload, _, s⟩ => some (.ok payload, s)
  | ⟨.error (.thrown what), _, s⟩ => some (.error what, s)
  | ⟨.error .hangs, _, _⟩ => none

/-- What the future of a request to the server gives, if the dispatch worker returns. -/
def remote (reg : Registry ν) (requestId : Key) (r : ObjectRequest Key) (t : World μ σ) :
    Option (Except Text Fields × World μ σ) :=
  match lib.server.serviceSession (.ok (r.envelope requestId).crossed) t with
  | ⟨.ok (), trace, t⟩ => some (awaited reg (r.envelope requestId) (frames trace), t)
  | ⟨.error _, _, _⟩ => none

end ClassLibrary

theorem SameIds.advanced {w w' : World μ σ} (h : SameIds w w') : Advanced w w' :=
  ⟨h.1, h.2.ge, h.2.le.trans (Nat.le_succ _)⟩

theorem Paired.inGroup {given : List (Key × Key)} {s t : World μ σ} (h : Paired given s t)
    (group : Key) : Paired given s (t.inGroup group) :=
  { h with }

theorem Paired.draw {given : List (Key × Key)} {s t : World μ σ} (h : Paired given s t) (n : Nat) :
    Paired given { s with drawn := s.drawn + n } t :=
  { h with
    drawnLeft := fun a ha => by
      obtain ⟨m, hm, heq⟩ := h.drawnLeft a ha
      exact ⟨m, hm.trans_le (Nat.le_add_right _ _), heq⟩ }

/-- The two sides have done the same, or neither returns. -/
inductive Together (given : List (Key × Key)) (r : ObjectRequest (Key × Key)) (s t : World μ σ) :
    Option (Except Text Fields × World μ σ) → Option (Except Text Fields × World μ σ) → Prop where
  | hang : Together given r s t none none
  | answered {answer answer' s' t'}
      (hsame : r.oneway = false → r.SameAnswer answer answer')
      (hs : Advanced s s') (ht : Advanced t t')
      (hpaired : s.ids s.drawn ∉ given.map Prod.fst → t.ids t.drawn ∉ given.map Prod.snd →
        Paired (r.gives answer answer' ++ given) s' t') :
      Together given r s t (some (answer, s')) (some (answer', t'))

namespace ClassLibrary

variable (lib : ClassLibrary μ σ) {ν : Type} {given : List (Key × Key)} {s t : World μ σ}

/-- `service_session` sends the error that a handler has thrown. -/
theorem serviceSession_answered {env : Envelope} {S : Fields → Fields → Prop}
    {r : Except Failure Fields}
    (h : Handled env S r (lib.server.handleRequest env t).result
      (frames (lib.server.handleRequest env t).trace)) :
    Answered env S r (lib.server.serviceSession (.ok env) t).result
      (frames (lib.server.serviceSession (.ok env) t).trace) := by
  rcases hrun : lib.server.handleRequest env t with ⟨(what | _) | u, trace, t'⟩ <;> rw [hrun] at h
  · obtain ⟨⟨what', rfl⟩, hsilent⟩ := h.of_thrown
    rw [Server.serviceSession_thrown _ hrun]
    exact .refusal fun _ => ⟨env.op, ERR_INVALID_REQUEST, what, by decide, by
      rw [frames_append, hsilent]
      rfl⟩
  · rw [Server.serviceSession_hangs _ hrun]
    cases h with
    | answered h => exact h
  · rw [Server.serviceSession_ok _ hrun]
    cases h with
    | answered h => exact h

/-- A request on an object reaches its handler. -/
theorem handleRequest_run {requestId : Key} (r : ObjectRequest Key) :
    lib.server.handleRequest (r.envelope requestId).crossed t =
      lib.server.handle (r.envelope requestId).crossed r.op (t.inGroup 0) :=
  Server.handleRequest_local lib.server rfl rfl (Op.find_token r.op) (fun _ => rfl) t

/-- What the two handlers do with a request on an object. -/
theorem handle_serves {requestId : Key} {r : ObjectRequest (Key × Key)} {ids : Key × Key}
    (htarget : r.target = some ids) (hnamed : Named given ids) {s₀ t₀ : World μ σ} :
    Serves ((r.map Prod.snd).envelope requestId).crossed (Serving given s₀ t₀)
      (lib.standalone.serve (r.crossed.map Prod.fst))
      (lib.server.handle ((r.map Prod.snd).envelope requestId).crossed (r.map Prod.snd).op) := by
  cases r with
  | instantiate ns klass params => cases htarget
  | clear id =>
    cases htarget
    exact handleClear_serves lib hnamed rfl
  | set id payload =>
    cases htarget
    exact handleSet_serves lib hnamed rfl
  | get id projection =>
    cases htarget
    exact handleGet_serves lib hnamed rfl
  | call id payload oneway =>
    cases htarget
    exact handleCall_serves lib hnamed rfl
  | destroy id =>
    cases htarget
    exact handleDestroy_serves lib hnamed rfl

theorem gives_of_target {ι : Type} {r : ObjectRequest ι} {id : ι} (h : r.target = some id)
    (answer answer' : Except Text Fields) : r.gives answer answer' = [] := by
  cases r <;> first | rfl | cases h

theorem samePayload_of_target {ι : Type} {r : ObjectRequest ι} {id : ι} (h : r.target = some id)
    (payload : Fields) : r.SamePayload payload (completeEntries payload) := by
  cases r <;> first | rfl | cases h

theorem object_together {reg : Registry ν} {requestId : Key} {r : ObjectRequest (Key × Key)}
    {ids : Key × Key} (h : Paired given s t) (htarget : r.target = some ids)
    (hnamed : Named given ids) :
    Together given r s t (lib.inProcess (r.crossed.map Prod.fst) s)
      (lib.remote reg requestId (r.map Prod.snd) t) := by
  have honeway : ((r.map Prod.snd).envelope requestId).oneway = r.oneway := by
    cases r <;> rfl
  obtain ⟨hhandled, hserving⟩ := lib.handle_serves htarget hnamed s (t.inGroup 0)
    ⟨h.inGroup 0, ⟨rfl, rfl⟩, (⟨rfl, rfl⟩ : SameIds t (t.inGroup 0))⟩
  rw [← handleRequest_run] at hhandled hserving
  rw [← Server.serviceSession_state] at hserving
  have hanswered := lib.serviceSession_answered hhandled
  unfold inProcess remote
  rcases hrun : lib.standalone.serve (r.crossed.map Prod.fst) s with ⟨result, trace, s'⟩
  rcases hrun' : lib.server.serviceSession
    (.ok ((r.map Prod.snd).envelope requestId).crossed) t with ⟨result', trace', t'⟩
  rw [hrun, hrun'] at hanswered hserving
  obtain ⟨hpaired, hs, ht⟩ := hserving
  generalize hsent : frames trace' = sent at hanswered
  cases hanswered with
  | success hsuccess =>
    refine .answered (fun htwoway => ?_) hs.advanced ht.advanced fun _ _ => ?_
    · obtain ⟨op, payload, rfl, hresponse⟩ := hsuccess (honeway.trans htwoway)
      rw [hsent, hresponse, awaited_success reg (honeway.trans htwoway) rfl]
      exact samePayload_of_target htarget _
    · rw [gives_of_target htarget]
      exact hpaired
  | refusal hrefusal =>
    refine .answered (fun htwoway => ?_) hs.advanced ht.advanced fun _ _ => ?_
    · obtain ⟨op, code, message, hcode, hresponse⟩ := hrefusal (honeway.trans htwoway)
      rw [hsent, hresponse, awaited_error reg (honeway.trans htwoway) _ op hcode]
      trivial
    · rw [gives_of_target htarget]
      exact hpaired
  | hangs => exact .hang

theorem newId_instantiateReply (id klass : Key) :
    ObjectRequest.newId (instantiateReply id klass) = id := by
  rw [ObjectRequest.newId, keyAt_instantiateReply]
  rfl

/-- The answer to an `instantiate` comes out of the wire as it is. -/
theorem completeEntries_instantiateReply (id klass : Key) :
    completeEntries (instantiateReply id klass) = instantiateReply id klass := by
  rw [instantiateReply, completeEntries_insert_key, completeEntries_insert_key]
  rfl

theorem keyAt_instantiatePayload (ns klass : Key) (params : Fields) :
    keyAt (completeEntries (ObjectRequest.instantiatePayload ns klass params)) FIELD_KLASS =
        some klass ∧
      keyAt (completeEntries (ObjectRequest.instantiatePayload ns klass params)) FIELD_NAMESPACE =
        some ns := by
  rw [completeEntries_keyAt, completeEntries_keyAt, ObjectRequest.instantiatePayload, keyAt_insert,
    if_neg (by decide), keyAt_insert, if_neg (by decide), keyAt_insert, if_neg (by decide),
    keyAt_insert, if_pos rfl]
  exact ⟨rfl, rfl⟩

theorem lookup_instantiatePayload (ns klass : Key) (params : Fields) :
    (completeEntries (ObjectRequest.instantiatePayload ns klass params)).lookup FIELD_PARAMS =
      some (.object (withNamespace (completeEntries params))) := by
  rw [completeEntries_lookup, ObjectRequest.instantiatePayload, lookup_insert_self]
  simp only [Option.map_some, Value.complete]

theorem instantiate_together {reg : Registry ν} {requestId ns klass : Key} {params : Fields}
    (h : Paired given s t) :
    Together given (.instantiate ns klass params) s t
      (lib.inProcess (.instantiate ns klass (withNamespace (completeEntries params))) s)
      (lib.remote reg requestId (.instantiate ns klass params) t) := by
  obtain ⟨hklass, hns⟩ := keyAt_instantiatePayload ns klass params
  have hparams := lookup_instantiatePayload ns klass params
  generalize hright : lib.server.handleRequest
    ((ObjectRequest.instantiate ns klass params).envelope requestId).crossed t = right
  generalize hleft : lib.standalone.handleInstantiate ns klass
    (withNamespace (completeEntries params)) s = left
  have hinstantiates : Instantiates
      ((ObjectRequest.instantiate ns klass params).envelope requestId).crossed klass s
      (t.inGroup 0) left right := by
    rw [← hright, ← hleft, handleRequest_run]
    exact lib.handleInstantiate_instantiates (h.inGroup 0) hklass hns hparams
  unfold inProcess remote
  simp only [Standalone.serve, hleft]
  cases hinstantiates with
  | created obj app hsent hs ht =>
    have ht' : Stored t _ obj app := ⟨ht.ids, ht.drawn, ht.app, ht.lookup⟩
    rw [Server.serviceSession_ok _ hright]
    simp only [hsent]
    rw [awaited_success reg rfl rfl]
    simp only [responseEnvelope, completeEntries_instantiateReply]
    refine .answered (fun _ => ⟨_, _, rfl, rfl⟩) hs.advanced ht'.advanced fun hleft hright => ?_
    simp only [ObjectRequest.gives, newId_instantiateReply]
    exact h.stored hs ht' hleft hright
  | refused n code message hcode hn =>
    rw [Server.serviceSession_ok _ hright]
    simp only [frames_sent]
    rw [awaited_error reg rfl _ _ hcode]
    exact .answered (fun _ => trivial) ⟨rfl, Nat.le_add_right _ _, Nat.add_le_add_left hn _⟩
      ⟨rfl, le_refl _, Nat.le_succ _⟩ fun _ _ => (h.inGroup 0).draw n
  | hangs =>
    rw [Server.serviceSession_hangs _ hright]
    exact .hang

theorem together {reg : Registry ν} {requestId : Key} {r : ObjectRequest (Key × Key)}
    (h : Paired given s t) (hnames : r.Names given) :
    Together given r s t (lib.inProcess (r.crossed.map Prod.fst) s)
      (lib.remote reg requestId (r.map Prod.snd) t) := by
  cases r with
  | instantiate ns klass params => exact lib.instantiate_together h
  | clear id => exact lib.object_together h rfl (hnames id rfl)
  | set id payload => exact lib.object_together h rfl (hnames id rfl)
  | get id projection => exact lib.object_together h rfl (hnames id rfl)
  | call id payload oneway => exact lib.object_together h rfl (hnames id rfl)
  | destroy id => exact lib.object_together h rfl (hnames id rfl)

end ClassLibrary

/-! ## Runs -/

/-- Two sessions of one client, and the ids it was given. -/
structure BackendPair (μ σ : Type) where
  given : List (Key × Key) := []
  inProcess : World μ σ
  remote : World μ σ

instance (given : List (Key × Key)) (ids : Key × Key) : Decidable (Named given ids) :=
  inferInstanceAs (Decidable (_ ∨ _ ∧ _))

instance (given : List (Key × Key)) (r : ObjectRequest (Key × Key)) : Decidable (r.Names given) :=
  match h : r.target with
  | none => .isTrue fun ids hids => by
    rw [h] at hids
    cases hids
  | some ids => decidable_of_iff (Named given ids) (by simp [ObjectRequest.Names, h])

namespace ClassLibrary

variable (lib : ClassLibrary μ σ) {ν : Type} (reg : Registry ν)

/-- The client asks both backends for the same, and both answer. The standalone backend gets the
payload as it comes out of the wire. -/
def step (x : BackendPair μ σ) (c : Key × ObjectRequest (Key × Key)) : Option (BackendPair μ σ) :=
  if c.2.Names x.given then
    match lib.inProcess (c.2.crossed.map Prod.fst) x.inProcess,
      lib.remote reg c.1 (c.2.map Prod.snd) x.remote with
    | some (answer, s), some (answer', t) => some ⟨c.2.gives answer answer' ++ x.given, s, t⟩
    | _, _ => none
  else none

end ClassLibrary

/-- The world in which `n` more ids have been drawn. -/
def World.drawing (w : World μ σ) (n : Nat) : World μ σ := { w with drawn := w.drawn + n }

theorem World.Distinct.advanced {w w' : World μ σ} {n : Nat} (h : (w.drawing (n + 1)).Distinct)
    (hw : Advanced w w') : (w'.drawing n).Distinct := by
  refine h.earlier hw.ids.symm ?_
  show w'.drawn + n ≤ w.drawn + (n + 1)
  have := hw.once
  omega

/-- The next id is none of those that were drawn. -/
theorem World.Distinct.fresh {w : World μ σ} {n : Nat} (h : (w.drawing (n + 1)).Distinct)
    {ids : List Key} (hids : ∀ k ∈ ids, ∃ m < w.drawn, k = w.ids m) : w.ids w.drawn ∉ ids := by
  intro hmem
  obtain ⟨m, hm, heq⟩ := hids _ hmem
  have hsame : w.drawn = m := h w.drawn (Nat.lt_add_of_pos_right (Nat.succ_pos n)) m
    (hm.trans_le (Nat.le_add_right _ _)) heq
  omega

namespace BackendPair

variable {lib : ClassLibrary μ σ} {ν : Type} {reg : Registry ν} {x x' : BackendPair μ σ}
  {c : Key × ObjectRequest (Key × Key)}

/-- Between two requests. -/
def Sound (x : BackendPair μ σ) : Prop := Paired x.given x.inProcess x.remote

theorem Sound.step {n : Nat} (h : x.Sound) (hstep : lib.step reg x c = some x')
    (hleft : (x.inProcess.drawing (n + 1)).Distinct)
    (hright : (x.remote.drawing (n + 1)).Distinct) :
    x'.Sound ∧ (x'.inProcess.drawing n).Distinct ∧ (x'.remote.drawing n).Distinct := by
  unfold ClassLibrary.step at hstep
  split_ifs at hstep with hnames
  have htogether : Together x.given c.2 x.inProcess x.remote
      (lib.inProcess (c.2.crossed.map Prod.fst) x.inProcess)
      (lib.remote reg c.1 (c.2.map Prod.snd) x.remote) := lib.together h hnames
  generalize lib.inProcess (c.2.crossed.map Prod.fst) x.inProcess = left at hstep htogether
  generalize lib.remote reg c.1 (c.2.map Prod.snd) x.remote = right at hstep htogether
  cases htogether with
  | hang => cases hstep
  | answered hsame hs ht hpaired =>
    cases hstep
    exact ⟨hpaired (hleft.fresh h.drawnLeft) (hright.fresh h.drawnRight), hleft.advanced hs,
      hright.advanced ht⟩

theorem Sound.run {requests : List (Key × ObjectRequest (Key × Key))} (h : x.Sound)
    (hrun : Machine.run (lib.step reg) x requests = some x')
    (hleft : (x.inProcess.drawing requests.length).Distinct)
    (hright : (x.remote.drawing requests.length).Distinct) : x'.Sound := by
  induction requests generalizing x with
  | nil =>
    cases hrun
    exact h
  | cons c requests ih =>
    obtain ⟨mid, hmid, hrest⟩ := Machine.run_cons hrun
    obtain ⟨hsound, hleft, hright⟩ := h.step hmid hleft hright
    exact ih hsound hrest hleft hright

/-- Two sessions begin: nothing has been made. -/
structure Begins (x : BackendPair μ σ) : Prop where
  given : x.given = []
  left : x.inProcess.ctx.objects = ∅
  right : x.remote.ctx.objects = ∅
  app : x.remote.app = x.inProcess.app

theorem Begins.to_sound (h : x.Begins) : x.Sound := by
  obtain ⟨given, s, t⟩ := x
  obtain ⟨hgiven, hleft, hright, happ⟩ := h
  cases hgiven
  simp only at hleft hright
  refine ⟨⟨nofun, fun a ha => ?_, fun b hb => ?_⟩, happ, nofun, nofun, .nil, .nil⟩
  · rw [hleft] at ha
    cases ha
  · rw [hright] at hb
    cases hb

end BackendPair

namespace ObjectRequest

/-- Both sides answer the same, or neither returns. Nothing is said of the answer to a one-way
request. -/
def SameOutcome {ι : Type} (r : ObjectRequest ι) :
    Option (Except Text Fields) → Option (Except Text Fields) → Prop
  | some answer, some answer' => r.oneway = false → r.SameAnswer answer answer'
  | none, none => True
  | _, _ => False

end ObjectRequest

theorem Together.sameOutcome {given : List (Key × Key)} {r : ObjectRequest (Key × Key)}
    {s t : World μ σ} {left right : Option (Except Text Fields × World μ σ)}
    (h : Together given r s t left right) :
    r.SameOutcome (left.map Prod.fst) (right.map Prod.fst) := by
  cases h with
  | hang => trivial
  | answered hsame _ _ _ => exact hsame

namespace BackendPair

variable {lib : ClassLibrary μ σ} {ν : Type} {reg : Registry ν} {x x' : BackendPair μ σ}

/-- **Main result**: after any requests the two tables hold the same objects under the ids given
out together, and the next request is answered alike, whatever it is. -/
theorem standalone_refines (hbegins : x.Begins) {requests : List (Key × ObjectRequest (Key × Key))}
    (hrun : Machine.run (lib.step reg) x requests = some x')
    (hleft : (x.inProcess.drawing requests.length).Distinct)
    (hright : (x.remote.drawing requests.length).Distinct) :
    SameTables x'.given x'.inProcess x'.remote ∧
      ∀ (requestId : Key) (r : ObjectRequest (Key × Key)), r.Names x'.given →
        r.SameOutcome ((lib.inProcess (r.crossed.map Prod.fst) x'.inProcess).map Prod.fst)
          ((lib.remote reg requestId (r.map Prod.snd) x'.remote).map Prod.fst) := by
  have hsound : x'.Sound := hbegins.to_sound.run hrun hleft hright
  exact ⟨hsound.toSameTables, fun requestId r hnames =>
    (lib.together hsound hnames).sameOutcome⟩

end BackendPair

/-! ## A class that counts what it is called with -/

namespace Counter

def proto : Prototype Unit where
  fields := [(CLASS, .key (key "Counter")), (NAMESPACE, .key 0), (PARENT, .key 0)]
  methods := [(key "count", ())]
  factorySorted := Prototype.noFactory_sorted
  factoryThrows := Prototype.noFactory_throws

def lib : ClassLibrary Unit Unit where
  registry := [(0, [(key "Counter", proto)])]
  body _ params s := (.ok (insert (key "n") (.int32 (Int32.ofNat params.length)) resolvedEmpty), s)
  constructs _ _ _ _ _ _ _ _ _ _ := ⟨_, rfl⟩
  makes ns col klass p made hcol hp hmade := by
    obtain ⟨-, rfl⟩ := Prod.mk.inj (List.mem_singleton.1 (mem_of_lookup hcol))
    obtain ⟨-, rfl⟩ := Prod.mk.inj (List.mem_singleton.1 (mem_of_lookup hp))
    cases hmade

/-- The standalone backend gives out 1, 2, …, the server 100, 101, …. -/
def bothFresh : BackendPair Unit Unit where
  inProcess := { ctx := {}, app := (), ids := fun n => UInt32.ofNat (n + 1) }
  remote := { ctx := {}, app := (), ids := fun n => UInt32.ofNat (n + 100) }

def makeCounter {ι : Type} : ObjectRequest ι := .instantiate 0 (key "Counter") Dynamic.empty

/-- `count` without parameters. -/
def callCount {ι : Type} (id : ι) : ObjectRequest ι :=
  .call id (insert FIELD_PARAMS (.object Dynamic.empty)
    (insert FIELD_NAME (.key (key "count")) resolvedEmpty)) false

/-- The answer of `count`. -/
def counted (n : Int32) : Fields := insert (key "n") (.int32 n) resolvedEmpty

end Counter

open Counter in
/-- The empty parameters have a class in the process of the client, and a class and a namespace
when they arrive at the server. -/
theorem count_sees_namespace : ∃ s t,
    lib.inProcess makeCounter bothFresh.inProcess =
        some (.ok (instantiateReply 1 (key "Counter")), s) ∧
      lib.remote lib.registry 7 makeCounter bothFresh.remote =
        some (.ok (instantiateReply 100 (key "Counter")), t) ∧
      (lib.inProcess (callCount 1) s).map Prod.fst = some (.ok (counted 1)) ∧
      (lib.remote lib.registry 8 (callCount 100) t).map Prod.fst = some (.ok (counted 2)) ∧
      Dynamic.serialize (counted 1) ≠ Dynamic.serialize (counted 2) :=
  ⟨_, _, rfl, rfl, rfl, rfl, by decide⟩

open Counter in
/-- A counter is made, counts and is destroyed; its two ids are gone from the tables. -/
theorem standalone_refines_counter : ∃ x : BackendPair Unit Unit,
    Machine.run (lib.step lib.registry) bothFresh
        [(7, makeCounter), (8, callCount (1, 100)), (9, .destroy (1, 100))] = some x ∧
      x.given = [(1, 100)] ∧ SameTables x.given x.inProcess x.remote := by
  have hdistinct (first : Nat) (hfirst : first ≤ 100) :
      ∀ i < 3, ∀ j < 3, UInt32.ofNat (i + first) = UInt32.ofNat (j + first) → i = j := by
    intro i hi j hj heq
    have := congrArg UInt32.toNat heq
    rw [UInt32.toNat_ofNat', UInt32.toNat_ofNat', Nat.mod_eq_of_lt (by omega),
      Nat.mod_eq_of_lt (by omega)] at this
    omega
  have hbegins : bothFresh.Begins := ⟨rfl, rfl, rfl, rfl⟩
  have hgiven : (Machine.run (lib.step lib.registry) bothFresh
      [(7, makeCounter), (8, callCount (1, 100)), (9, .destroy (1, 100))]).map
        BackendPair.given = some [(1, 100)] := rfl
  obtain ⟨x, hrun, hids⟩ := Option.map_eq_some_iff.1 hgiven
  exact ⟨x, hrun, hids, (BackendPair.standalone_refines hbegins hrun (hdistinct 1 (by decide))
    (hdistinct 100 (by decide))).1⟩

end Bison
