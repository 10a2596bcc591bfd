import Bison.Rmi.DestructOnce
import Bison.Rmi.Projections

/-!
# An instantiate that fails

An object is created by the application, its `__construct` hook is run, and it is filed under a new
id. A server files it last, when nothing can fail any more. A standalone backend files it first, and
leaves it where it is when the hook throws: nobody is told its id, but requests with that id reach
it, and the teardown of the backend destructs it.

- `Construction`: what comes of the creation of an object and of its hook.
- `AllOrNothing`: what an instantiate is to do.
- `Server.instantiate_allOrNothing`, `Standalone.instantiate_allOrNothing_iff`: what each of the
  backends does.
- `instantiate_leaves_no_trace_iff`: **main result**, a server always does it, a standalone backend
  unless the hook throws.
-/

namespace Bison

open SortedMap

variable {μ σ : Type}

/-! ## What the application does to the session -/

/-- The context is as it was; ids may have been given away. -/
structure World.SameContext (w w' : World μ σ) : Prop where
  ctx : w'.ctx = w.ctx
  ids : w'.ids = w.ids
  drawn : w.drawn ≤ w'.drawn

theorem World.SameContext.refl (w : World μ σ) : w.SameContext w := ⟨rfl, rfl, le_refl _⟩

theorem World.SameContext.trans {w w' w'' : World μ σ} (h : w.SameContext w')
    (h' : w'.SameContext w'') : w.SameContext w'' :=
  ⟨h'.ctx.trans h.ctx, h'.ids.trans h.ids, h.drawn.trans h'.drawn⟩

/-- Methods work on their object and on the application; the session is none of their business. -/
def MethodImpl.LeavesContext (impl : MethodImpl μ σ) : Prop :=
  ∀ m params (s : Instance μ × World μ σ), s.2.SameContext (impl m params s).2.2

/-- So does what creates objects. -/
def CreatesApart (create : Key → Key → World μ σ → Except Text (Option (Instance μ)) × World μ σ) :
    Prop :=
  ∀ ns klass (w : World μ σ), w.SameContext (create ns klass w).2

/-- A program on an object leaves the session, and runs methods of that object only. -/
structure Apart (object : Option Key) (s : Instance μ × World μ σ) (trace : List SessionEffect)
    (s' : Instance μ × World μ σ) : Prop where
  same : s.2.SameContext s'.2
  ran : ∀ e ∈ trace, ∃ m, e = .ran object m

theorem apart_composes (object : Option Key) :
    Program.Composes (Apart (μ := μ) (σ := σ) object) where
  refl s := ⟨.refl s.2, fun _ h => (List.not_mem_nil h).elim⟩
  trans h h' := ⟨h.same.trans h'.same, fun e he => (List.mem_append.1 he).elim (h.ran e) (h'.ran e)⟩

section Apart

variable {object : Option Key}

theorem onFields_apart {α : Type} (lookup : DynamicM α) :
    Program.Keeps (Apart object) (onFields lookup : ObjectM μ σ α) := by
  refine .ofState fun s => ?_
  cases h : lookup s.1.fields <;> simp only [h] <;>
    exact ⟨.refl s.2, fun _ h => (List.not_mem_nil h).elim⟩

theorem findMethodM_apart (reg : Registry μ) (name : Key) :
    Program.Keeps (Apart object) (findMethodM reg name : ObjectM μ σ (Option μ)) := by
  refine .ofState fun s => ?_
  cases h : findMethod reg name s.1.methods s.1.fields <;> simp only [h] <;>
    exact ⟨.refl s.2, fun _ h => (List.not_mem_nil h).elim⟩

variable {impl : MethodImpl μ σ} (himpl : impl.LeavesContext) (reg : Registry μ)

include himpl

theorem invoke_apart (name : Key) (m : μ) (params : Fields) :
    Program.Keeps (Apart object) (invoke impl object name m params) := by
  refine (apart_composes object).bind (.emit fun s => ⟨.refl s.2, fun e he => ?_⟩) fun _ =>
    .ofState fun s => ⟨himpl m params s, fun _ h => (List.not_mem_nil h).elim⟩
  exact ⟨name, List.mem_singleton.1 he⟩

theorem call_apart (name : Key) (params : Fields) :
    Program.Keeps (Apart object) (call reg impl object name params) := by
  refine (apart_composes object).bind (findMethodM_apart reg name) fun found => ?_
  cases found with
  | some m => exact invoke_apart himpl name m params
  | none =>
    refine (apart_composes object).bind (findMethodM_apart reg _) fun fallback => ?_
    cases fallback with
    | some m => exact invoke_apart himpl _ m _
    | none => exact (apart_composes object).throw _

theorem runHook_apart (hook : Key) (params : Fields) :
    Program.Keeps (Apart object) (runHook reg impl object hook params) := by
  refine (apart_composes object).bind (findMethodM_apart reg hook) fun found => ?_
  cases found with
  | none => exact (apart_composes object).pure none
  | some m =>
    exact (apart_composes object).bind (.attempt (call_apart himpl reg hook params)) fun r =>
      (apart_composes object).pure _

end Apart

/-! ## What an instantiate is to do -/

/-- What comes of creating an object, and of its `__construct`. -/
inductive Construction (μ : Type) where
  /-- No object is created: the request is not understood, or the class not registered. -/
  | refused
  | notCreated (what : Text)
  | null
  | notConstructed (e : Failure)
  | made (obj : Instance μ)

/-- The creation or the hook throws. -/
def Construction.Throws : Construction μ → Prop
  | notCreated _ | notConstructed (.thrown _) => True
  | _ => False

/-- What the caller learns. -/
inductive Answer where
  | created (id : Key)
  | failed
  | never
  deriving DecidableEq

/-- The caller is told of an exception, which leaves the objects and the groups as they were, and no
object that could be met later under any id given away. Otherwise one object is added under the id
that the caller is told. -/
structure AllOrNothing (w w' : World μ σ) (c : Construction μ) (answer : Answer)
    (Gone : Key → Prop) : Prop where
  told : c.Throws → answer = .failed
  unchanged : (∀ obj, c ≠ .made obj) →
    w'.ctx.objects = w.ctx.objects ∧ w'.ctx.groups = w.ctx.groups ∧
      ∀ id, w'.Drawn id → ¬ w.ctx.Has id → Gone id
  added : ∀ obj, c = .made obj → ∃ id, answer = .created id ∧
    w.ctx.objects.lookup id = none ∧ w'.ctx.objects = w.ctx.objects.insert id obj

/-! ## A server -/

namespace Server

variable (srv : Server μ σ)

/-- What comes of the object that a request asks for. -/
def construction (env : Envelope) (w : World μ σ) : Construction μ :=
  match asKey FIELD_KLASS env.payload with
  | .error _ => .refused
  | .ok (klass, p) =>
    match namedNamespace srv.registry p with
    | .error _ | .ok (.error _, _) => .refused
    | .ok (.ok ns, p) =>
      if srv.onCheckClass ns klass then
        match srv.onCreateObject ns klass w with
        | (.error what, _) => .notCreated what
        | (.ok none, _) => .null
        | (.ok (some obj), w) =>
          match srv.constructHook p (obj, w) with
          | ⟨.ok (.ok ()), _, (obj, _)⟩ => .made obj
          | ⟨.ok (.error what), _, _⟩ => .notConstructed (.thrown what)
          | ⟨.error e, _, _⟩ => .notConstructed e
      else .refused

/-- What the client learns from the frames that it is sent. -/
def answer (trace : List SessionEffect) : Answer :=
  match (frames trace).getLast? with
  | none => .never
  | some response =>
    match keyAt response.payload FIELD_OBJECT_ID with
    | some id => .created id
    | none => .failed

variable {srv}

theorem frames_nil_of_apart {object : Option Key} {trace : List SessionEffect}
    (h : ∀ e ∈ trace, ∃ m, e = .ran object m) : frames trace = [] := by
  refine List.filterMap_eq_nil_iff.2 fun e he => ?_
  obtain ⟨m, rfl⟩ := h e he
  rfl

theorem constructHook_apart (himpl : srv.impl.LeavesContext) (p : Fields) :
    Program.Keeps (Apart none) (srv.constructHook p) := by
  refine (apart_composes none).bind (findMethodM_apart _ _) fun found => ?_
  cases found with
  | none => exact (apart_composes none).pure _
  | some m =>
    refine .attempt ((apart_composes none).bind ((apart_composes none).lift _) fun _ => ?_)
    exact (apart_composes none).bind (call_apart himpl _ _ _) fun _ => (apart_composes none).pure _

/-- How an instantiate ends: an error and nothing filed, or an object that is filed last. -/
inductive Ends (srv : Server μ σ) (env : Envelope) (w : World μ σ) :
    Construction μ → Program.Outcome Failure SessionEffect (World μ σ) Unit → Prop
  | hung {trace w'} (c : Construction μ) (hc : ∀ obj, c ≠ .made obj) (ht : ¬ c.Throws)
      (htrace : frames trace = []) (h : w.SameContext w') :
      Ends srv env w c ⟨.error .hangs, trace, w'⟩
  | thrown {what trace w'} (c : Construction μ) (hc : ∀ obj, c ≠ .made obj)
      (htrace : frames trace = []) (h : w.SameContext w') :
      Ends srv env w c ⟨.error (.thrown what), trace, w'⟩
  | told {trace w'} (c : Construction μ) (hc : ∀ obj, c ≠ .made obj) (code : Key) (what : Text)
      (htrace : frames trace = [errorEnvelope env OP_INSTANTIATE code what])
      (h : w.SameContext w') : Ends srv env w c ⟨.ok (), trace, w'⟩
  | filed {trace w'} (obj : Instance μ) (klass : Key)
      (htrace : frames trace = [responseEnvelope env OP_INSTANTIATE
        (instantiateReply (w'.ids w'.drawn) klass)]) (h : w.SameContext w') :
      Ends srv env w (.made obj) ⟨.ok (), trace, w'.filed obj⟩

theorem handleInstantiate_ends (himpl : srv.impl.LeavesContext)
    (hcreate : CreatesApart srv.onCreateObject) (env : Envelope) (w : World μ σ) :
    srv.Ends env w (srv.construction env w) (srv.handleInstantiate env w) := by
  have hnothing (e : Exn) : srv.Ends env w .refused ⟨.error (.ofExn e), [], w⟩ := by
    cases e with
    | runtimeError what => exact .thrown _ nofun rfl (.refl w)
    | lengthError => exact .thrown _ nofun rfl (.refl w)
    | diverges => exact .hung _ nofun id rfl (.refl w)
    | outOfFuel => exact .hung _ nofun id rfl (.refl w)
  unfold handleInstantiate construction
  cases hklass : asKey FIELD_KLASS env.payload with
  | error e =>
    rw [liftE_bind_error rfl]
    exact hnothing e
  | ok r =>
    obtain ⟨klass, p⟩ := r
    rw [liftE_bind_ok rfl]
    simp only
    cases hnamed : namedNamespace srv.registry p with
    | error e =>
      rw [liftE_bind_error rfl]
      exact hnothing e
    | ok r =>
      obtain ⟨named, p'⟩ := r
      rw [liftE_bind_ok rfl]
      cases named with
      | error what => exact .told _ nofun _ what rfl (.refl w)
      | ok ns =>
        simp only
        by_cases hknown : srv.onCheckClass ns klass = true
        · rw [if_pos hknown, if_pos hknown]
          rcases hmade : srv.onCreateObject ns klass w with ⟨made, w₁⟩
          have hsame : w.SameContext w₁ := by
            have hsame := hcreate ns klass w
            rwa [hmade] at hsame
          have hrun : tryCatch (external (srv.onCreateObject ns klass)) w = ⟨.ok made, [], w₁⟩ :=
            tryCatch_mapError (external_run hmade)
          rw [Program.bind_ok hrun]
          rcases made with what | _ | obj
          · exact .told _ nofun _ what rfl hsame
          · exact .told _ nofun _ _ rfl hsame
          · have happart := constructHook_apart himpl p' (obj, w₁)
            rcases hhook : srv.constructHook p' (obj, w₁) with ⟨result, trace, obj', w₂⟩
            rw [hhook] at happart
            have hsame₂ := hsame.trans happart.same
            have hframes : frames trace = [] := frames_nil_of_apart happart.ran
            have hsent (response : Envelope) : frames (trace ++ [.sent response]) = [response] := by
              rw [frames_append, hframes]
              rfl
            simp only [hhook]
            rcases result with e | what | ⟨⟩
            · have hnew : withNewObject obj (srv.constructHook p') w₁ = ⟨.error e, trace, w₂⟩ := by
                simp only [withNewObject, hhook]
              rw [Program.bind_error hnew]
              cases e with
              | thrown what => exact .thrown _ nofun hframes hsame₂
              | hangs => exact .hung _ nofun id hframes hsame₂
            · have hnew : withNewObject obj (srv.constructHook p') w₁ =
                  ⟨.ok (.error what, obj'), trace, w₂⟩ := by
                simp only [withNewObject, hhook]
              rw [Program.bind_ok hnew]
              exact .told _ nofun _ _ (hsent _) hsame₂
            · have hnew : withNewObject obj (srv.constructHook p') w₁ =
                  ⟨.ok (.ok (), obj'), trace, w₂⟩ := by
                simp only [withNewObject, hhook]
              rw [Program.bind_ok hnew]
              exact .filed obj' klass (hsent _) hsame₂
        · rw [if_neg hknown, if_neg hknown]
          exact .told _ nofun _ _ rfl (.refl w)

/-- Over whatever frames come, no object has this id, and none is destructed under it. -/
def Gone (srv : Server μ σ) (w : World μ σ) (id : Key) : Prop :=
  ∀ arrivals, (srv.served arrivals w).Distinct →
    ¬ (srv.served arrivals w).ctx.Has id ∧ destructions id (srv.sessionTrace arrivals w) = 0

section Runs

variable (hacyclic : srv.registry.Acyclic) (hsrv : srv.KeepsObjects) (hbase : srv.upstream = none)

include hacyclic hsrv hbase

/-- An id that has been given away, and under which there is no object, stays without one. -/
theorem gone_of_spent {w : World μ σ} (hsane : w.Sane) {id : Key} (hid : w.Spent id) :
    srv.Gone w id := by
  intro arrivals hdistinct
  induction arrivals generalizing w with
  | nil =>
    refine ⟨by rw [Context.Has, served, List.foldl_nil, hid.2]; exact Bool.false_ne_true, ?_⟩
    exact (teardownSession_accounts hacyclic hsrv hbase hsane.headed).1.destructions_of_absent hid.2
  | cons arrival arrivals ih =>
    have hstep := serviceSession_advances hacyclic hsrv hbase arrival hsane.headed
    have hsane' := hsane.next hstep
    obtain ⟨hspent, hzero⟩ :=
      hid.next hstep (distinct_of_served hacyclic hsrv hbase hsane'.headed hdistinct)
    obtain ⟨hnone, hlater⟩ := ih hsane' hspent hdistinct
    refine ⟨hnone, ?_⟩
    rw [sessionTrace, destructions_append, hzero, hlater]

/-- A request that is served here and leaves the objects and the groups. -/
theorem allOrNothing_of_unchanged {env : Envelope} {w w' : World μ σ} (hsane : w.Sane)
    (hstate : (srv.serviceSession (.ok env) w).state = w')
    (hsame : (w.inGroup env.group).SameContext w') {c : Construction μ}
    (hc : ∀ obj, c ≠ .made obj) {answer : Answer} (htold : c.Throws → answer = .failed) :
    AllOrNothing w w' c answer (srv.Gone w') where
  told := htold
  unchanged _ := by
    have hobjects : w'.ctx.objects = w.ctx.objects := by rw [hsame.ctx]; rfl
    have hgroups : w'.ctx.groups = w.ctx.groups := by rw [hsame.ctx]; rfl
    refine ⟨hobjects, hgroups, fun id hdrawn hnone => ?_⟩
    have hsane' : w'.Sane := by
      rw [← hstate]
      exact hsane.next (serviceSession_advances hacyclic hsrv hbase _ hsane.headed)
    refine gone_of_spent hacyclic hsrv hbase hsane' ⟨hdrawn, ?_⟩
    rw [hobjects]
    exact Option.not_isSome_iff_eq_none.1 hnone
  added obj h := (hc obj h).elim

end Runs

theorem objects_putObject (ctx : Context μ) (id : Key) (obj : Instance μ) :
    (ctx.putObject id obj).objects = ctx.objects.insert id obj := by
  unfold Context.putObject
  simp only
  split <;> rfl

/-- A server tells of an object that it has added, or leaves everything as it was. -/
theorem instantiate_allOrNothing (hacyclic : srv.registry.Acyclic) (hsrv : srv.KeepsObjects)
    (hbase : srv.upstream = none) (himpl : srv.impl.LeavesContext)
    (hcreate : CreatesApart srv.onCreateObject) {env : Envelope} (hkind : env.kind = KIND_REQUEST)
    (hversion : env.version = PROTOCOL_VERSION) (hop : Op.find env.op = some .instantiate)
    {w : World μ σ} (hsane : w.Sane)
    (hdistinct : (srv.serviceSession (.ok env) w).state.Distinct) :
    AllOrNothing w (srv.serviceSession (.ok env) w).state
      (srv.construction env (w.inGroup env.group))
      (answer (srv.serviceSession (.ok env) w).trace)
      (srv.Gone (srv.serviceSession (.ok env) w).state) := by
  have hlocal : srv.handleRequest env w = srv.handleInstantiate env (w.inGroup env.group) :=
    srv.handleRequest_local hkind hversion hop (fun _ => hbase) w
  have hends := handleInstantiate_ends himpl hcreate env (w.inGroup env.group)
  rw [← hlocal] at hends
  generalize hc : srv.construction env (w.inGroup env.group) = c at hends ⊢
  generalize hrun : srv.handleRequest env w = r at hends
  cases hends with
  | hung _ hmade hthrows htrace hsame =>
    have hserved := srv.serviceSession_hangs hrun
    exact allOrNothing_of_unchanged hacyclic hsrv hbase hsane rfl (by rw [hserved]; exact hsame)
      hmade fun h => (hthrows h).elim
  | thrown _ hmade htrace hsame =>
    have hserved := srv.serviceSession_thrown hrun
    refine allOrNothing_of_unchanged hacyclic hsrv hbase hsane rfl (by rw [hserved]; exact hsame)
      hmade fun _ => ?_
    rw [hserved, answer, frames_append, htrace]
    rfl
  | told _ hmade code what htrace hsame =>
    have hserved := srv.serviceSession_ok hrun
    refine allOrNothing_of_unchanged hacyclic hsrv hbase hsane rfl (by rw [hserved]; exact hsame)
      hmade fun _ => ?_
    rw [hserved, answer, htrace]
    rfl
  | @filed trace w' obj klass htrace hsame =>
    have hserved := srv.serviceSession_ok hrun
    rw [hserved] at hdistinct ⊢
    refine ⟨fun h => h.elim, fun hmade => (hmade obj rfl).elim, ?_⟩
    rintro _ ⟨⟩
    refine ⟨w'.ids w'.drawn, ?_, ?_, ?_⟩
    · rw [answer, htrace]
      simp only [List.getLast?_singleton, responseEnvelope, keyAt_instantiateReply]
    · have hids : w'.ids = w.ids := hsame.ids
      cases hlookup : w.ctx.objects.lookup (w'.ids w'.drawn) with
      | none => rfl
      | some old =>
        -- The id would have been given away before.
        obtain ⟨n, hn, heq⟩ := hsane.drawn (w'.ids w'.drawn) (by rw [Context.Has, hlookup]; rfl)
        have hdrawn : w.drawn ≤ w'.drawn := hsame.drawn
        have := hdistinct n (show n < w'.drawn + 1 by omega) w'.drawn (Nat.lt_succ_self _)
          (by rw [show (w'.filed obj).ids = w.ids from hids, ← heq, hids])
        omega
    · rw [show (w'.filed obj).ctx = w'.ctx.putObject (w'.ids w'.drawn) obj from rfl,
        objects_putObject, hsame.ctx]
      rfl

end Server

/-! ## A standalone backend -/

/-- What was there, or has been given away since. -/
def World.Since (w w' : World μ σ) (id : Key) : Prop :=
  w.ctx.Has id ∨ ∃ n, w.drawn ≤ n ∧ n < w'.drawn ∧ id = w.ids n

/-- An id is not given away twice. -/
theorem World.Since.not_given {w w' : World μ σ} {id : Key} (h : w.Since w' id)
    (hnone : ¬ w.ctx.Has id) (hdrawn : w.Drawn id) (hdistinct : w'.Distinct)
    (hids : w'.ids = w.ids) : False := by
  obtain ⟨m, hm, heq⟩ := hdrawn
  rcases h with hhas | ⟨n, hn, hn', heq'⟩
  · exact hnone hhas
  · have := hdistinct m (hm.trans_le (hn.trans hn'.le)) n hn' (by rw [hids, ← heq, heq'])
    omega

/-- The objects that are there, or on which a method ran, were there or are new. -/
structure World.Grows (w : World μ σ) (trace : List SessionEffect) (w' : World μ σ) : Prop where
  ids : w'.ids = w.ids
  drawn : w.drawn ≤ w'.drawn
  has : ∀ id, w'.ctx.Has id → w.Since w' id
  ran : ∀ id m, .ran (some id) m ∈ trace → w.Since w' id

theorem grows_composes : Program.Composes (World.Grows (μ := μ) (σ := σ)) where
  refl w := ⟨rfl, le_refl _, fun _ h => .inl h, fun _ _ h => (List.not_mem_nil h).elim⟩
  trans {w w' w'' trace trace'} h h' := by
    have hearly (id : Key) : w.Since w' id → w.Since w'' id := fun hid =>
      hid.imp (fun h => h) fun ⟨n, hn, hn', heq⟩ => ⟨n, hn, hn'.trans_le h'.drawn, heq⟩
    have hlate (id : Key) : w'.Since w'' id → w.Since w'' id := fun hid =>
      hid.elim (fun hhas => hearly id (h.has id hhas)) fun ⟨n, hn, hn', heq⟩ =>
        .inr ⟨n, h.drawn.trans hn, hn', by rw [heq, h.ids]⟩
    exact ⟨h'.ids.trans h.ids, h.drawn.trans h'.drawn, fun id hid => hlate id (h'.has id hid),
      fun id m hran => (List.mem_append.1 hran).elim (fun hran => hearly id (h.ran id m hran))
        fun hran => hlate id (h'.ran id m hran)⟩

/-- Nothing is added. -/
theorem World.Grows.of_objects {w w' : World μ σ} {trace : List SessionEffect}
    (hids : w'.ids = w.ids) (hdrawn : w.drawn ≤ w'.drawn)
    (hhas : ∀ id, w'.ctx.Has id → w.ctx.Has id)
    (hran : ∀ id m, .ran (some id) m ∈ trace → w.ctx.Has id) : w.Grows trace w' :=
  ⟨hids, hdrawn, fun id h => .inl (hhas id h), fun id m h => .inl (hran id m h)⟩

theorem Context.has_storeObject_iff (ctx : Context μ) (id k : Key) (obj : Instance μ) :
    (ctx.storeObject id obj).Has k ↔ ctx.Has k := by
  unfold Context.Has
  rw [Context.lookup_storeObject]
  split_ifs with heq
  · rw [heq, Option.isSome_map]
  · rfl

theorem onObject_grows {α : Type} {id : Key} {obj : Instance μ} {p : ObjectM μ σ α}
    (hp : Program.Keeps (Apart (some id)) p) {w : World μ σ} (hid : w.ctx.Has id) :
    w.Grows (onObject id obj p w).trace (onObject id obj p w).state := by
  have hapart := hp (obj, w)
  unfold onObject
  rcases hrun : p (obj, w) with ⟨result, trace, obj', w'⟩
  rw [hrun] at hapart
  obtain ⟨⟨hctx, hids, hdrawn⟩, hran⟩ := hapart
  refine .of_objects hids hdrawn (fun k hk => ?_) fun k m hk => ?_
  · have hk : (w'.ctx.storeObject id obj').Has k := hk
    rw [Context.has_storeObject_iff] at hk
    rwa [hctx] at hk
  · obtain ⟨m', heq⟩ := hran _ hk
    cases heq
    exact hid

/-- The object is in the table (standalone.cpp:495). -/
def World.storing (w : World μ σ) (oid : Key) (obj : Instance μ) : World μ σ :=
  { w with ctx := { w.ctx with objects := w.ctx.objects.insert oid obj } }

namespace Standalone

variable (sa : Standalone μ σ)

/-- What comes of the object that a request asks for. -/
def construction (ns klass : Key) (params : Fields) (w : World μ σ) : Construction μ :=
  if sa.registered ns klass then
    let oid := w.ids w.drawn
    match sa.onCreateObject ns klass { w with drawn := w.drawn + 1 } with
    | (.error what, _) => .notCreated what
    | (.ok none, _) => .null
    | (.ok (some obj), w) =>
      match sa.construct oid params (obj, w.storing oid obj) with
      | ⟨.ok (), _, (obj, _)⟩ => .made obj
      | ⟨.error e, _, _⟩ => .notConstructed e
  else .refused

/-- What the caller learns from the future. -/
def answer (result : Except Failure Fields) : Answer :=
  match result with
  | .ok reply =>
    match keyAt reply FIELD_OBJECT_ID with
    | some id => .created id
    | none => .failed
  | .error (.thrown _) => .failed
  | .error .hangs => .never

/-- One object of the table is destructed. -/
def destructObject (id : Key) : ServerM μ σ Unit := do
  match ← findObject id with
  | none => return ()
  | some obj =>
    onObject id obj do
      let _ ← runHook sa.registry sa.impl id HOOK_DESTRUCT Dynamic.empty

/-- `~standalone` (standalone.cpp:144), with an order in which the table is gone through. -/
def teardown (order : Order) : ServerM μ σ Unit := do
  let w ← Program.get
  Program.forEach sa.destructObject (order.1 w.ctx.objects.keys)
  modifyCtx fun ctx => { ctx with objects := ∅ }

/-- The world after the requests. -/
def served (requests : List (ObjectRequest Key)) (w : World μ σ) : World μ σ :=
  requests.foldl (fun w request => (sa.serve request w).state) w

/-- Everything that happens while the requests are served and the backend is torn down. -/
def sessionTrace (sa : Standalone μ σ) (order : Order) :
    List (ObjectRequest Key) → World μ σ → List SessionEffect
  | [], w => (sa.teardown order w).trace
  | request :: requests, w =>
    (sa.serve request w).trace ++ sa.sessionTrace order requests (sa.serve request w).state

/-- Over whatever requests come, no object has this id, and no method runs on one. -/
def Gone (w : World μ σ) (id : Key) : Prop :=
  ∀ order requests, (sa.teardown order (sa.served requests w)).state.Distinct →
    ¬ (sa.served requests w).ctx.Has id ∧
      ∀ m, .ran (some id) m ∉ sa.sessionTrace order requests w

section Handlers

variable {sa} (himpl : sa.impl.LeavesContext)

theorem apart_of_looks {reg : Registry μ} {object : Option Key} {s s' : Instance μ × World μ σ}
    {trace : List SessionEffect} (h : Looks reg s trace s') : Apart object s trace s' := by
  obtain ⟨rfl, -, hworld⟩ := h
  refine ⟨?_, fun _ h => (List.not_mem_nil h).elim⟩
  rw [hworld]
  exact .refl _

theorem resetObject_apart (object : Option Key) : Program.Keeps (Apart object) sa.resetObject :=
  (apart_composes object).bind (onFields_apart _) fun _ =>
    (apart_composes object).bind (onFields_apart _) fun _ =>
      .modify fun s => ⟨.refl s.2, fun _ h => (List.not_mem_nil h).elim⟩

include himpl

theorem construct_apart (id : Key) (params : Fields) :
    Program.Keeps (Apart (some id)) (sa.construct id params) := by
  have hR := apart_composes (μ := μ) (σ := σ) (some id)
  refine hR.bind (findMethodM_apart _ _) fun found => ?_
  cases found with
  | none => exact hR.pure ()
  | some m => exact hR.bind (call_apart himpl _ _ _) fun _ => hR.pure ()

theorem setFields_apart (id : Key) (payload : Fields) :
    Program.Keeps (Apart (some id)) (sa.setFields id payload) := by
  have hR := apart_composes (μ := μ) (σ := σ) (some id)
  refine hR.bind (hR.bind (findMethodM_apart _ _) fun found => ?_) fun patch =>
    hR.forEach fun _ _ => onFields_apart _
  cases found with
  | none => exact hR.pure payload
  | some m => exact call_apart himpl _ _ _

theorem getFields_apart (id : Key) (projection : Fields) :
    Program.Keeps (Apart (some id)) (sa.getFields id projection) := by
  have hR := apart_composes (μ := μ) (σ := σ) (some id)
  refine hR.bind (fun s => ?_) fun result => hR.bind (findMethodM_apart _ _) fun found => ?_
  · rw [snapshot_eq]
    exact apart_of_looks (sa.asServer.readFields_looks _ s)
  · cases found with
    | none => exact hR.pure result
    | some m =>
      refine hR.bind (.attempt (call_apart himpl _ _ _)) fun got => ?_
      cases got <;> exact hR.pure _

omit himpl in
/-- Requests on an object that is not there fail. -/
theorem withStored_grows {α : Type} {id : Key} {p : Instance μ → ServerM μ σ α} {w : World μ σ}
    (h : ∀ obj, w.ctx.objects.lookup id = some obj → w.Grows (p obj w).trace (p obj w).state) :
    w.Grows (withStored id p w).trace (withStored id p w).state := by
  cases hobj : w.ctx.objects.lookup id with
  | none =>
    rw [withStored_missing hobj]
    exact grows_composes.refl w
  | some obj =>
    rw [withStored_found hobj]
    exact h obj hobj

omit himpl in
theorem onStored_grows {α β : Type} {id : Key} {obj : Instance μ} {p : ObjectM μ σ α}
    {f : α → ServerM μ σ β} {w : World μ σ} (hobj : w.ctx.objects.lookup id = some obj)
    (hp : Program.Keeps (Apart (some id)) p) (hf : ∀ a, Program.Keeps World.Grows (f a)) :
    w.Grows ((onObject id obj p >>= f) w).trace ((onObject id obj p >>= f) w).state :=
  grows_composes.bind_at (onObject_grows hp (by rw [Context.Has, hobj]; rfl)) fun a _ => hf a

theorem runHook_unit_apart (id hook : Key) (params : Fields) :
    Program.Keeps (Apart (some id)) (do
      let _ ← runHook sa.registry sa.impl id hook params : ObjectM μ σ Unit) :=
  (apart_composes (some id)).bind (runHook_apart himpl _ _ _) fun _ => (apart_composes _).pure _

theorem destructObject_grows (id : Key) : Program.Keeps World.Grows (sa.destructObject id) := by
  intro w
  unfold destructObject
  rw [Program.bind_ok (findObject_run id w)]
  cases hobj : w.ctx.objects.lookup id with
  | none => exact grows_composes.refl w
  | some obj =>
    exact onObject_grows (runHook_unit_apart himpl id _ _) (by rw [Context.Has, hobj]; rfl)

/-- Nothing but the object under the next id has been added. -/
structure Stored (w : World μ σ) (obj : Instance μ) (w' : World μ σ) : Prop where
  ctx : w'.ctx = (w.storing (w.ids w.drawn) obj).ctx
  ids : w'.ids = w.ids
  drawn : w.drawn < w'.drawn

omit himpl in
theorem Stored.grows {w w' : World μ σ} {obj : Instance μ} {trace : List SessionEffect}
    (h : Stored w obj w') (hran : ∀ e ∈ trace, ∃ m, e = .ran (some (w.ids w.drawn)) m) :
    w.Grows trace w' := by
  have hnew : w.Since w' (w.ids w.drawn) := .inr ⟨w.drawn, le_refl _, h.drawn, rfl⟩
  refine ⟨h.ids, h.drawn.le, fun id hid => ?_, fun id m hm => ?_⟩
  · rw [h.ctx, World.storing, Context.Has, FinMap.lookup_insert] at hid
    split_ifs at hid with heq
    · rw [heq]
      exact hnew
    · exact .inl hid
  · obtain ⟨m', heq⟩ := hran _ hm
    cases heq
    exact hnew

/-- How an instantiate ends. An object whose hook throws has been stored, and stays. -/
inductive Ends (w : World μ σ) (klass : Key) :
    Construction μ → Program.Outcome Failure SessionEffect (World μ σ) Fields → Prop
  | failed {w'} (c : Construction μ) (hmade : ∀ obj, c ≠ .made obj)
      (hbuilt : ∀ e, c ≠ .notConstructed e) (e : Failure) (he : c.Throws → e ≠ .hangs)
      (h : w.SameContext w') : Ends w klass c ⟨.error e, [], w'⟩
  | left {trace w'} (e : Failure) (obj : Instance μ) (h : Stored w obj w')
      (hran : ∀ e ∈ trace, ∃ m, e = .ran (some (w.ids w.drawn)) m) :
      Ends w klass (.notConstructed e) ⟨.error e, trace, w'⟩
  | stored {trace w'} (obj : Instance μ) (h : Stored w obj w')
      (hran : ∀ e ∈ trace, ∃ m, e = .ran (some (w.ids w.drawn)) m) :
      Ends w klass (.made obj) ⟨.ok (instantiateReply (w.ids w.drawn) klass), trace, w'⟩

omit himpl in
/-- The hook runs on the object in the table. -/
theorem onObject_stored {p : ObjectM μ σ Unit} {w w₁ : World μ σ} {obj obj' : Instance μ}
    {result : Except Failure Unit} {trace : List SessionEffect} {w₂ : World μ σ}
    (hp : Program.Keeps (Apart (some (w.ids w.drawn))) p) (hsame : w.SameContext w₁)
    (hdrawn : w.drawn < w₁.drawn)
    (hrun : p (obj, w₁.storing (w.ids w.drawn) obj) = ⟨result, trace, (obj', w₂)⟩) :
    ∃ w₃, onObject (w.ids w.drawn) obj p (w₁.storing (w.ids w.drawn) obj) =
      ⟨result, trace, w₃⟩ ∧ Stored w obj' w₃ ∧
        ∀ e ∈ trace, ∃ m, e = .ran (some (w.ids w.drawn)) m := by
  have hapart := hp (obj, w₁.storing (w.ids w.drawn) obj)
  rw [hrun] at hapart
  have hctx : w₂.ctx = (w.storing (w.ids w.drawn) obj).ctx := by
    rw [show w₂.ctx = (w₁.storing (w.ids w.drawn) obj).ctx from hapart.same.ctx, World.storing,
      hsame.ctx]
    rfl
  refine ⟨{ w₂ with ctx := w₂.ctx.storeObject (w.ids w.drawn) obj' }, by rw [onObject, hrun],
    ⟨?_, hapart.same.ids.trans hsame.ids, hdrawn.trans_le hapart.same.drawn⟩, hapart.ran⟩
  simp only [Context.storeObject, hctx, World.storing, FinMap.lookup_insert, if_pos,
    Option.isSome_some, FinMap.insert_insert]

theorem handleInstantiate_ends (hcreate : CreatesApart sa.onCreateObject) (ns klass : Key)
    (params : Fields) (w : World μ σ) :
    Ends w klass (sa.construction ns klass params w) (sa.handleInstantiate ns klass params w) := by
  unfold handleInstantiate construction
  by_cases hknown : sa.registered ns klass = true
  · rw [if_pos hknown, if_pos hknown]
    have hdraw : generateId w = ⟨.ok (w.ids w.drawn), [], { w with drawn := w.drawn + 1 }⟩ := rfl
    rw [Program.bind_ok hdraw]
    simp only
    rcases hmade : sa.onCreateObject ns klass { w with drawn := w.drawn + 1 } with ⟨made, w₁⟩
    have hsame : World.SameContext { w with drawn := w.drawn + 1 } w₁ := by
      have hsame := hcreate ns klass { w with drawn := w.drawn + 1 }
      rwa [hmade] at hsame
    have hnext : w.SameContext { w with drawn := w.drawn + 1 } := ⟨rfl, rfl, Nat.le_succ _⟩
    have hsame' : w.SameContext w₁ := hnext.trans hsame
    have hdrawn : w.drawn < w₁.drawn := Nat.lt_of_lt_of_le (Nat.lt_succ_self _) hsame.drawn
    rcases made with what | _ | obj
    · have hcreated : external (sa.onCreateObject ns klass) { w with drawn := w.drawn + 1 } =
          ⟨.error (.thrown what), [], w₁⟩ := external_run hmade
      rw [Program.bind_error hcreated]
      exact .failed (.notCreated what) (fun _ h => by cases h) (fun _ h => by cases h)
        (.thrown what) (fun _ h => by cases h) hsame'
    · have hcreated : external (sa.onCreateObject ns klass) { w with drawn := w.drawn + 1 } =
          ⟨.ok none, [], w₁⟩ := external_run hmade
      rw [Program.bind_ok hcreated]
      exact .failed .null (fun _ h => by cases h) (fun _ h => by cases h) .hangs (fun h => h.elim)
        hsame'
    · have hcreated : external (sa.onCreateObject ns klass) { w with drawn := w.drawn + 1 } =
          ⟨.ok (some obj), [], w₁⟩ := external_run hmade
      have hstore : modifyCtx (fun ctx => { ctx with
          objects := ctx.objects.insert (w.ids w.drawn) obj }) w₁ =
          ⟨.ok (), [], w₁.storing (w.ids w.drawn) obj⟩ := rfl
      rcases hrun : sa.construct (w.ids w.drawn) params (obj, w₁.storing (w.ids w.drawn) obj) with
        ⟨result, trace, obj', w₂⟩
      obtain ⟨w₃, hon, hstored, hran⟩ :=
        onObject_stored (construct_apart himpl (w.ids w.drawn) params) hsame' hdrawn hrun
      rw [Program.bind_ok hcreated]
      simp only [hrun]
      rw [Program.bind_ok hstore]
      cases result with
      | error e =>
        rw [Program.bind_error hon]
        exact .left e obj' hstored hran
      | ok u =>
        rw [Program.bind_ok hon]
        exact .stored obj' hstored fun e he => hran e (by simpa [Program.pure_run] using he)
  · rw [if_neg hknown, if_neg hknown]
    exact .failed .refused (fun _ h => by cases h) (fun _ h => by cases h) _ (fun h => h.elim)
      (.refl w)

/-- A request adds nothing but objects under new ids. -/
theorem serve_grows (hcreate : CreatesApart sa.onCreateObject) (request : ObjectRequest Key) :
    Program.Keeps World.Grows (sa.serve request) := by
  have hR := grows_composes (μ := μ) (σ := σ)
  intro w
  cases request with
  | instantiate ns klass params =>
    have hends := handleInstantiate_ends himpl hcreate ns klass params w
    show w.Grows (sa.handleInstantiate ns klass params w).trace
      (sa.handleInstantiate ns klass params w).state
    generalize sa.handleInstantiate ns klass params w = r at hends ⊢
    generalize sa.construction ns klass params w = c at hends
    cases hends with
    | failed _ _ _ _ _ hsame =>
      refine .of_objects hsame.ids hsame.drawn (fun id hid => ?_) fun _ _ h =>
        (List.not_mem_nil h).elim
      rwa [hsame.ctx] at hid
    | left _ _ hstored hran => exact hstored.grows hran
    | stored _ hstored hran => exact hstored.grows hran
  | clear id =>
    exact withStored_grows fun obj hobj => onStored_grows hobj
      ((apart_composes _).bind (resetObject_apart _) fun _ => runHook_unit_apart himpl _ _ _)
      fun _ => hR.pure _
  | set id payload =>
    exact withStored_grows fun obj hobj =>
      onStored_grows hobj (setFields_apart himpl id payload) fun _ => hR.pure _
  | get id projection =>
    exact withStored_grows fun obj hobj =>
      onObject_grows (getFields_apart himpl id projection) (by rw [Context.Has, hobj]; rfl)
  | call id payload oneway =>
    refine withStored_grows fun obj hobj => ?_
    cases hparams : callParams sa.registry payload with
    | error e =>
      rw [liftE_bind_error rfl]
      exact hR.refl w
    | ok r =>
      rw [liftE_bind_ok rfl]
      exact onStored_grows hobj (call_apart himpl _ _ _) fun _ => hR.pure _
  | destroy id =>
    refine withStored_grows fun obj hobj => onStored_grows hobj (runHook_unit_apart himpl id _ _)
      fun _ => hR.bind (.modify fun w => ?_) fun _ => hR.pure _
    exact .of_objects rfl (le_refl _) (fun k hk => (Server.has_eraseObject.1 hk).2) fun _ _ h =>
      (List.not_mem_nil h).elim

theorem teardown_grows (order : Order) : Program.Keeps World.Grows (sa.teardown order) := by
  have hR := grows_composes (μ := μ) (σ := σ)
  refine hR.bind hR.get fun w => hR.bind (hR.forEach fun id _ => destructObject_grows himpl id)
    fun _ => .modify fun w => .of_objects rfl (le_refl _) (fun k hk => ?_) fun _ _ h =>
      (List.not_mem_nil h).elim
  cases hk

/-- The world only grows until it is torn down. -/
theorem served_grows (hcreate : CreatesApart sa.onCreateObject) (order : Order)
    (requests : List (ObjectRequest Key)) (w : World μ σ) :
    w.Grows (sa.sessionTrace order requests w) (sa.teardown order (sa.served requests w)).state ∧
      ∃ trace, w.Grows trace (sa.served requests w) := by
  induction requests generalizing w with
  | nil => exact ⟨teardown_grows himpl order w, [], grows_composes.refl w⟩
  | cons request requests ih =>
    have hserve := serve_grows himpl hcreate request w
    obtain ⟨hlater, trace, hserved⟩ := ih (sa.serve request w).state
    exact ⟨grows_composes.trans hserve hlater, _, grows_composes.trans hserve hserved⟩

/-- An id that has been given away, and under which there is no object, stays without one. -/
theorem gone_of_absent (hcreate : CreatesApart sa.onCreateObject) {w : World μ σ} {id : Key}
    (hdrawn : w.Drawn id) (hnone : ¬ w.ctx.Has id) : sa.Gone w id := by
  intro order requests hdistinct
  obtain ⟨hall, trace, hserved⟩ := served_grows himpl hcreate order requests w
  have hlast := teardown_grows himpl order (sa.served requests w)
  refine ⟨fun hhas => ?_, fun m hran => ?_⟩
  · refine (hserved.has id hhas).not_given hnone hdrawn (hdistinct.earlier ?_ ?_) hserved.ids
    · exact hlast.ids
    · exact hlast.drawn
  · exact (hall.ran id m hran).not_given hnone hdrawn hdistinct hall.ids

end Handlers

/-! ## The main result -/

/-- A standalone backend does so too, unless the hook throws. -/
theorem instantiate_allOrNothing_iff {sa : Standalone μ σ} (himpl : sa.impl.LeavesContext)
    (hcreate : CreatesApart sa.onCreateObject) (ns klass : Key) (params : Fields) {w : World μ σ}
    (hdrawn : ∀ id, w.ctx.Has id → w.Drawn id)
    (hdistinct : (sa.handleInstantiate ns klass params w).state.Distinct) :
    AllOrNothing w (sa.handleInstantiate ns klass params w).state
        (sa.construction ns klass params w)
        (answer (sa.handleInstantiate ns klass params w).result)
        (sa.Gone (sa.handleInstantiate ns klass params w).state) ↔
      ∀ e, sa.construction ns klass params w ≠ .notConstructed e := by
  have hends := handleInstantiate_ends himpl hcreate ns klass params w
  generalize sa.handleInstantiate ns klass params w = r at hends hdistinct ⊢
  generalize sa.construction ns klass params w = c at hends ⊢
  have hfresh (hmore : w.drawn < r.state.drawn) (hids : r.state.ids = w.ids) :
      w.ctx.objects.lookup (w.ids w.drawn) = none := by
    refine Option.not_isSome_iff_eq_none.1 fun hhas => ?_
    obtain ⟨n, hn, heq⟩ := hdrawn _ hhas
    have := hdistinct n (hn.trans hmore) w.drawn hmore (by rw [hids, heq])
    omega
  cases hends with
  | @failed w' _ hmade hbuilt e he hsame =>
    refine ⟨fun _ => hbuilt, fun _ => ⟨fun hthrows => ?_, fun _ => ?_, fun obj h =>
      (hmade obj h).elim⟩⟩
    · cases e with
      | thrown what => rfl
      | hangs => exact (he hthrows rfl).elim
    · refine ⟨congrArg _ hsame.ctx, congrArg _ hsame.ctx, fun id hid hnone => ?_⟩
      refine gone_of_absent himpl hcreate hid ?_
      rwa [show w'.ctx = w.ctx from hsame.ctx]
  | @left trace w' e obj hstored hran =>
    -- The object is there, and was not.
    refine ⟨fun h => ?_, fun h => (h e rfl).elim⟩
    have hnone := hfresh hstored.drawn hstored.ids
    have hobjects := (h.unchanged nofun).1
    have hnew : w'.ctx.objects.lookup (w.ids w.drawn) = some obj := by
      rw [hstored.ctx, World.storing, FinMap.lookup_insert, if_pos rfl]
    rw [show w'.ctx.objects = w.ctx.objects from hobjects, hnone] at hnew
    cases hnew
  | @stored trace w' obj hstored hran =>
    refine ⟨fun _ => nofun, fun _ => ⟨fun h => h.elim, fun h => (h obj rfl).elim, ?_⟩⟩
    rintro _ ⟨⟩
    refine ⟨w.ids w.drawn, ?_, hfresh hstored.drawn hstored.ids, congrArg _ hstored.ctx⟩
    simp only [answer, keyAt_instantiateReply]

end Standalone

/-- Creating an object and its hook leave the context to a server, which tells of an object that it
has added or changes nothing. A standalone backend does so unless the hook fails. -/
theorem instantiate_leaves_no_trace_iff :
    (∀ (srv : Server μ σ), srv.registry.Acyclic → srv.KeepsObjects → srv.upstream = none →
      srv.impl.LeavesContext → CreatesApart srv.onCreateObject →
      ∀ env, env.kind = KIND_REQUEST → env.version = PROTOCOL_VERSION →
        Op.find env.op = some .instantiate →
      ∀ w : World μ σ, w.Sane → (srv.serviceSession (.ok env) w).state.Distinct →
        AllOrNothing w (srv.serviceSession (.ok env) w).state
          (srv.construction env (w.inGroup env.group))
          (Server.answer (srv.serviceSession (.ok env) w).trace)
          (srv.Gone (srv.serviceSession (.ok env) w).state)) ∧
    ∀ (sa : Standalone μ σ), sa.impl.LeavesContext → CreatesApart sa.onCreateObject →
      ∀ ns klass params (w : World μ σ), (∀ id, w.ctx.Has id → w.Drawn id) →
        (sa.handleInstantiate ns klass params w).state.Distinct →
        (AllOrNothing w (sa.handleInstantiate ns klass params w).state
            (sa.construction ns klass params w)
            (Standalone.answer (sa.handleInstantiate ns klass params w).result)
            (sa.Gone (sa.handleInstantiate ns klass params w).state) ↔
          ∀ e, sa.construction ns klass params w ≠ .notConstructed e) :=
  ⟨fun _ hacyclic hsrv hbase himpl hcreate _ hkind hversion hop _ hsane hdistinct =>
      Server.instantiate_allOrNothing hacyclic hsrv hbase himpl hcreate hkind hversion hop hsane
        hdistinct,
    fun _ himpl hcreate ns klass params _ hdrawn hdistinct =>
      Standalone.instantiate_allOrNothing_iff himpl hcreate ns klass params hdrawn hdistinct⟩

/-! ## A hook that throws -/

def constructed : Prototype Unit where
  fields := [(CLASS, .key 6), (NAMESPACE, .key 0), (PARENT, .key 0)]
  methods := [(HOOK_CONSTRUCT, ())]
  factorySorted := Prototype.noFactory_sorted
  factoryThrows := Prototype.noFactory_throws

/-- A backend whose methods all end in this way. -/
def constructing (result : Except Text Fields) : Standalone Unit Unit where
  registry := [(0, [(6, constructed)])]
  impl := fun _ _ s => (result, s)

def emptySession : World Unit Unit where
  ctx := {}
  app := ()
  ids := fun n => UInt32.ofNat (n + 1)

/-- The hook throws, and the object is in the table. -/
theorem failed_object_stored :
    (constructing (.error [])).construction 0 6 [] emptySession = .notConstructed (.thrown []) ∧
    ((constructing (.error [])).handleInstantiate 0 6 [] emptySession).result =
      .error (.thrown []) ∧
    ¬ AllOrNothing emptySession
      ((constructing (.error [])).handleInstantiate 0 6 [] emptySession).state
      ((constructing (.error [])).construction 0 6 [] emptySession)
      (Standalone.answer
        ((constructing (.error [])).handleInstantiate 0 6 [] emptySession).result)
      ((constructing (.error [])).Gone
        ((constructing (.error [])).handleInstantiate 0 6 [] emptySession).state) := by
  have hthrown : (constructing (.error [])).construction 0 6 [] emptySession =
      .notConstructed (.thrown []) := rfl
  refine ⟨hthrown, rfl, fun h => ?_⟩
  have hobjects := (h.unchanged (by rw [hthrown]; exact nofun)).1
  have hsizes := congrArg (fun m => m.entries.length) hobjects
  cases hsizes

theorem constructing_leaves (result : Except Text Fields) :
    (constructing result).impl.LeavesContext :=
  fun _ _ s => .refl s.2

theorem createObject_apart (reg : Registry μ) : CreatesApart (createObject (σ := σ) reg) := by
  intro ns klass w
  rw [createObject_world]
  exact .refl w

/-- An object of a server, and one of a standalone backend, is created. -/
theorem instantiate_leaves_no_trace_created :
    AllOrNothing begun (harmless.serviceSession (.ok (creating 9)) begun).state
      (harmless.construction (creating 9) (begun.inGroup 0))
      (Server.answer (harmless.serviceSession (.ok (creating 9)) begun).trace)
      (harmless.Gone (harmless.serviceSession (.ok (creating 9)) begun).state) ∧
    AllOrNothing emptySession
      ((constructing (.ok [])).handleInstantiate 0 6 [] emptySession).state
      ((constructing (.ok [])).construction 0 6 [] emptySession)
      (Standalone.answer ((constructing (.ok [])).handleInstantiate 0 6 [] emptySession).result)
      ((constructing (.ok [])).Gone
        ((constructing (.ok [])).handleInstantiate 0 6 [] emptySession).state) := by
  refine ⟨instantiate_leaves_no_trace_iff.1 harmless harmless_acyclic harmless_keeps rfl
    (fun _ _ s => .refl s.2) (createObject_apart _) (creating 9) rfl rfl rfl begun
    ⟨fun id obj h => ?_, fun id h => ?_⟩ fun i hi j hj _ => ?_,
    (instantiate_leaves_no_trace_iff.2 (constructing (.ok [])) (constructing_leaves _)
      (createObject_apart _) 0 6 [] emptySession (fun id h => ?_) fun i hi j hj _ => ?_).2
        fun e h => ?_⟩
  · cases h
  · cases h
  · have hdrawn : (harmless.serviceSession (.ok (creating 9)) begun).state.drawn = 1 := rfl
    omega
  · cases h
  · have hdrawn : ((constructing (.ok [])).handleInstantiate 0 6 [] emptySession).state.drawn = 1 :=
      rfl
    omega
  · cases h

end Bison
