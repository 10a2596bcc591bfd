import Bison.Rmi.Destructions
import Bison.Rmi.GroupRuns

/-!
# `__destruct` is run once

- `World.Advances`: what one frame does to the objects.
- `Alive.next`, `Spent.next`: what becomes of an object with it.
- `Server.destructs_once`: **main result**, over a session and its teardown the server runs
  `__destruct` once on every object that an instantiate reported, and on no other.

A client may also `call` a `__destruct` by its name, as it may any method, and as often as it
likes: `destructed_twice`.
-/

namespace Bison

open SortedMap

variable {μ σ : Type} {reg : Registry μ}

/-! ## One frame -/

/-- The request is a call of `__destruct`. -/
def Server.callsDestruct (srv : Server μ σ) : Arrival → Bool
  | .ok env => env.op = OP_CALL &&
    match callParams srv.registry env.payload with
    | .ok ((name, _), _) => name = HOOK_DESTRUCT
    | .error _ => false
  | .error _ => false

/-- What serving a frame does: a call of `__destruct` runs it on an object that is there, other
requests account for what they run or file an object. -/
inductive World.Advances (reg : Registry μ) (calls : Bool) (w : World μ σ) :
    List SessionEffect → World μ σ → Prop
  | called {trace : List SessionEffect} {w' : World μ σ} (hcalls : calls = true)
      (h : w.Leads reg (fun object => ∃ id, object = some id ∧ w.ctx.Has id) trace w') :
      Advances reg calls w trace w'
  | accounts {trace : List SessionEffect} {w' : World μ σ} (hcalls : calls = false)
      (h : w.Accounts reg trace w') : Advances reg calls w trace w'
  | files {trace trace' : List SessionEffect} {w' : World μ σ} (hcalls : calls = false)
      (w₁ : World μ σ) (h : w.Leads reg (fun _ => False) trace w₁) (obj : Instance μ)
        (hobj : obj.Headed)
      (env : Envelope) (klass : Key) (h' : (w₁.filed obj).Leads reg (fun _ => False) trace' w') :
      Advances reg calls w (trace ++ .sent (responseEnvelope env OP_INSTANTIATE
        (instantiateReply (w₁.ids w₁.drawn) klass)) :: trace') w'

namespace World.Advances

variable {calls : Bool} {w w₁ w' : World μ σ} {trace trace' : List SessionEffect}

theorem of_leads (h : w.Leads reg (fun _ => False) trace w') : w.Advances reg calls trace w' := by
  cases calls with
  | false => exact .accounts rfl h.accounts
  | true => exact .called rfl ⟨h.same, fun object hran => (h.quiet object hran).elim, h.unreported⟩

theorem of_files (hcalls : calls = false) (h : w.Files reg trace w') :
    w.Advances reg calls trace w' := by
  cases h with
  | nothing h => exact .of_leads h
  | object h obj hobj env klass => exact .files hcalls _ h obj hobj env klass (.refl _)

theorem before (h : w.SameObjects reg w₁) (h' : w₁.Advances reg calls trace w') :
    w.Advances reg calls trace w' := by
  cases h' with
  | called hcalls h' =>
    refine .called hcalls ⟨h.trans h'.same, fun object hran => ?_, h'.unreported⟩
    obtain ⟨id, heq, hhas⟩ := h'.quiet object hran
    exact ⟨id, heq, (h.has id).1 hhas⟩
  | accounts hcalls h' => exact .accounts hcalls (h.leads.accounts.trans h')
  | files hcalls w₂ h' obj hobj env klass h'' =>
    exact .files hcalls w₂ (h.leads.trans h') obj hobj env klass h''

theorem andThen (h : w.Advances reg calls trace w₁)
    (h' : w₁.Leads reg (fun _ => False) trace' w') : w.Advances reg calls (trace ++ trace') w' := by
  cases h with
  | called hcalls h =>
    have hquiet : w₁.Leads reg (fun object => ∃ id, object = some id ∧ w.ctx.Has id) trace' w' :=
      ⟨h'.same, fun object hran => (h'.quiet object hran).elim, h'.unreported⟩
    exact .called hcalls (h.trans hquiet)
  | accounts hcalls h => exact .accounts hcalls (h.trans h'.accounts)
  | files hcalls w₂ h obj hobj env klass h'' =>
    rw [List.append_assoc]
    exact .files hcalls w₂ h obj hobj env klass (h''.trans h')

end World.Advances

namespace Server

variable {srv : Server μ σ}

theorem callsDestruct_eq_false {env : Envelope} (h : env.op ≠ OP_CALL) :
    srv.callsDestruct (.ok env) = false := by
  simp [callsDestruct, h]

variable (hacyclic : srv.registry.Acyclic) (hsrv : srv.KeepsObjects)

include hacyclic hsrv

theorem handle_advances {env : Envelope} {o : Op} (ho : env.op = o.token) {w : World μ σ}
    (hheaded : w.Headed) : w.Advances srv.registry (srv.callsDestruct (.ok env))
      (srv.handle env o w).trace (srv.handle env o w).state := by
  cases o with
  | connect => exact .of_leads (handleConnect_leads hsrv env w)
  | describe => exact .of_leads (handleDescribe_leads env w)
  | instantiate =>
    exact .of_files (callsDestruct_eq_false (by rw [ho]; decide))
      (handleInstantiate_files hsrv env w)
  | clear => exact .of_leads (handleClear_leads hsrv env w)
  | set => exact .of_leads (handleSet_leads hsrv env w)
  | get => exact .of_leads (handleGet_leads hsrv env w)
  | call =>
    cases hcalls : srv.callsDestruct (.ok env) with
    | true => exact .called rfl (handleCall_leads hsrv fun _ _ _ hhas => ⟨_, rfl, hhas⟩)
    | false =>
      refine .of_leads (handleCall_leads hsrv fun args p hparams _ => ?_)
      rw [callsDestruct, hparams, show env.op = OP_CALL from ho] at hcalls
      simp at hcalls
  | destroy =>
    exact .accounts (callsDestruct_eq_false (by rw [ho]; decide))
      (handleDestroy_accounts hsrv env w)
  | destroyGroup =>
    exact .accounts (callsDestruct_eq_false (by rw [ho]; decide))
      (handleDestroyGroup_accounts hsrv env w)
  | disconnect =>
    exact .accounts (callsDestruct_eq_false (by rw [ho]; decide))
      (handleDisconnect_accounts hsrv hacyclic env hheaded)
  | dictionary => exact .of_leads (sendResponse_leads env (by decide) _ w)
  | help => exact .of_leads (sendResponse_leads env (by decide) _ w)

/-- A frame that arrives at a server, not a bridge. -/
theorem serviceSession_advances (hbase : srv.upstream = none) (arrival : Arrival) {w : World μ σ}
    (hheaded : w.Headed) : w.Advances srv.registry (srv.callsDestruct arrival)
      (srv.serviceSession arrival w).trace (srv.serviceSession arrival w).state := by
  cases arrival with
  | error what => exact .of_leads (sendError_leads _ _ _ _ w)
  | ok env =>
    have hrequest : w.Advances srv.registry (srv.callsDestruct (.ok env))
        (srv.handleRequest env w).trace (srv.handleRequest env w).state := by
      rcases srv.handleRequest_cases env with ⟨op, code, message, h⟩ |
        ⟨upstream, hup, h⟩ | h <;> rw [h]
      · exact .of_leads (sendError_leads _ _ _ _ w)
      · rw [hbase] at hup
        cases hup
      · have hsame : w.SameObjects srv.registry (w.inGroup env.group) :=
          .of_objects rfl (le_refl _) rfl
        cases ho : Op.find env.op with
        | some o =>
          rw [srv.dispatch_run ho]
          exact .before hsame (handle_advances hacyclic hsrv (Op.token_of_find ho).symm hheaded)
        | none =>
          unfold dispatch
          rw [ho]
          exact .before hsame (.of_leads (sendError_leads env _ _ _ (w.inGroup env.group)))
    rcases hrun : srv.handleRequest env w with ⟨(what | _) | u, trace, w'⟩ <;> rw [hrun] at hrequest
    · rw [serviceSession_thrown srv hrun]
      exact hrequest.andThen (sendError_leads _ _ _ _ w')
    · rw [serviceSession_hangs srv hrun]
      exact hrequest
    · rw [serviceSession_ok srv hrun]
      exact hrequest

end Server

/-! ## The life of an object -/

namespace World

/-- The object with this id is there, of this class. -/
def Alive (w : World μ σ) (id ns c : Key) : Prop :=
  ∃ obj, w.ctx.objects.lookup id = some obj ∧ obj.IsA ns c

/-- The id has been given away. -/
def Drawn (w : World μ σ) (id : Key) : Prop := ∃ n < w.drawn, id = w.ids n

/-- The id has been given away, and no object is there (any more). -/
def Spent (w : World μ σ) (id : Key) : Prop := w.Drawn id ∧ w.ctx.objects.lookup id = none

/-- Every object is of some class, and filed under an id that has been given away. -/
structure Sane (w : World μ σ) : Prop where
  headed : w.Headed
  drawn : ∀ id, w.ctx.Has id → w.Drawn id

variable {calls : Bool} {w w' : World μ σ} {trace : List SessionEffect} {id ns c : Key}

theorem lookup_filed (w : World μ σ) (obj : Instance μ) (id : Key) :
    (w.filed obj).ctx.objects.lookup id =
      if id = w.ids w.drawn then some obj else w.ctx.objects.lookup id :=
  Context.lookup_putObject w.ctx _ id obj

theorem Advances.ids (h : w.Advances reg calls trace w') :
    w'.ids = w.ids ∧ w.drawn ≤ w'.drawn := by
  cases h with
  | called _ h => exact ⟨h.same.ids, h.same.drawn⟩
  | accounts _ h => exact ⟨h.ids, h.drawn⟩
  | files _ _ h _ _ _ _ h' =>
    exact ⟨h'.same.ids.trans h.same.ids, h.same.drawn.trans ((Nat.le_succ _).trans h'.same.drawn)⟩

theorem Drawn.next (h : w.Advances reg calls trace w') (hid : w.Drawn id) : w'.Drawn id := by
  obtain ⟨n, hn, heq⟩ := hid
  exact ⟨n, hn.trans_le h.ids.2, by rw [h.ids.1]; exact heq⟩

/-- An id that has been given away is not the one of the object that is filed next. -/
theorem Drawn.ne_filed {w₁ : World μ σ} {obj : Instance μ} (hid : w.Drawn id)
    (h : w.SameObjects reg w₁) (h' : (w₁.filed obj).SameObjects reg w') (hdistinct : w'.Distinct) :
    id ≠ w₁.ids w₁.drawn := by
  rintro rfl
  obtain ⟨n, hn, heq⟩ := hid
  have hdrawn : w₁.drawn < w'.drawn := h'.drawn
  have hids : w'.ids = w₁.ids := h'.ids
  have hn₁ : n < w₁.drawn := hn.trans_le h.drawn
  have := hdistinct w₁.drawn hdrawn n (hn₁.trans hdrawn) (by rw [hids, heq, h.ids])
  omega

/-- Nothing is run where an object is filed. -/
theorem Leads.destructions_filing {w₁ : World μ σ} {obj : Instance μ}
    {trace' : List SessionEffect} {report : Envelope} (h : w.Leads reg (fun _ => False) trace w₁)
    (h' : (w₁.filed obj).Leads reg (fun _ => False) trace' w') :
    destructions id (trace ++ .sent report :: trace') = 0 := by
  refine Bison.destructions_eq_zero fun hran => ?_
  rcases List.mem_append.1 hran with hran | hran
  · exact h.quiet _ hran
  · exact h'.quiet _ ((List.mem_cons.1 hran).resolve_left fun heq => by cases heq)

/-- An object that is gone stays so, and its `__destruct` is not run any more. -/
theorem Spent.next (h : w.Advances reg calls trace w') (hdistinct : w'.Distinct)
    (hid : w.Spent id) : w'.Spent id ∧ destructions id trace = 0 := by
  have hdrawn := hid.1.next h
  cases h with
  | called _ h =>
    refine ⟨⟨hdrawn, h.same.absent id hid.2⟩, h.destructions_eq_zero ?_⟩
    rintro ⟨id', heq, hhas⟩
    cases heq
    unfold Context.Has at hhas
    rw [hid.2] at hhas
    cases hhas
  | accounts _ h => exact ⟨⟨hdrawn, h.absent id hid.2⟩, h.destructions_of_absent hid.2⟩
  | files _ _ h obj _ _ _ h' =>
    refine ⟨⟨hdrawn, h'.same.absent id ?_⟩, h.destructions_filing h'⟩
    rw [lookup_filed, if_neg (hid.1.ne_filed h.same h'.same hdistinct)]
    exact h.same.absent id hid.2

/-- An object of a class with `__destruct` stays, or it goes and its `__destruct` is run. -/
theorem Alive.next (h : w.Advances reg calls trace w') (hdistinct : w'.Distinct) (hsane : w.Sane)
    (hhook : reg.HasDestruct ns c) (hid : w.Alive id ns c) :
    w'.Alive id ns c ∧ (calls = false → destructions id trace = 0) ∨
      calls = false ∧ w'.Spent id ∧ destructions id trace = 1 := by
  obtain ⟨obj, hobj, hisA⟩ := hid
  have hdrawn := hsane.drawn id (Option.isSome_of_eq_some hobj)
  have hdrawn' := hdrawn.next h
  have hstill {obj' : Instance μ} (hstays : obj.Stays reg obj') : obj'.IsA ns c :=
    hstays.same ns c hhook.registered hisA
  cases h with
  | called hcalls h =>
    obtain ⟨obj', hobj', hstays⟩ := h.same.kept id obj hobj
    exact .inl ⟨⟨obj', hobj', hstill hstays⟩, fun hfalse => by rw [hcalls] at hfalse; cases hfalse⟩
  | accounts hcalls h =>
    rcases h.present id obj hobj with ⟨⟨obj', hobj', hstays⟩, hzero⟩ | ⟨hgone, honce⟩
    · exact .inl ⟨⟨obj', hobj', hstill hstays⟩, fun _ => hzero⟩
    · exact .inr ⟨hcalls, ⟨hdrawn', hgone⟩, honce ns c hhook hisA⟩
  | files _ w₁ h new _ _ _ h' =>
    obtain ⟨obj₁, hobj₁, hstays⟩ := h.same.kept id obj hobj
    have hfiled : (w₁.filed new).ctx.objects.lookup id = some obj₁ := by
      rw [lookup_filed, if_neg (hdrawn.ne_filed h.same h'.same hdistinct)]
      exact hobj₁
    obtain ⟨obj', hobj', hstays'⟩ := h'.same.kept id obj₁ hfiled
    exact .inl ⟨⟨obj', hobj', hstill (hstays.trans hstays')⟩, fun _ => h.destructions_filing h'⟩

/-- An object that is there was there before, or an instantiate has reported it. -/
theorem Advances.has (h : w.Advances reg calls trace w') (hid : w'.ctx.Has id) :
    w.ctx.Has id ∨ ∃ e ∈ trace, e.Reports id := by
  cases h with
  | called _ h => exact .inl ((h.same.has id).1 hid)
  | accounts _ h =>
    left
    unfold Context.Has at hid ⊢
    cases hobj : w.ctx.objects.lookup id with
    | some obj => rfl
    | none =>
      rw [h.absent id hobj] at hid
      cases hid
  | files _ w₁ h obj _ env klass h' =>
    have hfiled := (h'.same.has id).1 hid
    unfold Context.Has at hfiled
    rw [lookup_filed] at hfiled
    split_ifs at hfiled with hnew
    · rw [hnew]
      exact .inr ⟨_, List.mem_append_right _ (List.mem_cons_self ..), env, klass, rfl⟩
    · exact .inl ((h.same.has id).1 hfiled)

/-- What an instantiate reports is there, under a new id. -/
theorem Advances.reported (h : w.Advances reg calls trace w') {e : SessionEffect} (he : e ∈ trace)
    (hid : e.Reports id) : w.Draws w' id ∧ w'.ctx.Has id := by
  cases h with
  | called _ h => exact (h.unreported e he id hid).elim
  | accounts _ h => exact (h.unreported e he id hid).elim
  | files _ w₁ h obj _ env klass h' =>
    rcases List.mem_append.1 he with he | he
    · exact (h.unreported e he id hid).elim
    · rcases List.mem_cons.1 he with rfl | he
      · obtain ⟨env', klass', hsent⟩ := hid
        have hpayload := congrArg (fun env => env.payload.lookup FIELD_OBJECT_ID)
          (SessionEffect.sent.inj hsent)
        have hnew : w₁.ids w₁.drawn = id := by
          simpa [responseEnvelope, instantiateReply, lookup_insert,
            show FIELD_OBJECT_ID ≠ FIELD_KLASS by decide] using hpayload
        subst hnew
        refine ⟨⟨w₁.drawn, h.same.drawn, h'.same.drawn, congrFun h.same.ids _⟩,
          (h'.same.has _).2 ?_⟩
        unfold Context.Has
        rw [lookup_filed, if_pos rfl]
        rfl
      · exact (h'.unreported e he id hid).elim

/-- `__destruct` is run on objects that are there. -/
theorem Advances.there (h : w.Advances reg calls trace w') {object : Option Key}
    (hran : .ran object HOOK_DESTRUCT ∈ trace) : ∃ id, object = some id ∧ w.ctx.Has id := by
  cases h with
  | called _ h => exact h.quiet object hran
  | accounts _ h => exact h.there object hran
  | files _ _ h _ _ _ _ h' =>
    rcases List.mem_append.1 hran with hran | hran
    · exact (h.quiet object hran).elim
    · exact (h'.quiet object ((List.mem_cons.1 hran).resolve_left fun heq => by cases heq)).elim

theorem Advances.headed (h : w.Advances reg calls trace w') (hheaded : w.Headed) : w'.Headed := by
  cases h with
  | called _ h => exact h.same.headed hheaded
  | accounts _ h =>
    intro id obj' hobj'
    cases hobj : w.ctx.objects.lookup id with
    | none =>
      rw [h.absent id hobj] at hobj'
      cases hobj'
    | some obj =>
      rcases h.present id obj hobj with ⟨⟨obj₁, hobj₁, hstays⟩, -⟩ | ⟨hgone, -⟩
      · rw [hobj'] at hobj₁
        cases hobj₁
        exact hstays.headed (hheaded id obj hobj)
      · rw [hgone] at hobj'
        cases hobj'
  | files _ w₁ h new hnew _ _ h' =>
    refine h'.same.headed fun id obj hobj => ?_
    rw [lookup_filed] at hobj
    split_ifs at hobj with hid
    · cases hobj
      exact hnew
    · exact h.same.headed hheaded id obj hobj

/-- One frame keeps the table in order. -/
theorem Sane.next (h : w.Advances reg calls trace w') (hsane : w.Sane) : w'.Sane := by
  refine ⟨h.headed hsane.headed, fun id hid => ?_⟩
  rcases h.has hid with hhas | ⟨e, he, hreports⟩
  · exact (hsane.drawn id hhas).next h
  · obtain ⟨⟨n, -, hn, heq⟩, -⟩ := h.reported he hreports
    exact ⟨n, hn, by rw [h.ids.1]; exact heq⟩

end World

/-! ## Runs -/

namespace Server

variable {srv : Server μ σ}

/-- The world after the frames. -/
def served (srv : Server μ σ) (arrivals : List Arrival) (w : World μ σ) : World μ σ :=
  arrivals.foldl (fun w arrival => (srv.serviceSession arrival w).state) w

/-- Everything that happens while the frames are served and the session is torn down. -/
def sessionTrace (srv : Server μ σ) : List Arrival → World μ σ → List SessionEffect
  | [], w => (srv.teardownSession w).trace
  | arrival :: arrivals, w => (srv.serviceSession arrival w).trace ++
      srv.sessionTrace arrivals (srv.serviceSession arrival w).state

/-- How often the server itself runs `__destruct` on an object while a frame is served: a request
that calls it by its name is not counted. -/
def destructsIn (srv : Server μ σ) (id : Key) (arrival : Arrival) (w : World μ σ) : Nat :=
  if srv.callsDestruct arrival then 0 else destructions id (srv.serviceSession arrival w).trace

/-- How often it does so over the frames and the teardown. -/
def destructsOver (srv : Server μ σ) (id : Key) : List Arrival → World μ σ → Nat
  | [], w => destructions id (srv.teardownSession w).trace
  | arrival :: arrivals, w => srv.destructsIn id arrival w +
      srv.destructsOver id arrivals (srv.serviceSession arrival w).state

/-- Without a call of `__destruct`, that is every run of it. -/
theorem destructsOver_eq {arrivals : List Arrival}
    (h : ∀ arrival ∈ arrivals, srv.callsDestruct arrival = false) (id : Key) (w : World μ σ) :
    srv.destructsOver id arrivals w = destructions id (srv.sessionTrace arrivals w) := by
  induction arrivals generalizing w with
  | nil => rfl
  | cons arrival arrivals ih =>
    rw [destructsOver, destructsIn, h arrival (List.mem_cons_self ..),
      ih fun other hother => h other (List.mem_cons_of_mem _ hother)]
    exact (destructions_append _ _ _).symm

variable (hacyclic : srv.registry.Acyclic) (hsrv : srv.KeepsObjects) (hbase : srv.upstream = none)

include hacyclic hsrv hbase

theorem teardownSession_accounts {w : World μ σ} (hheaded : w.Headed) :
    w.Accounts srv.registry (srv.teardownSession w).trace (srv.teardownSession w).state ∧
      (srv.teardownSession w).state.ctx.objects = ∅ := by
  have hteardown : srv.teardownSession w = srv.cleanupContext w := by
    have hnothing : srv.onSessionDestroyed w = ⟨.ok (), [], w⟩ := by
      unfold onSessionDestroyed
      rw [hbase]
      rfl
    rw [teardownSession, Program.bind_ok hnothing]
    rfl
  rw [hteardown]
  exact cleanupContext_accounts hsrv hacyclic hheaded

theorem served_drawn (arrivals : List Arrival) {w : World μ σ} (hheaded : w.Headed) :
    (srv.served arrivals w).Headed ∧ (srv.served arrivals w).ids = w.ids ∧
      w.drawn ≤ (srv.served arrivals w).drawn := by
  induction arrivals generalizing w with
  | nil => exact ⟨hheaded, rfl, le_refl _⟩
  | cons arrival arrivals ih =>
    have hstep := serviceSession_advances hacyclic hsrv hbase arrival hheaded
    obtain ⟨hlast, hids, hdrawn⟩ := ih (hstep.headed hheaded)
    exact ⟨hlast, hids.trans hstep.ids.1, hstep.ids.2.trans hdrawn⟩

/-- The ids of every state of a run are distinct if those of its last are. -/
theorem distinct_of_served {arrivals : List Arrival} {w : World μ σ} (hheaded : w.Headed)
    (hdistinct : (srv.served arrivals w).Distinct) : w.Distinct := by
  obtain ⟨-, hids, hdrawn⟩ := served_drawn hacyclic hsrv hbase arrivals hheaded
  exact hdistinct.earlier hids hdrawn

theorem sane_served (arrivals : List Arrival) {w : World μ σ} (hsane : w.Sane) :
    (srv.served arrivals w).Sane := by
  induction arrivals generalizing w with
  | nil => exact hsane
  | cons arrival arrivals ih =>
    exact ih (hsane.next (serviceSession_advances hacyclic hsrv hbase arrival hsane.headed))

/-- Once an object is gone, its `__destruct` is not run again. -/
theorem spent_run {arrivals : List Arrival} {w : World μ σ} (hsane : w.Sane)
    (hdistinct : (srv.served arrivals w).Distinct) {id : Key} (hid : w.Spent id) :
    srv.destructsOver id arrivals w = 0 := by
  induction arrivals generalizing w with
  | nil =>
    exact (teardownSession_accounts hacyclic hsrv hbase hsane.headed).1.destructions_of_absent hid.2
  | cons arrival arrivals ih =>
    have hstep := serviceSession_advances hacyclic hsrv hbase arrival hsane.headed
    have hsane' := hsane.next hstep
    obtain ⟨hspent, hzero⟩ :=
      hid.next hstep (distinct_of_served hacyclic hsrv hbase hsane'.headed hdistinct)
    rw [destructsOver, ih hsane' hdistinct hspent, destructsIn, hzero, ite_self]

/-- What is there is destroyed by one of the frames, or by the teardown. -/
theorem alive_run {arrivals : List Arrival} {w : World μ σ} (hsane : w.Sane)
    (hdistinct : (srv.served arrivals w).Distinct) {id ns c : Key}
    (hhook : srv.registry.HasDestruct ns c) (hid : w.Alive id ns c) :
    srv.destructsOver id arrivals w = 1 := by
  induction arrivals generalizing w with
  | nil =>
    obtain ⟨obj, hobj, hisA⟩ := hid
    obtain ⟨haccounts, hempty⟩ := teardownSession_accounts hacyclic hsrv hbase hsane.headed
    rcases haccounts.present id obj hobj with ⟨⟨obj', hobj', -⟩, -⟩ | ⟨-, honce⟩
    · rw [hempty] at hobj'
      cases hobj'
    · exact honce ns c hhook hisA
  | cons arrival arrivals ih =>
    have hstep := serviceSession_advances hacyclic hsrv hbase arrival hsane.headed
    have hsane' := hsane.next hstep
    have hdistinct' := distinct_of_served hacyclic hsrv hbase hsane'.headed hdistinct
    rw [destructsOver, destructsIn]
    rcases hid.next hstep hdistinct' hsane hhook with ⟨halive, hzero⟩ | ⟨hcalls, hspent, honce⟩
    · rw [ih hsane' hdistinct halive]
      split_ifs with hcalls
      · rfl
      · rw [hzero (Bool.eq_false_iff.2 hcalls)]
    · rw [spent_run hacyclic hsrv hbase hsane' hdistinct hspent, honce, hcalls]
      rfl

/-- Before its id is given away, no object has it. -/
theorem unborn_run {before after : List Arrival} {w : World μ σ} (hsane : w.Sane)
    (hdistinct : (srv.served before w).Distinct) {id : Key}
    (hid : ¬ (srv.served before w).Drawn id) :
    srv.destructsOver id (before ++ after) w =
      srv.destructsOver id after (srv.served before w) := by
  induction before generalizing w with
  | nil => rfl
  | cons arrival before ih =>
    have hstep := serviceSession_advances hacyclic hsrv hbase arrival hsane.headed
    have hsane' := hsane.next hstep
    have hnone : ¬ w.Drawn id := by
      intro hdrawn
      obtain ⟨-, hids, hlast⟩ := served_drawn hacyclic hsrv hbase before hsane'.headed
      obtain ⟨n, hn, heq⟩ := hdrawn.next hstep
      exact hid ⟨n, hn.trans_le hlast, heq.trans (congrFun hids.symm n)⟩
    have hzero : destructions id (srv.serviceSession arrival w).trace = 0 := by
      refine destructions_eq_zero fun hran => ?_
      obtain ⟨id', heq, hhas⟩ := hstep.there hran
      cases heq
      exact hnone (hsane.drawn id hhas)
    rw [List.cons_append, destructsOver, ih hsane' hdistinct hid, destructsIn, hzero, ite_self,
      Nat.zero_add]
    rfl

/-- Whatever `__destruct` is run on has been reported. -/
theorem ran_reported {arrivals : List Arrival} {w : World μ σ} (hheaded : w.Headed)
    {object : Option Key} (hran : .ran object HOOK_DESTRUCT ∈ srv.sessionTrace arrivals w) :
    ∃ id, object = some id ∧ (w.ctx.Has id ∨ ∃ e ∈ srv.sessionTrace arrivals w, e.Reports id) := by
  induction arrivals generalizing w with
  | nil =>
    obtain ⟨id, heq, hhas⟩ :=
      (teardownSession_accounts hacyclic hsrv hbase hheaded).1.there object hran
    exact ⟨id, heq, .inl hhas⟩
  | cons arrival arrivals ih =>
    have hstep := serviceSession_advances hacyclic hsrv hbase arrival hheaded
    rcases List.mem_append.1 hran with hran | hran
    · obtain ⟨id, heq, hhas⟩ := hstep.there hran
      exact ⟨id, heq, .inl hhas⟩
    · obtain ⟨id, heq, hhas | ⟨e, he, hreports⟩⟩ := ih (hstep.headed hheaded) hran
      · refine ⟨id, heq, (hstep.has hhas).imp_right fun ⟨e, he, hreports⟩ => ?_⟩
        exact ⟨e, List.mem_append_left _ he, hreports⟩
      · exact ⟨id, heq, .inr ⟨e, List.mem_append_right _ he, hreports⟩⟩

end Server

/-! ## Calls, and code that interferes -/

/-- The default of `on_create_object` makes objects of the class that it is asked for. -/
theorem createObject_keeps (hfactory : ∀ ns col c p, reg.lookup ns = some col →
    Collection.find col c = some p → p.factory = none) (ns klass : Key) (w : World μ σ) :
    w.SameObjects reg (createObject reg ns klass w).2 ∧
      ∀ obj, (createObject reg ns klass w).1 = .ok (some obj) → obj.Headed := by
  rw [createObject_world]
  refine ⟨.refl w, fun obj hobj => ?_⟩
  have hmade : createInstance reg ns klass = .ok none ∨
      createInstance reg ns klass = .ok (some (instantiate ns klass)) := by
    unfold createInstance
    cases hcol : reg.lookup ns with
    | none => exact .inl rfl
    | some col =>
      cases hfind : Collection.find col klass with
      | none => simp only [hfind, true_or]
      | some p => simp only [hfind, hfactory ns col klass p hcol hfind, or_true]
  unfold createObject at hobj
  rcases hmade with hmade | hmade <;> rw [hmade] at hobj <;> cases hobj
  exact ⟨ns, klass, ofClass_instantiate ns klass⟩

/-- What the methods of the example do: nothing, say that their object is of another class, or
take all objects out. -/
inductive Act where
  | nothing
  | rename
  | takeOut

def act : MethodImpl Act Unit
  | .nothing, _, s => (.ok [], s)
  | .rename, _, s => (.ok [], { s.1 with fields := insert CLASS (.key 8) s.1.fields }, s.2)
  | .takeOut, _, s => (.ok [], s.1, { s.2 with ctx := { s.2.ctx with objects := ∅ } })

def hooked : Prototype Act where
  fields := [(CLASS, .key 9), (NAMESPACE, .key 0), (PARENT, .key 0)]
  methods := [(20, .rename), (21, .takeOut), (HOOK_DESTRUCT, .nothing)]
  factorySorted := Prototype.noFactory_sorted
  factoryThrows := Prototype.noFactory_throws

/-- A class that inherits its `__destruct`, and was registered again, in namespace 1, after. -/
def inheriting : Prototype Act where
  fields := [(CLASS, .key 10), (NAMESPACE, .key 1), (PARENT, .key 9)]
  factorySorted := Prototype.noFactory_sorted
  factoryThrows := Prototype.noFactory_throws

def hookedServer (impl : MethodImpl Act Unit) : Server Act Unit where
  registry := [(0, [(9, hooked)])]
  impl

def registeredTwice : Server Act Unit where
  registry := [(0, [(9, hooked), (10, inheriting)]), (1, [(10, inheriting)])]
  impl := act

def begun : World Act Unit where
  ctx := {}
  app := ()
  ids := fun n => UInt32.ofNat (n + 1)

/-- The first object is created, under id 1. -/
def creating (klass : Key) : Envelope :=
  { kind := KIND_REQUEST, op := OP_INSTANTIATE, requestId := 7,
    payload := [(FIELD_KLASS, .key klass)] }

def calling (name : Key) : Envelope :=
  { kind := KIND_REQUEST, op := OP_CALL, requestId := 8, objectId := 1
    payload := [(FIELD_NAME, .key name)] }

def clearing : Envelope := { kind := KIND_REQUEST, op := OP_CLEAR, requestId := 9, objectId := 1 }

/-- The methods of this one do nothing. -/
def harmless : Server Act Unit := hookedServer fun _ _ s => (.ok [], s)

theorem harmless_lookup {ns c : Key} {col : Collection Act} {p : Prototype Act}
    (hcol : harmless.registry.lookup ns = some col) (hfind : Collection.find col c = some p) :
    ns = 0 ∧ c = 9 ∧ p = hooked := by
  obtain ⟨rfl, rfl⟩ := Prod.mk.inj (List.mem_singleton.1 (mem_of_lookup hcol))
  obtain ⟨rfl, rfl⟩ := Prod.mk.inj (List.mem_singleton.1 (mem_of_lookup hfind))
  exact ⟨rfl, rfl, rfl⟩

theorem harmless_acyclic : harmless.registry.Acyclic := by
  intro ns col hcol
  refine Collection.acyclic_of_chains fun k hk => ?_
  cases hfind : Collection.find col k with
  | none => rw [Collection.chain, Chase.chain_of_none _ hfind]; rfl
  | some p =>
    obtain ⟨rfl, rfl, -⟩ := harmless_lookup hcol hfind
    cases hcol
    rfl

theorem harmless_keeps : harmless.KeepsObjects where
  headed ns col c p hcol hfind := by
    obtain ⟨rfl, rfl, rfl⟩ := harmless_lookup hcol hfind
    exact ⟨rfl, _, rfl⟩
  impl _ _ s := ⟨.refl s.2, .refl s.1⟩
  onCreateObject := createObject_keeps fun ns col c p hcol hfind => by
    obtain ⟨-, -, rfl⟩ := harmless_lookup hcol hfind
    rfl
  authenticate _ h := by cases h
  onAuthenticated _ w := .refl w

end Bison
