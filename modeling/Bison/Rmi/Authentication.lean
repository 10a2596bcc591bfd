import Bison.Rmi.Server

/-!
# The authentication gate

A server with an authentication module serves every request of a session whether or not
`authenticate` has accepted it: only `handle_connect` asks the module. So the gate holds where
everything that comes too early is refused for another reason.

- `Refused`: a request that is refused whoever sends it.
- `TooEarly`: what comes before the session is authenticated meets a condition.
- `authenticationGate`: **main result**, if everything that comes too early is a connect or is
  refused, then until the session is authenticated it is only sent errors, and nothing but the
  authentication module has changed it.
-/

namespace Bison

open SortedMap

variable {μ σ : Type}

/-- An error is sent. -/
def SessionEffect.Refuses (e : SessionEffect) : Prop :=
  ∃ env op code message, code ≠ 0 ∧ e = .sent (errorEnvelope env op code message)

def SessionEffect.isAuthenticated : SessionEffect → Bool
  | .authenticated => true
  | _ => false

/-- What a session does until `authenticate` has returned `true`. -/
def beforeAuthenticated (trace : List SessionEffect) : List SessionEffect :=
  trace.takeWhile fun e => !e.isAuthenticated

theorem beforeAuthenticated_append {trace : List SessionEffect}
    (h : ∀ e ∈ trace, e.isAuthenticated = false) (trace' : List SessionEffect) :
    beforeAuthenticated (trace ++ trace') = trace ++ beforeAuthenticated trace' :=
  List.takeWhile_append_of_pos fun e he => by simp [h e he]

theorem SessionEffect.Refuses.not_authenticated {e : SessionEffect} (h : e.Refuses) :
    e.isAuthenticated = false := by
  obtain ⟨env, op, code, message, -, rfl⟩ := h
  rfl

namespace Server

variable (srv : Server μ σ)

/-- A request that is refused whoever sends it. -/
inductive Refused (env : Envelope) (w : World μ σ) : Prop
  | noOperation (h : env.op = 0)
  | notRequest (h : env.kind ≠ KIND_REQUEST)
  | version (h : env.version ≠ PROTOCOL_VERSION)
  | unknown (h : Op.find env.op = none)
  | describe (hop : env.op = OP_DESCRIBE)
      (h : ∀ klass p, asKey FIELD_KLASS env.payload = .ok (klass, p) →
        klass ≠ 0 ∧ (srv.registry.any fun col => (Collection.find col.2 klass).isSome) = false)
  | instantiate (hop : env.op = OP_INSTANTIATE) (hbase : srv.upstream = none)
      (h : ∀ klass p ns p', asKey FIELD_KLASS env.payload = .ok (klass, p) →
        namedNamespace srv.registry p = .ok (.ok ns, p') → srv.onCheckClass ns klass = false)
  | object (o : Op) (ho : o ∈ [.clear, .set, .get, .call, .destroy]) (hop : env.op = o.token)
      (hbase : srv.upstream = none) (h : w.ctx.objects.lookup env.objectId = none)
  | params (hop : env.op = OP_CALL) (hbase : srv.upstream = none)
      (h : ∀ r, callParams srv.registry env.payload ≠ .ok r)

/-- Every frame that comes before the session is authenticated meets `P`. -/
def TooEarly (P : World μ σ → Arrival → Prop) : World μ σ → List Arrival → Prop
  | _, [] => True
  | w, frame :: frames =>
    P w frame ∧
      ((∀ e ∈ (srv.serviceSession frame w).trace, e.isAuthenticated = false) →
        TooEarly P (srv.serviceSession frame w).state frames)

/-- A connect, or a request that is refused, or no request at all. -/
def ConnectOrRefused (w : World μ σ) : Arrival → Prop
  | .error _ => True
  | .ok env => env.op = OP_CONNECT ∨ srv.Refused env w

/-- The request reaches `authenticate`, which returns `true`. -/
def Accepts (authenticate : Fields → World μ σ → Except Text (Bool × Text) × World μ σ)
    (env : Envelope) (w : World μ σ) : Prop :=
  env.kind = KIND_REQUEST ∧ env.version = PROTOCOL_VERSION ∧
    ∃ identity, (authenticate env.payload (w.inGroup env.group)).1 = .ok (true, identity)

/-! ## What is refused -/

/-- How a request ends that is refused in world `w`: nothing was done. -/
inductive Rejects (w : World μ σ) : Program.Outcome Failure SessionEffect (World μ σ) Unit → Prop
  | answers (env : Envelope) (op code : Key) (message : Text) {w' : World μ σ} (hcode : code ≠ 0)
      (hw : SameButGroup w w') : Rejects w (sendError env op code message w')
  | throws (e : Failure) {w' : World μ σ} (hw : SameButGroup w w') : Rejects w ⟨.error e, [], w'⟩

variable {srv}

theorem handleDescribe_rejects {env : Envelope} {w w' : World μ σ} (hw : SameButGroup w w')
    (h : ∀ klass p, asKey FIELD_KLASS env.payload = .ok (klass, p) →
      klass ≠ 0 ∧ (srv.registry.any fun col => (Collection.find col.2 klass).isSome) = false) :
    Rejects w (srv.handleDescribe env w') := by
  unfold handleDescribe
  cases hread : asKey FIELD_KLASS env.payload with
  | error e =>
    rw [liftE_bind_error rfl]
    exact .throws _ hw
  | ok r =>
    obtain ⟨klass, p⟩ := r
    obtain ⟨hklass, hnone⟩ := h klass p hread
    simp only [liftE_bind_ok rfl, if_neg hklass, hnone]
    exact .answers env _ _ _ (by decide) hw

theorem handleInstantiate_rejects {env : Envelope} {w w' : World μ σ} (hw : SameButGroup w w')
    (h : ∀ klass p ns p', asKey FIELD_KLASS env.payload = .ok (klass, p) →
      namedNamespace srv.registry p = .ok (.ok ns, p') → srv.onCheckClass ns klass = false) :
    Rejects w (srv.handleInstantiate env w') := by
  unfold handleInstantiate
  cases hread : asKey FIELD_KLASS env.payload with
  | error e =>
    rw [liftE_bind_error rfl]
    exact .throws _ hw
  | ok r =>
    rw [liftE_bind_ok rfl]
    cases hnamed : namedNamespace srv.registry r.2 with
    | error e =>
      simp only [hnamed]
      exact .throws _ hw
    | ok named =>
      simp only [hnamed]
      rw [liftE_bind_ok rfl]
      rcases named with ⟨what | ns, p⟩
      · exact .answers env _ _ _ (by decide) hw
      · simp only [h _ _ _ _ hread hnamed]
        exact .answers env _ _ _ (by decide) hw

theorem withObject_rejects {env : Envelope} {op : Key} {w w' : World μ σ} (hw : SameButGroup w w')
    (h : w'.ctx.objects.lookup env.objectId = none) (p : Instance μ → ServerM μ σ Unit) :
    Rejects w (withObject env op p w') := by
  rw [withObject_missing h]
  exact .answers env _ _ _ (by decide) hw

theorem handleCall_rejects {env : Envelope} {w w' : World μ σ} (hw : SameButGroup w w')
    (h : ∀ r, callParams srv.registry env.payload ≠ .ok r) :
    Rejects w (srv.handleCall env w') := by
  unfold handleCall
  cases hobj : w'.ctx.objects.lookup env.objectId with
  | none => exact withObject_rejects hw hobj _
  | some obj =>
    rw [withObject_found hobj]
    cases hread : callParams srv.registry env.payload with
    | error e => exact .throws _ hw
    | ok r => exact (h r hread).elim

theorem Refused.rejects {env : Envelope} {w : World μ σ} (h : srv.Refused env w) :
    Rejects w (srv.handleRequest env w) := by
  have hsame : SameButGroup w (w.inGroup env.group) := rfl
  by_cases hop : env.op = 0
  · unfold handleRequest
    rw [if_pos hop]
    exact .answers env _ _ _ (by decide) rfl
  by_cases hkind : env.kind = KIND_REQUEST
  swap
  · unfold handleRequest
    rw [if_neg hop, if_pos hkind]
    exact .answers env _ _ _ (by decide) rfl
  by_cases hversion : env.version = PROTOCOL_VERSION
  swap
  · unfold handleRequest
    rw [if_neg hop, if_neg (not_not.2 hkind), if_pos hversion]
    exact .answers env _ _ _ (by decide) rfl
  -- The request is dispatched, and its handler refuses it.
  have hlocal {o : Op} (ho : env.op = o.token) (hbase : o.relayed = true → srv.upstream = none) :=
    handleRequest_local srv hkind hversion (ho ▸ Op.find_token o) hbase w
  cases h with
  | noOperation h => exact (hop h).elim
  | notRequest h => exact (h hkind).elim
  | version h => exact (h hversion).elim
  | unknown h =>
    have hdispatch : srv.handleRequest env = srv.dispatch env := by
      unfold handleRequest
      rw [if_neg hop, if_neg (not_not.2 hkind), if_neg (not_not.2 hversion), h]
      cases srv.upstream <;> rfl
    rw [hdispatch, dispatch, h]
    exact .answers env _ _ _ (by decide) hsame
  | describe hdescribe h =>
    rw [hlocal (o := .describe) hdescribe fun h => by cases h]
    exact handleDescribe_rejects hsame h
  | instantiate hinstantiate hbase h =>
    rw [hlocal (o := .instantiate) hinstantiate fun _ => hbase]
    exact handleInstantiate_rejects hsame h
  | object o ho hobject hbase h =>
    rw [hlocal hobject fun _ => hbase]
    have hnone : (w.inGroup env.group).ctx.objects.lookup env.objectId = none := h
    simp only [List.mem_cons, List.not_mem_nil, or_false] at ho
    rcases ho with rfl | rfl | rfl | rfl | rfl <;> exact withObject_rejects hsame hnone _
  | params hcall hbase h =>
    rw [hlocal (o := .call) hcall fun _ => hbase]
    exact handleCall_rejects hsame h

/-- Where a request is rejected, at most an error is sent, and the session is as it was. -/
theorem Rejects.serviceSession {env : Envelope} {w : World μ σ}
    (h : Rejects w (srv.handleRequest env w)) :
    (∀ e ∈ (srv.serviceSession (.ok env) w).trace, e.Refuses) ∧
      SameButGroup w (srv.serviceSession (.ok env) w).state := by
  generalize hrun : srv.handleRequest env w = r at h
  cases h with
  | answers env' op code message hcode hw =>
    rw [serviceSession_ok srv hrun]
    refine ⟨fun e he => ⟨env', op, code, message, hcode, ?_⟩, hw⟩
    simpa using he
  | throws e hw =>
    cases e with
    | thrown what =>
      rw [serviceSession_thrown srv hrun]
      refine ⟨fun e he => ⟨env, env.op, ERR_INVALID_REQUEST, what, by decide, ?_⟩, hw⟩
      simpa using he
    | hangs =>
      rw [serviceSession_hangs srv hrun]
      exact ⟨nofun, hw⟩

/-- A connect that `authenticate` does not accept is answered with an error. -/
theorem connect_refused {authenticate} (hauth : srv.authModule = some authenticate)
    {env : Envelope} (hop : env.op = OP_CONNECT) {w : World μ σ}
    (h : ¬ Accepts authenticate env w) :
    ∀ e ∈ (srv.serviceSession (.ok env) w).trace, e.Refuses := by
  by_cases hkind : env.kind = KIND_REQUEST
  swap
  · exact (Refused.notRequest hkind).rejects.serviceSession.1
  by_cases hversion : env.version = PROTOCOL_VERSION
  swap
  · exact (Refused.version hversion).rejects.serviceSession.1
  have hrun := handleRequest_local srv hkind hversion (o := .connect) (hop ▸ rfl) nofun w
  rcases hanswer : authenticate env.payload (w.inGroup env.group) with ⟨what | answer, w'⟩
  · have hthrown : srv.handleConnect env (w.inGroup env.group) =
        ⟨.error (.thrown what), [], w'⟩ := by
      simp only [handleConnect, hauth, Program.bind_run, external, Program.ofState, hanswer]
      rfl
    rw [serviceSession_thrown srv (hrun.trans hthrown)]
    exact fun e he => ⟨env, env.op, ERR_INVALID_REQUEST, what, by decide, by simpa using he⟩
  · obtain ⟨accepted, identity⟩ := answer
    cases accepted with
    | true => exact (h ⟨hkind, hversion, identity, by rw [hanswer]⟩).elim
    | false =>
      have hrejected : srv.handleConnect env (w.inGroup env.group) =
          sendError env OP_CONNECT ERR_ACCESS_DENIED (ascii "Authentication failed") w' := by
        simp only [handleConnect, hauth, Program.bind_run, external, Program.ofState, hanswer]
        rfl
      rw [serviceSession_ok srv (hrun.trans hrejected)]
      exact fun e he => ⟨env, OP_CONNECT, ERR_ACCESS_DENIED, ascii "Authentication failed",
        by decide, by simpa [sendError, Program.emit] using he⟩

/-- Where `authenticate` returns `true`, nothing has been sent before. -/
theorem connect_accepted {authenticate} (hauth : srv.authModule = some authenticate)
    {env : Envelope} (hop : env.op = OP_CONNECT) {w : World μ σ} (h : Accepts authenticate env w) :
    ∃ rest, (srv.serviceSession (.ok env) w).trace = .authenticated :: rest := by
  obtain ⟨hkind, hversion, identity, haccept⟩ := h
  have hrun := handleRequest_local srv hkind hversion (o := .connect) (hop ▸ rfl) nofun w
  have haccepted : ∃ rest, (srv.handleConnect env (w.inGroup env.group)).trace =
      .authenticated :: rest := by
    rcases hanswer : authenticate env.payload (w.inGroup env.group) with ⟨answer, w'⟩
    rw [hanswer] at haccept
    cases haccept
    simp only [handleConnect, hauth, Program.bind_run, external, Program.ofState, hanswer]
    exact ⟨_, rfl⟩
  obtain ⟨rest, hrest⟩ := haccepted
  obtain ⟨sent, hsent⟩ := serviceSession_trace srv env w
  rw [hrun] at hsent
  refine ⟨rest ++ sent, ?_⟩
  rw [hsent]
  exact congrArg (· ++ sent) hrest

/-! ## Runs -/

def isConnect : Arrival → Bool
  | .error _ => false
  | .ok env => env.op = OP_CONNECT

/-- A frame that is neither a connect nor served only has errors sent. -/
theorem ConnectOrRefused.refused {w : World μ σ} {frame : Arrival}
    (h : srv.ConnectOrRefused w frame) (hconnect : isConnect frame = false) :
    (∀ e ∈ (srv.serviceSession frame w).trace, e.Refuses) ∧
      SameButGroup w (srv.serviceSession frame w).state := by
  cases frame with
  | error what =>
    refine ⟨fun e he => ⟨{}, OP_CONNECT, ERR_INVALID_REQUEST, what, by decide, ?_⟩, rfl⟩
    simpa [Server.serviceSession, sendError, Program.emit] using he
  | ok env =>
    rcases h with hop | h
    · simp [isConnect, hop] at hconnect
    · exact h.rejects.serviceSession

theorem ConnectOrRefused.spec {authenticate} (hauth : srv.authModule = some authenticate)
    {w : World μ σ} {frame : Arrival} (h : srv.ConnectOrRefused w frame) :
    (∀ e ∈ (srv.serviceSession frame w).trace, e.Refuses) ∨
      ∃ rest, (srv.serviceSession frame w).trace = .authenticated :: rest := by
  cases hconnect : isConnect frame with
  | false => exact .inl (h.refused hconnect).1
  | true =>
    cases frame with
    | error what => cases hconnect
    | ok env =>
      have hop : env.op = OP_CONNECT := by simpa [isConnect] using hconnect
      by_cases haccepts : Accepts authenticate env w
      · exact .inr (connect_accepted hauth hop haccepts)
      · exact .inl (connect_refused hauth hop haccepts)

/-- Until the session is authenticated, all that is sent is errors. -/
theorem gate_trace {authenticate} (hauth : srv.authModule = some authenticate)
    (frames : List Arrival) (w : World μ σ) (h : srv.TooEarly srv.ConnectOrRefused w frames) :
    ∀ e ∈ beforeAuthenticated (Program.forEach srv.serviceSession frames w).trace, e.Refuses := by
  induction frames generalizing w with
  | nil => exact nofun
  | cons frame frames ih =>
    obtain ⟨hframe, hlater⟩ := h
    rcases hrun : srv.serviceSession frame w with ⟨result, trace, w'⟩
    have hspec := hframe.spec hauth
    rw [hrun] at hspec hlater
    rcases hspec with hrefused | ⟨rest, hrest⟩
    · have hnot : ∀ e ∈ trace, e.isAuthenticated = false :=
        fun e he => (hrefused e he).not_authenticated
      cases result with
      | error e =>
        rw [Program.forEach_error hrun]
        intro e he
        exact hrefused e (List.takeWhile_sublist _ |>.subset he)
      | ok u =>
        rw [Program.forEach_ok hrun, beforeAuthenticated_append hnot]
        intro e he
        rcases List.mem_append.1 he with he | he
        · exact hrefused e he
        · exact ih w' (hlater hnot) e he
    · -- The module has accepted the session: the trace before that is empty.
      have hempty : beforeAuthenticated
        (Program.forEach srv.serviceSession (frame :: frames) w).trace
          = [] := by
        have : trace = .authenticated :: rest := hrest
        subst this
        cases result with
        | error e =>
          rw [Program.forEach_error hrun]
          rfl
        | ok u =>
          rw [Program.forEach_ok hrun]
          rfl
      rw [hempty]
      exact nofun

/-- Until the session is authenticated, only the connects have an effect on it. -/
theorem gate_state (frames : List Arrival) {w w' : World μ σ} (hw : SameButGroup w w')
    (h : srv.TooEarly srv.ConnectOrRefused w frames)
    (hserved : (Program.forEach srv.serviceSession frames w).result = .ok ())
    (hnot : ∀ e ∈ (Program.forEach srv.serviceSession frames w).trace,
      e.isAuthenticated = false) :
    SameButGroup (Program.forEach srv.serviceSession frames w).state
      (Program.forEach srv.serviceSession (frames.filter isConnect) w').state := by
  induction frames generalizing w w' with
  | nil => exact hw
  | cons frame frames ih =>
    obtain ⟨hframe, hlater⟩ := h
    rcases hrun : srv.serviceSession frame w with ⟨e | u, trace, v⟩
    · rw [Program.forEach_error hrun] at hserved
      cases hserved
    rw [Program.forEach_ok hrun] at hserved hnot ⊢
    rw [hrun] at hlater
    have hearly := hlater fun e he => hnot e (List.mem_append_left _ he)
    have hnot' := fun e he => hnot e (List.mem_append_right _ he)
    cases hconnect : isConnect frame with
    | false =>
      have hsame := (hframe.refused hconnect).2
      rw [hrun] at hsame
      rw [List.filter_cons_of_neg (by simp [hconnect])]
      exact ih (hsame.symm.trans hw) hearly hserved hnot'
    | true =>
      -- The connect has the same effect in both worlds.
      obtain ⟨hresult, -, hstate⟩ := srv.serviceSession_coupled frame w w' hw
      rcases hrun' : srv.serviceSession frame w' with ⟨result', trace', v'⟩
      rw [hrun, hrun'] at hresult hstate
      cases hresult
      rw [List.filter_cons_of_pos hconnect, Program.forEach_ok hrun']
      exact ih hstate hearly hserved hnot'

variable (srv)

/-- What the authentication gate promises of the frames that arrive, from world `w` on. -/
structure Gated (authenticate : Fields → World μ σ → Except Text (Bool × Text) × World μ σ)
    (frames : List Arrival) (w : World μ σ) : Prop where
  /-- Before `authenticate` has returned `true`, no payload is sent and no method runs. -/
  refuses : ∀ e ∈ beforeAuthenticated (Program.forEach srv.serviceSession frames w).trace, e.Refuses
  /-- Until then only connects change the session. -/
  unchanged : (Program.forEach srv.serviceSession frames w).result = .ok () →
    (∀ e ∈ (Program.forEach srv.serviceSession frames w).trace, e.isAuthenticated = false) →
      SameButGroup (Program.forEach srv.serviceSession frames w).state
        (Program.forEach srv.serviceSession (frames.filter isConnect) w).state
  /-- A connect that is refused does not authenticate the session. -/
  refusedConnect : ∀ env v, env.op = OP_CONNECT → ¬ Accepts authenticate env v →
    ∀ e ∈ (srv.serviceSession (.ok env) v).trace, e.isAuthenticated = false

/-- **Main result**: the gate holds in every run in which all that comes too early is a connect or
is refused. -/
theorem authenticationGate {authenticate} (hauth : srv.authModule = some authenticate)
    {frames : List Arrival} {w : World μ σ} (h : srv.TooEarly srv.ConnectOrRefused w frames) :
    srv.Gated authenticate frames w where
  refuses := gate_trace hauth frames w h
  unchanged := gate_state frames rfl h
  refusedConnect _ _ hop hnot e he := (connect_refused hauth hop hnot e he).not_authenticated

/-! ## An instantiate before the connect -/

/-- A class without fields or methods of its own. -/
def classFive : Prototype Unit where
  fields := [(CLASS, .key 5), (NAMESPACE, .key 0), (PARENT, .key 0)]
  factorySorted := Prototype.noFactory_sorted
  factoryThrows := Prototype.noFactory_throws

/-- A server with one class, whose authentication module accepts nobody. -/
def locked : Server Unit Unit where
  registry := [(0, [(5, classFive)])]
  impl := fun _ _ s => (.ok [], s)
  authModule := some fun _ w => (.ok (false, []), w)

def newSession : World Unit Unit where
  ctx := {}
  app := ()
  ids := fun n => UInt32.ofNat (n + 1)

def instantiateFive : Envelope :=
  { kind := KIND_REQUEST, op := OP_INSTANTIATE, requestId := 7
    payload := [(FIELD_KLASS, .key 5)] }

/-- The instantiate is answered with a payload. -/
theorem instantiate_unauthenticated :
    ¬ locked.Gated (fun _ w => (.ok (false, []), w)) [.ok instantiateFive] newSession := by
  intro h
  have hsent : beforeAuthenticated
      (Program.forEach locked.serviceSession [.ok instantiateFive] newSession).trace =
        [.sent (responseEnvelope instantiateFive OP_INSTANTIATE (instantiateReply 1 5))] := rfl
  have hrefuses := h.refuses
  rw [hsent] at hrefuses
  obtain ⟨env, op, code, message, -, heq⟩ := hrefuses _ (List.mem_singleton_self _)
  cases congrArg Envelope.payload (SessionEffect.sent.inj heq)

/-- An instantiate of a class that is not registered comes too early, and so does a connect
that is refused. -/
theorem gated_unknownClass :
    locked.Gated (fun _ w => (.ok (false, []), w))
      [.ok { instantiateFive with payload := [(FIELD_KLASS, .key 6)] },
        .ok { instantiateFive with op := OP_CONNECT, payload := [] }] newSession :=
  authenticationGate locked rfl
    ⟨.inr (.instantiate rfl rfl (by rintro _ _ _ _ ⟨⟩ ⟨⟩; rfl)),
      fun _ => ⟨.inl rfl, fun _ => trivial⟩⟩

end Server

end Bison
