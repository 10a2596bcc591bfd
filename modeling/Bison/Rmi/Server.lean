import Bison.Rmi.Instance

/-!
# The request handlers of a server

The handlers of server.cpp, from the decoded frame to the frames sent back. A request is served
by one dispatch worker, under the lock of the session's context, so one request is one step.

- `Server`: what is fixed while sessions are served. Code that applications supply (methods,
  object creation, the authentication module, a bridge's upstream) is a function here.
- `ServerM`: programs on the world of a session. What was done before an exception stays done.
- `serviceSession`, `teardownSession`: a frame arrives, the session ends.

An unordered container is iterated in an order of its own, `iterate`. The texts of describe,
dictionary and help come from attributes, which the registry of the model does not hold.
-/

namespace Bison

open SortedMap

/-- What `on_create_object` does by default: `create_instance`. -/
def createObject {μ σ : Type} (reg : Registry μ) (ns klass : Key) (w : World μ σ) :
    Except Text (Option (Instance μ)) × World μ σ :=
  match createInstance reg ns klass with
  | .ok made => (.ok (made.map fun fields => ⟨fields, []⟩), w)
  | .error e => (.error ((Failure.ofExn e).what.getD []), w)

theorem createObject_world {μ σ : Type} (reg : Registry μ) (ns klass : Key) (w : World μ σ) :
    (createObject reg ns klass w).2 = w := by
  unfold createObject
  split <;> rfl

/-- An order in which the keys of an unordered container come. -/
abbrev Order := { f : List Key → List Key // ∀ keys, (f keys).Perm keys }

def Order.ascending : Order := ⟨id, fun _ => .refl _⟩

/-- What a server is made of. -/
structure Server (μ σ : Type) where
  registry : Registry μ
  /-- What a method does. -/
  impl : MethodImpl μ σ
  onCreateObject : Key → Key → World μ σ → Except Text (Option (Instance μ)) × World μ σ :=
    createObject registry
  /-- `authenticate`, with the identity it finds, if there is an authentication module. -/
  authModule : Option (Fields → World μ σ → Except Text (Bool × Text) × World μ σ) := none
  onAuthenticated : Text → World μ σ → Except Text Unit × World μ σ := fun _ w => (.ok (), w)
  /-- What a bridge gets from its upstream for a request; the upstream is in the state of the
  application. -/
  upstream : Option (Envelope → σ → Except Text Fields × σ) := none
  /-- The replies to describe (for all classes and for one), dictionary and help. -/
  describeAll : Fields := Dynamic.empty
  describeClass : Key → Fields := fun _ => Dynamic.empty
  dictionary : Fields := Dynamic.empty
  helpText : Fields := Dynamic.empty
  iterate : Order := Order.ascending

/-- Programs on the world of a session. -/
abbrev ServerM (μ σ : Type) := Program Failure SessionEffect (World μ σ)

variable {μ σ : Type}

/-- A frame that has arrived: its envelope, or why it could not be decoded. -/
abbrev Arrival := Except Text Envelope

/-! ## Answers -/

/-- The envelope of `send_response` (server.cpp:496). -/
def responseEnvelope (env : Envelope) (op : Key) (payload : Fields) : Envelope :=
  { kind := KIND_RESPONSE, op, requestId := env.requestId, objectId := env.objectId, payload }

/-- The envelope of `send_error` (server.cpp:518). -/
def errorEnvelope (env : Envelope) (op code : Key) (message : Text) : Envelope :=
  { kind := KIND_RESPONSE, op, requestId := env.requestId, objectId := env.objectId
    error := errorPayload code message }

def sendResponse (env : Envelope) (op : Key) (payload : Fields) : ServerM μ σ Unit :=
  Program.emit (.sent (responseEnvelope env op payload))

def sendError (env : Envelope) (op code : Key) (message : Text) : ServerM μ σ Unit :=
  Program.emit (.sent (errorEnvelope env op code message))

/-! ## Objects -/

/-- Run a program on an object that is not in the context, and give the object back. -/
def withNewObject {α : Type} (obj : Instance μ) (p : ObjectM μ σ α) :
    ServerM μ σ (α × Instance μ) := fun w =>
  match p (obj, w) with
  | ⟨.ok a, trace, (obj, w)⟩ => ⟨.ok (a, obj), trace, w⟩
  | ⟨.error e, trace, (_, w)⟩ => ⟨.error e, trace, w⟩

/-- The object is the one in the context, while the program runs on it. -/
def Context.storeObject (ctx : Context μ) (id : Key) (obj : Instance μ) : Context μ :=
  if (ctx.objects.lookup id).isSome then { ctx with objects := ctx.objects.insert id obj }
  else ctx

theorem Context.storeObject_self {ctx : Context μ} {id : Key} {obj : Instance μ}
    (h : ctx.objects.lookup id = some obj) : ctx.storeObject id obj = ctx := by
  unfold storeObject
  rw [if_pos (h ▸ rfl), FinMap.insert_eq_self h]

theorem Context.lookup_storeObject (ctx : Context μ) (id k : Key) (obj : Instance μ) :
    (ctx.storeObject id obj).objects.lookup k =
      if k = id then (ctx.objects.lookup id).map fun _ => obj else ctx.objects.lookup k := by
  unfold storeObject
  cases hid : ctx.objects.lookup id with
  | none =>
    rw [if_neg (by simp)]
    split_ifs with heq
    · rw [heq, hid]
      rfl
    · rfl
  | some old => exact FinMap.lookup_insert id k obj ctx.objects

/-- Run a program on object `id` of the context. -/
def onObject {α : Type} (id : Key) (obj : Instance μ) (p : ObjectM μ σ α) : ServerM μ σ α :=
  fun w =>
    match p (obj, w) with
    | ⟨result, trace, (obj, w)⟩ => ⟨result, trace, { w with ctx := w.ctx.storeObject id obj }⟩

/-- `ctx.objects.find(oid)`. -/
def findObject (id : Key) : ServerM μ σ (Option (Instance μ)) := do
  return (← Program.get).ctx.objects.lookup id

def modifyCtx (f : Context μ → Context μ) : ServerM μ σ Unit :=
  Program.modify fun w => { w with ctx := f w.ctx }

/-- `generate_id` (shared/ids.cpp:32). -/
def generateId : ServerM μ σ Key :=
  Program.ofState fun w => (.ok (w.ids w.drawn), { w with drawn := w.drawn + 1 })

/-- File a new object under a new id. -/
def fileObject (obj : Instance μ) : ServerM μ σ Key := do
  let id ← generateId
  modifyCtx fun ctx => ctx.putObject id obj
  return id

def sessionId : ServerM μ σ Key := Program.ofState fun w => (.ok w.ctx.sessionId, w)

/-- The world in which the handler of a request of this group runs. -/
def World.inGroup (w : World μ σ) (group : Key) : World μ σ :=
  { w with ctx := { w.ctx with currentGroup := group } }

/-- The entry of a group is taken out. -/
def World.dropGroup (w : World μ σ) (group : Key) : World μ σ :=
  { w with ctx := { w.ctx with groups := w.ctx.groups.erase group } }

/-- How the handlers of requests on an object begin. -/
def withObject (env : Envelope) (op : Key) (p : Instance μ → ServerM μ σ Unit) :
    ServerM μ σ Unit := do
  match ← findObject env.objectId with
  | none => sendError env op ERR_OBJECT_NOT_FOUND (ascii "Object not found")
  | some obj => p obj

theorem findObject_run (id : Key) (w : World μ σ) :
    findObject id w = ⟨.ok (w.ctx.objects.lookup id), [], w⟩ := rfl

theorem withObject_found {env : Envelope} {w : World μ σ} {obj : Instance μ}
    (h : w.ctx.objects.lookup env.objectId = some obj) (op : Key)
    (p : Instance μ → ServerM μ σ Unit) : withObject env op p w = p obj w := by
  rw [withObject, Program.bind_ok (findObject_run _ w), h]
  rfl

theorem withObject_missing {env : Envelope} {w : World μ σ}
    (h : w.ctx.objects.lookup env.objectId = none) (op : Key)
    (p : Instance μ → ServerM μ σ Unit) :
    withObject env op p w =
      sendError env op ERR_OBJECT_NOT_FOUND (ascii "Object not found") w := by
  rw [withObject, Program.bind_ok (findObject_run _ w), h]
  rfl

/-! ## Payloads -/

/-- `read_key_token` (server.cpp:149). -/
def readKeyToken (reg : Registry μ) (name : Key) : DynamicM Key := do
  match ← findField reg name with
  | none => throw (.runtimeError "Missing key token field")
  | some (.key k) => return k
  | some (.hash h) => return h
  | some _ => throw (.runtimeError "Invalid key token type")

/-- The object a `dynamic_ptr` field points to, or an empty one. -/
def pointee : Value → Fields
  | .object fields => fields
  | _ => Dynamic.empty

/-- The namespace an `instantiate` names, or the exception that is caught. -/
def namedNamespace (reg : Registry μ) : DynamicM (Except Text Key) := do
  match ← findField reg FIELD_NAMESPACE with
  | none => return .ok 0
  | some _ => fun p =>
    match readKeyToken reg FIELD_NAMESPACE p with
    | .ok (ns, p) => .ok (.ok ns, p)
    | .error e =>
      match (Failure.ofExn e).what with
      | some what => .ok (.error what, p)
      | none => .error e

/-- A namespace that the payload holds as a key. -/
theorem namedNamespace_key {reg : Registry μ} {p : Fields} {ns : Key}
    (hns : keyAt p FIELD_NAMESPACE = some ns) : namedNamespace reg p = .ok (.ok ns, p) := by
  have hfound : findField reg FIELD_NAMESPACE p = .ok (some (.key ns), p) := by
    rw [findField, keyAt_eq_some_iff.1 hns]
  have hread : readKeyToken reg FIELD_NAMESPACE p = .ok (ns, p) := by
    rw [readKeyToken, Decoder.bind_ok hfound]
    rfl
  rw [namedNamespace, Decoder.bind_ok hfound]
  simp only [hread]

/-- The method and the arguments a `call` names. -/
def callParams (reg : Registry μ) : DynamicM (Key × Fields) := do
  let name ← readKeyToken reg FIELD_NAME
  let args ← subscript reg FIELD_PARAMS
  return (name, pointee args)

/-- The keys of a payload that `set` copies. -/
def isPatchKey (k : Key) : Bool := k ≠ CLASS ∧ k ≠ PARENT ∧ k ≠ NAMESPACE

/-- The keys of a payload that make it a projection. -/
def isProjectionKey (k : Key) : Bool := k ≠ CLASS ∧ k ≠ PARENT

/-- What writing the first field to a new object leaves, before that field: its namespace and
class are resolved. -/
def resolvedEmpty : Fields := insert NAMESPACE (.key 0) Dynamic.empty

/-- The payload of a `connect` response. -/
def connectReply : Fields := insert FIELD_VERSION (.int32 PROTOCOL_VERSION) resolvedEmpty

/-- The payload of an `instantiate` response. -/
def instantiateReply (id klass : Key) : Fields :=
  insert FIELD_KLASS (.key klass) (insert FIELD_OBJECT_ID (.key id) resolvedEmpty)

theorem keyAt_instantiateReply (id klass : Key) :
    keyAt (instantiateReply id klass) FIELD_OBJECT_ID = some id := by
  rw [instantiateReply, keyAt_insert, if_neg (by decide), keyAt_insert, if_pos rfl]

namespace Server

variable (srv : Server μ σ)

/-! ## Handlers -/

/-- `handle_connect` (server.cpp:607). -/
def handleConnect (env : Envelope) : ServerM μ σ Unit :=
  match srv.authModule with
  | none => sendResponse env OP_CONNECT connectReply
  | some authenticate => do
    let (accepted, identity) ← external (authenticate env.payload)
    if accepted then
      Program.emit .authenticated
      external (srv.onAuthenticated identity)
      sendResponse env OP_CONNECT connectReply
    else sendError env OP_CONNECT ERR_ACCESS_DENIED (ascii "Authentication failed")

/-- `handle_describe` (server.cpp:623). -/
def handleDescribe (env : Envelope) : ServerM μ σ Unit := do
  let (requested, _) ← liftE (asKey FIELD_KLASS env.payload)
  if requested = 0 then sendResponse env OP_DESCRIBE srv.describeAll
  else if srv.registry.any fun col => (Collection.find col.2 requested).isSome then
    sendResponse env OP_DESCRIBE (srv.describeClass requested)
  else sendError env OP_DESCRIBE ERR_CLASS_NOT_FOUND (ascii "Class not found")

/-- `on_check_class` (server.hpp:311). -/
def onCheckClass (ns klass : Key) : Bool :=
  match srv.registry.lookup ns with
  | none => false
  | some col => (Collection.find col klass).isSome

/-- The `__construct` hook of a new object. What it threw, if it did. -/
def constructHook (p : Fields) : ObjectM μ σ (Except Text Unit) := do
  match ← findMethodM srv.registry HOOK_CONSTRUCT with
  | none => return .ok ()
  | some _ => tryCatch do
    let (params, _) ← liftE (subscript srv.registry FIELD_PARAMS p)
    let _ ← call srv.registry srv.impl none HOOK_CONSTRUCT (pointee params)

/-- `handle_instantiate` (server.cpp:703). -/
def handleInstantiate (env : Envelope) : ServerM μ σ Unit := do
  let (klass, p) ← liftE (asKey FIELD_KLASS env.payload)
  let (named, p) ← liftE (namedNamespace srv.registry p)
  match named with
  | .error what => sendError env OP_INSTANTIATE ERR_INVALID_REQUEST what
  | .ok ns =>
    if srv.onCheckClass ns klass then
      match ← tryCatch (external (srv.onCreateObject ns klass)) with
      | .error what => sendError env OP_INSTANTIATE ERR_INTERNAL_ERROR what
      | .ok none =>
        sendError env OP_INSTANTIATE ERR_INTERNAL_ERROR (ascii "on_create_object returned null")
      | .ok (some obj) =>
        match ← withNewObject obj (srv.constructHook p) with
        | (.error what, _) =>
          sendError env OP_INSTANTIATE ERR_INTERNAL_ERROR (ascii "__construct failed: " ++ what)
        | (.ok (), obj) =>
          let id ← fileObject obj
          sendResponse env OP_INSTANTIATE (instantiateReply id klass)
    else
      sendError env OP_INSTANTIATE ERR_CLASS_NOT_FOUND
        (ascii "Class not registered in requested namespace")

/-- `clear` puts the object back to what its class says (server.cpp:771). -/
def resetObject : ObjectM μ σ Unit := do
  let klass ← onFields (asKey CLASS)
  let declared ← onFields (findField srv.registry NAMESPACE)
  let ns := match declared with
    | some (.key ns) => ns
    | _ => 0
  let fresh : Instance μ := match srv.registry.lookup ns with
    | none => ⟨instantiate 0 klass, []⟩
    | some col =>
      match Collection.find col klass with
      | some proto => ⟨proto.fields, proto.methods⟩
      | none => ⟨instantiate ns klass, []⟩
  Program.modify fun s => (fresh, s.2)

/-- `handle_clear` (server.cpp:763). -/
def handleClear (env : Envelope) : ServerM μ σ Unit :=
  withObject env OP_CLEAR fun obj => do
    onObject env.objectId obj do
      srv.resetObject
      let _ ← runHook srv.registry srv.impl env.objectId HOOK_CLEAR Dynamic.empty
    sendResponse env OP_CLEAR Dynamic.empty

/-- `apply_patch` (server.cpp:822). -/
def applyPatch (patch : Fields) : ObjectM μ σ Unit :=
  Program.forEach (fun entry => onFields (writeField srv.registry entry.1 entry.2))
    (patch.filter fun entry => isPatchKey entry.1)

/-- The part of `handle_set` that works on the object. What `__setter` threw, if it did. -/
def setFields (payload : Fields) (id : Key) : ObjectM μ σ (Except Text Unit) := do
  match ← runHook srv.registry srv.impl id HOOK_SETTER payload with
  | some (.error what) => return .error what
  | some (.ok patched) =>
    srv.applyPatch patched
    return .ok ()
  | none =>
    srv.applyPatch payload
    return .ok ()

/-- `handle_set` (server.cpp:806). -/
def handleSet (env : Envelope) : ServerM μ σ Unit :=
  withObject env OP_SET fun obj => do
    match ← onObject env.objectId obj (srv.setFields env.payload env.objectId) with
    | .error what =>
      sendError env OP_SET ERR_INTERNAL_ERROR (ascii "__setter failed: " ++ what)
    | .ok () => sendResponse env OP_SET Dynamic.empty

/-- Copy the projected fields that the object has into the result. -/
def project (keys : List Key) (result : Fields) : ObjectM μ σ Fields :=
  match keys with
  | [] => return result
  | k :: keys => do
    match ← onFields (findField srv.registry k) with
    | none => project keys result
    | some v =>
      let (_, result) ← liftE (writeField srv.registry k v result)
      project keys result

/-- A copy of the object, or of its projected fields. -/
def readFields : List Key → ObjectM μ σ Fields
  | [] => do return (← Program.get).1.fields
  | keys => srv.project keys Dynamic.empty

/-- The part of `handle_get` that works on the object. -/
def getFields (projection : Fields) (id : Key) : ObjectM μ σ Fields := do
  let result ← srv.readFields ((projection.map Prod.fst).filter isProjectionKey)
  match ← runHook srv.registry srv.impl id HOOK_GETTER result with
  | some (.ok result) => return result
  | _ => return result

/-- `handle_get` (server.cpp:848). -/
def handleGet (env : Envelope) : ServerM μ σ Unit :=
  withObject env OP_GET fun obj => do
    let result ← onObject env.objectId obj (srv.getFields env.payload env.objectId)
    sendResponse env OP_GET result

/-- `handle_call` (server.cpp:894). -/
def handleCall (env : Envelope) : ServerM μ σ Unit :=
  withObject env OP_CALL fun obj => do
    let ((name, args), _) ← liftE (callParams srv.registry env.payload)
    match ← tryCatch (onObject env.objectId obj
        (call srv.registry srv.impl env.objectId name args)) with
    | .ok result => if env.oneway then return () else sendResponse env OP_CALL result
    | .error what =>
      if env.oneway then return () else sendError env OP_CALL ERR_INTERNAL_ERROR what

/-- The `__destruct` hook of an object in the context. -/
def destruct (id : Key) (obj : Instance μ) : ServerM μ σ Unit :=
  onObject id obj do
    let _ ← runHook srv.registry srv.impl id HOOK_DESTRUCT Dynamic.empty

/-- `handle_destroy` (server.cpp:926). -/
def handleDestroy (env : Envelope) : ServerM μ σ Unit :=
  withObject env OP_DESTROY fun obj => do
    srv.destruct env.objectId obj
    modifyCtx fun ctx => ctx.eraseObject env.objectId
    sendResponse env OP_DESTROY Dynamic.empty

/-- One object of a group that is destroyed. -/
def destroyMember (id : Key) : ServerM μ σ Unit := do
  match ← findObject id with
  | none => return ()
  | some obj =>
    srv.destruct id obj
    modifyCtx fun ctx => ctx.eraseObject id

/-- `handle_destroy_group` (server.cpp:947). -/
def handleDestroyGroup (env : Envelope) : ServerM μ σ Unit := do
  match (← Program.get).ctx.groups.lookup env.group with
  | none => sendResponse env OP_DESTROY_GROUP Dynamic.empty
  | some ids =>
    if env.group = 0 then sendResponse env OP_DESTROY_GROUP Dynamic.empty
    else
      Program.modify fun w => w.dropGroup env.group
      Program.forEach srv.destroyMember (srv.iterate.1 ids)
      sendResponse env OP_DESTROY_GROUP Dynamic.empty

theorem handleDestroyGroup_unknown {env : Envelope} {w : World μ σ}
    (h : w.ctx.groups.lookup env.group = none ∨ env.group = 0) :
    srv.handleDestroyGroup env w = sendResponse env OP_DESTROY_GROUP Dynamic.empty w := by
  unfold handleDestroyGroup
  rw [Program.bind_ok (Program.get_run w)]
  cases hids : w.ctx.groups.lookup env.group with
  | none => rfl
  | some ids =>
    have hgroup : env.group = 0 := h.resolve_left (by simp [hids])
    simp only [if_pos hgroup]
    rfl

theorem handleDestroyGroup_known {env : Envelope} {w : World μ σ} {ids : List Key}
    (hids : w.ctx.groups.lookup env.group = some ids) (hgroup : env.group ≠ 0) :
    srv.handleDestroyGroup env w =
      (Program.forEach srv.destroyMember (srv.iterate.1 ids) >>= fun _ =>
        sendResponse env OP_DESTROY_GROUP Dynamic.empty) (w.dropGroup env.group) := by
  unfold handleDestroyGroup
  rw [Program.bind_ok (Program.get_run w), hids]
  simp only [if_neg hgroup]
  rfl

/-- One object of a context that is cleaned up. -/
def destructMember (id : Key) : ServerM μ σ Unit := do
  match ← findObject id with
  | none => return ()
  | some obj => srv.destruct id obj

/-- `cleanup_context` (server.cpp:1111). -/
def cleanupContext : ServerM μ σ Unit := do
  Program.forEach srv.destructMember (srv.iterate.1 (← Program.get).ctx.objects.keys)
  modifyCtx fun ctx => { ctx with objects := ∅, groups := ∅ }

/-- `handle_disconnect` (server.cpp:982). -/
def handleDisconnect (env : Envelope) : ServerM μ σ Unit := do
  srv.cleanupContext
  sendResponse env OP_DISCONNECT Dynamic.empty
  Program.emit .closed

end Server

/-! ## Dispatch -/

/-- The operations of `handler_map` (server.cpp:578). -/
inductive Op where
  | connect
  | describe
  | instantiate
  | clear
  | set
  | get
  | call
  | destroy
  | destroyGroup
  | disconnect
  | dictionary
  | help
  deriving Repr, DecidableEq

namespace Op

/-- The key of an operation. -/
def token : Op → Key
  | connect => OP_CONNECT
  | describe => OP_DESCRIBE
  | instantiate => OP_INSTANTIATE
  | clear => OP_CLEAR
  | set => OP_SET
  | get => OP_GET
  | call => OP_CALL
  | destroy => OP_DESTROY
  | destroyGroup => OP_DESTROY_GROUP
  | disconnect => OP_DISCONNECT
  | dictionary => OP_DICTIONARY
  | help => OP_HELP

def all : List Op :=
  [connect, describe, instantiate, clear, set, get, call, destroy, destroyGroup, disconnect,
    dictionary, help]

/-- `handler_map.find`. -/
def find (op : Key) : Option Op := all.find? fun o => o.token = op

theorem find_token (o : Op) : find o.token = some o := by
  cases o <;> rfl

theorem token_of_find {op : Key} {o : Op} (h : find op = some o) : o.token = op := by
  have := List.find?_some h
  simpa using this

theorem ne_zero_of_find {op : Key} {o : Op} (h : find op = some o) : op ≠ 0 := by
  rw [← token_of_find h]
  cases o <;> decide

/-- The operations a bridge relays (bridge.cpp:181). -/
def relayed : Op → Bool
  | instantiate | set | get | call | clear | destroy => true
  | _ => false

end Op

namespace Server

variable (srv : Server μ σ)

/-- The handler of an operation. -/
def handle (env : Envelope) : Op → ServerM μ σ Unit
  | .connect => srv.handleConnect env
  | .describe => srv.handleDescribe env
  | .instantiate => srv.handleInstantiate env
  | .clear => srv.handleClear env
  | .set => srv.handleSet env
  | .get => srv.handleGet env
  | .call => srv.handleCall env
  | .destroy => srv.handleDestroy env
  | .destroyGroup => srv.handleDestroyGroup env
  | .disconnect => srv.handleDisconnect env
  | .dictionary => sendResponse env OP_DICTIONARY srv.dictionary
  | .help => sendResponse env OP_HELP srv.helpText

/-- The request a bridge sends upstream (client.cpp:198). -/
def relayedEnvelope (sessionId requestId : Key) (env : Envelope) : Envelope :=
  { kind := KIND_REQUEST, op := env.op, requestId, objectId := env.objectId, group := sessionId
    payload := env.payload, oneway := env.oneway }

/-- `send_request_with_group(…).get()`. -/
def sendUpstream (upstream : Envelope → σ → Except Text Fields × σ) (env : Envelope) :
    ServerM μ σ Fields :=
  external fun w =>
    let r := upstream env w.app
    (r.1, { w with app := r.2 })

/-- `bridge::try_handle_request` behind its test of the operation (bridge.cpp:194). -/
def relay (upstream : Envelope → σ → Except Text Fields × σ) (env : Envelope) :
    ServerM μ σ Unit := do
  let requestId ← generateId
  let sessionId ← sessionId
  match ← tryCatch (sendUpstream upstream (relayedEnvelope sessionId requestId env)) with
  | .ok result => sendResponse env env.op result
  | .error what => sendError env env.op ERR_INTERNAL_ERROR what

/-- `handle_request` behind `try_handle_request`. -/
def dispatch (env : Envelope) : ServerM μ σ Unit := do
  Program.modify fun w => w.inGroup env.group
  match Op.find env.op with
  | some o => srv.handle env o
  | none => sendError env env.op ERR_UNKNOWN_OPERATION (ascii "Unknown operation")

/-- `handle_request` (server.cpp:546). -/
def handleRequest (env : Envelope) : ServerM μ σ Unit :=
  if env.op = 0 then
    sendError env OP_CONNECT ERR_INVALID_REQUEST (ascii "Missing operation token")
  else if env.kind ≠ KIND_REQUEST then
    sendError env OP_CONNECT ERR_INVALID_REQUEST (ascii "Unexpected non-request envelope")
  else if env.version ≠ PROTOCOL_VERSION then
    sendError env OP_CONNECT ERR_UNSUPPORTED_VERSION (ascii "Unsupported protocol version")
  else
    match srv.upstream, Op.find env.op with
    | some upstream, some o => if o.relayed then relay upstream env else srv.dispatch env
    | _, _ => srv.dispatch env

/-- A request is refused, relayed or dispatched. -/
theorem handleRequest_cases (env : Envelope) :
    (∃ op code message, srv.handleRequest env = sendError env op code message) ∨
      (∃ upstream, srv.upstream = some upstream ∧ srv.handleRequest env = relay upstream env) ∨
      srv.handleRequest env = srv.dispatch env := by
  unfold handleRequest
  split
  · exact .inl ⟨_, _, _, rfl⟩
  split
  · exact .inl ⟨_, _, _, rfl⟩
  split
  · exact .inl ⟨_, _, _, rfl⟩
  split
  · next upstream o hup ho =>
    split
    · exact .inr (.inl ⟨upstream, hup, rfl⟩)
    · exact .inr (.inr rfl)
  · exact .inr (.inr rfl)

theorem dispatch_run {env : Envelope} {o : Op} (ho : Op.find env.op = some o) (w : World μ σ) :
    srv.dispatch env w = srv.handle env o (w.inGroup env.group) := by
  unfold dispatch
  rw [ho]
  rfl

/-- `service_session` (server.cpp:421). -/
def serviceSession (frame : Arrival) : ServerM μ σ Unit :=
  match frame with
  | .error what => sendError {} OP_CONNECT ERR_INVALID_REQUEST what
  | .ok env => do
    match ← tryCatch (srv.handleRequest env) with
    | .ok () => return ()
    | .error what => sendError env env.op ERR_INVALID_REQUEST what

/-- What the server does with a request that it does not relay. -/
theorem handleRequest_local {env : Envelope} {o : Op} (hkind : env.kind = KIND_REQUEST)
    (hversion : env.version = PROTOCOL_VERSION) (ho : Op.find env.op = some o)
    (hbase : o.relayed = true → srv.upstream = none) (w : World μ σ) :
    srv.handleRequest env w = srv.handle env o (w.inGroup env.group) := by
  unfold handleRequest
  rw [if_neg (Op.ne_zero_of_find ho), if_neg (not_not.2 hkind), if_neg (not_not.2 hversion), ho]
  cases hup : srv.upstream with
  | none => exact srv.dispatch_run ho w
  | some upstream =>
    cases hrelayed : o.relayed with
    | false =>
      simp only [hrelayed, Bool.false_eq_true, if_false]
      exact srv.dispatch_run ho w
    | true =>
      rw [hbase hrelayed] at hup
      cases hup

theorem serviceSession_ok {env : Envelope} {w w' : World μ σ} {trace : List SessionEffect}
    (h : srv.handleRequest env w = ⟨.ok (), trace, w'⟩) :
    srv.serviceSession (.ok env) w = ⟨.ok (), trace, w'⟩ := by
  rw [serviceSession, Program.bind_ok (tryCatch_ok h)]
  simp only [Program.pure_run, List.append_nil]

theorem serviceSession_thrown {env : Envelope} {w w' : World μ σ} {what : Text}
    {trace : List SessionEffect}
    (h : srv.handleRequest env w = ⟨.error (.thrown what), trace, w'⟩) :
    srv.serviceSession (.ok env) w =
      ⟨.ok (), trace ++ [.sent (errorEnvelope env env.op ERR_INVALID_REQUEST what)], w'⟩ := by
  rw [serviceSession, Program.bind_ok (tryCatch_thrown h)]
  rfl

theorem serviceSession_hangs {env : Envelope} {w w' : World μ σ} {trace : List SessionEffect}
    (h : srv.handleRequest env w = ⟨.error .hangs, trace, w'⟩) :
    srv.serviceSession (.ok env) w = ⟨.error .hangs, trace, w'⟩ :=
  Program.bind_error (Program.attempt_uncaught h rfl) _

/-- After what the request has sent, at most the error that it threw is sent. -/
theorem serviceSession_trace (env : Envelope) (w : World μ σ) :
    ∃ sent, (srv.serviceSession (.ok env) w).trace = (srv.handleRequest env w).trace ++ sent := by
  rcases hrun : srv.handleRequest env w with ⟨(what | _) | u, trace, w'⟩
  · rw [serviceSession_thrown srv hrun]
    exact ⟨_, rfl⟩
  · rw [serviceSession_hangs srv hrun]
    exact ⟨[], (List.append_nil _).symm⟩
  · rw [serviceSession_ok srv hrun]
    exact ⟨[], (List.append_nil _).symm⟩

theorem serviceSession_state (env : Envelope) (w : World μ σ) :
    (srv.serviceSession (.ok env) w).state = (srv.handleRequest env w).state := by
  rcases hrun : srv.handleRequest env w with ⟨(what | _) | u, trace, w'⟩
  · rw [serviceSession_thrown srv hrun]
  · rw [serviceSession_hangs srv hrun]
  · rw [serviceSession_ok srv hrun]

/-! Serving a frame does not depend on the group the last request left. -/

/-- The worlds differ at most in the current group. -/
def SameButGroup (w w' : World μ σ) : Prop := w.inGroup 0 = w'.inGroup 0

theorem SameButGroup.inGroup {w w' : World μ σ} (h : SameButGroup w w') (group : Key) :
    w.inGroup group = w'.inGroup group :=
  congrArg (·.inGroup group) h

theorem SameButGroup.eq {w w' : World μ σ} (h : SameButGroup w w') :
    w' = w.inGroup w'.ctx.currentGroup :=
  (h.inGroup w'.ctx.currentGroup).symm

theorem relay_coupled (upstream : Envelope → σ → Except Text Fields × σ) (env : Envelope) :
    Program.Coupled SameButGroup (relay upstream env : ServerM μ σ Unit) (relay upstream env) := by
  refine .bind (.ofState fun w w' h => ?_) fun requestId => .bind (.ofState fun w w' h => ?_)
    fun sessionId => .bind (.attempt (.ofState fun w w' h => ?_)) fun answered => ?_
  · rw [h.eq]
    exact ⟨rfl, rfl⟩
  · rw [h.eq]
    exact ⟨rfl, rfl⟩
  · rw [h.eq]
    exact ⟨rfl, rfl⟩
  · cases answered <;> exact .emit _

theorem dispatch_coupled (env : Envelope) :
    Program.Coupled SameButGroup (srv.dispatch env) (srv.dispatch env) := by
  intro w w' h
  have heq : srv.dispatch env w = srv.dispatch env w' := by
    simp only [dispatch, Program.bind_run, Program.modify, Program.andThen, h.inGroup]
  rw [heq]
  exact ⟨rfl, rfl, rfl⟩

theorem serviceSession_coupled (frame : Arrival) :
    Program.Coupled SameButGroup (srv.serviceSession frame) (srv.serviceSession frame) := by
  cases frame with
  | error what => exact .emit _
  | ok env =>
    refine .bind (.attempt ?_) fun served => ?_
    · rcases srv.handleRequest_cases env with ⟨op, code, message, h⟩ |
        ⟨upstream, -, h⟩ | h <;> rw [h]
      · exact .emit _
      · exact relay_coupled upstream env
      · exact srv.dispatch_coupled env
    · cases served with
      | ok u => exact .pure ()
      | error what => exact .emit _

/-- What a bridge sends upstream when a session ends (bridge.cpp:171). -/
def destroyGroupEnvelope (sessionId requestId : Key) : Envelope :=
  { kind := KIND_REQUEST, op := OP_DESTROY_GROUP, requestId, group := sessionId, oneway := true }

/-- `on_session_destroyed`: a bridge destroys what the session created upstream. -/
def onSessionDestroyed : ServerM μ σ Unit :=
  match srv.upstream with
  | none => return ()
  | some upstream => do
    let requestId ← generateId
    let sessionId ← sessionId
    let _ ← tryCatch (sendUpstream upstream (destroyGroupEnvelope sessionId requestId))

/-- `teardown_session` (server.cpp:468). -/
def teardownSession : ServerM μ σ Unit := do
  srv.onSessionDestroyed
  srv.cleanupContext

end Server

end Bison
