import Bison.Rmi.Bridge

/-!
# The standalone backend

The operations of a client on objects in its own process (standalone.cpp), without envelopes and
without a server. Its worker runs one operation at a time on the session's context; what the
handlers throw becomes the exception of the operation's future.

- `Standalone.serve`: what the worker does for a request.
- `ObjectRequest.envelope`: the envelope in which a client sends the same request to a server.
- `ClassLibrary`: classes that both backends are given, with methods that work on their object and
  on the state of the application.
-/

namespace Bison

open SortedMap

variable {μ σ : Type}

/-- What a standalone backend is made of. -/
structure Standalone (μ σ : Type) where
  registry : Registry μ
  impl : MethodImpl μ σ
  onCreateObject : Key → Key → World μ σ → Except Text (Option (Instance μ)) × World μ σ :=
    createObject registry

/-! ## Requests -/

/-- An operation on objects that a client asks a backend for. `ι` names the objects. -/
inductive ObjectRequest (ι : Type) where
  | instantiate (ns klass : Key) (params : Fields)
  | clear (id : ι)
  | set (id : ι) (payload : Fields)
  | get (id : ι) (projection : Fields)
  | call (id : ι) (payload : Fields) (oneway : Bool)
  | destroy (id : ι)

namespace ObjectRequest

variable {ι κ : Type}

def map (f : ι → κ) : ObjectRequest ι → ObjectRequest κ
  | instantiate ns klass params => instantiate ns klass params
  | clear id => clear (f id)
  | set id payload => set (f id) payload
  | get id projection => get (f id) projection
  | call id payload oneway => call (f id) payload oneway
  | destroy id => destroy (f id)

/-- The object it names. -/
def target : ObjectRequest ι → Option ι
  | instantiate _ _ _ => none
  | clear id | set id _ | get id _ | call id _ _ | destroy id => some id

/-- Nothing is sent back. -/
def oneway : ObjectRequest ι → Bool
  | call _ _ oneway => oneway
  | _ => false

/-- The request as a server gets it: nested objects have a namespace. -/
def crossed : ObjectRequest ι → ObjectRequest ι
  | instantiate ns klass params => instantiate ns klass (withNamespace (completeEntries params))
  | clear id => clear id
  | set id payload => set id (completeEntries payload)
  | get id projection => get id (completeEntries projection)
  | call id payload oneway => call id (completeEntries payload) oneway
  | destroy id => destroy id

def op : ObjectRequest ι → Op
  | instantiate _ _ _ => .instantiate
  | clear _ => .clear
  | set _ _ => .set
  | get _ _ => .get
  | call _ _ _ => .call
  | destroy _ => .destroy

/-- The payload of an `instantiate` request (client.cpp:102). -/
def instantiatePayload (ns klass : Key) (params : Fields) : Fields :=
  insert FIELD_PARAMS (.object params)
    (insert FIELD_NAMESPACE (.key ns) [(FIELD_KLASS, .key klass)])

def payload : ObjectRequest ι → Fields
  | instantiate ns klass params => instantiatePayload ns klass params
  | set _ payload | get _ payload | call _ payload _ => payload
  | clear _ | destroy _ => Dynamic.empty

/-- `send_request` (client.cpp:193). -/
def envelope (requestId : Key) (r : ObjectRequest Key) : Envelope :=
  { kind := KIND_REQUEST, op := r.op.token, requestId, objectId := r.target.getD 0
    payload := r.payload, oneway := r.oneway }

end ObjectRequest

/-! ## Handlers -/

/-- How the handlers of requests on an object begin. -/
def withStored {α : Type} (id : Key) (p : Instance μ → ServerM μ σ α) : ServerM μ σ α := do
  match ← findObject id with
  | none => Program.throw (.thrown (ascii "Object not found"))
  | some obj => p obj

theorem withStored_found {α : Type} {id : Key} {w : World μ σ} {obj : Instance μ}
    (h : w.ctx.objects.lookup id = some obj) (p : Instance μ → ServerM μ σ α) :
    withStored id p w = p obj w := by
  rw [withStored, Program.bind_ok (findObject_run _ w), h]
  rfl

theorem withStored_missing {α : Type} {id : Key} {w : World μ σ}
    (h : w.ctx.objects.lookup id = none) (p : Instance μ → ServerM μ σ α) :
    withStored id p w = ⟨.error (.thrown (ascii "Object not found")), [], w⟩ := by
  rw [withStored, Program.bind_ok (findObject_run _ w), h]
  rfl

namespace Standalone

variable (sa : Standalone μ σ)

/-- The class is registered in the namespace (standalone.cpp:481). -/
def registered (ns klass : Key) : Bool :=
  match sa.registry.lookup ns with
  | none => false
  | some col => (Collection.find col klass).isSome

/-- The `__construct` hook of an object that has just been stored. -/
def construct (id : Key) (params : Fields) : ObjectM μ σ Unit := do
  match ← findMethodM sa.registry HOOK_CONSTRUCT with
  | none => return ()
  | some _ =>
    let _ ← call sa.registry sa.impl id HOOK_CONSTRUCT params

/-- `handle_instantiate` (standalone.cpp:480). -/
def handleInstantiate (ns klass : Key) (params : Fields) : ServerM μ σ Fields :=
  if sa.registered ns klass then do
    let oid ← generateId
    match ← external (sa.onCreateObject ns klass) with
    -- A null object is stored and dereferenced, which is undefined: it does not return.
    | none => Program.throw .hangs
    | some obj =>
      modifyCtx fun ctx => { ctx with objects := ctx.objects.insert oid obj }
      onObject oid obj (sa.construct oid params)
      return instantiateReply oid klass
  else
    Program.throw (.thrown
      (ascii "Class not registered in requested namespace: " ++ decimal klass.toNat))

/-- `clear` puts the object back to what its class says (standalone.cpp:521). -/
def resetObject : ObjectM μ σ Unit := do
  let klassKey ← onFields (asKey CLASS)
  let nsField ← onFields (findField sa.registry NAMESPACE)
  let ns := match nsField with
    | some (.key ns) => ns
    | _ => 0
  let obj : Instance μ := match sa.registry.lookup ns with
    | none => ⟨instantiate 0 klassKey, []⟩
    | some col =>
      match Collection.find col klassKey with
      | some proto => ⟨proto.fields, proto.methods⟩
      | none => ⟨instantiate ns klassKey, []⟩
  Program.modify fun s => (obj, s.2)

/-- `handle_clear` (standalone.cpp:513). -/
def handleClear (id : Key) : ServerM μ σ Fields :=
  withStored id fun obj => do
    onObject id obj do
      sa.resetObject
      let _ ← runHook sa.registry sa.impl id HOOK_CLEAR Dynamic.empty
    return Dynamic.empty

/-- What `set` writes: the payload, or what `__setter` makes of it. -/
def effectivePatch (id : Key) (payload : Fields) : ObjectM μ σ Fields := do
  match ← findMethodM sa.registry HOOK_SETTER with
  | none => return payload
  | some _ => call sa.registry sa.impl id HOOK_SETTER payload

/-- The part of `handle_set` that works on the object. -/
def setFields (id : Key) (payload : Fields) : ObjectM μ σ Unit := do
  let patch ← sa.effectivePatch id payload
  Program.forEach (fun entry => onFields (writeField sa.registry entry.1 entry.2))
    (patch.filter fun entry => isPatchKey entry.1)

/-- `handle_set` (standalone.cpp:559). -/
def handleSet (id : Key) (payload : Fields) : ServerM μ σ Fields :=
  withStored id fun obj => do
    onObject id obj (sa.setFields id payload)
    return Dynamic.empty

/-- `result[k] = *f` for the projected fields that the object has. -/
def project : List Key → Fields → ObjectM μ σ Fields
  | [], result => return result
  | k :: keys, result => do
    match ← onFields (findField sa.registry k) with
    | none => project keys result
    | some f =>
      let (_, result) ← liftE (writeField sa.registry k f result)
      project keys result

/-- A copy of the object, or of its projected fields. -/
def snapshot (keys : List Key) : ObjectM μ σ Fields :=
  if keys = [] then return (← Program.get).1.fields else sa.project keys Dynamic.empty

/-- The part of `handle_get` that works on the object. -/
def getFields (id : Key) (projection : Fields) : ObjectM μ σ Fields := do
  let result ← sa.snapshot ((projection.map Prod.fst).filter isProjectionKey)
  match ← findMethodM sa.registry HOOK_GETTER with
  | none => return result
  | some _ =>
    match ← tryCatch (call sa.registry sa.impl id HOOK_GETTER result) with
    | .ok result => return result
    | .error _ => return result

/-- `handle_get` (standalone.cpp:596). -/
def handleGet (id : Key) (projection : Fields) : ServerM μ σ Fields :=
  withStored id fun obj => do
    let result ← onObject id obj (sa.getFields id projection)
    return result

/-- `handle_call` (standalone.cpp:638). -/
def handleCall (id : Key) (payload : Fields) (oneway : Bool) : ServerM μ σ Fields :=
  withStored id fun obj => do
    let ((name, args), _) ← liftE (callParams sa.registry payload)
    let res ← onObject id obj (call sa.registry sa.impl id name args)
    return if oneway then Dynamic.empty else res

/-- `handle_destroy` (standalone.cpp:665). -/
def handleDestroy (id : Key) : ServerM μ σ Fields :=
  withStored id fun obj => do
    onObject id obj do
      let _ ← runHook sa.registry sa.impl id HOOK_DESTRUCT Dynamic.empty
    modifyCtx fun ctx => ctx.eraseObject id
    return Dynamic.empty

/-- What the worker runs for a request (standalone.cpp:215, 275). -/
def serve : ObjectRequest Key → ServerM μ σ Fields
  | .instantiate ns klass params => sa.handleInstantiate ns klass params
  | .clear id => sa.handleClear id
  | .set id payload => sa.handleSet id payload
  | .get id projection => sa.handleGet id projection
  | .call id payload oneway => sa.handleCall id payload oneway
  | .destroy id => sa.handleDestroy id

end Standalone

/-! ## Classes for both backends -/

/-- What a method does that works on its object and the application's state. -/
abbrev MethodBody (μ σ : Type) :=
  μ → Fields → Instance μ × σ → Except Text Fields × (Instance μ × σ)

/-- The method in a session. -/
def MethodBody.onWorld (body : MethodBody μ σ) : MethodImpl μ σ := fun m params (obj, w) =>
  let r := body m params (obj, w.app)
  (r.1, r.2.1, { w with app := r.2.2 })

/-- Classes whose `__construct` hooks do not throw. -/
structure ClassLibrary (μ σ : Type) where
  registry : Registry μ
  body : MethodBody μ σ
  constructs : ∀ ns col klass proto m, registry.lookup ns = some col →
    Collection.find col klass = some proto → proto.methods.lookup HOOK_CONSTRUCT = some m →
      ∀ params s, ∃ r, (body m params s).1 = .ok r
  /-- What a factory makes is an object that holds its class and, if it has one, its namespace as
  keys. -/
  makes : ∀ ns col klass proto made, registry.lookup ns = some col →
    Collection.find col klass = some proto → proto.factory = some (.ok made) →
      ∃ fields, made = some fields ∧ HeaderKeyed fields

namespace ClassLibrary

variable (lib : ClassLibrary μ σ)

def standalone : Standalone μ σ where
  registry := lib.registry
  impl := lib.body.onWorld

def server : Server μ σ where
  registry := lib.registry
  impl := lib.body.onWorld

end ClassLibrary

end Bison
