import Bison.Core.Copies
import Bison.Core.Sides
import Bison.Rmi.Server

/-!
# What the standalone backend shares

The handlers of the standalone backend (standalone.cpp) on objects in memory. There is no wire: a
payload and a reply are objects themselves, and what they hold could be what stored objects hold.

- `Application`: the methods and hooks, and what makes new objects.
- `handleSet`, `handleGet`, …: what the handlers do once the object is found.
- `Session`, `Action`: what callers do with what they have, and what they ask for.
- `reached_isolated`: **main result**, callers have nothing that is stored, unless a `get` of
  single fields answers an object.
- `projected_shared`: such a `get` shares it.

A value that is moved into a variable or a reply keeps its address: what it has been moved out of is
not used again.
-/

namespace Bison

namespace Memory

namespace InProcess

/-! ## The application -/

/-- A method or a hook, on its object and the arguments. -/
abbrev Method := Ptr → Ptr → MemoryM Ptr

/-- The code of the application. -/
structure Application where
  /-- What `methods_` of the object has when an operation begins. -/
  methods : Ptr → Key → Option Method
  /-- `on_create_object`. -/
  create : Key → Key → MemoryM (Option Ptr) := createInstance none

section Handlers

variable (app : Application) (depth : Nat)

/-- The loop of `findMethod` over the classes. -/
def walkMethods (col : List (Key × Ptr)) (name : Key) : Nat → Key → MemoryM (Option Method)
  | 0, _ => Program.throw .diverges
  | steps + 1, klass => do
    match col.lookup klass with
    | none => return none
    | some proto =>
      match app.methods proto name with
      | some method => return some method
      | none => walkMethods col name steps (← asKey proto PARENT)

/-- `findMethod` (bison_object.hpp:1687). -/
def findMethod (p : Ptr) (name : Key) : MemoryM (Option Method) := do
  match app.methods p name with
  | some method => return some method
  | none =>
    let ns ← resolveNamespace p
    match (← Program.get).classes.lookup ns with
    | none => return none
    | some col =>
      let klass ← asKey p CLASS
      walkMethods app col name (col.length + 1) klass

/-- `field::operator=(const T&)`, of an object. -/
def assignObject (n : Node) (q : Ptr) : MemoryM Unit := do
  if (← getContent n).index = 0 ∨ (← getContent n).index = 6 then putContent n (.object q)
  else Program.throw (.runtimeError "Invalid type")

/-- `call` (bison_object.hpp:1386). -/
def call (self : Ptr) (name : Key) (params : Ptr) : MemoryM Ptr := do
  match ← findMethod app self name with
  | some method => method self params
  | none =>
    match ← findMethod app self CALL_FALLBACK with
    | some fallback =>
      let wrapper ← construct 0 ∅
      assignKey (← subscript depth wrapper FIELD_NAME) name
      let copy ← clone depth params
      assignObject (← subscript depth wrapper FIELD_PARAMS) copy
      fallback self wrapper
    | none => Program.throw (.runtimeError "Method not found")

/-- `catch (…)`. -/
def caught : Exn → Option Unit
  | .runtimeError _ | .lengthError => some ()
  | .diverges | .outOfFuel => none

/-! ## Handlers -/

/-- What is left of `handle_instantiate` when the object has been stored (standalone.cpp:498). -/
def constructObject (obj : Ptr) (oid klass : Key) (params : Ptr) : MemoryM Ptr := do
  match ← findMethod app obj HOOK_CONSTRUCT with
  | none => pure ()
  | some _ =>
    let _ ← call app depth obj HOOK_CONSTRUCT params
  let resp ← construct 0 ∅
  assignKey (← subscript depth resp FIELD_OBJECT_ID) oid
  assignKey (← subscript depth resp FIELD_KLASS) klass
  return resp

/-- The namespace in which an object is cleared. -/
def clearedNamespace (obj : Ptr) : MemoryM Key := do
  match ← findField depth obj NAMESPACE with
  | none => return 0
  | some n =>
    match ← getContent n with
    | .plain (.key ns) => return ns
    | _ => return 0

/-- What an object is cleared to. -/
def pristine (ns klass : Key) : MemoryM Ptr := do
  match (← Program.get).classes.lookup ns with
  | none => instantiate 0 klass
  | some col =>
    match col.lookup klass with
    | some proto => clone depth proto
    | none => instantiate ns klass

/-- `handle_clear` (standalone.cpp:513). -/
def handleClear (obj : Ptr) : MemoryM Ptr := do
  let klassKey ← asKey obj CLASS
  let ns ← clearedNamespace depth obj
  let fresh ← pristine depth ns klassKey
  takeOver obj fresh
  match ← findMethod app obj HOOK_CLEAR with
  | none => pure ()
  | some _ =>
    let params ← construct 0 ∅
    let _ ← Program.attempt caught (call app depth obj HOOK_CLEAR params)
  construct 0 ∅

/-- `obj[k] = v` for the fields of a patch. -/
def applyPatch (obj : Ptr) (patch : FinMap Key Content) : MemoryM Unit :=
  Program.forEach (fun kv => do
    let n ← subscript depth obj kv.1
    putContent n kv.2) (patch.entries.filter fun kv => isPatchKey kv.1)

/-- `handle_set` (standalone.cpp:559). -/
def handleSet (obj payload : Ptr) : MemoryM Ptr := do
  let copy ← clone depth payload
  let patch ← match ← findMethod app obj HOOK_SETTER with
    | none => pure copy
    | some _ => call app depth obj HOOK_SETTER copy
  applyPatch depth obj (← fieldsOf patch)
  construct 0 ∅

/-- `result[k] = *f` for the projected fields that the object has. -/
def project (obj : Ptr) (keys : List Key) : MemoryM Ptr := do
  let result ← construct 0 ∅
  Program.forEach (fun k => do
    match ← findField depth obj k with
    | none => return ()
    | some f =>
      let n ← subscript depth result k
      putContent n (← getContent f)) keys
  return result

/-- The fields that a projection asks for. -/
def projectedKeys (m : Memory) (projection : Ptr) : List Key :=
  ((m.object projection).fields.entries.map Prod.fst).filter isProjectionKey

/-- `handle_get` (standalone.cpp:596). -/
def handleGet (obj projection : Ptr) : MemoryM Ptr := do
  let keys := projectedKeys (← Program.get) projection
  let result ← if keys = [] then clone depth obj else project depth obj keys
  match ← findMethod app obj HOOK_GETTER with
  | none => return result
  | some _ =>
    match ← Program.attempt caught (call app depth obj HOOK_GETTER result) with
    | .ok changed => return changed
    | .error () => return result

/-- `read_key_token` (standalone.cpp:33). -/
def readKeyToken (p : Ptr) (name : Key) : MemoryM Key := do
  match ← findField depth p name with
  | none => Program.throw (.runtimeError "Missing key token field")
  | some n =>
    match ← getContent n with
    | .plain (.key k) => return k
    | .plain (.hash h) => return h
    | _ => Program.throw (.runtimeError "Invalid key token type")

/-- `handle_call` (standalone.cpp:638). -/
def handleCall (obj payload : Ptr) (oneway : Bool) : MemoryM Ptr := do
  let name ← readKeyToken depth payload FIELD_NAME
  let n ← subscript depth payload FIELD_PARAMS
  let args ← match ← getContent n with
    | .object q => pure q
    | .plain _ => construct 0 ∅
  let res ← call app depth obj name args
  if oneway then construct 0 ∅ else return res

end Handlers

/-! ## Sessions -/

/-- The backend, and what its callers have. -/
structure Session where
  memory : Memory
  /-- `context::objects`. -/
  objects : FinMap Key Ptr := ∅
  held : List Ptr := []

/-- What a caller asks for. For `instantiate` the id is the one that is generated. -/
inductive Request where
  | instantiate (oid ns klass : Key) (params : Ptr)
  | set (id : Key) (payload : Ptr)
  | get (id : Key) (projection : Ptr)
  | clear (id : Key)
  | call (id : Key) (payload : Ptr) (oneway : Bool)

/-- The object that is sent. -/
def Request.sent : Request → Option Ptr
  | instantiate _ _ _ p | set _ p | get _ p | call _ p _ => some p
  | clear _ => none

namespace Session

/-- The caller gets what the program answers. -/
def answer (s : Session) (prog : MemoryM Ptr) : Session :=
  let r := prog s.memory
  { s with memory := r.state, held := r.result.toOption.toList ++ s.held }

/-- A handler works on the object with the id. -/
def respond (s : Session) (id : Key) (handler : Ptr → MemoryM Ptr) : Session :=
  match s.objects.lookup id with
  | none => s
  | some obj => s.answer (handler obj)

/-- The worker serves a request (standalone.cpp:215, 275). -/
def serve (app : Application) (depth : Nat) (s : Session) : Request → Session
  | .instantiate oid ns klass params =>
    match (s.memory.classes.lookup ns).bind fun col => col.lookup klass with
    | none => s
    | some _ =>
      let made := app.create ns klass s.memory
      match made.result with
      | .ok (some obj) =>
        answer { s with memory := made.state, objects := s.objects.insert oid obj }
          (constructObject app depth obj oid klass params)
      -- A null object is dereferenced, which is undefined.
      | .ok none | .error _ => { s with memory := made.state }
  | .set id payload => s.respond id fun obj => handleSet app depth obj payload
  | .get id projection => s.respond id fun obj => handleGet app depth obj projection
  | .clear id => s.respond id (handleClear app depth)
  | .call id payload oneway => s.respond id fun obj => handleCall app depth obj payload oneway

/-- A caller can get to the object. -/
def Has (s : Session) (p : Ptr) : Prop := ∃ h ∈ s.held, s.memory.Reach h p

/-- Nothing that callers have shares an object with what is stored. -/
def Isolated (s : Session) : Prop :=
  ∀ p ∈ s.held, ∀ id q, s.objects.lookup id = some q → s.memory.Separate p q

end Session

/-- What callers do: they make objects, keep pointers to parts of what they have, write to it and
look things up in it, and ask the backend for something. -/
inductive Action where
  | make (klass : Key)
  | keep (p : Ptr)
  | write (w : Write)
  | lookUp (p : Ptr) (name : Key)
  | request (app : Application) (r : Request)

namespace Action

def run (depth : Nat) (s : Session) : Action → Session
  | make klass => s.answer (construct klass ∅)
  | keep p => { s with held := p :: s.held }
  | write w => { s with memory := (w.run s.memory).state }
  | lookUp p name => { s with memory := (findField depth p name s.memory).state }
  | request app r => s.serve app depth r

/-- It is done with what the callers have. -/
def Allowed (s : Session) : Action → Prop
  | make _ | write (.make _) => True
  | keep p | write (.erase p _) | write (.clear p) | lookUp p _ => s.Has p
  | write (.put p _ c) => s.Has p ∧ ∀ q, c = .object q → s.Has q
  | request _ r => ∀ p, r.sent = some p → p ∈ s.held

end Action

/-- A `get` of single fields finds no object in them. -/
def Request.FindsNoObject (s : Session) : Request → Prop
  | get id projection => ∀ obj, s.objects.lookup id = some obj →
    ∀ k ∈ projectedKeys s.memory projection, s.memory.FindsNoObject obj k
  | _ => True

/-! ## The handlers keep the two sides apart -/

/-- A method that is given arguments on one side answers on that side. What it takes over to
another side it clones. -/
def Method.KeepsApart (method : Method) : Prop :=
  ∀ (L : Side → Ptr → Prop) s self params, L .stored self → L s params →
    Program.Triple (Parted L) (method self params) (fun r => Parted (Also L s r)) fun _ => Parted L

/-- A new object, when there is one, is the backend's own. -/
def Made (L : Side → Ptr → Prop) : Option Ptr → Memory → Prop
  | some p => Parted (Also L .stored p)
  | none => Parted L

/-- The methods keep the sides apart, and so does what makes new objects. -/
structure Application.KeepsApart (app : Application) : Prop where
  methods : ∀ p name method, app.methods p name = some method → method.KeepsApart
  create : ∀ (L : Side → Ptr → Prop) ns klass,
    Program.Triple (Parted L) (app.create ns klass) (Made L) fun _ => Parted L

open Program

variable {app : Application} {depth : Nat} {m : Memory} {L : Side → Ptr → Prop} {s : Side}
  {obj params : Ptr} {name : Key}

/-- A method that has been found keeps the sides apart. -/
def Found (L : Side → Ptr → Prop) (found : Option Method) (m : Memory) : Prop :=
  m.Parted L ∧ ∀ method, found = some method → method.KeepsApart

theorem walkMethods_parted (happ : app.KeepsApart) {col : List (Key × Ptr)} (hobj : L s obj)
    (name : Key) (steps : Nat) (klass : Key) :
    Triple (fun m => m.Parted L ∧ ∀ klass proto, col.lookup klass = some proto → m.IsClass proto)
      (walkMethods app col name steps klass) (Found L) fun _ => Parted L := by
  induction steps generalizing klass with
  | zero => exact .throw fun _ h => h.1
  | succ steps ih =>
    unfold walkMethods
    cases hcol : col.lookup klass with
    | none => exact .pure fun _ h => ⟨h.1, nofun⟩
    | some proto =>
      dsimp only
      cases hmethod : app.methods proto name with
      | some method =>
        refine .pure fun _ h => ⟨h.1, fun _ heq => ?_⟩
        cases heq
        exact happ.methods proto name method hmethod
      | none =>
        refine .bind (.each fun m h => ?_) ih
        refine (asKey_parted h.1 (h.1.live s obj hobj) (.inr ⟨h.2 klass proto hcol, rfl⟩)).imp
          (fun _ m' hdone => ⟨hdone.1, fun klass proto hproto => ?_⟩) fun _ _ h => h
        unfold IsClass
        rw [hdone.2]
        exact h.2 klass proto hproto

theorem findMethod_parted (happ : app.KeepsApart) (hobj : L s obj) (name : Key) :
    Triple (Parted L) (findMethod app obj name) (Found L) fun _ => Parted L := by
  unfold findMethod
  cases hmethod : app.methods obj name with
  | some method =>
    refine .pure fun _ h => ⟨h, fun _ heq => ?_⟩
    cases heq
    exact happ.methods obj name method hmethod
  | none =>
    refine .bind (Q := fun _ => Parted L) (.each fun m h => ?_) fun ns => .get_bind fun m h => ?_
    · exact (resolveNamespace_parted h (h.live s obj hobj)).imp (fun _ _ h => h.1) fun _ _ h => h
    · cases hcol : m.classes.lookup ns with
      | none => exact .pure fun _ hm => hm ▸ ⟨h, nofun⟩
      | some col =>
        have hfills : m.Fills obj obj CLASS := .inl ⟨rfl, .inr rfl⟩
        refine .bind ((asKey_parted h (h.live s obj hobj) hfills).imp
          (fun _ m' hdone => ⟨hdone.1, fun klass proto hproto => ?_⟩) fun _ _ h => h) fun klass =>
            walkMethods_parted happ hobj name _ klass
        unfold IsClass
        rw [hdone.2]
        exact ⟨ns, col, klass, hcol, hproto⟩

theorem assignObject_parted {p q : Ptr} {k : Key} {n : Node} (hp : L s p) (hq : L s q) :
    Triple (fun m => m.Parted L ∧ (m.object p).fields.lookup k = some n) (assignObject n q)
      (fun _ => Parted L) fun _ => Parted L := by
  refine getContent_bind fun c => getContent_bind fun c' => ?_
  split
  · exact .modify fun m h => h.1.setContent (.root hp) (.root hq) h.2
  · exact .throw fun _ h => h.1

/-- What a method answers is on the side of its arguments. -/
theorem call_parted (happ : app.KeepsApart) (hobj : L .stored obj) (hparams : L s params)
    (name : Key) : Triple (Parted L) (call app depth obj name params)
      (fun r => Parted (Also L s r)) fun _ => Parted L := by
  refine .bind (findMethod_parted happ hobj name) fun found => ?_
  cases found with
  | some method => exact fun m h => (h.2 method rfl) L s obj params hobj hparams m h.1
  | none =>
    refine .bind ((findMethod_parted happ hobj CALL_FALLBACK).mono (fun _ h => h.1)
      (fun _ _ h => h) fun _ _ h => h) fun found => ?_
    cases found with
    | none => exact .throw fun _ h => h.1
    | some fallback =>
      intro m h
      have hfallback : Method.KeepsApart fallback := h.2 fallback rfl
      refine (Triple.bind (construct_parted s 0) fun wrapper => with_also ?_ :
        Triple (Parted L) _ (fun r => Parted (Also L s r)) fun _ => Parted L) m h.1
      have hwrapper : Also L s wrapper s wrapper := .inr ⟨rfl, rfl⟩
      refine .bind (subscript_parted hwrapper depth FIELD_NAME) fun n =>
        .bind (.weaken (assignKey_parted n name) fun _ h => h.1) fun _ => ?_
      refine .bind (.each fun m h => clone_parted h (h.live s params (.inl hparams)) s depth)
        fun copy => with_also ?_
      have hcopy : Also (Also L s wrapper) s copy s copy := .inr ⟨rfl, rfl⟩
      refine .bind (subscript_parted (.inl hwrapper) depth FIELD_PARAMS) fun n =>
        .bind (assignObject_parted (.inl hwrapper) hcopy) fun _ => ?_
      exact (hfallback _ s obj wrapper (.inl (.inl hobj)) (.inl hwrapper)).imp
        (fun _ _ h => h.last.last) fun _ _ h => h

theorem constructObject_parted (happ : app.KeepsApart) (hobj : L .stored obj)
    (hparams : L .caller params) (oid klass : Key) :
    Triple (Parted L) (constructObject app depth obj oid klass params)
      (fun r => Parted (Also L .caller r)) fun _ => Parted L := by
  have hreply : Triple (Parted L) (do
      let resp ← construct 0 ∅
      assignKey (← subscript depth resp FIELD_OBJECT_ID) oid
      assignKey (← subscript depth resp FIELD_KLASS) klass
      return resp) (fun r => Parted (Also L .caller r)) fun _ => Parted L := by
    refine .bind (construct_parted .caller 0) fun resp => with_also ?_
    have hresp : Also L .caller resp .caller resp := .inr ⟨rfl, rfl⟩
    refine .bind (subscript_parted hresp depth FIELD_OBJECT_ID) fun n =>
      .bind (.weaken (assignKey_parted n oid) fun _ h => h.1) fun _ => ?_
    refine .bind (subscript_parted hresp depth FIELD_KLASS) fun n =>
      .bind (.weaken (assignKey_parted n klass) fun _ h => h.1) fun _ => .pure fun _ h => h
  refine .bind (findMethod_parted happ hobj HOOK_CONSTRUCT) fun found => ?_
  cases found with
  | none => exact hreply.weaken fun _ h => h.1
  | some _ =>
    exact .bind ((call_parted happ hobj hparams HOOK_CONSTRUCT).mono (fun _ h => h.1)
      (fun _ _ h => h.forget) fun _ _ h => h) fun _ => hreply

theorem pristine_parted (depth : Nat) (ns klass : Key) :
    Triple (Parted L) (pristine depth ns klass) (fun p => Parted (Also L .stored p))
      fun _ => Parted L := by
  refine .get_bind fun m h => ?_
  cases hcol : m.classes.lookup ns with
  | none => exact (instantiate_parted .stored 0 klass).at h
  | some col =>
    dsimp only
    cases hproto : col.lookup klass with
    | none => exact (instantiate_parted .stored ns klass).at h
    | some proto =>
      exact clone_parted h (h.valid.proto proto ⟨ns, col, klass, hcol, hproto⟩) .stored depth

theorem handleClear_parted (happ : app.KeepsApart) (hobj : L .stored obj) :
    Triple (Parted L) (handleClear app depth obj) (fun r => Parted (Also L .caller r))
      fun _ => Parted L := by
  refine .bind (Q := fun _ => Parted L) (.each fun m h => ?_) fun klassKey =>
    .bind (Q := fun _ => Parted L) ?_ fun ns => .bind (pristine_parted depth ns klassKey)
      fun fresh => .bind (Q := fun _ => Parted L) ?_ fun _ =>
        .bind (findMethod_parted happ hobj HOOK_CLEAR) fun found => ?_
  · exact (asKey_parted h (h.live _ obj hobj) (.inl ⟨rfl, .inr rfl⟩)).imp
      (fun _ _ h => h.1) fun _ _ h => h
  · refine .bind (findField_parted hobj depth NAMESPACE) fun found => ?_
    cases found with
    | none => exact .pure fun _ h => h
    | some n =>
      refine getContent_bind fun c => ?_
      split <;> exact .pure fun _ h => h
  · exact (takeOver_parted (.inl hobj) (.inr ⟨rfl, rfl⟩)).imp
      (fun _ _ h => h.forget) fun _ _ h => h.forget
  · cases found with
    | none => exact (construct_parted .caller 0).weaken fun _ h => h.1
    | some _ =>
      refine .weaken (.bind (construct_parted .caller 0) fun params => with_also ?_) fun _ h => h.1
      have hcall : Triple _ (call app depth obj HOOK_CLEAR params) _ _ :=
        call_parted happ (L := Also L .caller params) (.inl hobj) (.inr ⟨rfl, rfl⟩) HOOK_CLEAR
      refine .bind (Q := fun _ => Parted (Also L .caller params)) ?_ fun _ =>
        (construct_parted .caller 0).imp (fun _ _ h => h.last) fun _ _ h => h
      refine hcall.attempt.imp (fun r m h => ?_) fun _ _ h => h
      cases r with
      | ok r => exact Parted.forget h
      | error _ => exact h.elim fun _ h => h

/-- A patch that holds what is on the side of the object. -/
theorem applyPatch_parted (hobj : L s obj) {patch : FinMap Key Content}
    (hpatch : ∀ k q, patch.lookup k = some (.object q) → L s q) :
    Maintains (Parted L) (applyPatch depth obj patch) := by
  refine Maintains.forEach fun kv hkv => .bind (subscript_parted hobj depth kv.1) fun n => ?_
  have hkv := FinMap.mem_entries.1 (List.mem_of_mem_filter hkv)
  cases hc : kv.2 with
  | plain v => exact (putContent_plain_parted n v).weaken fun _ h => h.1
  | object q =>
    exact .modify fun m h => h.1.setContent (.root hobj) (.root (hpatch kv.1 q (hc ▸ hkv))) h.2

/-- What the fields of an object hold is on its side. -/
theorem fieldsOf_parted {p : Ptr} (hp : L s p) :
    Triple (Parted L) (fieldsOf p) (fun fields => Parted fun t q => L t q ∨
      t = s ∧ ∃ k, fields.lookup k = some (.object q)) fun _ => Parted L := by
  refine .bind (Q := fun a m => m.Parted L ∧ a = m) (.get fun m h => ⟨h, rfl⟩) fun a =>
    .pure fun m h => ?_
  obtain ⟨h, rfl⟩ := h
  refine h.change s (fun _ => False) h.valid h.settled le_rfl nofun nofun
    (fun _ _ _ hxy => .inl hxy) ?_
  rintro t q (hq | ⟨rfl, k, hk⟩)
  · exact .inl hq
  · rw [FinMap.lookup_map, Option.map_eq_some_iff] at hk
    obtain ⟨n, hn, hcontent⟩ := hk
    have hon : a.On L t q := (On.root hp).next ⟨k, n, hn, hcontent⟩
    exact .inr ⟨rfl, h.lt hon, .inr hon⟩

theorem handleSet_parted (happ : app.KeepsApart) (hobj : L .stored obj) {payload : Ptr}
    (hpayload : L .caller payload) :
    Triple (Parted L) (handleSet app depth obj payload) (fun r => Parted (Also L .caller r))
      fun _ => Parted L := by
  refine .bind (.each fun m h => clone_parted h (h.live _ payload hpayload) .stored depth)
    fun copy => with_also ?_
  -- The patch is the backend's own.
  have hcopy : Also L .stored copy .stored copy := .inr ⟨rfl, rfl⟩
  have happly (patch : Ptr) : Triple (Parted (Also (Also L .stored copy) .stored patch)) (do
      applyPatch depth obj (← fieldsOf patch)
      construct 0 ∅) (fun r => Parted (Also L .caller r))
      fun _ => Parted (Also L .stored copy) := by
    refine with_also (.bind (fieldsOf_parted (s := .stored) (.inr ⟨rfl, rfl⟩)) fun fields => ?_)
    refine .mono (.bind (applyPatch_parted (s := .stored) (.inl (.inl (.inl hobj))) fun k q hq =>
      .inr ⟨rfl, k, hq⟩) fun _ => construct_parted .caller 0) (fun _ h => h)
        (fun _ _ h => h.mono ?_) fun _ _ h => h.mono fun _ _ hx => .inl hx
    exact fun _ _ hx => hx.imp_left fun hx => .inl (.inl (.inl hx))
  refine .bind (findMethod_parted happ (.inl hobj) HOOK_SETTER) fun found => ?_
  cases found with
  | none => exact .bind (.pure fun _ h => h.1.also (.root hcopy)) happly
  | some _ =>
    exact .bind (.weaken (call_parted happ (.inl hobj) hcopy HOOK_SETTER) fun _ h => h.1) happly

theorem readKeyToken_parted {p : Ptr} (hp : L s p) (name : Key) :
    Maintains (Parted L) (readKeyToken depth p name) := by
  refine .bind (findField_parted hp depth name) fun found => ?_
  cases found with
  | none => exact .throw fun _ h => h
  | some n =>
    refine getContent_bind fun c => ?_
    split
    · exact .pure fun _ h => h
    · exact .pure fun _ h => h
    · exact .throw fun _ h => h

theorem handleCall_parted (happ : app.KeepsApart) (hobj : L .stored obj) {payload : Ptr}
    (hpayload : L .caller payload) (oneway : Bool) :
    Triple (Parted L) (handleCall app depth obj payload oneway)
      (fun r => Parted (Also L .caller r)) fun _ => Parted L := by
  have hreply (name : Key) (args : Ptr) : Triple (Parted (Also L .caller args)) (do
      let res ← call app depth obj name args
      if oneway then construct 0 ∅ else return res) (fun r => Parted (Also L .caller r))
      fun _ => Parted L := by
    refine with_also (.bind (call_parted happ (.inl hobj) (.inr ⟨rfl, rfl⟩) name) fun res => ?_)
    split
    · exact (construct_parted .caller 0).imp (fun _ _ h => h.last.last) fun _ _ h => h.forget
    · exact .pure fun _ h => h.last
  refine .bind (readKeyToken_parted hpayload FIELD_NAME) fun name =>
    .bind (subscript_parted hpayload depth FIELD_PARAMS) fun n => .each fun m h =>
      getContent_run_bind fun c hc => ?_
  cases c with
  | plain v => exact .bind ((construct_parted .caller 0).at h.1) (hreply name)
  | object q => exact .bind (.pure fun _ hm => hm ▸ h.1.content hpayload h.2 hc) (hreply name)

/-! ## Projections -/

/-- What has been copied so far is apart, and what is still to be copied is no object. -/
structure Projecting (L : Side → Ptr → Prop) (obj result : Ptr) (keys : List Key) (m : Memory) :
    Prop where
  parted : m.Parted (Also L .caller result)
  new : ∀ q, q = obj ∨ m.IsClass q → q ≠ result
  fields : ∀ k ∈ keys, m.FindsNoObject obj k ∧ k ≠ CLASS ∧ k ≠ PARENT

/-- Nothing happens to the lookups that are still to come. -/
theorem Projecting.steady {result : Ptr} {keys : List Key} {m' : Memory} {S : Ptr → Prop}
    (h : Projecting L obj result keys m) (hm' : m'.Parted (Also L .caller result))
    (hS : ∀ q, q = obj ∨ m.IsClass q → S q) (hsteady : ∀ k ∈ keys, Steady S k m m')
    (hclasses : m'.classes = m.classes) : Projecting L obj result keys m' := by
  refine ⟨hm', fun q hq => h.new q ?_, fun k hk => ?_⟩
  · unfold IsClass at hq ⊢
    rwa [hclasses] at hq
  · obtain ⟨hfinds, hname⟩ := h.fields k hk
    have hclass (q : Ptr) (hq : m.IsClass q) : S q := hS q (.inr hq)
    exact ⟨hfinds.steady (hsteady k hk) (hS obj (.inl rfl)) hclass hname, hname⟩

/-- What is copied is not an object. -/
theorem Projecting.copy {result : Ptr} {k : Key} {keys : List Key} {f : Node} (hobj : L .stored obj)
    (h : Projecting L obj result keys m) (hk : k ≠ CLASS ∧ k ≠ PARENT)
    (hf : (m.object obj).fields.lookup k = some f) (hplain : m.Plain f) :
    Triple (· = m) (do
      let n ← subscript depth result k
      putContent n (← getContent f)) (fun _ => Projecting L obj result keys) fun _ => Parted L := by
  set S : Ptr → Prop := fun q => q < m.objects ∧ q ≠ result
  have hresult : Also L .caller result .caller result := .inr ⟨rfl, rfl⟩
  have hlive : obj < m.objects := h.parted.live _ obj (.inl hobj)
  have hS (q : Ptr) (hq : q = obj ∨ m.IsClass q) : S q :=
    ⟨hq.elim (fun heq => heq ▸ hlive) (h.parted.valid.proto q), h.new q hq⟩
  have hsteady := subscript_steady h.parted.valid (h.parted.settled result).coherent
    (h.parted.live _ result hresult) (fun q hq => hq) hk depth
  refine .bind ((((subscript_parted hresult depth k).at h.parted).and hsteady).imp
    (fun _ _ h => h) fun _ _ h => h.1.forget) fun n => .each fun m₁ h₁ => getContent_run_bind ?_
  obtain ⟨⟨hparted, hn⟩, hsteady⟩ := h₁
  have hnext : Projecting L obj result keys m₁ :=
    h.steady hparted hS (fun k _ => hsteady k) (hsteady k).classes
  intro c hc
  cases c with
  | object q => exact ((hsteady k).plain (hS obj (.inl rfl)) hf hplain q hc).elim
  | plain v =>
    intro m' hm'
    subst hm'
    have hS' (q : Ptr) (hq : q = obj ∨ m'.IsClass q) : q ≠ result := hnext.new q hq
    refine hnext.steady (putContent_plain_parted n v m' hparted) hS' (fun k' _ => ?_) rfl
    refine steady_elsewhere (S := fun q => q ≠ result) hparted.valid (fun hne => hne rfl) ?_
      (fun _ _ => ?_) (fun n' _ hn' => ?_) k'
    · rfl
    · rfl
    · refine (content_setContent m' n n' _).trans (if_neg ?_)
      rintro rfl
      exact hn' k hn

theorem Projecting.next {result : Ptr} {k : Key} {keys : List Key} (hobj : L .stored obj)
    (h : Projecting L obj result (k :: keys) m) (hnodup : k ∉ keys) :
    Triple (· = m) (do
      match ← findField depth obj k with
      | none => return ()
      | some f =>
        let n ← subscript depth result k
        putContent n (← getContent f)) (fun _ => Projecting L obj result keys)
      fun _ => Parted L := by
  obtain ⟨⟨hfinds, hk⟩, hfields⟩ := List.forall_mem_cons.1 h.fields
  have hlive : obj < m.objects := h.parted.live _ obj (.inl hobj)
  have hcoherent := (h.parted.settled obj).coherent
  have hfind := ((findField_parted (s := .stored) (.inl hobj) depth k).at h.parted).and
    ((findField_steady h.parted.valid hcoherent (fun q hq => hq) hlive hk depth).and
      (findField_own hcoherent depth))
  refine .bind (hfind.imp (fun _ _ h => h) fun _ _ h => h.1.forget) fun found =>
    .each fun m₁ h₁ => ?_
  obtain ⟨hparted, ⟨hsteady, hplain⟩, hown⟩ := h₁
  have hrest : Projecting L obj result keys m := ⟨h.parted, h.new, hfields⟩
  have hnext : Projecting L obj result keys m₁ := by
    refine hrest.steady hparted (fun q hq => ?_) (fun k' hk' => hsteady k' fun _ heq => ?_) ?_
    · exact hq.elim (fun heq => heq ▸ hlive) (h.parted.valid.proto q)
    · exact hnodup (heq ▸ hk')
    · exact (hsteady CLASS fun _ heq => hk.1 heq.symm).classes
  cases found with
  | none => exact .pure fun _ hm => hm ▸ hnext
  | some f => exact hnext.copy hobj hk hown (hplain hfinds f rfl)

theorem project_parted (h : m.Parted L) (hobj : L .stored obj) {keys : List Key}
    (hnodup : keys.Nodup) (hfields : ∀ k ∈ keys, m.FindsNoObject obj k ∧ k ≠ CLASS ∧ k ≠ PARENT) :
    Triple (· = m) (project depth obj keys) (fun r => Parted (Also L .caller r))
      fun _ => Parted L := by
  intro m' hm'
  subst hm'
  have hnew := construct_parted .caller 0 m' h
  have hrun := construct_run m' 0
  rw [hrun] at hnew
  have hstart : Projecting L obj m'.objects keys (m'.withInstance 0) := by
    have hS (q : Ptr) (hq : q = obj ∨ m'.IsClass q) : q < m'.objects :=
      hq.elim (fun heq => heq ▸ h.live _ obj hobj) (h.valid.proto q)
    refine ⟨hnew, fun q hq => (hS q hq).ne, fun k hk => ?_⟩
    obtain ⟨hfinds, hname⟩ := hfields k hk
    have hkept : m'.Extends (fun _ => False) (m'.withInstance 0) :=
      (extends_withObject m' {} fun _ => False).trans (extends_withField ..)
        fun p heq hp => hp.ne heq
    exact ⟨hfinds.steady (hkept.steady h.valid (S := (· < m'.objects)) (fun _ hq => hq) k)
      (hS obj (.inl rfl)) (fun q hq => hS q (.inr hq)) hname, hname⟩
  have hloop (rest : List Key) (hrest : rest.Nodup) : Triple (Projecting L obj m'.objects rest)
      (Program.forEach (fun k => do
        match ← findField depth obj k with
        | none => return ()
        | some f =>
          let n ← subscript depth m'.objects k
          putContent n (← getContent f)) rest) (fun _ => Projecting L obj m'.objects [])
      fun _ => Parted L := by
    induction rest with
    | nil => exact .pure fun _ h => h
    | cons k rest ih =>
      obtain ⟨hk, hrest⟩ := List.nodup_cons.1 hrest
      exact .bind (.each fun m₁ h₁ => h₁.next hobj hk) fun _ => ih hrest
  have hdone := Triple.bind (f := fun _ => pure m'.objects)
    (S := fun r => Parted (Also L .caller r)) (hloop keys hnodup) fun _ => .pure fun _ h => h.parted
  unfold project
  rw [bind_ok hrun]
  exact hdone _ hstart

theorem handleGet_parted (happ : app.KeepsApart) (h : m.Parted L) (hobj : L .stored obj)
    {projection : Ptr} (hfields : ∀ k ∈ projectedKeys m projection, m.FindsNoObject obj k) :
    Triple (· = m) (handleGet app depth obj projection) (fun r => Parted (Also L .caller r))
      fun _ => Parted L := by
  have hnodup : (projectedKeys m projection).Nodup := (FinMap.nodup_keys _).filter _
  have hname (k : Key) (hk : k ∈ projectedKeys m projection) : k ≠ CLASS ∧ k ≠ PARENT :=
    decide_eq_true_iff.1 (List.mem_filter.1 hk).2
  -- The copy is the caller's, and so is what a hook makes of it.
  have hhook (result : Ptr) : Triple (Parted (Also L .caller result)) (do
      match ← findMethod app obj HOOK_GETTER with
      | none => return result
      | some _ =>
        match ← Program.attempt caught (call app depth obj HOOK_GETTER result) with
        | .ok changed => return changed
        | .error () => return result) (fun r => Parted (Also L .caller r)) fun _ => Parted L := by
    refine with_also (.bind (findMethod_parted happ (.inl hobj) HOOK_GETTER) fun found => ?_)
    have hresult : Also L .caller result .caller result := .inr ⟨rfl, rfl⟩
    cases found with
    | none => exact .pure fun _ h => h.1
    | some _ =>
      refine .bind (.weaken (call_parted happ (.inl hobj) hresult HOOK_GETTER).attempt
        fun _ h => h.1) fun r => ?_
      cases r with
      | ok changed => exact .pure fun _ h => h.last
      | error e => exact .pure fun _ h => h.elim fun _ h => h
  refine .get_bind fun m' hm' => ?_
  subst hm'
  dsimp only
  split
  · exact .bind (clone_parted h (h.live _ obj hobj) .caller depth) hhook
  · exact .bind (project_parted h hobj hnodup fun k hk => ⟨hfields k hk, hname k hk⟩) hhook

/-- What makes new objects where no factory does. -/
theorem createInstance_parted (L : Side → Ptr → Prop) (ns klass : Key) :
    Triple (Parted L) (createInstance none ns klass) (Made L) fun _ => Parted L := by
  refine .get_bind fun m h => ?_
  cases (m.classes.lookup ns).bind fun col => col.lookup klass with
  | none => exact .pure fun _ hm => hm ▸ h
  | some _ => exact .bind ((instantiate_parted .stored ns klass).at h) fun p => .pure fun _ h => h

/-- Objects without methods. -/
def plainApplication : Application := { methods := fun _ _ => none }

theorem plainApplication_keepsApart : plainApplication.KeepsApart :=
  ⟨fun _ _ _ hmethod => (Option.some_ne_none _ hmethod.symm).elim, createInstance_parted⟩

/-! ## Runs -/

/-- A caller or the backend does something. The code of the application keeps the two sides apart,
and no `get` of single fields finds an object in them. -/
def Step (s s' : Session) : Prop := ∃ (depth : Nat) (a : Action), a.Allowed s ∧
  (∀ app r, a = .request app r → app.KeepsApart ∧ r.FindsNoObject s) ∧ s' = a.run depth s

/-- What callers have, and what is stored. -/
def Session.sides (s : Session) : Side → Ptr → Prop
  | .caller => fun p => p ∈ s.held
  | .stored => fun p => ∃ id, s.objects.lookup id = some p

variable {ses : Session}

/-- What a caller gets is on its side. -/
theorem answer_parted {prog : MemoryM Ptr} (h : Triple (· = ses.memory) prog
    (fun r => Parted (Also ses.sides .caller r)) fun _ => Parted ses.sides) :
    (ses.answer prog).memory.Parted (ses.answer prog).sides := by
  have h := h ses.memory rfl
  unfold Session.answer
  generalize prog ses.memory = outcome at h ⊢
  rcases outcome with ⟨e | r, trace, m⟩
  · exact h
  · refine Parted.mono h fun t p hp => ?_
    cases t with
    | caller => exact (List.mem_cons.1 hp).symm.imp_right fun heq => ⟨rfl, heq⟩
    | stored => exact .inl hp

theorem respond_parted {id : Key} {handler : Ptr → MemoryM Ptr}
    (h : ses.memory.Parted ses.sides) (hhandler : ∀ obj, ses.objects.lookup id = some obj →
      ses.sides .stored obj → Triple (· = ses.memory) (handler obj)
        (fun r => Parted (Also ses.sides .caller r)) fun _ => Parted ses.sides) :
    (ses.respond id handler).memory.Parted (ses.respond id handler).sides := by
  unfold Session.respond
  cases hobj : ses.objects.lookup id with
  | none => exact h
  | some obj => exact answer_parted (hhandler obj hobj ⟨id, hobj⟩)

theorem serve_parted (happ : app.KeepsApart) (h : ses.memory.Parted ses.sides) {r : Request}
    (hsent : ∀ p, r.sent = some p → p ∈ ses.held) (hfinds : r.FindsNoObject ses) :
    (ses.serve app depth r).memory.Parted (ses.serve app depth r).sides := by
  cases r with
  | set id payload =>
    exact respond_parted h fun obj _ hobj => (handleSet_parted happ hobj (hsent payload rfl)).at h
  | get id projection =>
    exact respond_parted h fun obj hid hobj => handleGet_parted happ h hobj (hfinds obj hid)
  | clear id => exact respond_parted h fun obj _ hobj => (handleClear_parted happ hobj).at h
  | call id payload oneway =>
    exact respond_parted h fun obj _ hobj =>
      (handleCall_parted happ hobj (hsent payload rfl) oneway).at h
  | instantiate oid ns klass params =>
    have hmade := happ.create ses.sides ns klass ses.memory h
    dsimp only [Session.serve]
    generalize app.create ns klass ses.memory = made at hmade ⊢
    cases (ses.memory.classes.lookup ns).bind fun col => col.lookup klass with
    | none => exact h
    | some _ =>
      rcases made with ⟨e | obj, trace, m⟩
      · exact hmade
      · cases obj with
        | none => exact hmade
        | some obj =>
          set ses' : Session := { ses with memory := m, objects := ses.objects.insert oid obj }
          have hobj : ses'.sides .stored obj := ⟨oid, by rw [FinMap.lookup_insert, if_pos rfl]⟩
          have hstored : ses'.memory.Parted ses'.sides := by
            refine Parted.mono hmade fun t p hp => ?_
            cases t with
            | caller => exact .inl hp
            | stored =>
              obtain ⟨id, hid⟩ := hp
              rw [FinMap.lookup_insert] at hid
              split_ifs at hid
              · exact .inr ⟨rfl, (Option.some.inj hid).symm⟩
              · exact .inl ⟨id, hid⟩
          exact answer_parted ((constructObject_parted happ hobj
            (hsent params rfl : params ∈ ses'.held) oid klass).at hstored)

theorem put_parted {p : Ptr} (hp : L s p) {c : Content} (hc : ∀ q, c = .object q → L s q)
    (k : Key) : Maintains (Parted L) (Write.run (.put p k c)) := by
  have hrun : Write.run (.put p k c) =
      (nodeAt p k >>= fun n => cache p k (some n) >>= fun _ => pure n) >>= fun n =>
        putContent n c := by
    simp only [Program.bind_assoc]
    rfl
  rw [hrun]
  refine .bind (touch_parted hp k) fun n => ?_
  cases c with
  | plain v => exact (putContent_plain_parted n v).weaken fun _ h => h.1
  | object q => exact .modify fun m h => h.1.setContent (.root hp) (.root (hc q rfl)) h.2

/-- What a caller can get to can count as what it has. -/
theorem Session.Has.parted {p : Ptr} (hp : ses.Has p) (h : ses.memory.Parted L)
    (hL : ∀ q ∈ ses.held, L .caller q) : ses.memory.Parted (Also L .caller p) := by
  obtain ⟨q, hq, hreach⟩ := hp
  exact h.also ⟨q, hL q hq, hreach⟩

theorem write_parted (h : ses.memory.Parted ses.sides) {w : Write}
    (hallowed : (Action.write w).Allowed ses) : (w.run ses.memory).state.Parted ses.sides := by
  have hstate {prog : MemoryM Unit} {L : Side → Ptr → Prop} (hprog : Maintains (Parted L) prog)
      (h : ses.memory.Parted L) : (prog ses.memory).state.Parted L := Triple.state hprog h
  cases w with
  | make klass =>
    refine hstate (.bind (construct_parted .caller klass) fun _ => .pure fun _ h => h.forget) h
  | put p k c =>
    obtain ⟨hp, hc⟩ := hallowed
    have hp' := hp.parted h fun _ hq => hq
    cases c with
    | plain v => exact (hstate (put_parted (.inr ⟨rfl, rfl⟩) (fun _ hq => nomatch hq) k) hp').forget
    | object q =>
      have hq' := (hc q rfl).parted hp' fun _ hq => .inl hq
      refine (hstate (put_parted (.inl (.inr ⟨rfl, rfl⟩)) (fun x hx => ?_) k) hq').forget.forget
      exact .inr ⟨rfl, (Content.object.inj hx).symm⟩
  | erase p pos =>
    have hp' := Session.Has.parted hallowed h fun _ hq => hq
    exact (hstate (erase_parted (.inr ⟨rfl, rfl⟩) pos) hp').forget
  | clear p =>
    have hp' := Session.Has.parted hallowed h fun _ hq => hq
    exact (hstate (clear_parted (.inr ⟨rfl, rfl⟩)) hp').forget

theorem Step.parted {ses' : Session} (hstep : Step ses ses') (h : ses.memory.Parted ses.sides) :
    ses'.memory.Parted ses'.sides := by
  obtain ⟨depth, a, hallowed, hclean, rfl⟩ := hstep
  cases a with
  | make klass => exact answer_parted ((construct_parted .caller klass).at h)
  | keep p =>
    refine (Session.Has.parted hallowed h fun _ hq => hq).mono fun t q hq => ?_
    cases t with
    | caller => exact (List.mem_cons.1 hq).symm.imp_right fun heq => ⟨rfl, heq⟩
    | stored => exact .inl hq
  | write w => exact write_parted h hallowed
  | lookUp p name =>
    have hp' := Session.Has.parted hallowed h fun _ hq => hq
    exact ((findField_parted (.inr ⟨rfl, rfl⟩) depth name).state hp').forget
  | request app r =>
    obtain ⟨happ, hfinds⟩ := hclean app r rfl
    exact serve_parted happ h hallowed hfinds

/-- What callers write is not seen in what is stored. -/
theorem write_unseen (h : ses.memory.Parted ses.sides) {w : Write}
    (hallowed : (Action.write w).Allowed ses) {id : Key} {q : Ptr}
    (hq : ses.objects.lookup id = some q) (room : Nat) :
    (w.run ses.memory).state.read room q = ses.memory.read room q := by
  have hq' : q < ses.memory.objects := h.live .stored q ⟨id, hq⟩
  have hkept {p : Ptr} (hp : p ∈ ses.held) (hside : w.OnSide ses.memory p q) :=
    (w.kept h.valid (h.live .caller p hp) hq' (h.apart p q hp ⟨id, hq⟩) hside).seen room
  have hon {p : Ptr} (hp : ses.Has p) : p < ses.memory.objects ∧ ses.memory.Separate p q := by
    obtain ⟨r, hr, hreach⟩ := hp
    exact ⟨h.lt (s := .caller) ⟨r, hr, hreach⟩, (h.apart r q hr ⟨id, hq⟩).reach hreach⟩
  cases w with
  | make klass =>
    have hkept : ses.memory.Extends (fun _ => False) (ses.memory.withInstance klass) :=
      (extends_withObject ses.memory {} fun _ => False).trans (extends_withField ..)
        fun p heq hp => hp.ne heq
    have hrun : (Write.run (.make klass) ses.memory).state = ses.memory.withInstance klass := by
      show ((construct klass ∅ >>= fun _ => pure ()) ses.memory).state = _
      rw [bind_ok (construct_run ses.memory klass)]
      rfl
    rw [hrun]
    exact hkept.read h.valid h.valid.closed (fun _ hp => hp) (fun _ _ hf => hf) room hq'
  | put p k c =>
    obtain ⟨⟨r, hr, hreach⟩, hc⟩ := hallowed
    exact hkept hr ⟨hreach, fun x hx => hon (hc x hx)⟩
  | erase p pos =>
    obtain ⟨r, hr, hreach⟩ := hallowed
    exact hkept hr hreach
  | clear p =>
    obtain ⟨r, hr, hreach⟩ := hallowed
    exact hkept hr hreach

/-! ## A session with an object in a field -/

/-- The memory when a class has been registered. -/
def registered : Memory :=
  (Operation.run 1 (.addClass 0 0 0) (Operation.run 1 (.construct 7 ∅) {}).state).state

/-- What is left of a session after the actions. -/
def Session.after (s : Session) (actions : List Action) : Session :=
  actions.foldl (fun s a => a.run 4 s) s

/-- A caller makes an object with an object in a field, instantiates the class, and sets what it
has made. -/
def nested : Session :=
  Session.after { memory := registered } [.make 0, .make 0, .write (.put 1 100 (.object 2)),
    .request plainApplication (.instantiate 1 0 7 1), .request plainApplication (.set 1 1)]

theorem registered_reached : Machine.run (step 1) {} [.construct 7 ∅, .addClass 0 0 0] =
    some registered := rfl

theorem registered_clean : Machine.Each (step 1) (fun m op => op.Clean m) {}
    [.construct 7 ∅, .addClass 0 0 0] :=
  (Machine.each_cons rfl).2 ⟨trivial, (Machine.each_cons rfl).2 ⟨trivial, trivial⟩⟩

theorem Step.of_quiet (depth : Nat) {a : Action} (hallowed : a.Allowed ses)
    (hquiet : ∀ app r, a ≠ .request app r) : Step ses (a.run depth ses) :=
  ⟨depth, a, hallowed, fun app r heq => (hquiet app r heq).elim, rfl⟩

theorem Step.of_request (depth : Nat) {r : Request}
    (hallowed : (Action.request plainApplication r).Allowed ses) (hfinds : r.FindsNoObject ses) :
    Step ses (ses.serve plainApplication depth r) := by
  refine ⟨depth, .request plainApplication r, hallowed, fun app r' heq => ?_, rfl⟩
  cases heq
  exact ⟨plainApplication_keepsApart, hfinds⟩

theorem nested_reached : Relation.ReflTransGen Step { memory := registered } nested := by
  refine .head (.of_quiet 4 (a := .make 0) trivial nofun) <|
    .head (.of_quiet 4 (a := .make 0) trivial nofun) <|
    .head (.of_quiet 4 (a := .write (.put 1 100 (.object 2))) ?_ nofun) <|
    .head (.of_request 4 (r := .instantiate 1 0 7 1) ?_ trivial) <|
    .head (.of_request 4 (r := .set 1 1) ?_ trivial) .refl
  · refine ⟨⟨1, by decide, .refl⟩, fun q hq => ?_⟩
    cases hq
    exact ⟨2, by decide, .refl⟩
  · intro p hp
    cases hp
    decide
  · intro p hp
    cases hp
    decide

/-- The caller makes a projection that names the field. -/
def asking : Session :=
  nested.after [.make 0, .write (.put 9 100 (.plain .monostate))]

theorem asking_reached : Relation.ReflTransGen Step { memory := registered } asking := by
  refine nested_reached.trans <| .head (.of_quiet 4 (a := .make 0) trivial nofun) <|
    .head (.of_quiet 4 (a := .write (.put 9 100 (.plain .monostate))) ?_ nofun) .refl
  exact ⟨⟨9, by decide +kernel, .refl⟩, fun q hq => by cases hq⟩

/-! ## Results -/

/-- **Main result**: in every run in which no `get` of single fields finds an object, callers have
nothing that is stored, and what they write is not seen there. -/
theorem reached_isolated {room : Nat} {ops : List Operation} {m : Memory} {held : List Ptr}
    (hclean : Machine.Each (step room) (fun m op => op.Clean m) {} ops)
    (hrun : Machine.run (step room) {} ops = some m) (hheld : ∀ p ∈ held, p < m.objects)
    (hreached : Relation.ReflTransGen Step { memory := m, held } ses) :
    ses.Isolated ∧ ∀ w, (Action.write w).Allowed ses → ∀ id q, ses.objects.lookup id = some q →
      ∀ room, (w.run ses.memory).state.read room q = ses.memory.read room q := by
  have hparted : ses.memory.Parted ses.sides := by
    induction hreached with
    | refl =>
      refine ⟨reached_valid hrun, (reached_fit hclean hrun).settled, fun t p hp => ?_,
        fun p q _ hq => ?_⟩
      · cases t with
        | caller => exact hheld p hp
        | stored =>
          obtain ⟨id, hid⟩ := hp
          cases hid
      · obtain ⟨id, hid⟩ := hq
        cases hid
    | tail _ hstep ih => exact hstep.parted ih
  exact ⟨fun p hp id q hq => hparted.apart p q hp ⟨id, hq⟩, fun w hallowed id q hq room =>
    write_unseen hparted hallowed hq room⟩

/-- The whole object is got. -/
theorem reached_isolated_nested : (nested.serve plainApplication 4 (.get 1 2)).Isolated := by
  have hstep : Step nested (nested.serve plainApplication 4 (.get 1 2)) := by
    refine .of_request 4 ?_ fun obj _ k hk => ?_
    · intro p hp
      cases hp
      decide
    · have hkeys : projectedKeys nested.memory 2 = [] := by decide +kernel
      rw [hkeys] at hk
      cases hk
  exact (reached_isolated registered_clean registered_reached (fun _ hp => by cases hp)
    (nested_reached.tail hstep)).1

/-- The field that is got holds the stored object: the caller writes to it. -/
theorem projected_shared : Relation.ReflTransGen Step { memory := registered } asking ∧
    (Action.request plainApplication (.get 1 9)).Allowed asking ∧
    asking.objects.lookup 1 = some 3 ∧
    ¬ (asking.serve plainApplication 4 (.get 1 9)).Isolated ∧
    ∃ w, (Action.write w).Allowed (asking.serve plainApplication 4 (.get 1 9)) ∧
      (w.run (asking.serve plainApplication 4 (.get 1 9)).memory).state.read 4 3 ≠
        (asking.serve plainApplication 4 (.get 1 9)).memory.read 4 3 := by
  have hreply : 10 ∈ (asking.serve plainApplication 4 (.get 1 9)).held := by decide +kernel
  have hshared {p : Ptr} (hp : p = 3 ∨ p = 10) :
      (asking.serve plainApplication 4 (.get 1 9)).memory.Reach p 6 := by
    rcases hp with rfl | rfl <;> exact .single ⟨100, _, rfl, rfl⟩
  refine ⟨asking_reached, fun p hp => ?_, by decide +kernel, fun h => ?_,
    .put 6 5 (.plain (.key 1)), ⟨⟨10, hreply, hshared (.inr rfl)⟩, fun q hq => by cases hq⟩,
    fun h => ?_⟩
  · cases hp
    decide +kernel
  · exact h 10 hreply 1 3 (by decide +kernel) 6 (hshared (.inr rfl)) (hshared (.inl rfl))
  · exact absurd (congrArg sizeOf h) (by decide +kernel)

end InProcess

end Memory

end Bison
