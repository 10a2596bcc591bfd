import Bison.Lib.FinMap
import Bison.Lib.Program
import Bison.Rmi.Protocol

/-!
# Objects of a session

A session's objects are `dynamic`s with fields and methods. Looking up a field or a method may
change the object that is looked at, and calling a method may change everything the method can
reach: its own object, the session's context and the state of the application.

- `World`: the context of a session (context.hpp), the application's state and the generator of
  ids.
- `ObjectM`: programs on one object and the world.
- `call`: `dynamic::call` (bison_object.hpp:1386).
-/

namespace Bison

open SortedMap

variable {μ σ : Type}

/-- A live object: its fields, and the methods registered on it or cached in it. -/
structure Instance (μ : Type) where
  fields : Fields
  methods : List (Key × μ) := []

/-- `context` (context.hpp:24), without `emit_event`. -/
structure Context (μ : Type) where
  sessionId : Key := 0
  objects : FinMap Key (Instance μ) := ∅
  currentGroup : Key := 0
  groups : FinMap Key (List Key) := ∅

/-- What the methods of a session can reach. `generate_id` gives one id of `ids` after the other,
and has given `drawn` of them. -/
structure World (μ σ : Type) where
  ctx : Context μ
  app : σ
  ids : Nat → Key
  drawn : Nat := 0

/-- `put_object` (context.hpp:85). -/
def Context.putObject (ctx : Context μ) (id : Key) (obj : Instance μ) : Context μ :=
  let ctx := { ctx with objects := ctx.objects.insert id obj }
  if ctx.currentGroup ≠ 0 then
    let ids := (ctx.groups.lookup ctx.currentGroup).getD []
    { ctx with
      groups := ctx.groups.insert ctx.currentGroup (if id ∈ ids then ids else id :: ids) }
  else ctx

/-- `objects.erase`. -/
def Context.eraseObject (ctx : Context μ) (id : Key) : Context μ :=
  { ctx with objects := ctx.objects.erase id }

/-! ## Programs -/

/-- How a function of the server ends when it does not return. -/
inductive Failure where
  /-- A `std::exception` with this text. -/
  | thrown (what : Text)
  /-- It walks around a cyclic class chain for ever. -/
  | hangs
  deriving DecidableEq

/-- The exceptions of the lookups. -/
def Failure.ofExn : Exn → Failure
  | .runtimeError what => .thrown (ascii what)
  | .lengthError => .thrown (ascii "length_error")
  | .diverges => .hangs
  | .outOfFuel => .hangs

/-- What `catch` catches, and its `what()`. -/
def Failure.what : Failure → Option Text
  | .thrown what => some what
  | .hangs => none

/-- What a session does that can be seen from outside, or matters to a property. -/
inductive SessionEffect where
  /-- A method runs on an object, on one that has no id yet if there is none. -/
  | ran (object : Option Key) (method : Key)
  /-- `conn.send`. -/
  | sent (env : Envelope)
  /-- `conn.close`. -/
  | closed
  /-- The authentication module returned `true`. -/
  | authenticated

/-- Programs on one object and the world around it. -/
abbrev ObjectM (μ σ : Type) := Program Failure SessionEffect (Instance μ × World μ σ)

/-- A computation that only looks at a payload. -/
def liftE {τ α : Type} (r : Except Exn α) : Program Failure SessionEffect τ α :=
  Program.lift (r.mapError Failure.ofExn)

theorem liftE_bind_ok {τ α β : Type} {r : Except Exn α} {a : α} (h : r = .ok a)
    (f : α → Program Failure SessionEffect τ β) (s : τ) : (liftE r >>= f) s = f a s := by
  subst h
  rfl

theorem liftE_bind_error {τ α β : Type} {r : Except Exn α} {e : Exn} (h : r = .error e)
    (f : α → Program Failure SessionEffect τ β) (s : τ) :
    (liftE r >>= f) s = ⟨.error (.ofExn e), [], s⟩ := by
  subst h
  rfl

/-- `try { … } catch (const std::exception& e)`. -/
def tryCatch {τ α : Type} (p : Program Failure SessionEffect τ α) :
    Program Failure SessionEffect τ (Except Text α) :=
  p.attempt Failure.what

theorem tryCatch_ok {τ α : Type} {p : Program Failure SessionEffect τ α} {s s' : τ} {a : α}
    {trace : List SessionEffect} (h : p s = ⟨.ok a, trace, s'⟩) :
    tryCatch p s = ⟨.ok (.ok a), trace, s'⟩ :=
  Program.attempt_ok h

theorem tryCatch_thrown {τ α : Type} {p : Program Failure SessionEffect τ α} {s s' : τ}
    {what : Text} {trace : List SessionEffect} (h : p s = ⟨.error (.thrown what), trace, s'⟩) :
    tryCatch p s = ⟨.ok (.error what), trace, s'⟩ :=
  Program.attempt_caught h rfl

/-- What the application throws is caught. -/
theorem tryCatch_mapError {τ α : Type} {p : Program Failure SessionEffect τ α} {s s' : τ}
    {r : Except Text α} {trace : List SessionEffect}
    (h : p s = ⟨r.mapError .thrown, trace, s'⟩) : tryCatch p s = ⟨.ok r, trace, s'⟩ := by
  cases r with
  | ok a => exact tryCatch_ok h
  | error what => exact tryCatch_thrown h

/-- A function of an application, which returns or throws. -/
def external {τ α : Type} (f : τ → Except Text α × τ) : Program Failure SessionEffect τ α :=
  Program.ofState fun s => ((f s).1.mapError Failure.thrown, (f s).2)

theorem external_run {τ α : Type} {f : τ → Except Text α × τ} {s s' : τ} {r : Except Text α}
    (h : f s = (r, s')) : (external f : Program Failure SessionEffect τ α) s =
      ⟨r.mapError .thrown, [], s'⟩ := by
  simp only [external, Program.ofState, h]

/-- What a lookup that throws leaves of the fields: it has resolved the namespace. -/
def afterThrow (d : Fields) : Fields :=
  match resolveNamespace d with
  | .ok (_, d) => d
  | .error _ => d

/-- A lookup in the fields of the object. -/
def onFields {α : Type} (lookup : DynamicM α) : ObjectM μ σ α :=
  Program.ofState fun (obj, w) =>
    match lookup obj.fields with
    | .ok (a, fields) => (.ok a, { obj with fields }, w)
    | .error e => (.error (.ofExn e), { obj with fields := afterThrow obj.fields }, w)

/-- `obj->findMethod(name)`. -/
def findMethodM (reg : Registry μ) (name : Key) : ObjectM μ σ (Option μ) :=
  Program.ofState fun (obj, w) =>
    match findMethod reg name obj.methods obj.fields with
    | .ok ((m, methods), fields) => (.ok m, ⟨fields, methods⟩, w)
    | .error e => (.error (.ofExn e), { obj with fields := afterThrow obj.fields }, w)

theorem onFields_run {α : Type} {lookup : DynamicM α} {obj : Instance μ} {a : α} {fields : Fields}
    (h : lookup obj.fields = .ok (a, fields)) (w : World μ σ) :
    onFields lookup (obj, w) = ⟨.ok a, [], ({ obj with fields }, w)⟩ := by
  simp only [onFields, Program.ofState, h]

theorem findMethodM_run {reg : Registry μ} {name : Key} {obj : Instance μ} {r : Option μ}
    {methods : List (Key × μ)} {fields : Fields}
    (h : findMethod reg name obj.methods obj.fields = .ok ((r, methods), fields))
    (w : World μ σ) :
    findMethodM reg name (obj, w) = ⟨.ok r, [], (⟨fields, methods⟩, w)⟩ := by
  simp only [findMethodM, Program.ofState, h]

/-- What calling a method does: to the object, the context and the application. Methods throw
nothing but `std::exception`s. -/
abbrev MethodImpl (μ σ : Type) :=
  μ → Fields → Instance μ × World μ σ → Except Text Fields × (Instance μ × World μ σ)

/-- Run a method of the object, which has the id `self` if it has one. -/
def invoke (impl : MethodImpl μ σ) (self : Option Key) (name : Key) (m : μ) (params : Fields) :
    ObjectM μ σ Fields := do
  Program.emit (.ran self name)
  external (impl m params)

/-- What the fallback method is called with. -/
def fallbackParams (name : Key) (params : Fields) : Fields :=
  insert FIELD_PARAMS (.object params)
    (insert FIELD_NAME (.key name) (insert NAMESPACE (.key 0) Dynamic.empty))

/-- `dynamic::call` (bison_object.hpp:1386). -/
def call (reg : Registry μ) (impl : MethodImpl μ σ) (self : Option Key) (name : Key)
    (params : Fields) : ObjectM μ σ Fields := do
  match ← findMethodM reg name with
  | some m => invoke impl self name m params
  | none =>
    match ← findMethodM reg CALL_FALLBACK with
    | some fallback => invoke impl self CALL_FALLBACK fallback (fallbackParams name params)
    | none => Program.throw (.thrown (ascii "Method not found"))

/-- `if (obj->findMethod(hook)) try { obj->call(hook, params) } catch (…)`. What the hook
returned, threw, or nothing if there is no such hook. -/
def runHook (reg : Registry μ) (impl : MethodImpl μ σ) (self : Option Key) (hook : Key)
    (params : Fields) : ObjectM μ σ (Option (Except Text Fields)) := do
  match ← findMethodM reg hook with
  | some _ => some <$> tryCatch (call reg impl self hook params)
  | none => pure none

end Bison
