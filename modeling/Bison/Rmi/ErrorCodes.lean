import Bison.Core.CApi
import Bison.Core.Numbers
import Bison.Core.Resolution
import Bison.Rmi.Client
import Bison.Rmi.Instance

/-!
# The error codes of the C API

A function of the C API catches every exception and returns a number (bison_c.cpp, rmi_c.cpp).
Whether a method was not found, and whether it was the server that failed, it finds out by
looking for words in the text of the exception. The text of an error response is the server's,
and that of an exception of a method is the application's.

- `bisonCall`: `bison_call`.
- `RmiOperation.code`: what a blocking call returns, and what an asynchronous one with the wait
  and the get after it returns.
- `ClientRun`: any interleaving of a client of the C API.
- `error_codes_iff`: **main result**, when the codes say what they stand for.
- `unknown_class_hidden`: a describe of an unknown class ends in `RMI_ERR_INVALID_STATE`.

A future is what it is set to and when. What a request asks for does not matter to how its future
ends, and neither threads nor memory run out.
-/

namespace Bison.CApi

variable {μ σ α : Type}

/-- What the `catch` clauses tell apart. -/
inductive Raised where
  /-- A `std::runtime_error` with this text. -/
  | runtimeError (what : Text)
  | futureError
  | other
  deriving DecidableEq

/-- The exceptions of the lookups. Nothing if they do not return. -/
def Raised.ofExn : Exn → Option Raised
  | .runtimeError what => some (.runtimeError (ascii what))
  | .lengthError => some .other
  | .diverges => none
  | .outOfFuel => none

/-- `std::string(e.what()).find(word) != npos`. What `what()` points to ends at the first NUL. -/
def Says (word : String) (what : Text) : Prop := ascii word <:+: cString what

instance (word : String) (what : Text) : Decidable (Says word what) :=
  inferInstanceAs (Decidable (_ <:+: _))

/-! ## `bison_call` -/

/-- What a method does to its object and to whatever else it reaches. -/
abbrev AppMethod (μ σ : Type) :=
  μ → Fields → Instance μ × σ → Except Raised Fields × (Instance μ × σ)

/-- The lookups of `dynamic::call`: the method that is to run, with what it is given, and the
object as they leave it. -/
def resolveCall (reg : Registry μ) (name : Key) (params : Fields) (obj : Instance μ) :
    Except Exn (Option (μ × Fields)) × Instance μ :=
  match findMethod reg name obj.methods obj.fields with
  | .error e => (.error e, { obj with fields := afterThrow obj.fields })
  | .ok ((some m, methods), fields) => (.ok (some (m, params)), ⟨fields, methods⟩)
  | .ok ((none, methods), fields) =>
    match findMethod reg CALL_FALLBACK methods fields with
    | .error e => (.error e, ⟨afterThrow fields, methods⟩)
    | .ok ((some fallback, methods), fields) =>
      (.ok (some (fallback, fallbackParams name params)), ⟨fields, methods⟩)
    | .ok ((none, methods), fields) => (.ok none, ⟨fields, methods⟩)

/-- `dynamic::call` (bison_object.hpp:1386). Nothing if it does not return. -/
def call (reg : Registry μ) (impl : AppMethod μ σ) (name : Key) (params : Fields)
    (s : Instance μ × σ) : Option (Except Raised Fields) × (Instance μ × σ) :=
  match resolveCall reg name params s.1 with
  | (.error e, obj) => ((Raised.ofExn e).map .error, (obj, s.2))
  | (.ok none, obj) => (some (.error (.runtimeError (ascii "Method not found"))), (obj, s.2))
  | (.ok (some (m, ps)), obj) => ((impl m ps (obj, s.2)).map some id)

/-- The `catch` clauses of `bison_call`. -/
def catchCall : Raised → BisonError
  | .runtimeError what =>
    if Says "not found" what ∨ Says "Not found" what then .notFound else .exception
  | _ => .exception

/-- What is made of the ending of a call. -/
def finishCall : Except Raised Fields → Returned BisonError Fields
  | .ok ret => { error := .ok, out := some ret }
  | .error e => { error := catchCall e }

/-- `bison_call` (bison_c.cpp:926), with whether `h` and `result` are not NULL. -/
def bisonCall (reg : Registry μ) (impl : AppMethod μ σ) (h : Bool) (name : Key)
    (params : Option Fields) (result : Bool) (s : Instance μ × σ) :
    Option (Returned BisonError Fields) × (Instance μ × σ) :=
  match h, params, result with
  | true, some params, true =>
    (call reg impl name params s).map (Option.map finishCall) id
  | _, _, _ => (some { error := .null }, s)

/-- Neither the method nor a fallback is there. -/
def Unresolved (reg : Registry μ) (name : Key) (obj : Instance μ) : Prop :=
  reg.resolveMethod obj.fields obj.methods name = .ok none ∧
    reg.resolveMethod obj.fields obj.methods CALL_FALLBACK = .ok none

section Call

variable {reg : Registry μ} {name : Key} {params : Fields} {obj : Instance μ}

theorem startOf_error {d : Fields} {e : Exn} (h : reg.startOf d = .error e) :
    e = .runtimeError "Invalid type" := by
  have hns : ∀ e, namespaceOf d = .error e → e = .runtimeError "Invalid type" := by
    intro e he
    unfold namespaceOf resolveNamespace at he
    split at he <;> cases he
    rfl
  have hclass : ∀ e, classOf d = .error e → e = .runtimeError "Invalid type" := by
    intro e he
    unfold classOf asKey at he
    split at he <;> cases he
    rfl
  unfold Registry.startOf at h
  cases hof : namespaceOf d with
  | error e' =>
    rw [hof] at h
    cases h
    exact hns _ hof
  | ok ns =>
    rw [hof] at h
    simp only [Decoder.ok_bind] at h
    cases hcol : reg.lookup ns with
    | none =>
      rw [hcol] at h
      cases h
    | some col =>
      simp only [hcol] at h
      cases hc : classOf d with
      | error e' =>
        rw [hc] at h
        cases h
        exact hclass _ hc
      | ok c =>
        rw [hc] at h
        cases h

/-- No lookup throws a text of its own. -/
theorem findMethod_error {methods : List (Key × μ)} {d : Fields} {e : Exn}
    (h : findMethod reg name methods d = .error e) :
    e = .runtimeError "Invalid type" ∨ e = .diverges := by
  have hresolve := findMethod_resolve reg name methods d
  rw [h] at hresolve
  replace hresolve : reg.resolveMethod d methods name = .error e := hresolve.symm
  unfold Registry.resolveMethod at hresolve
  split at hresolve
  · cases hresolve
  · cases hstart : reg.startOf d with
    | error e' =>
      rw [hstart] at hresolve
      cases hresolve
      exact .inl (startOf_error hstart)
    | ok start =>
      simp only [hstart, Decoder.ok_bind] at hresolve
      split at hresolve
      · cases hresolve
      · split at hresolve <;> cases hresolve
        exact .inr rfl

theorem resolveCall_error {e : Exn} (h : (resolveCall reg name params obj).1 = .error e) :
    e = .runtimeError "Invalid type" ∨ e = .diverges := by
  unfold resolveCall at h
  split at h
  · next hfind =>
    cases h
    exact findMethod_error hfind
  · cases h
  · split at h
    · next hfind =>
      cases h
      exact findMethod_error hfind
    · cases h
    · cases h

/-- The lookups of a call end with nothing exactly where neither method is there. The first
leaves what the second finds. -/
theorem resolveCall_none_iff :
    (resolveCall reg name params obj).1 = .ok none ↔ Unresolved reg name obj := by
  have hname := findMethod_resolve reg name obj.methods obj.fields
  unfold resolveCall Unresolved
  cases hfind : findMethod reg name obj.methods obj.fields with
  | error e =>
    rw [hfind] at hname
    rw [← hname]
    simp [Except.map]
  | ok r =>
    obtain ⟨⟨m, methods⟩, fields⟩ := r
    rw [hfind] at hname
    rw [← hname]
    have hleaves := (findMethod_leaves hfind).2.2 CALL_FALLBACK
    cases m with
    | some m => simp [Except.map]
    | none =>
      have hfallback := findMethod_resolve reg CALL_FALLBACK methods fields
      rw [hleaves] at hfallback
      rw [← hfallback]
      cases hfind' : findMethod reg CALL_FALLBACK methods fields with
      | error e => simp [Except.map, hfind']
      | ok r =>
        obtain ⟨⟨m, methods'⟩, fields'⟩ := r
        cases m <;> simp [Except.map, hfind']

theorem catchCall_notFound_iff {e : Raised} : catchCall e = .notFound ↔
    ∃ what, e = .runtimeError what ∧ (Says "not found" what ∨ Says "Not found" what) := by
  cases e with
  | runtimeError what =>
    by_cases h : Says "not found" what ∨ Says "Not found" what <;> simp [catchCall, h]
  | futureError => simp [catchCall]
  | other => simp [catchCall]

/-- Where a method is called, the code says what the method threw. -/
theorem bisonCall_of_resolved {impl : AppMethod μ σ} {app : σ} {m : μ} {ps : Fields}
    {obj' : Instance μ} (h : resolveCall reg name params obj = (.ok (some (m, ps)), obj')) :
    (bisonCall reg impl true name (some params) true (obj, app)).1.map Returned.error =
        some .notFound ↔
      ∃ what, (impl m ps (obj', app)).1 = .error (.runtimeError what) ∧
        (Says "not found" what ∨ Says "Not found" what) := by
  simp only [bisonCall, call, h, Prod.map_fst, Option.map_some, Option.some.injEq]
  cases (impl m ps (obj', app)).1 with
  | ok ret => simp [finishCall]
  | error e =>
    simp only [finishCall, catchCall_notFound_iff, Except.error.injEq]

/-- Where none is, it says so. -/
theorem bisonCall_of_unresolved {impl : AppMethod μ σ} {app : σ} {obj' : Instance μ}
    (h : resolveCall reg name params obj = (.ok none, obj')) :
    (bisonCall reg impl true name (some params) true (obj, app)).1.map Returned.error =
      some .notFound := by
  have hsays : Says "not found" (ascii "Method not found") := by decide
  simp only [bisonCall, call, h, Prod.map_fst, Option.map_some, finishCall, catchCall, hsays,
    true_or, if_true]

theorem bisonCall_of_error {impl : AppMethod μ σ} {app : σ} {e : Exn} {obj' : Instance μ}
    (h : resolveCall reg name params obj = (.error e, obj')) :
    (bisonCall reg impl true name (some params) true (obj, app)).1.map Returned.error ≠
      some .notFound := by
  have hsays : ¬ (Says "not found" (ascii "Invalid type") ∨
      Says "Not found" (ascii "Invalid type")) := by decide
  simp only [bisonCall, call, h, Prod.map_fst]
  rcases resolveCall_error (congrArg Prod.fst h) with rfl | rfl
  · simp [Raised.ofExn, finishCall, catchCall, hsays]
  · simp [Raised.ofExn]

end Call

/-- `bison_call` answers that nothing was found exactly where nothing was. -/
def ToldUnresolved (reg : Registry μ) (impl : AppMethod μ σ) (name : Key) (params : Fields)
    (s : Instance μ × σ) : Prop :=
  (bisonCall reg impl true name (some params) true s).1.map Returned.error = some .notFound ↔
    Unresolved reg name s.1

/-- What the method that is called throws, if it throws, does not say "not found". -/
def NothingSaid (reg : Registry μ) (impl : AppMethod μ σ) (name : Key) (params : Fields)
    (s : Instance μ × σ) : Prop :=
  ∀ m ps obj', resolveCall reg name params s.1 = (.ok (some (m, ps)), obj') →
    ∀ what, (impl m ps (obj', s.2)).1 = .error (.runtimeError what) →
      ¬ (Says "not found" what ∨ Says "Not found" what)

theorem toldUnresolved_iff (reg : Registry μ) (impl : AppMethod μ σ) (name : Key)
    (params : Fields) (s : Instance μ × σ) :
    ToldUnresolved reg impl name params s ↔ NothingSaid reg impl name params s := by
  obtain ⟨obj, app⟩ := s
  have hnone : (resolveCall reg name params obj).1 = .ok none ↔ Unresolved reg name obj :=
    resolveCall_none_iff
  unfold ToldUnresolved NothingSaid
  rw [← hnone]
  cases hr : resolveCall reg name params obj with
  | mk r obj' =>
    rcases r with e | _ | ⟨m, ps⟩
    · simp [bisonCall_of_error hr]
    · simp [bisonCall_of_unresolved hr]
    · rw [bisonCall_of_resolved hr]
      constructor
      · rintro h m' ps' obj'' heq what hwhat hsays
        cases heq
        cases h.1 ⟨what, hwhat, hsays⟩
      · intro h
        refine iff_of_false ?_ (by simp)
        rintro ⟨what, hwhat, hsays⟩
        exact h m ps obj' rfl what hwhat hsays

/-! ## Futures -/

/-- `rmi_error` (rmi_c.h:111). -/
inductive RmiError where
  | ok
  | null
  | invalidState
  | timeout
  | remoteException
  | transport
  | exception
  deriving DecidableEq

/-- A `std::future`: to what it will be set, and after how many milliseconds. -/
inductive Future (α : Type) where
  | set (after : Nat) (ending : Except Raised α)
  | never

/-- `get()`, which waits as long as it takes. -/
def Future.get : Future α → Option (Except Raised α)
  | .set _ ending => some ending
  | .never => none

/-- `map_runtime_error` (rmi_c.cpp:76). -/
def mapRuntimeError (what : Text) : RmiError :=
  if Says "remote" what ∨ Says "server" what then .remoteException else .invalidState

/-- The time a caller is ready to wait, 5 s if he gives a negative one. -/
def waitTime (timeoutMs : Int64) : Nat :=
  if timeoutMs < 0 then 5000 else timeoutMs.toInt.toNat

/-- `wait_future_ready` (rmi_c.cpp:243). -/
def waitFutureReady (future : Future α) (timeoutMs : Int64) : RmiError :=
  match future with
  | .set after _ => if after ≤ waitTime timeoutMs then .ok else .timeout
  | .never => .timeout

/-- The `catch` clauses of a blocking describe and instantiate. -/
def catchUnread : Raised → RmiError
  | .runtimeError _ => .invalidState
  | _ => .exception

/-- Those of a blocking get and call, and of everything that makes a future. -/
def catchMapped : Raised → RmiError
  | .runtimeError what => mapRuntimeError what
  | _ => .exception

/-- Those of `take_dynamic` and `take_proxy`. -/
def catchTaken : Raised → RmiError
  | .runtimeError what => mapRuntimeError what
  | .futureError => .invalidState
  | .other => .exception

/-- What is made of the ending of a future. -/
def finish (catches : Raised → RmiError) : Except Raised α → Returned RmiError α
  | .ok a => { error := .ok, out := some a }
  | .error e => { error := catches e }

/-- A blocking describe or instantiate: no limit to the wait, and no text is read. -/
def getBlocking (future : Except Raised (Future α)) : Option (Returned RmiError α) :=
  match future with
  | .error e => some { error := catchUnread e }
  | .ok future => future.get.map (finish catchUnread)

/-- A blocking get or call. -/
def waitBlocking (future : Except Raised (Future α)) (timeoutMs : Int64) :
    Option (Returned RmiError α) :=
  match future with
  | .error e => some { error := catchMapped e }
  | .ok future =>
    match waitFutureReady future timeoutMs with
    | .ok => future.get.map (finish catchMapped)
    | err => some { error := err }

/-- `store_future_handle` (rmi_c.cpp:334) of a future that is made on the way, in the `try` of an
asynchronous function. -/
def storeFutureHandle (outFuture : Bool) (future : Except Raised (Future α)) :
    Returned RmiError (Future α) :=
  match future with
  | .error e => { error := catchMapped e }
  | .ok future => if outFuture then { error := .ok, out := some future } else { error := .null }

/-- `take_dynamic` (rmi_c.cpp:288) and `take_proxy` (rmi_c.cpp:313). -/
def take (out : Bool) (future : Future α) : Option (Returned RmiError α) :=
  if out then future.get.map (finish catchTaken) else some { error := .null }

/-- `rmi_future_wait` (rmi_c.cpp:413). -/
def rmiFutureWait (future : Option (Future α)) (timeoutMs : Int64) : RmiError :=
  match future with
  | none => .null
  | some future => waitFutureReady future timeoutMs

/-- `consume_future_handle` (rmi_c.cpp:346). -/
def consumeFutureHandle (future : Option (Future α))
    (consume : Future α → Option (Returned RmiError α)) : Option (Returned RmiError α) :=
  match future with
  | none => some { error := .null }
  | some future => consume future

/-- `rmi_future_get_dynamic` (rmi_c.cpp:419). -/
def rmiFutureGetDynamic (future : Option (Future Fields)) (outValue : Bool) :
    Option (Returned RmiError Fields) :=
  consumeFutureHandle future (take outValue)

/-- `rmi_future_get_proxy` (rmi_c.cpp:423). A proxy is the id of its object. -/
def rmiFutureGetProxy (future : Option (Future Key)) (outProxy : Bool) :
    Option (Returned RmiError Key) :=
  consumeFutureHandle future (take outProxy)

/-! ## Requests

Each function is given the future of its request, or what `send_request` threw. -/

/-- The object id of an answer, as the thread of `client::instantiate` reads it. -/
def objectId (answer : Fields) : Except Exn Key :=
  (asKey FIELD_OBJECT_ID answer).map Prod.fst

/-- `client::instantiate` (client.cpp:98). -/
def proxyFuture : Future Fields → Future Key
  | .set after (.ok answer) =>
    match objectId answer with
    | .ok id => .set after (.ok id)
    | .error e =>
      match Raised.ofExn e with
      | some e => .set after (.error e)
      | none => .never
  | .set after (.error e) => .set after (.error e)
  | .never => .never

/-- `rmi_client_describe` (rmi_c.cpp:501). -/
def rmiClientDescribe (h outDesc : Bool) (request : Except Raised (Future Fields)) :
    Option (Returned RmiError Fields) :=
  if outDesc && h then getBlocking request else some { error := .null }

def rmiClientDescribeAsync (h outFuture : Bool) (request : Except Raised (Future Fields)) :
    Returned RmiError (Future Fields) :=
  if h then storeFutureHandle outFuture request else { error := .null }

/-- `rmi_client_instantiate` (rmi_c.cpp:530). -/
def rmiClientInstantiate (h outProxy : Bool) (request : Except Raised (Future Fields)) :
    Option (Returned RmiError Key) :=
  if outProxy && h then getBlocking (request.map proxyFuture) else some { error := .null }

def rmiClientInstantiateAsync (h outFuture : Bool) (request : Except Raised (Future Fields)) :
    Returned RmiError (Future Key) :=
  if h then storeFutureHandle outFuture (request.map proxyFuture) else { error := .null }

/-- `rmi_proxy_get` (rmi_c.cpp:707). -/
def rmiProxyGet (proxy outResult : Bool) (request : Except Raised (Future Fields))
    (timeoutMs : Int64) : Option (Returned RmiError Fields) :=
  if outResult && proxy then waitBlocking request timeoutMs else some { error := .null }

def rmiProxyGetAsync (proxy outFuture : Bool) (request : Except Raised (Future Fields)) :
    Returned RmiError (Future Fields) :=
  if proxy then storeFutureHandle outFuture request else { error := .null }

/-- `rmi_proxy_call` (rmi_c.cpp:746). The result is dropped where `out_result` is NULL. -/
def rmiProxyCall (proxy outResult : Bool) (request : Except Raised (Future Fields))
    (timeoutMs : Int64) : Option (Returned RmiError Fields) :=
  if proxy then
    (waitBlocking request timeoutMs).map fun r => if outResult then r else { r with out := none }
  else some { error := .null }

def rmiProxyCallAsync (proxy outFuture : Bool) (request : Except Raised (Future Fields)) :
    Returned RmiError (Future Fields) :=
  if proxy then storeFutureHandle outFuture request else { error := .null }

inductive RmiOperation where
  | describe
  | instantiate
  | get
  | call
  deriving DecidableEq

inductive Form where
  | blocking
  /-- The asynchronous function, then `rmi_future_wait`, then `rmi_future_get_…`. -/
  | async
  deriving DecidableEq

/-- A wait and a get after an asynchronous function: the first error, or success. -/
def thenWaitAndGet (stored : Returned RmiError (Future α)) (timeoutMs : Int64)
    (get : Option (Future α) → Bool → Option (Returned RmiError α)) : Option RmiError :=
  match stored.error with
  | .ok =>
    match rmiFutureWait stored.out timeoutMs with
    | .ok => (get stored.out true).map Returned.error
    | err => some err
  | err => some err

/-- The error code of an operation with valid handles. Nothing if it does not return. -/
def RmiOperation.code (op : RmiOperation) (form : Form) (request : Except Raised (Future Fields))
    (timeoutMs : Int64) : Option RmiError :=
  match op, form with
  | .describe, .blocking => (rmiClientDescribe true true request).map Returned.error
  | .describe, .async =>
    thenWaitAndGet (rmiClientDescribeAsync true true request) timeoutMs rmiFutureGetDynamic
  | .instantiate, .blocking => (rmiClientInstantiate true true request).map Returned.error
  | .instantiate, .async =>
    thenWaitAndGet (rmiClientInstantiateAsync true true request) timeoutMs rmiFutureGetProxy
  | .get, .blocking => (rmiProxyGet true true request timeoutMs).map Returned.error
  | .get, .async =>
    thenWaitAndGet (rmiProxyGetAsync true true request) timeoutMs rmiFutureGetDynamic
  | .call, .blocking => (rmiProxyCall true true request timeoutMs).map Returned.error
  | .call, .async =>
    thenWaitAndGet (rmiProxyCallAsync true true request) timeoutMs rmiFutureGetDynamic

/-! ## What becomes of an exception -/

/-- A text that is taken for the server's. -/
def SaysServer (what : Text) : Prop := Says "remote" what ∨ Says "server" what

instance (what : Text) : Decidable (SaysServer what) := inferInstanceAs (Decidable (_ ∨ _))

/-- An exception with such a text. -/
def Told (e : Raised) : Prop := ∃ what, e = .runtimeError what ∧ SaysServer what

/-- The request throws such a text at once, or its future does in time. -/
def RaisedTold (request : Except Raised (Future α)) (timeoutMs : Int64) : Prop :=
  (∃ e, request = .error e ∧ Told e) ∨
    ∃ after e, request = .ok (.set after (.error e)) ∧ after ≤ waitTime timeoutMs ∧ Told e

theorem mapRuntimeError_iff {what : Text} :
    mapRuntimeError what = .remoteException ↔ SaysServer what := by
  by_cases h : Says "remote" what ∨ Says "server" what <;> simp [mapRuntimeError, SaysServer, h]

theorem catchUnread_ne (e : Raised) : catchUnread e ≠ .remoteException := by
  cases e <;> simp [catchUnread]

theorem catchMapped_iff {e : Raised} : catchMapped e = .remoteException ↔ Told e := by
  cases e with
  | runtimeError what => simp [catchMapped, mapRuntimeError_iff, Told]
  | futureError => simp [catchMapped, Told]
  | other => simp [catchMapped, Told]

theorem catchTaken_iff {e : Raised} : catchTaken e = .remoteException ↔ Told e := by
  cases e with
  | runtimeError what => simp [catchTaken, mapRuntimeError_iff, Told]
  | futureError => simp [catchTaken, Told]
  | other => simp [catchTaken, Told]

theorem getBlocking_ne (request : Except Raised (Future α)) :
    (getBlocking request).map Returned.error ≠ some .remoteException := by
  rcases request with e | ⟨after, e | a⟩ | -
  · simp [getBlocking, catchUnread_ne]
  · simp [getBlocking, Future.get, finish, catchUnread_ne]
  · simp [getBlocking, Future.get, finish]
  · simp [getBlocking, Future.get]

theorem waitBlocking_iff {request : Except Raised (Future α)} {timeoutMs : Int64} :
    (waitBlocking request timeoutMs).map Returned.error = some .remoteException ↔
      RaisedTold request timeoutMs := by
  rcases request with e | ⟨after, ending⟩ | -
  · simp [waitBlocking, catchMapped_iff, RaisedTold]
  · by_cases hafter : after ≤ waitTime timeoutMs
    · cases ending <;>
        simp [waitBlocking, waitFutureReady, hafter, Future.get, finish, catchMapped_iff,
          RaisedTold]
    · simp [waitBlocking, waitFutureReady, hafter, RaisedTold]
  · simp [waitBlocking, waitFutureReady, RaisedTold]

theorem thenWaitAndGet_iff {request : Except Raised (Future α)} {timeoutMs : Int64} :
    thenWaitAndGet (storeFutureHandle true request) timeoutMs
        (fun future out => consumeFutureHandle future (take out)) = some .remoteException ↔
      RaisedTold request timeoutMs := by
  rcases request with e | ⟨after, ending⟩ | -
  · have hne : catchMapped e ≠ .ok := by
      cases e with
      | runtimeError what =>
        by_cases h : Says "remote" what ∨ Says "server" what <;>
          simp [catchMapped, mapRuntimeError, h]
      | futureError => simp [catchMapped]
      | other => simp [catchMapped]
    have hcode : thenWaitAndGet (storeFutureHandle true (.error e : Except Raised (Future α)))
        timeoutMs (fun future out => consumeFutureHandle future (take out)) =
          some (catchMapped e) := by
      cases hcaught : catchMapped e with
      | ok => exact absurd hcaught hne
      | _ => simp [thenWaitAndGet, storeFutureHandle, hcaught]
    simp [hcode, catchMapped_iff, RaisedTold]
  · by_cases hafter : after ≤ waitTime timeoutMs
    · cases ending <;>
        simp [thenWaitAndGet, storeFutureHandle, rmiFutureWait, waitFutureReady, hafter,
          consumeFutureHandle, take, Future.get, finish, catchTaken_iff, RaisedTold]
    · simp [thenWaitAndGet, storeFutureHandle, rmiFutureWait, waitFutureReady, hafter, RaisedTold]
  · simp [thenWaitAndGet, storeFutureHandle, rmiFutureWait, waitFutureReady, RaisedTold]

theorem raisedTold_set {after : Nat} {ending : Except Raised α} {timeoutMs : Int64} :
    RaisedTold (.ok (.set after ending)) timeoutMs ↔
      after ≤ waitTime timeoutMs ∧ ∃ e, ending = .error e ∧ Told e := by
  constructor
  · rintro (⟨e, heq, -⟩ | ⟨_, e, heq, hafter, htold⟩)
    · cases heq
    · cases heq
      exact ⟨hafter, e, rfl, htold⟩
  · rintro ⟨hafter, e, rfl, htold⟩
    exact .inr ⟨after, e, rfl, hafter, htold⟩

theorem objectId_error {answer : Fields} {e : Exn} (h : objectId answer = .error e) :
    e = .runtimeError "Invalid type" := by
  unfold objectId asKey at h
  split at h <;> cases h
  rfl

/-- Reading the object id of an answer raises nothing that would be taken for the server's. -/
theorem raisedTold_proxyFuture {request : Except Raised (Future Fields)} {timeoutMs : Int64} :
    RaisedTold (request.map proxyFuture) timeoutMs ↔ RaisedTold request timeoutMs := by
  rcases request with e | ⟨after, e | answer⟩ | -
  · simp [RaisedTold, Except.map]
  · simp [RaisedTold, Except.map, proxyFuture]
  · have hsays : ¬ SaysServer (ascii "Invalid type") := by decide
    cases hid : objectId answer with
    | ok id => simp [RaisedTold, Except.map, proxyFuture, hid]
    | error e =>
      rw [objectId_error hid] at hid
      simp [RaisedTold, Except.map, proxyFuture, hid, Raised.ofExn, Told, hsays]
  · simp [RaisedTold, Except.map, proxyFuture]

/-- The text of an exception is read, and the wait has a limit. -/
def RmiOperation.mapped : RmiOperation → Form → Bool
  | .describe, .blocking => false
  | .instantiate, .blocking => false
  | _, _ => true

/-- **All eight paths**: the code stands for the text of an exception, or for nothing. -/
theorem RmiOperation.code_iff {op : RmiOperation} {form : Form}
    {request : Except Raised (Future Fields)} {timeoutMs : Int64} :
    op.code form request timeoutMs = some .remoteException ↔
      op.mapped form = true ∧ RaisedTold request timeoutMs := by
  have hmapped : op.mapped form = true → (op.code form request timeoutMs = some .remoteException ↔
      RaisedTold request timeoutMs) := by
    intro hmapped
    cases op with
    | describe =>
      cases form with
      | blocking => cases hmapped
      | async => exact thenWaitAndGet_iff
    | instantiate =>
      cases form with
      | blocking => cases hmapped
      | async => exact thenWaitAndGet_iff.trans raisedTold_proxyFuture
    | get =>
      cases form with
      | blocking => exact waitBlocking_iff
      | async => exact thenWaitAndGet_iff
    | call =>
      cases form with
      | blocking =>
        have hkept : rmiProxyCall true true request timeoutMs = waitBlocking request timeoutMs := by
          simp [rmiProxyCall]
        rw [← waitBlocking_iff, ← hkept]
        rfl
      | async => exact thenWaitAndGet_iff
  cases hm : op.mapped form with
  | true => rw [hmapped hm, and_iff_right rfl]
  | false =>
    refine iff_of_false ?_ (by simp)
    cases op <;> cases form <;> cases hm
    · exact getBlocking_ne request
    · exact getBlocking_ne (request.map proxyFuture)

/-! ## Words in a text -/

/-- A word without the separator is in one of the two parts. -/
theorem infix_append_cons_iff {β : Type} {word front rest : List β} {sep : β} (hsep : sep ∉ word)
    (hrest : ¬ word <:+: rest) : word <:+: front ++ sep :: rest ↔ word <:+: front := by
  constructor
  · intro h
    rcases List.infix_append_iff_ne_nil.1 h with
      hfront | hbehind | ⟨w₁, w₂, -, hw₂, rfl, -, hprefix⟩
    · exact hfront
    · rcases List.infix_cons_iff.1 hbehind with hprefix | hin
      · cases word with
        | nil => exact List.nil_infix
        | cons c word =>
          rw [List.cons_prefix_cons] at hprefix
          exact absurd (List.mem_cons.2 (.inl hprefix.1.symm)) hsep
      · exact absurd hin hrest
    · -- what is behind the first part starts with the separator
      cases w₂ with
      | nil => exact absurd rfl hw₂
      | cons c w₂ =>
        rw [List.cons_prefix_cons] at hprefix
        exact absurd (List.mem_append.2 (.inr (List.mem_cons.2 (.inl hprefix.1.symm)))) hsep
  · exact fun h => List.infix_append_of_infix_left h

/-- What is behind the message in a coded message. -/
def codeSuffix (code : Key) : Text := ascii "(code=" ++ decimal code.toNat ++ ascii ")"

theorem codedMessage_eq (code : Key) (message : Text) :
    codedMessage code message = message ++ 32 :: codeSuffix code := by
  have hspace : ascii " (code=" = 32 :: ascii "(code=" := by decide
  rw [codedMessage, codeSuffix, hspace, List.append_assoc, List.append_assoc, List.cons_append,
    List.append_assoc]

theorem not_mem_codeSuffix {c : UInt8} (code : Key) (hfront : c ∉ ascii "(code=)")
    (hdigit : c < 48 ∨ 57 < c) : c ∉ codeSuffix code := by
  intro h
  rcases List.mem_append.1 h with h | h
  · rcases List.mem_append.1 h with h | h
    · exact hfront (List.mem_of_mem_dropLast (l := ascii "(code=)") h)
    · obtain ⟨hlow, hhigh⟩ := decimal_digits _ c h
      rcases hdigit with hdigit | hdigit
      · exact absurd hlow (by simpa using hdigit)
      · exact absurd hhigh (by simpa using hdigit)
  · exact hfront (List.mem_of_mem_drop (i := 6) h)

/-- The code behind a message says nothing. -/
theorem says_codedMessage_iff (word : String) {code : Key} {message : Text}
    (hspace : 32 ∉ ascii word) (hr : 114 ∈ ascii word) :
    Says word (codedMessage code message) ↔ Says word message := by
  have hrest : ¬ ascii word <:+: codeSuffix code := by
    intro h
    exact not_mem_codeSuffix code (by decide) (.inr (by decide)) (h.subset hr)
  have hnul : (0 : UInt8) ∉ 32 :: codeSuffix code := by
    rw [List.mem_cons, not_or]
    exact ⟨by decide, not_mem_codeSuffix code (by decide) (.inl (by decide))⟩
  unfold Says
  rw [codedMessage_eq]
  by_cases h : 0 ∈ message
  · rw [cString_append_of_nul h]
  · rw [cString_append h, cString_of_no_nul hnul, cString_of_no_nul h]
    exact infix_append_cons_iff hspace hrest

theorem told_codedMessage_iff {code : Key} {message : Text} :
    Told (.runtimeError (codedMessage code message)) ↔ SaysServer message := by
  unfold Told SaysServer
  simp only [Raised.runtimeError.injEq, exists_eq_left',
    says_codedMessage_iff "remote" (by decide) (by decide),
    says_codedMessage_iff "server" (by decide) (by decide)]

/-! ## Clients -/

/-- The transports for which the C API makes clients. -/
inductive ClientTransport where
  | tcp
  | tls
  | pipe
  | term
  deriving DecidableEq

/-- What `send` throws on one that is not open. -/
def ClientTransport.sendError : ClientTransport → Text
  | tcp => ascii "socket_client_transport::send: not open"
  | tls => ascii "tls_socket_client_transport::send: not open"
  | pipe => ascii "named_pipe_client_transport::send: not open"
  | term => ascii "term_transport: send on closed connection"

def ClientTransport.Throws (transport : ClientTransport) : ClientAction → Prop
  | .send _ (some what) => what = transport.sendError
  | _ => True

theorem ClientTransport.not_told (transport : ClientTransport) :
    ¬ Told (.runtimeError transport.sendError) := by
  rintro ⟨what, heq, hsays⟩
  cases heq
  revert hsays
  cases transport <;> decide

section Wording

variable {reg : Registry μ} {transport : ClientTransport} {c c' : Client} {a : ClientAction}

/-- The exceptions that the client makes itself, and those of its transport. -/
def Wording (transport : ClientTransport) : Settled → Prop
  | .response _ _ => True
  | .sendError what => what = transport.sendError
  | .transportError what => Settled.transportError what = Client.disconnected ∨
      Settled.transportError what = Client.workerExiting

/-- No exception of the client is worded otherwise. -/
structure Worded (transport : ClientTransport) (c : Client) : Prop where
  failed : ∀ p ∈ c.sendFailed, p.2 = transport.sendError
  settled : ∀ p ∈ c.settled, Wording transport p.2

theorem Worded.settle (h : Worded transport c) (id : Key) {how : Settled}
    (hhow : Wording transport how) : Worded transport (c.settle id how) where
  failed := h.failed
  settled p hp := by
    rcases List.mem_append.1 hp with hp | hp
    · exact h.settled p hp
    · rw [List.mem_singleton.1 hp]
      exact hhow

/-- Only the exceptions matter. -/
theorem Worded.congr (h : Worded transport c) (hfailed : c'.sendFailed = c.sendFailed)
    (hsettled : c'.settled = c.settled) : Worded transport c' where
  failed := hfailed ▸ h.failed
  settled := hsettled ▸ h.settled

theorem wording_disconnected : Wording transport Client.disconnected := .inl rfl

theorem wording_workerExiting : Wording transport Client.workerExiting := .inr rfl

/-- **One step**: a new exception is the transport's or one of the two of the client. -/
theorem Worded.step (h : Worded transport c) (ha : transport.Throws a)
    (hstep : Client.step reg c a = some c') : Worded transport c' := by
  cases a with
  | call id =>
    simp only [Client.step] at hstep
    split at hstep <;> cases hstep
    exact h.congr rfl rfl
  | register id =>
    simp only [Client.step] at hstep
    split at hstep
    · split at hstep <;> cases hstep
      · exact h.congr rfl rfl
      · exact (h.settle id wording_disconnected).congr rfl rfl
    · cases hstep
  | send id thrown =>
    simp only [Client.step] at hstep
    split at hstep
    · cases thrown with
      | none =>
        cases hstep
        exact h.congr rfl rfl
      | some what =>
        cases hstep
        refine ⟨fun p hp => ?_, h.settled⟩
        rcases List.mem_cons.1 hp with rfl | hp
        · exact ha
        · exact h.failed p hp
    · cases hstep
  | sendError id =>
    simp only [Client.step] at hstep
    cases hwhat : c.sendFailed.lookup id with
    | none => simp [hwhat] at hstep
    | some what =>
      have hfailed : Worded transport
          { c with sendFailed := c.sendFailed.filter fun p => p.1 ≠ id } :=
        ⟨fun p hp => h.failed p (List.mem_of_mem_filter hp), h.settled⟩
      have hthrown : Wording transport (.sendError what) :=
        h.failed (id, what) (SortedMap.mem_of_lookup hwhat)
      simp only [hwhat] at hstep
      split at hstep <;> cases hstep
      · exact (hfailed.settle id hthrown).congr rfl rfl
      · exact hfailed
  | test =>
    cases hw : c.worker <;> simp only [Client.step, hw, reduceCtorEq] at hstep
    cases hstep
    exact h.congr rfl rfl
  | receive frame =>
    simp only [Client.step, Client.worker_of_receive hstep] at hstep
    split at hstep
    · split at hstep <;> cases hstep <;> exact h.congr rfl rfl
    · cases hstep
      exact h.congr rfl rfl
  | peerClosed =>
    cases hw : c.worker <;> simp only [Client.step, hw, reduceCtorEq] at hstep
    cases hstep
    exact h.congr rfl rfl
  | deliver =>
    obtain ⟨id, env, hw⟩ := Client.worker_of_deliver hstep
    simp only [Client.step, hw] at hstep
    obtain ⟨outcome, -, rfl⟩ := Option.map_eq_some_iff.1 hstep
    have hresponse : Wording transport (.response env outcome) := trivial
    exact (h.settle id hresponse).congr rfl rfl
  | empty =>
    cases hw : c.worker <;> simp only [Client.step, hw, reduceCtorEq] at hstep
    cases hstep
    exact h.congr rfl rfl
  | fail id =>
    obtain ⟨ids, hw, hid⟩ := Client.worker_of_fail hstep
    simp only [Client.step, hw, if_pos hid] at hstep
    cases hstep
    exact (h.settle id wording_workerExiting).congr rfl rfl
  | exit =>
    cases hw : c.worker <;> simp only [Client.step, hw, reduceCtorEq] at hstep
    split at hstep <;> cases hstep
    exact h.congr rfl rfl
  | disconnect =>
    cases hstep
    exact h.congr rfl rfl
  | disconnectEmpty =>
    cases hw : c.worker <;> simp only [Client.step, hw, reduceCtorEq] at hstep
    cases hstep
    exact h.congr rfl rfl
  | disconnectFail id =>
    simp only [Client.step] at hstep
    split at hstep <;> cases hstep
    exact (h.settle id wording_disconnected).congr rfl rfl

theorem worded_connected : Worded transport {} where
  failed _ hp := absurd hp List.not_mem_nil
  settled _ hp := absurd hp List.not_mem_nil

end Wording

/-- An interleaving of the threads of a client of the C API. -/
structure ClientRun (reg : Registry μ) (transport : ClientTransport) where
  actions : List ClientAction
  client : Client
  run : Machine.run (Client.step reg) {} actions = some client
  sends : Machine.Each (Client.step reg) (fun _ a => transport.Throws a) {} actions

/-- The action is the `send` of this request, which throws. -/
def thrownBy (id : Key) : ClientAction → Option Text
  | .send id' (some what) => if id' = id then some what else none
  | _ => none

/-- What the future of a request gives that was settled in this way. -/
def ending : Settled → Except Raised Fields
  | .response _ (.value payload) => .ok payload
  | .response _ (.exception what) => .error (.runtimeError what)
  | .response _ .broken => .error .futureError
  | .sendError what => .error (.runtimeError what)
  | .transportError what => .error (.runtimeError what)

/-- The code of an error response. -/
def errorCode (env : Envelope) : Option Key :=
  match asKey FIELD_ERROR_CODE env.error with
  | .ok (code, _) => if code ≠ 0 then some code else none
  | .error _ => none

/-- The text of its message, if it can be read as a text. -/
def errorText (reg : Registry μ) (env : Envelope) : Option Text :=
  match asKey FIELD_ERROR_CODE env.error with
  | .ok (_, error) =>
    match errorMessage reg error with
    | .ok (message, _) => some message
    | .error _ => none
  | .error _ => none

namespace ClientRun

variable {reg : Registry μ} {transport : ClientTransport}

/-- What a request's thread has from `send_request`: an exception, or a future that is set after
so many milliseconds, if it is. -/
def request (r : ClientRun reg transport) (id : Key) (after : Nat) :
    Except Raised (Future Fields) :=
  match r.actions.findSome? (thrownBy id) with
  | some what => .error (.runtimeError what)
  | none =>
    match r.client.settled.lookup id with
    | some how => .ok (.set after (ending how))
    | none => .ok .never

/-- The error response that the future of a request was set with. -/
def errorResponse (r : ClientRun reg transport) (id : Key) : Option Envelope :=
  match r.actions.findSome? (thrownBy id) with
  | some _ => none
  | none =>
    match r.client.settled.lookup id with
    | some (.response env _) => if (errorCode env).isSome then some env else none
    | _ => none

theorem worded (r : ClientRun reg transport) : Worded transport r.client :=
  Machine.run_invariant_of_each (fun _ _ _ hworded ha hstep => hworded.step ha hstep)
    worded_connected r.sends r.run

theorem answers (r : ClientRun reg transport) {id : Key} {how : Settled}
    (h : r.client.settled.lookup id = some how) : Client.Answers reg id how :=
  (promises_settled reg r.actions r.run).2.1 (id, how) (SortedMap.mem_of_lookup h)

/-- What `send` threw at a thread is the text of the transport. -/
theorem thrown_text (r : ClientRun reg transport) {id : Key} {what : Text}
    (h : r.actions.findSome? (thrownBy id) = some what) : what = transport.sendError := by
  obtain ⟨a, ha, hwhat⟩ := List.exists_of_findSome?_eq_some h
  have hthrows : transport.Throws a := Machine.Each.mem r.sends r.run ha
  cases a with
  | send id' thrown =>
    cases thrown with
    | none => cases hwhat
    | some what' =>
      simp only [thrownBy] at hwhat
      split at hwhat <;> cases hwhat
      exact hthrows
  | _ => cases hwhat

end ClientRun

/-! ## The codes -/

/-- A client's exceptions are not taken for the server's. -/
theorem not_told_transport {what : Text}
    (h : Settled.transportError what = Client.disconnected ∨
      Settled.transportError what = Client.workerExiting) : ¬ Told (.runtimeError what) := by
  rcases h with heq | heq
  · cases heq
    rw [told_codedMessage_iff]
    decide
  · cases heq
    rw [told_codedMessage_iff]
    decide

/-- What the promise of an error response raises is taken for the server's where its message is
a text that is. -/
theorem told_response_iff {reg : Registry μ} {env : Envelope} {outcome : Outcome}
    (h : responseOutcome reg env = some outcome) :
    (∃ e, ending (.response env outcome) = .error e ∧ Told e) ↔
      (errorCode env).isSome = true ∧
        ∃ message, errorText reg env = some message ∧ SaysServer message := by
  have hfuture : ¬ Told .futureError := by
    rintro ⟨what, heq, -⟩
    cases heq
  unfold responseOutcome at h
  unfold errorCode errorText
  cases hcode : asKey FIELD_ERROR_CODE env.error with
  | error e =>
    rw [hcode] at h
    cases h
    simp [ending, hfuture]
  | ok r =>
    obtain ⟨code, error⟩ := r
    simp only [hcode] at h
    by_cases hzero : code ≠ 0
    · rw [if_pos hzero] at h
      cases hmessage : errorMessage reg error with
      | ok r =>
        obtain ⟨message, rest⟩ := r
        simp only [hmessage] at h
        cases h
        simp [ending, hzero, hmessage, told_codedMessage_iff]
      | error e =>
        simp only [hmessage] at h
        cases e <;> cases h <;> simp [ending, hfuture, hmessage]
    · rw [if_neg hzero] at h
      cases h
      simp [ending, hzero]

/-- The caller waits until the future is set. -/
def InTime (op : RmiOperation) (form : Form) (after : Nat) (timeoutMs : Int64) : Prop :=
  op.mapped form = true → after ≤ waitTime timeoutMs

section Codes

variable {reg : Registry μ} {transport : ClientTransport}

/-- The code says that the server failed exactly where it answered with an error in time. -/
def ToldRemote (r : ClientRun reg transport) (id : Key) (after : Nat) (op : RmiOperation)
    (form : Form) (timeoutMs : Int64) : Prop :=
  op.code form (r.request id after) timeoutMs = some .remoteException ↔
    ∃ env, r.errorResponse id = some env ∧ InTime op form after timeoutMs

/-- An error response that arrives in time meets a function that reads its message, and the
message is a text that names the server. -/
def Recognised (r : ClientRun reg transport) (id : Key) (after : Nat) (op : RmiOperation)
    (form : Form) (timeoutMs : Int64) : Prop :=
  ∀ env, r.errorResponse id = some env → InTime op form after timeoutMs →
    op.mapped form = true ∧ ∃ message, errorText reg env = some message ∧ SaysServer message

variable {r : ClientRun reg transport} {id : Key} {after : Nat} {op : RmiOperation} {form : Form}
  {timeoutMs : Int64}

/-- No error response, and no exception that is taken for one. -/
theorem toldRemote_of_none (hnone : r.errorResponse id = none)
    (hraised : ¬ RaisedTold (r.request id after) timeoutMs) :
    ToldRemote r id after op form timeoutMs ↔ Recognised r id after op form timeoutMs := by
  unfold ToldRemote Recognised
  rw [RmiOperation.code_iff]
  simp [hnone, hraised]

/-- An error response. -/
theorem toldRemote_of_response {env : Envelope} (hresponse : r.errorResponse id = some env)
    (hraised : RaisedTold (r.request id after) timeoutMs ↔ after ≤ waitTime timeoutMs ∧
      ∃ message, errorText reg env = some message ∧ SaysServer message) :
    ToldRemote r id after op form timeoutMs ↔ Recognised r id after op form timeoutMs := by
  unfold ToldRemote Recognised InTime
  rw [RmiOperation.code_iff, hraised, hresponse]
  simp only [Option.some.injEq, exists_eq_left', forall_eq']
  constructor
  · intro h hintime
    obtain ⟨hmapped, -, hmessage⟩ := h.2 hintime
    exact ⟨hmapped, hmessage⟩
  · intro h
    refine ⟨fun hremote _ => hremote.2.1, fun hintime => ?_⟩
    obtain ⟨hmapped, hmessage⟩ := h hintime
    exact ⟨hmapped, hintime hmapped, hmessage⟩

/-- A request that has been settled. -/
theorem toldRemote_of_settled (hthrown : r.actions.findSome? (thrownBy id) = none) {how : Settled}
    (hsettled : r.client.settled.lookup id = some how) :
    ToldRemote r id after op form timeoutMs ↔ Recognised r id after op form timeoutMs := by
  have hworded := r.worded.settled (id, how) (SortedMap.mem_of_lookup hsettled)
  cases how with
  | sendError what =>
    have hwhat : what = transport.sendError := hworded
    refine toldRemote_of_none (by simp [ClientRun.errorResponse, hthrown, hsettled]) ?_
    simp [ClientRun.request, hthrown, hsettled, RaisedTold, ending, hwhat, transport.not_told]
  | transportError what =>
    have hquiet := not_told_transport hworded
    refine toldRemote_of_none (by simp [ClientRun.errorResponse, hthrown, hsettled]) ?_
    simp [ClientRun.request, hthrown, hsettled, RaisedTold, ending, hquiet]
  | response env outcome =>
    have htold := told_response_iff (r.answers hsettled).2
    have hrequest : r.request id after = .ok (.set after (ending (.response env outcome))) := by
      simp [ClientRun.request, hthrown, hsettled]
    have hraised : RaisedTold (r.request id after) timeoutMs ↔
        after ≤ waitTime timeoutMs ∧ (errorCode env).isSome = true ∧
          ∃ message, errorText reg env = some message ∧ SaysServer message := by
      rw [← htold, hrequest]
      exact raisedTold_set
    by_cases herror : (errorCode env).isSome = true
    · rw [and_iff_right herror] at hraised
      exact toldRemote_of_response
        (by simp [ClientRun.errorResponse, hthrown, hsettled, herror]) hraised
    · refine toldRemote_of_none (by simp [ClientRun.errorResponse, hthrown, hsettled, herror]) ?_
      exact fun h => herror (hraised.1 h).2.1

theorem toldRemote_iff (r : ClientRun reg transport) (id : Key) (after : Nat) (op : RmiOperation)
    (form : Form) (timeoutMs : Int64) :
    ToldRemote r id after op form timeoutMs ↔ Recognised r id after op form timeoutMs := by
  cases hthrown : r.actions.findSome? (thrownBy id) with
  | some what =>
    refine toldRemote_of_none (by simp [ClientRun.errorResponse, hthrown]) ?_
    simp [ClientRun.request, hthrown, RaisedTold, r.thrown_text hthrown, transport.not_told]
  | none =>
    cases hsettled : r.client.settled.lookup id with
    | none =>
      refine toldRemote_of_none (by simp [ClientRun.errorResponse, hthrown, hsettled]) ?_
      simp [ClientRun.request, hthrown, hsettled, RaisedTold]
    | some how => exact toldRemote_of_settled hthrown hsettled

end Codes

/-- **Main result.** `bison_call` answers that nothing was found exactly where neither method
is there if and only if what the called method throws, where it throws, does not say so itself.
And of the operations of a client, in both forms and in every interleaving: the code says that the
server failed exactly where it answered with an error in time, if and only if such an answer meets
a function that reads its message, and the message names the server. -/
theorem error_codes_iff {μ : Type} (reg : Registry μ) :
    (∀ {σ : Type} (impl : AppMethod μ σ) (name : Key) (params : Fields) (s : Instance μ × σ),
      ToldUnresolved reg impl name params s ↔ NothingSaid reg impl name params s) ∧
    ∀ {transport : ClientTransport} (r : ClientRun reg transport) (id : Key) (after : Nat)
      (op : RmiOperation) (form : Form) (timeoutMs : Int64),
      ToldRemote r id after op form timeoutMs ↔ Recognised r id after op form timeoutMs :=
  ⟨toldUnresolved_iff reg, toldRemote_iff⟩

/-- A server answers request 1 with an error of this text. -/
def answered (message : Text) : List ClientAction :=
  [.call 1, .register 1, .send 1 none, .test,
    .receive (some {
      kind := KIND_RESPONSE
      requestId := 1
      error := errorPayload ERR_CLASS_NOT_FOUND message }), .deliver]

theorem answered_sends (message : Text) : Machine.Each (Client.step ([] : Registry Unit))
    (fun _ a => ClientTransport.tcp.Throws a) {} (answered message) := by
  refine Machine.each_of_forall fun a ha => ?_
  simp only [answered, List.mem_cons, List.not_mem_nil, or_false] at ha
  rcases ha with rfl | rfl | rfl | rfl | rfl | rfl <;> trivial

def answeredRun (message : Text)
    (h : (Machine.run (Client.step ([] : Registry Unit)) {} (answered message)).isSome = true) :
    ClientRun ([] : Registry Unit) .tcp where
  actions := answered message
  client := (Machine.run (Client.step ([] : Registry Unit)) {} (answered message)).get h
  run := (Option.some_get h).symm
  sends := answered_sends message

def unknownClass : ClientRun ([] : Registry Unit) .tcp :=
  answeredRun (ascii "Class not found") (by decide +kernel)

def serverBusy : ClientRun ([] : Registry Unit) .tcp :=
  answeredRun (ascii "server busy") (by decide +kernel)

/-- The get of an object is told of a busy server. -/
theorem error_codes_busy :
    RmiOperation.get.code .blocking (serverBusy.request 1 3) 100 = some .remoteException := by
  have htext : (serverBusy.errorResponse 1).bind (errorText ([] : Registry Unit)) =
      some (ascii "server busy") := by decide +kernel
  obtain ⟨env, hresponse, hmessage⟩ := Option.bind_eq_some_iff.1 htext
  have htold : ToldRemote serverBusy 1 3 .get .blocking 100 := by
    refine ((error_codes_iff ([] : Registry Unit)).2 serverBusy 1 3 .get .blocking 100).2
      fun env' henv _ => ?_
    rw [hresponse] at henv
    cases henv
    exact ⟨rfl, _, hmessage, by decide⟩
  exact htold.2 ⟨env, hresponse, fun _ => by decide⟩

/-- A method whose file is missing. -/
def loadFails : AppMethod Unit Unit := fun _ _ s =>
  (.error (.runtimeError (ascii "file not found")), s)

/-- It is there, and `bison_call` says that it is not; and a describe of a class that the server
does not know is not told that the server answered. -/
theorem error_codes_misread :
    ¬ ToldUnresolved ([] : Registry Unit) loadFails (key "load") Dynamic.empty
        (⟨Dynamic.empty, [(key "load", ())]⟩, ()) ∧
      ¬ ToldRemote unknownClass 1 3 .describe .blocking 100 := by
  constructor
  · rw [toldUnresolved_iff]
    intro h
    refine h () Dynamic.empty ⟨Dynamic.empty, [(key "load", ())]⟩ ?_ _ rfl (by decide)
    simp [resolveCall, findMethod]
  · rw [toldRemote_iff]
    intro h
    have hresponse : (unknownClass.errorResponse 1).isSome = true := by decide +kernel
    obtain ⟨env, henv⟩ := Option.isSome_iff_exists.1 hresponse
    obtain ⟨hmapped, -⟩ := h env henv (by intro hmapped; cases hmapped)
    cases hmapped

end Bison.CApi
