import Bison.Core.Lookup
import Bison.Transport.TermReader

/-!
# The envelopes of the RMI protocol

The tokens of constants.hpp, the envelope that every frame carries (envelope.hpp), the errors a
server answers with, and how a client reads an answer.
-/

namespace Bison

/-! ## Tokens -/

def KIND_REQUEST : Key := key "request"
def KIND_RESPONSE : Key := key "response"

def OP_CONNECT : Key := key "connect"
def OP_DESCRIBE : Key := key "describe"
def OP_INSTANTIATE : Key := key "instantiate"
def OP_CLEAR : Key := key "clear"
def OP_SET : Key := key "set"
def OP_GET : Key := key "get"
def OP_CALL : Key := key "call"
def OP_DESTROY : Key := key "destroy"
def OP_DESTROY_GROUP : Key := key "destroyGroup"
def OP_DISCONNECT : Key := key "disconnect"
def OP_DICTIONARY : Key := key "dictionary"
def OP_HELP : Key := key "help"

def HOOK_CONSTRUCT : Key := key "__construct"
def HOOK_DESTRUCT : Key := key "__destruct"
def HOOK_CLEAR : Key := key "__clear"
def HOOK_SETTER : Key := key "__setter"
def HOOK_GETTER : Key := key "__getter"

/-- The method that answers calls of unknown methods (bison_object.hpp:883). -/
def CALL_FALLBACK : Key := key "__callFallback"

def ERR_INVALID_REQUEST : Key := key "INVALID_REQUEST"
def ERR_UNSUPPORTED_VERSION : Key := key "UNSUPPORTED_VERSION"
def ERR_UNKNOWN_OPERATION : Key := key "UNKNOWN_OPERATION"
def ERR_CLASS_NOT_FOUND : Key := key "CLASS_NOT_FOUND"
def ERR_OBJECT_NOT_FOUND : Key := key "OBJECT_NOT_FOUND"
def ERR_ACCESS_DENIED : Key := key "ACCESS_DENIED"
def ERR_INTERNAL_ERROR : Key := key "INTERNAL_ERROR"
def ERR_TRANSPORT_ERROR : Key := key "TRANSPORT_ERROR"

def CLASS_ERROR : Key := key "__error"

def FIELD_VERSION : Key := key "__version"
def FIELD_OBJECT_ID : Key := key "__objectId"
def FIELD_ERROR_CODE : Key := key "__code"
def FIELD_ERROR_MESSAGE : Key := key "__message"
def FIELD_KLASS : Key := key "__class"
def FIELD_NAMESPACE : Key := key "__namespace"
def FIELD_PARAMS : Key := key "__params"
def FIELD_NAME : Key := key "__name"

def PROTOCOL_VERSION : Int32 := 2

/-! ## Envelopes -/

/-- A text as the bytes of a `std::string`. -/
abbrev Text := List UInt8

/-- `envelope` (envelope.hpp:19). -/
structure Envelope where
  version : Int32 := PROTOCOL_VERSION
  kind : Key := 0
  op : Key := 0
  requestId : Key := 0
  objectId : Key := 0
  group : Key := 0
  payload : Fields := Dynamic.empty
  error : Fields := Dynamic.empty
  withSchema : Bool := false
  oneway : Bool := false

/-- The error object of a response: an `__error` with its code and message. Writing them
resolves its namespace. -/
def errorPayload (code : Key) (message : Text) : Fields :=
  SortedMap.insert FIELD_ERROR_MESSAGE (.string message)
    (SortedMap.insert FIELD_ERROR_CODE (.key code)
      (SortedMap.insert NAMESPACE (.key 0) [(CLASS, .key CLASS_ERROR)]))

/-! ## Reading an answer -/

/-- What a promise is given in the end. -/
inductive Outcome where
  | value (payload : Fields)
  /-- An exception with this text. -/
  | exception (what : Text)
  /-- The promise was destroyed before it was set: its future throws `broken_promise`. -/
  | broken

/-- The text of a transport error and of an error response, `message (code=N)`
(client.cpp:26, 344). -/
def codedMessage (code : Key) (message : Text) : Text :=
  message ++ ascii " (code=" ++ decimal code.toNat ++ ascii ")"

variable {μ : Type}

/-- `as<std::string>()`: an empty field becomes the empty text. -/
def castText : Value → Except Exn Text
  | .string s => .ok s
  | .monostate => .ok []
  | _ => .error (.runtimeError "Invalid type")

/-- The message of an error object (client.cpp:340). -/
def errorMessage (reg : Registry μ) : DynamicM Text := do
  match ← findField reg FIELD_ERROR_MESSAGE with
  | some msg => Decoder.lift (castText msg)
  | none => return ascii "RMI error"

/-- What `process_frame` does with the promise of a response, where it does anything
(client.cpp:338). -/
def responseOutcome (reg : Registry μ) (env : Envelope) : Option Outcome :=
  match asKey FIELD_ERROR_CODE env.error with
  | .error _ => some .broken
  | .ok (code, error) =>
    if code ≠ 0 then
      match errorMessage reg error with
      | .ok (message, _) => some (.exception (codedMessage code message))
      | .error .diverges => none
      | .error _ => some .broken
    else some (.value env.payload)

end Bison
