import Bison.Rmi.Server

/-!
# One request, one response

What the handlers send. Every exit of every handler either sends one response or throws before
it has sent anything, and then `service_session` sends the error.

- `Silent p`: `p` sends nothing, and a walk around a class chain ends.
- `Responds env p`: `p` sends one response to `env`, or throws and sends nothing.

Only `call` looks at the one-way flag, and only where it gets as far as the method
(`RunsOneway`): `responseDiscipline_iff`.
-/

namespace Bison

open SortedMap

variable {μ σ τ α : Type}

/-! ## Frames -/

/-- The envelope that is sent. -/
def SessionEffect.frame : SessionEffect → Option Envelope
  | .sent env => some env
  | _ => none

/-- The frames that are sent, in order. -/
def frames (trace : List SessionEffect) : List Envelope := trace.filterMap SessionEffect.frame

theorem frames_append (trace trace' : List SessionEffect) :
    frames (trace ++ trace') = frames trace ++ frames trace' := List.filterMap_append ..

theorem frames_sent (response : Envelope) : frames [.sent response] = [response] := rfl

/-- A response to a request. -/
def Envelope.Answers (response env : Envelope) : Prop :=
  response.kind = KIND_RESPONSE ∧ response.requestId = env.requestId

abbrev Silent (p : Program Failure SessionEffect τ α) : Prop :=
  Program.Quiet SessionEffect.frame (· ≠ .hangs) p

/-- It sends nothing and returns. -/
abbrev SilentlyReturns (p : Program Failure SessionEffect τ α) : Prop :=
  Program.Quiet SessionEffect.frame (fun _ => False) p

/-- A response of operation `op` as `send_response` or `send_error` makes it. -/
def Envelope.RespondsTo (response env : Envelope) (op : Key) : Prop :=
  (∃ payload, response = responseEnvelope env op payload) ∨
    ∃ code message, response = errorEnvelope env op code message

theorem Envelope.RespondsTo.answers {response env : Envelope} {op : Key}
    (h : response.RespondsTo env op) : response.Answers env := by
  rcases h with ⟨payload, rfl⟩ | ⟨code, message, rfl⟩ <;> exact ⟨rfl, rfl⟩

abbrev Responds (env : Envelope) (op : Key) (p : Program Failure SessionEffect τ α) : Prop :=
  Program.Emits SessionEffect.frame (· ≠ .hangs) (fun sent => ∃ r, sent = [r] ∧ r.RespondsTo env op)
    p

theorem sendResponse_responds (env : Envelope) (op : Key) (payload : Fields) :
    Responds env op (sendResponse env op payload : ServerM μ σ Unit) :=
  .emit rfl ⟨_, rfl, .inl ⟨payload, rfl⟩⟩

theorem sendError_responds (env : Envelope) (op code : Key) (message : Text) :
    Responds env op (sendError env op code message : ServerM μ σ Unit) :=
  .emit rfl ⟨_, rfl, .inr ⟨code, message, rfl⟩⟩

/-! ## Programs that send nothing -/

theorem Failure.ofExn_ne_hangs {e : Exn} (h : e.Thrown) : Failure.ofExn e ≠ .hangs := by
  cases e with
  | runtimeError what => exact nofun
  | lengthError => exact nofun
  | diverges => exact h.elim
  | outOfFuel => exact h.elim

theorem liftE_silent {m : DynamicM α} (h : Decoder.FailsOnly Exn.Thrown m) (d : Fields) :
    Silent (liftE (m d) : Program Failure SessionEffect τ (α × Fields)) := by
  refine .lift fun e he => ?_
  cases hm : m d with
  | ok r =>
    rw [hm] at he
    cases he
  | error e' =>
    rw [hm] at he
    cases he
    exact Failure.ofExn_ne_hangs (h d e' hm)

/-- What throws but does not hang is caught. -/
theorem tryCatch_silent {p : Program Failure SessionEffect τ α} (h : Silent p) :
    SilentlyReturns (tryCatch p) := by
  refine Program.Emits.attempt h fun e he hcaught => ?_
  cases e with
  | thrown what => cases hcaught
  | hangs => exact he rfl

theorem SilentlyReturns.silent {p : Program Failure SessionEffect τ α} (h : SilentlyReturns p) :
    Silent p :=
  h.mono (fun _ hfalse => hfalse.elim) fun _ hc => hc

theorem SilentlyReturns.run {p : Program Failure SessionEffect τ Unit} (h : SilentlyReturns p)
    (s : τ) : (p s).result = .ok () ∧ frames (p s).trace = [] := by
  have hs := h s
  cases hr : (p s).result with
  | error e =>
    rw [hr] at hs
    exact hs.1.elim
  | ok u =>
    rw [hr] at hs
    exact ⟨rfl, hs⟩

/-- A function that returns or throws a text does not hang. -/
theorem external_silent (f : τ → Except Text α × τ) : Silent (external f) := by
  refine .ofState fun s e he => ?_
  cases hr : (f s).1 with
  | ok a =>
    simp only [hr, Except.mapError] at he
    cases he
  | error what =>
    simp only [hr, Except.mapError] at he
    cases he
    exact nofun

theorem onFields_silent {lookup : DynamicM α} (h : Decoder.FailsOnly Exn.Thrown lookup) :
    Silent (onFields lookup : ObjectM μ σ α) := by
  refine .ofState fun s e he => ?_
  cases hm : lookup s.1.fields with
  | ok r =>
    simp only [hm] at he
    cases he
  | error e' =>
    simp only [hm] at he
    cases he
    exact Failure.ofExn_ne_hangs (h _ e' hm)

theorem invoke_silent (impl : MethodImpl μ σ) (self : Option Key) (name : Key) (m : μ)
    (params : Fields) : Silent (invoke impl self name m params) :=
  .bind (.emit_unseen rfl) fun _ => external_silent _

theorem onObject_silent {p : ObjectM μ σ α} (h : Silent p) (id : Key) (obj : Instance μ) :
    Silent (onObject id obj p) := fun w => h (obj, w)

theorem withNewObject_silent {p : ObjectM μ σ α} (h : Silent p) (obj : Instance μ) :
    Silent (withNewObject obj p) := by
  intro w
  have hs := h (obj, w)
  unfold withNewObject
  rcases hrun : p (obj, w) with ⟨_ | a, trace, obj', w'⟩ <;> rw [hrun] at hs <;> exact hs

section Lookups

variable {reg : Registry μ} (hreg : reg.Acyclic)

include hreg

theorem findMethodM_silent (name : Key) : Silent (findMethodM reg name : ObjectM μ σ _) := by
  refine .ofState fun s e he => ?_
  cases hm : findMethod reg name s.1.methods s.1.fields with
  | ok r =>
    simp only [hm] at he
    cases he
  | error e' =>
    simp only [hm] at he
    cases he
    exact Failure.ofExn_ne_hangs (hreg.findMethod_failsOnly name _ _ e' hm)

theorem call_silent (impl : MethodImpl μ σ) (self : Option Key) (name : Key) (params : Fields) :
    Silent (call reg impl self name params) := by
  refine .bind (findMethodM_silent hreg name) fun found => ?_
  cases found with
  | some m => exact invoke_silent impl self name m params
  | none =>
    refine .bind (findMethodM_silent hreg CALL_FALLBACK) fun fallback => ?_
    cases fallback with
    | some m => exact invoke_silent impl self CALL_FALLBACK m _
    | none => exact .throw nofun

theorem runHook_silent (impl : MethodImpl μ σ) (self : Option Key) (hook : Key)
    (params : Fields) : Silent (runHook reg impl self hook params) := by
  refine .bind (findMethodM_silent hreg hook) fun found => ?_
  cases found with
  | some m =>
    exact .bind (tryCatch_silent (call_silent hreg impl self hook params)).silent
      fun _ => Program.Emits.pure _
  | none => exact Program.Emits.pure none

theorem readKeyToken_failsOnly (name : Key) :
    Decoder.FailsOnly Exn.Thrown (readKeyToken reg name) := by
  refine .bind (hreg.findField_failsOnly name) fun found => ?_
  rcases found with _ | v
  · exact .throw trivial
  · cases v <;> first | exact .pure _ | exact .throw trivial

theorem namedNamespace_failsOnly : Decoder.FailsOnly Exn.Thrown (namedNamespace reg) := by
  refine .bind (hreg.findField_failsOnly _) fun found => ?_
  cases found with
  | none => exact .pure _
  | some v =>
    intro p e h
    simp only at h
    split at h
    · cases h
    · next e' he =>
      split at h
      · cases h
      · cases h
        exact readKeyToken_failsOnly hreg _ p _ he

theorem callParams_failsOnly : Decoder.FailsOnly Exn.Thrown (callParams reg) :=
  .bind (readKeyToken_failsOnly hreg FIELD_NAME) fun _ =>
    .bind (hreg.subscript_failsOnly FIELD_PARAMS) fun _ => .pure _

theorem writeField_failsOnly (name : Key) (v : Value) :
    Decoder.FailsOnly Exn.Thrown (writeField reg name v) :=
  .bind (hreg.subscript_failsOnly name) fun _ => nofun

end Lookups

/-! ## Handlers -/

namespace Server

variable (srv : Server μ σ)

theorem handleConnect_responds (env : Envelope) :
    Responds env OP_CONNECT (srv.handleConnect env) := by
  unfold handleConnect
  cases srv.authModule with
  | none => exact sendResponse_responds env _ _
  | some authenticate =>
    refine .bind (external_silent _) fun (accepted, identity) => ?_
    cases accepted with
    | true =>
      exact .bind (.emit_unseen rfl) fun _ => .bind (external_silent _) fun _ =>
        sendResponse_responds env _ _
    | false => exact sendError_responds env _ _ _

theorem handleDescribe_responds (env : Envelope) :
    Responds env OP_DESCRIBE (srv.handleDescribe env) := by
  refine .bind (liftE_silent (asKey_failsOnly _) _) fun (requested, _) => ?_
  simp only
  split
  · exact sendResponse_responds env _ _
  · split
    · exact sendResponse_responds env _ _
    · exact sendError_responds env _ _ _

theorem findObject_silent (id : Key) : Silent (findObject id : ServerM μ σ _) :=
  .bind .get fun _ => .pure _

theorem withObject_responds {env : Envelope} {op : Key} {p : Instance μ → ServerM μ σ Unit}
    (h : ∀ obj, Responds env op (p obj)) : Responds env op (withObject env op p) := by
  refine .bind (findObject_silent _) fun found => ?_
  cases found with
  | none => exact sendError_responds env op _ _
  | some obj => exact h obj

/-- A one-way call that is not refused before its object is looked up, and whose parameters can
be read. -/
structure OnewayCall (env : Envelope) : Prop where
  oneway : env.oneway = true
  kind : env.kind = KIND_REQUEST
  version : env.version = PROTOCOL_VERSION
  op : env.op = OP_CALL
  notRelayed : srv.upstream = none
  params : ∃ r, callParams srv.registry env.payload = .ok r

theorem relay_responds (upstream : Envelope → σ → Except Text Fields × σ) (env : Envelope) :
    Responds env env.op (relay upstream env : ServerM μ σ Unit) := by
  refine .bind (.ofState nofun) fun _ => .bind (.ofState nofun) fun _ => ?_
  refine .bind (tryCatch_silent (external_silent _)).silent fun answered => ?_
  cases answered with
  | error what => exact sendError_responds env _ _ _
  | ok result => exact sendResponse_responds env _ _

section Acyclic

variable {srv} (hreg : srv.registry.Acyclic)

include hreg

theorem constructHook_silent (p : Fields) : Silent (srv.constructHook p) := by
  refine .bind (findMethodM_silent hreg _) fun found => ?_
  cases found with
  | none => exact .pure _
  | some m =>
    refine (tryCatch_silent ?_).silent
    refine .bind (liftE_silent (hreg.subscript_failsOnly _) _) fun _ => ?_
    exact .bind (call_silent hreg _ _ _ _) fun _ => .pure _

theorem handleInstantiate_responds (env : Envelope) :
    Responds env OP_INSTANTIATE (srv.handleInstantiate env) := by
  refine .bind (liftE_silent (asKey_failsOnly _) _) fun (klass, p) => ?_
  refine .bind (liftE_silent (namedNamespace_failsOnly hreg) p) fun (named, p) => ?_
  rcases named with what | ns
  · exact sendError_responds env _ _ _
  simp only
  split
  · refine .bind (tryCatch_silent (external_silent _)).silent fun made => ?_
    rcases made with what | _ | obj
    · exact sendError_responds env _ _ _
    · exact sendError_responds env _ _ _
    · refine .bind (withNewObject_silent (constructHook_silent hreg p) obj) fun (built, obj) => ?_
      cases built with
      | error what => exact sendError_responds env _ _ _
      | ok u =>
        exact .bind (.bind (.ofState nofun) fun _ => .bind (.modify _) fun _ => .pure _) fun _ =>
          sendResponse_responds env _ _
  · exact sendError_responds env _ _ _

theorem handleClear_responds (env : Envelope) : Responds env OP_CLEAR (srv.handleClear env) := by
  refine withObject_responds fun obj => .bind (onObject_silent ?_ _ obj) fun _ =>
    sendResponse_responds env _ _
  have hreset : Silent (srv.resetObject) :=
    .bind (onFields_silent (asKey_failsOnly _)) fun _ =>
      .bind (onFields_silent (hreg.findField_failsOnly _)) fun _ => .modify _
  exact .bind hreset fun _ => .bind (runHook_silent hreg _ _ _ _) fun _ => .pure _

theorem applyPatch_silent (patch : Fields) : Silent (srv.applyPatch patch) :=
  .forEach fun _ _ => onFields_silent (writeField_failsOnly hreg _ _)

theorem setFields_silent (payload : Fields) (id : Key) : Silent (srv.setFields payload id) := by
  refine .bind (runHook_silent hreg _ _ _ _) fun ran => ?_
  rcases ran with _ | what | patched
  · exact .bind (applyPatch_silent hreg _) fun _ => .pure _
  · exact .pure _
  · exact .bind (applyPatch_silent hreg _) fun _ => .pure _

theorem handleSet_responds (env : Envelope) : Responds env OP_SET (srv.handleSet env) := by
  refine withObject_responds fun obj =>
    .bind (onObject_silent (setFields_silent hreg _ _) _ obj) fun patched => ?_
  cases patched with
  | error what => exact sendError_responds env _ _ _
  | ok u => exact sendResponse_responds env _ _

theorem project_silent (keys : List Key) (result : Fields) :
    Silent (srv.project keys result) := by
  induction keys generalizing result with
  | nil => exact .pure _
  | cons k keys ih =>
    refine .bind (onFields_silent (hreg.findField_failsOnly _)) fun found => ?_
    cases found with
    | none => exact ih result
    | some v =>
      exact .bind (liftE_silent (writeField_failsOnly hreg _ _) _) fun (_, result) => ih result

theorem getFields_silent (projection : Fields) (id : Key) :
    Silent (srv.getFields projection id) := by
  refine .bind ?_ fun result => .bind (runHook_silent hreg _ _ _ _) fun ran => ?_
  · cases (projection.map Prod.fst).filter isProjectionKey with
    | nil => exact .bind .get fun _ => .pure _
    | cons k keys => exact project_silent hreg _ _
  · rcases ran with _ | what | result <;> exact .pure _

theorem handleGet_responds (env : Envelope) : Responds env OP_GET (srv.handleGet env) :=
  withObject_responds fun obj =>
    .bind (onObject_silent (getFields_silent hreg _ _) _ obj) fun _ => sendResponse_responds env _ _

theorem destruct_silent (id : Key) (obj : Instance μ) : Silent (srv.destruct id obj) :=
  onObject_silent (.bind (runHook_silent hreg _ _ _ _) fun _ => .pure _) id obj

theorem handleDestroy_responds (env : Envelope) : Responds env OP_DESTROY (srv.handleDestroy env) :=
  withObject_responds fun obj =>
    .bind (destruct_silent hreg _ obj) fun _ =>
      .bind (.modify _) fun _ => sendResponse_responds env _ _

theorem handleDestroyGroup_responds (env : Envelope) :
    Responds env OP_DESTROY_GROUP (srv.handleDestroyGroup env) := by
  refine .bind .get fun w => ?_
  split
  · exact sendResponse_responds env _ _
  split
  · exact sendResponse_responds env _ _
  refine .bind (.modify _) fun _ => .bind (.forEach fun id _ => ?_) fun _ =>
    sendResponse_responds env _ _
  refine .bind (findObject_silent id) fun found => ?_
  cases found with
  | none => exact .pure _
  | some obj => exact .bind (destruct_silent hreg id obj) fun _ => .modify _

theorem cleanupContext_silent : Silent srv.cleanupContext := by
  refine .bind .get fun w => .bind (.forEach fun id _ => ?_) fun _ => .modify _
  refine .bind (findObject_silent id) fun found => ?_
  cases found with
  | none => exact .pure _
  | some obj => exact destruct_silent hreg id obj

theorem handleDisconnect_responds (env : Envelope) :
    Responds env OP_DISCONNECT (srv.handleDisconnect env) :=
  .bind (cleanupContext_silent hreg) fun _ =>
    .followed (sendResponse_responds env _ _) fun _ => .emit_unseen rfl

/-- A two-way call, or one whose parameters cannot be read. -/
theorem handleCall_responds {env : Envelope}
    (h : env.oneway = true → ∀ r, callParams srv.registry env.payload ≠ .ok r) :
    Responds env OP_CALL (srv.handleCall env) := by
  refine withObject_responds fun obj => ?_
  cases hread : callParams srv.registry env.payload with
  | error e =>
    exact fun _ => ⟨Failure.ofExn_ne_hangs (callParams_failsOnly hreg _ e hread), rfl⟩
  | ok r =>
    have htwoway : env.oneway = false := by
      cases honeway : env.oneway with
      | false => rfl
      | true => exact (h honeway r hread).elim
    refine .bind (.lift nofun) fun ((name, args), _) => ?_
    refine .bind (tryCatch_silent (onObject_silent (call_silent hreg _ _ _ _) _ obj)).silent
      fun called => ?_
    cases called with
    | error what =>
      rw [htwoway]
      exact sendError_responds env _ _ _
    | ok result =>
      rw [htwoway]
      exact sendResponse_responds env _ _

/-- A one-way call of an object that is there, with parameters that can be read. -/
theorem handleCall_silent {env : Envelope} (honeway : env.oneway = true)
    (hread : ∃ r, callParams srv.registry env.payload = .ok r) {w : World μ σ}
    (hobj : (w.ctx.objects.lookup env.objectId).isSome) :
    (srv.handleCall env w).result = .ok () ∧ frames (srv.handleCall env w).trace = [] := by
  obtain ⟨r, hread⟩ := hread
  obtain ⟨obj, hobj⟩ := Option.isSome_iff_exists.mp hobj
  unfold handleCall
  rw [withObject_found hobj, hread]
  refine SilentlyReturns.run (.bind (.lift fun _ he => by cases he) fun ((name, args), _) => ?_) w
  refine .bind (tryCatch_silent (onObject_silent (call_silent hreg _ _ _ _) _ obj)) fun called => ?_
  cases called <;>
  · rw [honeway]
    exact .pure _

/-- Every operation answers, a one-way call if its parameters cannot be read. -/
theorem handle_responds {env : Envelope} {o : Op}
    (h : env.oneway = true → o = .call → ∀ r, callParams srv.registry env.payload ≠ .ok r) :
    Responds env o.token (srv.handle env o) := by
  cases o with
  | connect => exact handleConnect_responds srv env
  | describe => exact handleDescribe_responds srv env
  | instantiate => exact handleInstantiate_responds hreg env
  | clear => exact handleClear_responds hreg env
  | set => exact handleSet_responds hreg env
  | get => exact handleGet_responds hreg env
  | call => exact handleCall_responds hreg fun honeway => h honeway rfl
  | destroy => exact handleDestroy_responds hreg env
  | destroyGroup => exact handleDestroyGroup_responds hreg env
  | disconnect => exact handleDisconnect_responds hreg env
  | dictionary => exact sendResponse_responds env _ _
  | help => exact sendResponse_responds env _ _

/-- A request that is refused is a `connect` to the client. -/
theorem handleRequest_responds {env : Envelope} (h : ¬ srv.OnewayCall env) :
    Responds env
      (if env.op ≠ 0 ∧ env.kind = KIND_REQUEST ∧ env.version = PROTOCOL_VERSION then env.op
      else OP_CONNECT) (srv.handleRequest env) := by
  unfold handleRequest
  by_cases hop : env.op = 0
  · rw [if_pos hop, if_neg fun hvalid => hvalid.1 hop]
    exact sendError_responds env _ _ _
  by_cases hkind : env.kind = KIND_REQUEST
  swap
  · rw [if_neg hop, if_pos hkind, if_neg fun hvalid => hkind hvalid.2.1]
    exact sendError_responds env _ _ _
  by_cases hversion : env.version = PROTOCOL_VERSION
  swap
  · rw [if_neg hop, if_neg (not_not.2 hkind), if_pos hversion,
      if_neg fun hvalid => hversion hvalid.2.2]
    exact sendError_responds env _ _ _
  rw [if_neg hop, if_neg (not_not.2 hkind), if_neg (not_not.2 hversion),
    if_pos ⟨hop, hkind, hversion⟩]
  have hdispatch (hbase : Op.find env.op = some .call → srv.upstream = none) :
      Responds env env.op (srv.dispatch env) := by
    refine .bind (.modify _) fun _ => ?_
    cases ho : Op.find env.op with
    | none => exact sendError_responds env _ _ _
    | some o =>
      have htoken := Op.token_of_find ho
      rw [← htoken]
      refine handle_responds hreg fun honeway hcall r hr => h ?_
      subst hcall
      exact ⟨honeway, hkind, hversion, htoken.symm, hbase ho, r, hr⟩
  split
  · next upstream o hup ho =>
    split
    · exact relay_responds upstream env
    · next hrelayed =>
      refine hdispatch fun hcall => ?_
      rw [ho] at hcall
      cases hcall
      exact (hrelayed rfl).elim
  · next hnone =>
    refine hdispatch fun hcall => ?_
    cases hup : srv.upstream with
    | none => rfl
    | some upstream => exact (hnone upstream .call hup hcall).elim

end Acyclic

/-! ## What is sent for a request -/

theorem serviceSession_responds {env : Envelope} {op : Key}
    (h : Responds env op (srv.handleRequest env)) :
    Program.Emits SessionEffect.frame (fun _ => False)
      (fun sent => ∃ r, sent = [r] ∧ (r.RespondsTo env op ∨ r.RespondsTo env env.op))
      (srv.serviceSession (.ok env)) := by
  refine .handled (h.mono (fun _ he => he) ?_) (fun e he hcaught => ?_) (fun _ => .pure _)
    fun _ => ?_
  · rintro _ ⟨r, rfl, hr⟩
    exact ⟨r, rfl, .inl hr⟩
  · cases e with
    | thrown what => cases hcaught
    | hangs => exact he rfl
  · exact .emit rfl ⟨_, rfl, .inr (.inr ⟨_, _, rfl⟩)⟩

theorem OnewayCall.handleRequest {env : Envelope} (h : srv.OnewayCall env) (w : World μ σ) :
    srv.handleRequest env w = srv.handleCall env (w.inGroup env.group) := by
  have hfind : Op.find env.op = some .call := by
    rw [h.op]
    rfl
  exact srv.handleRequest_local h.kind h.version hfind (fun _ => h.notRelayed) w

/-- A one-way call that reaches its method is not answered. -/
theorem OnewayCall.silent {env : Envelope} (hreg : srv.registry.Acyclic) (h : srv.OnewayCall env)
    {w : World μ σ} (hobj : (w.ctx.objects.lookup env.objectId).isSome) :
    (srv.serviceSession (.ok env) w).result = .ok () ∧
      frames (srv.serviceSession (.ok env) w).trace = [] := by
  obtain ⟨hresult, hsent⟩ := handleCall_silent hreg h.oneway h.params
    (w := w.inGroup env.group) hobj
  rw [← h.handleRequest] at hresult hsent
  rcases hrun : srv.handleRequest env w with ⟨result, trace, w'⟩
  rw [hrun] at hresult hsent
  subst hresult
  rw [serviceSession_ok srv hrun]
  exact ⟨rfl, hsent⟩

/-- A call of an object that is not there is answered, one-way or not. -/
theorem OnewayCall.answered {env : Envelope} (h : srv.OnewayCall env) {w : World μ σ}
    (hobj : w.ctx.objects.lookup env.objectId = none) :
    (srv.serviceSession (.ok env) w).result = .ok () ∧
      ∃ r, frames (srv.serviceSession (.ok env) w).trace = [r] ∧ r.RespondsTo env env.op := by
  have hrun := h.handleRequest srv w
  rw [handleCall, withObject_missing (w := w.inGroup env.group) hobj, ← h.op] at hrun
  rw [serviceSession_ok srv hrun]
  exact ⟨rfl, _, rfl, .inr ⟨_, _, rfl⟩⟩

/-- Every other request is answered once, a refused one as a `connect` or as what it was. -/
theorem serviceSession_sends (hreg : srv.registry.Acyclic) {env : Envelope} {w : World μ σ}
    (h : ¬ (srv.OnewayCall env ∧ (w.ctx.objects.lookup env.objectId).isSome)) :
    (srv.serviceSession (.ok env) w).result = .ok () ∧
      ∃ r, frames (srv.serviceSession (.ok env) w).trace = [r] ∧
        (r.RespondsTo env
          (if env.op ≠ 0 ∧ env.kind = KIND_REQUEST ∧ env.version = PROTOCOL_VERSION then env.op
          else OP_CONNECT) ∨ r.RespondsTo env env.op) := by
  by_cases hcall : srv.OnewayCall env
  · obtain ⟨hresult, r, hsent, hto⟩ :=
      hcall.answered srv (Option.not_isSome_iff_eq_none.1 fun hobj => h ⟨hcall, hobj⟩)
    exact ⟨hresult, r, hsent, .inr hto⟩
  · have hs := serviceSession_responds srv (handleRequest_responds hreg hcall) w
    cases hr : (srv.serviceSession (.ok env) w).result with
    | error e =>
      rw [hr] at hs
      exact hs.1.elim
    | ok u =>
      rw [hr] at hs
      exact ⟨rfl, hs⟩

/-- The response to a well-formed request says the operation of the request. -/
theorem serviceSession_respondsTo (hreg : srv.registry.Acyclic) {env : Envelope} {w : World μ σ}
    (hop : env.op ≠ 0) (hkind : env.kind = KIND_REQUEST) (hversion : env.version = PROTOCOL_VERSION)
    (h : ¬ (srv.OnewayCall env ∧ (w.ctx.objects.lookup env.objectId).isSome)) :
    ∃ r, frames (srv.serviceSession (.ok env) w).trace = [r] ∧ r.RespondsTo env env.op := by
  obtain ⟨-, r, hsent, hto⟩ := serviceSession_sends srv hreg h
  rw [if_pos ⟨hop, hkind, hversion⟩] at hto
  exact ⟨r, hsent, hto.elim id id⟩

theorem serviceSession_answers (hreg : srv.registry.Acyclic) {env : Envelope} {w : World μ σ}
    (h : ¬ (srv.OnewayCall env ∧ (w.ctx.objects.lookup env.objectId).isSome)) :
    (srv.serviceSession (.ok env) w).result = .ok () ∧
      ∃ r, frames (srv.serviceSession (.ok env) w).trace = [r] ∧ r.Answers env := by
  obtain ⟨hresult, r, hsent, hto⟩ := serviceSession_sends srv hreg h
  exact ⟨hresult, r, hsent, hto.elim (·.answers) (·.answers)⟩

/-- A worker is never stuck with a frame. -/
theorem serviceSession_returns (hreg : srv.registry.Acyclic) (arrival : Arrival) (w : World μ σ) :
    (srv.serviceSession arrival w).result = .ok () := by
  cases arrival with
  | error what => rfl
  | ok env =>
    by_cases h : srv.OnewayCall env ∧ (w.ctx.objects.lookup env.objectId).isSome
    · exact (h.1.silent srv hreg h.2).1
    · exact (srv.serviceSession_answers hreg h).1

/-- What a server owes a request: one response, unless it is one-way. -/
def Disciplined (env : Envelope) (r : Program.Outcome Failure SessionEffect (World μ σ) Unit) :
    Prop :=
  r.result = .ok () ∧
    if env.oneway then frames r.trace = [] else ∃ a, frames r.trace = [a] ∧ a.Answers env

/-- **Main result**: a request is answered once, one-way or not, unless it is a one-way call that
reaches its method. -/
theorem responseDiscipline_iff (hreg : srv.registry.Acyclic) (env : Envelope) (w : World μ σ) :
    Disciplined env (srv.serviceSession (.ok env) w) ↔
      env.oneway = false ∨
        srv.OnewayCall env ∧ (w.ctx.objects.lookup env.objectId).isSome := by
  unfold Disciplined
  cases honeway : env.oneway with
  | false =>
    have hnot : ¬ (srv.OnewayCall env ∧ (w.ctx.objects.lookup env.objectId).isSome) := by
      rintro ⟨hcall, -⟩
      rw [hcall.oneway] at honeway
      cases honeway
    simpa using srv.serviceSession_answers hreg hnot
  | true =>
    constructor
    · rintro ⟨-, hsent⟩
      by_contra h
      obtain ⟨-, r, hr, -⟩ := srv.serviceSession_answers hreg fun hcall => h (.inr hcall)
      rw [if_pos rfl, hr] at hsent
      cases hsent
    · rintro (h | ⟨hcall, hobj⟩)
      · cases h
      · exact hcall.silent srv hreg hobj

/-! ## A one-way set -/

/-- A server without classes. -/
def bare : Server Unit Unit where
  registry := []
  impl := fun _ _ s => (.ok [], s)

/-- A session with one object, of class 5. -/
def oneObject : World Unit Unit where
  ctx := { objects := .insert 1 ⟨[(CLASS, .key 5)], []⟩ ∅ }
  app := ()
  ids := fun n => UInt32.ofNat n

def onewaySet : Envelope :=
  { kind := KIND_REQUEST, op := OP_SET, requestId := 7, objectId := 1, oneway := true }

/-- The one-way `set` is answered. -/
theorem onewaySet_answered :
    frames (bare.serviceSession (.ok onewaySet) oneObject).trace =
        [responseEnvelope onewaySet OP_SET Dynamic.empty] ∧
      ¬ Disciplined onewaySet (bare.serviceSession (.ok onewaySet) oneObject) := by
  have hsent : frames (bare.serviceSession (.ok onewaySet) oneObject).trace =
      [responseEnvelope onewaySet OP_SET Dynamic.empty] := rfl
  refine ⟨hsent, fun ⟨_, h⟩ => ?_⟩
  rw [if_pos (show onewaySet.oneway = true from rfl), hsent] at h
  cases h

theorem bare_acyclic : bare.registry.Acyclic := nofun

/-- A one-way call of the object is not answered. -/
theorem onewayCall_disciplined :
    Disciplined { onewaySet with op := OP_CALL, payload := [(FIELD_NAME, .key 3)] }
      (bare.serviceSession
        (.ok { onewaySet with op := OP_CALL, payload := [(FIELD_NAME, .key 3)] }) oneObject) :=
  (responseDiscipline_iff bare bare_acyclic _ _).2
    (.inr ⟨⟨rfl, rfl, rfl, rfl, rfl, _, rfl⟩, rfl⟩)

end Server

end Bison
