import Bison.Rmi.RemoteCalls
import Bison.Transport.Carriers

/-!
# Remote calls over the transports

A remote session whose requests and responses go as bytes through one of the transports: a thread
encodes an envelope and sends the frame, the threads and loops of the transport carry it, and the
thread that receives it at the other end decodes it.

- `HostedSession.step`: one step of the client, the transport, the server or the application.
- `HostedSession.simulates`: a hosted session simulates a remote session (`RemoteSession`).
- `hosted_calls_linear`: **main result**, over each of the transports requests take effect one after
  the other, their promises get what the server computed for them, and no request gets lost.
-/

namespace Bison

/-- The transports: memory_transport.hpp, uv_stream_state.hpp, tls_stream_state.hpp and
term_transport.hpp. -/
inductive TransportKind where
  | memory
  | uv
  | tls
  | term

def TransportKind.carrier (grow : Nat → Nat → Nat) : TransportKind → Carrier (List UInt8)
  | memory => memoryCarrier
  | uv => uvCarrier grow
  | tls => tlsCarrier grow
  | term => termCarrier

variable {μ σ ν : Type}

/-- What a frame is for the thread that receives it. -/
def arrival (lim : Limits) (reg : Registry ν) (frame : List UInt8) : Arrival :=
  match Envelope.decode lim reg frame with
  | .error e => .error ((Failure.ofExn e).what.getD [])
  | .ok env => .ok env

/-- The frames of these envelopes. -/
def encodeAll (reg : Registry ν) : List Envelope → Option (List (List UInt8))
  | [] => some []
  | env :: envs =>
    match env.encode reg with
    | .error _ => none
    | .ok frame => (encodeAll reg envs).map (frame :: ·)

/-- A client, a transport, and the client's session at the server behind it. -/
structure HostedSession (C : Carrier (List UInt8)) (μ σ : Type) where
  client : Client := {}
  transport : C.State := C.initial
  world : World μ σ
  /-- The ids of the one-way requests. -/
  oneway : List Key := []
  /-- The requests that were sent, in order. -/
  requests : List Envelope := []

/-- `as` are the steps of the transport that the calls of the action are, or the last of them, when
`transport` takes the others. -/
inductive HostedAction (C : Carrier (List UInt8)) (μ σ : Type) where
  /-- A step of a thread of the client, other than those below. -/
  | client (a : ClientAction)
  /-- Steps of the transport that send and receive nothing. -/
  | transport (as : List C.Action)
  /-- The thread of a registered request sends its frame. -/
  | send (env : Envelope) (as : List C.Action)
  /-- A thread sends a one-way request. -/
  | sendOneway (env : Envelope) (as : List C.Action)
  /-- The dispatch worker receives the next frame and serves it. -/
  | serve (as : List C.Action)
  /-- Another session or the application changes the state between two requests. -/
  | outside (change : World μ σ → World μ σ)
  /-- The application sends an event. -/
  | emit (env : Envelope) (as : List C.Action)
  /-- The client's worker receives the next frame. -/
  | receive (as : List C.Action)

namespace HostedSession

variable {C : Carrier (List UInt8)}

/-- A request id that was given out already. -/
def Used (s : HostedSession C μ σ) (id : Key) : Prop :=
  id ∈ s.client.encoded ∨ id ∈ s.client.registered ∨ id ∈ s.oneway

instance (s : HostedSession C μ σ) (id : Key) : Decidable (s.Used id) := by
  unfold Used
  infer_instance

/-- The frames of these envelopes are sent, when `what` was done before. -/
def transmit (reg : Registry ν) (s : HostedSession C μ σ) (as : List C.Action)
    (what : List (Duplex.Action (List UInt8)))
    (side : Lane.Action (List UInt8) → Duplex.Action (List UInt8)) (envs : List Envelope) :
    Option C.State :=
  (encodeAll reg envs).bind fun frames =>
    C.perform s.transport as (what ++ frames.map fun frame => side (.put frame))

/-- One step. `reg` is the registry that both ends code the frames with. -/
def step (lim : Limits) (reg : Registry ν) (srv : Server μ σ) (s : HostedSession C μ σ) :
    HostedAction C μ σ → Option (HostedSession C μ σ)
  | .client a =>
    if a.Local s.oneway then (Client.step reg s.client a).map fun client => { s with client }
    else none
  | .transport as => (C.perform s.transport as []).map fun transport => { s with transport }
  | .send env as =>
    if env.kind = KIND_REQUEST ∧ env.oneway = false then
      (Client.step reg s.client (.send env.requestId none)).bind fun client =>
        (s.transmit reg as [] .c2s [env]).map fun transport =>
          { s with client, transport, requests := s.requests ++ [env] }
    else none
  | .sendOneway env as =>
    if env.kind = KIND_REQUEST ∧ env.oneway = true ∧ ¬ s.Used env.requestId then
      (s.transmit reg as [] .c2s [env]).map fun transport =>
        { s with
          transport
          oneway := env.requestId :: s.oneway
          requests := s.requests ++ [env] }
    else none
  | .serve as =>
    match (C.link s.transport).c2s.queue with
    | [] => none
    | frame :: _ =>
      match srv.serviceSession (arrival lim reg frame) s.world with
      | ⟨.ok (), trace, world⟩ =>
        (s.transmit reg as [.c2s .take] .s2c (frames trace)).map fun transport =>
          { s with transport, world }
      | ⟨.error _, _, _⟩ => none
  | .outside change => some { s with world := change s.world }
  | .emit env as =>
    if env.kind = KIND_RESPONSE then none
    else (s.transmit reg as [] .s2c [env]).map fun transport => { s with transport }
  | .receive as =>
    match (C.link s.transport).s2c.queue with
    | [] => none
    | frame :: _ =>
      (Client.step reg s.client (.receive (arrival lim reg frame).toOption)).bind fun client =>
        (C.perform s.transport as [.s2c .take]).map fun transport => { s with client, transport }

/-- The envelopes that an action sends. -/
def sentBy (lim : Limits) (reg : Registry ν) (srv : Server μ σ) (s : HostedSession C μ σ) :
    HostedAction C μ σ → List Envelope
  | .send env _ | .sendOneway env _ | .emit env _ => [env]
  | .serve _ =>
    match (C.link s.transport).c2s.queue with
    | [] => []
    | frame :: _ => frames (srv.serviceSession (arrival lim reg frame) s.world).trace
  | .client _ | .transport _ | .outside _ | .receive _ => []

end HostedSession

namespace HostedAction

variable {C : Carrier (List UInt8)}

/-- The steps of the transport that an action takes. -/
def steps : HostedAction C μ σ → List C.Action
  | client _ | outside _ => []
  | transport as | send _ as | sendOneway _ as | serve as | emit _ as | receive as => as

/-- What an action is for the remote session. -/
def image : HostedAction C μ σ → List (RemoteAction μ σ)
  | client a => [.client a]
  | transport _ => []
  | send env _ => [.send env]
  | sendOneway env _ => [.sendOneway env]
  | serve _ => [.serve]
  | outside change => [.outside change]
  | emit env _ => [.emit env]
  | receive _ => [.receive]

end HostedAction

namespace HostedSession

open RemoteSession (Survives FrameSurvives)

variable {C : Carrier (List UInt8)} {P : Envelope → Prop} {lim : Limits} {reg : Registry ν}
  {srv : Server μ σ}

/-- The transport may take the steps, and `P` holds of every envelope that is sent. -/
def Careful (P : Envelope → Prop) (lim : Limits) (reg : Registry ν) (srv : Server μ σ)
    (s : HostedSession C μ σ) (a : HostedAction C μ σ) : Prop :=
  Machine.Each C.step C.Allowed s.transport a.steps ∧ ∀ env ∈ s.sentBy lim reg srv a, P env

instance [DecidablePred P] (s : HostedSession C μ σ) (a : HostedAction C μ σ) :
    Decidable (s.Careful P lim reg srv a) := by
  unfold Careful
  infer_instance

/-! ## The simulation -/

/-- A frame stands for the envelope it was written from, of which `P` holds. -/
def Stands (P : Envelope → Prop) (reg : Registry ν) (env : Envelope) (frame : List UInt8) : Prop :=
  env.encode reg = .ok frame ∧ P env

theorem Stands.arrival {env : Envelope} {frame : List UInt8} (h : Stands P reg env frame) :
    arrival lim reg frame = RemoteSession.wire lim reg env := by
  rw [RemoteSession.wire, h.1]
  rfl

/-- The frames on the link of the transport stand for the envelopes on the link of the session. -/
structure Refines (P : Envelope → Prop) (reg : Registry ν) (s : HostedSession C μ σ)
    (r : RemoteSession μ σ) : Prop where
  valid : C.Valid s.transport
  link : Duplex.Related (Stands P reg) r.link (C.link s.transport)
  client : r.client = s.client
  world : r.world = s.world
  oneway : r.oneway = s.oneway
  requests : r.link.c2s.put = s.requests

theorem refines_fresh (w : World μ σ) :
    Refines P reg ({ world := w } : HostedSession C μ σ) { world := w } where
  valid := C.valid_initial
  link := by
    show Duplex.Related (Stands P reg) {} (C.link C.initial)
    rw [C.link_initial]
    exact Duplex.related_empty
  client := rfl
  world := rfl
  oneway := rfl
  requests := rfl

theorem stands_encodeAll {envs : List Envelope} {sent : List (List UInt8)}
    (h : encodeAll reg envs = some sent)
    (hsurvive : ∀ env ∈ envs, P env) :
    List.Forall₂ (Stands P reg) envs sent := by
  induction envs generalizing sent with
  | nil =>
    cases h
    exact .nil
  | cons env envs ih =>
    rw [encodeAll] at h
    split at h
    · cases h
    · next frame hframe =>
      obtain ⟨rest, hrest, rfl⟩ := Option.map_eq_some_iff.1 h
      exact .cons ⟨hframe, hsurvive env List.mem_cons_self⟩
        (ih hrest fun e he => hsurvive e (List.mem_cons_of_mem env he))

variable {s s' : HostedSession C μ σ} {r : RemoteSession μ σ}

/-- What the transport does is done on the link of the session. -/
theorem Refines.perform (h : Refines P reg s r) {as : List C.Action} {t : C.State}
    (acts : List (Duplex.Action Envelope)) {what : List (Duplex.Action (List UInt8))}
    (hallowed : Machine.Each C.step C.Allowed s.transport as)
    (hacts : List.Forall₂ (Duplex.Action.Related (Stands P reg)) acts what)
    (hperform : C.perform s.transport as what = some t) :
    C.Valid t ∧ ∃ link, Machine.run Duplex.step r.link acts = some link ∧
      Duplex.Related (Stands P reg) link (C.link t) := by
  obtain ⟨hvalid, hrun⟩ := Carrier.perform_link h.valid hallowed hperform
  exact ⟨hvalid, h.link.run hacts hrun⟩

theorem Refines.transmit (h : Refines P reg s r) {as : List C.Action} {t : C.State}
    (acts : List (Duplex.Action Envelope)) {what : List (Duplex.Action (List UInt8))}
    {envs : List Envelope} {side : Lane.Action (List UInt8) → Duplex.Action (List UInt8)}
    (side' : Lane.Action Envelope → Duplex.Action Envelope)
    (hside : ∀ env frame, Stands P reg env frame →
      Duplex.Action.Related (Stands P reg) (side' (.put env)) (side (.put frame)))
    (hallowed : Machine.Each C.step C.Allowed s.transport as)
    (hsurvive : ∀ env ∈ envs, P env)
    (hacts : List.Forall₂ (Duplex.Action.Related (Stands P reg)) acts what)
    (htransmit : s.transmit reg as what side envs = some t) :
    C.Valid t ∧ ∃ link,
      Machine.run Duplex.step r.link (acts ++ envs.map fun env => side' (.put env)) = some link ∧
        Duplex.Related (Stands P reg) link (C.link t) := by
  obtain ⟨sent, hsent, hperform⟩ := Option.bind_eq_some_iff.1 htransmit
  have hputs : List.Forall₂ (Duplex.Action.Related (Stands P reg))
      (envs.map fun env => side' (.put env)) (sent.map fun frame => side (.put frame)) :=
    List.forall₂_map_left_iff.2 (List.forall₂_map_right_iff.2
      ((stands_encodeAll hsent hsurvive).imp hside))
  exact h.perform _ hallowed (List.rel_append hacts hputs) hperform

/-- One request is put on the link. -/
theorem Refines.request (h : Refines P reg s r) {as : List C.Action} {t : C.State}
    {env : Envelope} (hallowed : Machine.Each C.step C.Allowed s.transport as)
    (hsurvive : P env)
    (htransmit : s.transmit reg as [] .c2s [env] = some t) :
    C.Valid t ∧ ∃ link, r.link.step (.c2s (.put env)) = some link ∧
      Duplex.Related (Stands P reg) link (C.link t) ∧ link.c2s.put = s.requests ++ [env] := by
  obtain ⟨hvalid, link, hrun, hrel⟩ := h.transmit [] .c2s
    (fun _ _ hstands => .c2s (.put hstands)) hallowed (by simpa using hsurvive) .nil htransmit
  obtain ⟨mid, hmid, hend⟩ := Machine.run_cons hrun
  cases hend
  refine ⟨hvalid, link, hmid, hrel, ?_⟩
  cases hmid
  exact congrArg (· ++ [env]) h.requests

/-- Serving sends no request. -/
theorem put_of_serve {carry : Envelope → Arrival} {r r' : RemoteSession μ σ}
    (h : RemoteSession.step reg srv carry r .serve = some r') :
    r'.link.c2s.put = r.link.c2s.put := by
  cases RemoteSession.steps_of_step h
  rfl

/-- The image of a step is one step. -/
theorem refines_one {b : RemoteAction μ σ} (r' : RemoteSession μ σ)
    (hsurvives : FrameSurvives (RemoteSession.wire lim reg) r b)
    (hstep : RemoteSession.step reg srv (RemoteSession.wire lim reg) r b = some r')
    (href : Refines P reg s' r') :
    ∃ r', Machine.run (RemoteSession.step reg srv (RemoteSession.wire lim reg)) r [b] = some r' ∧
      Machine.Each (RemoteSession.step reg srv (RemoteSession.wire lim reg))
        (FrameSurvives (RemoteSession.wire lim reg)) r [b] ∧
        Refines P reg s' r' :=
  ⟨r', Machine.run_one hstep, Machine.each_one hsurvives, href⟩

/-- **A hosted session simulates a remote session**, if the envelopes survive their coding. -/
theorem simulates (hP : ∀ env, P env → Survives (RemoteSession.wire lim reg) env) :
    Machine.SimulatesEach (step (C := C) lim reg srv)
      (RemoteSession.step reg srv (RemoteSession.wire lim reg)) (fun _ a => a.image)
      (fun s a => s.Careful P lim reg srv a) (FrameSurvives (RemoteSession.wire lim reg))
      (Refines P reg) := by
  rintro s r a s' h ⟨hallowed, hsurvive⟩ hstep
  cases a with
  | client a =>
    rw [step] at hstep
    split_ifs at hstep with hlocal
    obtain ⟨client, hclient, rfl⟩ := Option.map_eq_some_iff.1 hstep
    refine refines_one { r with client } trivial ?_
      ⟨h.valid, h.link, rfl, h.world, h.oneway, h.requests⟩
    rw [RemoteSession.step, h.oneway, if_pos hlocal, h.client, hclient]
    rfl
  | transport as =>
    obtain ⟨t, ht, rfl⟩ := Option.map_eq_some_iff.1 hstep
    obtain ⟨hvalid, link, hlink, hrel⟩ := h.perform [] hallowed .nil ht
    cases hlink
    exact ⟨r, rfl, trivial, hvalid, hrel, h.client, h.world, h.oneway, h.requests⟩
  | send env as =>
    rw [step] at hstep
    split_ifs at hstep with hguard
    obtain ⟨client, hclient, hrest⟩ := Option.bind_eq_some_iff.1 hstep
    obtain ⟨t, ht, rfl⟩ := Option.map_eq_some_iff.1 hrest
    obtain ⟨hvalid, link, hlink, hrel, hput⟩ :=
      h.request hallowed (hsurvive env (by simp [sentBy])) ht
    refine refines_one { r with client, link } trivial ?_
      ⟨hvalid, hrel, rfl, h.world, h.oneway, hput⟩
    rw [RemoteSession.step, if_pos hguard, h.client, hclient, Option.bind_some, hlink]
    rfl
  | sendOneway env as =>
    rw [step] at hstep
    split_ifs at hstep with hguard
    obtain ⟨t, ht, rfl⟩ := Option.map_eq_some_iff.1 hstep
    obtain ⟨hvalid, link, hlink, hrel, hput⟩ :=
      h.request hallowed (hsurvive env (by simp [sentBy])) ht
    have hguard' : env.kind = KIND_REQUEST ∧ env.oneway = true ∧ ¬ r.Used env.requestId := by
      rw [RemoteSession.Used, h.client, h.oneway]
      exact hguard
    refine refines_one { r with link, oneway := env.requestId :: r.oneway } trivial ?_
      ⟨hvalid, hrel, h.client, h.world, congrArg (env.requestId :: ·) h.oneway, hput⟩
    rw [RemoteSession.step, if_pos hguard', hlink]
    rfl
  | serve as =>
    rw [step] at hstep
    split at hstep
    · cases hstep
    · next frame rest hqueue =>
      obtain ⟨env, rest', hqueue', hstands, -⟩ := h.link.c2s.head hqueue
      split at hstep
      · next trace world hserved =>
        obtain ⟨t, ht, rfl⟩ := Option.map_eq_some_iff.1 hstep
        have hsent : ∀ e ∈ frames trace, P e := fun e he =>
          hsurvive e (by rw [sentBy, hqueue]; simpa only [hserved] using he)
        obtain ⟨hvalid, link, hlink, hrel⟩ := h.transmit [.c2s .take] .s2c
          (fun _ _ hs => .s2c (.put hs)) hallowed hsent (.cons (.c2s .take) .nil) ht
        have hr : RemoteSession.step reg srv (RemoteSession.wire lim reg) r .serve = some
            { r with link, world, turns := r.turns ++ [.request env (frames trace)] } := by
          rw [hstands.arrival, ← h.world] at hserved
          simp only [RemoteSession.step, hqueue', hserved]
          exact congrArg (Option.map _) hlink
        have hput : link.c2s.put = r.link.c2s.put := put_of_serve hr
        refine refines_one _ (fun e he => ?_) hr
          ⟨hvalid, hrel, h.client, rfl, h.oneway, hput.trans h.requests⟩
        rw [hqueue'] at he
        cases he
        exact hP _ hstands.2
      · cases hstep
  | outside change =>
    cases hstep
    exact refines_one { r with
        world := change r.world
        turns := r.turns ++ [.outside change] } trivial rfl
      ⟨h.valid, h.link, h.client, congrArg change h.world, h.oneway, h.requests⟩
  | emit env as =>
    rw [step] at hstep
    split_ifs at hstep with hkind
    obtain ⟨t, ht, rfl⟩ := Option.map_eq_some_iff.1 hstep
    obtain ⟨hvalid, link, hrun, hrel⟩ := h.transmit [] .s2c
      (fun _ _ hstands => .s2c (.put hstands)) hallowed
      (fun e he => hsurvive e (by simpa [sentBy] using he)) .nil ht
    obtain ⟨mid, hmid, hend⟩ := Machine.run_cons hrun
    cases hend
    refine refines_one { r with link } trivial ?_
      ⟨hvalid, hrel, h.client, h.world, h.oneway, ?_⟩
    · rw [RemoteSession.step, if_neg hkind, hmid]
      rfl
    · cases hmid
      exact h.requests
  | receive as =>
    rw [step] at hstep
    split at hstep
    · cases hstep
    · next frame rest hqueue =>
      obtain ⟨env, rest', hqueue', hstands, -⟩ := h.link.s2c.head hqueue
      obtain ⟨client, hclient, hrest⟩ := Option.bind_eq_some_iff.1 hstep
      obtain ⟨t, ht, rfl⟩ := Option.map_eq_some_iff.1 hrest
      obtain ⟨hvalid, link, hrun, hrel⟩ :=
        h.perform [.s2c .take] hallowed (.cons (.s2c .take) .nil) ht
      obtain ⟨mid, hmid, hend⟩ := Machine.run_cons hrun
      cases hend
      refine refines_one { r with client, link } (fun e he => ?_) ?_
        ⟨hvalid, hrel, rfl, h.world, h.oneway, ?_⟩
      · rw [hqueue'] at he
        cases he
        exact hP _ hstands.2
      · rw [hstands.arrival, ← h.client] at hclient
        simp only [RemoteSession.step, hqueue', hclient, Option.bind_some, hmid]
        rfl
      · obtain ⟨lane, -, rfl⟩ := Option.map_eq_some_iff.1 hmid
        exact h.requests

end HostedSession

open HostedSession RemoteSession in
/-- **Main result.** Over each of the transports, after any interleaving of the client's threads,
the threads and loops of the transport, the server and the application, if every envelope survives
its coding and the transport's steps are allowed: the requests were served in the order in which
they were sent, each once; the session is in the state that they leave with the changes from
outside between them; a promise that was settled with a response was settled with the one that the
server computed for its request; and the promise of every other registered request is with a thread
of the client, or the frame of its request or response is in the transport. -/
theorem hosted_calls_linear {μ σ ν : Type} (kind : TransportKind) (grow : Nat → Nat → Nat)
    (lim : Limits) (reg : Registry ν) (srv : Server μ σ) (hreg : srv.registry.Acyclic)
    (w : World μ σ) (actions : List (HostedAction (kind.carrier grow) μ σ))
    {s : HostedSession (kind.carrier grow) μ σ}
    (h : Machine.run (HostedSession.step lim reg srv) { world := w } actions = some s)
    (hcareful : Machine.Each (HostedSession.step lim reg srv)
      (Careful (Survives (RemoteSession.wire lim reg)) lim reg srv) { world := w } actions) :
    (s.requests.map Envelope.requestId).Nodup ∧
      (∃ turns, turns.filterMap Turn.request? <+: s.requests ∧
        s.world = afterTurns srv (RemoteSession.wire lim reg) w turns ∧
        ∀ id env outcome, (id, .response env outcome) ∈ s.client.settled →
          ∃ before req r after, turns = before ++ .request req [r] :: after ∧
            req.requestId = id ∧
            frames (srv.serviceSession (RemoteSession.wire lim reg req)
              (afterTurns srv (RemoteSession.wire lim reg) w before)).trace = [r] ∧
            RemoteSession.wire lim reg r = .ok env ∧ responseOutcome reg env = some outcome) ∧
      ∀ id ∈ s.client.registered,
        (∃ how, (id, how) ∈ s.client.settled) ∨
          (id ∈ s.client.sending ∨ (∃ what, (id, what) ∈ s.client.sendFailed) ∨
            id ∈ s.client.worker.held ∨ id ∈ s.client.failing) ∨
          (∃ req frame, req ∈ s.requests ∧ req.oneway = false ∧ req.requestId = id ∧
            req.encode reg = .ok frame ∧
            frame ∈ ((kind.carrier grow).link s.transport).c2s.queue) ∨
          ∃ (r : Envelope) (frame : List UInt8), r.kind = KIND_RESPONSE ∧ r.requestId = id ∧
            r.encode reg = .ok frame ∧
            frame ∈ ((kind.carrier grow).link s.transport).s2c.queue := by
  obtain ⟨r, hrun, hsurvive, href⟩ := (simulates fun _ => id).run (refines_fresh w) hcareful h
  obtain ⟨hsound, hawaited⟩ := sound_run hreg hrun hsurvive
  refine ⟨?_, ⟨r.turns, ?_, ?_, fun id env outcome hmem => ?_⟩, fun id hid => ?_⟩
  · rw [← href.requests]
    exact hsound.distinct.sent
  · rw [← href.requests]
    exact hsound.linear.served_prefix
  · rw [← href.world]
    exact hsound.linear.world
  · rw [← href.client] at hmem
    exact hsound.linear.response_of_settled hmem
  · rw [← href.client] at hid ⊢
    rcases hsound.whereabouts hawaited hid with hsettled | hthread | ⟨req, hreq, honeway, heq⟩ |
      ⟨res, hres, hkind, heq⟩
    · exact .inl hsettled
    · exact .inr (.inl hthread)
    · obtain ⟨frame, hframe, hstands⟩ := href.link.c2s.mem hreq
      refine .inr (.inr (.inl ⟨req, frame, ?_, honeway, heq, hstands.1, hframe⟩))
      rw [← href.requests, hsound.linear.link.c2s]
      exact List.mem_append_right _ hreq
    · obtain ⟨frame, hframe, hstands⟩ := href.link.s2c.mem hres
      exact .inr (.inr (.inr ⟨res, frame, hkind, heq, hstands.1, hframe⟩))

/-! ## A get over two event loops -/

def sampleFrame (env : Envelope) : List UInt8 :=
  (env.encode SampleFrames.registry).toOption.getD []

/-- The response to the `get`. -/
def getResponse : Envelope :=
  (frames (Server.bare.serviceSession
    (RemoteSession.wire SampleFrames.limits SampleFrames.registry objectGet)
    Server.oneObject).trace).head?.getD {}

/-- What the loops at both ends do with this frame. -/
def uvCarries (frame : List UInt8) : List UvLink.Action :=
  [.signal, .onSend, .write, .onRead 3, .onRead (frame.length + 1)]

/-- One request is sent and served, and its response received. -/
def uvExchange {μ σ : Type} (env response : Envelope) :
    List (HostedAction (uvCarrier fun _ n => n) μ σ) :=
  [.client (.call env.requestId), .client (.register env.requestId),
    .send env [Sum.inl (UvLink.Action.enqueue (sampleFrame env))],
    .transport ((uvCarries (sampleFrame env)).map Sum.inl),
    .serve [Sum.inl (UvLink.Action.dequeue 0),
      Sum.inr (UvLink.Action.enqueue (sampleFrame response))],
    .transport ((uvCarries (sampleFrame response)).map Sum.inr), .client .test,
    .receive [Sum.inr (UvLink.Action.dequeue 0)], .client .deliver]

def getOverUv : List (HostedAction (uvCarrier fun _ n => n) Unit Unit) :=
  uvExchange objectGet getResponse

theorem hosted_calls_linear_get :
    ∃ s, Machine.run (HostedSession.step SampleFrames.limits SampleFrames.registry Server.bare)
        { world := Server.oneObject } getOverUv = some s ∧
      s.client.settled.map Prod.fst = [7] ∧ (s.requests.map Envelope.requestId).Nodup := by
  have hsettled : (Machine.run
      (HostedSession.step SampleFrames.limits SampleFrames.registry Server.bare)
      { world := Server.oneObject } getOverUv).map (fun s => s.client.settled.map Prod.fst) =
        some [7] := by decide +kernel
  have hcareful : Machine.Each
      (HostedSession.step SampleFrames.limits SampleFrames.registry Server.bare)
      (HostedSession.Careful (RemoteSession.Survives
        (RemoteSession.wire SampleFrames.limits SampleFrames.registry))
        SampleFrames.limits SampleFrames.registry Server.bare)
      { world := Server.oneObject } getOverUv := by decide +kernel
  obtain ⟨s, h, hend⟩ := Option.map_eq_some_iff.1 hsettled
  exact ⟨s, h, hend, (hosted_calls_linear .uv (fun _ n => n) SampleFrames.limits
    SampleFrames.registry Server.bare Server.bare_acyclic _ getOverUv h hcareful).1⟩

end Bison
