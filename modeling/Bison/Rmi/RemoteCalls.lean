import Bison.Lib.Lane
import Bison.Rmi.Client
import Bison.Rmi.EnvelopeFormat
import Bison.Rmi.Responses

/-!
# Remote calls

A client, the link to its server, and its session there (client.cpp, server.cpp). The threads of the
client send requests and its worker settles their promises; a dispatch worker of the server serves
one request after the other, and the application sends events meanwhile.

- `RemoteSession.step`: one step of any of them. `carry` is what a frame is when it arrives, which
  `wire` gives for `encode` and `decode`.
- `Client.Traffic`, `Client.settled_cases`: what a step of a client can do to its requests.
- `remote_calls_linear`: **main result**, the requests take effect one after the other, in the order
  in which they were sent and each once, and the response a promise is settled with is what the
  server computed for this request in the state that it found.
- `remote_calls_answered`: **main result**, no request gets lost: a promise that is not settled
  belongs to a request that is still under way, or is with a thread of the client.
-/

namespace Bison

/-! ## The traffic of a client -/

namespace Client

/-- What a step does to the requests of a client: it is called, registered, sent, given up, or a
step that lets promises out of the table at most. -/
inductive Traffic (c : Client) : ClientAction → Client → Prop where
  | call {c' : Client} (id : Key) (hencoded : id ∉ c.encoded) (hregistered : id ∉ c.registered)
      (h : c' = { c with encoded := id :: c.encoded }) : Traffic c (.call id) c'
  | register {c' : Client} (id : Key) (hid : id ∈ c.encoded)
      (hencoded : c'.encoded = c.encoded.erase id)
      (hregistered : c'.registered = c.registered ++ [id])
      (hfailed : c'.sendFailed = c.sendFailed)
      (hpending : c'.pending = id :: c.pending ∧ c'.sending = id :: c.sending ∨
        c'.pending = c.pending ∧ c'.sending = c.sending) : Traffic c (.register id) c'
  | send {c' : Client} (id : Key) (thrown : Option Text) (hid : id ∈ c.sending)
      (hencoded : c'.encoded = c.encoded) (hregistered : c'.registered = c.registered)
      (hsending : c'.sending = c.sending.erase id) (hpending : c'.pending = c.pending)
      (hfailed : c'.sendFailed = (thrown.map fun what => (id, what)).toList ++ c.sendFailed) :
      Traffic c (.send id thrown) c'
  | sendError {c' : Client} (id : Key) (hencoded : c'.encoded = c.encoded)
      (hregistered : c'.registered = c.registered) (hsending : c'.sending = c.sending)
      (hfailed : c'.sendFailed = c.sendFailed.filter fun p => p.1 ≠ id)
      (hpending : c'.pending = c.pending.erase id) : Traffic c (.sendError id) c'
  | other {a : ClientAction} {c' : Client} (hencoded : c'.encoded = c.encoded)
      (hregistered : c'.registered = c.registered) (hsending : c'.sending = c.sending)
      (hfailed : c'.sendFailed = c.sendFailed) (hpending : c'.pending ⊆ c.pending)
      (hsend : ∀ id thrown, a ≠ .send id thrown) : Traffic c a c'

variable {ν : Type} {reg : Registry ν} {c c' : Client} {a : ClientAction}

theorem traffic_of_step (h : Client.step reg c a = some c') : Traffic c a c' := by
  cases a with
  | call id =>
    simp only [Client.step] at h
    split_ifs at h with hfresh
    cases h
    exact .call id (fun hid => hfresh (.inl hid)) (fun hid => hfresh (.inr hid)) rfl
  | register id =>
    simp only [Client.step] at h
    split_ifs at h with hid hrunning
    · cases h
      exact .register id hid rfl rfl rfl (.inl ⟨rfl, rfl⟩)
    · cases h
      exact .register id hid rfl rfl rfl (.inr ⟨rfl, rfl⟩)
  | send id thrown =>
    simp only [Client.step] at h
    split_ifs at h with hid
    cases thrown with
    | none =>
      cases h
      exact .send id none hid rfl rfl rfl rfl rfl
    | some what =>
      cases h
      exact .send id (some what) hid rfl rfl rfl rfl rfl
  | sendError id =>
    simp only [Client.step] at h
    cases hwhat : c.sendFailed.lookup id with
    | none => simp [hwhat] at h
    | some what =>
      simp only [hwhat] at h
      split_ifs at h with hid
      · cases h
        exact .sendError id rfl rfl rfl rfl rfl
      · cases h
        exact .sendError id rfl rfl rfl rfl (List.erase_of_not_mem hid).symm
  | test | peerClosed | exit | empty =>
    simp only [Client.step] at h
    split at h <;> cases h
    exact .other rfl rfl rfl rfl (by simp) (by simp)
  | receive frame =>
    simp only [Client.step] at h
    split at h
    · cases frame with
      | none =>
        cases h
        exact .other rfl rfl rfl rfl (fun _ hid => hid) (by simp)
      | some env =>
        simp only at h
        split_ifs at h <;> cases h
        · exact .other rfl rfl rfl rfl List.erase_subset (by simp)
        · exact .other rfl rfl rfl rfl (fun _ hid => hid) (by simp)
    · cases h
  | deliver =>
    simp only [Client.step] at h
    split at h
    · obtain ⟨outcome, -, rfl⟩ := Option.map_eq_some_iff.1 h
      exact .other rfl rfl rfl rfl (fun _ hid => hid) (by simp)
    · cases h
  | fail id =>
    simp only [Client.step] at h
    split at h
    · split_ifs at h
      cases h
      exact .other rfl rfl rfl rfl (fun _ hid => hid) (by simp)
    · cases h
  | disconnect =>
    cases h
    exact .other rfl rfl rfl rfl (fun _ hid => hid) (by simp)
  | disconnectEmpty =>
    simp only [Client.step] at h
    split at h <;> cases h
    exact .other rfl rfl rfl rfl (by simp) (by simp)
  | disconnectFail id =>
    simp only [Client.step] at h
    split_ifs at h
    cases h
    exact .other rfl rfl rfl rfl (fun _ hid => hid) (by simp)

/-- A promise that a step sets with a response was with the worker. -/
theorem settled_cases (h : Client.step reg c a = some c') {p : Key × Settled}
    (hp : p ∈ c'.settled) : p ∈ c.settled ∨ (∀ env outcome, p.2 ≠ .response env outcome) ∨
      ∃ env outcome, p.2 = .response env outcome ∧ c.worker = .delivering p.1 env ∧
        responseOutcome reg env = some outcome := by
  have hsettle : ∀ (d : Client) (id : Key) (how : Settled), d.settled = c.settled →
      c'.settled = (d.settle id how).settled → p ∈ c.settled ∨ p = (id, how) := by
    intro d id how hd heq
    rw [heq, settle, hd] at hp
    exact (List.mem_append.1 hp).imp_right List.mem_singleton.1
  cases a with
  | call id =>
    simp only [Client.step] at h
    split_ifs at h
    cases h
    exact .inl hp
  | register id =>
    simp only [Client.step] at h
    split_ifs at h
    · cases h
      exact .inl hp
    · cases h
      rcases hsettle _ id disconnected rfl rfl with hp | rfl
      · exact .inl hp
      · exact .inr (.inl fun _ _ heq => by cases heq)
  | send id thrown =>
    simp only [Client.step] at h
    split_ifs at h
    cases thrown <;> cases h <;> exact .inl hp
  | sendError id =>
    simp only [Client.step] at h
    split at h
    · cases h
    · next what hwhat =>
      split_ifs at h <;> cases h
      · rcases hsettle { c with sendFailed := c.sendFailed.filter fun p => p.1 ≠ id } id
          (.sendError what) rfl rfl with hp | rfl
        · exact .inl hp
        · exact .inr (.inl fun _ _ heq => by cases heq)
      · exact .inl hp
  | test | peerClosed | exit | empty =>
    simp only [Client.step] at h
    split at h <;> cases h
    exact .inl hp
  | receive frame =>
    simp only [Client.step] at h
    split at h
    · cases frame with
      | none =>
        cases h
        exact .inl hp
      | some env =>
        simp only at h
        split_ifs at h <;> cases h <;> exact .inl hp
    · cases h
  | deliver =>
    simp only [Client.step] at h
    split at h
    · next id env hworker =>
      obtain ⟨outcome, houtcome, rfl⟩ := Option.map_eq_some_iff.1 h
      rcases hsettle c id (.response env outcome) rfl rfl with hp | rfl
      · exact .inl hp
      · exact .inr (.inr ⟨env, outcome, rfl, hworker, houtcome⟩)
    · cases h
  | fail id =>
    simp only [Client.step] at h
    split at h
    · split_ifs at h
      cases h
      rcases hsettle c id workerExiting rfl rfl with hp | rfl
      · exact .inl hp
      · exact .inr (.inl fun _ _ heq => by cases heq)
    · cases h
  | disconnect =>
    cases h
    exact .inl hp
  | disconnectEmpty =>
    simp only [Client.step] at h
    split at h <;> cases h
    exact .inl hp
  | disconnectFail id =>
    simp only [Client.step] at h
    split_ifs at h
    cases h
    rcases hsettle c id disconnected rfl rfl with hp | rfl
    · exact .inl hp
    · exact .inr (.inl fun _ _ heq => by cases heq)

/-- The response the worker holds is the one it received last. -/
theorem delivering_cases (h : Client.step reg c a = some c') {id : Key} {env : Envelope}
    (hw : c'.worker = .delivering id env) : c.worker = .delivering id env ∨
      a = .receive (some env) ∧ env.kind = KIND_RESPONSE ∧ env.requestId = id := by
  cases a with
  | receive frame =>
    simp only [Client.step] at h
    split at h
    · cases frame with
      | none =>
        cases h
        cases hw
      | some env' =>
        simp only at h
        split_ifs at h with hresponse <;> cases h <;> cases hw
        exact .inr ⟨rfl, hresponse.1, rfl⟩
    · cases h
  | test =>
    simp only [Client.step] at h
    split at h <;> cases h
    simp only at hw
    split_ifs at hw
  | call id | register id | disconnectFail id =>
    simp only [Client.step] at h
    split_ifs at h <;> cases h <;> exact .inl hw
  | send id thrown =>
    simp only [Client.step] at h
    split_ifs at h
    cases thrown <;> cases h <;> exact .inl hw
  | sendError id =>
    simp only [Client.step] at h
    split at h
    · cases h
    · split_ifs at h <;> cases h <;> exact .inl hw
  | peerClosed | exit | empty =>
    simp only [Client.step] at h
    split at h <;> cases h
    cases hw
  | deliver =>
    simp only [Client.step] at h
    split at h
    · obtain ⟨outcome, -, rfl⟩ := Option.map_eq_some_iff.1 h
      cases hw
    · cases h
  | fail id =>
    simp only [Client.step] at h
    split at h
    · split_ifs at h
      cases h
      cases hw
    · cases h
  | disconnect =>
    cases h
    exact .inl hw
  | disconnectEmpty =>
    simp only [Client.step] at h
    split at h <;> cases h
    exact .inl hw

theorem Accounted.pending_nodup (h : c.Accounted reg) : c.pending.Nodup :=
  (h.places.nodup_iff.2 h.distinct.of_append_right).of_append_left

/-- Once a response has been received its request is not in the table. -/
theorem not_pending_of_receive {env : Envelope} (hnodup : c.pending.Nodup)
    (hkind : env.kind = KIND_RESPONSE) (h : Client.step reg c (.receive (some env)) = some c') :
    env.requestId ∉ c'.pending := by
  simp only [Client.step] at h
  split at h
  · split_ifs at h with hresponse
    · cases h
      exact hnodup.not_mem_erase
    · cases h
      exact fun hid => hresponse ⟨hkind, hid⟩
  · cases h

end Client

/-! ## The session -/

/-- What changes the state of a session: a request, with the responses to it, or another session or
the application. -/
inductive Turn (μ σ : Type) where
  | request (env : Envelope) (sent : List Envelope)
  | outside (change : World μ σ → World μ σ)

variable {μ σ ν : Type}

def Turn.request? : Turn μ σ → Option Envelope
  | .request env _ => some env
  | .outside _ => none

/-- A client, its link to a server, and its session there. -/
structure RemoteSession (μ σ : Type) where
  client : Client := {}
  link : Duplex Envelope := {}
  world : World μ σ
  /-- What changed the session so far, in order. -/
  turns : List (Turn μ σ) := []
  /-- The ids of the one-way requests. -/
  oneway : List Key := []

inductive RemoteAction (μ σ : Type) where
  /-- A step of a thread of the client, other than those below. -/
  | client (a : ClientAction)
  /-- The thread of a registered request sends its frame. -/
  | send (env : Envelope)
  /-- A thread sends a one-way request. -/
  | sendOneway (env : Envelope)
  /-- The dispatch worker serves the next request. -/
  | serve
  /-- Another session or the application changes the state between two requests. -/
  | outside (change : World μ σ → World μ σ)
  /-- The application sends an event. -/
  | emit (env : Envelope)
  /-- The client's worker receives the next frame. -/
  | receive

/-- The steps of a client that leave its link alone. No id is given out twice, and these were given
to one-way requests. -/
def ClientAction.Local (oneway : List Key) : ClientAction → Bool
  | .send _ none => false
  | .receive (some _) => false
  | .call id => id ∉ oneway
  | _ => true

namespace RemoteSession

/-- A request id that was given out already. -/
def Used (s : RemoteSession μ σ) (id : Key) : Prop :=
  id ∈ s.client.encoded ∨ id ∈ s.client.registered ∨ id ∈ s.oneway

instance (s : RemoteSession μ σ) (id : Key) : Decidable (s.Used id) := by
  unfold Used
  infer_instance

/-- One step. `reg` is the registry of the client, and `carry` what arrives of an envelope. -/
def step (reg : Registry ν) (srv : Server μ σ) (carry : Envelope → Arrival)
    (s : RemoteSession μ σ) : RemoteAction μ σ → Option (RemoteSession μ σ)
  | .client a =>
    if a.Local s.oneway then (Client.step reg s.client a).map fun client => { s with client }
    else none
  | .send env =>
    if env.kind = KIND_REQUEST ∧ env.oneway = false then
      (Client.step reg s.client (.send env.requestId none)).bind fun client =>
        (s.link.step (.c2s (.put env))).map fun link => { s with client, link }
    else none
  | .sendOneway env =>
    if env.kind = KIND_REQUEST ∧ env.oneway = true ∧ ¬ s.Used env.requestId then
      (s.link.step (.c2s (.put env))).map fun link =>
        { s with link, oneway := env.requestId :: s.oneway }
    else none
  | .serve =>
    match s.link.c2s.queue with
    | [] => none
    | env :: _ =>
      match srv.serviceSession (carry env) s.world with
      | ⟨.ok (), trace, world⟩ =>
        (Machine.run Duplex.step s.link
          (.c2s .take :: (frames trace).map fun frame => .s2c (.put frame))).map fun link =>
            { s with link, world, turns := s.turns ++ [.request env (frames trace)] }
      | ⟨.error _, _, _⟩ => none
  | .outside change =>
    some { s with world := change s.world, turns := s.turns ++ [.outside change] }
  | .emit env =>
    if env.kind = KIND_RESPONSE then none
    else (s.link.step (.s2c (.put env))).map fun link => { s with link }
  | .receive =>
    match s.link.s2c.queue with
    | [] => none
    | env :: _ =>
      (Client.step reg s.client (.receive (carry env).toOption)).bind fun client =>
        (s.link.step (.s2c .take)).map fun link => { s with client, link }

/-- One request is served, or the state is changed from outside. -/
def afterTurn (srv : Server μ σ) (carry : Envelope → Arrival) (w : World μ σ) :
    Turn μ σ → World μ σ
  | .request env _ => (srv.serviceSession (carry env) w).state
  | .outside change => change w

/-- The state of the session after these turns, one after the other. -/
def afterTurns (srv : Server μ σ) (carry : Envelope → Arrival) (w : World μ σ)
    (turns : List (Turn μ σ)) : World μ σ :=
  turns.foldl (afterTurn srv carry) w

/-- What arrives of an envelope is the same request or response. -/
def Survives (carry : Envelope → Arrival) (env : Envelope) : Prop :=
  ∃ e, carry env = .ok e ∧ e.kind = env.kind ∧ e.requestId = env.requestId ∧
    e.oneway = env.oneway

instance (carry : Envelope → Arrival) (env : Envelope) : Decidable (Survives carry env) :=
  match h : carry env with
  | .ok e => decidable_of_iff
      (e.kind = env.kind ∧ e.requestId = env.requestId ∧ e.oneway = env.oneway)
      (by simp [Survives, h])
  | .error _ => .isFalse (by simp [Survives, h])

/-- The frame that a step takes off the link survives. -/
def FrameSurvives (carry : Envelope → Arrival) (s : RemoteSession μ σ) : RemoteAction μ σ → Prop
  | .serve => ∀ env ∈ s.link.c2s.queue.head?, Survives carry env
  | .receive => ∀ env ∈ s.link.s2c.queue.head?, Survives carry env
  | _ => True

instance (carry : Envelope → Arrival) (s : RemoteSession μ σ) (a : RemoteAction μ σ) :
    Decidable (FrameSurvives carry s a) := by
  cases a <;> unfold FrameSurvives <;> infer_instance

/-- What arrives is what `decode` reads in the frame that `encode` wrote (envelope.cpp). -/
def wire (lim : Limits) (reg : Registry ν) (env : Envelope) : Arrival :=
  match env.encode reg with
  | .error e => .error ((Failure.ofExn e).what.getD [])
  | .ok frame =>
    match Envelope.decode lim reg frame with
    | .error e => .error ((Failure.ofExn e).what.getD [])
    | .ok decoded => .ok decoded

/-- An envelope whose two vectors can be written and read survives. -/
theorem survives_wire {lim : Limits} {reg : Registry ν} {errorProto envelopeProto : Prototype ν}
    (hs : reg.HasSchemas errorProto envelopeProto) {env : Envelope} {body : List UInt8}
    {error : Option (List UInt8)} {d payload decodedError : Fields}
    (hfit : VectorsFit lim body error)
    (hpay : encodePayload reg env.withSchema env.payload = .ok (body, d))
    (hback : decodePayload lim reg env.withSchema body = .ok (payload, []))
    (herr : encodeError reg env.error = .ok error)
    (hdec : decodeError lim reg (error.getD []) = .ok (decodedError, [])) :
    Survives (wire lim reg) env := by
  obtain ⟨frame, hencode, hdecode, -⟩ := roundTrip_of_vectors hs hfit hpay hback herr hdec
  refine ⟨{ env with payload := payload, error := decodedError }, ?_, rfl, rfl, rfl⟩
  rw [wire, hencode]
  show (match Envelope.decode lim reg frame with
    | .error e => _
    | .ok decoded => _) = _
  rw [hdecode]

variable {reg : Registry ν} {srv : Server μ σ} {carry : Envelope → Arrival}
  {s s' : RemoteSession μ σ}

/-! ## What a step does -/

/-- The steps of the link: one that leaves it alone, and the five that do not. -/
inductive Steps (reg : Registry ν) (srv : Server μ σ) (carry : Envelope → Arrival)
    (s : RemoteSession μ σ) : RemoteAction μ σ → RemoteSession μ σ → Prop where
  | client (a : ClientAction) (client : Client) (hlocal : a.Local s.oneway)
      (h : Client.step reg s.client a = some client) :
      Steps reg srv carry s (.client a) { s with client }
  | send (env : Envelope) (client : Client) (hkind : env.kind = KIND_REQUEST)
      (honeway : env.oneway = false)
      (h : Client.step reg s.client (.send env.requestId none) = some client) :
      Steps reg srv carry s (.send env)
        { s with
          client
          link := { s.link with
            c2s := { s.link.c2s with
              queue := s.link.c2s.queue ++ [env]
              put := s.link.c2s.put ++ [env] } } }
  | sendOneway (env : Envelope) (honeway : env.oneway = true) (hfresh : ¬ s.Used env.requestId) :
      Steps reg srv carry s (.sendOneway env)
        { s with
          link := { s.link with
            c2s := { s.link.c2s with
              queue := s.link.c2s.queue ++ [env]
              put := s.link.c2s.put ++ [env] } }
          oneway := env.requestId :: s.oneway }
  | serve (env : Envelope) (rest : List Envelope) (sent : List Envelope)
      (hqueue : s.link.c2s.queue = env :: rest)
      (hsent : sent = frames (srv.serviceSession (carry env) s.world).trace)
      (hok : (srv.serviceSession (carry env) s.world).result = .ok ()) :
      Steps reg srv carry s .serve
        { s with
          link :=
            { c2s := { s.link.c2s with queue := rest, taken := s.link.c2s.taken ++ [env] }
              s2c := { s.link.s2c with
                queue := s.link.s2c.queue ++ sent
                put := s.link.s2c.put ++ sent } }
          world := (srv.serviceSession (carry env) s.world).state
          turns := s.turns ++ [.request env sent] }
  | outside (change : World μ σ → World μ σ) :
      Steps reg srv carry s (.outside change)
        { s with world := change s.world, turns := s.turns ++ [.outside change] }
  | emit (env : Envelope) (hkind : env.kind ≠ KIND_RESPONSE) :
      Steps reg srv carry s (.emit env)
        { s with
          link := { s.link with
            s2c := { s.link.s2c with
              queue := s.link.s2c.queue ++ [env]
              put := s.link.s2c.put ++ [env] } } }
  | receive (env : Envelope) (rest : List Envelope) (client : Client)
      (hqueue : s.link.s2c.queue = env :: rest)
      (h : Client.step reg s.client (.receive (carry env).toOption) = some client) :
      Steps reg srv carry s .receive
        { s with
          client
          link := { s.link with
            s2c := { s.link.s2c with queue := rest, taken := s.link.s2c.taken ++ [env] } } }

theorem run_puts (l : Duplex Envelope) (sent : List Envelope) :
    Machine.run Duplex.step l (sent.map fun frame => .s2c (.put frame)) =
      some { l with
        s2c := { l.s2c with queue := l.s2c.queue ++ sent, put := l.s2c.put ++ sent } } := by
  induction sent generalizing l with
  | nil => simp [Machine.run]
  | cons frame sent ih =>
    rw [List.map_cons, Machine.run]
    show Machine.run Duplex.step _ _ = _
    rw [ih]
    simp

theorem steps_of_step {a : RemoteAction μ σ} (h : step reg srv carry s a = some s') :
    Steps reg srv carry s a s' := by
  cases a with
  | client a =>
    rw [step] at h
    split_ifs at h with hlocal
    obtain ⟨client, hclient, rfl⟩ := Option.map_eq_some_iff.1 h
    exact .client a client hlocal hclient
  | send env =>
    rw [step] at h
    split_ifs at h with hguard
    obtain ⟨client, hclient, hlink⟩ := Option.bind_eq_some_iff.1 h
    cases hlink
    exact .send env client hguard.1 hguard.2 hclient
  | sendOneway env =>
    rw [step] at h
    split_ifs at h with hguard
    cases h
    exact .sendOneway env hguard.2.1 hguard.2.2
  | serve =>
    rw [step] at h
    split at h
    · cases h
    · next env rest hqueue =>
      split at h
      · next trace world hserved =>
        have hlink : Machine.run Duplex.step s.link
            (.c2s .take :: (frames trace).map fun frame => .s2c (.put frame)) = some
              { c2s := { s.link.c2s with queue := rest, taken := s.link.c2s.taken ++ [env] }
                s2c := { s.link.s2c with
                  queue := s.link.s2c.queue ++ frames trace
                  put := s.link.s2c.put ++ frames trace } } := by
          rw [Machine.run, Duplex.step, Lane.step_take hqueue]
          exact run_puts _ _
        rw [hlink] at h
        cases h
        have hstep : Steps reg srv carry s .serve _ :=
          .serve env rest (frames trace) hqueue (by rw [hserved]) (by rw [hserved])
        rwa [hserved] at hstep
      · cases h
  | outside change =>
    cases h
    exact .outside change
  | emit env =>
    rw [step] at h
    split_ifs at h with hkind
    cases h
    exact .emit env hkind
  | receive =>
    rw [step] at h
    split at h
    · cases h
    · next env rest hqueue =>
      obtain ⟨client, hclient, hlink⟩ := Option.bind_eq_some_iff.1 h
      rw [Duplex.step, Lane.step_take hqueue] at hlink
      cases hlink
      exact .receive env rest client hqueue hclient

/-! ## Ids -/

/-- Every id belongs to one request, and a request is sent once. -/
structure Distinct (s : RemoteSession μ σ) : Prop where
  sent : (s.link.c2s.put.map Envelope.requestId).Nodup
  known : ∀ env ∈ s.link.c2s.put, env.requestId ∈ s.oneway ∨
    env.requestId ∈ s.client.registered ∧ env.requestId ∉ s.client.sending
  sending : s.client.sending.Nodup ∧ s.client.sending ⊆ s.client.registered
  apart : ∀ id ∈ s.oneway, id ∉ s.client.encoded ∧ id ∉ s.client.registered
  fresh : (s.client.encoded ++ s.client.registered).Nodup

/-- An id that was given out only has no request yet. -/
theorem Distinct.unsent (h : s.Distinct) {id : Key} (hid : id ∈ s.client.encoded) :
    ∀ env ∈ s.link.c2s.put, env.requestId ≠ id := by
  rintro env henv rfl
  rcases h.known env henv with honeway | ⟨hregistered, -⟩
  · exact (h.apart _ honeway).1 hid
  · exact List.disjoint_of_nodup_append h.fresh hid hregistered

theorem distinct_fresh (w : World μ σ) : ({ world := w } : RemoteSession μ σ).Distinct where
  sent := List.nodup_nil
  known := (by simp)
  sending := ⟨List.nodup_nil, nofun⟩
  apart := (by simp)
  fresh := List.nodup_nil

/-- The client goes on by itself. -/
theorem Distinct.client (h : s.Distinct) {a : ClientAction} {client : Client}
    (hlocal : a.Local s.oneway) (hstep : Client.step reg s.client a = some client)
    (hfresh : (client.encoded ++ client.registered).Nodup) :
    ({ s with client } : RemoteSession μ σ).Distinct := by
  cases Client.traffic_of_step hstep with
  | call id hencoded hregistered heq =>
    subst heq
    refine ⟨h.sent, h.known, h.sending, fun id' hid => ⟨fun hmem => ?_, (h.apart id' hid).2⟩,
      hfresh⟩
    rcases List.mem_cons.1 hmem with rfl | hmem
    · exact of_decide_eq_true hlocal hid
    · exact (h.apart id' hid).1 hmem
  | register id hid hencoded hregistered hfailed hpending =>
    have hunsent := h.unsent hid
    have hnew : id ∉ s.client.registered := fun hmem =>
      List.disjoint_of_nodup_append h.fresh hid hmem
    have hsending : client.sending = id :: s.client.sending ∨
        client.sending = s.client.sending := hpending.imp (·.2) (·.2)
    refine ⟨h.sent, fun env henv => ?_, ⟨?_, ?_⟩, fun id' hid' => ⟨?_, ?_⟩, hfresh⟩
    · rcases h.known env henv with honeway | ⟨hmem, hnot⟩
      · exact .inl honeway
      · refine .inr ⟨by rw [hregistered]; exact List.mem_append_left _ hmem, ?_⟩
        rcases hsending with hsending | hsending <;> rw [hsending]
        · exact List.not_mem_cons_of_ne_of_not_mem (hunsent env henv) hnot
        · exact hnot
    · rcases hsending with hsending | hsending <;> rw [hsending]
      · exact List.nodup_cons.2 ⟨fun hmem => hnew (h.sending.2 hmem), h.sending.1⟩
      · exact h.sending.1
    · rw [hregistered]
      rcases hsending with hsending | hsending <;> rw [hsending]
      · exact List.cons_subset.2 ⟨by simp, fun _ hmem => List.mem_append_left _ (h.sending.2 hmem)⟩
      · exact fun _ hmem => List.mem_append_left _ (h.sending.2 hmem)
    · rw [hencoded]
      exact fun hmem => (h.apart id' hid').1 (List.mem_of_mem_erase hmem)
    · rw [hregistered]
      intro hmem
      rcases List.mem_append.1 hmem with hmem | hmem
      · exact (h.apart id' hid').2 hmem
      · rw [List.mem_singleton.1 hmem] at hid'
        exact (h.apart id hid').1 hid
  | send id thrown hid hencoded hregistered hsending hpending hfailed =>
    refine ⟨h.sent, fun env henv => ?_, ?_, ?_, hfresh⟩ <;>
      simp only [hencoded, hregistered, hsending]
    · exact (h.known env henv).imp_right fun hknown =>
        ⟨hknown.1, fun hmem => hknown.2 (List.mem_of_mem_erase hmem)⟩
    · exact ⟨h.sending.1.erase id, fun _ hmem => h.sending.2 (List.mem_of_mem_erase hmem)⟩
    · exact h.apart
  | sendError id hencoded hregistered hsending hfailed hpending =>
    refine ⟨h.sent, ?_, ?_, ?_, hfresh⟩ <;> simp only [hencoded, hregistered, hsending]
    · exact h.known
    · exact h.sending
    · exact h.apart
  | other hencoded hregistered hsending hfailed hpending hsend =>
    refine ⟨h.sent, ?_, ?_, ?_, hfresh⟩ <;> simp only [hencoded, hregistered, hsending]
    · exact h.known
    · exact h.sending
    · exact h.apart

theorem nodup_ids {requests : List Envelope} {env : Envelope}
    (h : (requests.map Envelope.requestId).Nodup)
    (hnew : ∀ e ∈ requests, e.requestId ≠ env.requestId) :
    ((requests ++ [env]).map Envelope.requestId).Nodup := by
  rw [List.map_append]
  refine h.append (List.nodup_singleton _) fun id hid hmem => ?_
  obtain ⟨e, he, rfl⟩ := List.mem_map.1 hid
  exact hnew e he (List.mem_singleton.1 hmem)

/-- A request that a thread is about to send was not sent. -/
theorem Distinct.send (h : s.Distinct) {env : Envelope} {client : Client}
    (hstep : Client.step reg s.client (.send env.requestId none) = some client)
    (hfresh : (client.encoded ++ client.registered).Nodup) {link : Duplex Envelope}
    (hput : link.c2s.put = s.link.c2s.put ++ [env]) :
    ({ s with client, link } : RemoteSession μ σ).Distinct := by
  cases Client.traffic_of_step hstep with
  | send id thrown hid hencoded hregistered hsending hpending hfailed =>
    have hnew : ∀ e ∈ s.link.c2s.put, e.requestId ≠ env.requestId := by
      intro e he heq
      rcases h.known e he with honeway | ⟨-, hnot⟩
      · exact (h.apart _ honeway).2 (heq ▸ h.sending.2 hid)
      · exact hnot (heq ▸ hid)
    refine ⟨?_, fun e he => ?_, ?_, ?_, hfresh⟩
    · rw [hput]
      exact nodup_ids h.sent hnew
    · rw [hput] at he
      rcases List.mem_append.1 he with he | he
      · refine (h.known e he).imp_right fun hknown => ?_
        rw [hregistered, hsending]
        exact ⟨hknown.1, fun hmem => hknown.2 (List.mem_of_mem_erase hmem)⟩
      · rw [List.mem_singleton.1 he, hregistered, hsending]
        exact .inr ⟨h.sending.2 hid, h.sending.1.not_mem_erase⟩
    · rw [hsending, hregistered]
      exact ⟨h.sending.1.erase _, fun _ hmem => h.sending.2 (List.mem_of_mem_erase hmem)⟩
    · rw [hencoded, hregistered]
      exact h.apart
  | other hencoded hregistered hsending hfailed hpending hsend => exact (hsend _ _ rfl).elim

theorem Distinct.sendOneway (h : s.Distinct) {env : Envelope} (hfresh : ¬ s.Used env.requestId)
    {link : Duplex Envelope} (hput : link.c2s.put = s.link.c2s.put ++ [env]) :
    ({ s with link, oneway := env.requestId :: s.oneway } : RemoteSession μ σ).Distinct := by
  have hnew : ∀ e ∈ s.link.c2s.put, e.requestId ≠ env.requestId := by
    intro e he heq
    rcases h.known e he with honeway | ⟨hregistered, -⟩
    · exact hfresh (.inr (.inr (heq ▸ honeway)))
    · exact hfresh (.inr (.inl (heq ▸ hregistered)))
  refine ⟨?_, fun e he => ?_, h.sending, fun id hid => ?_, h.fresh⟩
  · rw [hput]
    exact nodup_ids h.sent hnew
  · rw [hput] at he
    rcases List.mem_append.1 he with he | he
    · exact (h.known e he).imp_left fun honeway => List.mem_cons_of_mem _ honeway
    · rw [List.mem_singleton.1 he]
      exact .inl List.mem_cons_self
  · rcases List.mem_cons.1 hid with rfl | hid
    · exact ⟨fun hmem => hfresh (.inl hmem), fun hmem => hfresh (.inr (.inl hmem))⟩
    · exact h.apart id hid

/-! ## Requests take effect one after the other -/

/-- This arrived at the client as a response to request `id`. -/
def Arrived (carry : Envelope → Arrival) (s : RemoteSession μ σ) (id : Key) (env : Envelope) :
    Prop :=
  ∃ r ∈ s.link.s2c.put, carry r = .ok env ∧ r.kind = KIND_RESPONSE ∧ r.requestId = id

/-- What holds from the state `w` of the session on, in which it was connected. -/
structure Linear (reg : Registry ν) (srv : Server μ σ) (carry : Envelope → Arrival)
    (w : World μ σ) (s : RemoteSession μ σ) : Prop where
  link : s.link.InOrder
  requests : s.turns.filterMap Turn.request? = s.link.c2s.taken
  world : s.world = afterTurns srv carry w s.turns
  computed : ∀ before req sent after, s.turns = before ++ .request req sent :: after →
    sent = frames (srv.serviceSession (carry req) (afterTurns srv carry w before)).trace
  responses : ∀ r ∈ s.link.s2c.put, r.kind = KIND_RESPONSE →
    ∃ req, .request req [r] ∈ s.turns ∧ r.requestId = req.requestId
  holding : ∀ id env, s.client.worker = .delivering id env → Arrived carry s id env
  settled : ∀ id env outcome, (id, .response env outcome) ∈ s.client.settled →
    Arrived carry s id env ∧ responseOutcome reg env = some outcome

theorem linear_fresh (w : World μ σ) : Linear reg srv carry w { world := w } where
  link := Duplex.inOrder_empty
  requests := rfl
  world := rfl
  computed := by simp
  responses := (by simp)
  holding := (by simp)
  settled := (by simp)

theorem afterTurns_append (w : World μ σ) (turns : List (Turn μ σ)) (turn : Turn μ σ) :
    afterTurns srv carry w (turns ++ [turn]) =
      afterTurn srv carry (afterTurns srv carry w turns) turn := by
  rw [afterTurns, List.foldl_append]
  rfl

/-- The last turn of these, or one before. -/
theorem turn_cases {turns before after : List (Turn μ σ)} {last turn : Turn μ σ}
    (h : turns ++ [last] = before ++ turn :: after) :
    turns = before ∧ last = turn ∨ ∃ after', turns = before ++ turn :: after' := by
  rcases List.eq_nil_or_concat after with rfl | ⟨after', last', rfl⟩
  · obtain ⟨hbefore, hlast⟩ := List.append_inj' h rfl
    cases hlast
    exact .inl ⟨hbefore, rfl⟩
  · rw [List.concat_eq_append, ← List.cons_append, ← List.append_assoc] at h
    exact .inr ⟨after', (List.append_inj' h rfl).1⟩

/-- A request that arrives as it was sent is answered once, or it is a one-way call. -/
theorem served_frames (hreg : srv.registry.Acyclic) {env : Envelope} (h : Survives carry env)
    (w : World μ σ) : (∃ r, frames (srv.serviceSession (carry env) w).trace = [r] ∧
        r.kind = KIND_RESPONSE ∧ r.requestId = env.requestId) ∨
      frames (srv.serviceSession (carry env) w).trace = [] ∧ env.oneway = true := by
  obtain ⟨e, hcarry, hkind, hid, honeway⟩ := h
  rw [hcarry]
  by_cases hcall : srv.OnewayCall e ∧ (w.ctx.objects.lookup e.objectId).isSome
  · exact .inr ⟨(hcall.1.silent srv hreg hcall.2).2, honeway ▸ hcall.1.oneway⟩
  · obtain ⟨-, r, hsent, hanswers⟩ := srv.serviceSession_answers hreg hcall
    exact .inl ⟨r, hsent, hanswers.1, hanswers.2.trans hid⟩

/-- More was put on the link. -/
theorem Arrived.mono {id : Key} {env : Envelope} (h : Arrived carry s id env)
    (hput : s.link.s2c.put ⊆ s'.link.s2c.put) : Arrived carry s' id env := by
  obtain ⟨r, hr, hcarry⟩ := h
  exact ⟨r, hput hr, hcarry⟩

/-- A step of the client that receives nothing. -/
theorem Linear.client {w : World μ σ} (h : Linear reg srv carry w s) {a : ClientAction}
    {client : Client} (hstep : Client.step reg s.client a = some client)
    (hnot : ∀ env, a ≠ .receive (some env)) :
    Linear reg srv carry w { s with client } := by
  refine ⟨h.link, h.requests, h.world, h.computed, h.responses, fun id env hw => ?_,
    fun id env outcome hmem => ?_⟩
  · rcases Client.delivering_cases hstep hw with hw | ⟨ha, -, -⟩
    · exact h.holding id env hw
    · exact (hnot env ha).elim
  · rcases Client.settled_cases hstep hmem with hmem | hno | ⟨e, o, heq, hworker, houtcome⟩
    · exact h.settled id env outcome hmem
    · exact (hno env outcome rfl).elim
    · cases heq
      exact ⟨h.holding id env hworker, houtcome⟩

/-- The client or the application puts a frame that is no response on the link. -/
theorem Linear.put {w : World μ σ} (h : Linear reg srv carry w s) {link : Duplex Envelope}
    (hlink : link.InOrder) (htaken : link.c2s.taken = s.link.c2s.taken)
    (hsub : s.link.s2c.put ⊆ link.s2c.put)
    (hputs : ∀ r ∈ link.s2c.put, r ∈ s.link.s2c.put ∨ r.kind ≠ KIND_RESPONSE)
    (oneway : List Key) : Linear reg srv carry w { s with link, oneway } := by
  refine ⟨hlink, h.requests.trans htaken.symm, h.world, h.computed, fun r hr hkind => ?_,
    fun id env hw => (h.holding id env hw).mono hsub,
    fun id env outcome hmem => ⟨((h.settled id env outcome hmem).1).mono hsub,
      (h.settled id env outcome hmem).2⟩⟩
  rcases hputs r hr with hr | hno
  · exact h.responses r hr hkind
  · exact (hno hkind).elim

/-- The server serves the next request. -/
theorem Linear.serve {w : World μ σ} (h : Linear reg srv carry w s) (hreg : srv.registry.Acyclic)
    {env : Envelope} {rest sent : List Envelope} (hqueue : s.link.c2s.queue = env :: rest)
    (hsurvives : Survives carry env)
    (hsent : sent = frames (srv.serviceSession (carry env) s.world).trace) :
    Linear reg srv carry w
      { s with
        link :=
          { c2s := { s.link.c2s with queue := rest, taken := s.link.c2s.taken ++ [env] }
            s2c := { s.link.s2c with
              queue := s.link.s2c.queue ++ sent
              put := s.link.s2c.put ++ sent } }
        world := (srv.serviceSession (carry env) s.world).state
        turns := s.turns ++ [.request env sent] } := by
  have hsub : s.link.s2c.put ⊆ s.link.s2c.put ++ sent := List.subset_append_left _ _
  refine ⟨⟨?_, ?_⟩, ?_, ?_, fun before req sent' after heq => ?_, fun r hr hkind => ?_,
    fun id e hw => (h.holding id e hw).mono hsub,
    fun id e outcome hmem => ⟨((h.settled id e outcome hmem).1).mono hsub,
      (h.settled id e outcome hmem).2⟩⟩
  · show s.link.c2s.put = s.link.c2s.taken ++ [env] ++ rest
    rw [h.link.c2s, hqueue, List.append_assoc]
    rfl
  · show s.link.s2c.put ++ sent = s.link.s2c.taken ++ (s.link.s2c.queue ++ sent)
    rw [h.link.s2c, List.append_assoc]
  · show (s.turns ++ [Turn.request env sent]).filterMap Turn.request? = s.link.c2s.taken ++ [env]
    rw [List.filterMap_append, h.requests]
    rfl
  · show (srv.serviceSession (carry env) s.world).state = _
    rw [afterTurns_append, ← h.world]
    rfl
  · rcases turn_cases heq with ⟨rfl, hlast⟩ | ⟨after', hturns⟩
    · cases hlast
      rw [← h.world]
      exact hsent
    · exact h.computed before req sent' after' hturns
  · rcases List.mem_append.1 hr with hr | hr
    · obtain ⟨req, hreq, hid⟩ := h.responses r hr hkind
      exact ⟨req, List.mem_append_left _ hreq, hid⟩
    · rcases served_frames hreg hsurvives s.world with ⟨r', hframes, -, hid⟩ | ⟨hnone, -⟩
      · rw [← hsent] at hframes
        rw [hframes] at hr ⊢
        obtain rfl := List.mem_singleton.1 hr
        exact ⟨env, List.mem_append_right _ (List.mem_singleton_self _), hid⟩
      · rw [hsent, hnone] at hr
        cases hr

/-- The state is changed from outside. -/
theorem Linear.outside {w : World μ σ} (h : Linear reg srv carry w s)
    (change : World μ σ → World μ σ) :
    Linear reg srv carry w
      { s with world := change s.world, turns := s.turns ++ [.outside change] } := by
  refine ⟨h.link, ?_, ?_, fun before req sent after heq => ?_, fun r hr hkind => ?_, h.holding,
    h.settled⟩
  · show (s.turns ++ [Turn.outside change]).filterMap Turn.request? = s.link.c2s.taken
    rw [List.filterMap_append, h.requests]
    exact List.append_nil _
  · rw [afterTurns_append, ← h.world]
    rfl
  · rcases turn_cases heq with ⟨-, hlast⟩ | ⟨after', hturns⟩
    · cases hlast
    · exact h.computed before req sent after' hturns
  · obtain ⟨req, hreq, hid⟩ := h.responses r hr hkind
    exact ⟨req, List.mem_append_left _ hreq, hid⟩

/-- The client's worker receives the next frame. -/
theorem Linear.receive {w : World μ σ} (h : Linear reg srv carry w s) {env : Envelope}
    {rest : List Envelope} {client : Client} (hqueue : s.link.s2c.queue = env :: rest)
    (hsurvives : Survives carry env)
    (hstep : Client.step reg s.client (.receive (carry env).toOption) = some client) :
    Linear reg srv carry w
      { s with
        client
        link := { s.link with
          s2c := { s.link.s2c with queue := rest, taken := s.link.s2c.taken ++ [env] } } } := by
  obtain ⟨e, hcarry, hkind, hid, -⟩ := hsurvives
  have hput : env ∈ s.link.s2c.put := by
    rw [h.link.s2c, hqueue]
    exact List.mem_append_right _ List.mem_cons_self
  refine ⟨⟨h.link.c2s, ?_⟩, h.requests, h.world, h.computed, h.responses, fun id env' hw => ?_,
    fun id env' outcome hmem => ?_⟩
  · show s.link.s2c.put = s.link.s2c.taken ++ [env] ++ rest
    rw [h.link.s2c, hqueue, List.append_assoc]
    rfl
  · rcases Client.delivering_cases hstep hw with hw | ⟨ha, hkind', hid'⟩
    · exact h.holding id env' hw
    · rw [hcarry] at ha
      cases ha
      exact ⟨env, hput, hcarry, hkind ▸ hkind', hid ▸ hid'⟩
  · rcases Client.settled_cases hstep hmem with hmem | hno | ⟨e', o, heq, hworker, houtcome⟩
    · exact h.settled id env' outcome hmem
    · exact (hno env' outcome rfl).elim
    · cases heq
      exact ⟨h.holding id env' hworker, houtcome⟩

/-- Everything that holds of a session in a run. -/
structure Sound (reg : Registry ν) (srv : Server μ σ) (carry : Envelope → Arrival)
    (w : World μ σ) (s : RemoteSession μ σ) : Prop where
  accounted : s.client.Accounted reg
  distinct : s.Distinct
  linear : Linear reg srv carry w s

theorem sound_fresh (w : World μ σ) : Sound reg srv carry w { world := w } where
  accounted := Client.accounted_connected
  distinct := distinct_fresh w
  linear := linear_fresh w

theorem Sound.step {w : World μ σ} (hreg : srv.registry.Acyclic) (h : Sound reg srv carry w s)
    {a : RemoteAction μ σ} (hsurvives : FrameSurvives carry s a)
    (hstep : step reg srv carry s a = some s') : Sound reg srv carry w s' := by
  cases steps_of_step hstep with
  | client a client hlocal hclient =>
    have haccounted := h.accounted.step hclient
    refine ⟨haccounted, h.distinct.client hlocal hclient haccounted.distinct,
      h.linear.client hclient ?_⟩
    rintro env rfl
    cases hlocal
  | send env client hkind honeway hclient =>
    have haccounted := h.accounted.step hclient
    have hlinear := h.linear.client hclient (by simp)
    have hlink := h.linear.link.step (a := .c2s (.put env)) rfl
    exact ⟨haccounted, h.distinct.send hclient haccounted.distinct rfl,
      hlinear.put hlink rfl (fun _ hr => hr) (fun _ hr => .inl hr) s.oneway⟩
  | sendOneway env honeway hfresh =>
    have hlink := h.linear.link.step (a := .c2s (.put env)) rfl
    exact ⟨h.accounted, h.distinct.sendOneway hfresh rfl,
      h.linear.put hlink rfl (fun _ hr => hr) (fun _ hr => .inl hr) _⟩
  | serve env rest sent hqueue hsent hok =>
    have henv : Survives carry env := hsurvives env (by rw [hqueue]; rfl)
    exact ⟨h.accounted,
      ⟨h.distinct.sent, h.distinct.known, h.distinct.sending, h.distinct.apart, h.distinct.fresh⟩,
      h.linear.serve hreg hqueue henv hsent⟩
  | outside change =>
    exact ⟨h.accounted,
      ⟨h.distinct.sent, h.distinct.known, h.distinct.sending, h.distinct.apart, h.distinct.fresh⟩,
      h.linear.outside change⟩
  | emit env hkind =>
    have hlink := h.linear.link.step (a := .s2c (.put env)) rfl
    refine ⟨h.accounted,
      ⟨h.distinct.sent, h.distinct.known, h.distinct.sending, h.distinct.apart, h.distinct.fresh⟩,
      h.linear.put hlink rfl (List.subset_append_left _ _) (fun r hr => ?_) s.oneway⟩
    rcases List.mem_append.1 hr with hr | hr
    · exact .inl hr
    · rw [List.mem_singleton.1 hr]
      exact .inr hkind
  | receive env rest client hqueue hclient =>
    have henv : Survives carry env := hsurvives env (by rw [hqueue]; rfl)
    have haccounted := h.accounted.step hclient
    have hdistinct : ({ s with client } : RemoteSession μ σ).Distinct := by
      cases Client.traffic_of_step hclient with
      | other hencoded hregistered hsending hfailed hpending hsend =>
        refine ⟨h.distinct.sent, ?_, ?_, ?_, haccounted.distinct⟩ <;>
          simp only [hencoded, hregistered, hsending]
        · exact h.distinct.known
        · exact h.distinct.sending
        · exact h.distinct.apart
    exact ⟨haccounted,
      ⟨hdistinct.sent, hdistinct.known, hdistinct.sending, hdistinct.apart, hdistinct.fresh⟩,
      h.linear.receive hqueue henv hclient⟩

/-! ## No request gets lost -/

/-- Where the requests are whose promises are in the table, and what became of those that were
served. -/
structure Awaited (s : RemoteSession μ σ) : Prop where
  waiting : ∀ id ∈ s.client.pending, id ∈ s.client.sending ∨
    (∃ what, (id, what) ∈ s.client.sendFailed) ∨
    ∃ req ∈ s.link.c2s.put, req.oneway = false ∧ req.requestId = id
  answered : ∀ req ∈ s.link.c2s.taken, req.oneway = false →
    ∃ r ∈ s.link.s2c.put, r.kind = KIND_RESPONSE ∧ r.requestId = req.requestId
  received : ∀ r ∈ s.link.s2c.taken, r.kind = KIND_RESPONSE → r.requestId ∉ s.client.pending

theorem awaited_fresh (w : World μ σ) : ({ world := w } : RemoteSession μ σ).Awaited where
  waiting := (by simp)
  answered := (by simp)
  received := (by simp)

/-- A response belongs to a request that was sent. -/
theorem Linear.sent {w : World μ σ} (h : Linear reg srv carry w s) {r : Envelope}
    (hr : r ∈ s.link.s2c.put) (hkind : r.kind = KIND_RESPONSE) :
    ∃ req ∈ s.link.c2s.put, r.requestId = req.requestId := by
  obtain ⟨req, hreq, hid⟩ := h.responses r hr hkind
  refine ⟨req, h.link.c2s.taken_prefix.subset ?_, hid⟩
  rw [← h.requests]
  exact List.mem_filterMap.2 ⟨_, hreq, rfl⟩

/-- The client goes on by itself. -/
theorem Awaited.client {w : World μ σ} (h : s.Awaited) (hsound : Sound reg srv carry w s)
    {a : ClientAction} {client : Client} (hlocal : a.Local s.oneway)
    (hstep : Client.step reg s.client a = some client) :
    ({ s with client } : RemoteSession μ σ).Awaited := by
  have hnodup := hsound.accounted.pending_nodup
  cases Client.traffic_of_step hstep with
  | call id hencoded hregistered heq =>
    subst heq
    exact ⟨h.waiting, h.answered, h.received⟩
  | register id hid hencoded hregistered hfailed hpending =>
    rcases hpending with ⟨hpending, hsending⟩ | ⟨hpending, hsending⟩
    · refine ⟨fun id' hid' => ?_, h.answered, fun r hr hkind hmem => ?_⟩
      · rw [hsending, hfailed]
        rw [hpending] at hid'
        rcases List.mem_cons.1 hid' with rfl | hid'
        · exact .inl List.mem_cons_self
        · exact (h.waiting id' hid').imp_left (List.mem_cons_of_mem _)
      · -- no response came before its request
        have hput := hsound.linear.link.s2c.taken_prefix.subset hr
        rw [hpending] at hmem
        rcases List.mem_cons.1 hmem with heq | hmem
        · obtain ⟨req, hreq, hid'⟩ := hsound.linear.sent hput hkind
          exact hsound.distinct.unsent hid req hreq (hid'.symm.trans heq)
        · exact h.received r hr hkind hmem
    · refine ⟨?_, h.answered, ?_⟩
      · simp only [hpending, hsending, hfailed]
        exact h.waiting
      · simp only [hpending]
        exact h.received
  | send id thrown hid hencoded hregistered hsending hpending hfailed =>
    cases thrown with
    | none => cases hlocal
    | some what =>
      refine ⟨fun id' hid' => ?_, h.answered, ?_⟩
      · rw [hsending, hfailed]
        rw [hpending] at hid'
        by_cases heq : id' = id
        · subst heq
          exact .inr (.inl ⟨what, List.mem_cons_self⟩)
        · rcases h.waiting id' hid' with hsend | ⟨what', hwhat⟩ | hput
          · exact .inl ((List.mem_erase_of_ne heq).2 hsend)
          · exact .inr (.inl ⟨what', List.mem_cons_of_mem _ hwhat⟩)
          · exact .inr (.inr hput)
      · simp only [hpending]
        exact h.received
  | sendError id hencoded hregistered hsending hfailed hpending =>
    refine ⟨fun id' hid' => ?_, h.answered, fun r hr hkind hmem => ?_⟩
    · rw [hsending, hfailed]
      rw [hpending] at hid'
      have hne : id' ≠ id := fun heq => hnodup.not_mem_erase (heq ▸ hid')
      rcases h.waiting id' (List.mem_of_mem_erase hid') with hsend | ⟨what, hwhat⟩ | hput
      · exact .inl hsend
      · exact .inr (.inl ⟨what, List.mem_filter.2 ⟨hwhat, decide_eq_true hne⟩⟩)
      · exact .inr (.inr hput)
    · rw [hpending] at hmem
      exact h.received r hr hkind (List.mem_of_mem_erase hmem)
  | other hencoded hregistered hsending hfailed hpending hsend =>
    refine ⟨fun id' hid' => ?_, h.answered, fun r hr hkind hmem =>
      h.received r hr hkind (hpending hmem)⟩
    rw [hsending, hfailed]
    exact h.waiting id' (hpending hid')

/-- A frame is put on the link by a thread of the client, whose step this is, or by the
application. -/
theorem Awaited.put (h : s.Awaited) (hpending : s'.client.pending = s.client.pending)
    (hfailed : s'.client.sendFailed = s.client.sendFailed)
    (hsending : ∀ id ∈ s.client.sending, id ∈ s'.client.sending ∨
      ∃ req ∈ s'.link.c2s.put, req.oneway = false ∧ req.requestId = id)
    (hc2s : s.link.c2s.put ⊆ s'.link.c2s.put) (hs2c : s.link.s2c.put ⊆ s'.link.s2c.put)
    (htaken : s'.link.c2s.taken = s.link.c2s.taken)
    (htaken' : s'.link.s2c.taken = s.link.s2c.taken) : s'.Awaited := by
  refine ⟨fun id hid => ?_, fun req hreq honeway => ?_, fun r hr hkind hmem => ?_⟩
  · rw [hpending] at hid
    rw [hfailed]
    rcases h.waiting id hid with hsend | hwhat | ⟨req, hreq, hid⟩
    · exact (hsending id hsend).imp_right .inr
    · exact .inr (.inl hwhat)
    · exact .inr (.inr ⟨req, hc2s hreq, hid⟩)
  · rw [htaken] at hreq
    obtain ⟨r, hr, hid⟩ := h.answered req hreq honeway
    exact ⟨r, hs2c hr, hid⟩
  · rw [htaken'] at hr
    rw [hpending] at hmem
    exact h.received r hr hkind hmem

theorem Awaited.step {w : World μ σ} (hreg : srv.registry.Acyclic)
    (hsound : Sound reg srv carry w s) (h : s.Awaited) {a : RemoteAction μ σ}
    (hsurvives : FrameSurvives carry s a) (hstep : RemoteSession.step reg srv carry s a = some s') :
    s'.Awaited := by
  cases steps_of_step hstep with
  | client a client hlocal hclient => exact h.client hsound hlocal hclient
  | send env client hkind honeway hclient =>
    cases Client.traffic_of_step hclient with
    | send id thrown hid hencoded hregistered hsending hpending hfailed =>
      refine h.put hpending hfailed (fun id hid => ?_) ?_ ?_ ?_ ?_
      · by_cases heq : id = env.requestId
        · exact .inr ⟨env, List.mem_append_right _ (List.mem_singleton_self _), honeway, heq.symm⟩
        · rw [hsending]
          exact .inl ((List.mem_erase_of_ne heq).2 hid)
      · exact List.subset_append_left _ _
      · exact fun _ hr => hr
      · rfl
      · rfl
    | other hencoded hregistered hsending hfailed hpending hsend => exact (hsend _ _ rfl).elim
  | sendOneway env honeway hfresh =>
    refine h.put ?_ ?_ (fun _ hid => .inl hid) ?_ (fun _ hr => hr) ?_ ?_
    · rfl
    · rfl
    · exact List.subset_append_left _ _
    · rfl
    · rfl
  | serve env rest sent hqueue hsent hok =>
    have henv : Survives carry env := hsurvives env (by rw [hqueue]; rfl)
    refine ⟨h.waiting, fun req hreq honeway => ?_, h.received⟩
    rcases List.mem_append.1 hreq with hreq | hreq
    · obtain ⟨r, hr, hid⟩ := h.answered req hreq honeway
      exact ⟨r, List.mem_append_left _ hr, hid⟩
    · obtain rfl := List.mem_singleton.1 hreq
      rcases served_frames hreg henv s.world with ⟨r, hframes, hid⟩ | ⟨-, htrue⟩
      · refine ⟨r, List.mem_append_right _ ?_, hid⟩
        rw [hsent, hframes]
        exact List.mem_singleton_self r
      · rw [honeway] at htrue
        cases htrue
  | outside change => exact ⟨h.waiting, h.answered, h.received⟩
  | emit env hkind =>
    refine h.put ?_ ?_ (fun _ hid => .inl hid) (fun _ hr => hr) ?_ ?_ ?_
    · rfl
    · rfl
    · exact List.subset_append_left _ _
    · rfl
    · rfl
  | receive env rest client hqueue hclient =>
    obtain ⟨e, hcarry, hkind, hid, -⟩ : Survives carry env := hsurvives env (by rw [hqueue]; rfl)
    rw [hcarry] at hclient
    have hnodup := hsound.accounted.pending_nodup
    cases Client.traffic_of_step hclient with
    | other hencoded hregistered hsending hfailed hpending hsend =>
      refine ⟨fun id hid => ?_, h.answered, fun r hr hkind' hmem => ?_⟩
      · rw [hsending, hfailed]
        exact h.waiting id (hpending hid)
      · rcases List.mem_append.1 hr with hr | hr
        · exact h.received r hr hkind' (hpending hmem)
        · obtain rfl := List.mem_singleton.1 hr
          exact Client.not_pending_of_receive hnodup (hkind.trans hkind') hclient (hid ▸ hmem)

/-- Both hold in every run in which the frames survive. -/
theorem sound_run (hreg : srv.registry.Acyclic) {w : World μ σ} {actions : List (RemoteAction μ σ)}
    (h : Machine.run (RemoteSession.step reg srv carry) { world := w } actions = some s)
    (hsurvive : Machine.Each (RemoteSession.step reg srv carry) (FrameSurvives carry)
      { world := w } actions) :
    Sound reg srv carry w s ∧ s.Awaited :=
  Machine.run_invariant_of_each (I := fun s => Sound reg srv carry w s ∧ s.Awaited)
    (fun _ _ _ hall hsurvives hstep =>
      ⟨hall.1.step hreg hsurvives hstep, hall.2.step hreg hall.1 hsurvives hstep⟩)
    ⟨sound_fresh w, awaited_fresh w⟩ hsurvive h

/-- The requests that were served are the first ones that were sent. -/
theorem Linear.served_prefix {w : World μ σ} (h : Linear reg srv carry w s) :
    s.turns.filterMap Turn.request? <+: s.link.c2s.put := by
  rw [h.requests]
  exact h.link.c2s.taken_prefix

/-- A response is what the server computed for the request that it answers. -/
theorem Linear.turn_of_response {w : World μ σ} (h : Linear reg srv carry w s) {r : Envelope}
    (hr : r ∈ s.link.s2c.put) (hkind : r.kind = KIND_RESPONSE) :
    ∃ before req after, s.turns = before ++ .request req [r] :: after ∧
      req.requestId = r.requestId ∧
      frames (srv.serviceSession (carry req) (afterTurns srv carry w before)).trace = [r] := by
  obtain ⟨req, hreq, hid⟩ := h.responses r hr hkind
  obtain ⟨before, after, hturns⟩ := List.append_of_mem hreq
  exact ⟨before, req, after, hturns, hid.symm, (h.computed before req [r] after hturns).symm⟩

/-- A promise was settled with what the server computed for its request. -/
theorem Linear.response_of_settled {w : World μ σ} (h : Linear reg srv carry w s) {id : Key}
    {env : Envelope} {outcome : Outcome}
    (hmem : (id, .response env outcome) ∈ s.client.settled) :
    ∃ before req r after, s.turns = before ++ .request req [r] :: after ∧ req.requestId = id ∧
      frames (srv.serviceSession (carry req) (afterTurns srv carry w before)).trace = [r] ∧
      carry r = .ok env ∧ responseOutcome reg env = some outcome := by
  obtain ⟨⟨r, hr, hcarry, hkind, hid⟩, houtcome⟩ := h.settled id env outcome hmem
  obtain ⟨before, req, after, hturns, hid', hframes⟩ := h.turn_of_response hr hkind
  exact ⟨before, req, r, after, hturns, hid'.trans hid, hframes, hcarry, houtcome⟩

/-- Where the requests are whose promises are not settled. -/
theorem Sound.whereabouts {w : World μ σ} (hsound : Sound reg srv carry w s) (hawaited : s.Awaited)
    {id : Key} (hid : id ∈ s.client.registered) :
    (∃ how, (id, how) ∈ s.client.settled) ∨
      (id ∈ s.client.sending ∨ (∃ what, (id, what) ∈ s.client.sendFailed) ∨
        id ∈ s.client.worker.held ∨ id ∈ s.client.failing) ∨
      (∃ req ∈ s.link.c2s.queue, req.oneway = false ∧ req.requestId = id) ∨
      ∃ r ∈ s.link.s2c.queue, r.kind = KIND_RESPONSE ∧ r.requestId = id := by
  obtain ⟨haccounted, -, hlinear⟩ := hsound
  have hplaces := (haccounted.places.mem_iff (a := id)).2 hid
  rw [Client.places, List.mem_append, List.mem_append, List.mem_append] at hplaces
  rcases hplaces with hpending | hheld | hfailing | hsettled
  · rcases hawaited.waiting id hpending with hsend | hwhat | ⟨req, hreq, honeway, hreqId⟩
    · exact .inr (.inl (.inl hsend))
    · exact .inr (.inl (.inr (.inl hwhat)))
    · -- the request is in the queue, or its response is
      rw [hlinear.link.c2s] at hreq
      rcases List.mem_append.1 hreq with htaken | hqueue
      · obtain ⟨r, hr, hkind, hresponse⟩ := hawaited.answered req htaken honeway
        rw [hlinear.link.s2c] at hr
        rcases List.mem_append.1 hr with hr | hr
        · refine (hawaited.received r hr hkind ?_).elim
          rwa [hresponse, hreqId]
        · exact .inr (.inr (.inr ⟨r, hr, hkind, hresponse.trans hreqId⟩))
      · exact .inr (.inr (.inl ⟨req, hqueue, honeway, hreqId⟩))
  · exact .inr (.inl (.inr (.inr (.inl hheld))))
  · exact .inr (.inl (.inr (.inr (.inr hfailing))))
  · obtain ⟨⟨id', how⟩, hmem, rfl⟩ := List.mem_map.1 hsettled
    exact .inl ⟨how, hmem⟩

end RemoteSession

def onewayClear : Envelope :=
  { kind := KIND_REQUEST, op := OP_CLEAR, requestId := 8, objectId := 1, oneway := true }

def objectGet : Envelope := { kind := KIND_REQUEST, op := OP_GET, requestId := 7, objectId := 1 }

/-- The two requests are sent and served. -/
def twoServed : List (RemoteAction Unit Unit) :=
  [.client (.call 7), .client (.register 7), .sendOneway onewayClear, .client .test,
    .send objectGet, .serve, .serve]

/-- The client finds no promise for the response to the `clear`, and sets that of the `get`. -/
def twoReceived : List (RemoteAction Unit Unit) :=
  [.receive, .client .test, .receive, .client .deliver]

end Bison
