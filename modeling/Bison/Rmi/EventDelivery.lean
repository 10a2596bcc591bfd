import Bison.Lib.Lane
import Bison.Rmi.BridgeEvents
import Bison.Rmi.RemoteCalls

/-!
# The delivery of events

An event goes from `emit_event` of a session to the handler that is registered for it at the client
(server.cpp:333, client.cpp:252-385). It shares its connection with the responses. The worker of
the client looks its handler up and queues a task for it, and the event thread runs one task after
the other; other threads register handlers and take them out meanwhile.

- `readEventFrame`: what `process_frame` reads of an event frame.
- `EventStream.step`: one step of a thread.
- `events_delivered`: **main result**, the events arrive in the order in which they were emitted,
  each with a handler is handed to it once, in this order, and a handler gets all events of its
  name from its registration on, for as long as it is in the table.
-/

namespace Bison

open SortedMap

variable {ν : Type}

/-- An event whose parameters were encoded and decoded. -/
def Event.crossed (e : Event) : Event :=
  { e with params := withNamespace (completeEntries e.params) }

/-- What `process_frame` reads of an event frame (client.cpp:349). -/
def readEventFrame (reg : Registry ν) (env : Envelope) : Except Exn Event := do
  let (name, payload) ← asKey FIELD_NAME env.payload
  let (paramsField, _) ← subscript reg FIELD_PARAMS payload
  let params := match paramsField with
    | .object fields => fields
    | _ => Dynamic.empty
  return ⟨env.objectId, name, params⟩

/-- The event that `worker_loop` gets out of a frame. It drops a frame that `decode` or
`process_frame` throws at. -/
def arrivingEvent (reg : Registry ν) : Arrival → Option Event
  | .ok env => if env.kind = KIND_EVENT then (readEventFrame reg env).toOption else none
  | .error _ => none

/-- What is read of a frame that has crossed the wire. -/
theorem arrivingEvent_crossed (reg : Registry ν) (e : Event) :
    arrivingEvent reg (.ok (eventEnvelope e).crossed) = some e.crossed := rfl

theorem eventEnvelope_payload (e : Event) : (eventEnvelope e).payload =
    [(FIELD_PARAMS, .object e.params), (FIELD_NAME, .key e.name), (CLASS, .key 0),
      (NAMESPACE, .key 0)] := rfl

theorem eventEnvelope_sorted (e : Event) : Sorted (eventEnvelope e).payload :=
  (((sorted_singleton CLASS (Value.key 0)).insert _ _).insert _ _).insert _ _

/-- An event whose parameters are a tree that can be written and read crosses the wire. -/
theorem wire_event {lim : Limits} {reg : Registry ν} {errorProto envelopeProto : Prototype ν}
    (hs : reg.HasSchemas errorProto envelopeProto) (hfac : reg.FactoriesAddNothing)
    (hnone : ∃ d, findField reg FIELD_ERROR_CODE Dynamic.empty = .ok (none, d)) (e : Event)
    (hfits : (Value.object e.params).Fits lim) (hkeyed : (Value.object e.params).Keyed)
    (hlen : (Dynamic.serialize (eventEnvelope e).payload).length ≤ lim.maxBytes) :
    RemoteSession.wire lim reg (eventEnvelope e) = .ok (eventEnvelope e).crossed := by
  obtain ⟨d, hfind⟩ := hnone
  have hentries : entriesFit lim (eventEnvelope e).payload := by
    rw [eventEnvelope_payload]
    exact ⟨hfits, trivial, trivial, trivial, trivial⟩
  have hheader : HeaderKeyed (eventEnvelope e).payload := ⟨rfl, .inr rfl⟩
  have hkeys : entriesKeyed (eventEnvelope e).payload := by
    rw [eventEnvelope_payload]
    exact ⟨hkeyed, trivial, trivial, trivial, trivial⟩
  have hback : bufferDeserialize lim reg (Dynamic.serialize (eventEnvelope e).payload ++ []) =
      .ok (completeEntries (eventEnvelope e).payload, []) := by
    show Dynamic.deserialize (bufferReader lim) reg _
      (Dynamic.serialize (eventEnvelope e).payload ++ []) = _
    have hloop := entries_deserialize_reads reg _ Dynamic.empty
      ((Dynamic.serialize (eventEnvelope e).payload ++ []).length + 1) hentries (by
        simp only [Dynamic.serialize, List.length_append]
        omega)
    have hread := deserializeWith_reads (eventEnvelope_sorted e) hloop []
    rw [reviveEntries_eq_complete hfac _ _ hentries hkeys,
      insertAll_empty (completeEntries_sorted (eventEnvelope_sorted e))
        (completeEntries_headerKeyed hheader).1] at hread
    exact hread
  rw [List.append_nil] at hback
  have hvectors : VectorsFit lim (Dynamic.serialize (eventEnvelope e).payload) none :=
    ⟨hlen, by simp⟩
  have hbody : encodePayload reg (eventEnvelope e).withSchema (eventEnvelope e).payload =
      .ok (Dynamic.serialize (eventEnvelope e).payload, (eventEnvelope e).payload) := rfl
  have herror : encodeError reg (eventEnvelope e).error = .ok none := encodeError_none hfind
  obtain ⟨frame, hencode, hdecode, -⟩ :=
    roundTrip_of_vectors hs hvectors hbody hback herror rfl
  simp only [RemoteSession.wire, hencode, hdecode]
  rfl

/-! ## The stream of events -/

/-- What is in `event_queue_`: an event and the handler that was found for it, by the number of its
registration. -/
structure EventTask where
  event : Event
  handler : Nat

/-- A handler in `event_handlers_`, and how many events had been received when it came there. -/
structure HandlerEntry where
  number : Nat
  since : Nat

/-- The events of a session. -/
structure EventStream where
  /-- The connection, from the server to the client. -/
  lane : Lane Envelope := {}
  handlers : Key → Key → Option HandlerEntry := fun _ _ => none
  /-- `process_frame` has found the handler, and not yet queued the task. -/
  copied : Option EventTask := none
  eventQueue : List EventTask := []
  /-- What `event_loop` has taken. -/
  task : Option EventTask := none
  running : Bool := true
  /-- `event_loop` has not returned. -/
  looping : Bool := true
  emitted : List Event := []
  /-- The objects and names of all registrations, in order. -/
  registrations : List (Key × Key) := []
  received : List Event := []
  /-- The events that had a handler, with it. -/
  delivered : List EventTask := []
  called : List EventTask := []

inductive StreamAction where
  | emit (e : Event)
  /-- The server sends another frame. -/
  | respond (env : Envelope)
  | register (object name : Key)
  | unregister (object : Key)
  /-- The worker receives a frame; where it is an event, its handler is looked up. -/
  | receive
  /-- The worker queues the task. -/
  | queue
  /-- `event_loop` takes a task. -/
  | take
  /-- The handler returns or throws. -/
  | call
  | stop
  /-- `event_loop` sees that `running_` is false and the queue is empty. -/
  | exit

namespace EventStream

/-- The lookup in `process_frame`. -/
def copy (s : EventStream) (e : Event) : EventStream :=
  match s.handlers e.objectId e.name with
  | some entry =>
    { s with
      copied := some ⟨e, entry.number⟩
      delivered := s.delivered ++ [⟨e, entry.number⟩] }
  | none => s

/-- One step. `carry` is what a frame is when it arrives. -/
def step (reg : Registry ν) (carry : Envelope → Arrival) (s : EventStream) :
    StreamAction → Option EventStream
  | .emit e =>
    (s.lane.step (.put (eventEnvelope e))).map fun lane =>
      { s with lane, emitted := s.emitted ++ [e] }
  | .respond env => (s.lane.step (.put env)).map fun lane => { s with lane }
  | .register object name =>
    some { s with
      handlers := Function.update s.handlers object
        (Function.update (s.handlers object) name
          (some ⟨s.registrations.length, s.received.length⟩))
      registrations := s.registrations ++ [(object, name)] }
  | .unregister object =>
    some { s with handlers := Function.update s.handlers object fun _ => none }
  | .receive =>
    match s.copied, s.lane.queue with
    | none, env :: _ =>
      (s.lane.step .take).map fun lane =>
        match arrivingEvent reg (carry env) with
        | some e => copy { s with lane, received := s.received ++ [e] } e
        | none => { s with lane }
    | _, _ => none
  | .queue =>
    match s.copied with
    | some t => some { s with copied := none, eventQueue := s.eventQueue ++ [t] }
    | none => none
  | .take =>
    match s.task, s.eventQueue with
    | none, t :: rest =>
      if s.looping then some { s with eventQueue := rest, task := some t } else none
    | _, _ => none
  | .call =>
    match s.task with
    | some t => some { s with task := none, called := s.called ++ [t] }
    | none => none
  | .stop => some { s with running := false }
  | .exit =>
    if s.running = false ∧ s.task = none ∧ s.eventQueue = [] then some { s with looping := false }
    else none

/-- The frame is the event when it arrives, or no event if it was none. -/
def Kept (reg : Registry ν) (carry : Envelope → Arrival) : StreamAction → Prop
  | .emit e => arrivingEvent reg (carry (eventEnvelope e)) = some e.crossed
  | .respond env => arrivingEvent reg (carry env) = none
  | _ => True

/-- The tasks, from the oldest to the newest. -/
def tasks (s : EventStream) : List EventTask :=
  s.called ++ s.task.toList ++ s.eventQueue ++ s.copied.toList

/-- The events for an object and a name. -/
def eventsFor (object name : Key) (events : List Event) : List Event :=
  events.filter fun e => e.objectId = object ∧ e.name = name

/-- The events that were handed to a handler. -/
def handedTo (number : Nat) (tasks : List EventTask) : List Event :=
  (tasks.filter fun t => t.handler = number).map EventTask.event

variable {reg : Registry ν} {carry : Envelope → Arrival} {s s' : EventStream}

/-! ## What a step does -/

/-- The steps: a frame is put or taken, the table changes, or the tasks move on. -/
inductive Steps (reg : Registry ν) (carry : Envelope → Arrival) (s : EventStream) :
    StreamAction → EventStream → Prop where
  | emit (e : Event) :
      Steps reg carry s (.emit e)
        { s with
          lane := { s.lane with
            queue := s.lane.queue ++ [eventEnvelope e]
            put := s.lane.put ++ [eventEnvelope e] }
          emitted := s.emitted ++ [e] }
  | respond (env : Envelope) :
      Steps reg carry s (.respond env)
        { s with
          lane := { s.lane with queue := s.lane.queue ++ [env], put := s.lane.put ++ [env] } }
  | register (object name : Key) :
      Steps reg carry s (.register object name)
        { s with
          handlers := Function.update s.handlers object
            (Function.update (s.handlers object) name
              (some ⟨s.registrations.length, s.received.length⟩))
          registrations := s.registrations ++ [(object, name)] }
  | unregister (object : Key) :
      Steps reg carry s (.unregister object)
        { s with handlers := Function.update s.handlers object fun _ => none }
  | skip (env : Envelope) (rest : List Envelope) (hqueue : s.lane.queue = env :: rest)
      (harrives : arrivingEvent reg (carry env) = none) :
      Steps reg carry s .receive
        { s with lane := { s.lane with queue := rest, taken := s.lane.taken ++ [env] } }
  | receive (env : Envelope) (rest : List Envelope) (e : Event) (hcopied : s.copied = none)
      (hqueue : s.lane.queue = env :: rest)
      (harrives : arrivingEvent reg (carry env) = some e) :
      Steps reg carry s .receive
        (copy { s with
          lane := { s.lane with queue := rest, taken := s.lane.taken ++ [env] }
          received := s.received ++ [e] } e)
  | move (a : StreamAction) (s' : EventStream) (hlane : s'.lane = s.lane)
      (hhandlers : s'.handlers = s.handlers) (hemitted : s'.emitted = s.emitted)
      (hregistrations : s'.registrations = s.registrations)
      (hreceived : s'.received = s.received) (hdelivered : s'.delivered = s.delivered)
      (htasks : s'.tasks = s.tasks) : Steps reg carry s a s'

theorem steps_of_step {a : StreamAction} (h : step reg carry s a = some s') :
    Steps reg carry s a s' := by
  cases a with
  | emit e =>
    cases h
    exact .emit e
  | respond env =>
    cases h
    exact .respond env
  | register object name =>
    cases h
    exact .register object name
  | unregister object =>
    cases h
    exact .unregister object
  | receive =>
    simp only [step] at h
    split at h
    · next env rest hcopied hqueue =>
      rw [Lane.step_take hqueue, Option.map_some] at h
      cases harrives : arrivingEvent reg (carry env) with
      | none =>
        rw [harrives] at h
        cases h
        exact .skip env rest hqueue harrives
      | some e =>
        rw [harrives] at h
        cases h
        exact .receive env rest e hcopied hqueue harrives
    · cases h
  | queue =>
    simp only [step] at h
    split at h
    · next t hcopied =>
      cases h
      refine .move _ _ rfl rfl rfl rfl rfl rfl ?_
      simp only [tasks, hcopied, Option.toList_none, Option.toList_some, List.append_nil,
        List.append_assoc]
    · cases h
  | take =>
    simp only [step] at h
    split at h
    · next t rest htask hqueue =>
      split_ifs at h
      cases h
      refine .move _ _ rfl rfl rfl rfl rfl rfl ?_
      simp only [tasks, htask, hqueue, Option.toList_none, Option.toList_some, List.append_nil,
        List.append_assoc, List.cons_append, List.nil_append]
    · cases h
  | call =>
    simp only [step] at h
    split at h
    · next t htask =>
      cases h
      refine .move _ _ rfl rfl rfl rfl rfl rfl ?_
      simp only [tasks, htask, Option.toList_none, Option.toList_some, List.append_nil]
    · cases h
  | stop =>
    cases h
    exact .move _ _ rfl rfl rfl rfl rfl rfl rfl
  | exit =>
    simp only [step] at h
    split_ifs at h
    cases h
    exact .move _ _ rfl rfl rfl rfl rfl rfl rfl

/-! ## The events arrive in order -/

/-- What is received are the events among the frames taken, and what is emitted those among the
frames put. -/
structure Arrives (reg : Registry ν) (carry : Envelope → Arrival) (s : EventStream) : Prop where
  lane : s.lane.InOrder
  emitted : s.lane.put.filterMap (fun env => arrivingEvent reg (carry env)) =
    s.emitted.map Event.crossed
  received : s.received = s.lane.taken.filterMap fun env => arrivingEvent reg (carry env)

theorem arrives_empty : Arrives reg carry ({} : EventStream) where
  lane := Lane.inOrder_empty
  emitted := rfl
  received := rfl

@[simp] theorem copy_lane (s : EventStream) (e : Event) : (s.copy e).lane = s.lane := by
  unfold copy
  split <;> rfl

@[simp] theorem copy_emitted (s : EventStream) (e : Event) : (s.copy e).emitted = s.emitted := by
  unfold copy
  split <;> rfl

@[simp] theorem copy_received (s : EventStream) (e : Event) :
    (s.copy e).received = s.received := by
  unfold copy
  split <;> rfl

theorem Arrives.put (h : s.Arrives reg carry) (env : Envelope) (emitted : List Event)
    (hemitted : (arrivingEvent reg (carry env)).toList = emitted.map Event.crossed) :
    Arrives reg carry { s with
      lane := { s.lane with queue := s.lane.queue ++ [env], put := s.lane.put ++ [env] }
      emitted := s.emitted ++ emitted } where
  lane := h.lane.step (Lane.step_put s.lane env)
  emitted := by
    show (s.lane.put ++ [env]).filterMap _ = (s.emitted ++ emitted).map Event.crossed
    rw [List.filterMap_append, h.emitted, List.map_append, ← hemitted]
    cases harrives : arrivingEvent reg (carry env) <;> simp [harrives]
  received := h.received

theorem Arrives.step (h : s.Arrives reg carry) {a : StreamAction} (hkept : Kept reg carry a)
    (hstep : EventStream.step reg carry s a = some s') : s'.Arrives reg carry := by
  cases steps_of_step hstep with
  | emit e =>
    refine h.put (eventEnvelope e) [e] ?_
    rw [show arrivingEvent reg (carry (eventEnvelope e)) = some e.crossed from hkept]
    rfl
  | respond env =>
    have hput := h.put env [] (by
      rw [show arrivingEvent reg (carry env) = none from hkept]
      rfl)
    rwa [List.append_nil] at hput
  | register object name => exact ⟨h.lane, h.emitted, h.received⟩
  | unregister object => exact ⟨h.lane, h.emitted, h.received⟩
  | skip env rest hqueue harrives =>
    refine ⟨h.lane.step (Lane.step_take hqueue), h.emitted, ?_⟩
    show s.received = (s.lane.taken ++ [env]).filterMap _
    rw [List.filterMap_append, ← h.received, List.filterMap_cons, harrives]
    exact (List.append_nil _).symm
  | receive env rest e hcopied hqueue harrives =>
    constructor
    · rw [copy_lane]
      exact h.lane.step (Lane.step_take hqueue)
    · rw [copy_lane, copy_emitted]
      exact h.emitted
    · rw [copy_received, copy_lane]
      show s.received ++ [e] = (s.lane.taken ++ [env]).filterMap _
      rw [List.filterMap_append, ← h.received, List.filterMap_cons, harrives]
      rfl
  | move _ _ hlane hhandlers hemitted hregistrations hreceived hdelivered htasks =>
    refine ⟨?_, ?_, ?_⟩
    · rw [hlane]
      exact h.lane
    · rw [hlane, hemitted]
      exact h.emitted
    · rw [hreceived, hlane]
      exact h.received

/-! ## Each is handed to its handler -/

/-- The tasks are the events that had a handler, and each handler in the table got all events of its
name since it came there. -/
structure Handed (s : EventStream) : Prop where
  tasks : s.tasks = s.delivered
  events : (s.delivered.map EventTask.event).Sublist s.received
  named : ∀ t ∈ s.delivered,
    s.registrations[t.handler]? = some (t.event.objectId, t.event.name)
  listed : ∀ object name entry, s.handlers object name = some entry →
    s.registrations[entry.number]? = some (object, name) ∧ entry.since ≤ s.received.length
  all : ∀ object name entry, s.handlers object name = some entry →
    handedTo entry.number s.delivered = eventsFor object name (s.received.drop entry.since)

theorem handed_empty : Handed {} where
  tasks := rfl
  events := .slnil
  named := nofun
  listed := nofun
  all := nofun

theorem eventsFor_append (object name : Key) (events events' : List Event) :
    eventsFor object name (events ++ events') =
      eventsFor object name events ++ eventsFor object name events' :=
  List.filter_append _ _

theorem handedTo_append (number : Nat) (tasks tasks' : List EventTask) :
    handedTo number (tasks ++ tasks') = handedTo number tasks ++ handedTo number tasks' := by
  rw [handedTo, List.filter_append, List.map_append]
  rfl

/-- A handler that was not registered has got nothing. -/
theorem Handed.handedTo_new (h : s.Handed) {number : Nat}
    (hnumber : s.registrations.length ≤ number) : handedTo number s.delivered = [] := by
  rw [handedTo, List.map_eq_nil_iff, List.filter_eq_nil_iff]
  intro t ht heq
  obtain ⟨hlt, -⟩ := List.getElem?_eq_some_iff.1 (h.named t ht)
  have : t.handler = number := of_decide_eq_true heq
  omega

theorem Handed.register (h : s.Handed) (object name : Key) : Handed { s with
    handlers := Function.update s.handlers object
      (Function.update (s.handlers object) name
        (some ⟨s.registrations.length, s.received.length⟩))
    registrations := s.registrations ++ [(object, name)] } := by
  have hkeep : ∀ {number : Nat} {pair : Key × Key}, s.registrations[number]? = some pair →
      (s.registrations ++ [(object, name)])[number]? = some pair := by
    intro number pair hpair
    obtain ⟨hlt, -⟩ := List.getElem?_eq_some_iff.1 hpair
    rwa [List.getElem?_append_left hlt]
  -- what the table holds afterwards: the new entry, or an old one
  have hentry : ∀ object' name' entry,
      Function.update s.handlers object (Function.update (s.handlers object) name
        (some ⟨s.registrations.length, s.received.length⟩)) object' name' = some entry →
      (object' = object ∧ name' = name ∧
        entry = ⟨s.registrations.length, s.received.length⟩) ∨
      s.handlers object' name' = some entry := by
    intro object' name' entry hsome
    by_cases hobject : object' = object
    · subst hobject
      rw [Function.update_self] at hsome
      by_cases hname : name' = name
      · subst hname
        rw [Function.update_self] at hsome
        exact .inl ⟨rfl, rfl, (Option.some.inj hsome).symm⟩
      · rw [Function.update_of_ne hname] at hsome
        exact .inr hsome
    · rw [Function.update_of_ne hobject] at hsome
      exact .inr hsome
  constructor
  · exact h.tasks
  · exact h.events
  · exact fun t ht => hkeep (h.named t ht)
  · intro object' name' entry hsome
    rcases hentry object' name' entry hsome with ⟨rfl, rfl, rfl⟩ | hold
    · exact ⟨List.getElem?_concat_length, Nat.le_refl _⟩
    · exact ⟨hkeep (h.listed object' name' entry hold).1, (h.listed object' name' entry hold).2⟩
  · intro object' name' entry hsome
    rcases hentry object' name' entry hsome with ⟨rfl, rfl, rfl⟩ | hold
    · show handedTo s.registrations.length s.delivered =
        eventsFor _ _ (s.received.drop s.received.length)
      rw [h.handedTo_new (Nat.le_refl _), List.drop_length]
      rfl
    · exact h.all object' name' entry hold

theorem Handed.unregister (h : s.Handed) (object : Key) :
    Handed { s with handlers := Function.update s.handlers object fun _ => none } := by
  have hentry : ∀ object' name' entry,
      Function.update s.handlers object (fun _ => none) object' name' = some entry →
      s.handlers object' name' = some entry := by
    intro object' name' entry hsome
    by_cases hobject : object' = object
    · subst hobject
      rw [Function.update_self] at hsome
      cases hsome
    · rwa [Function.update_of_ne hobject] at hsome
  constructor
  · exact h.tasks
  · exact h.events
  · exact h.named
  · exact fun object' name' entry hsome => h.listed object' name' entry (hentry _ _ _ hsome)
  · exact fun object' name' entry hsome => h.all object' name' entry (hentry _ _ _ hsome)

/-- An event comes for which there is no handler. -/
theorem Handed.miss (h : s.Handed) (lane : Lane Envelope) {e : Event}
    (hnone : s.handlers e.objectId e.name = none) :
    Handed { s with lane, received := s.received ++ [e] } := by
  constructor
  · exact h.tasks
  · exact h.events.trans (List.sublist_append_left _ _)
  · exact h.named
  · intro object name entry hsome
    obtain ⟨hpair, hsince⟩ := h.listed object name entry hsome
    refine ⟨hpair, hsince.trans ?_⟩
    rw [List.length_append]
    exact Nat.le_add_right _ _
  · intro object name entry hsome
    have hother : ¬ (e.objectId = object ∧ e.name = name) := by
      rintro ⟨rfl, rfl⟩
      rw [hnone] at hsome
      cases hsome
    show handedTo entry.number s.delivered =
      eventsFor object name ((s.received ++ [e]).drop entry.since)
    rw [List.drop_append_of_le_length (h.listed object name entry hsome).2, eventsFor_append,
      h.all object name entry hsome, eventsFor, eventsFor, List.filter_singleton,
      decide_eq_false hother]
    exact (List.append_nil _).symm

/-- An event comes, and its handler is in the table. -/
theorem Handed.hit (h : s.Handed) (lane : Lane Envelope) {e : Event} {entry : HandlerEntry}
    (hcopied : s.copied = none) (hsome : s.handlers e.objectId e.name = some entry) :
    Handed { s with
      lane
      received := s.received ++ [e]
      copied := some ⟨e, entry.number⟩
      delivered := s.delivered ++ [⟨e, entry.number⟩] } := by
  obtain ⟨hpair, -⟩ := h.listed e.objectId e.name entry hsome
  constructor
  · show s.called ++ s.task.toList ++ s.eventQueue ++ [_] = s.delivered ++ [_]
    have htasks := h.tasks
    rw [EventStream.tasks, hcopied, Option.toList_none, List.append_nil] at htasks
    rw [htasks]
  · show ((s.delivered ++ [_]).map EventTask.event).Sublist (s.received ++ [e])
    rw [List.map_append]
    exact h.events.append (List.Sublist.refl [e])
  · intro t ht
    rcases List.mem_append.1 ht with ht | ht
    · exact h.named t ht
    · obtain rfl := List.mem_singleton.1 ht
      exact hpair
  · intro object name entry' hsome'
    obtain ⟨hpair', hsince⟩ := h.listed object name entry' hsome'
    refine ⟨hpair', hsince.trans ?_⟩
    rw [List.length_append]
    exact Nat.le_add_right _ _
  · intro object name entry' hsome'
    obtain ⟨hpair', hsince⟩ := h.listed object name entry' hsome'
    show handedTo entry'.number (s.delivered ++ [⟨e, entry.number⟩]) =
      eventsFor object name ((s.received ++ [e]).drop entry'.since)
    rw [List.drop_append_of_le_length hsince, eventsFor_append, handedTo_append,
      h.all object name entry' hsome']
    congr 1
    by_cases hfor : e.objectId = object ∧ e.name = name
    · obtain ⟨rfl, rfl⟩ := hfor
      obtain rfl := Option.some.inj (hsome.symm.trans hsome')
      rw [handedTo, eventsFor, List.filter_singleton, List.filter_singleton,
        decide_eq_true rfl, decide_eq_true ⟨rfl, rfl⟩]
      rfl
    · -- a number belongs to one object and one name
      have hnumber : entry.number ≠ entry'.number := by
        intro heq
        rw [heq, hpair'] at hpair
        cases hpair
        exact hfor ⟨rfl, rfl⟩
      rw [handedTo, eventsFor, List.filter_singleton, List.filter_singleton,
        decide_eq_false hfor, decide_eq_false hnumber]
      rfl

theorem Handed.step (h : s.Handed) {a : StreamAction}
    (hstep : EventStream.step reg carry s a = some s') : s'.Handed := by
  cases steps_of_step hstep with
  | emit e => exact ⟨h.tasks, h.events, h.named, h.listed, h.all⟩
  | respond env => exact ⟨h.tasks, h.events, h.named, h.listed, h.all⟩
  | register object name => exact h.register object name
  | unregister object => exact h.unregister object
  | skip env rest hqueue harrives => exact ⟨h.tasks, h.events, h.named, h.listed, h.all⟩
  | receive env rest e hcopied hqueue harrives =>
    unfold copy
    split
    · next entry hsome => exact h.hit _ hcopied hsome
    · next hnone => exact h.miss _ hnone
  | move _ _ hlane hhandlers hemitted hregistrations hreceived hdelivered htasks =>
    constructor
    · rw [htasks, hdelivered]
      exact h.tasks
    · rw [hdelivered, hreceived]
      exact h.events
    · rw [hdelivered, hregistrations]
      exact h.named
    · rw [hhandlers, hregistrations, hreceived]
      exact h.listed
    · rw [hhandlers, hdelivered, hreceived]
      exact h.all

end EventStream

open EventStream in
/-- **Main result.** After any interleaving of the threads, if the frames survive the connection:
the events received are the first ones emitted, in this order, and all of them as soon as no frame
is on its way; the events that had a handler are handed out in the order of the connection, each
once, and only to a handler that was registered for its object and its name; and a handler in the
table has got, of what came since its registration, all that is for it. -/
theorem events_delivered (reg : Registry ν) (carry : Envelope → Arrival)
    (actions : List StreamAction) {s : EventStream}
    (h : Machine.run (step reg carry) {} actions = some s)
    (hkept : ∀ a ∈ actions, EventStream.Kept reg carry a) :
    s.received <+: s.emitted.map Event.crossed ∧
      (s.lane.queue = [] → s.received = s.emitted.map Event.crossed) ∧
      s.called ++ s.task.toList ++ s.eventQueue ++ s.copied.toList = s.delivered ∧
      (s.delivered.map EventTask.event).Sublist s.received ∧
      (∀ t ∈ s.delivered,
        s.registrations[t.handler]? = some (t.event.objectId, t.event.name)) ∧
      ∀ object name entry, s.handlers object name = some entry →
        handedTo entry.number s.delivered =
          eventsFor object name (s.received.drop entry.since) := by
  have harrives : s.Arrives reg carry :=
    Machine.run_invariant_of_each (fun _ _ _ harrives hkept hstep => harrives.step hkept hstep)
      arrives_empty (Machine.each_of_forall hkept) h
  have hhanded : s.Handed :=
    Machine.run_invariant (fun _ _ _ hhanded hstep => hhanded.step hstep) handed_empty h
  refine ⟨?_, fun hqueue => ?_, hhanded.tasks, hhanded.events, hhanded.named, hhanded.all⟩
  · rw [harrives.received, ← harrives.emitted]
    exact harrives.lane.taken_prefix.filterMap _
  · have hput := harrives.lane
    rw [Lane.InOrder, hqueue, List.append_nil] at hput
    rw [harrives.received, ← harrives.emitted, hput]

/-! ## Two handlers -/

namespace SampleFrames

theorem factoriesAddNothing : registry.FactoriesAddNothing := by
  intro ns col klass p made hcol hp hmade
  obtain ⟨rfl, rfl⟩ := Prod.mk.inj (List.mem_singleton.1 (mem_of_lookup hcol))
  have hp := mem_of_lookup hp
  simp only [List.mem_cons, Prod.mk.injEq, List.not_mem_nil, or_false] at hp
  rcases hp with ⟨rfl, rfl⟩ | ⟨rfl, rfl⟩ <;> cases hmade

/-- What crosses the connection of this registry. -/
def carry : Envelope → Arrival := RemoteSession.wire limits registry

theorem carry_clicked : carry (eventEnvelope clicked) = .ok (eventEnvelope clicked).crossed :=
  wire_event hasSchemas factoriesAddNothing ⟨_, rfl⟩ clicked
    ⟨by decide, trivial, trivial, trivial⟩ ⟨by decide, trivial, trivial, trivial⟩ (by decide)

end SampleFrames

/-- The handler of the first event is replaced before the second comes. -/
def replaced : List StreamAction :=
  [.register 9 3, .emit clicked, .respond { kind := KIND_RESPONSE, op := OP_GET, requestId := 7 },
    .receive, .queue, .register 9 3, .emit clicked, .take, .receive, .receive, .call, .queue,
    .stop, .take, .call, .exit]

/-- Each handler gets the event that came in its time. -/
theorem events_delivered_replaced :
    ∃ s, Machine.run (EventStream.step SampleFrames.registry SampleFrames.carry) {} replaced =
        some s ∧
      s.called.map EventTask.handler = [0, 1] ∧
      s.received <+: s.emitted.map Event.crossed := by
  have hcalled : ((Machine.run (EventStream.step SampleFrames.registry SampleFrames.carry) {}
      replaced).map fun s => s.called.map EventTask.handler) = some [0, 1] := by decide +kernel
  obtain ⟨s, h, hs⟩ := Option.map_eq_some_iff.1 hcalled
  refine ⟨s, h, hs, (events_delivered _ _ _ h ?_).1⟩
  have hclicked : EventStream.Kept SampleFrames.registry SampleFrames.carry (.emit clicked) := by
    show arrivingEvent _ (SampleFrames.carry (eventEnvelope clicked)) = _
    rw [SampleFrames.carry_clicked]
    rfl
  have hanswered : EventStream.Kept SampleFrames.registry SampleFrames.carry
      (.respond { kind := KIND_RESPONSE, op := OP_GET, requestId := 7 }) :=
    Option.isNone_iff_eq_none.1 (by decide +kernel)
  simp only [replaced, List.forall_mem_cons, List.not_mem_nil, IsEmpty.forall_iff,
    implies_true, and_true]
  exact ⟨trivial, hclicked, hanswered, trivial, trivial, trivial, hclicked, trivial, trivial,
    trivial, trivial, trivial, trivial, trivial, trivial, trivial⟩

end Bison
