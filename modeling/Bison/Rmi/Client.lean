import Bison.Lib.Machine
import Bison.Rmi.Protocol

/-!
# The promises of a client

Any number of threads call `send_request_with_group`, the worker thread receives responses, and
some thread disconnects (client.cpp). All of them share `running_` and the table `pending_`,
which maps the id of a request to its promise.

A promise is in one place at a time: in the table, with the worker, which took it out and is
about to set it, or with a `fail_all_pending`. That is the invariant here (`Accounted`): the
requests that were registered are a permutation of those in these places and those whose promise
was set.

- `promises_settled`: **main result**, over every interleaving each promise is set at most once,
  with the response of its own request or an exception, and none is left when the worker has
  ended.

One-way requests have no promise in the table, and event frames touch none.
-/

namespace Bison

/-- How a promise was set. -/
inductive Settled where
  /-- By `process_frame`, from this response. -/
  | response (env : Envelope) (outcome : Outcome)
  /-- By an exception that `send` threw. -/
  | sendError (what : Text)
  /-- By `make_transport_error` or `fail_all_pending`. -/
  | transportError (what : Text)

/-- Where the worker thread is. A promise it took out of the table is with it. -/
inductive ClientWorker where
  /-- At the condition of its loop. -/
  | testing
  | receiving
  /-- In `process_frame`, holding the promise of this request. -/
  | delivering (id : Key) (env : Envelope)
  /-- Behind its loop. -/
  | leaving
  /-- In `fail_all_pending`, holding the promises of these requests. -/
  | failing (ids : List Key)
  | exited

/-- The promises the worker holds. -/
def ClientWorker.held : ClientWorker → List Key
  | delivering id _ => [id]
  | failing ids => ids
  | _ => []

/-- A connected client and the threads in its functions. A request is named by its id. -/
structure Client where
  running : Bool := true
  pending : List Key := []
  worker : ClientWorker := .testing
  /-- The requests whose thread is about to lock `pending_` and test `running_`. -/
  encoded : List Key := []
  /-- Those whose thread is about to send the frame. -/
  sending : List Key := []
  /-- Those whose `send` threw, and what. -/
  sendFailed : List (Key × Text) := []
  /-- The promises with the `fail_all_pending` of `disconnect`. -/
  failing : List Key := []
  /-- All requests that went through the first lock, in order. -/
  registered : List Key := []
  /-- The promises that were set, in order. -/
  settled : List (Key × Settled) := []

/-- One step of one thread. -/
inductive ClientAction where
  /-- A thread calls `send_request` and generates an id. -/
  | call (id : Key)
  /-- It locks `pending_`. -/
  | register (id : Key)
  /-- It sends the frame, or `send` throws. -/
  | send (id : Key) (thrown : Option Text)
  /-- It handles the exception. -/
  | sendError (id : Key)
  /-- The worker tests `running_`. -/
  | test
  /-- `receive` gives the worker a frame, or none that can be decoded. -/
  | receive (frame : Option Envelope)
  /-- The worker finds the transport no longer connected. -/
  | peerClosed
  /-- The worker sets the promise of a response. -/
  | deliver
  /-- The worker empties the table in `fail_all_pending`. -/
  | empty
  /-- It fails one of the promises. -/
  | fail (id : Key)
  /-- It has failed them all. -/
  | exit
  /-- `disconnect` stops the client. -/
  | disconnect
  /-- `disconnect` has joined the worker and empties the table. -/
  | disconnectEmpty
  /-- It fails one of the promises. -/
  | disconnectFail (id : Key)

namespace Client

/-- "Client disconnected" as `make_transport_error` words it. -/
def disconnected : Settled :=
  .transportError (codedMessage ERR_TRANSPORT_ERROR (ascii "Client disconnected"))

def workerExiting : Settled :=
  .transportError (codedMessage ERR_TRANSPORT_ERROR (ascii "Worker thread exiting"))

/-- The promise of `id` is set. -/
def settle (c : Client) (id : Key) (how : Settled) : Client :=
  { c with settled := c.settled ++ [(id, how)] }

variable {μ : Type}

/-- One action. `call` gives no id twice. -/
def step (reg : Registry μ) (c : Client) : ClientAction → Option Client
  | .call id =>
    if id ∈ c.encoded ∨ id ∈ c.registered then none
    else some { c with encoded := id :: c.encoded }
  | .register id =>
    if id ∈ c.encoded then
      let c := { c with encoded := c.encoded.erase id, registered := c.registered ++ [id] }
      if c.running then
        some { c with pending := id :: c.pending, sending := id :: c.sending }
      else some (c.settle id disconnected)
    else none
  | .send id thrown =>
    if id ∈ c.sending then
      let c := { c with sending := c.sending.erase id }
      match thrown with
      | none => some c
      | some what => some { c with sendFailed := (id, what) :: c.sendFailed }
    else none
  | .sendError id =>
    match c.sendFailed.lookup id with
    | none => none
    | some what =>
      let c := { c with sendFailed := c.sendFailed.filter fun p => p.1 ≠ id }
      if id ∈ c.pending then
        some { c.settle id (.sendError what) with pending := c.pending.erase id }
      else some c
  | .test =>
    match c.worker with
    | .testing => some { c with worker := if c.running then .receiving else .leaving }
    | _ => none
  | .receive frame =>
    match c.worker with
    | .receiving =>
      match frame with
      | some env =>
        if env.kind = KIND_RESPONSE ∧ env.requestId ∈ c.pending then
          some { c with
            pending := c.pending.erase env.requestId
            worker := .delivering env.requestId env }
        else some { c with worker := .testing }
      | none => some { c with worker := .testing }
    | _ => none
  | .peerClosed =>
    match c.worker with
    | .receiving => some { c with running := false, worker := .testing }
    | _ => none
  | .deliver =>
    match c.worker with
    | .delivering id env =>
      (responseOutcome reg env).map fun outcome =>
        { c.settle id (.response env outcome) with worker := .testing }
    | _ => none
  | .empty =>
    match c.worker with
    | .leaving => some { c with worker := .failing c.pending, pending := [] }
    | _ => none
  | .fail id =>
    match c.worker with
    | .failing ids =>
      if id ∈ ids then some { c.settle id workerExiting with worker := .failing (ids.erase id) }
      else none
    | _ => none
  | .exit =>
    match c.worker with
    | .failing [] => some { c with worker := .exited }
    | _ => none
  | .disconnect => some { c with running := false }
  | .disconnectEmpty =>
    match c.worker with
    | .exited => some { c with failing := c.failing ++ c.pending, pending := [] }
    | _ => none
  | .disconnectFail id =>
    if id ∈ c.failing then some { c.settle id disconnected with failing := c.failing.erase id }
    else none

/-- A promise was set with the response of its own request, or with an exception. -/
def Answers (reg : Registry μ) (id : Key) : Settled → Prop
  | .response env outcome => env.requestId = id ∧ responseOutcome reg env = some outcome
  | .sendError _ => True
  | .transportError _ => True

/-- The worker has seen that the client is stopped, and what follows from it. -/
structure Stopped (c : Client) : Prop where
  leaving : c.worker = .leaving → c.running = false
  failing : ∀ ids, c.worker = .failing ids → c.running = false ∧ c.pending = []
  exited : c.worker = .exited → c.running = false ∧ c.pending = []
  nothing : c.failing = []

/-- Where the promises are. -/
def places (c : Client) : List Key :=
  c.pending ++ (c.worker.held ++ (c.failing ++ c.settled.map Prod.fst))

/-- Every registered request is in exactly one place, and what was set is right. -/
structure Accounted (reg : Registry μ) (c : Client) : Prop where
  places : c.places.Perm c.registered
  distinct : (c.encoded ++ c.registered).Nodup
  answers : ∀ p ∈ c.settled, Answers reg p.1 p.2
  delivering : ∀ id env, c.worker = .delivering id env → env.requestId = id
  stopped : c.Stopped

variable {reg : Registry μ} {c c' : Client}

/-! ## Moving a promise -/

theorem count_erase_add {l : List Key} {id : Key} (h : id ∈ l) (a : Key) :
    (l.erase id).count a + [id].count a = l.count a := by
  have hcount := (List.perm_cons_erase h).count_eq a
  rw [← List.singleton_append, List.count_append] at hcount
  omega

/-- The requests in the places of a client, each as often as it is in a place. -/
theorem count_places (c : Client) (a : Key) :
    c.places.count a = c.pending.count a + c.worker.held.count a + c.failing.count a +
      (c.settled.map Prod.fst).count a := by
  simp only [places, List.count_append]
  omega

theorem Accounted.count (h : c.Accounted reg) (a : Key) :
    c.pending.count a + c.worker.held.count a + c.failing.count a +
      (c.settled.map Prod.fst).count a = c.registered.count a := by
  rw [← count_places, h.places.count_eq]

theorem places_perm_of_count (h : ∀ a, c.pending.count a + c.worker.held.count a +
    c.failing.count a + (c.settled.map Prod.fst).count a = c.registered.count a) :
    c.places.Perm c.registered :=
  List.perm_iff_count.2 fun a => (count_places c a).trans (h a)

theorem answers_append {settled : List (Key × Settled)} {id : Key} {how : Settled}
    (h : ∀ p ∈ settled, Answers reg p.1 p.2) (hhow : Answers reg id how) :
    ∀ p ∈ settled ++ [(id, how)], Answers reg p.1 p.2 := by
  intro p hp
  rcases List.mem_append.1 hp with hp | hp
  · exact h p hp
  · rw [List.mem_singleton.1 hp]
    exact hhow

/-! ## Steps -/

/-- A thread registers its request, or fails it at once. -/
theorem Accounted.register (h : c.Accounted reg) {id : Key} (hid : id ∈ c.encoded)
    (hstep : step reg c (.register id) = some c') : c'.Accounted reg := by
  have hdistinct : (c.encoded.erase id ++ (c.registered ++ [id])).Nodup := by
    refine (List.Perm.nodup_iff ?_).1 h.distinct
    have herase : c.encoded.Perm (c.encoded.erase id ++ [id]) :=
      (List.perm_cons_erase hid).trans (List.perm_append_singleton id _).symm
    refine (herase.append_right c.registered).trans ?_
    rw [List.append_assoc]
    exact List.Perm.append_left _ List.perm_append_comm
  simp only [step, if_pos hid] at hstep
  by_cases hrunning : c.running = true
  · rw [if_pos hrunning] at hstep
    cases hstep
    refine ⟨places_perm_of_count fun a => ?_, hdistinct, h.answers, h.delivering, ?_⟩
    · have hcount := h.count a
      simp only [List.count_cons, List.count_append, List.count_nil]
      omega
    · -- the worker has not seen the client stopped
      refine ⟨h.stopped.leaving, fun ids hw => ?_, fun hw => ?_, h.stopped.nothing⟩
      · exact absurd (h.stopped.failing ids hw).1 (by simp [hrunning])
      · exact absurd (h.stopped.exited hw).1 (by simp [hrunning])
  · rw [if_neg hrunning] at hstep
    cases hstep
    refine ⟨places_perm_of_count fun a => ?_, hdistinct, ?_, h.delivering, ?_⟩
    · have hcount := h.count a
      simp only [settle, List.map_append, List.count_append, List.map_cons, List.map_nil]
      omega
    · exact answers_append h.answers trivial
    · exact ⟨h.stopped.leaving, h.stopped.failing, h.stopped.exited, h.stopped.nothing⟩

/-- A thread whose `send` threw fails its request, unless it was settled meanwhile. -/
theorem Accounted.sendError (h : c.Accounted reg) {id : Key}
    (hstep : step reg c (.sendError id) = some c') : c'.Accounted reg := by
  simp only [step] at hstep
  cases hwhat : c.sendFailed.lookup id with
  | none => simp [hwhat] at hstep
  | some what =>
    simp only [hwhat] at hstep
    by_cases hid : id ∈ c.pending
    · rw [if_pos hid] at hstep
      cases hstep
      refine ⟨places_perm_of_count fun a => ?_, h.distinct, ?_, h.delivering, ?_⟩
      · have hcount := h.count a
        have herase := count_erase_add hid a
        simp only [settle, List.map_append, List.count_append, List.map_cons, List.map_nil]
        omega
      · exact answers_append h.answers trivial
      · refine ⟨h.stopped.leaving, fun ids hw => ?_, fun hw => ?_, h.stopped.nothing⟩
        · exact absurd hid (by simp [(h.stopped.failing ids hw).2])
        · exact absurd hid (by simp [(h.stopped.exited hw).2])
    · rw [if_neg hid] at hstep
      cases hstep
      exact ⟨h.places, h.distinct, h.answers, h.delivering, h.stopped.leaving, h.stopped.failing,
        h.stopped.exited, h.stopped.nothing⟩

/-- The worker takes the promise of a response out of the table, if it is there. -/
theorem Accounted.receive (h : c.Accounted reg) (hw : c.worker = .receiving)
    {frame : Option Envelope} (hstep : step reg c (.receive frame) = some c') :
    c'.Accounted reg := by
  have htesting : { c with worker := .testing }.Accounted reg := by
    refine ⟨places_perm_of_count fun a => ?_, h.distinct, h.answers, nofun, nofun, nofun, nofun,
      h.stopped.nothing⟩
    have hcount := h.count a
    rw [hw] at hcount
    exact hcount
  simp only [step, hw] at hstep
  cases frame with
  | none =>
    cases hstep
    exact htesting
  | some env =>
    simp only at hstep
    by_cases hresponse : env.kind = KIND_RESPONSE ∧ env.requestId ∈ c.pending
    · rw [if_pos hresponse] at hstep
      cases hstep
      refine ⟨places_perm_of_count fun a => ?_, h.distinct, h.answers, ?_, nofun, nofun, nofun,
        h.stopped.nothing⟩
      · have hcount := h.count a
        have herase := count_erase_add hresponse.2 a
        rw [hw] at hcount
        simp only [ClientWorker.held, List.count_nil] at hcount ⊢
        omega
      · intro id env' heq
        cases heq
        rfl
    · rw [if_neg hresponse] at hstep
      cases hstep
      exact htesting

/-- It sets the promise. -/
theorem Accounted.deliver (h : c.Accounted reg) {id : Key} {env : Envelope}
    (hw : c.worker = .delivering id env) (hstep : step reg c .deliver = some c') :
    c'.Accounted reg := by
  simp only [step, hw] at hstep
  obtain ⟨outcome, houtcome, rfl⟩ := Option.map_eq_some_iff.1 hstep
  refine ⟨places_perm_of_count fun a => ?_, h.distinct, ?_, nofun, nofun, nofun, nofun,
    h.stopped.nothing⟩
  · have hcount := h.count a
    rw [hw] at hcount
    simp only [ClientWorker.held, settle, List.map_append, List.count_append, List.map_cons,
      List.map_nil, List.count_nil] at hcount ⊢
    omega
  · exact answers_append h.answers ⟨h.delivering id env hw, houtcome⟩

/-- The worker fails one of the promises it took out of the table. -/
theorem Accounted.fail (h : c.Accounted reg) {ids : List Key} {id : Key}
    (hw : c.worker = .failing ids) (hid : id ∈ ids)
    (hstep : step reg c (.fail id) = some c') : c'.Accounted reg := by
  have hstopped := h.stopped.failing ids hw
  simp only [step, hw, if_pos hid] at hstep
  cases hstep
  refine ⟨places_perm_of_count fun a => ?_, h.distinct, ?_, nofun, nofun, fun _ _ => hstopped,
    nofun, h.stopped.nothing⟩
  · have hcount := h.count a
    have herase := count_erase_add hid a
    rw [hw] at hcount
    simp only [ClientWorker.held, settle, List.map_append, List.count_append, List.map_cons,
      List.map_nil] at hcount ⊢
    omega
  · exact answers_append h.answers trivial

theorem worker_of_receive {frame : Option Envelope}
    (hstep : step reg c (.receive frame) = some c') : c.worker = .receiving := by
  cases hw : c.worker <;> simp [step, hw] at hstep ⊢

theorem worker_of_deliver (hstep : step reg c .deliver = some c') :
    ∃ id env, c.worker = .delivering id env := by
  cases hw : c.worker <;> simp [step, hw] at hstep ⊢

theorem worker_of_fail {id : Key} (hstep : step reg c (.fail id) = some c') :
    ∃ ids, c.worker = .failing ids ∧ id ∈ ids := by
  cases hw : c.worker <;> simp [step, hw] at hstep ⊢
  exact hstep.1

/-- **One step** of any thread keeps every promise in exactly one place. -/
theorem Accounted.step {a : ClientAction} (h : c.Accounted reg)
    (hstep : step reg c a = some c') : c'.Accounted reg := by
  have hstopped := h.stopped
  cases a with
  | call id =>
    simp only [Client.step] at hstep
    split at hstep
    · cases hstep
    · next hfresh =>
      cases hstep
      refine ⟨h.places, ?_, h.answers, h.delivering, hstopped.leaving, hstopped.failing,
        hstopped.exited, hstopped.nothing⟩
      exact List.nodup_cons.2 ⟨fun hid => hfresh (List.mem_append.1 hid), h.distinct⟩
  | register id =>
    have hid : id ∈ c.encoded := by
      by_contra hid
      simp [Client.step, hid] at hstep
    exact h.register hid hstep
  | send id thrown =>
    simp only [Client.step] at hstep
    split at hstep
    · cases thrown <;> cases hstep <;>
        exact ⟨h.places, h.distinct, h.answers, h.delivering, hstopped.leaving, hstopped.failing,
          hstopped.exited, hstopped.nothing⟩
    · cases hstep
  | sendError id => exact h.sendError hstep
  | test =>
    cases hw : c.worker <;> simp only [Client.step, hw, reduceCtorEq] at hstep
    cases hstep
    have hheld : (if c.running = true then ClientWorker.receiving else .leaving).held = [] := by
      split <;> rfl
    refine ⟨places_perm_of_count fun a => ?_, h.distinct, h.answers, ?_, ?_, ?_, ?_,
      hstopped.nothing⟩
    · have hcount := h.count a
      rw [hw] at hcount
      simp only [hheld]
      exact hcount
    · intro id env heq
      simp only at heq
      split at heq <;> cases heq
    · intro heq
      simp only at heq
      split at heq
      · cases heq
      · next hrunning => exact Bool.eq_false_iff.2 hrunning
    · intro ids heq
      simp only at heq
      split at heq <;> cases heq
    · intro heq
      simp only at heq
      split at heq <;> cases heq
  | receive frame => exact h.receive (worker_of_receive hstep) hstep
  | peerClosed =>
    cases hw : c.worker <;> simp only [Client.step, hw, reduceCtorEq] at hstep
    cases hstep
    refine ⟨places_perm_of_count fun a => ?_, h.distinct, h.answers, nofun, nofun, nofun, nofun,
      hstopped.nothing⟩
    have hcount := h.count a
    rw [hw] at hcount
    exact hcount
  | deliver =>
    obtain ⟨id, env, hw⟩ := worker_of_deliver hstep
    exact h.deliver hw hstep
  | empty =>
    cases hw : c.worker <;> simp only [Client.step, hw, reduceCtorEq] at hstep
    cases hstep
    have hrunning := hstopped.leaving hw
    refine ⟨places_perm_of_count fun a => ?_, h.distinct, h.answers, nofun, nofun,
      fun _ _ => ⟨hrunning, rfl⟩, nofun, hstopped.nothing⟩
    have hcount := h.count a
    rw [hw] at hcount
    simp only [ClientWorker.held, List.count_nil] at hcount ⊢
    omega
  | fail id =>
    obtain ⟨ids, hw, hid⟩ := worker_of_fail hstep
    exact h.fail hw hid hstep
  | exit =>
    cases hw : c.worker <;> simp only [Client.step, hw, reduceCtorEq] at hstep
    next ids =>
      cases ids with
      | cons id ids => cases hstep
      | nil =>
        cases hstep
        refine ⟨places_perm_of_count fun a => ?_, h.distinct, h.answers, nofun, nofun, nofun,
          fun _ => hstopped.failing _ hw, hstopped.nothing⟩
        have hcount := h.count a
        rw [hw] at hcount
        exact hcount
  | disconnect =>
    cases hstep
    exact ⟨h.places, h.distinct, h.answers, h.delivering, fun _ => rfl,
      fun ids hw => ⟨rfl, (hstopped.failing ids hw).2⟩,
      fun hw => ⟨rfl, (hstopped.exited hw).2⟩, hstopped.nothing⟩
  | disconnectEmpty =>
    cases hw : c.worker <;> simp only [Client.step, hw, reduceCtorEq] at hstep
    cases hstep
    -- nothing was left for it
    have hpending := (hstopped.exited hw).2
    have hnothing : c.failing ++ c.pending = [] := by rw [hstopped.nothing, hpending]; rfl
    refine ⟨places_perm_of_count fun a => ?_, h.distinct, h.answers, nofun, nofun, nofun,
      fun _ => ⟨(hstopped.exited hw).1, rfl⟩, hnothing⟩
    have hcount := h.count a
    rw [hw] at hcount
    simp only [ClientWorker.held, List.count_nil, List.count_append] at hcount ⊢
    omega
  | disconnectFail id =>
    simp only [Client.step, hstopped.nothing, List.not_mem_nil, if_false] at hstep
    cases hstep

theorem accounted_connected : ({} : Client).Accounted reg where
  places := List.Perm.refl _
  distinct := List.nodup_nil
  answers := nofun
  delivering := nofun
  stopped := ⟨nofun, nofun, nofun, rfl⟩

end Client

open Client in
/-- **Main result.** After any interleaving from a fresh connection: no promise was set twice,
each was set with the response of its own request or an exception, and once the worker has ended
every registered request has been settled, and every other is settled as soon as its thread
tests `running_`. -/
theorem promises_settled {μ : Type} (reg : Registry μ) (actions : List ClientAction) {c : Client}
    (h : Machine.run (Client.step reg) {} actions = some c) :
    (c.settled.map Prod.fst).Nodup ∧ (∀ p ∈ c.settled, Answers reg p.1 p.2) ∧
      (c.worker = .exited →
        (∀ id ∈ c.registered, id ∈ c.settled.map Prod.fst) ∧
        ∀ id ∈ c.encoded, ∃ c', Client.step reg c (.register id) = some c' ∧
          id ∈ c'.settled.map Prod.fst) := by
  have hacc : c.Accounted reg :=
    Machine.run_invariant (fun _ _ _ hacc hstep => hacc.step hstep) accounted_connected h
  have hplaces : c.places.Nodup :=
    hacc.places.nodup_iff.2 (List.Nodup.of_append_right hacc.distinct)
  refine ⟨?_, hacc.answers, fun hexited => ?_⟩
  · have hsub : (c.settled.map Prod.fst).Sublist c.places :=
      (List.sublist_append_right _ _).trans ((List.sublist_append_right _ _).trans
        (List.sublist_append_right _ _))
    exact hplaces.sublist hsub
  · obtain ⟨hrunning, hpending⟩ := hacc.stopped.exited hexited
    refine ⟨fun id hid => ?_, fun id hid => ?_⟩
    · -- the other places are empty
      have hin := hacc.places.mem_iff.2 hid
      simpa [places, hpending, hexited, ClientWorker.held, hacc.stopped.nothing] using hin
    · refine ⟨_, by simp only [Client.step, if_pos hid, hrunning]; rfl, ?_⟩
      simp [settle]

/-- One request is answered twice, another one is caught by the end of the connection while its
thread handles an exception of `send`. -/
def Client.answeredTwice : List ClientAction :=
  [.call 1, .call 2, .register 1, .register 2, .send 1 none, .test,
    .receive (some { kind := KIND_RESPONSE, requestId := 1 }), .deliver, .test,
    .receive (some { kind := KIND_RESPONSE, requestId := 1 }), .test, .peerClosed,
    .send 2 (some []), .test, .empty, .sendError 2, .fail 2, .exit]

theorem promises_settled_two :
    ∃ c, Machine.run (Client.step ([] : Registry Unit)) {} Client.answeredTwice = some c ∧
      c.registered = [1, 2] ∧ ∀ id ∈ c.registered, id ∈ c.settled.map Prod.fst := by
  have hrun : (Machine.run (Client.step ([] : Registry Unit)) {} Client.answeredTwice).map
      (fun c => (c.worker, c.registered)) = some (.exited, [1, 2]) := rfl
  obtain ⟨c, hc, hend⟩ := Option.map_eq_some_iff.1 hrun
  obtain ⟨hexited, hregistered⟩ := Prod.mk.inj hend
  exact ⟨c, hc, hregistered,
    ((promises_settled ([] : Registry Unit) Client.answeredTwice hc).2.2 hexited).1⟩

end Bison
