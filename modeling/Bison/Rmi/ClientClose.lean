import Bison.Rmi.Client

/-!
# A client whose peer closes

The worker loop of a client over a socket transport (client.cpp, uv_stream_state.hpp): the loop
thread of the transport pushes the frames it has read to the receive queue and in the end notes that
the stream has closed; the worker takes frames out, and asks whether the connection is there when
`receive` gave it none. Nobody disconnects.

- `ClientSocket.step`: one step of the transport or of a thread of the client.
- `Drained`: the worker finds the stream closed when no response is left in the queue.
- `drained_delivers`: **main result**, in a run of such steps every response that was received for a
  pending request settles it.
- `close_drops`: the last response and the close arrive between the worker's two looks.
-/

namespace Bison

variable {μ : Type}

/-- A client and the receive side of its transport. `checking`: `receive` has given the worker no
frame. `received` has every frame read, and `answered` the requests that were sent and pending when
a response to them was read. -/
structure ClientSocket where
  client : Client := {}
  recvQueue : List (Option Envelope) := []
  recvClosed : Bool := false
  checking : Bool := false
  received : List (Option Envelope) := []
  answered : List Key := []

/-- What can happen. A frame that cannot be decoded is `none`. -/
inductive ClientSocketAction where
  /-- The transport has read a frame. -/
  | onRead (frame : Option Envelope)
  /-- It has read the end of the stream. -/
  | onEof
  /-- `dequeue_frame` ends: with a frame, or because of the time or the close. -/
  | dequeue
  /-- The worker asks for `is_connected`. -/
  | check
  /-- A step of the client that does not concern the transport's receive side. -/
  | client (action : ClientAction)

namespace Client

/-- The steps that neither read from the transport nor disconnect. -/
def Inner : ClientAction → Bool
  | .receive _ | .peerClosed | .disconnect | .disconnectEmpty | .disconnectFail _ => false
  | _ => true

/-- The request is sent and its promise is pending. -/
structure Awaits (c : Client) (id : Key) : Prop where
  pending : id ∈ c.pending
  sent : id ∉ c.sending
  fine : ∀ p ∈ c.sendFailed, p.1 ≠ id

instance (c : Client) (id : Key) : Decidable (c.Awaits id) :=
  decidable_of_iff (id ∈ c.pending ∧ id ∉ c.sending ∧ ∀ p ∈ c.sendFailed, p.1 ≠ id)
    ⟨fun ⟨h₁, h₂, h₃⟩ => ⟨h₁, h₂, h₃⟩, fun ⟨h₁, h₂, h₃⟩ => ⟨h₁, h₂, h₃⟩⟩

end Client

/-- The request a frame is a response to. -/
def responseTo (frame : Option Envelope) : Option Key :=
  match frame with
  | some env => if env.kind = KIND_RESPONSE then some env.requestId else none
  | none => none

/-- One step. -/
def ClientSocket.step (reg : Registry μ) (s : ClientSocket) : ClientSocketAction →
    Option ClientSocket
  | .onRead frame =>
    if s.recvClosed then none
    else some { s with
      recvQueue := s.recvQueue ++ [frame]
      received := s.received ++ [frame]
      answered := s.answered ++ (responseTo frame).toList.filter (s.client.Awaits ·) }
  | .onEof => some { s with recvClosed := true }
  | .dequeue =>
    match s.client.worker, s.checking, s.recvQueue with
    | .receiving, false, frame :: rest =>
      (s.client.step reg (.receive frame)).map fun c => { s with client := c, recvQueue := rest }
    | .receiving, false, [] => some { s with checking := true }
    | _, _, _ => none
  | .check =>
    if s.checking then
      (s.client.step reg (if s.recvClosed then .peerClosed else .receive none)).map fun c =>
        { s with client := c, checking := false }
    else none
  | .client action =>
    if Client.Inner action then
      (s.client.step reg action).map fun c => { s with client := c }
    else none

/-- When the worker finds the stream closed, no frame in the queue is a response to a pending
request. -/
def ClientSocket.Drained (s : ClientSocket) : ClientSocketAction → Prop
  | .check => s.recvClosed = true →
    ∀ frame ∈ s.recvQueue, ∀ id ∈ responseTo frame, id ∉ s.client.pending
  | _ => True

variable {reg : Registry μ}

/-! ## What the client keeps -/

namespace Client

variable {c c' : Client} {id : Key}

theorem Accounted.pending_registered (h : c.Accounted reg) (hid : id ∈ c.pending) :
    id ∈ c.registered :=
  h.places.mem_iff.1 (List.mem_append_left _ hid)

/-- A request that is awaited while the client runs stays so, until a response for it is taken. -/
theorem Awaits.inner (h : c.Awaits id) (hacc : c.Accounted reg) (hrunning : c.running = true)
    {a : ClientAction} (hinner : Inner a = true) (hstep : c.step reg a = some c') :
    c'.Awaits id ∧ c'.running = true := by
  cases a with
  | call id' =>
    simp only [Client.step] at hstep
    split at hstep
    · cases hstep
    · cases hstep
      exact ⟨⟨h.pending, h.sent, h.fine⟩, hrunning⟩
  | register id' =>
    simp only [Client.step] at hstep
    split at hstep
    · rename_i hencoded
      -- the new request is another one
      have hne : id ≠ id' := by
        rintro rfl
        have hdistinct := List.nodup_append.1 hacc.distinct
        exact hdistinct.2.2 id hencoded id (hacc.pending_registered h.pending) rfl
      simp only [hrunning, Option.some.injEq] at hstep
      subst hstep
      exact ⟨⟨List.mem_cons_of_mem _ h.pending, by simp [hne, h.sent], h.fine⟩, rfl⟩
    · cases hstep
  | send id' thrown =>
    simp only [Client.step] at hstep
    split at hstep
    · rename_i hsending
      have hne : id ≠ id' := by
        rintro rfl
        exact h.sent hsending
      have hsent : id ∉ c.sending.erase id' := fun hmem => h.sent (List.mem_of_mem_erase hmem)
      cases thrown with
      | none =>
        cases hstep
        exact ⟨⟨h.pending, hsent, h.fine⟩, hrunning⟩
      | some what =>
        cases hstep
        refine ⟨⟨h.pending, hsent, fun p hp => ?_⟩, hrunning⟩
        rcases List.mem_cons.1 hp with rfl | hp
        · exact Ne.symm hne
        · exact h.fine p hp
    · cases hstep
  | sendError id' =>
    simp only [Client.step] at hstep
    split at hstep
    · cases hstep
    · rename_i what hwhat
      have hne : id ≠ id' := by
        rintro rfl
        exact h.fine (id, what) (SortedMap.mem_of_lookup hwhat) rfl
      have hfine : ∀ p ∈ c.sendFailed.filter fun p => p.1 ≠ id', p.1 ≠ id :=
        fun p hp => h.fine p (List.mem_of_mem_filter hp)
      split at hstep
      · cases hstep
        exact ⟨⟨(List.mem_erase_of_ne hne).2 h.pending, h.sent, hfine⟩, hrunning⟩
      · cases hstep
        exact ⟨⟨h.pending, h.sent, hfine⟩, hrunning⟩
  | test =>
    cases hw : c.worker <;> simp only [Client.step, hw, reduceCtorEq] at hstep
    cases hstep
    exact ⟨⟨h.pending, h.sent, h.fine⟩, hrunning⟩
  | deliver =>
    obtain ⟨id', env, hw⟩ := worker_of_deliver hstep
    simp only [Client.step, hw] at hstep
    obtain ⟨outcome, -, rfl⟩ := Option.map_eq_some_iff.1 hstep
    exact ⟨⟨h.pending, h.sent, h.fine⟩, hrunning⟩
  | empty =>
    -- the worker has seen that the client is stopped
    cases hw : c.worker <;> simp only [Client.step, hw, reduceCtorEq] at hstep
    rw [hacc.stopped.leaving hw] at hrunning
    cases hrunning
  | fail id' =>
    obtain ⟨ids, hw, -⟩ := worker_of_fail hstep
    rw [(hacc.stopped.failing ids hw).1] at hrunning
    cases hrunning
  | exit =>
    cases hw : c.worker <;> simp only [Client.step, hw, reduceCtorEq] at hstep
    rw [(hacc.stopped.failing _ hw).1] at hrunning
    cases hrunning
  | receive frame => cases hinner
  | peerClosed => cases hinner
  | disconnect => cases hinner
  | disconnectEmpty => cases hinner
  | disconnectFail id' => cases hinner

/-- What was settled stays so. -/
theorem settled_grows {a : ClientAction} (hstep : c.step reg a = some c') :
    c.settled <+: c'.settled := by
  cases a with
  | deliver =>
    obtain ⟨id, env, hw⟩ := worker_of_deliver hstep
    simp only [Client.step, hw] at hstep
    obtain ⟨outcome, -, rfl⟩ := Option.map_eq_some_iff.1 hstep
    exact List.prefix_append _ _
  | _ =>
    simp only [Client.step] at hstep
    repeat' split at hstep
    all_goals first
      | cases hstep; exact List.prefix_rfl
      | cases hstep; exact List.prefix_append _ _
      | cases hstep

/-- The worker that holds a promise sets it before it does anything else. -/
theorem delivering_inner {a : ClientAction} {env : Envelope}
    (hw : c.worker = .delivering id env) (hinner : Inner a = true)
    (hstep : c.step reg a = some c') :
    c'.worker = .delivering id env ∨ ∃ outcome, (id, .response env outcome) ∈ c'.settled := by
  cases a with
  | deliver =>
    simp only [Client.step, hw] at hstep
    obtain ⟨outcome, -, rfl⟩ := Option.map_eq_some_iff.1 hstep
    exact .inr ⟨outcome, List.mem_append_right _ (List.mem_singleton_self _)⟩
  | test | receive | peerClosed | empty | fail | exit | disconnectEmpty =>
    simp only [Client.step, hw] at hstep
    cases hstep
  | disconnect | disconnectFail => cases hinner
  | call | register | send | sendError =>
    simp only [Client.step] at hstep
    repeat' split at hstep
    all_goals first
      | cases hstep; exact .inl hw
      | cases hstep

/-- Only a disconnect and the close of the peer stop the client. -/
theorem running_inner {a : ClientAction} (hinner : Inner a = true)
    (hstep : c.step reg a = some c') : c'.running = c.running := by
  cases a with
  | deliver =>
    obtain ⟨id, env, hw⟩ := worker_of_deliver hstep
    simp only [Client.step, hw] at hstep
    obtain ⟨outcome, -, rfl⟩ := Option.map_eq_some_iff.1 hstep
    rfl
  | receive | peerClosed | disconnect | disconnectEmpty | disconnectFail => cases hinner
  | _ =>
    simp only [Client.step] at hstep
    repeat' split at hstep
    all_goals cases hstep
    all_goals rfl

/-- What the worker does with a frame. -/
theorem receive_cases {frame : Option Envelope} (hstep : c.step reg (.receive frame) = some c') :
    c.worker = .receiving ∧
    ((∃ env, frame = some env ∧ responseTo frame = some env.requestId ∧ env.requestId ∈ c.pending ∧
      c' = { c with
        pending := c.pending.erase env.requestId, worker := .delivering env.requestId env }) ∨
    (∀ id ∈ responseTo frame, id ∉ c.pending) ∧ c' = { c with worker := .testing }) := by
  have hw := worker_of_receive hstep
  refine ⟨hw, ?_⟩
  simp only [Client.step, hw] at hstep
  cases frame with
  | none =>
    cases hstep
    refine .inr ⟨fun id hid => ?_, rfl⟩
    cases hid
  | some env =>
    simp only at hstep
    by_cases hkind : env.kind = KIND_RESPONSE
    · have hto : responseTo (some env) = some env.requestId := if_pos hkind
      by_cases hmem : env.requestId ∈ c.pending
      · rw [if_pos ⟨hkind, hmem⟩] at hstep
        cases hstep
        exact .inl ⟨env, rfl, hto, hmem, rfl⟩
      · rw [if_neg fun h => hmem h.2] at hstep
        cases hstep
        refine .inr ⟨fun id hid => ?_, rfl⟩
        rw [hto] at hid
        cases hid
        exact hmem
    · rw [if_neg fun h => hkind h.1] at hstep
      cases hstep
      have hto : responseTo (some env) = none := if_neg hkind
      refine .inr ⟨fun id hid => ?_, rfl⟩
      rw [hto] at hid
      cases hid

end Client

/-! ## What becomes of a response -/

namespace ClientSocket

variable {s s' : ClientSocket} {id : Key}

/-- The request was settled by a received response, or the worker is about to, or the response is
still in the queue and the worker will come to it. -/
def Served (s : ClientSocket) (id : Key) : Prop :=
  (∃ env outcome, (id, .response env outcome) ∈ s.client.settled ∧ some env ∈ s.received) ∨
  (∃ env, s.client.worker = .delivering id env ∧ some env ∈ s.received) ∨
  (s.client.Awaits id ∧ s.client.running = true ∧
    ∃ frame ∈ s.recvQueue, responseTo frame = some id)

/-- What every such step keeps. -/
structure Sound (reg : Registry μ) (s : ClientSocket) : Prop where
  accounted : s.client.Accounted reg
  served : ∀ id ∈ s.answered, s.Served id
  queued : s.recvQueue ⊆ s.received
  alive : s.recvClosed = false → s.client.running = true

theorem Sound.onRead (h : s.Sound reg) {frame : Option Envelope} (hopen : s.recvClosed = false) :
    Sound reg { s with
      recvQueue := s.recvQueue ++ [frame]
      received := s.received ++ [frame]
      answered := s.answered ++ (responseTo frame).toList.filter (s.client.Awaits ·) } where
  accounted := h.accounted
  served := by
    intro id hid
    rcases List.mem_append.1 hid with hid | hid
    · rcases h.served id hid with ⟨env, outcome, hset, hmem⟩ | ⟨env, hw, hmem⟩ |
        ⟨hawaits, hrunning, frame', hmem, hto⟩
      · exact .inl ⟨env, outcome, hset, List.mem_append_left _ hmem⟩
      · exact .inr (.inl ⟨env, hw, List.mem_append_left _ hmem⟩)
      · exact .inr (.inr ⟨hawaits, hrunning, frame', List.mem_append_left _ hmem, hto⟩)
    · obtain ⟨hto, hawaits⟩ := List.mem_filter.1 hid
      refine .inr (.inr ⟨of_decide_eq_true hawaits, h.alive hopen, frame, ?_, ?_⟩)
      · exact List.mem_append_right _ (List.mem_singleton_self _)
      · exact Option.mem_toList.1 hto
  queued := by
    intro frame' hmem
    exact List.mem_append.2 ((List.mem_append.1 hmem).imp_left fun hmem => h.queued hmem)
  alive := h.alive

/-- The worker takes a frame. -/
theorem Sound.dequeue (h : s.Sound reg) {frame : Option Envelope} {rest : List (Option Envelope)}
    (hqueue : s.recvQueue = frame :: rest) {c : Client}
    (hstep : s.client.step reg (.receive frame) = some c) :
    Sound reg { s with client := c, recvQueue := rest } := by
  have hgrows := Client.settled_grows hstep
  have hfront : frame ∈ s.received := h.queued (hqueue ▸ List.mem_cons_self)
  obtain ⟨hw, hcases⟩ := Client.receive_cases hstep
  refine ⟨h.accounted.step hstep, fun id hid => ?_, fun f hf => ?_, fun hopen => ?_⟩
  · rcases h.served id hid with ⟨env, outcome, hset, hmem⟩ | ⟨env, hw', hmem⟩ |
      ⟨hawaits, hrunning, frame', hmem, hto⟩
    · exact .inl ⟨env, outcome, hgrows.subset hset, hmem⟩
    · rw [hw] at hw'
      cases hw'
    · rcases hcases with ⟨env, rfl, hfor, hpending, rfl⟩ | ⟨hnone, rfl⟩
      · by_cases hid : env.requestId = id
        · subst hid
          exact .inr (.inl ⟨env, rfl, hfront⟩)
        · -- it is a response to another request
          refine .inr (.inr ⟨⟨?_, hawaits.sent, hawaits.fine⟩, hrunning, frame', ?_, hto⟩)
          · exact (List.mem_erase_of_ne (Ne.symm hid)).2 hawaits.pending
          · rw [hqueue] at hmem
            rcases List.mem_cons.1 hmem with rfl | hmem
            · rw [hfor] at hto
              exact absurd (Option.some.inj hto) hid
            · exact hmem
      · refine .inr (.inr ⟨⟨hawaits.pending, hawaits.sent, hawaits.fine⟩, hrunning, frame',
          ?_, hto⟩)
        rw [hqueue] at hmem
        rcases List.mem_cons.1 hmem with rfl | hmem
        · exact absurd hawaits.pending (hnone id hto)
        · exact hmem
  · exact h.queued (hqueue ▸ List.mem_cons_of_mem _ hf)
  · have hrunning := h.alive hopen
    rcases hcases with ⟨env, -, -, -, rfl⟩ | ⟨-, rfl⟩
    · exact hrunning
    · exact hrunning

/-- The worker asks for the connection. -/
theorem Sound.check (h : s.Sound reg) (hdrained : s.Drained .check) {c : Client}
    (hstep : s.client.step reg (if s.recvClosed then .peerClosed else .receive none) = some c) :
    Sound reg { s with client := c, checking := false } := by
  have hgrows := Client.settled_grows hstep
  by_cases hclosed : s.recvClosed
  · rw [if_pos hclosed] at hstep
    have hworker : s.client.worker = .receiving ∧ c =
      { s.client with running := false, worker := .testing } := by
      cases hw : s.client.worker <;> simp only [Client.step, hw, reduceCtorEq] at hstep
      cases hstep
      exact ⟨rfl, rfl⟩
    refine ⟨h.accounted.step hstep, fun id hid => ?_, h.queued, fun hopen => ?_⟩
    · rcases h.served id hid with ⟨env, outcome, hset, hmem⟩ | ⟨env, hw, hmem⟩ |
        ⟨hawaits, hrunning, frame, hmem, hto⟩
      · exact .inl ⟨env, outcome, hgrows.subset hset, hmem⟩
      · rw [hworker.1] at hw
        cases hw
      · exact absurd hawaits.pending (hdrained hclosed frame hmem id hto)
    · exact absurd hclosed (by simp [show s.recvClosed = false from hopen])
  · rw [if_neg hclosed] at hstep
    obtain ⟨hw, ⟨env, henv, -⟩ | ⟨-, rfl⟩⟩ := Client.receive_cases hstep
    · cases henv
    refine ⟨h.accounted.step hstep, fun id hid => ?_, h.queued, h.alive⟩
    rcases h.served id hid with hset | ⟨env, hw', hmem⟩ | ⟨hawaits, hrest⟩
    · exact .inl hset
    · rw [hw] at hw'
      cases hw'
    · exact .inr (.inr ⟨⟨hawaits.pending, hawaits.sent, hawaits.fine⟩, hrest⟩)

/-- A step of the client alone. -/
theorem Sound.inner (h : s.Sound reg) {a : ClientAction}
    (hinner : Client.Inner a = true) {c : Client}
    (hstep : s.client.step reg a = some c) : Sound reg { s with client := c } := by
  have hgrows := Client.settled_grows hstep
  have hrunning := Client.running_inner hinner hstep
  refine ⟨h.accounted.step hstep, fun id hid => ?_, h.queued, fun hopen => ?_⟩
  · rcases h.served id hid with ⟨env, outcome, hset, hmem⟩ | ⟨env, hw, hmem⟩ |
      ⟨hawaits, hrun, hframe⟩
    · exact .inl ⟨env, outcome, hgrows.subset hset, hmem⟩
    · rcases Client.delivering_inner hw hinner hstep with hw | ⟨outcome, hset⟩
      · exact .inr (.inl ⟨env, hw, hmem⟩)
      · exact .inl ⟨env, outcome, hset, hmem⟩
    · obtain ⟨hawaits, hrun⟩ := hawaits.inner h.accounted hrun hinner hstep
      exact .inr (.inr ⟨hawaits, hrun, hframe⟩)
  · exact hrunning.trans (h.alive hopen)

theorem Sound.step (h : s.Sound reg) {a : ClientSocketAction} (hdrained : s.Drained a)
    (hstep : s.step reg a = some s') : s'.Sound reg := by
  cases a with
  | onRead frame =>
    simp only [ClientSocket.step] at hstep
    split at hstep
    · cases hstep
    · rename_i hopen
      cases hstep
      exact h.onRead (Bool.eq_false_iff.2 hopen)
  | onEof =>
    cases hstep
    exact ⟨h.accounted, h.served, h.queued, fun hopen => Bool.noConfusion hopen⟩
  | dequeue =>
    simp only [ClientSocket.step] at hstep
    split at hstep
    · rename_i frame rest hqueue
      obtain ⟨c, hc, rfl⟩ := Option.map_eq_some_iff.1 hstep
      exact h.dequeue hqueue hc
    · cases hstep
      exact ⟨h.accounted, h.served, h.queued, h.alive⟩
    · cases hstep
  | check =>
    simp only [ClientSocket.step] at hstep
    split at hstep
    · obtain ⟨c, hc, rfl⟩ := Option.map_eq_some_iff.1 hstep
      exact h.check hdrained hc
    · cases hstep
  | client action =>
    simp only [ClientSocket.step] at hstep
    split at hstep
    · rename_i hinner
      obtain ⟨c, hc, rfl⟩ := Option.map_eq_some_iff.1 hstep
      exact h.inner hinner hc
    · cases hstep

/-- What becomes of the promises of the requests that were answered. -/
structure Delivers (reg : Registry μ) (s : ClientSocket) : Prop where
  settled : ∀ id ∈ s.answered, ∀ how, (id, how) ∈ s.client.settled →
    ∃ env outcome, how = .response env outcome ∧ env.requestId = id ∧
      responseOutcome reg env = some outcome ∧ some env ∈ s.received
  all : s.client.worker = .exited → ∀ id ∈ s.answered, id ∈ s.client.settled.map Prod.fst

theorem Sound.delivers (h : s.Sound reg) : s.Delivers reg := by
  have hplaces : s.client.places.Nodup :=
    h.accounted.places.nodup_iff.2 (List.Nodup.of_append_right h.accounted.distinct)
  -- a promise that is settled is in no other place
  obtain ⟨-, hrest, hpending⟩ := List.nodup_append.1 hplaces
  obtain ⟨-, hrest, hheld⟩ := List.nodup_append.1 hrest
  have hnodup : (s.client.settled.map Prod.fst).Nodup := List.Nodup.of_append_right hrest
  constructor
  · intro id hid how hset
    have hmem : id ∈ s.client.settled.map Prod.fst := List.mem_map_of_mem hset
    have hlast : id ∈ s.client.failing ++ s.client.settled.map Prod.fst :=
      List.mem_append_right _ hmem
    rcases h.served id hid with ⟨env, outcome, hset', hreceived⟩ | ⟨env, hw, -⟩ | ⟨hawaits, -⟩
    · have heq := List.inj_on_of_nodup_map hnodup hset hset' rfl
      cases heq
      obtain ⟨hrequest, houtcome⟩ := h.accounted.answers _ hset
      exact ⟨env, outcome, rfl, hrequest, houtcome, hreceived⟩
    · refine absurd rfl (hheld id ?_ id hlast)
      rw [hw]
      exact List.mem_singleton_self id
    · exact absurd rfl (hpending id hawaits.pending id (List.mem_append_right _ hlast))
  · intro hexited id hid
    rcases h.served id hid with ⟨env, outcome, hset, -⟩ | ⟨env, hw, -⟩ | ⟨-, hrunning, -⟩
    · exact List.mem_map_of_mem hset
    · rw [hexited] at hw
      cases hw
    · rw [(h.accounted.stopped.exited hexited).1] at hrunning
      cases hrunning

end ClientSocket

/-- In a run in which the worker finds the stream closed only after the queue has no response left
for a pending request, every response that was received for a sent request settles it. -/
theorem drained_delivers (reg : Registry μ) {s : ClientSocket} (actions : List ClientSocketAction)
    (hdrained : Machine.Each (ClientSocket.step reg) ClientSocket.Drained {} actions)
    (hrun : Machine.run (ClientSocket.step reg) {} actions = some s) : s.Delivers reg := by
  have hsound : s.Sound reg :=
    Machine.run_invariant_of_each (I := ClientSocket.Sound reg)
      (fun _ _ _ h hdrained hstep => h.step hdrained hstep)
      ⟨Client.accounted_connected, fun _ h => absurd h List.not_mem_nil, List.Subset.refl _,
        fun _ => rfl⟩ hdrained hrun
  exact hsound.delivers

/-- A request is sent, and the worker waits in `receive`. -/
def requested : List ClientSocketAction :=
  [.client (.call 1), .client (.register 1), .client (.send 1 none), .client .test]

/-- The response to it. -/
def lastResponse : Envelope := { kind := KIND_RESPONSE, requestId := 1 }

/-- The worker workerLeaves its loop and fails what is pending. -/
def workerLeaves : List ClientSocketAction := [.client .test, .client .empty]

/-- The response and the close arrive while the worker waits. -/
theorem drained_delivers_last : ∃ s, Machine.run (ClientSocket.step ([] : Registry Unit)) {}
      (requested ++ [.onRead (some lastResponse), .onEof, .dequeue, .client .deliver, .client .test,
        .dequeue, .check] ++ workerLeaves ++ [.client .exit]) = some s ∧
    s.answered = [1] ∧ ∀ id ∈ s.answered, id ∈ s.client.settled.map Prod.fst := by
  refine ⟨_, rfl, rfl, (drained_delivers ([] : Registry Unit)
    (requested ++ [.onRead (some lastResponse),
    .onEof, .dequeue, .client .deliver, .client .test, .dequeue, .check] ++ workerLeaves ++
    [.client .exit]) ?_ rfl).all rfl⟩
  unfold requested workerLeaves
  iterate 10 refine (Machine.each_cons rfl).2 ⟨trivial, ?_⟩
  -- the queue is empty when the worker asks
  refine (Machine.each_cons rfl).2 ⟨fun _ frame hmem => absurd hmem List.not_mem_nil, ?_⟩
  iterate 3 refine (Machine.each_cons rfl).2 ⟨trivial, ?_⟩
  exact trivial

/-- The response and the close arrive after the worker's wait and before it asks. -/
theorem close_drops : ¬ ∀ (reg : Registry Unit) actions s,
    Machine.run (ClientSocket.step reg) {} actions = some s → s.Delivers reg := by
  intro h
  have hdelivers := h [] (requested ++ [.dequeue, .onRead (some lastResponse), .onEof, .check] ++
    workerLeaves ++ [.client (.fail 1)]) _ rfl
  obtain ⟨env, outcome, heq, -⟩ := hdelivers.settled 1 (List.mem_singleton_self 1)
    Client.workerExiting (List.mem_singleton_self _)
  cases heq

end Bison
