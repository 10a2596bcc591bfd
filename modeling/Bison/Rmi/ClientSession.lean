import Bison.Lib.Machine
import Mathlib.Tactic.Common

/-!
# The sessions of a client

One thread calls `connect` and `disconnect` on a client over a socket transport (client.cpp,
socket_transport.cpp), again and again, while the client's two threads run and the server answers,
refuses or closes.

- `ClientSession.step`: one step of the calling thread, of one of the client's threads or of the
  server.
- `Ready`: `connect` is called on a client that does not run, and whose transport is shut or has a
  thread that `release_closed_session` joins.
- `ready_sessions`: **main result**, in a run of such calls no thread is assigned over a joinable
  one, there is one loop of each kind at most, and every `connect` opens the transport with the
  client as a new one.
- `refused_connect`: the connect after a refused one aborts, and the one after a lost handshake
  finds the old stream still open.
-/

namespace Bison

/-- Where `client::worker_loop` is. -/
inductive SessionWorker where
  /-- At the condition of its loop. -/
  | testing
  /-- In `receive`. -/
  | receiving
  /-- At `is_connected`, with no frame. -/
  | checking
  /-- At `fail_all_pending`. -/
  | leaving
  | ended
  deriving DecidableEq

/-- Where `client::event_loop` is. -/
inductive SessionEvents where
  | waiting
  | ended
  deriving DecidableEq

/-- What a call does when it has joined the two threads. -/
inductive SessionNext where
  /-- `connect` goes on to open the transport. -/
  | connect
  /-- `disconnect` returns. -/
  | disconnected
  /-- `connect` throws "RMI connection handshake failed". -/
  | lost
  deriving DecidableEq

/-- Where the calling thread is. -/
inductive SessionCall where
  /-- In no call. -/
  | idle
  /-- In `release_closed_session` or `disconnect`, at `shutdown`. -/
  | shutdown (next : SessionNext)
  | joinWorker (next : SessionNext)
  | joinEvent (next : SessionNext)
  /-- In `connect`, at `open`. -/
  | opening
  /-- At `running_.store(true)`. -/
  | opened
  | startWorker
  | startEvent
  /-- At `send_request(OP_CONNECT)`. -/
  | requesting
  /-- At `f.get()`. -/
  | waiting
  /-- It threw. -/
  | caught
  /-- In `disconnect`, waiting for the acknowledgment. -/
  | acking
  deriving DecidableEq

/-- The promise of `OP_CONNECT`. -/
inductive SessionReply where
  | pending
  | ok
  /-- An error of the server, or a transport error. -/
  | failed
  deriving DecidableEq

/-- A client, its transport and the thread that calls it. `worker` and `event`: the threads that are
joinable, and where their loops are. `closed`: the stream has ended. `aborted`: a thread was
assigned over a joinable one. `workerLoops` and `eventLoops`: the loops that run. -/
structure ClientSession where
  call : SessionCall := .idle
  running : Bool := false
  worker : Option SessionWorker := none
  event : Option SessionEvents := none
  opened : Bool := false
  closed : Bool := false
  reply : SessionReply := .pending
  aborted : Bool := false
  workerLoops : Nat := 0
  eventLoops : Nat := 0
  /-- The last `connect` threw. -/
  threw : Bool := false
  deriving DecidableEq

inductive SessionAction where
  | connect
  | disconnect
  /-- The transport's `open` ends. -/
  | open (fails : Bool)
  /-- The calling thread goes on. -/
  | call
  /-- The worker goes on. -/
  | work
  /-- It receives no frame. -/
  | timeout
  /-- It receives the answer to `OP_CONNECT`. -/
  | answer (ok : Bool)
  /-- It receives another frame. -/
  | frame
  /-- The event loop finds `running_` cleared and its queue empty. -/
  | event
  | serverClose

def SessionNext.resume : SessionNext → SessionCall
  | .connect => .opening
  | .disconnected | .lost => .idle

namespace ClientSession

/-- `release_closed_session`, up to its first step. -/
def release (s : ClientSession) (next : SessionNext) : SessionCall :=
  if s.running || !(s.worker.isSome || s.event.isSome) then next.resume else .shutdown next

/-- The next step of the calling thread, if it does not wait. -/
def advance (s : ClientSession) : Option ClientSession :=
  match s.call with
  | .idle | .opening => none
  | .shutdown next => some { s with opened := false, closed := true, call := .joinWorker next }
  | .joinWorker next =>
    match s.worker with
    | none | some .ended => some { s with worker := none, call := .joinEvent next }
    | some _ => none
  | .joinEvent next =>
    match s.event with
    | none | some .ended =>
      some { s with event := none, call := next.resume, threw := s.threw || decide (next = .lost) }
    | some .waiting => none
  | .opened => some { s with running := true, call := .startWorker }
  | .startWorker =>
    some { s with
      worker := some .testing
      workerLoops := s.workerLoops + 1
      aborted := s.worker.isSome
      call := .startEvent }
  | .startEvent =>
    some { s with
      event := some .waiting
      eventLoops := s.eventLoops + 1
      aborted := s.event.isSome
      call := .requesting }
  | .requesting =>
    some { s with reply := if s.running then .pending else .failed, call := .waiting }
  | .waiting =>
    match s.reply with
    | .pending => none
    | .ok => some { s with call := .idle, threw := false }
    | .failed => some { s with call := .caught }
  | .caught =>
    if s.running then some { s with call := .idle, threw := true }
    else some { s with call := .joinWorker .lost }
  | .acking => some { s with running := false, call := .shutdown .disconnected }

/-- The next step of the worker, if it is not in `receive`. -/
def work (s : ClientSession) : Option ClientSession :=
  match s.worker with
  | some .testing => some { s with worker := some (if s.running then .receiving else .leaving) }
  | some .checking =>
    some { s with running := s.running && !s.closed, worker := some .testing }
  | some .leaving =>
    some { s with
      reply := if s.reply = .pending then .failed else s.reply
      worker := some .ended
      workerLoops := s.workerLoops - 1 }
  | _ => none

/-- One step of a client that has not aborted. -/
def act (s : ClientSession) : SessionAction → Option ClientSession
  | .connect => if s.call = .idle then some { s with call := s.release .connect } else none
  | .disconnect =>
    if s.call = .idle then
      some { s with call := if s.running then .acking else s.release .disconnected }
    else none
  | .open fails =>
    if s.call ≠ .opening then none
    else if s.opened then some { s with call := .opened }
    else if fails then some { s with call := .idle, threw := true }
    else some { s with opened := true, closed := false, call := .opened }
  | .call => s.advance
  | .work => s.work
  | .timeout =>
    if s.worker = some .receiving then some { s with worker := some .checking } else none
  | .answer ok =>
    if s.worker = some .receiving ∧ s.reply = .pending then
      some { s with worker := some .testing, reply := if ok then .ok else .failed }
    else none
  | .frame =>
    if s.worker = some .receiving then some { s with worker := some .testing } else none
  | .event =>
    if s.event = some .waiting ∧ s.running = false then
      some { s with event := some .ended, eventLoops := s.eventLoops - 1 }
    else none
  | .serverClose => if s.opened then some { s with closed := true } else none

/-- One step. -/
def step (s : ClientSession) (a : SessionAction) : Option ClientSession :=
  if s.aborted then none else s.act a

end ClientSession

/-- `connect` is called when the client does not run, and its transport is shut or will be. -/
def Ready (s : ClientSession) : SessionAction → Prop
  | .connect =>
    s.running = false ∧ (s.opened = true → s.worker.isSome = true ∨ s.event.isSome = true)
  | _ => True

/-- The client is as a new one whose `connect` comes to `open`. The promise and the state of the
stream are those of the last session, and are set before they are read. -/
def AsNew (s : ClientSession) : Prop :=
  s = { call := .opening, reply := s.reply, closed := s.closed, threw := s.threw }

/-- What is asked of a client that is connected and disconnected again and again. -/
structure Orderly (s : ClientSession) : Prop where
  /-- No thread was assigned over a joinable one. -/
  alive : s.aborted = false
  worker : s.workerLoops ≤ 1
  event : s.eventLoops ≤ 1
  /-- A `connect` starts as on a new client. -/
  fresh : s.call = .opening → AsNew s

/-! ## What the client keeps -/

/-- The loops of a thread that is held. -/
def SessionWorker.loops : Option SessionWorker → Nat
  | none | some .ended => 0
  | some _ => 1

def SessionEvents.loops : Option SessionEvents → Nat
  | none | some .ended => 0
  | some _ => 1

theorem SessionWorker.loops_le_one (worker : Option SessionWorker) : loops worker ≤ 1 := by
  rcases worker with _ | _ | _ | _ | _ | _ <;> decide

theorem SessionEvents.loops_le_one (event : Option SessionEvents) : loops event ≤ 1 := by
  rcases event with _ | _ | _ <;> decide

/-- What holds where the calling thread is. -/
def SessionCall.Asserts (s : ClientSession) : SessionCall → Prop
  | .shutdown _ => s.running = false
  | .joinWorker next => s.running = false ∧ (next ≠ .lost → s.opened = false)
  | .joinEvent next => s.running = false ∧ (next ≠ .lost → s.opened = false) ∧ s.worker = none
  | .opening => s.running = false ∧ s.opened = false ∧ s.worker = none ∧ s.event = none
  | .opened | .startWorker => s.worker = none ∧ s.event = none
  | .startEvent => s.event = none
  | .idle | .requesting | .waiting | .caught | .acking => True

namespace ClientSession

variable {s s' : ClientSession}

/-- The other threads do not start a thread, and only clear `running_`. -/
theorem asserts_of_others {call : SessionCall} (h : call.Asserts s)
    (hrunning : s.running = false → s'.running = false) (hopened : s'.opened = s.opened)
    (hworker : s.worker = none → s'.worker = none) (hevent : s.event = none → s'.event = none) :
    call.Asserts s' := by
  cases call with
  | shutdown next => exact hrunning h
  | joinWorker next => exact ⟨hrunning h.1, fun hnext => hopened.trans (h.2 hnext)⟩
  | joinEvent next =>
    obtain ⟨hstopped, hshut, hnone⟩ := h
    exact ⟨hrunning hstopped, fun hnext => hopened.trans (hshut hnext), hworker hnone⟩
  | opening =>
    obtain ⟨hstopped, hshut, hnone, hevents⟩ := h
    exact ⟨hrunning hstopped, hopened.trans hshut, hworker hnone, hevent hevents⟩
  | opened | startWorker => exact ⟨hworker h.1, hevent h.2⟩
  | startEvent => exact hevent h
  | idle | requesting | waiting | caught | acking => exact trivial

/-- The calling thread's assertion, and the loops that run. -/
structure Sound (s : ClientSession) : Prop where
  alive : s.aborted = false
  asserts : s.call.Asserts s
  workers : s.workerLoops = SessionWorker.loops s.worker
  events : s.eventLoops = SessionEvents.loops s.event

theorem init_sound : Sound {} where
  alive := rfl
  asserts := trivial
  workers := rfl
  events := rfl

theorem Sound.advance (hs : s.Sound) (h : s.advance = some s') : s'.Sound := by
  have hasserts := hs.asserts
  cases hcall : s.call with
  | idle | opening => simp only [ClientSession.advance, hcall, reduceCtorEq] at h
  | shutdown next =>
    rw [hcall] at hasserts
    simp only [ClientSession.advance, hcall, Option.some.injEq] at h
    subst h
    exact ⟨hs.alive, ⟨hasserts, fun _ => rfl⟩, hs.workers, hs.events⟩
  | joinWorker next =>
    rw [hcall] at hasserts
    simp only [ClientSession.advance, hcall] at h
    -- the loop of a thread that was joined has ended
    have hjoined : SessionWorker.loops s.worker = 0 ∧
        s' = { s with worker := none, call := .joinEvent next } := by
      split at h
      next hnone =>
        cases h
        exact ⟨by rw [hnone]; rfl, rfl⟩
      next hended =>
        cases h
        exact ⟨by rw [hended]; rfl, rfl⟩
      next => cases h
    obtain ⟨hloops, rfl⟩ := hjoined
    exact ⟨hs.alive, ⟨hasserts.1, hasserts.2, rfl⟩, hs.workers.trans hloops, hs.events⟩
  | joinEvent next =>
    rw [hcall] at hasserts
    simp only [ClientSession.advance, hcall] at h
    have hjoined : SessionEvents.loops s.event = 0 ∧ s' = { s with
        event := none, call := next.resume, threw := s.threw || decide (next = .lost) } := by
      split at h
      next hnone =>
        cases h
        exact ⟨by rw [hnone]; rfl, rfl⟩
      next hended =>
        cases h
        exact ⟨by rw [hended]; rfl, rfl⟩
      next => cases h
    obtain ⟨hloops, rfl⟩ := hjoined
    refine ⟨hs.alive, ?_, hs.workers, hs.events.trans hloops⟩
    obtain ⟨hstopped, hshut, hnone⟩ := hasserts
    cases next with
    | connect => exact ⟨hstopped, hshut (by decide), hnone, rfl⟩
    | disconnected | lost => exact trivial
  | opened =>
    rw [hcall] at hasserts
    simp only [ClientSession.advance, hcall, Option.some.injEq] at h
    subst h
    exact ⟨hs.alive, hasserts, hs.workers, hs.events⟩
  | startWorker =>
    rw [hcall] at hasserts
    simp only [ClientSession.advance, hcall, Option.some.injEq] at h
    subst h
    obtain ⟨hnone, hevents⟩ := hasserts
    have hloops := hs.workers
    rw [hnone] at hloops
    refine ⟨?_, hevents, ?_, hs.events⟩
    · show s.worker.isSome = false
      rw [hnone]
      rfl
    · show s.workerLoops + 1 = 1
      rw [hloops]
      rfl
  | startEvent =>
    rw [hcall] at hasserts
    simp only [ClientSession.advance, hcall, Option.some.injEq] at h
    subst h
    have hnone : s.event = none := hasserts
    have hloops := hs.events
    rw [hnone] at hloops
    refine ⟨?_, trivial, hs.workers, ?_⟩
    · show s.event.isSome = false
      rw [hnone]
      rfl
    · show s.eventLoops + 1 = 1
      rw [hloops]
      rfl
  | requesting =>
    simp only [ClientSession.advance, hcall, Option.some.injEq] at h
    subst h
    exact ⟨hs.alive, trivial, hs.workers, hs.events⟩
  | waiting =>
    simp only [ClientSession.advance, hcall] at h
    split at h
    · cases h
    · cases h
      exact ⟨hs.alive, trivial, hs.workers, hs.events⟩
    · cases h
      exact ⟨hs.alive, trivial, hs.workers, hs.events⟩
  | caught =>
    simp only [ClientSession.advance, hcall] at h
    split at h
    · cases h
      exact ⟨hs.alive, trivial, hs.workers, hs.events⟩
    next hstopped =>
      cases h
      simp only [Bool.not_eq_true] at hstopped
      exact ⟨hs.alive, ⟨hstopped, fun hnext => absurd rfl hnext⟩, hs.workers, hs.events⟩
  | acking =>
    simp only [ClientSession.advance, hcall, Option.some.injEq] at h
    subst h
    exact ⟨hs.alive, rfl, hs.workers, hs.events⟩

/-- A step of the worker, of which the calling thread sees no more than a cleared `running_`. -/
theorem Sound.worker (hs : s.Sound) {worker : SessionWorker} (hjoinable : s.worker ≠ none)
    (hs' : s' = { s with running := s'.running, reply := s'.reply, worker := some worker,
                         workerLoops := s'.workerLoops })
    (hrunning : s.running = false → s'.running = false)
    (hloops : s'.workerLoops = SessionWorker.loops (some worker)) : s'.Sound := by
  rw [hs']
  refine ⟨hs.alive, ?_, hloops, hs.events⟩
  exact asserts_of_others hs.asserts hrunning rfl (fun hnone => absurd hnone hjoinable) id

theorem Sound.work (hs : s.Sound) (h : s.work = some s') : s'.Sound := by
  have hloops := hs.workers
  cases hworker : s.worker with
  | none => simp only [ClientSession.work, hworker, reduceCtorEq] at h
  | some worker =>
    have hjoinable : s.worker ≠ none := by simp only [hworker, ne_eq, reduceCtorEq,
      not_false_eq_true]
    rw [hworker] at hloops
    cases worker with
    | testing =>
      simp only [ClientSession.work, hworker, Option.some.injEq] at h
      subst h
      refine hs.worker hjoinable rfl id (hloops.trans ?_)
      cases s.running <;> rfl
    | checking =>
      simp only [ClientSession.work, hworker, Option.some.injEq] at h
      subst h
      refine hs.worker hjoinable rfl (fun hstopped => ?_) hloops
      show (s.running && !s.closed) = false
      rw [hstopped]
      rfl
    | leaving =>
      simp only [ClientSession.work, hworker, Option.some.injEq] at h
      subst h
      refine hs.worker hjoinable rfl id ?_
      show s.workerLoops - 1 = 0
      rw [hloops]
      rfl
    | receiving | ended => simp only [ClientSession.work, hworker, reduceCtorEq] at h

/-- Where `receive` ends, the worker's loop goes on. -/
theorem Sound.received (hs : s.Sound) {worker : SessionWorker} {reply : SessionReply}
    (hreceiving : s.worker = some .receiving) (hgoes : SessionWorker.loops (some worker) = 1) :
    Sound { s with worker := some worker, reply := reply } := by
  have hloops := hs.workers
  rw [hreceiving] at hloops
  refine hs.worker ?_ rfl id (hloops.trans hgoes.symm)
  rw [hreceiving]
  exact Option.some_ne_none _

/-- `release_closed_session` leaves nothing to a `connect` that was called in time. -/
theorem Sound.connect (hs : s.Sound) (hready : Ready s .connect) :
    Sound { s with call := s.release .connect } := by
  obtain ⟨hstopped, hshut⟩ := hready
  refine ⟨hs.alive, ?_, hs.workers, hs.events⟩
  show (s.release .connect).Asserts _
  unfold release
  split
  next hnone =>
    simp only [hstopped, Bool.false_or, Bool.not_eq_true', Bool.or_eq_false_iff,
      Option.isSome_eq_false_iff, Option.isNone_iff_eq_none] at hnone
    refine ⟨hstopped, ?_, hnone.1, hnone.2⟩
    cases hopened : s.opened with
    | false => rfl
    | true =>
      have hheld := hshut hopened
      simp only [hnone.1, hnone.2, Option.isSome_none, Bool.false_eq_true, or_self] at hheld
  next => exact hstopped

theorem Sound.step (hs : s.Sound) {a : SessionAction} (hready : Ready s a)
    (h : s.step a = some s') : s'.Sound := by
  have hlive : ¬ s.aborted = true := by
    rw [hs.alive]
    exact Bool.false_ne_true
  rw [ClientSession.step, if_neg hlive] at h
  cases a with
  | connect =>
    simp only [act] at h
    split at h
    · cases h
      exact hs.connect hready
    · cases h
  | disconnect =>
    simp only [act] at h
    split at h
    · cases h
      refine ⟨hs.alive, ?_, hs.workers, hs.events⟩
      show SessionCall.Asserts _ (if s.running then .acking else s.release .disconnected)
      split
      · exact trivial
      next hstopped =>
        simp only [Bool.not_eq_true] at hstopped
        unfold release
        split
        · exact trivial
        · exact hstopped
    · cases h
  | «open» fails =>
    simp only [act] at h
    split at h
    · cases h
    next hcall =>
      have hasserts := hs.asserts
      simp only [ne_eq, Decidable.not_not] at hcall
      rw [hcall] at hasserts
      obtain ⟨-, -, hnone, hevents⟩ := hasserts
      split at h
      · cases h
        exact ⟨hs.alive, ⟨hnone, hevents⟩, hs.workers, hs.events⟩
      · split at h
        · cases h
          exact ⟨hs.alive, trivial, hs.workers, hs.events⟩
        · cases h
          exact ⟨hs.alive, ⟨hnone, hevents⟩, hs.workers, hs.events⟩
  | call => exact hs.advance h
  | work => exact hs.work h
  | timeout | frame =>
    simp only [act] at h
    split at h
    next hreceiving =>
      cases h
      exact hs.received hreceiving rfl
    · cases h
  | answer ok =>
    simp only [act] at h
    split at h
    next hreceiving =>
      cases h
      exact hs.received hreceiving.1 rfl
    · cases h
  | event =>
    simp only [act] at h
    split at h
    next hevent =>
      cases h
      have hloops := hs.events
      rw [hevent.1] at hloops
      refine ⟨hs.alive, ?_, hs.workers, ?_⟩
      · refine asserts_of_others hs.asserts id rfl id fun hnone => ?_
        rw [hevent.1] at hnone
        cases hnone
      · show s.eventLoops - 1 = 0
        rw [hloops]
        rfl
    · cases h
  | serverClose =>
    simp only [act] at h
    split at h
    · cases h
      exact ⟨hs.alive, asserts_of_others hs.asserts id rfl id id, hs.workers, hs.events⟩
    · cases h

theorem Sound.orderly (hs : s.Sound) : Orderly s where
  alive := hs.alive
  worker := by
    rw [hs.workers]
    exact SessionWorker.loops_le_one _
  event := by
    rw [hs.events]
    exact SessionEvents.loops_le_one _
  fresh := by
    intro hcall
    have hasserts := hs.asserts
    rw [hcall] at hasserts
    obtain ⟨hstopped, hshut, hnone, hevents⟩ := hasserts
    have hworkers := hs.workers
    have heventLoops := hs.events
    rw [hnone] at hworkers
    rw [hevents] at heventLoops
    have halive := hs.alive
    cases s
    simp only [AsNew] at *
    subst hcall hstopped hshut hnone hevents hworkers heventLoops halive
    rfl

end ClientSession

/-- **The sessions of a client** in every run in which `connect` is called on a client that does not
run and whose last handshake was not lost. -/
theorem ready_sessions {s : ClientSession} (actions : List SessionAction)
    (hready : Machine.Each ClientSession.step Ready {} actions)
    (h : Machine.run ClientSession.step {} actions = some s) : Orderly s :=
  (Machine.run_invariant_of_each (I := ClientSession.Sound)
    (fun _ _ _ hs hready hstep => hs.step hready hstep) ClientSession.init_sound hready h).orderly

/-- `open` fails; a session that the server closes; a refused one, and `disconnect`; the next. -/
def sessions : List SessionAction :=
  [.connect, .open true,
    .connect, .open false, .call, .call, .call, .call, .work, .answer true, .call,
    .serverClose, .work, .timeout, .work, .work, .work, .event,
    .connect, .call, .call, .call, .open false, .call, .call, .call, .call, .work, .answer false,
    .call, .call,
    .disconnect, .call, .call, .work, .work, .event, .call, .call,
    .connect, .open false, .call, .call, .call, .call]

/-- `OP_CONNECT` is answered with an error, and `connect` is called again. -/
def refusedTwice : List SessionAction :=
  [.connect, .open false, .call, .call, .call, .call, .work, .answer false, .call, .call,
    .connect, .open false, .call, .call]

/-- The server closes during the handshake, and `connect` is called again. -/
def lostTwice : List SessionAction :=
  [.connect, .open false, .call, .call, .call, .call, .serverClose, .work, .timeout, .work, .work,
    .work, .event, .call, .call, .call, .call, .connect]

instance (s : ClientSession) (a : SessionAction) : Decidable (Ready s a) :=
  match a with
  | .connect => inferInstanceAs (Decidable (s.running = false ∧
      (s.opened = true → s.worker.isSome = true ∨ s.event.isSome = true)))
  | .disconnect | .open _ | .call | .work | .timeout | .answer _ | .frame | .event
  | .serverClose => .isTrue trivial

theorem ready_sessions_run : ∃ s, Machine.run ClientSession.step {} sessions = some s ∧
    Orderly s ∧ s.running = true ∧ s.workerLoops = 1 ∧ s.eventLoops = 1 := by
  have hrun : Machine.run ClientSession.step {} sessions = some
      { call := .waiting, running := true, worker := some .testing, event := some .waiting
        opened := true, workerLoops := 1, eventLoops := 1, threw := true } := by decide
  have hready : Machine.Each ClientSession.step Ready {} sessions := by decide
  exact ⟨_, hrun, ready_sessions sessions hready hrun, rfl, rfl, rfl⟩

/-- The server answers `OP_CONNECT` with an error, and `connect` throws with both threads joinable:
the next `connect` assigns over them. Or the handshake is lost, and both were joined with the
transport still open: the next `connect` opens no stream, and its worker stops as well. -/
theorem refused_connect :
    (∃ s, Machine.run ClientSession.step {} refusedTwice = some s ∧ s.aborted = true ∧
      s.workerLoops = 2) ∧
    (∃ s, Machine.run ClientSession.step {} lostTwice = some s ∧ s.threw = true ∧
      s.call = .opening ∧ ¬ AsNew s) := by
  refine ⟨⟨_, rfl, rfl, rfl⟩, ⟨_, rfl, rfl, rfl, fun hnew => ?_⟩⟩
  -- a new client comes to `open` with its transport shut
  have hopened := congrArg ClientSession.opened hnew
  cases hopened

end Bison
