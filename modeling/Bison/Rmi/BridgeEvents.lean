import Mathlib.Logic.Function.Basic
import Bison.Lib.Machine
import Bison.Rmi.Bridge

/-!
# The events of a bridge

An event of the upstream server is sent on to every session of the bridge (bridge.cpp). The upstream
receive thread does so while the other threads create and tear down sessions and their connections
close; each critical section is one step.

- `Relay.step`: one step.
- `Isolated`: a send that throws takes the event from nobody.
- `isolated_broadcasts`: **main result**, in a run of such steps every session that stays gets each
  event once, and in every run nothing is sent on a session's connection after its teardown.
- `throw_starves`: a closed connection takes the event from the sessions behind it.
-/

namespace Bison

open SortedMap

variable {μ : Type}

def KIND_EVENT : Key := key "event"
def OP_EVENT : Key := key "event"

/-- An event as `emit` is given it. -/
structure Event where
  objectId : Key
  name : Key
  params : Fields

/-- The frame that `emit_event` sends (server.cpp:333). -/
def eventEnvelope (e : Event) : Envelope :=
  { kind := KIND_EVENT
    op := OP_EVENT
    objectId := e.objectId
    oneway := true
    payload := insert FIELD_PARAMS (.object e.params)
      (insert FIELD_NAME (.key e.name) (insert NAMESPACE (.key 0) Dynamic.empty)) }

/-- What `route_event` reads of a frame (bridge.cpp:207). -/
def readEvent (reg : Registry μ) (env : Envelope) : Except Exn Event := do
  let (nameField, payload) ← findField reg FIELD_NAME env.payload
  let name := match nameField with
    | some (.key k) => k
    | _ => 0
  let (paramsField, _) ← findField reg FIELD_PARAMS payload
  let params := match paramsField with
    | some (.object fields) => fields
    | _ => Dynamic.empty
  return ⟨env.objectId, name, params⟩

/-- What `route_event` reads of an event frame that has crossed the wire. -/
theorem readEvent_crossed (reg : Registry μ) (e : Event) :
    readEvent reg (eventEnvelope e).crossed =
      .ok { e with params := withNamespace (completeEntries e.params) } := by
  have hname : (eventEnvelope e).crossed.payload.lookup FIELD_NAME = some (.key e.name) := by
    rw [Envelope.crossed, completeEntries_lookup, eventEnvelope,
      lookup_insert_ne _ (by decide), lookup_insert_self, Option.map_some]
    simp only [Value.complete]
  have hparams : (eventEnvelope e).crossed.payload.lookup FIELD_PARAMS =
      some (.object (withNamespace (completeEntries e.params))) := by
    rw [Envelope.crossed, completeEntries_lookup, eventEnvelope, lookup_insert_self,
      Option.map_some, Value.complete]
  unfold readEvent findField
  rw [hname]
  simp only [Decoder.ok_bind, hparams]
  rfl

/-! ## The machine -/

/-- `session_state`: whether `emit` may be called, and the connection it captures. -/
structure SessionState where
  active : Bool := true
  emit : Option Key
  deriving Repr, DecidableEq

/-- Where the upstream receive thread is in `route_event`. -/
inductive RouteTask where
  | idle
  -- before `sessions_` is copied
  | copying (e : Event)
  -- with the sessions served and those still to come
  | emitting (e : Event) (served rest : List Key)

/-- Where the thread that tears a session down is in `teardown_session`. -/
inductive Teardown where
  | none
  | erased
  | silenced
  | returned
  deriving Repr, DecidableEq

/-- An event that `route_event` is done with, and the sessions it copied. -/
structure Routed where
  event : Event
  targets : List Key

/-- The bridge. A connection has the key of its session; `sent` has, for every frame that was sent
on it, how many events came before, and `returned` how many frames there were when its teardown
had returned. -/
structure Relay where
  states : Key → Option SessionState := fun _ => none
  sessions : List Key := []
  closed : Key → Bool := fun _ => false
  route : RouteTask := .idle
  teardowns : Key → Teardown := fun _ => .none
  sent : Key → List (Nat × Envelope) := fun _ => []
  returned : Key → Option Nat := fun _ => none
  history : List Routed := []

namespace Relay

/-- `route_event` ends, by its last line or by an exception. -/
def finish (s : Relay) (e : Event) (targets : List Key) : Relay :=
  { s with route := .idle, history := s.history ++ [⟨e, targets⟩] }

/-- `emit` of the session `c`; `none` if the send throws (socket_transport.cpp:185). -/
def emit (s : Relay) (c : Key) (e : Event) : Option Relay :=
  match s.states c with
  | some ⟨true, some conn⟩ =>
    if s.closed conn then none
    else some { s with
      sent := Function.update s.sent conn (s.sent conn ++ [(s.history.length, eventEnvelope e)]) }
  | _ => some s

/-- The next step of `route_event`. `order` is the order in which the map has its sessions. -/
def routeStep (s : Relay) (order : List Key) : Option Relay :=
  match s.route with
  | .idle => none
  | .copying e => if order.Perm s.sessions then some { s with route := .emitting e [] order }
      else none
  | .emitting e served [] => some (s.finish e served)
  | .emitting e served (c :: rest) =>
    match s.emit c e with
    | some s' => some { s' with route := .emitting e (served ++ [c]) rest }
    -- the exception leaves the loop; `receive` then passes the frame on to the client
    | none => some (s.finish e (served ++ c :: rest))

/-- The next step of `teardown_session`. -/
def teardownStep (s : Relay) (c : Key) : Option Relay :=
  match s.teardowns c with
  | .none =>
    if c ∈ s.sessions then
      some { s with
        sessions := s.sessions.erase c, teardowns := Function.update s.teardowns c .erased }
    else none
  | .erased =>
    some { s with
      states := Function.update s.states c (some ⟨false, none⟩)
      teardowns := Function.update s.teardowns c .silenced }
  | .silenced =>
    some { s with
      teardowns := Function.update s.teardowns c .returned
      returned := Function.update s.returned c (some (s.sent c).length) }
  | .returned => none

end Relay

/-- What can happen. -/
inductive RelayAction where
  | create (c : Key)
  | teardown (c : Key)
  | close (c : Key)
  | receive (env : Envelope)
  | route (order : List Key)

/-- One step: `on_session_created` of a session with a new id, a step of a teardown, a connection
that closes, an event frame for `route_event`, or one of its steps. -/
def Relay.step (reg : Registry μ) (s : Relay) : RelayAction → Option Relay
  | .create c =>
    if (s.states c).isSome then none
    else some { s with
      states := Function.update s.states c (some { emit := some c }),
        sessions := s.sessions ++ [c] }
  | .teardown c => s.teardownStep c
  | .close c => some { s with closed := Function.update s.closed c true }
  | .receive env =>
    match s.route with
    | .idle =>
      if env.kind = KIND_EVENT then
        match readEvent reg env with
        | .ok e => some { s with route := .copying e }
        | .error _ => some s
      else none
    | _ => none
  | .route order => s.routeStep order

namespace Relay

variable {s s' : Relay} {reg : Registry μ}

/-! ## What becomes of an event -/

/-- The session is registered and active, and its connection is open. -/
def Reachable (s : Relay) (c : Key) : Prop :=
  c ∈ s.sessions ∧ (∃ conn, s.states c = some ⟨true, some conn⟩) ∧ s.closed c = false

/-- The session is active, but its connection is closed: a send throws. -/
def Severed (s : Relay) (c : Key) : Prop :=
  ∃ conn, s.states c = some ⟨true, some conn⟩ ∧ s.closed conn = true

/-- The frames of the `n`-th event on the connection of a session. -/
def framesOf (s : Relay) (n : Nat) (c : Key) : List Envelope :=
  ((s.sent c).filter (·.1 = n)).map (·.2)

/-- The condition on a step: a send throws only where no session behind it could still be sent the
event. -/
def Isolated (s : Relay) : RelayAction → Prop
  | .route _ =>
    match s.route with
    | .emitting _ _ (c :: rest) => s.Severed c → ∀ d ∈ rest, ¬ s.Reachable d
    | _ => True
  | _ => True

/-- What the sessions get: each event once, no event twice, and nothing after the teardown. -/
structure Broadcasts (s : Relay) : Prop where
  each : ∀ n r, s.history[n]? = some r → ∀ c ∈ r.targets, s.Reachable c →
    s.framesOf n c = [eventEnvelope r.event]
  atMostOnce : ∀ n c, (s.framesOf n c).length ≤ 1
  quiet : ∀ c k, s.returned c = some k → (s.sent c).length = k

/-! ## After a teardown -/

/-- A session whose teardown has come to its second step is not active any more. -/
structure Quiet (s : Relay) : Prop where
  inactive : ∀ c, s.teardowns c = .silenced ∨ s.teardowns c = .returned →
    s.states c = some ⟨false, none⟩
  returned : ∀ c k, s.returned c = some k → s.teardowns c = .returned ∧ (s.sent c).length = k
  own : ∀ c active conn, s.states c = some ⟨active, some conn⟩ → conn = c

/-- What one `emit` does. -/
theorem emit_cases (s : Relay) (c : Key) (e : Event) :
    (∃ conn, s.states c = some ⟨true, some conn⟩ ∧ s.closed conn = true ∧ s.emit c e = none) ∨
    (∃ conn, s.states c = some ⟨true, some conn⟩ ∧ s.closed conn = false ∧
      s.emit c e = some { s with
        sent := Function.update s.sent conn
          (s.sent conn ++ [(s.history.length, eventEnvelope e)]) }) ∨
    ((∀ conn, s.states c ≠ some ⟨true, some conn⟩) ∧ s.emit c e = some s) := by
  unfold emit
  cases hstate : s.states c with
  | none => exact .inr (.inr ⟨by simp, rfl⟩)
  | some st =>
    obtain ⟨active, emit⟩ := st
    cases active with
    | false => exact .inr (.inr ⟨by simp, rfl⟩)
    | true =>
      cases emit with
      | none => exact .inr (.inr ⟨by simp, rfl⟩)
      | some conn =>
        cases hclosed : s.closed conn with
        | false => exact .inr (.inl ⟨conn, rfl, hclosed, by simp [hclosed]⟩)
        | true => exact .inl ⟨conn, rfl, hclosed, by simp [hclosed]⟩

/-- What one step of `route_event` does. -/
inductive RouteStep (s : Relay) : Relay → Prop where
  | copies (e : Event) (order : List Key) (hroute : s.route = .copying e)
      (horder : order.Perm s.sessions) : RouteStep s { s with route := .emitting e [] order }
  | ends (e : Event) (served : List Key) (hroute : s.route = .emitting e served []) :
      RouteStep s (s.finish e served)
  | throws (e : Event) (served rest : List Key) (c : Key)
      (hroute : s.route = .emitting e served (c :: rest)) (hsevered : s.Severed c) :
      RouteStep s (s.finish e (served ++ c :: rest))
  | sends (e : Event) (served rest : List Key) (c conn : Key)
      (hroute : s.route = .emitting e served (c :: rest))
      (hstate : s.states c = some ⟨true, some conn⟩) (hopen : s.closed conn = false) :
      RouteStep s { s with
        sent := Function.update s.sent conn (s.sent conn ++ [(s.history.length, eventEnvelope e)])
        route := .emitting e (served ++ [c]) rest }
  | skips (e : Event) (served rest : List Key) (c : Key)
      (hroute : s.route = .emitting e served (c :: rest))
      (hinactive : ∀ conn, s.states c ≠ some ⟨true, some conn⟩) :
      RouteStep s { s with route := .emitting e (served ++ [c]) rest }

theorem routeStep_cases {order : List Key} (h : s.routeStep order = some s') : RouteStep s s' := by
  unfold routeStep at h
  cases hroute : s.route with
  | idle =>
    rw [hroute] at h
    cases h
  | copying e =>
    simp only [hroute] at h
    by_cases horder : order.Perm s.sessions
    · rw [if_pos horder] at h
      cases h
      exact .copies e order hroute horder
    · rw [if_neg horder] at h
      cases h
  | emitting e served rest =>
    cases rest with
    | nil =>
      simp only [hroute] at h
      cases h
      exact .ends e served hroute
    | cons c rest =>
      simp only [hroute] at h
      rcases s.emit_cases c e with ⟨conn, hstate, hclosed, hemit⟩ | ⟨conn, hstate, hopen, hemit⟩ |
        ⟨hinactive, hemit⟩
      · rw [hemit] at h
        cases h
        exact .throws e served rest c hroute ⟨conn, hstate, hclosed⟩
      · rw [hemit] at h
        cases h
        exact .sends e served rest c conn hroute hstate hopen
      · rw [hemit] at h
        cases h
        exact .skips e served rest c hroute hinactive

/-- What one step of a teardown does. -/
inductive TeardownStep (s : Relay) (c : Key) : Relay → Prop where
  | erases (hnone : s.teardowns c = .none) (hmem : c ∈ s.sessions) : TeardownStep s c { s with
      sessions := s.sessions.erase c, teardowns := Function.update s.teardowns c .erased }
  | silences (herased : s.teardowns c = .erased) : TeardownStep s c { s with
      states := Function.update s.states c (some ⟨false, none⟩)
      teardowns := Function.update s.teardowns c .silenced }
  | returns (hsilenced : s.teardowns c = .silenced) : TeardownStep s c { s with
      teardowns := Function.update s.teardowns c .returned
      returned := Function.update s.returned c (some (s.sent c).length) }

theorem teardownStep_cases {c : Key} (h : s.teardownStep c = some s') : TeardownStep s c s' := by
  unfold teardownStep at h
  cases htask : s.teardowns c with
  | none =>
    simp only [htask] at h
    by_cases hmem : c ∈ s.sessions
    · rw [if_pos hmem] at h
      cases h
      exact .erases htask hmem
    · rw [if_neg hmem] at h
      cases h
  | erased =>
    simp only [htask] at h
    cases h
    exact .silences htask
  | silenced =>
    simp only [htask] at h
    cases h
    exact .returns htask
  | returned =>
    simp only [htask] at h
    cases h

/-- What one step of the machine does. -/
inductive Step (s : Relay) : RelayAction → Relay → Prop where
  | create (c : Key) (hnew : s.states c = none) : Step s (.create c) { s with
      states := Function.update s.states c (some { emit := some c }),
        sessions := s.sessions ++ [c] }
  | teardown (c : Key) {after : Relay} (h : TeardownStep s c after) : Step s (.teardown c) after
  | close (c : Key) : Step s (.close c) { s with closed := Function.update s.closed c true }
  | receive (env : Envelope) (e : Event) (hroute : s.route = .idle) :
      Step s (.receive env) { s with route := .copying e }
  | unread (env : Envelope) : Step s (.receive env) s
  | route (order : List Key) {after : Relay} (h : RouteStep s after) : Step s (.route order) after

theorem step_cases {a : RelayAction} (h : s.step reg a = some s') : Step s a s' := by
  cases a with
  | create c =>
    simp only [step] at h
    split at h
    · cases h
    · rename_i hnew
      cases h
      exact .create c (Option.not_isSome_iff_eq_none.1 hnew)
  | teardown c => exact .teardown c (teardownStep_cases h)
  | close c =>
    cases h
    exact .close c
  | receive env =>
    simp only [step] at h
    cases hroute : s.route with
    | idle =>
      simp only [hroute] at h
      split at h
      · split at h
        · cases h
          exact .receive env _ hroute
        · cases h
          exact .unread env
      · cases h
    | copying e =>
      simp only [hroute] at h
      cases h
    | emitting e served rest =>
      simp only [hroute] at h
      cases h
  | route order => exact .route order (routeStep_cases h)

/-- A session that is active has not returned from its teardown. -/
theorem Quiet.not_returned (h : s.Quiet) {c conn : Key}
    (hstate : s.states c = some ⟨true, some conn⟩) :
    s.returned conn = none := by
  obtain rfl := h.own c true conn hstate
  cases hreturned : s.returned conn with
  | none => rfl
  | some k =>
    have hinactive := h.inactive conn (.inr (h.returned conn k hreturned).1)
    rw [hstate] at hinactive
    cases hinactive

theorem Quiet.route (h : s.Quiet) (hstep : RouteStep s s') : s'.Quiet := by
  cases hstep with
  | copies e order hroute horder => exact ⟨h.inactive, h.returned, h.own⟩
  | ends e served hroute => exact ⟨h.inactive, h.returned, h.own⟩
  | throws e served rest c hroute hsevered => exact ⟨h.inactive, h.returned, h.own⟩
  | sends e served rest c conn hroute hstate hopen =>
    refine ⟨h.inactive, fun d k hd => ?_, h.own⟩
    have hne : d ≠ conn := by
      rintro rfl
      have hnone := h.not_returned hstate
      rw [hd] at hnone
      cases hnone
    obtain ⟨htask, hlength⟩ := h.returned d k hd
    exact ⟨htask, by simp only [Function.update_of_ne hne, hlength]⟩
  | skips e served rest c hroute hinactive => exact ⟨h.inactive, h.returned, h.own⟩

theorem Quiet.teardown (h : s.Quiet) {c : Key} (hstep : TeardownStep s c s') : s'.Quiet := by
  cases hstep with
  | erases hnone hmem =>
    refine ⟨fun d hd => ?_, fun d k hd => ?_, h.own⟩
    · have hne : d ≠ c := by
        rintro rfl
        simp at hd
      simp only [Function.update_of_ne hne] at hd
      exact h.inactive d hd
    · obtain ⟨htask, hlength⟩ := h.returned d k hd
      have hne : d ≠ c := by
        rintro rfl
        rw [hnone] at htask
        cases htask
      exact ⟨by simp only [Function.update_of_ne hne, htask], hlength⟩
  | silences herased =>
    refine ⟨fun d hd => ?_, fun d k hd => ?_, fun d active conn hd => ?_⟩
    · by_cases heq : d = c
      · rw [heq]
        exact Function.update_self ..
      · simp only [Function.update_of_ne heq] at hd ⊢
        exact h.inactive d hd
    · obtain ⟨htask, hlength⟩ := h.returned d k hd
      have hne : d ≠ c := by
        rintro rfl
        rw [herased] at htask
        cases htask
      exact ⟨by simp only [Function.update_of_ne hne, htask], hlength⟩
    · by_cases heq : d = c
      · subst heq
        simp at hd
      · simp only [Function.update_of_ne heq] at hd
        exact h.own d active conn hd
  | returns hsilenced =>
    refine ⟨fun d hd => ?_, fun d k hd => ?_, h.own⟩
    · by_cases heq : d = c
      · subst heq
        exact h.inactive d (.inl hsilenced)
      · simp only [Function.update_of_ne heq] at hd
        exact h.inactive d hd
    · by_cases heq : d = c
      · subst heq
        simp only [Function.update_self, Option.some.injEq] at hd
        exact ⟨Function.update_self .., hd⟩
      · simp only [Function.update_of_ne heq] at hd ⊢
        exact h.returned d k hd

/-- Nothing is sent to a session after its teardown, whatever happens. -/
theorem Quiet.step (h : s.Quiet) {a : RelayAction} (hstep : Step s a s') : s'.Quiet := by
  cases hstep with
  | create c hnew =>
    refine ⟨fun d hd => ?_, h.returned, fun d active conn hd => ?_⟩
    · have hold := h.inactive d hd
      have hne : d ≠ c := by
        rintro rfl
        rw [hnew] at hold
        cases hold
      simp only [Function.update_of_ne hne, hold]
    · by_cases heq : d = c
      · subst heq
        simp only [Function.update_self, Option.some.injEq, SessionState.mk.injEq] at hd
        exact hd.2.symm
      · simp only [Function.update_of_ne heq] at hd
        exact h.own d active conn hd
  | teardown c hstep => exact h.teardown hstep
  | close c => exact ⟨h.inactive, h.returned, h.own⟩
  | receive env e hroute => exact ⟨h.inactive, h.returned, h.own⟩
  | unread env => exact h
  | route order hstep => exact h.route hstep

/-! ## The broadcast -/

/-- The session belongs to an event, one that is done or the one that is being sent. -/
def Targeted (s : Relay) (c : Key) : Prop :=
  (∃ r ∈ s.history, c ∈ r.targets) ∨
    ∃ e served rest, s.route = .emitting e served rest ∧ c ∈ served ++ rest

/-- What every isolated step keeps. -/
structure Fair (s : Relay) : Prop where
  known : ∀ c, s.states c = none → c ∉ s.sessions ∧ ¬ s.Targeted c
  nodup : s.sessions.Nodup
  distinct : ∀ e served rest, s.route = .emitting e served rest → (served ++ rest).Nodup
  -- a frame belongs to an event that is done, or to the one that is being sent
  numbered : ∀ c, ∀ p ∈ s.sent c, p.1 < s.history.length ∨ p.1 = s.history.length ∧
    ∃ e served rest, s.route = .emitting e served rest ∧ c ∈ served
  atMostOnce : ∀ n c, (s.framesOf n c).length ≤ 1
  each : ∀ n r, s.history[n]? = some r → ∀ c ∈ r.targets, s.Reachable c →
    s.framesOf n c = [eventEnvelope r.event]
  current : ∀ e served rest, s.route = .emitting e served rest → ∀ c ∈ served, s.Reachable c →
    s.framesOf s.history.length c = [eventEnvelope e]

theorem fair_init : Fair {} where
  known := by
    rintro c -
    refine ⟨List.not_mem_nil, ?_⟩
    rintro (⟨r, hr, -⟩ | ⟨e, served, rest, hroute, -⟩)
    · cases hr
    · cases hroute
  nodup := List.nodup_nil
  distinct := fun _ _ _ h => nomatch h
  numbered := fun _ _ h => nomatch h
  atMostOnce := fun _ _ => Nat.zero_le _
  each := fun _ _ h => nomatch h
  current := fun _ _ _ h => nomatch h

/-- Sessions come and go and connections close: of the sessions that were there, those that can
still be reached could be before. -/
theorem Fair.shrink (h : s.Fair) (hroute : s'.route = s.route) (hsent : s'.sent = s.sent)
    (hhistory : s'.history = s.history) (hnodup : s'.sessions.Nodup)
    (hstates : ∀ c, s'.states c = none → s.states c = none ∧ (c ∈ s'.sessions → c ∈ s.sessions))
    (hreach : ∀ c, s.states c ≠ none → s'.Reachable c → s.Reachable c) : s'.Fair := by
  have htargeted (c : Key) : s'.Targeted c ↔ s.Targeted c := by
    unfold Targeted
    rw [hhistory, hroute]
  have hframes (n : Nat) (c : Key) : s'.framesOf n c = s.framesOf n c := by
    unfold framesOf
    rw [hsent]
  have hthere {c : Key} (hc : s.Targeted c) : s.states c ≠ none := fun hnone =>
    (h.known c hnone).2 hc
  constructor
  · intro c hnone
    obtain ⟨hold, hmem⟩ := hstates c hnone
    exact ⟨fun hc => (h.known c hold).1 (hmem hc),
      fun hc => (h.known c hold).2 ((htargeted c).1 hc)⟩
  · exact hnodup
  · rw [hroute]
    exact h.distinct
  · rw [hroute, hsent, hhistory]
    exact h.numbered
  · intro n c
    rw [hframes]
    exact h.atMostOnce n c
  · intro n r hr c hc hreachable
    rw [hhistory] at hr
    rw [hframes]
    have hold := hthere (.inl ⟨r, List.mem_of_getElem? hr, hc⟩)
    exact h.each n r hr c hc (hreach c hold hreachable)
  · intro e served rest hemitting c hc hreachable
    rw [hroute] at hemitting
    rw [hframes, hhistory]
    have hold := hthere (.inr ⟨e, served, rest, hemitting, List.mem_append_left _ hc⟩)
    exact h.current e served rest hemitting c hc (hreach c hold hreachable)

/-- No frame of the event that is being sent is on the connection of a session still to come. -/
theorem Fair.framesOf_nil (h : s.Fair) {c : Key}
    (hc : ∀ e served rest, s.route = .emitting e served rest → c ∉ served) :
    s.framesOf s.history.length c = [] := by
  unfold framesOf
  rw [List.filter_eq_nil_iff.2, List.map_nil]
  intro p hp heq
  rcases h.numbered c p hp with hless | ⟨-, e, served, rest, hroute, hmem⟩
  · exact absurd (of_decide_eq_true heq) (Nat.ne_of_lt hless)
  · exact hc e served rest hroute hmem

/-- `route_event` ends: those who can be reached have got the event. -/
theorem Fair.finish (h : s.Fair) {e : Event} {served rest : List Key}
    (hroute : s.route = .emitting e served rest) (hrest : ∀ c ∈ rest, ¬ s.Reachable c) :
    (s.finish e (served ++ rest)).Fair := by
  constructor
  · intro c hnone
    refine ⟨(h.known c hnone).1, ?_⟩
    rintro (⟨r, hr, hc⟩ | ⟨e', served', rest', hroute', -⟩)
    · rcases List.mem_append.1 hr with hr | hr
      · exact (h.known c hnone).2 (.inl ⟨r, hr, hc⟩)
      · cases List.mem_singleton.1 hr
        exact (h.known c hnone).2 (.inr ⟨e, served, rest, hroute, hc⟩)
    · cases hroute'
  · exact h.nodup
  · exact fun _ _ _ hroute' => nomatch hroute'
  · intro c p hp
    left
    show p.1 < (s.history ++ [_]).length
    rw [List.length_append, List.length_singleton]
    rcases h.numbered c p hp with hless | ⟨heq, -⟩
    · exact Nat.lt_succ_of_lt hless
    · exact heq ▸ Nat.lt_succ_self _
  · exact h.atMostOnce
  · intro n r hr c hc hreachable
    show s.framesOf n c = _
    have hr : (s.history ++ [⟨e, served ++ rest⟩])[n]? = some r := hr
    by_cases hn : n < s.history.length
    · rw [List.getElem?_append_left hn] at hr
      exact h.each n r hr c hc hreachable
    · have hlast : n = s.history.length := by
        have := (List.getElem?_eq_some_iff.1 hr).1
        rw [List.length_append, List.length_singleton] at this
        omega
      subst hlast
      rw [List.getElem?_append_right (Nat.le_refl _), Nat.sub_self] at hr
      cases hr
      rcases List.mem_append.1 hc with hc | hc
      · exact h.current e served rest hroute c hc hreachable
      · exact (hrest c hc hreachable).elim
  · exact fun _ _ _ hroute' => nomatch hroute'

/-- The next session has its turn; `sent` is what the connections have after it. -/
theorem Fair.turn (h : s.Fair) {e : Event} {served rest : List Key} {c : Key}
    {sent : Key → List (Nat × Envelope)} (hroute : s.route = .emitting e served (c :: rest))
    (hother : ∀ d, d ≠ c → sent d = s.sent d)
    (hc : sent c = s.sent c ∧ ¬ s.Reachable c ∨
      sent c = s.sent c ++ [(s.history.length, eventEnvelope e)]) :
    Fair { s with sent := sent, route := .emitting e (served ++ [c]) rest } := by
  let after : Relay := { s with sent := sent, route := .emitting e (served ++ [c]) rest }
  have hsplit : served ++ [c] ++ rest = served ++ c :: rest := by simp
  have hdistinct := h.distinct e served (c :: rest) hroute
  have hnot : c ∉ served := fun hmem => by
    rw [← hsplit, List.append_assoc, List.nodup_append] at hdistinct
    exact hdistinct.2.2 c hmem c (by simp) rfl
  have hnone : s.framesOf s.history.length c = [] := by
    refine h.framesOf_nil fun e' served' rest' hroute' => ?_
    rw [hroute] at hroute'
    cases hroute'
    exact hnot
  have hframes (n : Nat) (d : Key) (hd : d ≠ c) : after.framesOf n d = s.framesOf n d := by
    unfold framesOf
    rw [show after.sent d = s.sent d from hother d hd]
  have hpast (n : Nat) (hn : n ≠ s.history.length) : after.framesOf n c = s.framesOf n c := by
    unfold framesOf
    rcases hc with ⟨hc, -⟩ | hc
    · rw [show after.sent c = s.sent c from hc]
    · rw [show after.sent c = _ from hc, List.filter_append, List.map_append]
      simp [Ne.symm hn]
  have hnow : after.framesOf s.history.length c = [] ∧ ¬ s.Reachable c ∨
      after.framesOf s.history.length c = [eventEnvelope e] := by
    rcases hc with ⟨hc, hout⟩ | hc
    · refine .inl ⟨?_, hout⟩
      rw [← hnone]
      unfold framesOf
      rw [show after.sent c = s.sent c from hc]
    · right
      have hnew : after.framesOf s.history.length c =
          s.framesOf s.history.length c ++ [eventEnvelope e] := by
        unfold framesOf
        rw [show after.sent c = _ from hc, List.filter_append, List.map_append]
        simp
      rw [hnew, hnone, List.nil_append]
  constructor
  · intro d hd
    refine ⟨(h.known d hd).1, ?_⟩
    rintro (⟨r, hr, hmem⟩ | ⟨e', served', rest', hroute', hmem⟩)
    · exact (h.known d hd).2 (.inl ⟨r, hr, hmem⟩)
    · cases hroute'
      rw [hsplit] at hmem
      exact (h.known d hd).2 (.inr ⟨e, served, c :: rest, hroute, hmem⟩)
  · exact h.nodup
  · intro e' served' rest' hroute'
    cases hroute'
    rw [hsplit]
    exact hdistinct
  · intro d p hp
    have hold (hp : p ∈ s.sent d) : p.1 < s.history.length ∨ p.1 = s.history.length ∧
        ∃ e' served' rest', after.route = .emitting e' served' rest' ∧ d ∈ served' := by
      refine (h.numbered d p hp).imp_right ?_
      rintro ⟨heq, e', served', rest', hroute', hmem⟩
      rw [hroute] at hroute'
      cases hroute'
      exact ⟨heq, e, served ++ [c], rest, rfl, List.mem_append_left _ hmem⟩
    replace hp : p ∈ sent d := hp
    by_cases hd : d = c
    · subst hd
      rcases hc with ⟨hc, -⟩ | hc
      · rw [hc] at hp
        exact hold hp
      · rw [hc] at hp
        rcases List.mem_append.1 hp with hp | hp
        · exact hold hp
        · rw [List.mem_singleton.1 hp]
          exact .inr ⟨rfl, e, served ++ [d], rest, rfl, by simp⟩
    · rw [hother d hd] at hp
      exact hold hp
  · intro n d
    show (after.framesOf n d).length ≤ 1
    by_cases hd : d = c
    · subst hd
      by_cases hn : n = s.history.length
      · subst hn
        rcases hnow with ⟨hnow, -⟩ | hnow <;> simp [hnow]
      · rw [hpast n hn]
        exact h.atMostOnce n d
    · rw [hframes n d hd]
      exact h.atMostOnce n d
  · intro n r hr d hd hreachable
    have hn : n ≠ s.history.length := by
      have := (List.getElem?_eq_some_iff.1 hr).1
      exact Nat.ne_of_lt this
    show after.framesOf n d = _
    have hold := h.each n r hr d hd hreachable
    by_cases heq : d = c
    · subst heq
      rw [hpast n hn]
      exact hold
    · rw [hframes n d heq]
      exact hold
  · intro e' served' rest' hroute' d hd hreachable
    cases hroute'
    show after.framesOf s.history.length d = _
    by_cases heq : d = c
    · subst heq
      exact hnow.resolve_left fun hout => hout.2 hreachable
    · rw [hframes _ d heq]
      have hmem : d ∈ served := by
        rcases List.mem_append.1 hd with hd | hd
        · exact hd
        · exact absurd (List.mem_singleton.1 hd) heq
      exact h.current e served (c :: rest) hroute d hmem hreachable

theorem Fair.route (h : s.Fair) (hquiet : s.Quiet) {order : List Key}
    (hisolated : s.Isolated (.route order)) (hstep : RouteStep s s') : s'.Fair := by
  cases hstep with
  | copies e order hroute horder =>
    constructor
    · intro c hnone
      refine ⟨(h.known c hnone).1, ?_⟩
      rintro (⟨r, hr, hc⟩ | ⟨e', served', rest', hroute', hc⟩)
      · exact (h.known c hnone).2 (.inl ⟨r, hr, hc⟩)
      · cases hroute'
        exact (h.known c hnone).1 (horder.mem_iff.1 hc)
    · exact h.nodup
    · intro e' served' rest' hroute'
      cases hroute'
      exact horder.nodup_iff.2 h.nodup
    · intro c p hp
      refine (h.numbered c p hp).imp_right ?_
      rintro ⟨-, e', served', rest', hroute', -⟩
      rw [hroute] at hroute'
      cases hroute'
    · exact h.atMostOnce
    · exact h.each
    · intro e' served' rest' hroute' c hc
      cases hroute'
      cases hc
  | ends e served hroute =>
    have hfinish := h.finish hroute fun _ hc => absurd hc List.not_mem_nil
    rwa [List.append_nil] at hfinish
  | throws e served rest c hroute hsevered =>
    refine h.finish hroute fun d hd => ?_
    rcases List.mem_cons.1 hd with rfl | hd
    · rintro ⟨-, -, hopen⟩
      obtain ⟨conn, hstate, hclosed⟩ := hsevered
      rw [hquiet.own d true conn hstate, hopen] at hclosed
      cases hclosed
    · have hcondition : s.Severed c → ∀ d ∈ rest, ¬ s.Reachable d := by
        simpa only [Isolated, hroute] using hisolated
      exact hcondition hsevered d hd
  | sends e served rest c conn hroute hstate hopen =>
    obtain rfl := hquiet.own c true conn hstate
    exact h.turn hroute (fun d hd => Function.update_of_ne hd ..) (.inr (Function.update_self ..))
  | skips e served rest c hroute hinactive =>
    refine h.turn hroute (fun _ _ => rfl) (.inl ⟨rfl, ?_⟩)
    rintro ⟨-, ⟨conn, hstate⟩, -⟩
    exact hinactive conn hstate

theorem Fair.teardown (h : s.Fair) {c : Key} (hstep : TeardownStep s c s') : s'.Fair := by
  cases hstep with
  | erases hnone hmem =>
    refine h.shrink rfl rfl rfl (h.nodup.erase c) (fun d hd => ⟨hd, List.mem_of_mem_erase⟩) ?_
    rintro d - ⟨hd, hreachable⟩
    exact ⟨List.mem_of_mem_erase hd, hreachable⟩
  | silences herased =>
    refine h.shrink rfl rfl rfl h.nodup (fun d hd => ?_) ?_
    · by_cases heq : d = c
      · subst heq
        simp at hd
      · simp only [Function.update_of_ne heq] at hd
        exact ⟨hd, id⟩
    · rintro d - ⟨hd, ⟨conn, hstate⟩, hopen⟩
      have hne : d ≠ c := by
        rintro rfl
        simp at hstate
      simp only [Function.update_of_ne hne] at hstate
      exact ⟨hd, ⟨conn, hstate⟩, hopen⟩
  | returns hsilenced => exact h.shrink rfl rfl rfl h.nodup (fun d hd => ⟨hd, id⟩) fun _ _ hd => hd

theorem Fair.step (h : s.Fair) (hquiet : s.Quiet) {a : RelayAction} (hisolated : s.Isolated a)
    (hstep : Step s a s') : s'.Fair := by
  cases hstep with
  | create c hnew =>
    refine h.shrink rfl rfl rfl ?_ (fun d hd => ?_) ?_
    · refine List.nodup_append.2 ⟨h.nodup, List.nodup_singleton c, fun d hd d' hd' heq => ?_⟩
      rw [List.mem_singleton.1 hd'] at heq
      exact (h.known c hnew).1 (heq ▸ hd)
    · by_cases heq : d = c
      · subst heq
        simp at hd
      · simp only [Function.update_of_ne heq] at hd
        refine ⟨hd, fun hmem => ?_⟩
        rcases List.mem_append.1 hmem with hmem | hmem
        · exact hmem
        · exact absurd (List.mem_singleton.1 hmem) heq
    · rintro d hd ⟨hmem, ⟨conn, hstate⟩, hopen⟩
      have hne : d ≠ c := fun heq => hd (heq ▸ hnew)
      simp only [Function.update_of_ne hne] at hstate
      refine ⟨?_, ⟨conn, hstate⟩, hopen⟩
      rcases List.mem_append.1 hmem with hmem | hmem
      · exact hmem
      · exact absurd (List.mem_singleton.1 hmem) hne
  | teardown c hstep => exact h.teardown hstep
  | close c =>
    refine h.shrink rfl rfl rfl h.nodup (fun d hd => ⟨hd, id⟩) ?_
    rintro d - ⟨hmem, hstate, hopen⟩
    have hne : d ≠ c := by
      rintro rfl
      simp at hopen
    simp only [Function.update_of_ne hne] at hopen
    exact ⟨hmem, hstate, hopen⟩
  | receive env e hroute =>
    constructor
    · intro c hnone
      refine ⟨(h.known c hnone).1, ?_⟩
      rintro (⟨r, hr, hc⟩ | ⟨e', served, rest, hroute', -⟩)
      · exact (h.known c hnone).2 (.inl ⟨r, hr, hc⟩)
      · cases hroute'
    · exact h.nodup
    · exact fun _ _ _ hroute' => nomatch hroute'
    · intro c p hp
      refine (h.numbered c p hp).imp_right ?_
      rintro ⟨-, e', served, rest, hroute', -⟩
      rw [hroute] at hroute'
      cases hroute'
    · exact h.atMostOnce
    · exact h.each
    · exact fun _ _ _ hroute' => nomatch hroute'
  | unread env => exact h
  | route order hstep => exact h.route hquiet hisolated hstep

theorem quiet_init : Quiet {} where
  inactive := by
    rintro c (h | h) <;> cases h
  returned := fun _ _ h => nomatch h
  own := fun _ _ _ h => nomatch h

end Relay

/-- Nothing is sent on a session's connection after its teardown has returned, in any run. -/
theorem quiet_after_teardown (reg : Registry μ) {s : Relay} (actions : List RelayAction)
    (hrun : Machine.run (Relay.step reg) {} actions = some s) {c : Key} {k : Nat}
    (hreturned : s.returned c = some k) : (s.sent c).length = k := by
  have hquiet : s.Quiet := Machine.run_invariant (fun _ _ _ h hstep =>
    h.step (Relay.step_cases hstep)) Relay.quiet_init hrun
  exact (hquiet.returned c k hreturned).2

/-- In a run of isolated steps every session that stays gets each event once. -/
theorem isolated_broadcasts (reg : Registry μ) {s : Relay} (actions : List RelayAction)
    (hisolated : Machine.Each (Relay.step reg) Relay.Isolated {} actions)
    (hrun : Machine.run (Relay.step reg) {} actions = some s) : s.Broadcasts := by
  obtain ⟨hfair, hquiet⟩ : s.Fair ∧ s.Quiet :=
    Machine.run_invariant_of_each (I := fun s : Relay => s.Fair ∧ s.Quiet)
      (fun _ _ _ h hisolated hstep => ⟨h.1.step h.2 hisolated (Relay.step_cases hstep),
        h.2.step (Relay.step_cases hstep)⟩)
      ⟨Relay.fair_init, Relay.quiet_init⟩ hisolated hrun
  exact ⟨hfair.each, hfair.atMostOnce, fun c k hreturned => (hquiet.returned c k hreturned).2⟩

/-- Where no connection is closed no send throws. -/
theorem isolated_of_open {s : Relay} (hopen : ∀ c, s.closed c = false) (a : RelayAction) :
    s.Isolated a := by
  cases a with
  | route order =>
    unfold Relay.Isolated
    cases s.route with
    | emitting e served rest =>
      cases rest with
      | nil => trivial
      | cons c rest =>
        rintro ⟨conn, -, hclosed⟩
        rw [hopen] at hclosed
        cases hclosed
    | _ => trivial
  | _ => trivial

/-! ## Two sessions -/

/-- An event without parameters. -/
def clicked : Event := ⟨9, 3, [(CLASS, .key 0), (NAMESPACE, .key 0)]⟩

/-- Two sessions and an event for them. -/
def twoSessions : List RelayAction :=
  [.create 1, .create 2, .receive (eventEnvelope clicked).crossed, .route [1, 2]]

/-- Both get the event. -/
theorem isolated_broadcasts_both : ∃ s,
    Machine.run (Relay.step ([] : Registry Unit)) {} (twoSessions ++ List.replicate 3 (.route [])) =
      some s ∧
    s.Broadcasts ∧ s.framesOf 0 2 = [eventEnvelope clicked] := by
  refine ⟨_, rfl, isolated_broadcasts ([] : Registry Unit)
    (twoSessions ++ List.replicate 3 (.route [])) ?_ rfl, rfl⟩
  unfold twoSessions
  iterate 7 refine (Machine.each_cons rfl).2 ⟨isolated_of_open (fun _ => rfl) _, ?_⟩
  exact trivial

/-- The send to the first session throws, and the second gets nothing. -/
theorem throw_starves : ¬ ∀ (reg : Registry Unit) actions s,
    Machine.run (Relay.step reg) {} actions = some s → s.Broadcasts := by
  intro h
  have hbroadcasts := h [] (twoSessions ++ [.close 1, .route []]) _ rfl
  have hframes := hbroadcasts.each 0 ⟨clicked, [1, 2]⟩ rfl 2 (by decide)
    ⟨by decide, ⟨2, rfl⟩, rfl⟩
  exact nomatch hframes

end Bison
