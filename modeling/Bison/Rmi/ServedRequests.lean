import Bison.Lib.Machine
import Mathlib.Data.List.Basic

/-!
# The requests of a session whose peer goes away

The loop thread of a server connection queues the frames it reads and sets `recv_closed` at the end
of the stream (uv_stream_state.hpp:307-334). A dispatch worker asks `is_closed` before and after it
serves a frame of the session, and tears the session down when the peer has closed and the queue is
empty (server.cpp:389-409). Over TLS the frames that come before the end of the handshake stay
encrypted until `pump_decrypt` (tls_stream_state.hpp:401-414, 543-557).

- `ServedSession.step`: one step of the loop thread or of the worker.
- `ServedSession.Served`: the frames are handed over in order, and all of them before the teardown,
  up to a disconnect.
- `decrypted_served`: **main result**, on a socket or a pipe in every run; over TLS in the runs in
  which nothing waits to be decrypted when the worker finds the queue empty behind the end of the
  stream.
- `undecrypted_lost`: the peer closes in the handshake.
-/

namespace Bison

/-- How a connection receives: `uv_stream_state` of sockets and pipes, or `tls_stream_state`. -/
inductive ReceiveKind where
  | plain
  | tls
  deriving Repr, DecidableEq

/-- Where a dispatch worker is with the session. `drained`: in `is_closed`, behind the load of
`recv_closed`, before or behind `service_session`. -/
inductive ServicePosition (φ : Type) where
  | visiting
  | drained (served : Bool)
  | receiving
  | handling (frame : φ)
  | visited
  /-- In the list of those to tear down. -/
  | found
  | tornDown
  deriving Repr, DecidableEq

/-- A session and its connection. `undelivered`: the frames that have arrived and are not queued
yet, over TLS in `inbound_ciphertext`. `inCallback`: the loop thread is in `on_read` or
`pump_decrypt`. `received`: what has arrived so far. -/
structure ServedSession (φ : Type) where
  undelivered : List φ := []
  inCallback : Bool := false
  handshakeDone : Bool := false
  reading : Bool := true
  recvQueue : List φ := []
  recvClosed : Bool := false
  closed : Bool := false
  position : ServicePosition φ := .visiting
  handed : List φ := []
  received : List φ := []
  deriving Repr, DecidableEq

inductive ServedAction (φ : Type) where
  /-- A read that brings the last bytes of these frames. -/
  | read (frames : List φ)
  /-- The next frame is queued. -/
  | push
  /-- The callback returns. -/
  | ran
  /-- The end of the stream, or a length that is refused. -/
  | endOfStream
  | handshake (succeeds : Bool)
  /-- The worker asks `is_closed`, or tears the session down. -/
  | worker
  | receive
  /-- The frame is handed to the request handler, which may close the connection. -/
  | handle (closes : Bool)
  deriving Repr, DecidableEq

namespace ServedSession

variable {φ : Type}

-- the frames that are disconnect requests
variable (disconnects : φ → Bool)

/-- `is_closed` up to the load of `recv_closed`. -/
def askClosed (s : ServedSession φ) (served : Bool) (opened : ServicePosition φ) :
    ServicePosition φ :=
  if s.closed then .found else if s.recvClosed then .drained served else opened

/-- One step. -/
def step (kind : ReceiveKind) (s : ServedSession φ) : ServedAction φ → Option (ServedSession φ)
  -- on_tls_read only decrypts when the handshake is done
  | .read frames =>
    if s.reading ∧ s.inCallback = false then
      some { s with
        undelivered := s.undelivered ++ frames
        received := s.received ++ frames
        inCallback := kind = .plain ∨ s.handshakeDone }
    else none
  | .push =>
    match s.inCallback, s.undelivered with
    | true, frame :: rest =>
      some { s with undelivered := rest, recvQueue := s.recvQueue ++ [frame] }
    | _, _ => none
  | .ran =>
    if s.inCallback ∧ s.undelivered = [] then some { s with inCallback := false } else none
  | .endOfStream =>
    if s.reading ∧ s.inCallback = false then
      some { s with recvClosed := true, reading := false }
    else none
  -- a handshake that fails has no frames behind it, and nothing is decrypted afterwards
  | .handshake succeeds =>
    if kind = .tls ∧ s.handshakeDone = false ∧ s.inCallback = false then
      if succeeds then some { s with handshakeDone := true, inCallback := true }
      else if s.undelivered = [] then some { s with recvClosed := true, reading := false }
      else none
    else none
  | .worker =>
    match s.position with
    | .visiting => some { s with position := s.askClosed false .receiving }
    | .visited => some { s with position := s.askClosed true .visiting }
    | .drained served =>
      some { s with position :=
        if s.recvQueue = [] then .found else if served then .visiting else .receiving }
    | .found => some { s with position := .tornDown }
    | _ => none
  -- conn->receive, which may time out
  | .receive =>
    match s.position with
    | .receiving =>
      match s.closed, s.recvQueue with
      | false, frame :: rest => some { s with position := .handling frame, recvQueue := rest }
      | _, _ => some { s with position := .visited }
    | _ => none
  | .handle closes =>
    match s.position with
    | .handling frame =>
      if closes → disconnects frame then
        some { s with
          position := .visited
          handed := s.handed ++ [frame]
          closed := s.closed || closes }
      else none
    | _ => none

/-- The frames before the first disconnect request. -/
def requests (s : ServedSession φ) : List φ := s.received.takeWhile fun frame => !disconnects frame

/-- What the clients may count on. -/
structure Served (s : ServedSession φ) : Prop where
  inOrder : s.handed <+: s.received
  all : s.position = .tornDown → s.requests disconnects <+: s.handed

/-- The condition on a step, over TLS: the worker finds the queue empty behind the end of the
stream only when nothing waits to be decrypted. -/
def Decrypted (kind : ReceiveKind) (s : ServedSession φ) : ServedAction φ → Prop
  | .worker => kind = .tls → s.recvQueue = [] →
    ∀ served, s.position = .drained served → s.undelivered = []
  | _ => True

instance [DecidableEq φ] (kind : ReceiveKind) (s : ServedSession φ) :
    DecidablePred (s.Decrypted kind)
  | .worker => inferInstanceAs (Decidable (kind = .tls → s.recvQueue = [] →
    ∀ served, s.position = .drained served → s.undelivered = []))
  | .read _ | .push | .ran | .endOfStream | .handshake _ | .receive | .handle _ =>
    inferInstanceAs (Decidable True)

variable {disconnects} {kind : ReceiveKind} {s s' : ServedSession φ}

/-- The frame in the hands of the worker. -/
def inHand (s : ServedSession φ) : List φ :=
  match s.position with
  | .handling frame => [frame]
  | _ => []

/-- The session is finished with. -/
def Over (s : ServedSession φ) : Prop := s.position = .found ∨ s.position = .tornDown

/-- What the steps keep. -/
structure Sound (disconnects : φ → Bool) (kind : ReceiveKind) (s : ServedSession φ) : Prop where
  accounted : s.handed ++ s.inHand ++ s.recvQueue ++ s.undelivered = s.received
  ended : s.recvClosed = true → s.reading = false
  closed : s.closed = true → ∃ frame ∈ s.handed, disconnects frame = true
  delivered : s.inCallback = false → kind = .plain ∨ s.handshakeDone = true → s.undelivered = []
  behind : kind = .plain → s.recvClosed = true → s.inCallback = false
  drained : ∀ served, s.position = .drained served → s.recvClosed = true
  gone : s.Over → s.closed = true ∨
    s.recvClosed = true ∧ s.recvQueue = [] ∧ s.undelivered = []

theorem sound_init : Sound disconnects kind ({} : ServedSession φ) :=
  ⟨rfl, nofun, nofun, fun _ _ => rfl, nofun, nofun, by rintro (h | h) <;> cases h⟩

/-- A step of the loop thread. -/
theorem Sound.loop (h : s.Sound disconnects kind) (hposition : s'.position = s.position)
    (hhanded : s'.handed = s.handed) (hclosed : s'.closed = s.closed)
    (haccounted : s'.recvQueue ++ s'.undelivered = s.recvQueue ++ s.undelivered ∧
        s'.received = s.received ∨
      s.reading = true ∧ ∃ frames, s'.recvQueue = s.recvQueue ∧
        s'.undelivered = s.undelivered ++ frames ∧ s'.received = s.received ++ frames)
    (hrecvClosed : s.recvClosed = true → s'.recvClosed = true)
    (hended : s'.recvClosed = true → s'.reading = false)
    (hdelivered : s'.inCallback = false → kind = .plain ∨ s'.handshakeDone = true →
      s'.undelivered = [])
    (hbehind : kind = .plain → s'.recvClosed = true → s'.inCallback = false) :
    s'.Sound disconnects kind := by
  have hinHand : s'.inHand = s.inHand := by
    unfold inHand
    rw [hposition]
  refine ⟨?_, hended, fun hc => ?_, hdelivered, hbehind, fun served hs => ?_, fun hover => ?_⟩
  · rw [hhanded, hinHand, List.append_assoc]
    rcases haccounted with ⟨hsame, hreceived⟩ | ⟨-, frames, hqueue, hundelivered, hreceived⟩
    · rw [hsame, hreceived, ← List.append_assoc, h.accounted]
    · rw [hqueue, hundelivered, hreceived, ← h.accounted]
      simp only [List.append_assoc]
  · rw [hhanded]
    exact h.closed (hclosed ▸ hc)
  · exact hrecvClosed (h.drained served (hposition ▸ hs))
  · have hover' : s.Over := by
      unfold Over at hover ⊢
      rwa [hposition] at hover
    rcases h.gone hover' with hc | ⟨hpeer, hqueue, hundelivered⟩
    · exact .inl (hclosed ▸ hc)
    · refine .inr ⟨hrecvClosed hpeer, ?_⟩
      rcases haccounted with ⟨hsame, -⟩ | ⟨hreading, -⟩
      · rw [hqueue, hundelivered] at hsame
        exact List.append_eq_nil_iff.1 hsame
      · rw [h.ended hpeer] at hreading
        cases hreading

/-- The worker goes somewhere else without a frame. -/
theorem Sound.goto (h : s.Sound disconnects kind) {position : ServicePosition φ}
    (hinHand : s.inHand = []) (hnone : ∀ frame, position ≠ .handling frame)
    (hdrained : ∀ served, position = .drained served → s.recvClosed = true)
    (hover : position = .found ∨ position = .tornDown → s.closed = true ∨
      s.recvClosed = true ∧ s.recvQueue = [] ∧ s.undelivered = []) :
    ({ s with position } : ServedSession φ).Sound disconnects kind := by
  have hhand : ({ s with position } : ServedSession φ).inHand = [] := by
    cases position with
    | handling frame => exact absurd rfl (hnone frame)
    | _ => rfl
  refine ⟨?_, h.ended, h.closed, h.delivered, h.behind, hdrained, hover⟩
  have haccounted := h.accounted
  rw [hinHand] at haccounted
  rw [hhand]
  exact haccounted

theorem Sound.askClosed (h : s.Sound disconnects kind) (hinHand : s.inHand = []) (served : Bool)
    {opened : ServicePosition φ} (hopened : opened = .receiving ∨ opened = .visiting) :
    ({ s with position := s.askClosed served opened } : ServedSession φ).Sound
      disconnects kind := by
  unfold ServedSession.askClosed
  split
  · rename_i hclosed
    exact h.goto hinHand nofun nofun fun _ => .inl hclosed
  · split
    · rename_i hpeer
      exact h.goto hinHand nofun (fun _ _ => hpeer) (by rintro (h | h) <;> cases h)
    · rcases hopened with rfl | rfl
      · exact h.goto hinHand nofun nofun (by rintro (h | h) <;> cases h)
      · exact h.goto hinHand nofun nofun (by rintro (h | h) <;> cases h)

/-- The worker has seen the end of the stream, and looks at the queue. -/
theorem Sound.drain (h : s.Sound disconnects kind) {served : Bool}
    (hposition : s.position = .drained served)
    (hdecrypted : kind = .tls → s.recvQueue = [] → s.undelivered = []) :
    ({ s with position :=
      if s.recvQueue = [] then .found else if served then .visiting else .receiving } :
      ServedSession φ).Sound disconnects kind := by
  have hhand : s.inHand = [] := by simp [inHand, hposition]
  have hpeer := h.drained served hposition
  by_cases hqueue : s.recvQueue = []
  · -- nothing is left behind the queue either
    have hundelivered : s.undelivered = [] := by
      cases kind with
      | plain => exact h.delivered (h.behind rfl hpeer) (.inl rfl)
      | tls => exact hdecrypted rfl hqueue
    rw [if_pos hqueue]
    exact h.goto hhand nofun nofun fun _ => .inr ⟨hpeer, hqueue, hundelivered⟩
  · rw [if_neg hqueue]
    cases served with
    | true => exact h.goto hhand nofun nofun (by rintro (h | h) <;> cases h)
    | false => exact h.goto hhand nofun nofun (by rintro (h | h) <;> cases h)

/-- The worker takes the first frame of the queue. -/
theorem Sound.take (h : s.Sound disconnects kind) (hhand : s.inHand = []) {frame : φ}
    {rest : List φ} (hqueue : s.recvQueue = frame :: rest) :
    ({ s with position := .handling frame, recvQueue := rest } : ServedSession φ).Sound
      disconnects kind := by
  have haccounted := h.accounted
  rw [hhand, hqueue] at haccounted
  refine ⟨?_, h.ended, h.closed, h.delivered, h.behind, nofun, ?_⟩
  · rw [← haccounted]
    simp [inHand]
  · rintro (hover | hover) <;> cases hover

/-- The frame in the hands of the worker is handled, which may close the connection. -/
theorem Sound.hand (h : s.Sound disconnects kind) {frame : φ}
    (hposition : s.position = .handling frame) {closes : Bool}
    (hcloses : closes → disconnects frame) :
    ({ s with position := .visited, handed := s.handed ++ [frame], closed := s.closed || closes } :
      ServedSession φ).Sound disconnects kind := by
  have haccounted := h.accounted
  have hhand : s.inHand = [frame] := by simp [inHand, hposition]
  rw [hhand] at haccounted
  refine ⟨?_, h.ended, fun hclosed => ?_, h.delivered, h.behind, nofun, ?_⟩
  · rw [← haccounted]
    simp [inHand]
  · rcases Bool.or_eq_true_iff.1 hclosed with hbefore | hnow
    · obtain ⟨other, hother, hdisconnects⟩ := h.closed hbefore
      exact ⟨other, List.mem_append_left _ hother, hdisconnects⟩
    · exact ⟨frame, List.mem_append_right _ (List.mem_singleton_self _), hcloses hnow⟩
  · rintro (hover | hover) <;> cases hover

theorem Sound.step (h : s.Sound disconnects kind) {a : ServedAction φ}
    (hdecrypted : s.Decrypted kind a) (hstep : step disconnects kind s a = some s') :
    s'.Sound disconnects kind := by
  cases a with
  | read frames =>
    simp only [ServedSession.step] at hstep
    split at hstep
    · rename_i hready
      cases hstep
      refine h.loop rfl rfl rfl (.inr ⟨hready.1, frames, rfl, rfl, rfl⟩) id h.ended ?_ ?_
      · intro hout hdone
        simp only [decide_eq_false_iff_not] at hout
        exact absurd hdone hout
      · intro _ hpeer
        rw [h.ended hpeer] at hready
        cases hready.1
    · cases hstep
  | push =>
    simp only [ServedSession.step] at hstep
    split at hstep
    · rename_i frame rest hin hundelivered
      cases hstep
      refine h.loop rfl rfl rfl (.inl ⟨?_, rfl⟩) id h.ended ?_ h.behind
      · rw [hundelivered, List.append_assoc]
        rfl
      · intro hout
        rw [hin] at hout
        cases hout
    · cases hstep
  | ran =>
    simp only [ServedSession.step] at hstep
    split at hstep
    · rename_i hready
      cases hstep
      exact h.loop rfl rfl rfl (.inl ⟨rfl, rfl⟩) id h.ended (fun _ _ => hready.2) fun _ _ => rfl
    · cases hstep
  | endOfStream =>
    simp only [ServedSession.step] at hstep
    split at hstep
    · rename_i hready
      cases hstep
      exact h.loop rfl rfl rfl (.inl ⟨rfl, rfl⟩) (fun _ => rfl) (fun _ => rfl) h.delivered
        fun _ _ => hready.2
    · cases hstep
  | handshake succeeds =>
    simp only [ServedSession.step] at hstep
    split at hstep
    · rename_i hready
      have htls : kind ≠ .plain := by simp [hready.1]
      split at hstep
      · cases hstep
        exact h.loop rfl rfl rfl (.inl ⟨rfl, rfl⟩) id h.ended nofun
          fun hplain => absurd hplain htls
      · split at hstep
        · rename_i hempty
          cases hstep
          exact h.loop rfl rfl rfl (.inl ⟨rfl, rfl⟩) (fun _ => rfl) (fun _ => rfl)
            (fun _ _ => hempty) fun hplain => absurd hplain htls
        · cases hstep
    · cases hstep
  | worker =>
    simp only [ServedSession.step] at hstep
    split at hstep
    · rename_i hposition
      cases hstep
      exact h.askClosed (by simp [inHand, hposition]) false (.inl rfl)
    · rename_i hposition
      cases hstep
      exact h.askClosed (by simp [inHand, hposition]) true (.inr rfl)
    · rename_i served hposition
      cases hstep
      exact h.drain hposition fun htls hqueue => hdecrypted htls hqueue served hposition
    · rename_i hposition
      cases hstep
      exact h.goto (by simp [inHand, hposition]) nofun nofun fun _ => h.gone (.inl hposition)
    · cases hstep
  | receive =>
    simp only [ServedSession.step] at hstep
    split at hstep
    · rename_i hposition
      have hhand : s.inHand = [] := by simp [inHand, hposition]
      split at hstep
      · rename_i frame rest hopen hqueue
        cases hstep
        exact h.take hhand hqueue
      · cases hstep
        exact h.goto hhand nofun nofun (by rintro (h | h) <;> cases h)
    · cases hstep
  | handle closes =>
    simp only [ServedSession.step] at hstep
    split at hstep
    · rename_i frame hposition
      split at hstep
      · rename_i hcloses
        cases hstep
        exact h.hand hposition hcloses
      · cases hstep
    · cases hstep

/-- What comes before a frame that is there. -/
theorem takeWhile_append_prefix {p : φ → Bool} {frames : List φ} (rest : List φ)
    (h : ∃ frame ∈ frames, p frame = false) : (frames ++ rest).takeWhile p <+: frames := by
  induction frames with
  | nil =>
    obtain ⟨frame, hframe, -⟩ := h
    cases hframe
  | cons frame frames ih =>
    rw [List.cons_append, List.takeWhile_cons]
    split
    · rename_i hkeeps
      obtain ⟨other, hother, hfails⟩ := h
      rcases List.mem_cons.1 hother with rfl | hother
      · rw [hkeeps] at hfails
        cases hfails
      · exact List.cons_prefix_cons.2 ⟨rfl, ih ⟨other, hother, hfails⟩⟩
    · exact List.nil_prefix

theorem Sound.served (h : s.Sound disconnects kind) : s.Served disconnects where
  inOrder := by
    rw [← h.accounted, List.append_assoc, List.append_assoc]
    exact List.prefix_append _ _
  all hposition := by
    have hhand : s.inHand = [] := by
      unfold inHand
      rw [hposition]
    rcases h.gone (.inr hposition) with hclosed | ⟨-, hqueue, hundelivered⟩
    · obtain ⟨frame, hframe, hdisconnects⟩ := h.closed hclosed
      unfold requests
      rw [← h.accounted, List.append_assoc, List.append_assoc]
      exact takeWhile_append_prefix _ ⟨frame, hframe, by simp [hdisconnects]⟩
    · have haccounted := h.accounted
      rw [hhand, hqueue, hundelivered] at haccounted
      simp only [List.append_nil] at haccounted
      rw [haccounted]
      exact List.takeWhile_prefix _

end ServedSession

/-- In a run in which the worker leaves nothing encrypted behind, every request that arrived is
handed over before the teardown, in order and once. -/
theorem decrypted_served {φ : Type} {disconnects : φ → Bool} {kind : ReceiveKind}
    {s : ServedSession φ} (actions : List (ServedAction φ))
    (hdecrypted : Machine.Each (ServedSession.step disconnects kind)
      (ServedSession.Decrypted kind) {} actions)
    (hrun : Machine.run (ServedSession.step disconnects kind) {} actions = some s) :
    s.Served disconnects :=
  (Machine.run_invariant_of_each
    (fun _ _ _ h hdecrypted hstep => ServedSession.Sound.step h hdecrypted hstep)
    ServedSession.sound_init hdecrypted hrun).served

/-- The peer sends two requests in its last flight and closes; the handshake ends in time. -/
def decryptedInTime : List (ServedAction Nat) :=
  [.read [1, 2], .endOfStream, .handshake true, .push, .push, .ran,
    .worker, .worker, .receive, .handle false, .worker, .worker,
    .worker, .worker, .receive, .handle false, .worker, .worker, .worker]

theorem decrypted_served_two : ∃ s,
    Machine.run (ServedSession.step (fun _ => false) .tls) {} decryptedInTime = some s ∧
      s.Served (fun _ => false) ∧ s.position = .tornDown ∧ s.handed = [1, 2] := by
  have hdecrypted : Machine.Each (ServedSession.step (fun _ => false) .tls)
      (ServedSession.Decrypted .tls) {} decryptedInTime := by decide
  exact ⟨_, rfl, decrypted_served decryptedInTime hdecrypted rfl, rfl, rfl⟩

/-- The worker sees the end of the stream before the handshake is done. -/
theorem undecrypted_lost : ¬ ∀ (disconnects : Nat → Bool) (kind : ReceiveKind)
    (actions : List (ServedAction Nat)) (s : ServedSession Nat),
    Machine.run (ServedSession.step disconnects kind) {} actions = some s →
      s.Served disconnects := by
  intro h
  have hall := (h (fun _ => false) .tls
    [.read [1], .endOfStream, .worker, .worker, .worker] _ rfl).all rfl
  exact absurd hall (by decide)

end Bison
