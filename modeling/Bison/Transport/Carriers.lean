import Bison.Lib.Carrier
import Bison.Transport.MemoryTransport
import Bison.Transport.TermLink
import Bison.Transport.TlsLink

/-!
# The transports as carriers

What an in-process channel, a connection between two event loops, a TLS connection and a terminal
connection are for a client and a server: a link, as long as the frames fit, `dequeue_frame` is
called with new buffers, as the threads that receive call it, and frames are recognised on the line
of a terminal.

- `memoryCarrier`, `uvCarrier`, `tlsCarrier`, `termCarrier`: the four of them.
- `UvLink.lane_of_step`, `TlsLink.lane_of_step`, `TermLink.lane_of_step`: one direction is a lane.
-/

namespace Bison

/-- `memory_channel`. -/
def memoryCarrier : Carrier (List UInt8) where
  State := MemoryChannel (List UInt8)
  Action := ChannelAction (List UInt8)
  initial := {}
  step := MemoryChannel.step
  Valid _ := True
  Allowed _ _ := True
  decidableAllowed _ _ := .isTrue trivial
  link := MemoryChannel.link
  image := MemoryChannel.image
  valid_initial := trivial
  link_initial := rfl
  valid_step _ _ _ _ _ _ := trivial
  link_step _ _ _ _ _ hstep := MemoryChannel.link_of_step hstep

/-- What `dequeue_frame` does, when these frames were sent. -/
theorem Connection.lane_dequeue (c : Connection) {sent rest : List (List UInt8)}
    (h : sent = c.taken ++ c.recvQueue ++ rest) (capacity : Nat) :
    Machine.run Lane.step (.ofHistory sent c.taken)
        (if c.recvQueue.isEmpty then [] else [.take]) =
      some (.ofHistory sent (c.dequeueFrame capacity).taken) := by
  cases hqueue : c.recvQueue with
  | nil =>
    have hsame : c.dequeueFrame capacity = c := by rw [dequeueFrame, hqueue]
    rw [hsame]
    rfl
  | cons frame queue =>
    have htaken : (c.dequeueFrame capacity).taken = c.taken ++ [frame] := by
      simp only [dequeueFrame, hqueue]
    rw [htaken]
    have hsent : sent = c.taken ++ frame :: (queue ++ rest) := by
      rw [h, hqueue, List.append_assoc, List.cons_append]
    exact Lane.run_take_ofHistory hsent

/-! ## Between two event loops -/

namespace UvLink

/-- The frames of this direction, for those who use it. -/
def lane (l : UvLink) : Lane (List UInt8) := .ofHistory l.sent l.receiver.taken

/-- What a step is for the lane. -/
def image (l : UvLink) : Action → List (Lane.Action (List UInt8))
  | .enqueue frame => [.put frame]
  | .dequeue _ => if l.receiver.recvQueue.isEmpty then [] else [.take]
  | _ => []

variable {grow : Nat → Nat → Nat} {l l' : UvLink}

theorem lane_of_step {a : Action} (h : l.Attended) (hfresh : Fresh a)
    (hstep : l.step grow a = some l') :
    Machine.run Lane.step l.lane (l.image a) = some l'.lane := by
  obtain ⟨stored, rest, -, hframes, -⟩ := h.delivers.wire
  cases a with
  | enqueue frame =>
    cases hstep
    refine Lane.run_put_ofHistory frame ⟨l.receiver.recvQueue ++ rest, ?_⟩
    rw [hframes, List.append_assoc]
  | signal | onSend =>
    rw [UvLink.step] at hstep
    split_ifs at hstep
    cases hstep
    rfl
  | write =>
    rw [UvLink.step] at hstep
    split at hstep
    · cases hstep
    · split_ifs at hstep
      cases hstep
      rfl
  | onRead n =>
    have hfed := (h.delivers.onRead (harmless_of_spare h.spare) hstep).2
    have hlane : l'.lane = .ofHistory l'.sent l.receiver.taken := by rw [lane, hfed.taken]
    rw [hlane]
    rw [UvLink.step] at hstep
    split_ifs at hstep
    cases hstep
    rfl
  | onStop | onEnd =>
    cases hstep
    rfl
  | dequeue capacity =>
    cases hstep
    exact l.receiver.lane_dequeue hframes capacity

/-- One direction of a connection is a lane. -/
def carrier (grow : Nat → Nat → Nat) : LaneCarrier (List UInt8) where
  State := UvLink
  Action := Action
  initial := {}
  step := step grow
  Valid := Attended
  Allowed _ := Fresh
  decidableAllowed _ _ := inferInstance
  lane := lane
  image := image
  valid_initial := attended_empty
  lane_initial := rfl
  valid_step _ _ _ hvalid hfresh hstep := hvalid.step hfresh hstep
  lane_step _ _ _ hvalid hfresh hstep := lane_of_step hvalid hfresh hstep

end UvLink

/-- `uv_stream_state` at both ends. -/
def uvCarrier (grow : Nat → Nat → Nat) : Carrier (List UInt8) :=
  (UvLink.carrier grow).both (UvLink.carrier grow)

/-! ## TLS -/

namespace TlsLink

/-- A frame that is sent fits, an `on_tls_send` within another finds no frame in the queue, and
`dequeue_frame` is called with a new buffer. -/
def Fresh (l : TlsLink) : Action → Prop
  | .send (.enqueue frame) => frame.length ≤ kMaxFrameBytes
  | .send a => Calm l.sender a
  | .dequeue capacity => capacity = 0
  | _ => True

instance (l : TlsLink) : (a : Action) → Decidable (l.Fresh a)
  | .send (.enqueue frame) => inferInstanceAs (Decidable (frame.length ≤ kMaxFrameBytes))
  | .send .enter => inferInstanceAs (Decidable (Calm l.sender .enter))
  | .send (.write n) => inferInstanceAs (Decidable (Calm l.sender (.write n)))
  | .send .wantWrite => inferInstanceAs (Decidable (Calm l.sender .wantWrite))
  | .send .wantRead => inferInstanceAs (Decidable (Calm l.sender .wantRead))
  | .send .ran => inferInstanceAs (Decidable (Calm l.sender .ran))
  | .send .error => inferInstanceAs (Decidable (Calm l.sender .error))
  | .send .pop => inferInstanceAs (Decidable (Calm l.sender .pop))
  | .send .leave => inferInstanceAs (Decidable (Calm l.sender .leave))
  | .read _ | .ended | .sslClosed => .isTrue trivial
  | .dequeue capacity => inferInstanceAs (Decidable (capacity = 0))

/-- A run in which every buffer was new. -/
structure Attended (l : TlsLink) : Prop where
  delivers : l.Delivers
  spare : l.receiver.spare = 0

/-- The frames of this direction, for those who use it. -/
def lane (l : TlsLink) : Lane (List UInt8) := .ofHistory l.sender.enqueued l.receiver.taken

/-- What a step is for the lane. -/
def image (l : TlsLink) : Action → List (Lane.Action (List UInt8))
  | .send (.enqueue frame) => [.put frame]
  | .dequeue _ => if l.receiver.recvQueue.isEmpty then [] else [.take]
  | _ => []

variable {grow : Nat → Nat → Nat} {l l' : TlsLink}

theorem attended_empty : ({} : TlsLink).Attended := ⟨delivers_empty, rfl⟩

theorem careful_of_fresh {a : Action} (h : l.Fresh a) (hspare : l.receiver.spare = 0) :
    l.Careful a := by
  cases a with
  | send a => cases a <;> exact h
  | read n => exact UvLink.harmless_of_spare hspare
  | _ => trivial

theorem Attended.step {a : Action} (h : l.Attended) (hfresh : l.Fresh a)
    (hstep : l.step grow a = some l') : l'.Attended := by
  refine ⟨h.delivers.step (careful_of_fresh hfresh h.spare) hstep, ?_⟩
  cases a with
  | send a =>
    obtain ⟨sender, -, rfl⟩ := Option.map_eq_some_iff.1 hstep
    exact h.spare
  | read n => exact (h.delivers.read (UvLink.harmless_of_spare h.spare) hstep).2.spare
  | ended | sslClosed =>
    cases hstep
    exact h.spare
  | dequeue capacity =>
    obtain rfl : capacity = 0 := hfresh
    cases hstep
    exact UvLink.spare_dequeue h.spare

theorem lane_of_step {a : Action} (h : l.Attended) (hstep : l.step grow a = some l') :
    Machine.run Lane.step l.lane (l.image a) = some l'.lane := by
  obtain ⟨stored, rest, -, hframes, -⟩ := h.delivers.arrived
  cases a with
  | send a =>
    obtain ⟨sender, hsender, rfl⟩ := Option.map_eq_some_iff.1 hstep
    cases a with
    | enqueue frame =>
      cases hsender
      refine Lane.run_put_ofHistory frame ⟨l.receiver.recvQueue ++ rest, ?_⟩
      rw [hframes, List.append_assoc]
    | _ =>
      rcases sender_cases hsender with ⟨frame, ha, -⟩ | ⟨henqueued, -⟩
      · cases ha
      · show some l.lane = some (.ofHistory sender.enqueued l.receiver.taken)
        rw [henqueued]
        rfl
  | read n =>
    have hfed := (h.delivers.read (UvLink.harmless_of_spare h.spare) hstep).2
    have hlane : l'.lane = .ofHistory l'.sender.enqueued l.receiver.taken := by
      rw [lane, hfed.taken]
    rw [hlane]
    rw [TlsLink.step] at hstep
    split_ifs at hstep
    cases hstep
    rfl
  | ended | sslClosed =>
    cases hstep
    rfl
  | dequeue capacity =>
    cases hstep
    exact l.receiver.lane_dequeue hframes capacity

/-- One direction of a TLS connection is a lane. -/
def carrier (grow : Nat → Nat → Nat) : LaneCarrier (List UInt8) where
  State := TlsLink
  Action := Action
  initial := {}
  step := step grow
  Valid := Attended
  Allowed := Fresh
  decidableAllowed _ _ := inferInstance
  lane := lane
  image := image
  valid_initial := attended_empty
  lane_initial := rfl
  valid_step _ _ _ hvalid hfresh hstep := hvalid.step hfresh hstep
  lane_step _ _ _ hvalid _ hstep := lane_of_step hvalid hstep

end TlsLink

/-- `tls_stream_state` at both ends. -/
def tlsCarrier (grow : Nat → Nat → Nat) : Carrier (List UInt8) :=
  (TlsLink.carrier grow).both (TlsLink.carrier grow)

/-! ## A terminal -/

namespace TermLink

/-- The frames of this direction, for those who use it. -/
def lane (l : TermLink) : Lane (List UInt8) := .ofHistory (framesOf l.sent) l.taken

/-- What a step is for the lane. -/
def image (l : TermLink) : Action → List (Lane.Action (List UInt8))
  | .sendFrame frame => if l.closed then [] else [.put frame]
  | .dequeue => if l.reader.inbox.recvQueue.length ≤ l.taken.length then [] else [.take]
  | _ => []

variable {role : TermRole} {l l' : TermLink}

theorem lane_of_step {a : Action} (h : l.Delivers role) (hstep : l.step role a = some l') :
    Machine.run Lane.step l.lane (l.image a) = some l'.lane := by
  have htaken : l.taken <+: framesOf l.sent := h.taken.trans h.queued.1
  cases a with
  | sendFrame frame =>
    cases hstep
    by_cases hclosed : l.closed
    · rw [enqueue, if_pos hclosed, image, if_pos hclosed]
      rfl
    · rw [enqueue, if_neg hclosed, image, if_neg hclosed]
      show _ = some (Lane.ofHistory (framesOf (l.sent ++ [.frame frame])) l.taken)
      rw [framesOf_append]
      exact Lane.run_put_ofHistory frame htaken
  | sendRaw bytes =>
    cases hstep
    by_cases hclosed : l.closed
    · rw [enqueue, if_pos hclosed]
      rfl
    · rw [enqueue, if_neg hclosed]
      show some l.lane = some (Lane.ofHistory (framesOf (l.sent ++ [.raw bytes])) l.taken)
      rw [framesOf_append, show framesOf [.raw bytes] = [] from rfl, List.append_nil]
      rfl
  | onSend | onRead n =>
    rw [TermLink.step] at hstep
    split_ifs at hstep
    cases hstep
    rfl
  | write =>
    rw [TermLink.step] at hstep
    split at hstep
    · cases hstep
    · split_ifs at hstep
      cases hstep
      rfl
  | stop | onStop | idle | onEnd =>
    cases hstep
    rfl
  | dequeue =>
    obtain ⟨waiting, hwaiting⟩ := h.taken
    obtain ⟨rest, hrest⟩ := h.queued.1
    rw [TermLink.step, ← hwaiting, List.getElem?_append_right (Nat.le_refl _), Nat.sub_self]
      at hstep
    rw [image, ← hwaiting, List.length_append]
    cases waiting with
    | nil =>
      cases hstep
      rw [if_pos (by simp)]
      rfl
    | cons frame waiting =>
      cases hstep
      rw [if_neg (by simp)]
      have hframes : framesOf l.sent = l.taken ++ frame :: (waiting ++ rest) := by
        rw [← hrest, ← hwaiting, List.append_assoc]
        rfl
      exact Lane.run_take_ofHistory hframes

/-- One direction of a terminal connection is a lane. -/
def carrier (role : TermRole) : LaneCarrier (List UInt8) where
  State := TermLink
  Action := Action
  initial := {}
  step := step role
  Valid := Delivers role
  Allowed := Careful role
  decidableAllowed _ _ := inferInstance
  lane := lane
  image := image
  valid_initial := delivers_empty role
  lane_initial := rfl
  valid_step _ _ _ hvalid hcareful hstep := hvalid.step hcareful hstep
  lane_step _ _ _ hvalid _ hstep := lane_of_step hvalid hstep

end TermLink

/-- `term_conn_state` at both ends: the client sends one format and the server the other. -/
def termCarrier : Carrier (List UInt8) :=
  (TermLink.carrier .client).both (TermLink.carrier .server)

end Bison
