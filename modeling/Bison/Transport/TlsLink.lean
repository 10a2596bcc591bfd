import Bison.Transport.TlsSend
import Bison.Transport.UvLink

/-!
# A TLS connection

One direction of a TLS connection (tls_stream_state.hpp), from the threads that call `enqueue_frame`
to the thread that calls `dequeue_frame` at the other end. The sending loop hands the frames to
`mbedtls_ssl_write` piece by piece (`TlsSender`); the plaintext comes out of `mbedtls_ssl_read` in
order, in pieces of any size, and `pump_decrypt` feeds it to the parser (`Connection`).

- `TlsLink.step`: one step of either end.
- `TlsLink.Delivers`: what `mbedtls_ssl_write` has accepted are the frames that have arrived, the
  bytes that the parser stores, and those in transit.
- `tls_link_delivers`: **main result**, the frames arrive whole and in order, and all of them when
  no write has failed and nothing is under way.
-/

namespace Bison

/-- One direction of a TLS connection. -/
structure TlsLink where
  sender : TlsSender := {}
  /-- The plaintext that was accepted and not yet read. -/
  inTransit : List UInt8 := []
  receiver : Connection := {}

inductive TlsLink.Action where
  /-- A step of the sending end. -/
  | send (a : TlsAction)
  /-- `mbedtls_ssl_read` gives the next `n` bytes. -/
  | read (n : Nat)
  /-- `on_tls_read` with an error or the end of the stream. -/
  | ended
  /-- `mbedtls_ssl_read` finds the session closed or broken. -/
  | sslClosed
  /-- `dequeue_frame` with a buffer of this capacity, when it does not wait any longer. -/
  | dequeue (capacity : Nat)

namespace TlsLink

-- the capacity a vector of some capacity takes when it has to hold so many bytes
variable (grow : Nat → Nat → Nat)

/-- The receiving end goes on. -/
def receive (l : TlsLink) (e : ConnectionEvent) : TlsLink :=
  { l with receiver := l.receiver.step grow .tls true e }

/-- One step. What the sending end gets accepted is in transit. -/
def step (l : TlsLink) : Action → Option TlsLink
  | .send a =>
    (l.sender.step a).map fun sender =>
      { l with
        sender
        inTransit := l.inTransit ++ sender.accepted.drop l.sender.accepted.length }
  | .read n =>
    -- `buf` holds 16384 bytes
    if 0 < n ∧ n ≤ l.inTransit.length ∧ n ≤ 16384 ∧ l.receiver.reading then
      some { l.receive grow (.read (l.inTransit.take n)) with inTransit := l.inTransit.drop n }
    else none
  | .ended => some (l.receive grow .ended)
  | .sslClosed => some (l.receive grow .sslClosed)
  | .dequeue capacity => some (l.receive grow (.dequeue capacity))

/-- A frame that is sent fits, an `on_tls_send` within another finds no frame in the queue, and a
read takes no byte that is stored. -/
def Careful (l : TlsLink) : Action → Prop
  | .send (.enqueue frame) => frame.length ≤ kMaxFrameBytes
  | .send a => Calm l.sender a
  | .read _ => l.receiver.Harmless
  | _ => True

instance (l : TlsLink) (a : Action) : Decidable (l.Careful a) := by
  unfold Careful Connection.Harmless
  split <;> infer_instance

variable {grow} {l l' : TlsLink}

/-! ## The sending end -/

/-- A step queues a frame, or may get bytes accepted. -/
theorem sender_cases {s s' : TlsSender} {a : TlsAction} (h : s.step a = some s') :
    (∃ frame, a = .enqueue frame ∧ s'.enqueued = s.enqueued ++ [frame] ∧
        s'.accepted = s.accepted) ∨
      s'.enqueued = s.enqueued ∧ s.accepted <+: s'.accepted := by
  cases a with
  | enqueue frame =>
    cases h
    exact .inl ⟨frame, rfl, rfl, rfl⟩
  | write n =>
    simp only [TlsSender.step] at h
    split at h
    · split_ifs at h
      cases h
      exact .inr ⟨rfl, List.prefix_append _ _⟩
    · cases h
  | enter | wantWrite =>
    simp only [TlsSender.step] at h
    split_ifs at h
    cases h
    exact .inr ⟨rfl, List.prefix_rfl⟩
  | wantRead =>
    simp only [TlsSender.step] at h
    split at h
    · split_ifs at h
      cases h
      exact .inr ⟨rfl, List.prefix_rfl⟩
    · cases h
  | error =>
    simp only [TlsSender.step] at h
    split at h
    · cases h
      exact .inr ⟨rfl, List.prefix_rfl⟩
    · cases h
  | pop =>
    simp only [TlsSender.step] at h
    split at h
    · split at h
      · split_ifs at h
        cases h
        exact .inr ⟨rfl, List.prefix_rfl⟩
      · cases h
    · cases h
  | ran | leave =>
    simp only [TlsSender.step] at h
    split at h
    · split_ifs at h
      cases h
      exact .inr ⟨rfl, List.prefix_rfl⟩
    · cases h

/-! ## Delivery -/

/-- What was accepted is the wire of the frames that have arrived, what the parser stores, and what
is in transit. -/
structure Delivers (l : TlsLink) : Prop where
  sound : l.sender.Sound
  fits : ∀ f ∈ l.sender.enqueued, f.length ≤ kMaxFrameBytes
  arrived : ∃ stored rest, l.receiver.parser.Stores stored ∧
    l.sender.enqueued = l.receiver.taken ++ l.receiver.recvQueue ++ rest ∧
    l.sender.accepted = wire (l.receiver.taken ++ l.receiver.recvQueue) ++ stored ++ l.inTransit
  refused : l.receiver.refused = false

theorem delivers_empty : ({} : TlsLink).Delivers where
  sound := TlsSender.init_sound
  fits := nofun
  arrived := ⟨[], [], FrameParser.Idle.stores ⟨rfl, rfl, rfl, rfl⟩, rfl, rfl⟩
  refused := rfl

theorem Delivers.send (h : l.Delivers) {a : TlsAction} (hcareful : l.Careful (.send a))
    (hstep : l.step grow (.send a) = some l') : l'.Delivers := by
  obtain ⟨stored, rest, hstores, hframes, haccepted⟩ := h.arrived
  obtain ⟨sender, hsender, rfl⟩ := Option.map_eq_some_iff.1 hstep
  have hcalm : Calm l.sender a := by
    cases a with
    | enqueue frame => trivial
    | _ => exact hcareful
  have hsound : sender.Sound := h.sound.step hcalm hsender
  rcases sender_cases hsender with ⟨frame, rfl, henqueued, hsame⟩ | ⟨henqueued, hprefix⟩
  · refine ⟨hsound, fun f hf => ?_, ⟨stored, rest ++ [frame], hstores, ?_, ?_⟩, h.refused⟩
    · rw [show sender.enqueued = _ from henqueued] at hf
      rcases List.mem_append.1 hf with hf | hf
      · exact h.fits f hf
      · rw [List.mem_singleton.1 hf]
        exact hcareful
    · show sender.enqueued = _
      rw [henqueued, hframes, List.append_assoc]
    · show sender.accepted = _ ++ (l.inTransit ++ sender.accepted.drop l.sender.accepted.length)
      rw [hsame, List.drop_length, List.append_nil]
      exact haccepted
  · obtain ⟨new, hnew⟩ := hprefix
    refine ⟨hsound, ?_, ⟨stored, rest, hstores, henqueued.trans hframes, ?_⟩, h.refused⟩
    · rw [show sender.enqueued = _ from henqueued]
      exact h.fits
    · show sender.accepted = _ ++ (l.inTransit ++ sender.accepted.drop l.sender.accepted.length)
      rw [← hnew, List.drop_left, haccepted]
      simp only [List.append_assoc]

/-- The plaintext that is read is the beginning of the frames that have not arrived. -/
theorem Delivers.wire_rest (h : l.Delivers) {stored : List UInt8} {rest : List (List UInt8)}
    (hframes : l.sender.enqueued = l.receiver.taken ++ l.receiver.recvQueue ++ rest)
    (haccepted : l.sender.accepted =
      wire (l.receiver.taken ++ l.receiver.recvQueue) ++ stored ++ l.inTransit) :
    ∃ after, stored ++ l.inTransit ++ after = wire rest := by
  obtain ⟨after, hafter⟩ := h.sound.accepted
  refine ⟨after, ?_⟩
  rw [haccepted, hframes, wire_append _ rest, List.append_assoc, List.append_assoc] at hafter
  rw [List.append_assoc]
  exact List.append_cancel_left hafter

theorem Delivers.read (h : l.Delivers) {n : Nat} (hharmless : l.receiver.Harmless)
    (hstep : l.step grow (.read n) = some l') :
    l'.Delivers ∧ l.receiver.Fed l'.receiver (l.inTransit.take n) := by
  obtain ⟨stored, rest, hstores, hframes, haccepted⟩ := h.arrived
  obtain ⟨after, hafter⟩ := h.wire_rest hframes haccepted
  rw [step] at hstep
  split_ifs at hstep with hread
  cases hstep
  obtain ⟨-, -, -, hreading⟩ := hread
  have hrest : ∀ f ∈ rest, f.length ≤ kMaxFrameBytes := fun f hf =>
    h.fits f (by rw [hframes]; exact List.mem_append_right _ hf)
  have hwire : stored ++ l.inTransit.take n ++ (l.inTransit.drop n ++ after) = wire rest := by
    rw [← hafter]
    conv_rhs => rw [← List.take_append_drop n l.inTransit]
    simp only [List.append_assoc]
  obtain ⟨hfed, stored', rest', hstores', hdelivered, hwire'⟩ :=
    Connection.fed_wire grow .tls hharmless hreading hstores hrest hwire
  -- the bytes fed are those of the frames delivered and what is stored now
  have hbytes : stored ++ l.inTransit.take n =
      wire (l.receiver.parser.feed (l.inTransit.take n)).frames ++ stored' := by
    rw [hdelivered, wire_append, ← hwire', ← List.append_assoc (wire _)] at hwire
    exact List.append_cancel_right hwire
  refine ⟨⟨h.sound, h.fits, ⟨stored', rest', hstores', ?_, ?_⟩, hfed.refused.trans h.refused⟩,
    hfed⟩
  · show l.sender.enqueued = (l.receiver.onRead grow .tls true (l.inTransit.take n)).taken ++
      (l.receiver.onRead grow .tls true (l.inTransit.take n)).recvQueue ++ rest'
    rw [hfed.taken, hfed.recvQueue, hframes, hdelivered]
    simp only [List.append_assoc]
  · show l.sender.accepted = wire ((l.receiver.onRead grow .tls true (l.inTransit.take n)).taken ++
      (l.receiver.onRead grow .tls true (l.inTransit.take n)).recvQueue) ++ stored' ++
        l.inTransit.drop n
    rw [hfed.taken, hfed.recvQueue, ← List.append_assoc l.receiver.taken, wire_append,
      List.append_assoc _ _ stored', ← hbytes, haccepted]
    conv_lhs => rw [← List.take_append_drop n l.inTransit]
    simp only [List.append_assoc]

theorem Delivers.step {a : Action} (h : l.Delivers) (hcareful : l.Careful a)
    (hstep : l.step grow a = some l') : l'.Delivers := by
  cases a with
  | send a => exact h.send hcareful hstep
  | read n => exact (h.read hcareful hstep).1
  | ended =>
    cases hstep
    exact ⟨h.sound, h.fits, h.arrived, h.refused⟩
  | sslClosed =>
    cases hstep
    exact ⟨h.sound, h.fits, h.arrived, h.refused⟩
  | dequeue capacity =>
    cases hstep
    obtain ⟨stored, rest, hstores, hframes, haccepted⟩ := h.arrived
    have hconnection : (l.receive grow (.dequeue capacity)).receiver =
        l.receiver.dequeueFrame capacity := rfl
    cases hqueue : l.receiver.recvQueue with
    | nil =>
      have hsame : l.receiver.dequeueFrame capacity = l.receiver := by
        rw [Connection.dequeueFrame, hqueue]
      refine ⟨h.sound, h.fits, ⟨stored, rest, ?_⟩, ?_⟩ <;> rw [hconnection, hsame]
      · exact ⟨hstores, hframes, haccepted⟩
      · exact h.refused
    | cons frame queue =>
      have hall : (l.receiver.dequeueFrame capacity).taken ++
          (l.receiver.dequeueFrame capacity).recvQueue =
          l.receiver.taken ++ l.receiver.recvQueue := by
        simp only [Connection.dequeueFrame, hqueue, List.append_assoc, List.cons_append,
          List.nil_append]
      have hparser : (l.receiver.dequeueFrame capacity).parser = l.receiver.parser := by
        simp only [Connection.dequeueFrame, hqueue]
      have hrefused : (l.receiver.dequeueFrame capacity).refused = l.receiver.refused := by
        simp only [Connection.dequeueFrame, hqueue]
      refine ⟨h.sound, h.fits, ⟨stored, rest, ?_⟩, ?_⟩ <;> rw [hconnection]
      · rw [hparser, hall]
        exact ⟨hstores, hframes, haccepted⟩
      · rw [hrefused]
        exact h.refused

/-- When no write has failed and nothing is under way, everything has arrived. -/
theorem Delivers.all (h : l.Delivers) (hbroken : l.sender.broken = false)
    (hsends : l.sender.sends = []) (hqueue : l.sender.plaintextSendQueue = [])
    (htransit : l.inTransit = []) :
    l.receiver.taken ++ l.receiver.recvQueue = l.sender.enqueued ∧ l.receiver.parser.Idle := by
  obtain ⟨stored, rest, hstores, hframes, haccepted⟩ := h.arrived
  have hbytes := (h.sound.whole hbroken).bytes
  rw [hsends, hqueue, List.flatMap_nil, List.flatten_nil, List.append_nil, List.append_nil,
    haccepted, htransit, List.append_nil, hframes, wire_append _ rest] at hbytes
  obtain rfl := List.append_cancel_left hbytes
  have hrest : ∀ f ∈ rest, f.length ≤ kMaxFrameBytes := fun f hf =>
    h.fits f (by rw [hframes]; exact List.mem_append_right _ hf)
  obtain ⟨rfl, hidle⟩ := hstores.idle_of_wire hrest
  rw [List.append_nil] at hframes
  exact ⟨hframes.symm, hidle⟩

end TlsLink

/-- A frame is written in two pieces, the second after a read in between, and read in three. -/
def TlsLink.pieces : List TlsLink.Action :=
  [.send (.enqueue [7, 8]), .send .enter, .send (.write 3), .read 2, .send .wantRead,
    .send .enter, .send .leave, .send .ran, .send (.enqueue [9]), .send (.write 3), .read 3,
    .send .pop, .send .leave, .send .enter, .send (.write 5), .send .pop, .send .leave, .dequeue 0,
    .read 6]

end Bison
