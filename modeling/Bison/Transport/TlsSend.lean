import Bison.Lib.Machine
import Bison.Transport.FrameParser

/-!
# Sending over TLS

`enqueue_frame` and `on_tls_send` of tls_stream_state.hpp. Any thread queues a frame; the loop
thread runs `on_tls_send`, which takes the whole queue and hands it to `mbedtls_ssl_write` piece by
piece. Where that wants to read first, `on_tls_send` runs the loop from within, and the loop may run
`on_tls_send` again.

- `TlsSender.step`: one step of another thread or of the loop thread.
- `Calm`: an `on_tls_send` within another finds the queue empty.
- `calm_sends`: **main result**, then the accepted bytes are those of the frames in order.
- `nested_overtakes`: a frame that is queued while another one is half written goes in between.
-/

namespace Bison

/-- A run of `on_tls_send`: its `pending`, how much of the first is written, and whether it is in
`uv_run`. -/
structure TlsSend where
  pending : List (List UInt8)
  off : Nat := 0
  inRun : Bool := false
  deriving Repr, DecidableEq

/-- What the run has not written yet. -/
def TlsSend.left (send : TlsSend) : List UInt8 :=
  send.pending.flatten.drop send.off

/-- The send side of a connection. `sends`: the runs of `on_tls_send`, the innermost first.
`broken`: `mbedtls_ssl_write` has given an error, and will again. -/
structure TlsSender where
  plaintextSendQueue : List (List UInt8) := []
  sends : List TlsSend := []
  broken : Bool := false
  /-- The plaintext that `mbedtls_ssl_write` has accepted. -/
  accepted : List UInt8 := []
  enqueued : List (List UInt8) := []
  deriving Repr, DecidableEq

inductive TlsAction where
  /-- A thread calls `enqueue_frame`. -/
  | enqueue (frame : List UInt8)
  /-- The loop runs `on_tls_send`, from its own thread or in a `uv_run` of an earlier one. -/
  | enter
  /-- `mbedtls_ssl_write` accepts so many bytes, one at least. -/
  | write (n : Nat)
  | wantWrite
  /-- It wants to read, and `on_tls_send` enters `uv_run`. -/
  | wantRead
  /-- That `uv_run` returns. -/
  | ran
  | error
  /-- The first of `pending` is written. -/
  | pop
  /-- `pending` is empty. -/
  | leave

namespace TlsSender

/-- The innermost run is at `mbedtls_ssl_write`, with this left of the first of `pending`. -/
def writing (s : TlsSender) : Option (TlsSend × List UInt8 × List TlsSend) :=
  match s.sends with
  | send :: below =>
    match send.inRun, send.pending.head? with
    | false, some data => if send.off < data.length then some (send, data, below) else none
    | _, _ => none
  | [] => none

/-- One step. -/
def step (s : TlsSender) : TlsAction → Option TlsSender
  | .enqueue frame =>
    some { s with
      plaintextSendQueue := s.plaintextSendQueue ++ [enqueueFrame frame]
      enqueued := s.enqueued ++ [frame] }
  | .enter =>
    if ∃ send ∈ s.sends.head?, send.inRun = false then none
    else some { s with
      plaintextSendQueue := []
      sends := { pending := s.plaintextSendQueue } :: s.sends }
  | .write n =>
    match s.writing with
    | some (send, data, below) =>
      if s.broken = false ∧ 0 < n ∧ n ≤ data.length - send.off then
        some { s with
          accepted := s.accepted ++ (data.drop send.off).take n
          sends := { send with off := send.off + n } :: below }
      else none
    | none => none
  | .wantWrite => if s.writing.isSome ∧ s.broken = false then some s else none
  | .wantRead =>
    match s.writing with
    | some (send, _, below) =>
      if s.broken then none else some { s with sends := { send with inRun := true } :: below }
    | none => none
  | .ran =>
    match s.sends with
    | send :: below =>
      if send.inRun then some { s with sends := { send with inRun := false } :: below } else none
    | [] => none
  | .error =>
    match s.writing with
    | some (_, _, below) => some { s with broken := true, sends := below }
    | none => none
  | .pop =>
    match s.sends with
    | send :: below =>
      match send.pending with
      | data :: rest =>
        if send.inRun = false ∧ data.length ≤ send.off then
          some { s with sends := { send with pending := rest, off := 0 } :: below }
        else none
      | [] => none
    | [] => none
  | .leave =>
    match s.sends with
    | send :: below =>
      if send.inRun = false ∧ send.pending = [] then some { s with sends := below } else none
    | [] => none

end TlsSender

/-- Only the outermost `on_tls_send` takes frames. -/
def Calm (s : TlsSender) : TlsAction → Prop
  | .enter => s.sends = [] ∨ s.plaintextSendQueue = []
  | _ => True

/-! ## What the runs keep -/

/-- Only the outermost run holds frames, and none is past the end of the one it writes. -/
def Stacked : List TlsSend → Prop
  | [] => True
  | send :: below =>
    (below ≠ [] → send.pending = []) ∧ (∀ data ∈ send.pending.head?, send.off ≤ data.length) ∧
      Stacked below

theorem TlsSend.left_of_nil {send : TlsSend} (h : send.pending = []) : send.left = [] := by
  rw [TlsSend.left, h]
  exact List.drop_nil

theorem TlsSend.left_cons {send : TlsSend} {data : List UInt8} {rest : List (List UInt8)}
    (h : send.pending = data :: rest) (hoff : send.off ≤ data.length) :
    send.left = data.drop send.off ++ rest.flatten := by
  rw [TlsSend.left, h, List.flatten_cons, List.drop_append_of_le_length hoff]

namespace TlsSender

variable {s s' : TlsSender}

theorem writing_spec {send : TlsSend} {data : List UInt8} {below : List TlsSend}
    (h : s.writing = some (send, data, below)) :
    s.sends = send :: below ∧ (∃ rest, send.pending = data :: rest) ∧ send.off < data.length := by
  unfold writing at h
  split at h
  next send' below' hsends =>
    split at h
    next data' _ hhead =>
      split at h
      next hlt =>
        simp only [Option.some.injEq, Prod.mk.injEq] at h
        obtain ⟨rfl, rfl, rfl⟩ := h
        exact ⟨hsends, List.head?_eq_some_iff.1 hhead, hlt⟩
      · cases h
    · cases h
  · cases h

/-- Every byte is accepted, with the outermost run, or in the queue. -/
structure Whole (s : TlsSender) : Prop where
  stacked : Stacked s.sends
  bytes : s.accepted ++ s.sends.flatMap TlsSend.left ++ s.plaintextSendQueue.flatten =
    wire s.enqueued

/-- What is accepted is right, and while no write has failed nothing is missing. -/
structure Sound (s : TlsSender) : Prop where
  accepted : s.accepted <+: wire s.enqueued
  whole : s.broken = false → s.Whole

theorem Whole.accepted (h : s.Whole) : s.accepted <+: wire s.enqueued := by
  rw [← h.bytes, List.append_assoc]
  exact List.prefix_append _ _

theorem Whole.to_sound (h : s.Whole) : s.Sound :=
  ⟨h.accepted, fun _ => h⟩

/-- A step that accepts and queues nothing. -/
theorem Sound.of_sends (hs : s.Sound) {sends : List TlsSend}
    (hstacked : Stacked s.sends → Stacked sends)
    (hleft : Stacked s.sends → sends.flatMap TlsSend.left = s.sends.flatMap TlsSend.left) :
    Sound { s with sends := sends } := by
  refine ⟨hs.accepted, fun hbroken => ?_⟩
  have hwhole := hs.whole hbroken
  refine ⟨hstacked hwhole.stacked, ?_⟩
  show s.accepted ++ sends.flatMap TlsSend.left ++ s.plaintextSendQueue.flatten = wire s.enqueued
  rw [hleft hwhole.stacked]
  exact hwhole.bytes

theorem wire_concat (frames : List (List UInt8)) (frame : List UInt8) :
    wire (frames ++ [frame]) = wire frames ++ enqueueFrame frame := by
  rw [wire, List.flatMap_append, List.flatMap_singleton]
  rfl

theorem Sound.enqueue (hs : s.Sound) (frame : List UInt8) : Sound { s with
    plaintextSendQueue := s.plaintextSendQueue ++ [enqueueFrame frame]
    enqueued := s.enqueued ++ [frame] } := by
  constructor
  · show s.accepted <+: wire (s.enqueued ++ [frame])
    rw [wire_concat]
    exact hs.accepted.trans (List.prefix_append _ _)
  · intro hbroken
    have hwhole := hs.whole hbroken
    refine ⟨hwhole.stacked, ?_⟩
    show s.accepted ++ s.sends.flatMap TlsSend.left ++
      (s.plaintextSendQueue ++ [enqueueFrame frame]).flatten = wire (s.enqueued ++ [frame])
    rw [wire_concat, List.flatten_append, List.flatten_singleton, ← List.append_assoc,
      hwhole.bytes]

/-- The queue goes to the outermost run, which starts with nothing before it. -/
theorem Sound.enter (hs : s.Sound) (hcalm : s.sends = [] ∨ s.plaintextSendQueue = []) :
    Sound { s with
      plaintextSendQueue := []
      sends := { pending := s.plaintextSendQueue } :: s.sends } := by
  refine ⟨hs.accepted, fun hbroken => ?_⟩
  have hwhole := hs.whole hbroken
  have hbytes := hwhole.bytes
  refine ⟨⟨fun hne => hcalm.resolve_left hne, fun _ _ => Nat.zero_le _, hwhole.stacked⟩, ?_⟩
  show s.accepted ++ (s.plaintextSendQueue.flatten.drop 0 ++ s.sends.flatMap TlsSend.left) ++ [] =
    wire s.enqueued
  rw [List.drop_zero, List.append_nil]
  rcases hcalm with hsends | hqueue
  · rw [hsends] at hbytes ⊢
    simpa only [List.flatMap_nil, List.append_nil] using hbytes
  · rw [hqueue] at hbytes ⊢
    simpa only [List.flatten_nil, List.nil_append, List.append_nil] using hbytes

/-- The accepted bytes are the next ones, since the run that writes is the outermost. -/
theorem Sound.write (hs : s.Sound) (hbroken : s.broken = false) {send : TlsSend}
    {data : List UInt8} {below : List TlsSend} {n : Nat}
    (hwriting : s.writing = some (send, data, below)) (hn : n ≤ data.length - send.off) :
    Sound { s with
      accepted := s.accepted ++ (data.drop send.off).take n
      sends := { send with off := send.off + n } :: below } := by
  obtain ⟨hsends, ⟨rest, hpending⟩, hlt⟩ := writing_spec hwriting
  have hwhole := hs.whole hbroken
  have hstacked := hwhole.stacked
  have hbytes := hwhole.bytes
  rw [hsends] at hstacked hbytes
  obtain ⟨hnested, -, hbelow⟩ := hstacked
  have hle : send.off + n ≤ data.length := by omega
  have hfits : ∀ data' ∈ send.pending.head?, send.off + n ≤ data'.length := by
    intro data' hdata'
    rw [hpending] at hdata'
    cases hdata'
    exact hle
  refine Whole.to_sound ⟨⟨hnested, hfits, hbelow⟩, ?_⟩
  have hsplit : (data.drop send.off).take n ++ data.drop (send.off + n) = data.drop send.off := by
    rw [← List.drop_drop]
    exact List.take_append_drop n _
  have hafter : TlsSend.left { send with off := send.off + n } =
      data.drop (send.off + n) ++ rest.flatten := TlsSend.left_cons hpending hle
  rw [List.flatMap_cons, TlsSend.left_cons hpending (Nat.le_of_lt hlt), ← hsplit] at hbytes
  rw [List.flatMap_cons, hafter, ← hbytes]
  simp only [List.append_assoc]

/-- A frame that is written has nothing left. -/
theorem Sound.pop (hs : s.Sound) {send : TlsSend} {below : List TlsSend} {data : List UInt8}
    {rest : List (List UInt8)} (hsends : s.sends = send :: below)
    (hpending : send.pending = data :: rest) (hwritten : data.length ≤ send.off) :
    Sound { s with sends := { send with pending := rest, off := 0 } :: below } := by
  refine hs.of_sends (fun hstacked => ?_) fun hstacked => ?_
  · rw [hsends] at hstacked
    obtain ⟨hnested, -, hbelow⟩ := hstacked
    refine ⟨fun hne => ?_, fun _ _ => Nat.zero_le _, hbelow⟩
    have hempty := hnested hne
    rw [hpending] at hempty
    cases hempty
  · rw [hsends] at hstacked
    obtain ⟨-, hfits, -⟩ := hstacked
    have hoff : send.off ≤ data.length := hfits data (by rw [hpending]; rfl)
    rw [hsends, List.flatMap_cons, List.flatMap_cons, TlsSend.left_cons hpending hoff,
      List.drop_eq_nil_of_le hwritten]
    rfl

theorem Sound.step (hs : s.Sound) {a : TlsAction} (hcalm : Calm s a) (h : s.step a = some s') :
    s'.Sound := by
  cases a with
  | enqueue frame =>
    cases h
    exact hs.enqueue frame
  | enter =>
    simp only [TlsSender.step] at h
    split at h
    · cases h
    · cases h
      exact hs.enter hcalm
  | write n =>
    simp only [TlsSender.step] at h
    split at h
    next send data below hwriting =>
      split at h
      next hn =>
        cases h
        exact hs.write hn.1 hwriting hn.2.2
      · cases h
    · cases h
  | wantWrite =>
    simp only [TlsSender.step] at h
    split at h
    · cases h
      exact hs
    · cases h
  | wantRead =>
    simp only [TlsSender.step] at h
    split at h
    next send data below hwriting =>
      obtain ⟨hsends, -, -⟩ := writing_spec hwriting
      split at h
      · cases h
      · cases h
        exact hs.of_sends (fun hst => by rw [hsends] at hst; exact hst)
          (fun _ => by rw [hsends]; rfl)
    · cases h
  | ran =>
    simp only [TlsSender.step] at h
    split at h
    next send below hsends =>
      split at h
      · cases h
        exact hs.of_sends (fun hst => by rw [hsends] at hst; exact hst)
          (fun _ => by rw [hsends]; rfl)
      · cases h
    · cases h
  | error =>
    simp only [TlsSender.step] at h
    split at h
    · cases h
      exact ⟨hs.accepted, by simp⟩
    · cases h
  | pop =>
    simp only [TlsSender.step] at h
    split at h
    next send below hsends =>
      split at h
      next data rest hpending =>
        split at h
        next hwritten =>
          cases h
          exact hs.pop hsends hpending hwritten.2
        · cases h
      · cases h
    · cases h
  | leave =>
    simp only [TlsSender.step] at h
    split at h
    next send below hsends =>
      split at h
      next hempty =>
        cases h
        refine hs.of_sends (fun hst => ?_) fun _ => ?_
        · rw [hsends] at hst
          exact hst.2.2
        · rw [hsends, List.flatMap_cons, TlsSend.left_of_nil hempty.2, List.nil_append]
      · cases h
    · cases h

theorem init_sound : Sound {} where
  accepted := List.nil_prefix
  whole _ := ⟨trivial, rfl⟩

end TlsSender

/-- **TLS sending keeps frames whole and in order** in every run in which an `on_tls_send` that the
loop runs within another finds no frame in the queue. -/
theorem calm_sends {s : TlsSender} (actions : List TlsAction)
    (hcalm : Machine.Each TlsSender.step Calm {} actions)
    (h : Machine.run TlsSender.step {} actions = some s) : s.accepted <+: wire s.enqueued :=
  (Machine.run_invariant_of_each (I := TlsSender.Sound)
    (fun _ _ _ hs hcalm hstep => hs.step hcalm hstep) TlsSender.init_sound hcalm h).accepted

instance (s : TlsSender) (a : TlsAction) : Decidable (Calm s a) :=
  match a with
  | .enter => inferInstanceAs (Decidable (s.sends = [] ∨ s.plaintextSendQueue = []))
  | .enqueue _ | .write _ | .wantWrite | .wantRead | .ran | .error | .pop | .leave =>
      .isTrue trivial

/-- A frame written in two pieces with a read between them, and another frame. -/
def tlsRun : List TlsAction :=
  [.enqueue [1], .enter, .wantWrite, .write 2, .wantRead, .enter, .leave, .enqueue [2], .ran,
    .write 3, .pop, .leave, .enter, .write 5, .pop, .leave]

theorem calm_sends_run : ∃ s, Machine.run TlsSender.step {} tlsRun = some s ∧
    s.accepted <+: wire s.enqueued ∧ s.accepted = wire [[1], [2]] := by
  have hrun : Machine.run TlsSender.step {} tlsRun = some
      { accepted := [0, 0, 0, 1, 1, 0, 0, 0, 1, 2], enqueued := [[1], [2]] } := by decide
  have hcalm : Machine.Each TlsSender.step Calm {} tlsRun := by decide
  exact ⟨_, hrun, calm_sends tlsRun hcalm hrun, by decide⟩

/-- One byte of the first frame is written when the write wants to read. The loop that runs there
runs `on_tls_send` for the second frame, which is written whole; the rest of the first comes after
it. -/
theorem nested_overtakes : ∃ s, Machine.run TlsSender.step {} [.enqueue [1], .enter, .write 1,
      .wantRead, .enqueue [2], .enter, .write 5, .pop, .leave, .ran, .write 4] = some s ∧
    s.accepted = [0, 0, 0, 0, 1, 2, 0, 0, 1, 1] ∧ ¬ s.accepted <+: wire s.enqueued :=
  ⟨_, rfl, by decide, by decide⟩

end Bison
