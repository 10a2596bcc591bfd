import Bison.Transport.ReceivePath
import Bison.Lib.Machine
import Mathlib.Data.Bool.AllAny

/-!
# A connection between two event loops

One direction of a connection over libuv (uv_stream_state.hpp), from the threads that call
`enqueue_frame` at one end to the thread that calls `dequeue_frame` at the other. A caller pushes
the bytes of a frame to a queue and then wakes the loop of its end; the loop takes the whole queue
and writes it; the bytes arrive at the other end in pieces of any size, where the loop feeds them
to the parser (`Connection`).

- `UvLink.step`: one step of a caller, of one of the two loops or of the receiving thread.
- `uv_link_delivers`: **main result**, in every run in which no offered buffer costs the parser
  bytes, the frames received and those waiting are the first ones sent, and they are all as soon
  as nothing is under way.
- `uv_link_deliverable`: **main result**, no frame is stranded: as long as both ends are open, the
  loops can always go on until every frame that was sent has been received.
-/

namespace Bison

theorem wire_append (frames frames' : List (List UInt8)) :
    wire (frames ++ frames') = wire frames ++ wire frames' :=
  List.flatMap_append

theorem wire_singleton (frame : List UInt8) : wire [frame] = enqueueFrame frame := by
  simp [wire]

/-! ## Reading -/

namespace Connection

variable {grow : Nat → Nat → Nat}

/-- A read that costs the parser nothing, of a length that is allowed. -/
structure Fed (c c' : Connection) (bytes : List UInt8) : Prop where
  parser : c'.parser = (c.parser.feed bytes).parser
  recvQueue : c'.recvQueue = c.recvQueue ++ (c.parser.feed bytes).frames
  taken : c'.taken = c.taken
  reading : c'.reading = c.reading
  refused : c'.refused = c.refused
  spare : c'.spare = 0

theorem fed_of_harmless {c : Connection} (path : ReadPath) (hharmless : c.Harmless)
    {bytes : List UInt8} (hreading : c.reading = true) (hok : (c.parser.feed bytes).ok = true) :
    Fed c (c.onRead grow path true bytes) bytes := by
  have hparser := Connection.offerReuse_harmless hharmless
  have hrefused : c.offerReuse.refused = c.refused := by
    unfold Connection.offerReuse
    split <;> rfl
  have hspare : c.offerReuse.spare = 0 := by
    unfold Connection.offerReuse
    split <;> rfl
  unfold Connection.onRead
  simp only [hreading, if_true, hparser, hok]
  exact ⟨rfl, by rw [Connection.offerReuse_recvQueue], Connection.offerReuse_taken c,
    Connection.offerReuse_reading c, hrefused, hspare⟩

/-- Such a read takes the next frames off the wire. -/
theorem fed_wire (grow : Nat → Nat → Nat) {c : Connection} (path : ReadPath)
    (hharmless : c.Harmless) (hreading : c.reading = true)
    {stored bytes after : List UInt8} {rest : List (List UInt8)}
    (hstores : c.parser.Stores stored) (hrest : ∀ f ∈ rest, f.length ≤ kMaxFrameBytes)
    (hwire : stored ++ bytes ++ after = wire rest) :
    Fed c (c.onRead grow path true bytes) bytes ∧
      ∃ stored' rest', (c.onRead grow path true bytes).parser.Stores stored' ∧
        rest = (c.parser.feed bytes).frames ++ rest' ∧ stored' ++ after = wire rest' := by
  obtain ⟨stored', left, rest', hok, hframes, hstores', hwire', hdone⟩ :=
    FrameParser.feedLoop_spec (2 * bytes.length) hstores hrest hwire
  obtain rfl := hdone (by omega)
  have hfed : Fed c (c.onRead grow path true bytes) bytes :=
    fed_of_harmless path hharmless hreading hok
  refine ⟨hfed, stored', rest', ?_, hframes, ?_⟩
  · rw [hfed.parser]
    exact hstores'
  · rwa [List.append_nil] at hwire'

end Connection

/-! ## The link -/

/-- One direction of a connection. What libuv does with the bytes of `uv_write`: they arrive in
order, in pieces of some size. -/
structure UvLink where
  sendQueue : List (List UInt8) := []
  /-- The callers that have pushed, and not yet called `uv_async_send`. -/
  signalling : Nat := 0
  /-- `uv_async_send` was called, and `on_send` has not run since. -/
  signalled : Bool := false
  /-- What `uv_flush_write_queue` has swapped out, and not yet written. -/
  pending : List (List UInt8) := []
  /-- `on_stop` has closed the sending end. -/
  stopped : Bool := false
  inTransit : List UInt8 := []
  receiver : Connection := {}
  /-- The frames that were passed to `enqueue_frame`, in the order of the queue. -/
  sent : List (List UInt8) := []

inductive UvLink.Action where
  /-- `enqueue_frame`, up to the queue. -/
  | enqueue (frame : List UInt8)
  /-- The `uv_async_send` of an `enqueue_frame`. -/
  | signal
  /-- `on_send`, up to the swap. -/
  | onSend
  /-- One `uv_write` of `uv_flush_write_queue`. -/
  | write
  | onStop
  /-- `on_read` with the next `n` bytes. -/
  | onRead (n : Nat)
  /-- `on_read` with an error or the end of the stream. -/
  | onEnd
  /-- `dequeue_frame` with a buffer of this capacity, when it does not wait any longer. -/
  | dequeue (capacity : Nat)

namespace UvLink

-- the capacity a vector of some capacity takes when it has to hold so many bytes
variable (grow : Nat → Nat → Nat)

/-- The receiving end goes on. -/
def receive (l : UvLink) (e : ConnectionEvent) : UvLink :=
  { l with receiver := l.receiver.step grow .plain true e }

/-- One step (uv_stream_state.hpp:70, 252, 269, 307, 341). -/
def step (l : UvLink) : Action → Option UvLink
  | .enqueue frame =>
    some { l with
      sendQueue := l.sendQueue ++ [enqueueFrame frame]
      signalling := l.signalling + 1
      sent := l.sent ++ [frame] }
  | .signal =>
    if l.signalling = 0 then none
    else some { l with signalling := l.signalling - 1, signalled := true }
  | .onSend =>
    if l.signalled && l.pending.isEmpty && !l.stopped then
      some { l with signalled := false, sendQueue := [], pending := l.sendQueue }
    else none
  | .write =>
    match l.pending with
    | [] => none
    | data :: rest =>
      if l.stopped then none
      else some { l with pending := rest, inTransit := l.inTransit ++ data }
  | .onStop => some { l with stopped := true }
  | .onRead n =>
    -- `read_buf` holds 65536 bytes
    if 0 < n ∧ n ≤ l.inTransit.length ∧ n ≤ 65536 ∧ l.receiver.reading then
      some { l.receive grow (.read (l.inTransit.take n)) with inTransit := l.inTransit.drop n }
    else none
  | .onEnd => some (l.receive grow .ended)
  | .dequeue capacity => some (l.receive grow (.dequeue capacity))

/-- A frame that is sent fits, and a read takes no byte that is stored. -/
def Careful (l : UvLink) : Action → Prop
  | .enqueue frame => frame.length ≤ kMaxFrameBytes
  | .onRead _ => l.receiver.Harmless
  | _ => True

instance (l : UvLink) (a : Action) : Decidable (l.Careful a) := by
  cases a <;> simp only [Careful, Connection.Harmless] <;> infer_instance

/-- The bytes of `sent` that were not yet fed to the parser. -/
def underWay (l : UvLink) : List UInt8 :=
  l.inTransit ++ l.pending.flatten ++ l.sendQueue.flatten

/-- The frames the receiving end has got, and `rest`: those of which it stores the beginning. -/
structure Delivers (l : UvLink) : Prop where
  fits : ∀ f ∈ l.sent, f.length ≤ kMaxFrameBytes
  wire : ∃ stored rest, l.receiver.parser.Stores stored ∧
    l.sent = l.receiver.taken ++ l.receiver.recvQueue ++ rest ∧
    stored ++ l.underWay = Bison.wire rest
  refused : l.receiver.refused = false

variable {grow} {l l' : UvLink}

theorem delivers_empty : ({} : UvLink).Delivers where
  fits := nofun
  wire := ⟨[], [], FrameParser.Idle.stores ⟨rfl, rfl, rfl, rfl⟩, rfl, rfl⟩
  refused := rfl

/-- A step that moves bytes towards the other end. -/
theorem Delivers.moved (h : l.Delivers) (hsent : l'.sent = l.sent)
    (hreceiver : l'.receiver = l.receiver) (hunderWay : l'.underWay = l.underWay) :
    l'.Delivers := by
  obtain ⟨stored, rest, hstores, hframes, hwire⟩ := h.wire
  refine ⟨?_, ⟨stored, rest, ?_, ?_, ?_⟩, ?_⟩
  · rw [hsent]
    exact h.fits
  · rw [hreceiver]
    exact hstores
  · rw [hsent, hreceiver]
    exact hframes
  · rw [hunderWay]
    exact hwire
  · rw [hreceiver]
    exact h.refused

/-- A caller pushes a frame. -/
theorem Delivers.enqueue (h : l.Delivers) {frame : List UInt8}
    (hfits : frame.length ≤ kMaxFrameBytes) (hstep : l.step grow (.enqueue frame) = some l') :
    l'.Delivers := by
  obtain ⟨stored, rest, hstores, hframes, hwire⟩ := h.wire
  cases hstep
  refine ⟨fun f hf => ?_, ⟨stored, rest ++ [frame], hstores, ?_, ?_⟩, h.refused⟩
  · rcases List.mem_append.1 hf with hf | hf
    · exact h.fits f hf
    · rw [List.mem_singleton.1 hf]
      exact hfits
  · show l.sent ++ [frame] = _
    rw [hframes, List.append_assoc]
  · rw [wire_append, wire_singleton, ← hwire]
    simp [underWay]

/-- `on_read` feeds the next bytes of the wire, and what it completes are the next frames. -/
theorem Delivers.onRead (h : l.Delivers) {n : Nat} (hharmless : l.receiver.Harmless)
    (hstep : l.step grow (.onRead n) = some l') :
    l'.Delivers ∧ l.receiver.Fed l'.receiver (l.inTransit.take n) := by
  obtain ⟨stored, rest, hstores, hframes, hwire⟩ := h.wire
  rw [step] at hstep
  split_ifs at hstep with hread
  cases hstep
  obtain ⟨-, -, -, hreading⟩ := hread
  have hrest : ∀ f ∈ rest, f.length ≤ kMaxFrameBytes := fun f hf =>
    h.fits f (by rw [hframes]; exact List.mem_append_right _ hf)
  have hwire' : stored ++ l.inTransit.take n ++
      (l.inTransit.drop n ++ l.pending.flatten ++ l.sendQueue.flatten) = Bison.wire rest := by
    rw [← hwire, underWay]
    conv_rhs => rw [← List.take_append_drop n l.inTransit]
    simp only [List.append_assoc]
  obtain ⟨hfed, stored', rest', hstores', hdelivered, hwire''⟩ :=
    Connection.fed_wire grow .plain hharmless hreading hstores hrest hwire'
  refine ⟨⟨h.fits, ⟨stored', rest', hstores', ?_, hwire''⟩, hfed.refused.trans h.refused⟩, hfed⟩
  show l.sent = (l.receiver.onRead grow .plain true (l.inTransit.take n)).taken ++
    (l.receiver.onRead grow .plain true (l.inTransit.take n)).recvQueue ++ rest'
  rw [hfed.taken, hfed.recvQueue, hframes, hdelivered]
  simp only [List.append_assoc]

theorem Delivers.dequeue (h : l.Delivers) (capacity : Nat) :
    (l.receive grow (.dequeue capacity)).Delivers := by
  obtain ⟨stored, rest, hstores, hframes, hwire⟩ := h.wire
  have hconnection : (l.receive grow (.dequeue capacity)).receiver =
      l.receiver.dequeueFrame capacity := rfl
  refine ⟨h.fits, ⟨stored, rest, ?_, ?_, hwire⟩, ?_⟩ <;> rw [hconnection] <;>
    unfold Connection.dequeueFrame
  · split <;> exact hstores
  · split
    · exact hframes
    · next frame queue hqueue =>
      show l.sent = l.receiver.taken ++ [frame] ++ queue ++ rest
      rw [hframes, hqueue]
      simp only [List.append_assoc, List.cons_append, List.nil_append]
  · split <;> exact h.refused

theorem Delivers.step {a : Action} (h : l.Delivers) (hcareful : l.Careful a)
    (hstep : l.step grow a = some l') : l'.Delivers := by
  cases a with
  | enqueue frame => exact h.enqueue hcareful hstep
  | signal =>
    rw [UvLink.step] at hstep
    split_ifs at hstep
    cases hstep
    exact h.moved rfl rfl rfl
  | onSend =>
    rw [UvLink.step] at hstep
    split_ifs at hstep with hready
    cases hstep
    -- the queue becomes `pending`, which was empty
    have hempty : l.pending = [] := by
      simp only [Bool.and_eq_true, List.isEmpty_iff] at hready
      exact hready.1.2
    refine h.moved rfl rfl ?_
    simp [underWay, hempty]
  | write =>
    rw [UvLink.step] at hstep
    split at hstep
    · cases hstep
    · next data rest hpending =>
      split_ifs at hstep
      cases hstep
      refine h.moved rfl rfl ?_
      simp [underWay, hpending]
  | onStop =>
    cases hstep
    exact h.moved rfl rfl rfl
  | onRead n => exact (h.onRead hcareful hstep).1
  | onEnd =>
    cases hstep
    obtain ⟨stored, rest, hstores, hframes, hwire⟩ := h.wire
    exact ⟨h.fits, ⟨stored, rest, hstores, hframes, hwire⟩, h.refused⟩
  | dequeue capacity =>
    cases hstep
    exact h.dequeue capacity

end UvLink

/-- When no byte is under way everything has arrived. -/
theorem UvLink.Delivers.all {l : UvLink} (h : l.Delivers) (hnone : l.underWay = []) :
    l.receiver.taken ++ l.receiver.recvQueue = l.sent ∧ l.receiver.parser.Idle := by
  obtain ⟨stored, rest, hstores, hframes, hwire⟩ := h.wire
  rw [hnone, List.append_nil] at hwire
  subst hwire
  have hrest : ∀ f ∈ rest, f.length ≤ kMaxFrameBytes := fun f hf =>
    h.fits f (by rw [hframes]; exact List.mem_append_right _ hf)
  obtain ⟨rfl, hidle⟩ := hstores.idle_of_wire hrest
  rw [List.append_nil] at hframes
  exact ⟨hframes.symm, hidle⟩

/-- Two frames, the second pushed while the first is written, in pieces cut in the first header and
in the second frame. -/
def UvLink.cut : List UvLink.Action :=
  [.enqueue [7, 8], .signal, .onSend, .enqueue [9], .write, .onRead 3, .signal, .onSend, .write,
    .onRead 4, .dequeue 0, .onRead 4]

namespace UvLink

/-! ## No frame is stranded -/

/-- A frame that is sent fits, and `dequeue_frame` is called with a new buffer, as the threads
that receive call it (client.cpp:270, server.cpp:422). -/
def Fresh : Action → Prop
  | .enqueue frame => frame.length ≤ kMaxFrameBytes
  | .dequeue capacity => capacity = 0
  | _ => True

instance (a : Action) : Decidable (Fresh a) := by
  cases a <;> unfold Fresh <;> infer_instance

/-- The actions of a connection that stays open and over which nothing is sent any more. -/
def Onward : Action → Prop
  | .enqueue _ | .onStop | .onEnd => False
  | .dequeue capacity => capacity = 0
  | .signal | .onSend | .write | .onRead _ => True

/-- A run in which every buffer was new. Somebody is about to wake the loop, or has woken it,
whenever there is something to write. -/
structure Attended (l : UvLink) : Prop where
  delivers : l.Delivers
  spare : l.receiver.spare = 0
  awake : l.sendQueue ≠ [] → l.signalled = true ∨ 0 < l.signalling

variable {grow : Nat → Nat → Nat} {l l' : UvLink}

theorem attended_empty : ({} : UvLink).Attended where
  delivers := delivers_empty
  spare := rfl
  awake := fun hne => absurd rfl hne

theorem harmless_of_spare {c : Connection} (h : c.spare = 0) : c.Harmless :=
  .inr (by rw [h]; exact Nat.zero_le _)

theorem careful_of_fresh {a : Action} (h : Fresh a) (hspare : l.receiver.spare = 0) :
    l.Careful a := by
  cases a with
  | enqueue frame => exact h
  | onRead n => exact harmless_of_spare hspare
  | _ => trivial

theorem spare_dequeue {c : Connection} (h : c.spare = 0) : (c.dequeueFrame 0).spare = 0 := by
  unfold Connection.dequeueFrame
  split
  · exact h
  · simpa using h

theorem Attended.step {a : Action} (h : l.Attended) (hfresh : Fresh a)
    (hstep : l.step grow a = some l') : l'.Attended := by
  refine ⟨h.delivers.step (careful_of_fresh hfresh h.spare) hstep, ?_, ?_⟩
  · cases a with
    | onRead n =>
      exact (h.delivers.onRead (harmless_of_spare h.spare) hstep).2.spare
    | dequeue capacity =>
      obtain rfl : capacity = 0 := hfresh
      cases hstep
      exact spare_dequeue h.spare
    | enqueue frame | onStop | onEnd =>
      cases hstep
      exact h.spare
    | signal | onSend =>
      rw [UvLink.step] at hstep
      split_ifs at hstep
      cases hstep
      exact h.spare
    | write =>
      rw [UvLink.step] at hstep
      split at hstep
      · cases hstep
      · split_ifs at hstep
        cases hstep
        exact h.spare
  · cases a with
    | enqueue frame =>
      cases hstep
      exact fun _ => .inr (Nat.succ_pos _)
    | signal =>
      rw [UvLink.step] at hstep
      split_ifs at hstep
      cases hstep
      exact fun _ => .inl rfl
    | onSend =>
      rw [UvLink.step] at hstep
      split_ifs at hstep
      cases hstep
      exact fun hne => absurd rfl hne
    | write =>
      rw [UvLink.step] at hstep
      split at hstep
      · cases hstep
      · split_ifs at hstep
        cases hstep
        exact h.awake
    | onRead n =>
      rw [UvLink.step] at hstep
      split_ifs at hstep
      cases hstep
      exact h.awake
    | onStop | onEnd | dequeue capacity =>
      cases hstep
      exact h.awake

/-- An open connection. -/
structure Open (l : UvLink) : Prop extends l.Attended where
  sending : l.stopped = false
  reading : l.receiver.reading = true

theorem Onward.fresh {a : Action} (h : Onward a) : Fresh a := by
  cases a with
  | enqueue frame | onStop | onEnd => exact h.elim
  | dequeue capacity => exact h
  | _ => trivial

theorem reading_dequeue (c : Connection) (capacity : Nat) :
    (c.dequeueFrame capacity).reading = c.reading := by
  unfold Connection.dequeueFrame
  split <;> rfl

/-- It stays open, and nothing is sent. -/
theorem Open.step {a : Action} (h : l.Open) (ha : Onward a) (hstep : l.step grow a = some l') :
    l'.Open ∧ l'.sent = l.sent := by
  have hattended := h.toAttended.step ha.fresh hstep
  cases a with
  | enqueue frame | onStop | onEnd => exact ha.elim
  | signal | onSend =>
    rw [UvLink.step] at hstep
    split_ifs at hstep
    cases hstep
    exact ⟨⟨hattended, h.sending, h.reading⟩, rfl⟩
  | write =>
    rw [UvLink.step] at hstep
    split at hstep
    · cases hstep
    · split_ifs at hstep
      cases hstep
      exact ⟨⟨hattended, h.sending, h.reading⟩, rfl⟩
  | onRead n =>
    have hfed := (h.delivers.onRead (harmless_of_spare h.spare) hstep).2
    have hreading := hfed.reading.trans h.reading
    rw [UvLink.step] at hstep
    split_ifs at hstep
    cases hstep
    exact ⟨⟨hattended, h.sending, hreading⟩, rfl⟩
  | dequeue capacity =>
    cases hstep
    exact ⟨⟨hattended, h.sending, (reading_dequeue _ _).trans h.reading⟩, rfl⟩

/-- The loops and the receiver can get from one state to the other. -/
def Reaches (grow : Nat → Nat → Nat) (l l' : UvLink) : Prop :=
  ∃ as, (∀ a ∈ as, Onward a) ∧ Machine.run (step grow) l as = some l'

theorem Reaches.refl (l : UvLink) : Reaches grow l l := ⟨[], nofun, rfl⟩

/-- One more step at the start. -/
theorem Reaches.head {a : Action} {mid : UvLink} (ha : Onward a) (hstep : l.step grow a = some mid)
    (h : Reaches grow mid l') : Reaches grow l l' := by
  obtain ⟨as, has, hrun⟩ := h
  refine ⟨a :: as, fun b hb => ?_, ?_⟩
  · rcases List.mem_cons.1 hb with rfl | hb
    · exact ha
    · exact has b hb
  · rw [Machine.run, hstep]
    exact hrun

theorem Reaches.trans {mid : UvLink} (h : Reaches grow l mid) (h' : Reaches grow mid l') :
    Reaches grow l l' := by
  obtain ⟨as, has, hrun⟩ := h
  induction as generalizing l with
  | nil =>
    cases hrun
    exact h'
  | cons a as ih =>
    obtain ⟨next, hnext, hrest⟩ := Machine.run_cons hrun
    exact (ih (fun b hb => has b (List.mem_cons_of_mem a hb)) hrest).head
      (has a List.mem_cons_self) hnext

variable (grow) in
/-- What is swapped out gets written. -/
theorem Open.writes (h : l.Open) : ∃ l', Reaches grow l l' ∧ l'.Open ∧ l'.sent = l.sent ∧
    l'.pending = [] ∧ l'.sendQueue = l.sendQueue ∧ l'.signalled = l.signalled ∧
    l'.signalling = l.signalling := by
  obtain ⟨pending, hpending⟩ : ∃ pending, l.pending = pending := ⟨_, rfl⟩
  induction pending generalizing l with
  | nil => exact ⟨l, .refl l, h, rfl, hpending, rfl, rfl, rfl⟩
  | cons data rest ih =>
    have hstep : l.step grow .write =
        some { l with pending := rest, inTransit := l.inTransit ++ data } := by
      simp only [UvLink.step, hpending, h.sending, Bool.false_eq_true, if_false]
    obtain ⟨hopen, hsent⟩ := h.step (a := .write) trivial hstep
    obtain ⟨l', hreach, hopen', hsent', hrest⟩ := ih hopen rfl
    exact ⟨l', hreach.head (a := .write) trivial hstep, hopen', hsent'.trans hsent, hrest⟩

variable (grow) in
/-- What is queued gets swapped out. -/
theorem Open.sends (h : l.Open) (hpending : l.pending = []) : ∃ l', Reaches grow l l' ∧ l'.Open ∧
    l'.sent = l.sent ∧ l'.sendQueue = [] := by
  by_cases hqueue : l.sendQueue = []
  · exact ⟨l, .refl l, h, rfl, hqueue⟩
  -- the loop is awake, or a caller is about to wake it
  obtain ⟨mid, hmid, hopen, hsent, hsignalled, hpending⟩ : ∃ mid, Reaches grow l mid ∧ mid.Open ∧
      mid.sent = l.sent ∧ mid.signalled = true ∧ mid.pending = [] := by
    rcases h.awake hqueue with hsignalled | hsignalling
    · exact ⟨l, .refl l, h, rfl, hsignalled, hpending⟩
    · have hstep : l.step grow .signal =
          some { l with signalling := l.signalling - 1, signalled := true } := by
        rw [UvLink.step, if_neg (by omega)]
      obtain ⟨hopen, hsent⟩ := h.step (a := .signal) trivial hstep
      exact ⟨_, (Reaches.refl _).head (a := .signal) trivial hstep, hopen, hsent, rfl, hpending⟩
  have hstep : mid.step grow .onSend =
      some { mid with signalled := false, sendQueue := [], pending := mid.sendQueue } := by
    simp only [UvLink.step, hsignalled, hpending, hopen.sending, List.isEmpty_nil, Bool.not_false,
      Bool.and_self, if_true]
  obtain ⟨hopen', hsent'⟩ := hopen.step (a := .onSend) trivial hstep
  exact ⟨_, hmid.trans ((Reaches.refl _).head (a := .onSend) trivial hstep), hopen',
    hsent'.trans hsent, rfl⟩

variable (grow) in
/-- What is in transit gets read. -/
theorem Open.reads (h : l.Open) (hpending : l.pending = []) (hqueue : l.sendQueue = []) :
    ∃ l', Reaches grow l l' ∧ l'.Open ∧ l'.sent = l.sent ∧ l'.underWay = [] := by
  obtain ⟨bytes, hbytes⟩ : ∃ bytes, l.inTransit = bytes := ⟨_, rfl⟩
  induction bytes generalizing l with
  | nil => exact ⟨l, .refl l, h, rfl, by simp [underWay, hpending, hqueue, hbytes]⟩
  | cons b bytes ih =>
    have hstep : l.step grow (.onRead 1) = some
        { l.receive grow (.read (l.inTransit.take 1)) with inTransit := l.inTransit.drop 1 } := by
      rw [UvLink.step, if_pos ⟨Nat.one_pos, by simp [hbytes], by decide, h.reading⟩]
    obtain ⟨hopen, hsent⟩ := h.step (a := .onRead 1) trivial hstep
    obtain ⟨l', hreach, hopen', hsent', hnone⟩ := ih hopen hpending hqueue (by simp [hbytes])
    exact ⟨l', hreach.head (a := .onRead 1) trivial hstep, hopen', hsent'.trans hsent, hnone⟩

variable (grow) in
/-- What waits gets received. -/
theorem Open.receives (h : l.Open) (hnone : l.underWay = []) :
    ∃ l', Reaches grow l l' ∧ l'.sent = l.sent ∧ l'.receiver.taken = l.sent := by
  obtain ⟨queue, hqueue⟩ : ∃ queue, l.receiver.recvQueue = queue := ⟨_, rfl⟩
  induction queue generalizing l with
  | nil =>
    refine ⟨l, .refl l, rfl, ?_⟩
    rw [← (h.delivers.all hnone).1, hqueue, List.append_nil]
  | cons frame queue ih =>
    have hstep : l.step grow (.dequeue 0) = some (l.receive grow (.dequeue 0)) := rfl
    obtain ⟨hopen, hsent⟩ := h.step (a := .dequeue 0) rfl hstep
    have hrest : (l.receive grow (.dequeue 0)).receiver.recvQueue = queue := by
      show (l.receiver.dequeueFrame 0).recvQueue = queue
      unfold Connection.dequeueFrame
      rw [hqueue]
    obtain ⟨l', hreach, hsent', htaken⟩ := ih hopen hnone hrest
    exact ⟨l', hreach.head (a := .dequeue 0) rfl hstep, hsent'.trans hsent, htaken.trans hsent⟩

end UvLink

/-- Two callers have pushed when the loop is woken once. -/
def UvLink.coalesced : List UvLink.Action :=
  [.enqueue [7, 8], .enqueue [9], .signal, .onSend, .write, .enqueue [], .signal]

end Bison
