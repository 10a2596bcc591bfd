import Bison.Lib.Machine
import Bison.Transport.TermMarker
import Bison.Transport.TermOsc

/-!
# A terminal connection

One direction of a terminal connection (term_transport.cpp), from the threads that call `send_frame`
and `send_raw` at one end to the thread that calls `dequeue_frame` at the other. Frames and ordinary
bytes go through one queue to one line; what is read there is scanned byte by byte, so that a frame
may be cut anywhere, and what is no frame is passed through.

- `TermLink.step`: one step of a caller, of the writer's loop, of the reader's loop or timer, or of
  the receiving thread.
- `Resting`: the scanner outside any sequence, with what it has made of the line. `Resting.byte`,
  `Resting.frame`: one ordinary byte, and one frame.
- `term_link_delivers`: **main result**, in both directions the frames arrive whole and in order and
  the ordinary bytes are passed through in order, and all of both when nothing is under way.
-/

namespace Bison

/-! ## What the scanner keeps -/

/-- The scanner has given up and queued more. -/
structure Progressed (s s' : TermReader) : Prop where
  given : s.given <+: s'.given
  queue : s.inbox.recvQueue <+: s'.inbox.recvQueue

theorem Progressed.refl (s : TermReader) : Progressed s s := ⟨List.prefix_rfl, List.prefix_rfl⟩

theorem Progressed.trans {s t u : TermReader} (h : Progressed s t) (h' : Progressed t u) :
    Progressed s u :=
  ⟨h.given.trans h'.given, h.queue.trans h'.queue⟩

theorem completeChunk_queue (inbox : Inbox) (seq total : Nat) (payload : List UInt8) :
    inbox.recvQueue <+: (inbox.completeChunk seq total payload).recvQueue := by
  unfold Inbox.completeChunk Inbox.push
  split
  · exact List.prefix_rfl
  · split
    · exact List.prefix_rfl
    · dsimp only
      split_ifs <;> first | exact List.prefix_rfl | exact List.prefix_append _ _

theorem parseAndComplete_queue (inbox : Inbox) (body : List UInt8) :
    inbox.recvQueue <+: (inbox.parseAndComplete body).recvQueue := by
  unfold Inbox.parseAndComplete
  split
  · exact List.prefix_rfl
  · split
    · exact List.prefix_rfl
    · split
      · exact completeChunk_queue _ _ _ _
      · exact List.prefix_rfl

theorem completeMarker_queue (inbox : Inbox) (body : List UInt8) :
    inbox.recvQueue <+: (inbox.completeMarker body).recvQueue := by
  unfold Inbox.completeMarker Inbox.push
  split
  · exact List.prefix_rfl
  · exact List.prefix_append _ _

variable (f : Format)

theorem progressed_captureByte (s : TermReader) (b : UInt8) : Progressed s (s.captureByte f b) := by
  unfold TermReader.captureByte
  split
  · refine ⟨List.prefix_rfl, ?_⟩
    show s.inbox.recvQueue <+: (if f.oscFormat then s.inbox.parseAndComplete s.capture
      else s.inbox.completeMarker s.capture).recvQueue
    split
    · exact parseAndComplete_queue _ _
    · exact completeMarker_queue _ _
  · dsimp only
    split <;> exact ⟨List.prefix_rfl, List.prefix_rfl⟩

theorem given_append (s : TermReader) (bytes : List UInt8) :
    s.given <+: s.passed.flatten ++ (s.pendingPassthrough ++ bytes) :=
  ⟨bytes, List.append_assoc _ _ _⟩

theorem progressed_matchByte (s : TermReader) (b : UInt8) : Progressed s (s.matchByte f b) := by
  unfold TermReader.matchByte
  split
  · dsimp only
    split <;> exact ⟨List.prefix_rfl, List.prefix_rfl⟩
  · dsimp only
    refine ⟨?_, ?_⟩
    · split
      · simp only [List.append_assoc]
        exact given_append s _
      · split
        · exact given_append s _
        · simp only [List.append_assoc]
          exact given_append s _
    · split
      · exact List.prefix_rfl
      · split <;> exact List.prefix_rfl

theorem progressed_feedByte (s : TermReader) (b : UInt8) : Progressed s (s.feedByte f b) := by
  unfold TermReader.feedByte
  split
  · exact progressed_captureByte f s b
  · split
    · exact ⟨given_append s _, List.prefix_rfl⟩
    · split
      · split
        · exact ⟨given_append s _, List.prefix_rfl⟩
        · have hmatch := progressed_matchByte f { s with escPending := false } b
          exact ⟨hmatch.given, hmatch.queue⟩
      · exact progressed_matchByte f s b

theorem progressed_foldl (s : TermReader) (bytes : List UInt8) :
    Progressed s (bytes.foldl (TermReader.feedByte f) s) := by
  induction bytes generalizing s with
  | nil => exact .refl s
  | cons b bytes ih => exact (progressed_feedByte f s b).trans (ih _)

theorem foldl_same {s t : TermReader} (h : Same s t) (bytes : List UInt8) :
    Same (bytes.foldl (TermReader.feedByte f) s) (bytes.foldl (TermReader.feedByte f) t) := by
  induction bytes generalizing s t with
  | nil => exact h
  | cons b bytes ih => exact ih (feedByte_same f h b)

/-! ## Outside any sequence -/

/-- The role at the other end. -/
def TermRole.peer : TermRole → TermRole
  | client => server
  | server => client

/-- What this role sends. -/
def TermRole.sends (role : TermRole) : Format := role.peer.receives

/-- The reader of what `role` sends is outside any sequence: it has given up or holds the ordinary
bytes `text`, and has queued these frames. -/
def Resting (role : TermRole) (s : TermReader) (text : List UInt8)
    (queue : List (List UInt8)) : Prop :=
  match role with
  | .client => ∃ held given, Reads s ⟨.outside held, given, ⟨{}, queue⟩⟩ ∧
      given ++ held.bytes = text
  | .server => ∃ k e passed pending, s = scanner k e passed pending ⟨{}, queue⟩ ∧
      k < kMarkerPrefix.length ∧ (e ≠ .none → k = 0) ∧
      passed.flatten ++ pending ++ kMarkerPrefix.take k = text

/-- A frame that starts now is recognised (`Recognised`, `MarkerLine.finished`). -/
def Clear (role : TermRole) (s : TermReader) (frame : List UInt8) : Prop :=
  s.inCsi = false ∧ (role = .client →
    s.matchPos = 0 ∧ totalChunks frame < 2 ^ 32 ∧ frame.length < 2 ^ 63)

instance (role : TermRole) (s : TermReader) (frame : List UInt8) :
    Decidable (Clear role s frame) := by
  unfold Clear
  infer_instance

/-- No sequence begins in these bytes. -/
def Quiet (f : Format) (s : TermReader) : List UInt8 → Prop
  | [] => True
  | b :: bytes => (s.feedByte f b).inSeq = false ∧ Quiet f (s.feedByte f b) bytes

instance decidableQuiet (f : Format) (s : TermReader) :
    ∀ bytes, Decidable (Quiet f s bytes)
  | [] => .isTrue trivial
  | b :: bytes =>
    have := decidableQuiet f (s.feedByte f b) bytes
    inferInstanceAs (Decidable (_ ∧ _))

variable {role : TermRole} {s t : TermReader} {text : List UInt8} {queue : List (List UInt8)}

theorem resting_fresh (role : TermRole) : Resting role {} [] [] := by
  cases role with
  | client => exact ⟨.matched 0, [], ⟨rfl, rfl⟩, rfl⟩
  | server => exact ⟨0, .none, [], [], rfl, by decide, fun _ => rfl, rfl⟩

/-- How the bytes were cut into calls of `passthrough` does not matter. -/
theorem Resting.same (h : Resting role s text queue) (hsame : Same s t) :
    Resting role t text queue := by
  have ht := hsame.symm.state
  cases role with
  | client =>
    obtain ⟨held, given, hreads, htext⟩ := h
    refine ⟨held, given, ⟨hsame.given.symm.trans hreads.text, ?_⟩, htext⟩
    rw [hreads.state] at ht
    exact ht
  | server =>
    obtain ⟨k, e, passed, pending, hs, hk, he, htext⟩ := h
    have hgiven : passed.flatten ++ pending = t.passed.flatten ++ t.pendingPassthrough := by
      have := hsame.given
      rw [hs] at this
      exact this
    rw [hs] at ht
    exact ⟨k, e, t.passed, t.pendingPassthrough, ht, hk, he, by rw [← hgiven, htext]⟩

/-- Where everything is. -/
theorem Resting.whole (h : Resting role s text queue) :
    s.given ++ s.speculative = text ∧ s.inbox.recvQueue = queue := by
  cases role with
  | client =>
    obtain ⟨held, given, ⟨hgiven, hstate⟩, rfl⟩ := h
    have hheld : s.speculative = held.bytes ∧ s.inbox = ⟨{}, queue⟩ := by
      rw [hstate]
      cases held <;> exact ⟨rfl, rfl⟩
    rw [TermReader.given, hgiven, hheld.1, hheld.2]
    exact ⟨rfl, rfl⟩
  | server =>
    obtain ⟨k, e, passed, pending, rfl, -, -, rfl⟩ := h
    exact ⟨rfl, rfl⟩

/-- The timer may fire. -/
theorem Resting.idle (h : Resting role s text queue) : Resting role s.idle text queue := by
  cases role with
  | client =>
    obtain ⟨held, given, hreads, rfl⟩ := h
    refine ⟨held.pause, given ++ held.bytes, idle_reads hreads, ?_⟩
    cases held <;> exact List.append_nil _
  | server =>
    obtain ⟨k, e, passed, pending, rfl, hk, he, rfl⟩ := h
    by_cases hzero : 0 < k
    · have hsome : (pending ++ kMarkerPrefix.take k).isEmpty = false := by
        have hlen : (kMarkerPrefix.take k).length = k := by
          rw [List.length_take]
          omega
        rw [List.isEmpty_eq_false_iff]
        intro hnil
        have := congrArg List.length hnil
        simp only [List.length_append, hlen, List.length_nil] at this
        omega
      refine ⟨0, e, passed ++ [pending ++ kMarkerPrefix.take k], [], ?_, by decide, fun _ => rfl,
        by simp⟩
      rw [TermReader.idle, if_pos (show (scanner k e passed pending _).timerArmed = true from
        decide_eq_true hzero)]
      show (if (pending ++ kMarkerPrefix.take k).isEmpty then _ else _) = _
      rw [hsome]
      rfl
    · obtain rfl : k = 0 := by omega
      exact ⟨0, e, passed, pending, rfl, hk, he, rfl⟩

/-- An ordinary byte that completes no prefix. -/
theorem Resting.byte (h : Resting role s text queue) {b : UInt8}
    (hb : (s.feedByte role.sends b).inSeq = false) :
    Resting role (s.feedByte role.sends b) (text ++ [b]) queue := by
  cases role with
  | client =>
    obtain ⟨held, given, hreads, rfl⟩ := h
    have hnext := byte_reads hreads b
    cases hheld : held.next b with
    | none =>
      -- the prefix would be complete
      have hinside : Reading.byte ⟨.outside held, given, ⟨{}, queue⟩⟩ b =
          ⟨.inside [], given, ⟨{}, queue⟩⟩ := by
        show Reading.ordinary _ held b (held.next b) = _
        rw [hheld]
        rfl
      rw [hinside] at hnext
      have hin : (s.feedByte osc b).inSeq = true := by
        rw [hnext.state]
        rfl
      rw [show (s.feedByte osc b).inSeq = false from hb] at hin
      cases hin
    | some held' =>
      have hbyte : Reading.byte ⟨.outside held, given, ⟨{}, queue⟩⟩ b =
          ⟨.outside held', if held'.bytes = [] then given ++ held.bytes ++ [b] else given,
            ⟨{}, queue⟩⟩ := by
        show Reading.ordinary _ held b (held.next b) = _
        rw [hheld]
        rfl
      rw [hbyte] at hnext
      refine ⟨held', _, hnext, ?_⟩
      by_cases hempty : held'.bytes = []
      · rw [if_pos hempty, hempty, List.append_nil]
      · rw [if_neg hempty, (Held.bytes_next hheld).resolve_right hempty, List.append_assoc]
  | server =>
    obtain ⟨k, e, passed, pending, rfl, hk, he, rfl⟩ := h
    have hopen : kMarkerPrefix.take k ++ [b] ≠ kMarkerPrefix := by
      intro heq
      have hlen := congrArg List.length heq
      rw [List.length_append, List.length_take, min_eq_left hk.le] at hlen
      obtain rfl : k = 5 := by
        have : kMarkerPrefix.length = 6 := rfl
        simp only [List.length_singleton] at hlen
        omega
      obtain rfl : b = 60 := by simpa [kMarkerPrefix, ascii] using heq
      cases e with
      | none => cases hb
      | esc | csi => cases he (by decide)
    obtain ⟨k', pending', heq, hfed⟩ := feedByte_scanner hk he hopen passed pending ⟨{}, queue⟩
    refine ⟨k', e.next b, passed, pending', heq, hfed.lt, hfed.escape, ?_⟩
    rw [List.append_assoc, hfed.all]
    simp only [List.append_assoc]

/-- Ordinary bytes in which no sequence begins. -/
theorem Resting.raw {bytes : List UInt8} (h : Resting role s text queue)
    (hquiet : Quiet role.sends s bytes) :
    Resting role (bytes.foldl (TermReader.feedByte role.sends) s) (text ++ bytes) queue := by
  induction bytes generalizing s text with
  | nil =>
    rw [List.append_nil]
    exact h
  | cons b bytes ih =>
    rw [List.foldl_cons, List.append_cons]
    exact ih (h.byte hquiet.1) hquiet.2

/-- A frame. -/
theorem Resting.frame {frame : List UInt8} (h : Resting role s text queue)
    (hclear : Clear role s frame) :
    Resting role ((sendFrame role frame).foldl (TermReader.feedByte role.sends) s) text
      (queue ++ [frame]) := by
  obtain ⟨hcsi, hclient⟩ := hclear
  cases role with
  | client =>
    obtain ⟨held, given, hreads, rfl⟩ := h
    obtain ⟨hmatch, hcount, hbounded⟩ := hclient rfl
    have hheld : held.Clear := by
      rw [hreads.state] at hcsi hmatch
      cases held with
      | matched k => exact Fin.ext hmatch
      | esc => trivial
      | csi => cases hcsi
    have hnone : held.bytes = [] := by
      cases held with
      | matched k =>
        obtain rfl : k = 0 := hheld
        rfl
      | esc | csi => rfl
    have hlast : heldAfter held (totalChunks frame) = .matched 0 :=
      if_neg (Nat.ne_of_gt (totalChunks_pos frame))
    have hfold := @byte_firstChunks ⟨frame, hbounded⟩ held hheld hcount given queue
      (totalChunks frame) (Nat.le_refl _)
    rw [if_pos rfl, hlast] at hfold
    have hend := foldl_reads hreads (firstChunks frame (totalChunks frame))
    rw [List.foldl_map] at hend
    change Reads _ ((firstChunks frame (totalChunks frame)).foldl Reading.byte _) at hend
    rw [hfold] at hend
    exact ⟨.matched 0, given, hend, by rw [hnone]; rfl⟩
  | server =>
    obtain ⟨k, e, passed, pending, rfl, hk, he, rfl⟩ := h
    have hlt : k < 6 := hk
    -- some bytes that leave the scanner like this
    obtain ⟨seen, hseen, hheld⟩ : ∃ seen, escapeAfter seen = e ∧ kMarkerPrefix.take k <:+ seen := by
      cases e with
      | none => exact ⟨kMarkerPrefix.take k, by interval_cases k <;> rfl, List.suffix_rfl⟩
      | esc =>
        rw [he (by decide)]
        exact ⟨[escByte], rfl, List.nil_suffix⟩
      | csi => cases hcsi
    have hscanning : Scanning (scanner k e passed pending ⟨{}, queue⟩) seen
        (passed.flatten ++ pending ++ kMarkerPrefix.take k) ⟨{}, queue⟩ :=
      ⟨k, passed, pending, by rw [hseen], hk, by rwa [hseen], hheld, rfl⟩
    have hnotCsi : escapeAfter seen ≠ .csi := by
      rw [hseen]
      rintro rfl
      cases hcsi
    obtain ⟨k', passed', pending', hs, hk', he', -, htext⟩ := hscanning.frame hnotCsi frame
    rw [List.foldl_map] at hs
    exact ⟨k', _, passed', pending', hs, hk', he', htext⟩

/-! ## The link -/

/-- What is passed to `enqueue_bytes`. -/
inductive TermWrite where
  /-- By `send_frame`. -/
  | frame (bytes : List UInt8)
  /-- By `send_raw`. -/
  | raw (bytes : List UInt8)

namespace TermWrite

def bytes (role : TermRole) : TermWrite → List UInt8
  | frame b => sendFrame role b
  | raw b => b

def frame? : TermWrite → Option (List UInt8)
  | frame b => some b
  | raw _ => none

def ordinary : TermWrite → List UInt8
  | frame _ => []
  | raw b => b

end TermWrite

/-- The frames among these writes. -/
def framesOf (writes : List TermWrite) : List (List UInt8) := writes.filterMap TermWrite.frame?

/-- The ordinary bytes among these writes. -/
def rawOf (writes : List TermWrite) : List UInt8 := writes.flatMap TermWrite.ordinary

theorem framesOf_append (writes writes' : List TermWrite) :
    framesOf (writes ++ writes') = framesOf writes ++ framesOf writes' :=
  List.filterMap_append

theorem rawOf_append (writes writes' : List TermWrite) :
    rawOf (writes ++ writes') = rawOf writes ++ rawOf writes' :=
  List.flatMap_append

/-- One direction of a connection. The frames that were queued stay in the `inbox` of the reader,
and the first of them were taken out. -/
structure TermLink where
  /-- `term_conn_state::closed`. -/
  closed : Bool := false
  sendQueue : List TermWrite := []
  /-- What `uv_flush_write_queue` has swapped out, and not yet written. -/
  pending : List TermWrite := []
  /-- `on_stop` has closed the writer's stream. -/
  stopped : Bool := false
  inTransit : List UInt8 := []
  reader : TermReader := {}
  reading : Bool := true
  taken : List (List UInt8) := []
  /-- What went into the queue so far. -/
  sent : List TermWrite := []

inductive TermLink.Action where
  /-- `send_frame`, which throws on a closed connection. -/
  | sendFrame (frame : List UInt8)
  /-- `send_raw`, which does nothing on a closed connection. -/
  | sendRaw (bytes : List UInt8)
  /-- `on_send`, up to the swap. -/
  | onSend
  /-- One `uv_write` of `uv_flush_write_queue`. -/
  | write
  /-- `term_conn_state::stop`, up to the flag. -/
  | stop
  | onStop
  /-- `on_read` with the next `n` bytes. -/
  | onRead (n : Nat)
  /-- The idle timer fires, if it runs. -/
  | idle
  /-- `on_read` with an error or the end of the stream. -/
  | onEnd
  /-- `dequeue_frame`, when it does not wait any longer. -/
  | dequeue

namespace TermLink

variable (role : TermRole)

/-- A caller pushes to the queue. -/
def enqueue (l : TermLink) (w : TermWrite) : TermLink :=
  if l.closed then l else { l with sendQueue := l.sendQueue ++ [w], sent := l.sent ++ [w] }

/-- One step (term_transport.cpp:462, 685, 757, 794, 825). `role` is that of the sending end. -/
def step (l : TermLink) : Action → Option TermLink
  | .sendFrame frame => some (l.enqueue (.frame frame))
  | .sendRaw bytes => some (l.enqueue (.raw bytes))
  | .onSend =>
    if l.pending.isEmpty && !l.stopped then
      some { l with sendQueue := [], pending := l.sendQueue }
    else none
  | .write =>
    match l.pending with
    | [] => none
    | w :: rest =>
      if l.stopped then none
      else some { l with pending := rest, inTransit := l.inTransit ++ w.bytes role }
  | .stop => some { l with closed := true }
  | .onStop => some { l with stopped := true }
  | .onRead n =>
    -- `read_buf` holds 65536 bytes
    if 0 < n ∧ n ≤ l.inTransit.length ∧ n ≤ 65536 ∧ l.reading then
      some { l with
        reader := l.reader.onRead role.sends (l.inTransit.take n)
        inTransit := l.inTransit.drop n }
    else none
  | .idle => some { l with reader := l.reader.idle }
  | .onEnd => some { l with reading := false }
  | .dequeue =>
    match l.reader.inbox.recvQueue[l.taken.length]? with
    | none => some l
    | some frame => some { l with taken := l.taken ++ [frame] }

/-- The scanner, once it has read what is in transit. -/
def ahead (l : TermLink) : TermReader :=
  l.inTransit.foldl (TermReader.feedByte role.sends) l.reader

/-- A write is recognised for what it is where it comes to stand on the line, and the timer does not
fire while bytes are in transit. -/
def Careful (l : TermLink) : Action → Prop
  | .write => ∀ w ∈ l.pending.head?, match w with
    | .frame frame => Clear role (l.ahead role) frame
    | .raw bytes => Quiet role.sends (l.ahead role) bytes
  | .idle => l.inTransit = []
  | _ => True

instance (l : TermLink) (a : Action) : Decidable (l.Careful role a) := by
  cases a with
  | write =>
    have (w : TermWrite) : Decidable (match w with
      | .frame frame => Clear role (l.ahead role) frame
      | .raw bytes => Quiet role.sends (l.ahead role) bytes) := by
      cases w <;> infer_instance
    unfold Careful
    infer_instance
  | _ => unfold Careful; infer_instance

/-- What was written is on the line, and what was taken out are the first frames. -/
structure Delivers (l : TermLink) : Prop where
  written : ∃ done, Resting role (l.ahead role) (rawOf done) (framesOf done) ∧
    l.sent = done ++ l.pending ++ l.sendQueue
  taken : l.taken <+: l.reader.inbox.recvQueue
  flushed : l.reader.pendingPassthrough = []

theorem delivers_empty : ({} : TermLink).Delivers role where
  written := ⟨[], resting_fresh role, rfl⟩
  taken := List.nil_prefix
  flushed := rfl

variable {role} {l l' : TermLink}

theorem Delivers.enqueue (h : l.Delivers role) (w : TermWrite) : (l.enqueue w).Delivers role := by
  obtain ⟨done, hresting, hsent⟩ := h.written
  unfold TermLink.enqueue
  split
  · exact h
  · refine ⟨⟨done, hresting, ?_⟩, h.taken, h.flushed⟩
    show l.sent ++ [w] = done ++ l.pending ++ (l.sendQueue ++ [w])
    rw [hsent, List.append_assoc _ _ [w]]

/-- A write comes to stand on the line. -/
theorem Delivers.write (h : l.Delivers role) (hcareful : l.Careful role .write)
    (hstep : l.step role .write = some l') : l'.Delivers role := by
  obtain ⟨done, hresting, hsent⟩ := h.written
  rw [step] at hstep
  split at hstep
  · cases hstep
  · next w rest hpending =>
    split_ifs at hstep
    cases hstep
    have hw := hcareful w (by rw [hpending]; rfl)
    refine ⟨⟨done ++ [w], ?_, ?_⟩, h.taken, h.flushed⟩
    · show Resting role ((l.inTransit ++ w.bytes role).foldl _ l.reader) _ _
      rw [List.foldl_append, framesOf_append, rawOf_append]
      cases w with
      | frame frame =>
        have hframe := hresting.frame hw
        rw [← List.append_nil (rawOf done)] at hframe
        exact hframe
      | raw bytes =>
        have hraw := hresting.raw hw
        rw [← List.append_nil (framesOf done)] at hraw
        rw [show rawOf [TermWrite.raw bytes] = bytes from List.append_nil bytes]
        exact hraw
    · rw [hsent, hpending]
      simp only [List.append_assoc, List.cons_append, List.nil_append]

theorem flushPending_inbox (s : TermReader) : s.flushPending.inbox = s.inbox := by
  unfold TermReader.flushPending
  split <;> rfl

/-- The reader takes some bytes off the line. -/
theorem Delivers.onRead (h : l.Delivers role) {n : Nat}
    (hstep : l.step role (.onRead n) = some l') : l'.Delivers role := by
  obtain ⟨done, hresting, hsent⟩ := h.written
  rw [step] at hstep
  split_ifs at hstep with hread
  cases hstep
  have hsome : (l.inTransit.take n).isEmpty = false := by
    rw [List.isEmpty_eq_false_iff, ← List.length_pos_iff, List.length_take]
    omega
  have hreader : l.reader.onRead role.sends (l.inTransit.take n) =
      ((l.inTransit.take n).foldl (TermReader.feedByte role.sends) l.reader).flushPending := by
    rw [TermReader.onRead, hsome]
    rfl
  refine ⟨⟨done, hresting.same ?_, hsent⟩, ?_, ?_⟩
  · show Same (l.ahead role) ((l.inTransit.drop n).foldl _ (l.reader.onRead _ _))
    rw [hreader, ahead]
    conv_lhs => rw [← List.take_append_drop n l.inTransit]
    rw [List.foldl_append]
    exact foldl_same _ (flushPending_same (Same.refl _)).symm _
  · show l.taken <+: (l.reader.onRead role.sends (l.inTransit.take n)).inbox.recvQueue
    rw [hreader, flushPending_inbox]
    exact h.taken.trans (progressed_foldl _ _ _).queue
  · show (l.reader.onRead role.sends (l.inTransit.take n)).pendingPassthrough = []
    rw [hreader]
    exact flushPending_pending _

theorem Delivers.step {a : Action} (h : l.Delivers role) (hcareful : l.Careful role a)
    (hstep : l.step role a = some l') : l'.Delivers role := by
  obtain ⟨done, hresting, hsent⟩ := h.written
  cases a with
  | sendFrame frame =>
    cases hstep
    exact h.enqueue _
  | sendRaw bytes =>
    cases hstep
    exact h.enqueue _
  | onSend =>
    rw [TermLink.step] at hstep
    split_ifs at hstep with hready
    cases hstep
    have hempty : l.pending = [] := by
      simp only [Bool.and_eq_true, List.isEmpty_iff] at hready
      exact hready.1
    refine ⟨⟨done, hresting, ?_⟩, h.taken, h.flushed⟩
    rw [hsent, hempty, List.append_nil, List.append_nil]
  | write => exact h.write hcareful hstep
  | stop | onStop | onEnd =>
    cases hstep
    exact ⟨⟨done, hresting, hsent⟩, h.taken, h.flushed⟩
  | onRead n => exact h.onRead hstep
  | idle =>
    cases hstep
    have hnone : l.inTransit = [] := hcareful
    have hahead : l.ahead role = l.reader := by rw [ahead, hnone]; rfl
    rw [hahead] at hresting
    refine ⟨⟨done, ?_, hsent⟩, ?_, idle_pending h.flushed⟩
    · show Resting role (l.inTransit.foldl _ l.reader.idle) _ _
      rw [hnone]
      exact hresting.idle
    · show l.taken <+: l.reader.idle.inbox.recvQueue
      rw [hresting.idle.whole.2, ← hresting.whole.2]
      exact h.taken
  | dequeue =>
    rw [TermLink.step] at hstep
    split at hstep
    · cases hstep
      exact h
    · next frame hframe =>
      cases hstep
      refine ⟨⟨done, hresting, hsent⟩, ?_, h.flushed⟩
      obtain ⟨rest, hrest⟩ := h.taken
      rw [← hrest, List.getElem?_append_right (Nat.le_refl _), Nat.sub_self] at hframe
      obtain ⟨tail, rfl⟩ : ∃ tail, rest = frame :: tail := by
        cases rest with
        | nil => cases hframe
        | cons a tail =>
          cases hframe
          exact ⟨tail, rfl⟩
      exact ⟨tail, by rw [← hrest, List.append_assoc]; rfl⟩

/-- What the reader has queued are the first frames that were sent. -/
theorem Delivers.queued (h : l.Delivers role) :
    l.reader.inbox.recvQueue <+: framesOf l.sent ∧ l.reader.given <+: rawOf l.sent := by
  obtain ⟨done, hresting, hsent⟩ := h.written
  obtain ⟨htext, hqueue⟩ := hresting.whole
  have hprogressed : Progressed l.reader (l.ahead role) := progressed_foldl _ _ _
  rw [hsent, List.append_assoc, framesOf_append, rawOf_append, ← hqueue, ← htext]
  exact ⟨hprogressed.queue.trans (List.prefix_append _ _),
    hprogressed.given.trans ((List.prefix_append _ _).trans (List.prefix_append _ _))⟩

end TermLink

open TermLink in
/-- **Main result.** In either direction, over every interleaving of callers, loops, timer and
receiver, wherever the line is cut, if each write is recognised for what it is where it comes to
stand on the line and the timer does not fire while bytes are in transit: the frames that were taken
and those that wait are the first ones sent, in order; what was passed through is the beginning of
the ordinary bytes; and when nothing is under way both are complete, up to bytes that may begin a
sequence. -/
theorem term_link_delivers (role : TermRole) (actions : List TermLink.Action) {l : TermLink}
    (h : Machine.run (TermLink.step role) {} actions = some l)
    (hcareful : Machine.Each (TermLink.step role) (TermLink.Careful role) {} actions) :
    l.taken <+: l.reader.inbox.recvQueue ∧ l.reader.inbox.recvQueue <+: framesOf l.sent ∧
      l.reader.passed.flatten <+: rawOf l.sent ∧
      (l.inTransit = [] → l.pending = [] → l.sendQueue = [] →
        l.reader.inbox.recvQueue = framesOf l.sent ∧
          l.reader.passed.flatten ++ l.reader.speculative = rawOf l.sent) := by
  have hdel : l.Delivers role :=
    Machine.run_invariant_of_each (fun _ _ _ hdel hcareful hstep => hdel.step hcareful hstep)
      (delivers_empty role) hcareful h
  have hgiven : l.reader.given = l.reader.passed.flatten := by
    rw [TermReader.given, hdel.flushed, List.append_nil]
  obtain ⟨hqueue, htext⟩ := hdel.queued
  rw [hgiven] at htext
  refine ⟨hdel.taken, hqueue, htext, fun htransit hpending hsend => ?_⟩
  obtain ⟨done, hresting, hsent⟩ := hdel.written
  have hahead : l.ahead role = l.reader := by rw [ahead, htransit]; rfl
  obtain ⟨hall, hframes⟩ := hresting.whole
  rw [hahead] at hall hframes
  rw [hpending, hsend, List.append_nil, List.append_nil] at hsent
  rw [hsent, ← hgiven]
  exact ⟨hframes, hall⟩

/-- A frame between ordinary bytes, in reads that cut its prefix. -/
def TermLink.amongBytes : List TermLink.Action :=
  [.sendRaw [65, 27], .sendFrame [42], .onSend, .sendRaw [66], .write, .onRead 2, .idle, .write,
    .onRead 3, .onRead 5, .dequeue, .onRead 6, .onSend, .write, .onRead 1, .dequeue]

theorem term_link_delivers_amongBytes :
    ∃ l, Machine.run (TermLink.step .client) {} TermLink.amongBytes = some l ∧
      l.taken = [[42]] ∧ l.reader.passed.flatten <+: rawOf l.sent := by
  have hrun : (Machine.run (TermLink.step .client) {} TermLink.amongBytes).map TermLink.taken =
      some [[42]] := by decide +kernel
  obtain ⟨l, hl, htaken⟩ := Option.map_eq_some_iff.1 hrun
  have hcareful : Machine.Each (TermLink.step .client) (TermLink.Careful .client) {}
      TermLink.amongBytes := by decide +kernel
  exact ⟨l, hl, htaken, (term_link_delivers .client TermLink.amongBytes hl hcareful).2.2.1⟩

end Bison
