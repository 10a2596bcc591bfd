import Bison.Core.Numbers
import Bison.Transport.Base64

/-!
# The terminal transport

The writer and the byte-at-a-time scanner of term_transport.cpp. Frames share the line with
ordinary terminal bytes: the client role sends `ESC ] 99 ; <seq> ; <total> ; <base64> BEL`
sequences, the server role `BISON<base64>` markers, and each reads the other's format.

- `sendFrame`: what is written for a frame.
- `TermReader`, `feedByte`, `onRead`, `idle`: the scanner, its calls of `passthrough` and the
  frames it queues.
- `parseUint_decimal`: the numbers of a chunk are read back when they fit 32 bits.
-/

namespace Bison

/-! ## Formats -/

/-- ESC. -/
def escByte : UInt8 := 0x1b

/-- `;`. -/
def semicolon : UInt8 := 59

/-- `kOscPrefix`: ESC `]99;`. -/
def kOscPrefix : List UInt8 := [escByte, 93, 57, 57, semicolon]

/-- `kOscTerminator`: BEL. -/
def kOscTerminator : UInt8 := 7

/-- `kMarkerPrefix`. -/
def kMarkerPrefix : List UInt8 := ascii "BISON<"

/-- `kMarkerSuffix`. -/
def kMarkerSuffix : UInt8 := 62

/-- `kMaxOscSequenceBytes` (term_transport.hpp:78). -/
def kMaxOscSequenceBytes : Nat := 4096

/-- `kChunkRawBytes`: the bytes of a frame one chunk may carry. -/
def kChunkRawBytes : Nat :=
  (kMaxOscSequenceBytes - (kOscPrefix.length + 1 + 1 + 1) - 2 * 10) / 4 * 3

/-- `kMaxCaptureBytes`. -/
def kMaxCaptureBytes : Nat := kMaxOscSequenceBytes * 4

/-- `term_role`. -/
inductive TermRole where
  | client
  | server
  deriving Repr, DecidableEq

/-- What `init` stores of the format a side receives: that of the other side's role. -/
structure Format where
  seqPrefix : List UInt8
  terminator : UInt8
  oscFormat : Bool
  deriving Repr, DecidableEq

/-- The format received by the side with `role` (term_transport.cpp:439). -/
def TermRole.receives : TermRole → Format
  | .server => ⟨kOscPrefix, kOscTerminator, true⟩
  | .client => ⟨kMarkerPrefix, kMarkerSuffix, false⟩

/-! ## Writing -/

/-- `total_chunks` of `send_frame`. -/
def totalChunks (frame : List UInt8) : Nat :=
  if frame.isEmpty then 1 else (frame.length + kChunkRawBytes - 1) / kChunkRawBytes

/-- The bytes of chunk `i`. -/
def chunkBytes (frame : List UInt8) (i : Nat) : List UInt8 :=
  let offset := i * kChunkRawBytes
  (frame.drop offset).take (min kChunkRawBytes (frame.length - offset))

/-- What a chunk has between the prefix and the terminator. -/
def chunkBody (i total : Nat) (bytes : List UInt8) : List UInt8 :=
  decimal i ++ semicolon :: (decimal total ++ semicolon :: base64Encode bytes)

/-- One OSC-99 sequence. -/
def oscChunk (i total : Nat) (bytes : List UInt8) : List UInt8 :=
  kOscPrefix ++ chunkBody i total bytes ++ [kOscTerminator]

/-- `send_frame` (term_transport.cpp:794). -/
def sendFrame (role : TermRole) (frame : List UInt8) : List UInt8 :=
  match role with
  | .server => kMarkerPrefix ++ base64Encode frame ++ [kMarkerSuffix]
  | .client =>
    let total := totalChunks frame
    (List.range total).flatMap fun i => oscChunk i total (chunkBytes frame i)

/-! ## The scanner -/

/-- `reassembly`. -/
structure Reassembly where
  active : Bool := false
  total : Nat := 0
  expectedSeq : Nat := 0
  buf : List UInt8 := []
  deriving Repr, DecidableEq

/-- What complete sequences change: the reassembly and the receive queue. -/
structure Inbox where
  assem : Reassembly := {}
  recvQueue : List (List UInt8) := []
  deriving Repr, DecidableEq

/-- The state of `term_reader`, with the calls of `passthrough` so far in `passed`. The idle
timer runs while `timerArmed`. -/
structure TermReader where
  inSeq : Bool := false
  matchPos : Nat := 0
  speculative : List UInt8 := []
  capture : List UInt8 := []
  pendingPassthrough : List UInt8 := []
  escPending : Bool := false
  inCsi : Bool := false
  timerArmed : Bool := false
  passed : List (List UInt8) := []
  inbox : Inbox := {}
  deriving Repr, DecidableEq

/-- One digit of `parse_uint`. -/
def parseDigit (v : Nat) (c : UInt8) : Option Nat :=
  if c < 48 ∨ c > 57 then none
  else
    let v := v * 10 + (c.toNat - 48)
    if v > 0xFFFFFFFF then none else some v

/-- `parse_uint` (term_transport.cpp:135). -/
def parseUint (s : List UInt8) : Option Nat :=
  if s.isEmpty ∨ s.length > 10 then none else s.foldlM parseDigit 0

/-- What is before the first `;` and what is after it. -/
def splitSemicolon (body : List UInt8) : Option (List UInt8 × List UInt8) :=
  match body.dropWhile (· != semicolon) with
  | [] => none
  | _ :: rest => some (body.takeWhile (· != semicolon), rest)

namespace Inbox

/-- `recv_queue.push`. -/
def push (inbox : Inbox) (frame : List UInt8) : Inbox :=
  { inbox with recvQueue := inbox.recvQueue ++ [frame] }

/-- `complete_chunk` (term_transport.cpp:644). -/
def completeChunk (inbox : Inbox) (seq total : Nat) (b64Payload : List UInt8) : Inbox :=
  match base64Decode b64Payload with
  | none => inbox
  | some decoded =>
    if total = 0 then inbox
    else
      let inbox :=
        if seq = 0 then { inbox with assem := { active := true, total := total } } else inbox
      if !inbox.assem.active || seq != inbox.assem.expectedSeq || total != inbox.assem.total then
        { inbox with assem := {} }
      else
        let buf := inbox.assem.buf ++ decoded
        let expectedSeq := inbox.assem.expectedSeq + 1
        if expectedSeq = inbox.assem.total then { inbox.push buf with assem := {} }
        else { inbox with assem := { inbox.assem with buf := buf, expectedSeq := expectedSeq } }

/-- `parse_and_complete` (term_transport.cpp:622). -/
def parseAndComplete (inbox : Inbox) (body : List UInt8) : Inbox :=
  match splitSemicolon body with
  | none => inbox
  | some (seqText, rest) =>
    match splitSemicolon rest with
    | none => inbox
    | some (totalText, b64) =>
      match parseUint seqText, parseUint totalText with
      | some seq, some total => inbox.completeChunk seq total b64
      | _, _ => inbox

/-- `complete_marker` (term_transport.cpp:610). -/
def completeMarker (inbox : Inbox) (body : List UInt8) : Inbox :=
  match base64Decode body with
  | none => inbox
  | some decoded => inbox.push decoded

end Inbox

namespace TermReader

/-- `complete_sequence` (term_transport.cpp:597). -/
def completeSequence (f : Format) (s : TermReader) : TermReader :=
  let inbox :=
    if f.oscFormat then s.inbox.parseAndComplete s.capture else s.inbox.completeMarker s.capture
  { s with inbox := inbox, capture := [], inSeq := false, matchPos := 0, speculative := [] }

/-- A byte of the body of a sequence. -/
def captureByte (f : Format) (s : TermReader) (b : UInt8) : TermReader :=
  if b = f.terminator then s.completeSequence f
  else
    let s := { s with capture := s.capture ++ [b] }
    if f.oscFormat ∧ s.capture.length > kMaxCaptureBytes then
      { s with capture := [], inSeq := false }
    else s

/-- A byte that is matched against the prefix. -/
def matchByte (f : Format) (s : TermReader) (b : UInt8) : TermReader :=
  if f.seqPrefix[s.matchPos]? = some b then
    let s := { s with speculative := s.speculative ++ [b], matchPos := s.matchPos + 1 }
    if s.matchPos = f.seqPrefix.length then
      { s with inSeq := true, speculative := [], capture := [], matchPos := 0, timerArmed := false }
    else { s with timerArmed := true }
  else
    -- not the prefix after all: what was held is ordinary
    let s := { s with
      pendingPassthrough := s.pendingPassthrough ++ s.speculative, speculative := [],
        matchPos := 0 }
    if b = escByte then
      { s with
        escPending := true, timerArmed := false, pendingPassthrough := s.pendingPassthrough ++ [b] }
    else if f.seqPrefix[0]? = some b then
      { s with matchPos := 1, speculative := s.speculative ++ [b], timerArmed := true }
    else
      { s with timerArmed := false, pendingPassthrough := s.pendingPassthrough ++ [b] }

/-- `feed_byte` (term_transport.cpp:479). -/
def feedByte (f : Format) (s : TermReader) (b : UInt8) : TermReader :=
  if s.inSeq then s.captureByte f b
  else if s.inCsi then
    { s with
      pendingPassthrough := s.pendingPassthrough ++ [b]
      inCsi := !decide (0x40 ≤ b ∧ b ≤ 0x7e) }
  else if s.escPending then
    if b = 91 then
      { s with
        escPending := false, inCsi := true, pendingPassthrough := s.pendingPassthrough ++ [b] }
    else { s with escPending := false }.matchByte f b
  else s.matchByte f b

/-- `flush_pending` (term_transport.cpp:590). -/
def flushPending (s : TermReader) : TermReader :=
  if s.pendingPassthrough.isEmpty then s
  else { s with passed := s.passed ++ [s.pendingPassthrough], pendingPassthrough := [] }

/-- `on_idle_timeout` (term_transport.cpp:569). The timer does not repeat. -/
def onIdleTimeout (s : TermReader) : TermReader :=
  flushPending { s with
    pendingPassthrough := s.pendingPassthrough ++ s.speculative
    speculative := [], matchPos := 0, timerArmed := false }

/-- The line stays quiet for `kIdleFlushMs`: the timer fires if it runs. -/
def idle (s : TermReader) : TermReader :=
  if s.timerArmed then s.onIdleTimeout else s

/-- `on_read` of a chunk of data (term_transport.cpp:685). -/
def onRead (f : Format) (s : TermReader) (chunk : List UInt8) : TermReader :=
  if chunk.isEmpty then s else (chunk.foldl (feedByte f) s).flushPending

end TermReader

/-- What happens on the line: a read of some bytes, or a pause. -/
inductive LineEvent where
  | read (chunk : List UInt8)
  | idle
  deriving Repr, DecidableEq

/-- The reader takes an event. -/
def TermReader.onEvent (f : Format) (s : TermReader) : LineEvent → TermReader
  | .read chunk => s.onRead f chunk
  | .idle => s.idle

/-- The reader after a run. -/
def TermReader.run (f : Format) (s : TermReader) (events : List LineEvent) : TermReader :=
  events.foldl (onEvent f) s

/-- What arrives: a byte, or a pause of `kIdleFlushMs`. -/
inductive Tick where
  | byte (b : UInt8)
  | idle
  deriving Repr, DecidableEq

/-- The bytes among the ticks. -/
def bytesOf (ticks : List Tick) : List UInt8 :=
  ticks.filterMap fun
    | .byte b => some b
    | .idle => none

/-- The ticks of an event. -/
def LineEvent.ticks : LineEvent → List Tick
  | .read chunk => chunk.map .byte
  | .idle => [.idle]

/-! ## What is pending -/

theorem flushPending_pending (s : TermReader) : s.flushPending.pendingPassthrough = [] := by
  unfold TermReader.flushPending
  by_cases hempty : s.pendingPassthrough.isEmpty
  · rw [if_pos hempty]
    exact List.isEmpty_iff.1 hempty
  · rw [if_neg hempty]

theorem idle_pending {s : TermReader} (h : s.pendingPassthrough = []) :
    s.idle.pendingPassthrough = [] := by
  unfold TermReader.idle
  by_cases harmed : s.timerArmed
  · rw [if_pos harmed]
    exact flushPending_pending _
  · rw [if_neg harmed]
    exact h

/-- Every event leaves nothing pending. -/
theorem run_pending (f : Format) {s : TermReader} (h : s.pendingPassthrough = [])
    (events : List LineEvent) : (s.run f events).pendingPassthrough = [] := by
  induction events generalizing s with
  | nil => exact h
  | cons event rest ih =>
    refine ih ?_
    cases event with
    | idle => exact idle_pending h
    | read chunk =>
      show (if chunk.isEmpty then s else _).pendingPassthrough = []
      by_cases hempty : chunk.isEmpty
      · rw [if_pos hempty]
        exact h
      · rw [if_neg hempty]
        exact flushPending_pending _

/-! ## The numbers of a chunk -/

/-- One more digit, while the number fits 32 bits. -/
theorem parseDigit_digit {v d : Nat} (hd : d < 10) :
    parseDigit v (UInt8.ofNat (48 + d)) =
      if v * 10 + d ≤ 0xFFFFFFFF then some (v * 10 + d) else none := by
  have hval : (UInt8.ofNat (48 + d)).toNat = 48 + d := by
    rw [UInt8.toNat_ofNat']
    omega
  have hrange : ¬ (UInt8.ofNat (48 + d) < 48 ∨ UInt8.ofNat (48 + d) > 57) := by
    simp only [UInt8.lt_iff_toNat_lt, gt_iff_lt, hval]
    simp
    omega
  unfold parseDigit
  rw [if_neg hrange, hval]
  by_cases hfit : v * 10 + d ≤ 0xFFFFFFFF
  · simp [hfit]
  · simp [hfit]

/-- The digits of a number are read back exactly when it fits 32 bits. -/
theorem foldlM_parseDigit_decimal (n : Nat) :
    (decimal n).foldlM parseDigit 0 = if n ≤ 0xFFFFFFFF then some n else none := by
  induction n using Nat.strongRecOn with
  | ind n ih =>
    rw [decimal_eq]
    by_cases hn : n < 10
    · rw [if_pos hn, List.foldlM_cons, parseDigit_digit hn, if_pos (by omega), if_pos (by omega)]
      simp
    · rw [if_neg hn, List.foldlM_append, ih (n / 10) (by omega)]
      have hmod := Nat.div_add_mod n 10
      by_cases hfit : n / 10 ≤ 0xFFFFFFFF
      · rw [if_pos hfit]
        simp only [Option.bind_eq_bind, Option.bind_some, List.foldlM_cons, List.foldlM_nil]
        rw [parseDigit_digit (Nat.mod_lt _ (by decide)), show n / 10 * 10 + n % 10 = n by omega]
        split <;> rfl
      · rw [if_neg hfit, if_neg (by omega)]
        rfl

/-- `parse_uint` reads a number back exactly when it fits 32 bits. -/
theorem parseUint_decimal (n : Nat) :
    parseUint (decimal n) = if n ≤ 0xFFFFFFFF then some n else none := by
  unfold parseUint
  by_cases hlen : (decimal n).length > 10
  · -- eleven digits and more do not fit
    have hlarge : ¬ n ≤ 0xFFFFFFFF := by
      intro hn
      have := decimal_length (k := 10) (by decide) (show n < 10 ^ 10 by omega)
      omega
    rw [if_pos (.inr hlen), if_neg hlarge]
  · rw [if_neg, foldlM_parseDigit_decimal]
    simp only [List.isEmpty_iff, not_or]
    exact ⟨decimal_ne_nil n, hlen⟩

end Bison
