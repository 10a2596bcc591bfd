import Bison.Core.Serialization

/-!
# Length-prefixed frames

The frame format of the byte-stream transports (FORMAT.md §5.1): a four-byte big-endian
length and the payload. Frames are written by `enqueue_frame` and `stream_write_frame`,
and read by two unrelated readers: `frame_parser::feed`, which takes bytes as they arrive,
and the blocking `stream_read_frame`.

The state of the parser is tied to the bytes of the unfinished frame by `Stores`. Each pass
of the loop in `feed` takes at least one byte and keeps it, or completes a frame.

- `feedAll_frames`: **main result**, however the encoded frames are cut into reads, `feed`
  delivers exactly them, ends idle, accounts for every byte on the way, and delivers what
  the `stream_read_frame` loop reads.
-/

namespace Bison

/-- `kMaxFrameBytes` (frame_parser.hpp:36). -/
def kMaxFrameBytes : Nat := 64 * 1024 * 1024

/-! ## Writing -/

/-- What `enqueue_frame` queues for the peer (uv_stream_state.hpp:252). -/
def enqueueFrame (frame : List UInt8) : List UInt8 :=
  writeWord (UInt32.ofNat frame.length) ++ frame

/-- `stream_write_frame`: what is on the stream afterwards (stream_transport.cpp:19). -/
def streamWriteFrame (out : List UInt8) (frame : List UInt8) : List UInt8 :=
  let out := out ++ writeWord (UInt32.ofNat frame.length)
  if frame.isEmpty then out else out ++ frame

/-! ## `frame_parser` -/

/-- `frame_parser` (frame_parser.hpp:45). -/
structure FrameParser where
  hdr : List UInt8 := [0, 0, 0, 0]
  hdrPos : Nat := 0
  payloadLeft : Nat := 0
  partialFrame : List UInt8 := []
  deriving Repr, DecidableEq

namespace FrameParser

/-- `memcpy(hdr + pos, p, bytes.length)`. -/
def storeAt (hdr : List UInt8) (pos : Nat) (bytes : List UInt8) : List UInt8 :=
  hdr.take pos ++ bytes ++ hdr.drop (pos + bytes.length)

/-- The first half of the loop body: take header bytes. Gives the parser, the bytes left, and
whether the declared length is allowed. -/
def feedHeader (p : FrameParser) (bytes : List UInt8) : FrameParser × List UInt8 × Bool :=
  if p.hdrPos < 4 then
    let take := min (4 - p.hdrPos) bytes.length
    let p := { p with hdr := storeAt p.hdr p.hdrPos (bytes.take take), hdrPos := p.hdrPos + take }
    let bytes := bytes.drop take
    if p.hdrPos = 4 then
      let p := { p with payloadLeft := (wordOf p.hdr).toNat }
      if p.payloadLeft > kMaxFrameBytes then (p, bytes, false)
      else ({ p with partialFrame := [] }, bytes, true)
    else (p, bytes, true)
  else (p, bytes, true)

/-- The second half: take payload bytes. Gives the parser, the bytes left, and the frame if
one is complete. -/
def feedPayload (p : FrameParser) (bytes : List UInt8) :
    FrameParser × List UInt8 × Option (List UInt8) :=
  if p.hdrPos = 4 ∧ (0 < bytes.length ∨ p.payloadLeft = 0) then
    let take := min p.payloadLeft bytes.length
    let p := { p with
      partialFrame := p.partialFrame ++ bytes.take take
      payloadLeft := p.payloadLeft - take }
    let bytes := bytes.drop take
    if p.payloadLeft = 0 then
      ({ p with partialFrame := [], hdrPos := 0 }, bytes, some p.partialFrame)
    else (p, bytes, none)
  else (p, bytes, none)

/-- What a call of `feed` leaves, what it passed to `on_frame`, and what it returned. -/
structure Fed where
  parser : FrameParser
  frames : List (List UInt8)
  ok : Bool

/-- The loop of `feed`, for at most `fuel` passes. -/
def feedLoop : Nat → FrameParser → List UInt8 → Fed
  | 0, p, _ => ⟨p, [], true⟩
  | fuel + 1, p, bytes =>
    if bytes.length = 0 then ⟨p, [], true⟩
    else
      match feedHeader p bytes with
      | (p, _, false) => ⟨p, [], false⟩
      | (p, bytes, true) =>
        match feedPayload p bytes with
        | (p, bytes, frame) =>
          let r := feedLoop fuel p bytes
          { r with frames := frame.toList ++ r.frames }

/-- `feed` (frame_parser.hpp:85). Of any two passes one takes a byte. -/
def feed (p : FrameParser) (bytes : List UInt8) : Fed := feedLoop (2 * bytes.length) p bytes

/-- One call of `feed` after the other, until one is refused. -/
def feedAll (p : FrameParser) : List (List UInt8) → Fed
  | [] => ⟨p, [], true⟩
  | chunk :: chunks =>
    let r := p.feed chunk
    if r.ok then
      let r' := feedAll r.parser chunks
      { r' with frames := r.frames ++ r'.frames }
    else r

/-- Nothing of a frame is stored, as in a new parser. The header bytes of the last frame are
still there, but will be overwritten before they are looked at. -/
structure Idle (p : FrameParser) : Prop where
  hdr : p.hdr.length = 4
  pos : p.hdrPos = 0
  left : p.payloadLeft = 0
  empty : p.partialFrame = []

/-- The bytes stored and the bytes expected make up the declared length. Before the header
is complete nothing is declared, stored or expected. -/
def Accounted (p : FrameParser) : Prop :=
  if p.hdrPos = 4 then p.partialFrame.length + p.payloadLeft = (wordOf p.hdr).toNat
  else p.partialFrame.length + p.payloadLeft = 0

end FrameParser

/-! ## `stream_read_frame` -/

/-- `in.read(data, n)`: what was extracted, `gcount()` bytes of it. -/
def Stream.read (n : Nat) (s : Stream) : List UInt8 × Stream :=
  if !s.good then ([], s)
  else if s.rest.length < n then (s.rest, ⟨[], false⟩)
  else (s.rest.take n, ⟨s.rest.drop n, true⟩)

/-- `in.eof()`: the only way for the stream to stop being good is a read past the end. -/
def Stream.eof (s : Stream) : Bool := !s.good

/-- `stream_read_frame` (stream_transport.cpp:29): a frame, or none at the end of the
stream. -/
def streamReadFrame (s : Stream) : Except Exn (Option (List UInt8) × Stream) :=
  let (lenWire, s) := s.read 4
  if lenWire.length = 0 ∧ s.eof then .ok (none, s)
  else if lenWire.length ≠ 4 then .error (.runtimeError "stream_transport: partial length prefix")
  else
    let len := (wordOf lenWire).toNat
    if len > kMaxFrameBytes then
      .error (.runtimeError "stream_transport: frame length exceeds kMaxFrameBytes")
    else if len > 0 then
      let (frame, s) := s.read len
      if frame.length ≠ len then
        .error (.runtimeError "stream_transport: partial frame payload")
      else .ok (some frame, s)
    else .ok (some [], s)

/-- Read frames until the end of the stream; each takes at least its length prefix. -/
def streamReadFrames : Nat → Stream → Except Exn (List (List UInt8))
  | 0, _ => .error .outOfFuel
  | fuel + 1, s => do
    match ← streamReadFrame s with
    | (none, _) => return []
    | (some frame, s) =>
      let frames ← streamReadFrames fuel s
      return frame :: frames

/-! ## What is on the wire -/

/-- The encodings of the frames, one after the other. -/
def wire (frames : List (List UInt8)) : List UInt8 := frames.flatMap enqueueFrame

/-- Both writers put the same bytes on the wire. -/
theorem streamWriteFrame_eq (out frame : List UInt8) :
    streamWriteFrame out frame = out ++ enqueueFrame frame := by
  unfold streamWriteFrame enqueueFrame
  cases frame with
  | nil => simp
  | cons b rest => simp

theorem writeWord_length (w : UInt32) : (writeWord w).length = 4 :=
  BigEndian.encode_length 4 w.toNat

/-- The length prefix of a frame that fits declares its length. -/
theorem wordOf_append {frame : List UInt8} (h : frame.length ≤ kMaxFrameBytes) :
    (wordOf (writeWord (UInt32.ofNat frame.length))).toNat = frame.length := by
  rw [wordOf_writeWord, UInt32.toNat_ofNat']
  exact Nat.mod_eq_of_lt (lt_of_le_of_lt h (by decide))

/-- `bytes` is a whole frame: a length and that many bytes. -/
def IsFrame (bytes frame : List UInt8) : Prop :=
  ∃ hdr, hdr.length = 4 ∧ bytes = hdr ++ frame ∧ (wordOf hdr).toNat = frame.length

/-- A whole frame at the start of the wire is the first frame. -/
theorem IsFrame.first {bytes frame rest first : List UInt8} {frames : List (List UInt8)}
    (h : IsFrame bytes frame) (hfirst : first.length ≤ kMaxFrameBytes)
    (hwire : bytes ++ rest = wire (first :: frames)) : first = frame ∧ rest = wire frames := by
  obtain ⟨hdr, hlen, rfl, hdeclared⟩ := h
  have hwire' : hdr ++ (frame ++ rest) =
      writeWord (UInt32.ofNat first.length) ++ (first ++ wire frames) := by
    rw [← List.append_assoc, hwire, wire, List.flatMap_cons, enqueueFrame, List.append_assoc]
    rfl
  obtain ⟨rfl, hrest⟩ := List.append_inj hwire' (by rw [hlen, writeWord_length])
  rw [wordOf_append hfirst] at hdeclared
  obtain ⟨hframe, hframes⟩ := List.append_inj hrest hdeclared.symm
  exact ⟨hframe.symm, hframes⟩

/-! ## What the parser stores -/

namespace FrameParser

/-- The parser holds a whole header and the payload bytes that followed it, no more than
declared. -/
structure InPayload (p : FrameParser) (stored : List UInt8) : Prop where
  pos : p.hdrPos = 4
  hdr : p.hdr.length = 4
  stored : stored = p.hdr ++ p.partialFrame
  declared : p.partialFrame.length + p.payloadLeft = (wordOf p.hdr).toNat
  fits : (wordOf p.hdr).toNat ≤ kMaxFrameBytes

/-- The parser holds part of a header. -/
structure InHeader (p : FrameParser) (stored : List UInt8) : Prop where
  lt : stored.length < 4
  pos : p.hdrPos = stored.length
  hdr : p.hdr.length = 4
  stored : p.hdr.take p.hdrPos = stored
  left : p.payloadLeft = 0
  empty : p.partialFrame = []

/-- Between two passes: the parser holds the bytes of an unfinished frame. -/
def Stores (p : FrameParser) (stored : List UInt8) : Prop :=
  p.InHeader stored ∨ p.InPayload stored ∧ 0 < p.payloadLeft

theorem Stores.accounted {p : FrameParser} {stored : List UInt8} (h : p.Stores stored) :
    p.Accounted := by
  unfold Accounted
  rcases h with h | ⟨h, -⟩
  · have hlt := h.lt
    rw [if_neg (by rw [h.pos]; omega), h.left, h.empty]
    rfl
  · rw [if_pos h.pos]
    exact h.declared

theorem storeAt_length (hdr : List UInt8) (pos : Nat) (bytes : List UInt8)
    (h : pos + bytes.length ≤ hdr.length) : (storeAt hdr pos bytes).length = hdr.length := by
  simp only [storeAt, List.length_append, List.length_take, List.length_drop]
  omega

theorem take_storeAt (hdr : List UInt8) (pos : Nat) (bytes : List UInt8)
    (h : pos ≤ hdr.length) :
    (storeAt hdr pos bytes).take (pos + bytes.length) = hdr.take pos ++ bytes := by
  rw [storeAt, List.take_append_of_le_length]
  · rw [List.take_of_length_le]
    rw [List.length_append, List.length_take]
    omega
  · rw [List.length_append, List.length_take]
    omega

/-- The first half of a pass keeps the bytes it takes, or finds a length that is too
large. -/
theorem feedHeader_spec {p : FrameParser} {stored bytes : List UInt8} (h : p.Stores stored)
    (hbytes : bytes ≠ []) : ∃ taken rest, bytes = taken ++ rest ∧
      ((∃ p', feedHeader p bytes = (p', rest, true) ∧
        ((p'.InHeader (stored ++ taken) ∧ rest = [] ∧ taken ≠ []) ∨
          (p'.InPayload (stored ++ taken) ∧ (taken = [] → 0 < p'.payloadLeft)))) ∨
       (∃ p', feedHeader p bytes = (p', rest, false) ∧ (stored ++ taken).length = 4 ∧
        kMaxFrameBytes < (wordOf (stored ++ taken)).toNat)) := by
  rcases h with h | ⟨h, hleft⟩
  · have hlt : p.hdrPos < 4 := by
      rw [h.pos]
      exact h.lt
    have hpos : 0 < bytes.length := List.length_pos_iff.mpr hbytes
    -- `n` bytes go into the header
    obtain ⟨n, hn⟩ : ∃ n, n = min (4 - p.hdrPos) bytes.length := ⟨_, rfl⟩
    have htaken : (bytes.take n).length = n := by
      rw [List.length_take]
      omega
    have hstored : (storeAt p.hdr p.hdrPos (bytes.take n)).take (p.hdrPos + n) =
        stored ++ bytes.take n := by
      have htake := take_storeAt p.hdr p.hdrPos (bytes.take n) (by rw [h.hdr]; omega)
      rwa [htaken, h.stored] at htake
    have hlen : (storeAt p.hdr p.hdrPos (bytes.take n)).length = 4 := by
      rw [storeAt_length _ _ _ (by rw [htaken, h.hdr]; omega), h.hdr]
    refine ⟨bytes.take n, bytes.drop n, (List.take_append_drop n bytes).symm, ?_⟩
    unfold feedHeader
    simp only [if_pos hlt, ← hn]
    by_cases hfull : p.hdrPos + n = 4
    · -- the header is complete
      rw [hfull, List.take_of_length_le (by rw [hlen])] at hstored
      simp only [if_pos hfull, hstored]
      by_cases hmax : (wordOf (stored ++ bytes.take n)).toNat > kMaxFrameBytes
      · rw [if_pos hmax]
        refine Or.inr ⟨_, rfl, ?_, hmax⟩
        rw [← hstored]
        exact hlen
      · rw [if_neg hmax]
        refine Or.inl ⟨_, rfl, Or.inr ⟨?_, fun hnil => ?_⟩⟩
        · exact
            { pos := hfull
              hdr := by rw [← hstored]; exact hlen
              stored := (List.append_nil _).symm
              declared := Nat.zero_add _
              fits := Nat.le_of_not_lt hmax }
        · -- a header cannot become complete without a byte
          rw [hnil] at htaken
          simp only [List.length_nil] at htaken
          omega
    · rw [if_neg hfull]
      have hall : n = bytes.length := by omega
      refine Or.inl ⟨_, rfl, Or.inl ⟨?_, ?_, ?_⟩⟩
      · have hlength : (stored ++ bytes.take n).length = p.hdrPos + n := by
          rw [List.length_append, htaken, h.pos]
        exact
          { lt := by rw [hlength]; omega
            pos := hlength.symm
            hdr := hlen
            stored := hstored
            left := h.left
            empty := h.empty }
      · rw [hall, List.drop_length]
      · rw [hall, List.take_length]
        exact hbytes
  · refine ⟨[], bytes, rfl, Or.inl ⟨p, ?_, Or.inr ⟨?_, fun _ => hleft⟩⟩⟩
    · unfold feedHeader
      rw [if_neg (by rw [h.pos]; omega)]
    · rw [List.append_nil]
      exact h

/-- Nothing is left to take from a header that is not complete. -/
theorem feedPayload_header {p : FrameParser} {stored : List UInt8} (h : p.InHeader stored)
    (bytes : List UInt8) : feedPayload p bytes = (p, bytes, none) := by
  have hlt := h.lt
  unfold feedPayload
  rw [if_neg]
  rintro ⟨hpos, -⟩
  rw [h.pos] at hpos
  omega

/-- The second half keeps the bytes it takes, or completes the frame. -/
theorem feedPayload_spec {p : FrameParser} {stored : List UInt8} (h : p.InPayload stored)
    (bytes : List UInt8) : ∃ taken rest p' frame, bytes = taken ++ rest ∧
      feedPayload p bytes = (p', rest, frame) ∧
        ((frame = none ∧ p'.InPayload (stored ++ taken) ∧ 0 < p'.payloadLeft ∧
            (taken = [] → bytes = [])) ∨
          (∃ f, frame = some f ∧ IsFrame (stored ++ taken) f ∧ p'.Idle ∧
            (taken = [] → p.payloadLeft = 0))) := by
  unfold feedPayload
  by_cases hgo : 0 < bytes.length ∨ p.payloadLeft = 0
  · obtain ⟨n, hn⟩ : ∃ n, n = min p.payloadLeft bytes.length := ⟨_, rfl⟩
    have htaken : (bytes.take n).length = n := by
      rw [List.length_take]
      omega
    simp only [if_pos (And.intro h.pos hgo), ← hn]
    have hnil : bytes.take n = [] → n = 0 := by
      intro hnil
      rw [hnil] at htaken
      exact htaken.symm
    have hdeclared := h.declared
    by_cases hdone : p.payloadLeft - n = 0
    · rw [if_pos hdone]
      refine ⟨bytes.take n, bytes.drop n, _, _, (List.take_append_drop n bytes).symm, rfl,
        Or.inr ⟨_, rfl, ?_, ⟨h.hdr, rfl, hdone, rfl⟩, fun ht => ?_⟩⟩
      · refine ⟨p.hdr, h.hdr, by rw [h.stored, List.append_assoc], ?_⟩
        rw [List.length_append, htaken]
        omega
      · have := hnil ht
        omega
    · rw [if_neg hdone]
      refine ⟨bytes.take n, bytes.drop n, _, _, (List.take_append_drop n bytes).symm, rfl,
        Or.inl ⟨rfl, ?_, by show 0 < p.payloadLeft - n; omega, fun ht => ?_⟩⟩
      · refine
          { pos := h.pos
            hdr := h.hdr
            stored := by rw [h.stored, List.append_assoc]
            declared := ?_
            fits := h.fits }
        show (p.partialFrame ++ bytes.take n).length + (p.payloadLeft - n) = (wordOf p.hdr).toNat
        rw [List.length_append, htaken]
        omega
      · have := hnil ht
        exact List.length_eq_zero_iff.mp (by omega)
  · obtain ⟨hempty, hleft⟩ := not_or.mp hgo
    have hbytes : bytes = [] := List.length_eq_zero_iff.mp (by omega)
    subst hbytes
    rw [if_neg fun hgo' => hgo hgo'.2]
    refine ⟨[], [], p, none, rfl, rfl, Or.inl ⟨rfl, ?_, Nat.pos_of_ne_zero hleft, fun _ => rfl⟩⟩
    rw [List.append_nil]
    exact h

theorem Idle.stores {p : FrameParser} (h : p.Idle) : p.Stores [] :=
  Or.inl
    { lt := by decide
      pos := h.pos
      hdr := h.hdr
      stored := by rw [h.pos]; rfl
      left := h.left
      empty := h.empty }

/-- The wire is empty only for no frames. -/
theorem wire_ne_nil {bytes : List UInt8} {frames : List (List UInt8)} (hbytes : bytes ≠ [])
    (hwire : bytes = wire frames) : ∃ first rest, frames = first :: rest := by
  cases frames with
  | nil => exact absurd hwire hbytes
  | cons first rest => exact ⟨first, rest, rfl⟩

/-- A length at the start of the wire is that of a frame, so it is allowed. -/
theorem wordOf_le_of_wire {hdr : List UInt8} (after : List UInt8) {frames : List (List UInt8)}
    (hlen : hdr.length = 4) (hframes : ∀ f ∈ frames, f.length ≤ kMaxFrameBytes)
    (hwire : hdr ++ after = wire frames) : (wordOf hdr).toNat ≤ kMaxFrameBytes := by
  have hne : hdr ++ after ≠ [] := by
    intro hnil
    rw [(List.append_eq_nil_iff.mp hnil).1] at hlen
    cases hlen
  obtain ⟨first, rest, rfl⟩ := wire_ne_nil hne hwire
  have hfirst := hframes first (List.mem_cons_self ..)
  have hwire' : hdr ++ after =
      writeWord (UInt32.ofNat first.length) ++ (first ++ wire rest) := by
    rw [hwire, wire, List.flatMap_cons, enqueueFrame, List.append_assoc]
    rfl
  obtain ⟨rfl, -⟩ := List.append_inj hwire' (by rw [hlen, writeWord_length])
  rw [wordOf_append hfirst]
  exact hfirst

/-- **One pass** over bytes that continue the wire takes a byte and keeps it, or completes
the next frame and is idle. -/
theorem pass_spec {p : FrameParser} {stored bytes after : List UInt8}
    {frames : List (List UInt8)} (h : p.Stores stored) (hbytes : bytes ≠ [])
    (hframes : ∀ f ∈ frames, f.length ≤ kMaxFrameBytes)
    (hwire : stored ++ bytes ++ after = wire frames) :
    ∃ p₁ p₂ mid rest frame stored' frames', feedHeader p bytes = (p₁, mid, true) ∧
      feedPayload p₁ mid = (p₂, rest, frame) ∧ rest.length < bytes.length ∧
      p₂.Stores stored' ∧ frames = frame.toList ++ frames' ∧
      stored' ++ rest ++ after = wire frames' := by
  obtain ⟨taken, mid, rfl, hheader⟩ := feedHeader_spec h hbytes
  rcases hheader with ⟨p₁, hp₁, ⟨hin, rfl, htaken⟩ | ⟨hin, hleft⟩⟩ | ⟨p₁, -, hlen, hmax⟩
  · -- the header is still incomplete
    refine ⟨p₁, p₁, [], [], none, stored ++ taken, frames, hp₁, feedPayload_header hin [], ?_,
      Or.inl hin, rfl, ?_⟩
    · rw [List.append_nil]
      exact List.length_pos_iff.mpr htaken
    · simpa using hwire
  · obtain ⟨taken', rest, p₂, frame, rfl, hp₂, hout⟩ := feedPayload_spec hin mid
    have hshrinks : taken ++ taken' ≠ [] →
        rest.length < (taken ++ (taken' ++ rest)).length := by
      intro hne
      have hpos := List.length_pos_iff.mpr hne
      rw [List.length_append] at hpos
      rw [List.length_append, List.length_append]
      omega
    rcases hout with ⟨rfl, hin', hleft', hnil⟩ | ⟨f, rfl, hframe, hidle, hnil⟩
    · refine ⟨p₁, p₂, taken' ++ rest, rest, none, stored ++ taken ++ taken', frames, hp₁, hp₂,
        hshrinks fun hne => ?_, Or.inr ⟨hin', hleft'⟩, rfl, ?_⟩
      · obtain ⟨rfl, rfl⟩ := List.append_eq_nil_iff.mp hne
        rw [hnil rfl] at hbytes
        exact hbytes rfl
      · simpa using hwire
    · -- the frame is complete, and it is the first on the wire
      have hwire' : stored ++ taken ++ taken' ++ (rest ++ after) = wire frames := by
        simpa using hwire
      obtain ⟨first, frames', rfl⟩ := wire_ne_nil (by
        obtain ⟨hdr, hlen', heq, -⟩ := hframe
        rw [heq]
        intro hnil'
        rw [(List.append_eq_nil_iff.mp (List.append_eq_nil_iff.mp hnil').1).1] at hlen'
        cases hlen') hwire'
      obtain ⟨rfl, hrest⟩ := hframe.first (hframes first (List.mem_cons_self ..)) hwire'
      refine ⟨p₁, p₂, taken' ++ rest, rest, some first, [], frames', hp₁, hp₂,
        hshrinks fun hne => ?_, hidle.stores, rfl, hrest⟩
      obtain ⟨rfl, rfl⟩ := List.append_eq_nil_iff.mp hne
      exact absurd (hnil rfl) (Nat.pos_iff_ne_zero.mp (hleft rfl))
  · -- a length that is too large is not on the wire
    have hallowed := wordOf_le_of_wire (mid ++ after) hlen hframes (by simpa using hwire)
    omega

/-- **The loop**, for any number of passes: the frames delivered so far, what is stored, and
the bytes not yet looked at make up the wire. -/
theorem feedLoop_spec {after : List UInt8} : ∀ (fuel : Nat) {p : FrameParser}
    {stored bytes : List UInt8} {frames : List (List UInt8)}, p.Stores stored →
    (∀ f ∈ frames, f.length ≤ kMaxFrameBytes) → stored ++ bytes ++ after = wire frames →
    ∃ stored' rest frames', (feedLoop fuel p bytes).ok = true ∧
      frames = (feedLoop fuel p bytes).frames ++ frames' ∧
      (feedLoop fuel p bytes).parser.Stores stored' ∧
      stored' ++ rest ++ after = wire frames' ∧ (bytes.length ≤ fuel → rest = []) := by
  intro fuel
  induction fuel with
  | zero =>
    intro p stored bytes frames h hframes hwire
    exact ⟨stored, bytes, frames, rfl, rfl, h, hwire, fun hle =>
      List.length_eq_zero_iff.mp (Nat.le_zero.mp hle)⟩
  | succ fuel ih =>
    intro p stored bytes frames h hframes hwire
    unfold feedLoop
    by_cases hlen : bytes.length = 0
    · rw [if_pos hlen]
      exact ⟨stored, bytes, frames, rfl, rfl, h, hwire, fun _ => List.length_eq_zero_iff.mp hlen⟩
    · rw [if_neg hlen]
      have hbytes : bytes ≠ [] := fun hnil => hlen (by rw [hnil]; rfl)
      obtain ⟨p₁, p₂, mid, rest, frame, stored₁, frames₁, hp₁, hp₂, hshrinks, h₁, rfl, hwire₁⟩ :=
        pass_spec h hbytes hframes hwire
      obtain ⟨stored', rest', frames', hok, hdelivered, h', hwire', hdone⟩ :=
        ih h₁ (fun f hf => hframes f (List.mem_append_right _ hf)) hwire₁
      simp only [hp₁, hp₂]
      refine ⟨stored', rest', frames', hok, ?_, h', hwire', fun hle => hdone (by omega)⟩
      rw [List.append_assoc, ← hdelivered]

/-- **Calls of `feed`**, for any cut of the bytes. -/
theorem feedAll_spec {after : List UInt8} : ∀ (chunks : List (List UInt8)) {p : FrameParser}
    {stored : List UInt8} {frames : List (List UInt8)}, p.Stores stored →
    (∀ f ∈ frames, f.length ≤ kMaxFrameBytes) →
    stored ++ chunks.flatten ++ after = wire frames →
    ∃ stored' frames', (feedAll p chunks).ok = true ∧
      frames = (feedAll p chunks).frames ++ frames' ∧
      (feedAll p chunks).parser.Stores stored' ∧ stored' ++ after = wire frames' := by
  intro chunks
  induction chunks with
  | nil =>
    intro p stored frames h hframes hwire
    exact ⟨stored, frames, rfl, rfl, h, by simpa using hwire⟩
  | cons chunk chunks ih =>
    intro p stored frames h hframes hwire
    have hwire₀ : stored ++ chunk ++ (chunks.flatten ++ after) = wire frames := by
      simpa using hwire
    obtain ⟨stored₁, rest, frames₁, hok, rfl, h₁, hwire₁, hdone⟩ :=
      feedLoop_spec (2 * chunk.length) h hframes hwire₀
    obtain rfl := hdone (by omega)
    obtain ⟨stored', frames', hok', hdelivered, h', hwire'⟩ :=
      ih h₁ (fun f hf => hframes f (List.mem_append_right _ hf)) (by simpa using hwire₁)
    have hfeed : (p.feed chunk).ok = true := hok
    simp only [feedAll, hfeed, if_true]
    refine ⟨stored', frames', hok', ?_, h', hwire'⟩
    rw [List.append_assoc]
    exact congrArg ((p.feed chunk).frames ++ ·) hdelivered

/-- A parser that holds all of what is on the wire holds nothing. -/
theorem Stores.idle_of_wire {p : FrameParser} {frames : List (List UInt8)}
    (h : p.Stores (wire frames)) (hframes : ∀ f ∈ frames, f.length ≤ kMaxFrameBytes) :
    frames = [] ∧ p.Idle := by
  cases frames with
  | nil =>
    refine ⟨rfl, ?_⟩
    rcases h with h | ⟨h, -⟩
    · exact ⟨h.hdr, h.pos, h.left, h.empty⟩
    · have hlen := congrArg List.length h.stored
      rw [List.length_append, h.hdr] at hlen
      change 0 = _ at hlen
      omega
  | cons first rest =>
    -- a whole frame is never stored
    have hwire : wire (first :: rest) =
        writeWord (UInt32.ofNat first.length) ++ (first ++ wire rest) := by
      rw [wire, List.flatMap_cons, enqueueFrame, List.append_assoc]
      rfl
    rcases h with h | ⟨h, hleft⟩
    · have hlt := h.lt
      rw [hwire, List.length_append, writeWord_length] at hlt
      omega
    · have hstored := h.stored
      rw [hwire] at hstored
      obtain ⟨hhdr, hpartial⟩ := List.append_inj hstored (by rw [h.hdr, writeWord_length])
      have hdeclared := h.declared
      rw [← hhdr, wordOf_append (hframes first (List.mem_cons_self ..)), ← hpartial,
        List.length_append] at hdeclared
      omega

end FrameParser

/-! ## The blocking reader -/

theorem Stream.read_append (bytes rest : List UInt8) :
    Stream.read bytes.length ⟨bytes ++ rest, true⟩ = (bytes, ⟨rest, true⟩) := by
  unfold Stream.read
  simp

/-- The blocking reader takes one frame off the wire. -/
theorem streamReadFrame_wire {frame rest : List UInt8} (h : frame.length ≤ kMaxFrameBytes) :
    streamReadFrame ⟨enqueueFrame frame ++ rest, true⟩ = .ok (some frame, ⟨rest, true⟩) := by
  have hhead : Stream.read 4 ⟨enqueueFrame frame ++ rest, true⟩ =
      (writeWord (UInt32.ofNat frame.length), ⟨frame ++ rest, true⟩) := by
    have hread := Stream.read_append (writeWord (UInt32.ofNat frame.length)) (frame ++ rest)
    rwa [writeWord_length, ← List.append_assoc] at hread
  unfold streamReadFrame
  simp only [hhead, writeWord_length, wordOf_append h]
  rw [if_neg (by simp), if_neg (by simp), if_neg (Nat.not_lt.mpr h)]
  by_cases hpos : frame.length > 0
  · simp only [if_pos hpos, Stream.read_append, ne_eq, not_true_eq_false, if_false]
  · have hnil : frame = [] := List.length_eq_zero_iff.mp (by omega)
    rw [if_neg hpos, hnil]
    rfl

/-- The loop of the blocking reader reads the frames off the wire. -/
theorem streamReadFrames_wire : ∀ {frames : List (List UInt8)} {fuel : Nat},
    (∀ f ∈ frames, f.length ≤ kMaxFrameBytes) → frames.length < fuel →
    streamReadFrames fuel ⟨wire frames, true⟩ = .ok frames
  | [], fuel + 1, _, _ => rfl
  | frame :: frames, fuel + 1, hframes, hfuel => by
    have hread : streamReadFrame ⟨wire (frame :: frames), true⟩ =
        .ok (some frame, ⟨wire frames, true⟩) := by
      rw [wire, List.flatMap_cons]
      exact streamReadFrame_wire (hframes frame (List.mem_cons_self ..))
    have hrest : streamReadFrames fuel ⟨wire frames, true⟩ = .ok frames :=
      streamReadFrames_wire (fun f hf => hframes f (List.mem_cons_of_mem _ hf))
        (Nat.lt_of_succ_lt_succ hfuel)
    rw [streamReadFrames, hread]
    simp only [Decoder.ok_bind, hrest]
    rfl

theorem frames_length_le_wire (frames : List (List UInt8)) :
    frames.length ≤ (wire frames).length := by
  induction frames with
  | nil => exact Nat.le_refl 0
  | cons frame frames ih =>
    rw [wire, List.flatMap_cons, List.length_append, List.length_cons, enqueueFrame,
      List.length_append, writeWord_length]
    change frames.length ≤ (frames.flatMap enqueueFrame).length at ih
    omega

/-! ## Both readers, over any cut of the wire -/

open FrameParser in
/-- **Framing.** From an idle parser, however the encoded frames are cut into calls of
`feed`: exactly the frames are delivered, in order; the parser ends idle; the
`stream_read_frame` loop reads the same frames from the same bytes; and after any number of
passes within any of the calls the stored and expected bytes add up. -/
theorem feedAll_frames {p : FrameParser} (hp : p.Idle) {frames chunks : List (List UInt8)}
    (hframes : ∀ f ∈ frames, f.length ≤ kMaxFrameBytes) (hchunks : chunks.flatten = wire frames) :
    (∃ p', feedAll p chunks = ⟨p', frames, true⟩ ∧ p'.Idle) ∧
      streamReadFrames (chunks.flatten.length + 1) ⟨chunks.flatten, true⟩ = .ok frames ∧
      ∀ before chunk after passes, chunks = before ++ chunk :: after →
        (feedLoop passes (feedAll p before).parser chunk).parser.Accounted := by
  refine ⟨?_, ?_, ?_⟩
  · have hwire : [] ++ chunks.flatten ++ [] = wire frames := by
      rw [List.nil_append, List.append_nil, hchunks]
    obtain ⟨stored, rest, hok, hdelivered, hstores, hwire⟩ :=
      feedAll_spec chunks hp.stores hframes hwire
    rw [List.append_nil] at hwire
    subst hwire
    have hrest : ∀ f ∈ rest, f.length ≤ kMaxFrameBytes := fun f hf =>
      hframes f (by rw [hdelivered]; exact List.mem_append_right _ hf)
    obtain ⟨rfl, hidle⟩ := hstores.idle_of_wire hrest
    rw [List.append_nil] at hdelivered
    refine ⟨_, ?_, hidle⟩
    rw [hdelivered, ← hok]
  · rw [hchunks]
    exact streamReadFrames_wire hframes (Nat.lt_succ_of_le (frames_length_le_wire frames))
  · rintro before chunk after passes rfl
    have hwire : [] ++ before.flatten ++ (chunk ++ after.flatten) = wire frames := by
      simpa using hchunks
    obtain ⟨stored, rest, -, hdelivered, hstores, hwire'⟩ :=
      feedAll_spec before hp.stores hframes hwire
    have hrest : ∀ f ∈ rest, f.length ≤ kMaxFrameBytes := fun f hf =>
      hframes f (by rw [hdelivered]; exact List.mem_append_right _ hf)
    obtain ⟨_, _, _, -, -, hstores', -, -⟩ :=
      feedLoop_spec passes hstores hrest (by simpa using hwire')
    exact hstores'.accounted

/-- Two frames, the second empty, cut in the first header and in the first payload. -/
theorem feedAll_frames_cut :
    ∃ p', FrameParser.feedAll {} [[0, 0], [0, 2, 7], [8, 0, 0, 0], [0]] =
      ⟨p', [[7, 8], []], true⟩ ∧ p'.Idle := by
  have hidle : FrameParser.Idle {} := ⟨rfl, rfl, rfl, rfl⟩
  have hframes : ∀ f ∈ [[7, 8], ([] : List UInt8)], f.length ≤ kMaxFrameBytes := by decide
  exact (feedAll_frames hidle hframes rfl).1

end Bison
