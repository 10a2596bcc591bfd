import Bison.Transport.TermReader

/-!
# Frames among terminal bytes

The client-to-server direction of the terminal transport: frames as OSC-99 sequences between
segments of ordinary bytes. `Reading` says what the reader has made of the line so far; it
does not know how the line was cut into reads, and `Reads` ties a reader to it.

- `run_reads`: every way of cutting the line into reads gives the same reading.
- `delivers_iff`: **main result**, exactly the frames are delivered and exactly the ordinary
  bytes are passed through if and only if no segment in front of a frame leaves the scanner
  with a partial prefix or inside a CSI sequence, and no frame has 2^32 chunks.
-/

namespace Bison

/-- What the server role receives. -/
abbrev osc : Format := TermRole.server.receives

/-! ## Ordinary bytes -/

/-- What ordinary bytes leave behind: some bytes of the prefix that may become a sequence, an
ESC that cut such a beginning short, or an open CSI sequence. -/
inductive Held where
  | matched (k : Fin 5)
  | esc
  | csi
  deriving Repr, DecidableEq

namespace Held

/-- The bytes held back. -/
def bytes : Held → List UInt8
  | matched k => kOscPrefix.take k
  | _ => []

/-- A byte after `k` bytes of the prefix; `none` once the prefix is complete. -/
def extend (k : Fin 5) (b : UInt8) : Option Held :=
  if kOscPrefix[k.val]? = some b then
    if h : k.val + 1 < 5 then some (matched ⟨k.val + 1, h⟩) else none
  else if b = escByte then some esc
  else some (matched 0)

/-- One more byte. -/
def next : Held → UInt8 → Option Held
  | matched k, b => extend k b
  | esc, b => if b = 91 then some csi else extend 0 b
  | csi, b => some (if 0x40 ≤ b ∧ b ≤ 0x7e then matched 0 else csi)

/-- A pause gives the bytes held back up. -/
def pause : Held → Held
  | matched _ => matched 0
  | h => h

def tick (h : Held) : Tick → Option Held
  | .byte b => h.next b
  | .idle => some h.pause

/-- A sequence that starts now is recognised. -/
def Clear : Held → Prop
  | matched k => k = 0
  | esc => True
  | csi => False

instance : DecidablePred Clear
  | matched k => inferInstanceAs (Decidable (k = 0))
  | esc => inferInstanceAs (Decidable True)
  | csi => inferInstanceAs (Decidable False)

end Held

/-- What a segment leaves behind; `none` if it has the whole prefix in it. -/
def leaves (segment : List Tick) : Option Held :=
  segment.foldlM Held.tick (.matched 0)

/-- Ordinary bytes do not have the whole prefix in them. -/
def Ordinary (segment : List Tick) : Prop := ¬ kOscPrefix <:+: bytesOf segment

/-- The whole prefix is seen where four bytes of it were held. -/
theorem Held.complete {h : Held} {b : UInt8} (hb : h.next b = none) :
    h = .matched 4 ∧ b = semicolon := by
  have hextend : ∀ k : Fin 5, Held.extend k b = none → k = 4 ∧ b = semicolon := by
    intro k hk
    unfold Held.extend at hk
    split at hk
    case isTrue hmatch =>
      split at hk
      · cases hk
      · have hfour : k = 4 := by omega
        subst hfour
        exact ⟨rfl, by simpa [kOscPrefix] using hmatch.symm⟩
    case isFalse => split at hk <;> cases hk
  cases h with
  | matched k =>
    obtain ⟨rfl, rfl⟩ := hextend k hb
    exact ⟨rfl, rfl⟩
  | esc =>
    change (if b = 91 then some .csi else Held.extend 0 b) = _ at hb
    split at hb
    · cases hb
    · exact absurd (hextend 0 hb).1 (by decide)
  | csi => cases hb

/-- After a byte, the bytes held are those held before and the byte, or none. -/
theorem Held.bytes_next {h h' : Held} {b : UInt8} (hb : h.next b = some h') :
    h'.bytes = h.bytes ++ [b] ∨ h'.bytes = [] := by
  have hextend : ∀ k : Fin 5, Held.extend k b = some h' →
      h'.bytes = kOscPrefix.take k ++ [b] ∨ h'.bytes = [] := by
    intro k hk
    unfold Held.extend at hk
    split at hk
    case isTrue hmatch =>
      split at hk
      case isTrue hlt =>
        cases hk
        refine .inl ?_
        show kOscPrefix.take (k.val + 1) = _
        rw [List.take_add_one, hmatch]
        rfl
      case isFalse => cases hk
    case isFalse =>
      split at hk <;> cases hk <;> exact .inr rfl
  cases h with
  | matched k => exact hextend k hb
  | esc =>
    change (if b = 91 then some .csi else Held.extend 0 b) = _ at hb
    split at hb
    · cases hb
      exact .inr rfl
    · exact hextend 0 hb
  | csi =>
    cases hb
    refine .inr ?_
    split <;> rfl

/-- Ordinary bytes leave something behind, and what they hold back is their end. -/
theorem Ordinary.leaves {segment : List Tick} (h : Ordinary segment) :
    ∃ held, Bison.leaves segment = some held ∧ held.bytes <:+ bytesOf segment := by
  -- by induction from the back: the last tick is read after all the others
  induction segment using List.reverseRecOn with
  | nil => exact ⟨.matched 0, rfl, List.nil_suffix⟩
  | append_singleton ticks last ih =>
    have hbytes : bytesOf (ticks ++ [last]) = bytesOf ticks ++ bytesOf [last] :=
      List.filterMap_append
    obtain ⟨held, hheld, hsuffix⟩ := ih fun hin => h (by
      rw [hbytes]
      exact hin.trans (List.prefix_append _ _).isInfix)
    have hrun : Bison.leaves (ticks ++ [last]) = held.tick last := by
      unfold Bison.leaves at hheld ⊢
      rw [List.foldlM_append, hheld]
      simp
    rw [hrun, hbytes]
    cases last with
    | idle =>
      refine ⟨held.pause, rfl, ?_⟩
      cases held <;> exact List.nil_suffix
    | byte b =>
      show ∃ held', held.next b = some held' ∧ _
      cases hnext : held.next b with
      | none =>
        -- then the prefix ends here, and the segment is not ordinary
        obtain ⟨rfl, rfl⟩ := Held.complete hnext
        refine absurd ?_ h
        rw [hbytes]
        obtain ⟨front, hfront⟩ := hsuffix
        exact ⟨front, [], by rw [← hfront]; simp [Held.bytes, kOscPrefix, bytesOf]⟩
      | some held' =>
        refine ⟨held', rfl, ?_⟩
        rcases Held.bytes_next hnext with heq | heq
        · obtain ⟨front, hfront⟩ := hsuffix
          exact ⟨front, by rw [heq, ← hfront]; simp [bytesOf]⟩
        · rw [heq]
          exact List.nil_suffix

/-! ## What the reader has made of the line -/

/-- Where the scanner is: among ordinary bytes, or in the body of a sequence. -/
inductive Mode where
  | outside (held : Held)
  | inside (body : List UInt8)
  deriving Repr, DecidableEq

/-- What the reader has made of the line, without the reads it came in: the ordinary bytes
given up so far, and the frames. -/
structure Reading where
  mode : Mode := .outside (.matched 0)
  text : List UInt8 := []
  inbox : Inbox := {}
  deriving Repr, DecidableEq

namespace Reading

/-- A byte among ordinary bytes: it is held with those before it, or all of them are given up. -/
def ordinary (v : Reading) (held : Held) (b : UInt8) : Option Held → Reading
  | none => { v with mode := .inside [] }
  | some held' =>
    { v with
      mode := .outside held'
      text := if held'.bytes = [] then v.text ++ held.bytes ++ [b] else v.text }

/-- One more byte. -/
def byte (v : Reading) (b : UInt8) : Reading :=
  match v.mode with
  | .outside held => v.ordinary held b (held.next b)
  | .inside body =>
    if b = kOscTerminator then
      { v with mode := .outside (.matched 0), inbox := v.inbox.parseAndComplete body }
    else if (body ++ [b]).length > kMaxCaptureBytes then { v with mode := .outside (.matched 0) }
    else { v with mode := .inside (body ++ [b]) }

/-- A pause. -/
def pause (v : Reading) : Reading :=
  match v.mode with
  | .outside held => { v with mode := .outside held.pause, text := v.text ++ held.bytes }
  | .inside _ => v

def tick (v : Reading) : Tick → Reading
  | .byte b => v.byte b
  | .idle => v.pause

/-- The reader with this reading, before it has passed anything on. -/
def reader (v : Reading) : TermReader :=
  match v.mode with
  | .outside (.matched k) =>
    { matchPos := k, speculative := kOscPrefix.take k, timerArmed := decide (0 < k.val)
      inbox := v.inbox }
  | .outside .esc => { escPending := true, inbox := v.inbox }
  | .outside .csi => { inCsi := true, inbox := v.inbox }
  | .inside body => { inSeq := true, capture := body, inbox := v.inbox }

end Reading

/-- The reader `s` has made `v` of the line. -/
structure Reads (s : TermReader) (v : Reading) : Prop where
  text : s.passed.flatten ++ s.pendingPassthrough = v.text
  state : s = { v.reader with passed := s.passed, pendingPassthrough := s.pendingPassthrough }

/-- A byte matched against the prefix is read as `extend` says. -/
theorem matchByte_reads (k : Fin 5) (pending : List UInt8) (passed : List (List UInt8))
    (inbox : Inbox) (b : UInt8) :
    Reads
      (TermReader.matchByte osc
        { matchPos := k, speculative := kOscPrefix.take k, pendingPassthrough := pending
          timerArmed := decide (0 < k.val), passed := passed, inbox := inbox } b)
      (Reading.ordinary ⟨.outside (.matched k), passed.flatten ++ pending, inbox⟩ (.matched k) b
        (Held.extend k b)) := by
  have hosc : osc.seqPrefix = kOscPrefix := rfl
  unfold TermReader.matchByte Held.extend
  rw [hosc]
  by_cases hmatch : kOscPrefix[k.val]? = some b
  · rw [if_pos hmatch, if_pos hmatch]
    by_cases hlt : k.val + 1 < 5
    · -- one more byte of the prefix is held
      rw [dif_pos hlt, if_neg (show ¬ k.val + 1 = kOscPrefix.length from Nat.ne_of_lt hlt)]
      have htake : kOscPrefix.take (k.val + 1) = kOscPrefix.take k.val ++ [b] := by
        rw [List.take_add_one, hmatch]
        rfl
      refine ⟨?_, ?_⟩
      · simp [Reading.ordinary, Held.bytes, htake]
      · simp [Reading.ordinary, Reading.reader, htake]
    · rw [dif_neg hlt, if_pos (show k.val + 1 = kOscPrefix.length by
        have := k.isLt
        show k.val + 1 = 5
        omega)]
      exact ⟨rfl, rfl⟩
  · rw [if_neg hmatch, if_neg hmatch]
    by_cases hesc : b = escByte
    · rw [if_pos hesc, if_pos hesc]
      exact ⟨by simp [Reading.ordinary, Held.bytes], rfl⟩
    · -- the first byte of the prefix is ESC too
      have hfirst : ¬ kOscPrefix[0]? = some b := fun h => hesc (Option.some.inj h).symm
      rw [if_neg hesc, if_neg hesc, if_neg hfirst]
      exact ⟨by simp [Reading.ordinary, Held.bytes], rfl⟩

/-- A byte of the body of a sequence. -/
theorem captureByte_reads (body pending : List UInt8) (passed : List (List UInt8))
    (inbox : Inbox) (b : UInt8) :
    Reads
      (TermReader.captureByte osc
        { inSeq := true, capture := body, pendingPassthrough := pending, passed := passed
          inbox := inbox } b)
      (Reading.byte ⟨.inside body, passed.flatten ++ pending, inbox⟩ b) := by
  have hosc : osc.terminator = kOscTerminator := rfl
  unfold TermReader.captureByte Reading.byte
  rw [hosc]
  by_cases hend : b = kOscTerminator
  · rw [if_pos hend]
    exact ⟨by simp [hend, TermReader.completeSequence], by simp [hend]; rfl⟩
  · rw [if_neg hend]
    by_cases hcap : (body ++ [b]).length > kMaxCaptureBytes
    · rw [if_pos ⟨rfl, hcap⟩]
      simp only [if_neg hend, if_pos hcap]
      exact ⟨rfl, rfl⟩
    · rw [if_neg (fun hboth => hcap hboth.2)]
      simp only [if_neg hend, if_neg hcap]
      exact ⟨rfl, rfl⟩

/-- One byte. -/
theorem byte_reads {s : TermReader} {v : Reading} (h : Reads s v) (b : UInt8) :
    Reads (s.feedByte osc b) (v.byte b) := by
  obtain ⟨htext, hstate⟩ := h
  obtain ⟨mode, text, inbox⟩ := v
  subst htext
  rw [hstate]
  generalize s.passed = passed
  generalize s.pendingPassthrough = pending
  match mode with
  | .outside (.matched k) => exact matchByte_reads k pending passed inbox b
  | .outside .esc =>
    by_cases hbracket : b = 91
    · subst hbracket
      exact ⟨by simp [TermReader.feedByte, Reading.reader, Reading.byte, Reading.ordinary,
        Held.next, Held.bytes], rfl⟩
    · -- the ESC stood alone
      have hnext : Held.esc.next b = Held.extend 0 b := if_neg hbracket
      have hread := matchByte_reads 0 pending passed inbox b
      show Reads (if b = 91 then _ else _) (Reading.ordinary _ .esc b (Held.esc.next b))
      rw [if_neg hbracket, hnext]
      exact hread
  | .outside .csi =>
    refine ⟨?_, ?_⟩
    · show passed.flatten ++ (pending ++ [b]) = if Held.bytes (if _ then _ else _) =
        [] then _ else _
      split <;> simp [Held.bytes]
    · by_cases hfinal : 0x40 ≤ b ∧ b ≤ 0x7e
      · simp [Reading.byte, Reading.ordinary, Held.next, Reading.reader, TermReader.feedByte,
          hfinal]
      · simp [Reading.byte, Reading.ordinary, Held.next, Reading.reader, TermReader.feedByte,
          hfinal]
  | .inside body => exact captureByte_reads body pending passed inbox b

/-- Flushing changes what is passed on, not what is read. -/
theorem flushPending_reads {s : TermReader} {v : Reading} (h : Reads s v) :
    Reads s.flushPending v := by
  unfold TermReader.flushPending
  by_cases hempty : s.pendingPassthrough.isEmpty
  · rw [if_pos hempty]
    exact h
  · rw [if_neg hempty]
    exact ⟨by simpa using h.text, by rw [h.state]⟩

/-- A pause. -/
theorem idle_reads {s : TermReader} {v : Reading} (h : Reads s v) : Reads s.idle v.pause := by
  obtain ⟨htext, hstate⟩ := h
  obtain ⟨mode, text, inbox⟩ := v
  subst htext
  rw [hstate]
  generalize s.passed = passed
  generalize s.pendingPassthrough = pending
  match mode with
  | .outside (.matched k) =>
    by_cases hk : 0 < k.val
    · -- the timer runs, and fires
      have hflushed : Reads
          (TermReader.flushPending
            { inbox := inbox, passed := passed, pendingPassthrough := pending ++
              kOscPrefix.take k })
          ⟨.outside (.matched 0), passed.flatten ++ pending ++ kOscPrefix.take k, inbox⟩ :=
        flushPending_reads ⟨(List.append_assoc ..).symm, rfl⟩
      show Reads (if decide (0 < k.val) then _ else _) _
      rw [if_pos (decide_eq_true hk)]
      exact hflushed
    · have hzero : k = 0 := Fin.ext (by simpa using hk)
      subst hzero
      exact ⟨by simp [TermReader.idle, Reading.reader, Reading.pause, Held.bytes], rfl⟩
  | .outside .esc => exact ⟨by simp [TermReader.idle, Reading.reader, Reading.pause,
      Held.bytes], rfl⟩
  | .outside .csi => exact ⟨by simp [TermReader.idle, Reading.reader, Reading.pause,
      Held.bytes], rfl⟩
  | .inside body => exact ⟨rfl, rfl⟩

/-- The reading of some bytes of one read. -/
theorem foldl_reads {s : TermReader} {v : Reading} (h : Reads s v) (chunk : List UInt8) :
    Reads (chunk.foldl (TermReader.feedByte osc) s)
      ((chunk.map Tick.byte).foldl Reading.tick v) := by
  induction chunk generalizing s v with
  | nil => exact h
  | cons b rest ih => exact ih (byte_reads h b)

/-- The reading of a run does not depend on how the line was cut into reads. -/
theorem run_reads {s : TermReader} {v : Reading} (h : Reads s v) (events : List LineEvent) :
    Reads (s.run osc events) ((events.flatMap LineEvent.ticks).foldl Reading.tick v) := by
  induction events generalizing s v with
  | nil => exact h
  | cons event rest ih =>
    rw [List.flatMap_cons, List.foldl_append]
    refine ih ?_
    cases event with
    | idle => exact idle_reads h
    | read chunk =>
      show Reads (if chunk.isEmpty then s else _) _
      by_cases hempty : chunk.isEmpty
      · rw [if_pos hempty]
        rw [List.isEmpty_iff] at hempty
        subst hempty
        exact h
      · rw [if_neg hempty]
        exact flushPending_reads (foldl_reads h chunk)

/-! ## The chunks of a frame -/

theorem splitSemicolon_append {front : List UInt8} (h : ∀ c ∈ front, c ≠ semicolon)
    (rest : List UInt8) : splitSemicolon (front ++ semicolon :: rest) = some (front, rest) := by
  have hfront : ∀ c ∈ front, (c != semicolon) = true := fun c hc => by simpa using h c hc
  unfold splitSemicolon
  rw [List.dropWhile_append_of_pos hfront, List.takeWhile_append_of_pos hfront]
  simp

theorem decimal_ne_semicolon (n : Nat) : ∀ c ∈ decimal n, c ≠ semicolon := by
  intro c hc heq
  have hle := (decimal_digits n c hc).2
  rw [heq] at hle
  exact absurd hle (by decide)

/-- The numbers and the payload of a chunk are found again, if the numbers fit 32 bits. -/
theorem parseAndComplete_body (inbox : Inbox) (i total : Nat) (bytes : List UInt8) :
    inbox.parseAndComplete (chunkBody i total bytes) =
      if i ≤ 0xFFFFFFFF ∧ total ≤ 0xFFFFFFFF then
        inbox.completeChunk i total (base64Encode bytes)
      else inbox := by
  unfold Inbox.parseAndComplete chunkBody
  rw [splitSemicolon_append (decimal_ne_semicolon i)]
  simp only
  rw [splitSemicolon_append (decimal_ne_semicolon total)]
  simp only [parseUint_decimal]
  by_cases hi : i ≤ 0xFFFFFFFF
  · by_cases htotal : total ≤ 0xFFFFFFFF
    · rw [if_pos hi, if_pos htotal, if_pos ⟨hi, htotal⟩]
    · have hboth : ¬ (i ≤ 0xFFFFFFFF ∧ total ≤ 0xFFFFFFFF) := fun h => htotal h.2
      rw [if_pos hi, if_neg htotal, if_neg hboth]
  · have hboth : ¬ (i ≤ 0xFFFFFFFF ∧ total ≤ 0xFFFFFFFF) := fun h => hi h.1
    rw [if_neg hi, if_neg hboth]

/-- The reassembly after the first `n` chunks of a frame. -/
def assembled (frame : List UInt8) (n : Nat) : Reassembly :=
  if n = 0 then {}
  else
    { active := true, total := totalChunks frame, expectedSeq := n
      buf := frame.take (n * kChunkRawBytes) }

theorem chunkBytes_eq (frame : List UInt8) (i : Nat) :
    frame.take (i * kChunkRawBytes) ++ chunkBytes frame i =
      frame.take ((i + 1) * kChunkRawBytes) := by
  have hchunk : chunkBytes frame i = (frame.drop (i * kChunkRawBytes)).take kChunkRawBytes := by
    show (frame.drop _).take (min _ _) = _
    rw [← List.length_drop, ← List.take_eq_take_min]
  rw [hchunk, Nat.add_mul, Nat.one_mul, List.take_add]

/-- The next chunk of a frame is added to those before it; the last one completes it. -/
theorem completeChunk_next {frame : List UInt8} {n : Nat} (hn : n < totalChunks frame)
    (queue : List (List UInt8)) :
    Inbox.completeChunk ⟨assembled frame n, queue⟩ n (totalChunks frame)
        (base64Encode (chunkBytes frame n)) =
      if n + 1 = totalChunks frame then
        ⟨{}, queue ++ [frame.take ((n + 1) * kChunkRawBytes)]⟩
      else ⟨assembled frame (n + 1), queue⟩ := by
  have hbuf := chunkBytes_eq frame n
  unfold Inbox.completeChunk
  rw [base64Decode_encode]
  simp only
  rw [if_neg (by omega : ¬ totalChunks frame = 0)]
  by_cases hzero : n = 0
  · subst hzero
    simp only [Nat.zero_mul, List.take_zero, List.nil_append] at hbuf
    simp [Inbox.push, assembled, hbuf]
  · simp [hzero, Inbox.push, assembled, hbuf]

/-- A later chunk without those before it is dropped. -/
theorem completeChunk_stray {i total : Nat} (hi : i ≠ 0) (bytes : List UInt8)
    (queue : List (List UInt8)) :
    Inbox.completeChunk ⟨{}, queue⟩ i total (base64Encode bytes) = ⟨{}, queue⟩ := by
  unfold Inbox.completeChunk
  rw [base64Decode_encode]
  simp [hi]

/-- The body of a chunk has no terminator in it, and no ESC. -/
theorem chunkBody_plain (i total : Nat) (bytes : List UInt8) :
    ∀ c ∈ chunkBody i total bytes, c ≠ kOscTerminator ∧ c ≠ escByte := by
  have hdigit : ∀ n, ∀ c ∈ decimal n, c ≠ kOscTerminator ∧ c ≠ escByte := by
    intro n c hc
    have hlow := (decimal_digits n c hc).1
    constructor
    · rintro rfl
      exact absurd hlow (by decide)
    · rintro rfl
      exact absurd hlow (by decide)
  have halphabet : kBase64Chars.all (fun c => c != kOscTerminator && c != escByte) = true := rfl
  intro c hc
  simp only [chunkBody, List.mem_append, List.mem_cons] at hc
  rcases hc with hc | rfl | hc | rfl | hc
  · exact hdigit i c hc
  · decide
  · exact hdigit total c hc
  · decide
  · rcases base64Encode_chars bytes c hc with rfl | hc
    · decide
    · simpa using List.all_eq_true.1 halphabet c hc

/-- A frame that fits a `buffer`. -/
structure Frame where
  bytes : List UInt8
  bounded : bytes.length < 2 ^ 63

theorem totalChunks_pos (frame : List UInt8) : 0 < totalChunks frame := by
  have hk : kChunkRawBytes = 3051 := rfl
  unfold totalChunks
  by_cases hempty : frame.isEmpty
  · rw [if_pos hempty]
    decide
  · rw [if_neg hempty, hk]
    have : frame.length ≠ 0 := by simpa [List.length_eq_zero_iff] using hempty
    omega

/-- The chunks hold the whole frame. -/
theorem length_le_chunks (frame : List UInt8) :
    frame.length ≤ totalChunks frame * kChunkRawBytes := by
  have hk : kChunkRawBytes = 3051 := rfl
  unfold totalChunks
  by_cases hempty : frame.isEmpty
  · rw [List.isEmpty_iff] at hempty
    simp [hempty]
  · rw [if_neg hempty, hk]
    omega

/-- The body of a chunk is far shorter than what the scanner discards. -/
theorem chunkBody_length (frame : Frame) {i : Nat} (hi : i < totalChunks frame.bytes) :
    (chunkBody i (totalChunks frame.bytes) (chunkBytes frame.bytes i)).length ≤
      kMaxCaptureBytes := by
  have hk : kChunkRawBytes = 3051 := rfl
  have hbounded := frame.bounded
  have htotal : totalChunks frame.bytes < 10 ^ 19 := by
    unfold totalChunks
    split
    · decide
    · rw [hk]
      omega
  have hseq : (decimal i).length ≤ 19 := decimal_length (by decide) (by omega)
  have hcount : (decimal (totalChunks frame.bytes)).length ≤ 19 :=
    decimal_length (by decide) htotal
  have hbytes : (chunkBytes frame.bytes i).length ≤ 3051 := by
    simp only [chunkBytes, hk, List.length_take]
    omega
  have hpayload := base64Encode_length (chunkBytes frame.bytes i)
  simp only [chunkBody, List.length_append, List.length_cons]
  show _ ≤ 16384
  omega

/-! ## Reading a frame -/

/-- A body is kept as it comes. -/
theorem byte_body {body : List UInt8} (hplain : ∀ c ∈ body, c ≠ kOscTerminator)
    (text : List UInt8) (inbox : Inbox) (seen : List UInt8)
    (hlen : (seen ++ body).length ≤ kMaxCaptureBytes) :
    body.foldl Reading.byte ⟨.inside seen, text, inbox⟩ =
      ⟨.inside (seen ++ body), text, inbox⟩ := by
  induction body generalizing seen with
  | nil => simp
  | cons c rest ih =>
    have hc : c ≠ kOscTerminator := hplain c (List.mem_cons_self ..)
    have hshort : ¬ (seen ++ [c]).length > kMaxCaptureBytes := by
      simp only [List.length_append, List.length_cons, List.length_nil] at hlen ⊢
      omega
    have hbyte : Reading.byte ⟨.inside seen, text, inbox⟩ c =
      ⟨.inside (seen ++ [c]), text, inbox⟩ := by
      show (if c = kOscTerminator then _ else if _ then _ else _) = _
      rw [if_neg hc, if_neg hshort]
    rw [List.foldl_cons, hbyte, ih (fun x hx => hplain x (List.mem_cons_of_mem _ hx)) (seen ++ [c])
      (by simpa using hlen)]
    simp

/-- Bytes other than ESC pass when nothing is held. -/
theorem byte_plain {bytes : List UInt8} (hplain : ∀ c ∈ bytes, c ≠ escByte)
    (text : List UInt8) (inbox : Inbox) :
    bytes.foldl Reading.byte ⟨.outside (.matched 0), text, inbox⟩ =
      ⟨.outside (.matched 0), text ++ bytes, inbox⟩ := by
  induction bytes generalizing text with
  | nil => simp
  | cons c rest ih =>
    have hc : c ≠ escByte := hplain c (List.mem_cons_self ..)
    have hnext : Held.next (.matched 0) c = some (.matched 0) := by
      have hfirst : ¬ kOscPrefix[0]? = some c := fun h => hc (Option.some.inj h).symm
      show Held.extend 0 c = _
      unfold Held.extend
      rw [if_neg hc]
      exact if_neg hfirst
    have hbyte : Reading.byte ⟨.outside (.matched 0), text, inbox⟩ c =
        ⟨.outside (.matched 0), text ++ [c], inbox⟩ := by
      show Reading.ordinary _ _ c (Held.next _ c) = _
      rw [hnext]
      simp [Reading.ordinary, Held.bytes]
    rw [List.foldl_cons, hbyte, ih fun x hx => hplain x (List.mem_cons_of_mem _ hx)]
    simp

/-- A chunk is recognised where the scanner is clear. -/
theorem byte_chunk {held : Held} (hclear : held.Clear) {i total : Nat} {bytes : List UInt8}
    (hlen : (chunkBody i total bytes).length ≤ kMaxCaptureBytes)
    (text : List UInt8) (inbox : Inbox) :
    (oscChunk i total bytes).foldl Reading.byte ⟨.outside held, text, inbox⟩ =
      ⟨.outside (.matched 0), text, inbox.parseAndComplete (chunkBody i total bytes)⟩ := by
  have hbegin : kOscPrefix.foldl Reading.byte ⟨.outside held, text, inbox⟩ =
      ⟨.inside [], text, inbox⟩ := by
    match held, hclear with
    | .matched _, rfl => rfl
    | .esc, _ => rfl
  unfold oscChunk
  rw [List.foldl_append, List.foldl_append, hbegin,
    byte_body (fun c hc => (chunkBody_plain i total bytes c hc).1) _ _ _ (by simpa using hlen)]
  rfl

/-- A chunk is passed through as ordinary bytes where the scanner is not clear. -/
theorem byte_chunk_lost {held : Held} (hclear : ¬ held.Clear) (i total : Nat) (bytes : List UInt8)
    (text : List UInt8) (inbox : Inbox) :
    (oscChunk i total bytes).foldl Reading.byte ⟨.outside held, text, inbox⟩ =
      ⟨.outside (.matched 0), text ++ held.bytes ++ oscChunk i total bytes, inbox⟩ := by
  -- the ESC does not begin a sequence, and nothing after it does
  have hbegin : [escByte, 93].foldl Reading.byte ⟨.outside held, text, inbox⟩ =
      ⟨.outside (.matched 0), text ++ held.bytes ++ [escByte, 93], inbox⟩ := by
    match held with
    | .matched k =>
      have hesc : Held.extend k escByte = some .esc := by
        have hk : ∀ k : Fin 5, k ≠ 0 → Held.extend k escByte = some .esc := by decide
        exact hk k hclear
      show Reading.byte (Reading.ordinary _ _ escByte (Held.extend k escByte)) 93 = _
      rw [hesc]
      simp [Reading.ordinary, Reading.byte, Held.bytes, Held.next, Held.extend, kOscPrefix, escByte]
    | .esc => exact absurd trivial hclear
    | .csi => simp [Reading.ordinary, Reading.byte, Held.bytes, Held.next, escByte]
  have hdigits : [57, 57, semicolon].all (fun c => c != escByte) = true := rfl
  have hrest : ∀ c ∈ [57, 57, semicolon] ++ chunkBody i total bytes ++ [kOscTerminator],
      c ≠ escByte := by
    intro c hc
    simp only [List.mem_append] at hc
    rcases hc with (hc | hc) | hc
    · simpa using List.all_eq_true.1 hdigits c hc
    · exact (chunkBody_plain i total bytes c hc).2
    · rw [List.mem_singleton.1 hc]
      decide
  have hsplit : oscChunk i total bytes =
      [escByte, 93] ++ ([57, 57, semicolon] ++ chunkBody i total bytes ++ [kOscTerminator]) := rfl
  rw [hsplit, List.foldl_append, hbegin, byte_plain hrest]
  simp

/-- The first `n` chunks of a frame. -/
def firstChunks (frame : List UInt8) (n : Nat) : List UInt8 :=
  (List.range n).flatMap fun i => oscChunk i (totalChunks frame) (chunkBytes frame i)

theorem firstChunks_succ (frame : List UInt8) (n : Nat) :
    firstChunks frame (n + 1) =
      firstChunks frame n ++ oscChunk n (totalChunks frame) (chunkBytes frame n) := by
  simp [firstChunks, List.range_succ]

/-- What is held after `n` chunks. -/
def heldAfter (held : Held) (n : Nat) : Held := if n = 0 then held else .matched 0

theorem heldAfter_clear {held : Held} (h : held.Clear) (n : Nat) : (heldAfter held n).Clear := by
  unfold heldAfter
  split
  · exact h
  · rfl

/-- The chunks of a frame, where the scanner is clear and their number fits 32 bits. -/
theorem byte_firstChunks {frame : Frame} {held : Held} (hclear : held.Clear)
    (hcount : totalChunks frame.bytes < 2 ^ 32) (text : List UInt8) (queue : List (List UInt8))
    {n : Nat} (hn : n ≤ totalChunks frame.bytes) :
    (firstChunks frame.bytes n).foldl Reading.byte ⟨.outside held, text, ⟨{}, queue⟩⟩ =
      ⟨.outside (heldAfter held n), text,
        if n = totalChunks frame.bytes then ⟨{}, queue ++ [frame.bytes]⟩
        else ⟨assembled frame.bytes n, queue⟩⟩ := by
  induction n with
  | zero =>
    rw [if_neg (Nat.ne_of_lt (totalChunks_pos frame.bytes))]
    rfl
  | succ n ih =>
    have hparse : n ≤ 0xFFFFFFFF ∧ totalChunks frame.bytes ≤ 0xFFFFFFFF := by omega
    rw [firstChunks_succ, List.foldl_append, ih (by omega), if_neg (by omega),
      byte_chunk (heldAfter_clear hclear n) (chunkBody_length frame (by omega)),
      parseAndComplete_body, if_pos hparse, completeChunk_next (by omega)]
    have hheld : heldAfter held (n + 1) = .matched 0 := rfl
    rw [hheld]
    by_cases hlast : n + 1 = totalChunks frame.bytes
    · -- all of the frame has been put together
      rw [if_pos hlast, if_pos hlast, hlast, List.take_of_length_le (length_le_chunks frame.bytes)]
    · rw [if_neg hlast, if_neg hlast]

/-- Otherwise they are lost, the first one as ordinary bytes and the others as strays. -/
theorem byte_firstChunks_lost {frame : Frame} {held : Held}
    (hlost : ¬ (held.Clear ∧ totalChunks frame.bytes < 2 ^ 32))
    (text : List UInt8) (queue : List (List UInt8)) {n : Nat} (hn : n ≤ totalChunks frame.bytes) :
    ∃ text', (firstChunks frame.bytes n).foldl Reading.byte ⟨.outside held, text, ⟨{}, queue⟩⟩ =
      ⟨.outside (heldAfter held n), text', ⟨{}, queue⟩⟩ := by
  induction n with
  | zero => exact ⟨text, rfl⟩
  | succ n ih =>
    obtain ⟨text', ih⟩ := ih (by omega)
    rw [firstChunks_succ, List.foldl_append, ih]
    by_cases hclear : (heldAfter held n).Clear
    · rw [byte_chunk hclear (chunkBody_length frame (by omega)), parseAndComplete_body]
      refine ⟨text', ?_⟩
      by_cases hparse : n ≤ 0xFFFFFFFF ∧ totalChunks frame.bytes ≤ 0xFFFFFFFF
      · -- the first chunk is not among those that are recognised
        have hstray : n ≠ 0 := by
          rintro rfl
          exact hlost ⟨hclear, by omega⟩
        rw [if_pos hparse, completeChunk_stray hstray]
        rfl
      · rw [if_neg hparse]
        rfl
    · rw [byte_chunk_lost hclear]
      exact ⟨_, rfl⟩

/-- A segment leaves behind what `leaves` says; what it does not hold back is given up. -/
theorem tick_segment {held held' : Held} {segment : List Tick}
    (h : segment.foldlM Held.tick held = some held') (text : List UInt8) (inbox : Inbox) :
    ∃ text', segment.foldl Reading.tick ⟨.outside held, text, inbox⟩ =
        ⟨.outside held', text', inbox⟩ ∧
      text' ++ held'.bytes = text ++ held.bytes ++ bytesOf segment := by
  induction segment generalizing held text with
  | nil =>
    cases h
    exact ⟨text, rfl, by simp [bytesOf]⟩
  | cons t rest ih =>
    rw [List.foldlM_cons, Option.bind_eq_bind, Option.bind_eq_some_iff] at h
    obtain ⟨mid, hmid, hrest⟩ := h
    cases t with
    | idle =>
      cases hmid
      obtain ⟨text', hfold, htext⟩ := ih hrest (text ++ held.bytes)
      refine ⟨text', hfold, ?_⟩
      rw [htext]
      have hnone : held.pause.bytes = [] := by cases held <;> rfl
      rw [hnone, List.append_nil]
      rfl
    | byte b =>
      have hbyte : Reading.tick ⟨.outside held, text, inbox⟩ (.byte b) =
          Reading.ordinary ⟨.outside held, text, inbox⟩ held b (some mid) := by
        show Reading.ordinary _ held b (held.next b) = _
        rw [show held.next b = some mid from hmid]
      rw [List.foldl_cons, hbyte]
      have hbytes : bytesOf (.byte b :: rest) = b :: bytesOf rest := rfl
      obtain ⟨text', hfold, htext⟩ := ih hrest
        (if mid.bytes = [] then text ++ held.bytes ++ [b] else text)
      refine ⟨text', hfold, ?_⟩
      rw [htext, hbytes]
      by_cases hempty : mid.bytes = []
      · rw [if_pos hempty, hempty]
        simp
      · -- `b` is held with the bytes before it
        have hheld : mid.bytes = held.bytes ++ [b] :=
          (Held.bytes_next hmid).resolve_right hempty
        rw [if_neg hempty, hheld]
        simp

/-! ## A line of segments and frames -/

/-- Ordinary bytes with frames among them: each frame with the segment in front of it, and
what comes after the last. -/
structure Line where
  before : List (List Tick × Frame)
  after : List Tick
  ordinary : ∀ part ∈ before, Ordinary part.1
  ordinary_after : Ordinary after

namespace Line

/-- What is on the line for one frame and its segment. -/
def partTicks (part : List Tick × Frame) : List Tick :=
  part.1 ++ (sendFrame .client part.2.bytes).map .byte

/-- The line as it arrives. There is no pause inside a frame. -/
def ticks (line : Line) : List Tick := line.before.flatMap partTicks ++ line.after

/-- The frames sent. -/
def frames (line : Line) : List (List UInt8) := line.before.map fun part => part.2.bytes

/-- The ordinary bytes sent. -/
def ordinaryBytes (line : Line) : List UInt8 :=
  line.before.flatMap (fun part => bytesOf part.1) ++ bytesOf line.after

/-- Once the line is quiet, the frames have been delivered and the ordinary bytes passed on. -/
def Delivered (line : Line) (s : TermReader) : Prop :=
  s.idle.inbox.recvQueue = line.frames ∧ s.idle.passed.flatten = line.ordinaryBytes

end Line

/-- The frame is sent where the scanner is clear, in a number of chunks that fits 32 bits. -/
def Recognised (part : List Tick × Frame) : Prop :=
  (∀ held ∈ leaves part.1, held.Clear) ∧ totalChunks part.2.bytes < 2 ^ 32

instance : DecidablePred Recognised := fun _ => inferInstanceAs (Decidable (_ ∧ _))

/-- One frame and its segment. -/
theorem tick_part {part : List Tick × Frame} (hordinary : Ordinary part.1)
    (text : List UInt8) (queue : List (List UInt8)) :
    ∃ text', (Line.partTicks part).foldl Reading.tick ⟨.outside (.matched 0), text, ⟨{}, queue⟩⟩ =
        ⟨.outside (.matched 0), text',
          ⟨{}, queue ++ if Recognised part then [part.2.bytes] else []⟩⟩ ∧
      (Recognised part → text' = text ++ bytesOf part.1) := by
  obtain ⟨held, hheld, -⟩ := hordinary.leaves
  obtain ⟨mid, hsegment, hmid⟩ := tick_segment hheld text ⟨{}, queue⟩
  have hrecognised : Recognised part ↔ held.Clear ∧ totalChunks part.2.bytes < 2 ^ 32 := by
    unfold Recognised
    rw [hheld]
    simp
  have hsend : sendFrame .client part.2.bytes =
      firstChunks part.2.bytes (totalChunks part.2.bytes) := rfl
  have hlast : heldAfter held (totalChunks part.2.bytes) = .matched 0 :=
    if_neg (Nat.ne_of_gt (totalChunks_pos part.2.bytes))
  unfold Line.partTicks
  rw [List.foldl_append, hsegment, List.foldl_map, hsend]
  show ∃ text', List.foldl Reading.byte _ _ = _ ∧ _
  by_cases hpart : Recognised part
  · obtain ⟨hclear, hcount⟩ := hrecognised.1 hpart
    rw [byte_firstChunks hclear hcount mid queue (Nat.le_refl _), if_pos rfl, if_pos hpart, hlast]
    refine ⟨mid, rfl, fun _ => ?_⟩
    have hnone : held.bytes = [] := by
      match held, hclear with
      | .matched _, rfl => rfl
      | .esc, _ => rfl
    rw [hnone, List.append_nil] at hmid
    simpa [Held.bytes] using hmid
  · obtain ⟨text', hlost⟩ := byte_firstChunks_lost (fun h => hpart (hrecognised.2 h)) mid queue
      (Nat.le_refl (totalChunks part.2.bytes))
    rw [hlost, if_neg hpart, List.append_nil, hlast]
    exact ⟨text', rfl, fun h => absurd h hpart⟩

/-- All the frames with their segments: those recognised are delivered. -/
theorem tick_parts {parts : List (List Tick × Frame)} (hordinary : ∀ part ∈ parts, Ordinary part.1)
    (text : List UInt8) (queue : List (List UInt8)) :
    ∃ text', (parts.flatMap Line.partTicks).foldl Reading.tick
          ⟨.outside (.matched 0), text, ⟨{}, queue⟩⟩ =
        ⟨.outside (.matched 0), text',
          ⟨{}, queue ++ (parts.filter Recognised).map fun part => part.2.bytes⟩⟩ ∧
      ((∀ part ∈ parts, Recognised part) →
        text' = text ++ parts.flatMap fun part => bytesOf part.1) := by
  induction parts generalizing text queue with
  | nil => exact ⟨text, by simp, by simp⟩
  | cons part rest ih =>
    obtain ⟨mid, hpart, hmid⟩ := tick_part (hordinary part (List.mem_cons_self ..)) text queue
    obtain ⟨text', hrest, htext⟩ := ih (fun p hp => hordinary p (List.mem_cons_of_mem _ hp)) mid
      (queue ++ if Recognised part then [part.2.bytes] else [])
    refine ⟨text', ?_, fun hall => ?_⟩
    · rw [List.flatMap_cons, List.foldl_append, hpart, hrest]
      by_cases hrecognised : Recognised part
      · rw [if_pos hrecognised, List.filter_cons_of_pos (by simpa using hrecognised)]
        simp
      · rw [if_neg hrecognised, List.filter_cons_of_neg (by simpa using hrecognised)]
        simp
    · rw [htext fun p hp => hall p (List.mem_cons_of_mem _ hp),
        hmid (hall part (List.mem_cons_self ..))]
      simp

/-! ## What is delivered -/

/-- The whole line, however it was cut into reads. -/
theorem run_line (line : Line) {events : List LineEvent}
    (h : events.flatMap LineEvent.ticks = line.ticks) :
    (TermReader.run osc {} events).idle.inbox.recvQueue =
        (line.before.filter Recognised).map (fun part => part.2.bytes) ∧
      ((∀ part ∈ line.before, Recognised part) →
        (TermReader.run osc {} events).idle.passed.flatten = line.ordinaryBytes) := by
  obtain ⟨mid, hparts, hmid⟩ := tick_parts line.ordinary [] []
  obtain ⟨held, hheld, -⟩ := line.ordinary_after.leaves
  obtain ⟨text, hafter, htext⟩ := tick_segment hheld mid
    ⟨{}, [] ++ (line.before.filter Recognised).map fun part => part.2.bytes⟩
  have hfresh : Reads {} ⟨.outside (.matched 0), [], ⟨{}, []⟩⟩ := ⟨rfl, rfl⟩
  have hrun := run_reads hfresh events
  rw [h, Line.ticks, List.foldl_append, hparts, hafter] at hrun
  have hidle := idle_reads hrun
  have hpending : (TermReader.run osc {} events).idle.pendingPassthrough = [] :=
    idle_pending (run_pending osc rfl events)
  constructor
  · rw [hidle.state]
    cases held <;> rfl
  · intro hall
    have hpassed := hidle.text
    rw [hpending, List.append_nil] at hpassed
    rw [hpassed]
    show text ++ held.bytes = _
    rw [htext, hmid hall]
    simp [Line.ordinaryBytes, Held.bytes]

/-- **Main result.** Exactly the frames are delivered and exactly the ordinary bytes passed
through, however the line is cut into reads, if and only if every frame is sent where the
scanner is clear and in a number of chunks that fits 32 bits. -/
theorem delivers_iff (line : Line) (events : List LineEvent)
    (h : events.flatMap LineEvent.ticks = line.ticks) :
    line.Delivered (TermReader.run osc {} events) ↔ ∀ part ∈ line.before, Recognised part := by
  obtain ⟨hqueue, hpassed⟩ := run_line line h
  constructor
  · rintro ⟨hframes, -⟩ part hpart
    -- a frame that is not recognised is missing from the queue
    have hlength : (line.before.filter Recognised).length = line.before.length := by
      have heq := congrArg List.length (hqueue.symm.trans hframes)
      simpa [Line.frames] using heq
    have hall := List.length_filter_eq_length_iff.1 hlength part hpart
    simpa using hall
  · intro hall
    refine ⟨?_, hpassed hall⟩
    rw [hqueue, List.filter_eq_self.2 fun part hpart => by simpa using hall part hpart]
    rfl

/-- A letter, an ESC that a pause gives up, a frame, and a letter. -/
def pausedLine : Line where
  before := [([.byte 65, .byte escByte, .idle], ⟨[42], by decide⟩)]
  after := [.byte 66]
  ordinary := by
    intro part hpart
    rw [List.mem_singleton.1 hpart]
    exact fun h => absurd h.length_le (by decide)
  ordinary_after := fun h => absurd h.length_le (by decide)

theorem delivers_paused :
    pausedLine.Delivered (TermReader.run osc {}
      [.read [65, escByte], .idle, .read ((sendFrame .client [42]).take 3),
        .read ((sendFrame .client [42]).drop 3 ++ [66])]) :=
  (delivers_iff pausedLine _ (by decide)).2 (by decide)

/-- The same ESC with the frame right behind it. -/
def escLine : Line where
  before := [([.byte escByte], ⟨[42], by decide⟩)]
  after := []
  ordinary := by
    intro part hpart
    rw [List.mem_singleton.1 hpart]
    exact fun h => absurd h.length_le (by decide)
  ordinary_after := fun h => absurd h.length_le (by decide)

/-- The ESC of the frame ends the match that the ordinary ESC began, and the frame is passed
through as text. -/
theorem delivers_esc_false :
    ¬ ∀ (line : Line) (events : List LineEvent), events.flatMap LineEvent.ticks = line.ticks →
      line.Delivered (TermReader.run osc {} events) := by
  intro h
  have hdelivered := h escLine [.read (escByte :: sendFrame .client [42])] (by decide)
  exact absurd hdelivered.1 (by decide)

end Bison
