import Bison.Transport.TermOsc

/-!
# The chunks of a frame

What the client role writes for a frame, against the limits of the line and of the receiver: the
overhead of a sequence, the digits of its two numbers and the base64 text of its bytes add up to
`kMaxOscSequenceBytes` at most.

- `Sent`: a chunk is short enough for the line, and for the receiver, which reads its numbers and
  its payload.
- `sendFrame_sent`: **main result**, with fewer than 2^32 of them the chunks are sent this way, and
  are the frame together.
-/

namespace Bison

/-- Chunk `i` of a frame as it is written. -/
def sentChunk (frame : List UInt8) (i : Nat) : List UInt8 :=
  oscChunk i (totalChunks frame) (chunkBytes frame i)

/-- Its body, with which the receiver is left. -/
def sentBody (frame : List UInt8) (i : Nat) : List UInt8 :=
  chunkBody i (totalChunks frame) (chunkBytes frame i)

/-- What chunk `i` of a frame is when it is sent, and what becomes of it at the receiver. -/
structure Sent (frame : List UInt8) (i : Nat) : Prop where
  length_le : (sentChunk frame i).length ≤ kMaxOscSequenceBytes
  body_le : (sentBody frame i).length ≤ kMaxCaptureBytes
  /-- The numbers are those of the chunk, and the payload is its bytes. -/
  parsed : ∀ inbox, Inbox.parseAndComplete inbox (sentBody frame i) =
    inbox.completeChunk i (totalChunks frame) (base64Encode (chunkBytes frame i))
  payload : base64Decode (base64Encode (chunkBytes frame i)) = some (chunkBytes frame i)
  /-- A receiver that holds nothing back completes the sequence. -/
  received : ∀ inbox : Inbox,
    let s := (sentChunk frame i).foldl (TermReader.feedByte osc) { inbox := inbox }
    s.inSeq = false ∧ s.inbox =
      inbox.completeChunk i (totalChunks frame) (base64Encode (chunkBytes frame i))

/-! ## Lengths -/

theorem chunkBytes_length_le (frame : List UInt8) (i : Nat) :
    (chunkBytes frame i).length ≤ kChunkRawBytes := by
  rw [chunkBytes, List.length_take]
  exact (Nat.min_le_left _ _).trans (Nat.min_le_left _ _)

/-- The budget of the digits is enough for the numbers of 32 bits. -/
theorem decimal_length_le {n : Nat} (h : n < 2 ^ 32) : (decimal n).length ≤ 10 :=
  decimal_length (by decide) (h.trans_le (by decide))

/-- A body has two numbers, two semicolons and the text of its bytes. -/
theorem sentBody_length_le {frame : List UInt8} (h : totalChunks frame < 2 ^ 32) {i : Nat}
    (hi : i < totalChunks frame) : (sentBody frame i).length ≤ 10 + 1 + 10 + 1 + 4068 := by
  have hseq := decimal_length_le (hi.trans h)
  have htotal := decimal_length_le h
  have hbytes : (chunkBytes frame i).length ≤ 3051 := chunkBytes_length_le frame i
  have hpayload := base64Encode_length (chunkBytes frame i)
  simp only [sentBody, chunkBody, List.length_append, List.length_cons]
  omega

theorem sentChunk_length (frame : List UInt8) (i : Nat) :
    (sentChunk frame i).length = kOscPrefix.length + (sentBody frame i).length + 1 := by
  rw [sentChunk, oscChunk, List.length_append, List.length_append]
  rfl

/-! ## The receiver -/

/-- A chunk at a receiver that holds nothing back. -/
theorem feed_sentChunk {frame : List UInt8} {i : Nat}
    (hlength : (sentBody frame i).length ≤ kMaxCaptureBytes) (inbox : Inbox) :
    let s := (sentChunk frame i).foldl (TermReader.feedByte osc) { inbox := inbox }
    s.inSeq = false ∧ s.inbox = inbox.parseAndComplete (sentBody frame i) := by
  have hstart : Reads { inbox := inbox } ⟨.outside (.matched 0), [], inbox⟩ := ⟨rfl, rfl⟩
  have hreads := foldl_reads hstart (sentChunk frame i)
  have hbytes : ((sentChunk frame i).map Tick.byte).foldl Reading.tick
      ⟨.outside (.matched 0), [], inbox⟩ =
      (sentChunk frame i).foldl Reading.byte ⟨.outside (.matched 0), [], inbox⟩ := by
    rw [List.foldl_map]
    rfl
  have hheld : Held.Clear (.matched 0) := rfl
  rw [hbytes, sentChunk, byte_chunk hheld hlength] at hreads
  exact ⟨by rw [sentChunk, hreads.state]; rfl, by rw [sentChunk, hreads.state]; rfl⟩

/-! ## The frame -/

/-- The chunks up to one are the beginning of the frame. -/
theorem flatMap_chunkBytes (frame : List UInt8) (n : Nat) :
    (List.range n).flatMap (chunkBytes frame) = frame.take (n * kChunkRawBytes) := by
  induction n with
  | zero => rw [Nat.zero_mul, List.take_zero]; rfl
  | succ n ih =>
    rw [List.range_succ, List.flatMap_append, List.flatMap_singleton, ih, chunkBytes_eq]

/-- Every chunk is sent as it should be. -/
theorem sent {frame : List UInt8} (h : totalChunks frame < 2 ^ 32) {i : Nat}
    (hi : i < totalChunks frame) : Sent frame i := by
  have hbody := sentBody_length_le h hi
  have hcapture : (sentBody frame i).length ≤ kMaxCaptureBytes := hbody.trans (by decide)
  have hnumbers : i ≤ 0xFFFFFFFF ∧ totalChunks frame ≤ 0xFFFFFFFF := by omega
  have hparsed (inbox : Inbox) := parseAndComplete_body inbox i (totalChunks frame)
    (chunkBytes frame i)
  refine ⟨?_, hcapture, fun inbox => ?_, base64Decode_encode _, fun inbox => ?_⟩
  · rw [sentChunk_length]
    show 5 + _ + 1 ≤ 4096
    omega
  · exact (hparsed inbox).trans (if_pos hnumbers)
  · obtain ⟨hidle, hinbox⟩ := feed_sentChunk hcapture inbox
    exact ⟨hidle, hinbox.trans ((hparsed inbox).trans (if_pos hnumbers))⟩

/-- **Main result**: with fewer than 2^32 chunks, the client role writes the chunks with their
numbers one after the other, they are the frame together, and each is sent as it should be. -/
theorem sendFrame_sent (frame : List UInt8) (h : totalChunks frame < 2 ^ 32) :
    sendFrame .client frame = (List.range (totalChunks frame)).flatMap (sentChunk frame) ∧
      (List.range (totalChunks frame)).flatMap (chunkBytes frame) = frame ∧
      ∀ i < totalChunks frame, Sent frame i := by
  refine ⟨rfl, ?_, fun i hi => sent h hi⟩
  rw [flatMap_chunkBytes, List.take_of_length_le (length_le_chunks frame)]

theorem sendFrame_sent_empty : Sent [] 0 :=
  (sendFrame_sent [] (by decide)).2.2 0 (by decide)

end Bison
