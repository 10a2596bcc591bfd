import Bison.Transport.FrameParser

/-!
# Oversized frames

The receivers allow `kMaxFrameBytes` of payload (FORMAT.md §5.1); the senders write any
frame they are given, with the low 32 bits of its length in front.

- `FrameParser.feedLoop_bounded`: a parser that has not refused a length stores and delivers
  no more than allowed. `FrameParser.feedLoop_within`, `FrameParser.feedLoop_completes`: what
  one that has refused a length does if it is fed again.
- `sendAll_delivered_iff`: **main result**, the frames a sender accepts arrive if and only if
  none of them is larger than allowed.
-/

namespace Bison

namespace FrameParser

/-! ## Before a length is refused -/

/-- What is stored and what is expected fit, and nothing is stored before a header. -/
structure Bounded (p : FrameParser) : Prop where
  fits : p.partialFrame.length + p.payloadLeft ≤ kMaxFrameBytes
  empty : p.hdrPos < 4 → p.partialFrame = []

/-- A length was just refused: nothing is stored of its payload, and more is expected than
allowed. -/
structure Refused (p : FrameParser) : Prop where
  pos : p.hdrPos = 4
  empty : p.partialFrame = []
  left : kMaxFrameBytes < p.payloadLeft

theorem Idle.bounded {p : FrameParser} (h : p.Idle) : p.Bounded where
  fits := by
    rw [h.empty, h.left]
    exact Nat.zero_le _
  empty := fun _ => h.empty

/-- The first half of a pass. -/
theorem feedHeader_bounded {p p' : FrameParser} {bytes rest : List UInt8} {ok : Bool}
    (h : p.Bounded) (heq : feedHeader p bytes = (p', rest, ok)) :
    if ok then p'.Bounded else p'.Refused := by
  unfold feedHeader at heq
  by_cases hpos : p.hdrPos < 4
  · have hempty := h.empty hpos
    have hfits := h.fits
    simp only [if_pos hpos] at heq
    split at heq
    case isTrue hfull =>
      split at heq
      case isTrue hmax =>
        -- a length that is not allowed
        cases heq
        exact ⟨hfull, hempty, hmax⟩
      case isFalse hmax =>
        cases heq
        refine ⟨?_, fun _ => rfl⟩
        simp only [List.length_nil, Nat.zero_add]
        exact Nat.le_of_not_lt hmax
    case isFalse =>
      cases heq
      exact ⟨hfits, fun _ => hempty⟩
  · simp only [if_neg hpos] at heq
    cases heq
    exact h

/-- The second half. -/
theorem feedPayload_bounded {p p' : FrameParser} {bytes rest : List UInt8}
    {frame : Option (List UInt8)} (h : p.Bounded)
    (heq : feedPayload p bytes = (p', rest, frame)) :
    p'.Bounded ∧ ∀ f ∈ frame, f.length ≤ kMaxFrameBytes := by
  have hfits := h.fits
  unfold feedPayload at heq
  split at heq
  case isTrue hgo =>
    simp only at heq
    have htake : (bytes.take (min p.payloadLeft bytes.length)).length ≤ p.payloadLeft := by
      rw [List.length_take]
      omega
    split at heq
    case isTrue =>
      cases heq
      refine ⟨⟨by simp only [List.length_nil]; omega, fun _ => rfl⟩, ?_⟩
      rintro f ⟨⟩
      rw [List.length_append]
      omega
    case isFalse =>
      cases heq
      refine ⟨⟨?_, fun hlt => ?_⟩, by simp⟩
      · simp only [List.length_append, List.length_take]
        omega
      · -- the header stays complete
        exact absurd hgo.1 (Nat.ne_of_lt hlt)
  case isFalse =>
    cases heq
    exact ⟨h, by simp⟩

/-- **Any number of passes**: no frame delivered is too large, and the parser stays within the
limit until a length is refused. -/
theorem feedLoop_bounded (fuel : Nat) {p : FrameParser} (h : p.Bounded) (bytes : List UInt8) :
    (∀ f ∈ (feedLoop fuel p bytes).frames, f.length ≤ kMaxFrameBytes) ∧
      if (feedLoop fuel p bytes).ok then (feedLoop fuel p bytes).parser.Bounded
      else (feedLoop fuel p bytes).parser.Refused := by
  induction fuel generalizing p bytes with
  | zero => exact ⟨by simp [feedLoop], h⟩
  | succ fuel ih =>
    unfold feedLoop
    by_cases hlen : bytes.length = 0
    · rw [if_pos hlen]
      exact ⟨by simp, h⟩
    · rw [if_neg hlen]
      rcases hheader : feedHeader p bytes with ⟨p₁, mid, ok⟩
      have h₁ := feedHeader_bounded h hheader
      cases ok with
      | false => exact ⟨by simp, h₁⟩
      | true =>
        rcases hpayload : feedPayload p₁ mid with ⟨p₂, rest, frame⟩
        obtain ⟨h₂, hframe⟩ := feedPayload_bounded h₁ hpayload
        obtain ⟨hframes, hparser⟩ := ih h₂ rest
        refine ⟨fun f hf => ?_, by simpa [hpayload] using hparser⟩
        simp only [hpayload, List.mem_append, Option.mem_toList] at hf
        exact hf.elim (hframe f) (hframes f)

/-! ## After a length is refused -/

/-- A pass that has a whole header and fewer bytes than are expected stores them. -/
theorem feedPayload_within {p : FrameParser} {bytes : List UInt8} (hpos : p.hdrPos = 4)
    (hbytes : 0 < bytes.length) (hleft : bytes.length < p.payloadLeft) :
    feedPayload p bytes =
      ({ p with partialFrame := p.partialFrame ++ bytes
                payloadLeft := p.payloadLeft - bytes.length }, [], none) := by
  have hall : min p.payloadLeft bytes.length = bytes.length := by omega
  unfold feedPayload
  rw [if_pos ⟨hpos, .inl hbytes⟩]
  simp only [hall, List.take_length, List.drop_length]
  rw [if_neg (by omega)]

theorem feedHeader_of_pos {p : FrameParser} (hpos : p.hdrPos = 4) (bytes : List UInt8) :
    feedHeader p bytes = (p, bytes, true) := by
  unfold feedHeader
  rw [if_neg (by rw [hpos]; decide)]

/-- Fewer bytes than are expected: they are stored, nothing is delivered and nothing refused. -/
theorem feedLoop_within (fuel : Nat) {p : FrameParser} {bytes : List UInt8}
    (hpos : p.hdrPos = 4) (hleft : bytes.length < p.payloadLeft) :
    feedLoop (fuel + 1) p bytes =
      ⟨{ p with partialFrame := p.partialFrame ++ bytes
                payloadLeft := p.payloadLeft - bytes.length }, [], true⟩ := by
  unfold feedLoop
  by_cases hlen : bytes.length = 0
  · rw [if_pos hlen, List.length_eq_zero_iff.1 hlen]
    simp
  · have hdone : ∀ q, feedLoop fuel q [] = ⟨q, [], true⟩ := by
      intro q
      cases fuel <;> rfl
    rw [if_neg hlen, feedHeader_of_pos hpos]
    simp only [feedPayload_within hpos (Nat.pos_of_ne_zero hlen) hleft, hdone]
    rfl

/-- As many bytes as are expected: a frame is delivered. -/
theorem feedLoop_completes (fuel : Nat) {p : FrameParser} {bytes : List UInt8}
    (hpos : p.hdrPos = 4) (hpayload : 0 < p.payloadLeft)
    (hleft : p.payloadLeft ≤ bytes.length) : (feedLoop (fuel + 1) p bytes).frames ≠ [] := by
  have hall : min p.payloadLeft bytes.length = p.payloadLeft := Nat.min_eq_left hleft
  have hdone : feedPayload p bytes =
      ({ p with partialFrame := [], hdrPos := 0, payloadLeft := 0 }, bytes.drop p.payloadLeft,
        some (p.partialFrame ++ bytes.take p.payloadLeft)) := by
    unfold feedPayload
    rw [if_pos ⟨hpos, .inl (by omega)⟩]
    simp only [hall, Nat.sub_self, if_true]
  unfold feedLoop
  rw [if_neg (by omega), feedHeader_of_pos hpos]
  simp only [hdone, Option.toList_some]
  exact List.cons_ne_nil _ _

end FrameParser

/-! ## What the receivers deliver -/

/-- No call of `feed` delivers a frame that is too large. -/
theorem feedAll_bounded {p : FrameParser} (h : p.Bounded) (chunks : List (List UInt8)) :
    ∀ f ∈ (FrameParser.feedAll p chunks).frames, f.length ≤ kMaxFrameBytes := by
  induction chunks generalizing p with
  | nil => exact fun f hf => absurd hf (List.not_mem_nil)
  | cons chunk rest ih =>
    obtain ⟨hframes, hparser⟩ := FrameParser.feedLoop_bounded (2 * chunk.length) h chunk
    intro f hf
    unfold FrameParser.feedAll at hf
    by_cases hok : (p.feed chunk).ok = true
    · simp only [hok, if_true, List.mem_append] at hf
      have hnext : (p.feed chunk).parser.Bounded := by
        have hok' : (FrameParser.feedLoop (2 * chunk.length) p chunk).ok = true := hok
        rw [hok'] at hparser
        exact hparser
      exact hf.elim (hframes f) (ih hnext f)
    · simp only [hok] at hf
      exact hframes f hf

/-- Nor does the blocking reader. -/
theorem streamReadFrame_bounded {s s' : Stream} {frame : List UInt8}
    (h : streamReadFrame s = .ok (some frame, s')) : frame.length ≤ kMaxFrameBytes := by
  unfold streamReadFrame at h
  simp only at h
  split at h
  · cases h
  · split at h
    · cases h
    · split at h
      · cases h
      · next hmax =>
        split at h
        · split at h
          · cases h
          · next hlen =>
            cases h
            rw [Decidable.not_not.1 hlen]
            exact Nat.le_of_not_lt hmax
        · cases h
          exact Nat.zero_le _

theorem streamReadFrames_bounded {fuel : Nat} {s : Stream} {frames : List (List UInt8)}
    (h : streamReadFrames fuel s = .ok frames) : ∀ f ∈ frames, f.length ≤ kMaxFrameBytes := by
  induction fuel generalizing s frames with
  | zero => cases h
  | succ fuel ih =>
    unfold streamReadFrames at h
    cases hread : streamReadFrame s with
    | error e =>
      rw [hread] at h
      cases h
    | ok r =>
      obtain ⟨frame, s'⟩ := r
      rw [hread] at h
      simp only [Decoder.ok_bind] at h
      cases frame with
      | none =>
        cases h
        exact fun f hf => absurd hf (List.not_mem_nil)
      | some frame =>
        simp only at h
        cases hrest : streamReadFrames fuel s' with
        | error e =>
          rw [hrest] at h
          cases h
        | ok rest =>
          rw [hrest] at h
          cases h
          intro f hf
          rcases List.mem_cons.1 hf with rfl | hf
          · exact streamReadFrame_bounded hread
          · exact ih hrest f hf

/-! ## What the senders accept -/

/-- The functions that put a frame on the wire: `enqueue_frame` of a plain stream
(uv_stream_state.hpp:252) and of a TLS stream (tls_stream_state.hpp:469), and
`stream_write_frame` on a stream that is good. -/
inductive FrameSender where
  | plain
  | tls
  | stream
  deriving Repr, DecidableEq

namespace FrameSender

/-- What is on the wire afterwards, or an error. No sender looks at the length. -/
def write (sender : FrameSender) (out frame : List UInt8) : Except Exn (List UInt8) :=
  match sender with
  | plain => .ok (out ++ enqueueFrame frame)
  | tls => .ok (out ++ enqueueFrame frame)
  | stream => .ok (streamWriteFrame out frame)

/-- Send one frame after the other: what is on the wire, and the frames that were accepted. -/
def sendAll (sender : FrameSender) (out : List UInt8) :
    List (List UInt8) → List UInt8 × List (List UInt8)
  | [] => (out, [])
  | frame :: frames =>
    match sender.write out frame with
    | .ok out =>
      let r := sender.sendAll out frames
      (r.1, frame :: r.2)
    | .error _ => sender.sendAll out frames

theorem sendAll_eq (sender : FrameSender) (out : List UInt8) (frames : List (List UInt8)) :
    sender.sendAll out frames = (out ++ wire frames, frames) := by
  induction frames generalizing out with
  | nil => simp [sendAll, wire]
  | cons frame frames ih =>
    have hwrite : sender.write out frame = .ok (out ++ enqueueFrame frame) := by
      cases sender with
      | plain => rfl
      | tls => rfl
      | stream => exact congrArg Except.ok (streamWriteFrame_eq out frame)
    unfold sendAll
    rw [hwrite]
    simp only [ih]
    simp [wire]

end FrameSender

open FrameParser in
/-- **Sender and receiver.** Whichever function sends, and however the wire is cut into calls of
`feed`: each of the two receivers delivers exactly the frames that were accepted, in order, if
and only if none of them is larger than the receivers allow. -/
theorem sendAll_delivered_iff (sender : FrameSender) (frames : List (List UInt8))
    {p : FrameParser} (hp : p.Idle) {chunks : List (List UInt8)}
    (hchunks : chunks.flatten = (sender.sendAll [] frames).1) :
    ((feedAll p chunks).frames = (sender.sendAll [] frames).2 ↔
        ∀ f ∈ frames, f.length ≤ kMaxFrameBytes) ∧
      (streamReadFrames (chunks.flatten.length + 1) ⟨chunks.flatten, true⟩ =
          .ok (sender.sendAll [] frames).2 ↔
        ∀ f ∈ frames, f.length ≤ kMaxFrameBytes) := by
  rw [sender.sendAll_eq, List.nil_append] at hchunks
  rw [sender.sendAll_eq]
  have harrive : (∀ f ∈ frames, f.length ≤ kMaxFrameBytes) →
      (feedAll p chunks).frames = frames ∧
        streamReadFrames (chunks.flatten.length + 1) ⟨chunks.flatten, true⟩ = .ok frames := by
    intro hframes
    have hwire : [] ++ chunks.flatten ++ [] = wire frames := by simpa using hchunks
    obtain ⟨stored, rest, -, hdelivered, hstores, hrest⟩ :=
      feedAll_spec chunks hp.stores hframes hwire
    rw [List.append_nil] at hrest
    subst hrest
    -- all of the wire was fed, so nothing of it is left to deliver
    obtain ⟨rfl, -⟩ := hstores.idle_of_wire fun f hf =>
      hframes f (by rw [hdelivered]; exact List.mem_append_right _ hf)
    refine ⟨by simpa using hdelivered.symm, ?_⟩
    rw [hchunks]
    exact streamReadFrames_wire hframes (Nat.lt_succ_of_le (frames_length_le_wire frames))
  refine ⟨⟨fun hall => ?_, fun hframes => (harrive hframes).1⟩,
    ⟨streamReadFrames_bounded, fun hframes => (harrive hframes).2⟩⟩
  have hbounded := feedAll_bounded hp.bounded chunks
  rwa [hall] at hbounded

/-- Two frames from a TLS sender, cut in the second header. -/
theorem sendAll_delivered_two :
    (FrameParser.feedAll {} [[0, 0, 0, 1, 7, 0, 0], [0, 0]]).frames =
      (FrameSender.tls.sendAll [] [[7], []]).2 :=
  (sendAll_delivered_iff .tls [[7], []] ⟨rfl, rfl, rfl, rfl⟩ rfl).1.2 (by decide)

/-- A frame one byte above the limit is accepted and never delivered. -/
theorem oversized_not_delivered :
    ¬ ∀ (sender : FrameSender) (frames chunks : List (List UInt8)),
      chunks.flatten = (sender.sendAll [] frames).1 →
        (FrameParser.feedAll {} chunks).frames = (sender.sendAll [] frames).2 := by
  intro h
  have hfresh : FrameParser.Bounded {} := ⟨by decide, fun _ => rfl⟩
  have hall := h .plain [List.replicate (kMaxFrameBytes + 1) 0]
    [(FrameSender.plain.sendAll [] [List.replicate (kMaxFrameBytes + 1) 0]).1] (by simp)
  have hlarge := feedAll_bounded hfresh
    [(FrameSender.plain.sendAll [] [List.replicate (kMaxFrameBytes + 1) 0]).1]
    (List.replicate (kMaxFrameBytes + 1) 0) (by
      rw [hall, FrameSender.sendAll_eq]
      exact List.mem_singleton_self _)
  rw [List.length_replicate] at hlarge
  exact absurd hlarge (Nat.not_succ_le_self _)

end Bison
