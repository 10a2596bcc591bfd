import Mathlib.Tactic.IntervalCases
import Bison.Transport.TermReader

/-!
# Markers among terminal bytes

The server-to-client direction of the terminal transport: frames as `BISON<base64>` markers
between segments of ordinary bytes. Two runs are compared up to `Same`, which forgets how
the passed bytes were cut into calls; `Scanning` ties the scanner to the ordinary bytes of the
unfinished segment.

- `run_same`: every way of cutting the line into reads leads to the same scanner.
- `marker_delivers`: **main result**, exactly the frames are delivered and exactly the
  ordinary bytes passed through, up to a proper prefix of the marker that is still held.
-/

namespace Bison

/-- What the client role receives. -/
abbrev marker : Format := TermRole.client.receives

/-! ## Reads do not matter -/

/-- The ordinary bytes given up so far. -/
def TermReader.given (s : TermReader) : List UInt8 := s.passed.flatten ++ s.pendingPassthrough

/-- Two readers that differ only in how the bytes given up are spread over calls. -/
structure Same (s t : TermReader) : Prop where
  given : s.given = t.given
  state : s = { t with passed := s.passed, pendingPassthrough := s.pendingPassthrough }

theorem Same.refl (s : TermReader) : Same s s := ⟨rfl, rfl⟩

/-- Both have given up the same once they give up the same bytes next. -/
theorem Same.give {s t : TermReader} (h : Same s t) (bytes : List UInt8) :
    s.passed.flatten ++ (s.pendingPassthrough ++ bytes) =
      t.passed.flatten ++ (t.pendingPassthrough ++ bytes) := by
  rw [← List.append_assoc, ← List.append_assoc]
  exact congrArg (· ++ bytes) h.given

theorem matchByte_same (f : Format) {s t : TermReader} (h : Same s t) (b : UInt8) :
    Same (s.matchByte f b) (t.matchByte f b) := by
  have hbytes := h.give
  obtain ⟨hgiven, hstate⟩ := h
  generalize s.passed = passed at *
  generalize s.pendingPassthrough = pending at *
  subst hstate
  unfold TermReader.matchByte
  by_cases hmatch : f.seqPrefix[t.matchPos]? = some b
  · simp only [if_pos hmatch]
    split
    · exact ⟨hgiven, rfl⟩
    · exact ⟨hgiven, rfl⟩
  · simp only [if_neg hmatch]
    split
    · exact ⟨by simpa [TermReader.given] using hbytes (t.speculative ++ [b]), rfl⟩
    · split
      · exact ⟨by simpa [TermReader.given] using hbytes t.speculative, rfl⟩
      · exact ⟨by simpa [TermReader.given] using hbytes (t.speculative ++ [b]), rfl⟩

theorem captureByte_same (f : Format) {s t : TermReader} (h : Same s t) (b : UInt8) :
    Same (s.captureByte f b) (t.captureByte f b) := by
  obtain ⟨hgiven, hstate⟩ := h
  generalize s.passed = passed at *
  generalize s.pendingPassthrough = pending at *
  subst hstate
  unfold TermReader.captureByte
  by_cases hend : b = f.terminator
  · simp only [if_pos hend]
    exact ⟨hgiven, rfl⟩
  · simp only [if_neg hend]
    split
    · exact ⟨hgiven, rfl⟩
    · exact ⟨hgiven, rfl⟩

theorem feedByte_same (f : Format) {s t : TermReader} (h : Same s t) (b : UInt8) :
    Same (s.feedByte f b) (t.feedByte f b) := by
  have hcapture := captureByte_same f h b
  have hmatch := matchByte_same f h b
  have hescaped : Same { s with escPending := false } { t with escPending := false } := by
    obtain ⟨hgiven, hstate⟩ := h
    exact ⟨hgiven, by rw [hstate]⟩
  have hmatchEsc := matchByte_same f hescaped b
  have hbytes := h.give [b]
  obtain ⟨hgiven, hstate⟩ := h
  have hseq : s.inSeq = t.inSeq := by rw [hstate]
  have hcsi : s.inCsi = t.inCsi := by rw [hstate]
  have hesc : s.escPending = t.escPending := by rw [hstate]
  rw [hseq, hcsi] at hmatchEsc
  unfold TermReader.feedByte
  rw [hseq, hcsi, hesc]
  split
  · exact hcapture
  · split
    · exact ⟨by simpa [TermReader.given] using hbytes, by rw [hstate]⟩
    · split
      · split
        · exact ⟨by simpa [TermReader.given] using hbytes, by rw [hstate]⟩
        · exact hmatchEsc
      · exact hmatch

theorem flushPending_same {s t : TermReader} (h : Same s t) : Same s.flushPending t := by
  obtain ⟨hgiven, hstate⟩ := h
  unfold TermReader.flushPending
  split
  · exact ⟨hgiven, hstate⟩
  · exact ⟨by simpa [TermReader.given] using hgiven, by rw [hstate]⟩

theorem Same.symm {s t : TermReader} (h : Same s t) : Same t s :=
  ⟨h.given.symm, by rw [h.state]⟩

theorem Same.trans {s t u : TermReader} (h : Same s t) (h' : Same t u) : Same s u :=
  ⟨h.given.trans h'.given, by rw [h.state, h'.state]⟩

/-- What a pause does to the bytes held. -/
theorem idle_same {s t : TermReader} (h : Same s t) : Same s.idle t.idle := by
  have hspeculative : s.speculative = t.speculative := by rw [h.state]
  have hbytes := h.give t.speculative
  have harmed : s.timerArmed = t.timerArmed := by rw [h.state]
  unfold TermReader.idle
  rw [harmed]
  split
  · refine (flushPending_same ?_).trans (flushPending_same (Same.refl _)).symm
    exact ⟨by simpa [TermReader.given, hspeculative] using hbytes, by rw [h.state]⟩
  · exact h

/-- One tick without the reads around it. -/
def TermReader.tick (f : Format) (s : TermReader) : Tick → TermReader
  | .byte b => s.feedByte f b
  | .idle => s.idle

/-- However the line is cut into reads, the scanner ends where it does byte by byte. -/
theorem run_same (f : Format) {s t : TermReader} (h : Same s t) (events : List LineEvent) :
    Same (s.run f events) ((events.flatMap LineEvent.ticks).foldl (TermReader.tick f) t) := by
  have hchunk : ∀ (chunk : List UInt8) {s t : TermReader}, Same s t →
      Same (chunk.foldl (TermReader.feedByte f) s)
        ((chunk.map Tick.byte).foldl (TermReader.tick f) t) := by
    intro chunk
    induction chunk with
    | nil => exact fun h => h
    | cons b rest ih => exact fun h => ih (feedByte_same f h b)
  induction events generalizing s t with
  | nil => exact h
  | cons event rest ih =>
    rw [List.flatMap_cons, List.foldl_append]
    refine ih ?_
    cases event with
    | idle => exact idle_same h
    | read chunk =>
      show Same (if chunk.isEmpty then s else _) _
      by_cases hempty : chunk.isEmpty
      · rw [if_pos hempty]
        rw [List.isEmpty_iff] at hempty
        subst hempty
        exact h
      · rw [if_neg hempty]
        exact flushPending_same (hchunk chunk h)

/-! ## Ordinary bytes -/

/-- Where ordinary bytes stand in an escape sequence. -/
inductive Escape where
  | none
  | esc
  | csi
  deriving Repr, DecidableEq

/-- A CSI sequence is ESC `[` and what follows up to a final byte. -/
def Escape.next : Escape → UInt8 → Escape
  | .csi, b => if 0x40 ≤ b ∧ b ≤ 0x7e then .none else .csi
  | .esc, b => if b = 91 then .csi else if b = escByte then .esc else .none
  | .none, b => if b = escByte then .esc else .none

/-- Where the bytes of a segment leave off. -/
def escapeAfter (bytes : List UInt8) : Escape := bytes.foldl Escape.next .none

theorem escapeAfter_snoc (bytes : List UInt8) (b : UInt8) :
    escapeAfter (bytes ++ [b]) = (escapeAfter bytes).next b := by
  simp [escapeAfter]

/-- The scanner among ordinary bytes, with `k` bytes of the marker held. -/
def scanner (k : Nat) (e : Escape) (passed : List (List UInt8)) (pending : List UInt8)
    (inbox : Inbox) : TermReader :=
  { matchPos := k, speculative := kMarkerPrefix.take k, pendingPassthrough := pending
    escPending := decide (e = .esc), inCsi := decide (e = .csi), timerArmed := decide (0 < k)
    passed := passed, inbox := inbox }

/-- What one ordinary byte changes: the escape state, and either `b` is held or all is given
up in front of it. -/
structure Fed (k : Nat) (e : Escape) (pending : List UInt8) (b : UInt8) (k' : Nat)
    (pending' : List UInt8) : Prop where
  lt : k' < kMarkerPrefix.length
  escape : e.next b ≠ .none → k' = 0
  held : kMarkerPrefix.take k' <:+ kMarkerPrefix.take k ++ [b]
  all : pending' ++ kMarkerPrefix.take k' = pending ++ kMarkerPrefix.take k ++ [b]

/-- No byte of the marker is ESC. -/
theorem marker_ne_esc {k : Nat} {b : UInt8} (h : kMarkerPrefix[k]? = some b) : b ≠ escByte := by
  have hall : kMarkerPrefix.all (fun c => c != escByte) = true := rfl
  have hmem := List.mem_of_getElem? h
  simpa using List.all_eq_true.1 hall b hmem

/-- A byte matched against the marker. -/
theorem matchByte_scanner {k : Nat} (hk : k < kMarkerPrefix.length) {b : UInt8}
    (hopen : kMarkerPrefix.take k ++ [b] ≠ kMarkerPrefix)
    (passed : List (List UInt8)) (pending : List UInt8) (inbox : Inbox) :
    ∃ k' pending', TermReader.matchByte marker (scanner k .none passed pending inbox) b =
        scanner k' (Escape.next .none b) passed pending' inbox ∧
      Fed k .none pending b k' pending' := by
  have hmarker : marker.seqPrefix = kMarkerPrefix := rfl
  unfold TermReader.matchByte
  rw [hmarker]
  by_cases hmatch : kMarkerPrefix[k]? = some b
  · -- one more byte of the marker
    have htake : kMarkerPrefix.take (k + 1) = kMarkerPrefix.take k ++ [b] := by
      rw [List.take_add_one, hmatch]
      rfl
    have hlt : k + 1 < kMarkerPrefix.length := by
      refine Nat.lt_of_le_of_ne hk fun heq => hopen ?_
      rw [← htake, heq, List.take_length]
    have hnext : Escape.next .none b = .none := if_neg (marker_ne_esc hmatch)
    refine ⟨k + 1, pending, ?_, hlt, fun h => absurd hnext h, ?_, ?_⟩
    · rw [if_pos (show kMarkerPrefix[(scanner k .none passed pending inbox).matchPos]? = some b
        from hmatch), hnext]
      show (if k + 1 = kMarkerPrefix.length then _ else _) = _
      rw [if_neg (Nat.ne_of_lt hlt)]
      simp [scanner, htake]
    · rw [htake]
    · rw [htake, List.append_assoc]
  · rw [if_neg (show ¬ kMarkerPrefix[(scanner k .none passed pending inbox).matchPos]? = some b
      from hmatch)]
    by_cases hesc : b = escByte
    · subst hesc
      refine ⟨0, pending ++ kMarkerPrefix.take k ++ [escByte], ?_, by decide, fun _ => rfl,
        List.nil_suffix, by simp⟩
      rfl
    · have hnext : Escape.next .none b = .none := if_neg hesc
      rw [if_neg hesc]
      by_cases hfirst : kMarkerPrefix[0]? = some b
      · -- the marker may start over here
        have hb : b = 66 := (Option.some.inj hfirst).symm
        subst hb
        refine ⟨1, pending ++ kMarkerPrefix.take k, ?_, by decide, fun h => absurd hnext h,
          List.suffix_append _ _, rfl⟩
        rw [if_pos hfirst, hnext]
        rfl
      · refine ⟨0, pending ++ kMarkerPrefix.take k ++ [b], ?_, by decide, fun _ => rfl,
          List.nil_suffix, by simp⟩
        rw [if_neg hfirst, hnext]
        rfl

/-- One ordinary byte. -/
theorem feedByte_scanner {k : Nat} (hk : k < kMarkerPrefix.length) {e : Escape}
    (he : e ≠ .none → k = 0) {b : UInt8} (hopen : kMarkerPrefix.take k ++ [b] ≠ kMarkerPrefix)
    (passed : List (List UInt8)) (pending : List UInt8) (inbox : Inbox) :
    ∃ k' pending', TermReader.feedByte marker (scanner k e passed pending inbox) b =
        scanner k' (e.next b) passed pending' inbox ∧
      Fed k e pending b k' pending' := by
  cases e with
  | none =>
    obtain ⟨k', pending', heq, hfed⟩ := matchByte_scanner hk hopen passed pending inbox
    exact ⟨k', pending', heq, hfed.lt, hfed.escape, hfed.held, hfed.all⟩
  | esc =>
    have hzero : k = 0 := he (by decide)
    subst hzero
    by_cases hbracket : b = 91
    · subst hbracket
      exact ⟨0, pending ++ [91], rfl, by decide, fun _ => rfl, List.nil_suffix, by simp⟩
    · -- the ESC stood alone
      have hnext : Escape.next .esc b = Escape.next .none b := if_neg hbracket
      obtain ⟨k', pending', heq, hfed⟩ := matchByte_scanner hk hopen passed pending inbox
      refine ⟨k', pending', ?_, hfed.lt, hnext ▸ hfed.escape, hfed.held, hfed.all⟩
      rw [hnext, ← heq]
      exact if_neg hbracket
  | csi =>
    have hzero : k = 0 := he (by decide)
    subst hzero
    refine ⟨0, pending ++ [b], ?_, by decide, fun _ => rfl, List.nil_suffix, by simp⟩
    show ({ pendingPassthrough := _, inCsi := !decide _, passed := _, inbox := _ } : TermReader) = _
    by_cases hfinal : 0x40 ≤ b ∧ b ≤ 0x7e
    · simp [Escape.next, scanner, hfinal]
    · simp [Escape.next, scanner, hfinal]

/-- The reader has seen the bytes `seen` since the last frame; `text` is all that is given up
or held. -/
def Scanning (s : TermReader) (seen text : List UInt8) (inbox : Inbox) : Prop :=
  ∃ k passed pending, s = scanner k (escapeAfter seen) passed pending inbox ∧
    k < kMarkerPrefix.length ∧ (escapeAfter seen ≠ .none → k = 0) ∧
    kMarkerPrefix.take k <:+ seen ∧ passed.flatten ++ pending ++ kMarkerPrefix.take k = text

theorem Scanning.byte {s : TermReader} {seen text : List UInt8} {inbox : Inbox}
    (h : Scanning s seen text inbox) {b : UInt8} (hopen : ¬ kMarkerPrefix <:+ seen ++ [b]) :
    Scanning (s.feedByte marker b) (seen ++ [b]) (text ++ [b]) inbox := by
  obtain ⟨k, passed, pending, rfl, hk, he, hheld, rfl⟩ := h
  have hsuffix : ∀ {xs}, xs <:+ kMarkerPrefix.take k ++ [b] → xs <:+ seen ++ [b] := by
    intro xs hxs
    obtain ⟨front, hfront⟩ := hheld
    exact hxs.trans ⟨front, by rw [← hfront, List.append_assoc]⟩
  have hincomplete : kMarkerPrefix.take k ++ [b] ≠ kMarkerPrefix := fun heq =>
    hopen (hsuffix (by rw [heq]))
  obtain ⟨k', pending', heq, hfed⟩ := feedByte_scanner hk he hincomplete passed pending inbox
  rw [heq, ← escapeAfter_snoc]
  refine ⟨k', passed, pending', rfl, hfed.lt, ?_, hsuffix hfed.held, ?_⟩
  · rw [escapeAfter_snoc]
    exact hfed.escape
  · rw [List.append_assoc, hfed.all]
    simp

theorem Scanning.pause {s : TermReader} {seen text : List UInt8} {inbox : Inbox}
    (h : Scanning s seen text inbox) : Scanning s.idle seen text inbox := by
  obtain ⟨k, passed, pending, rfl, hk, he, hheld, rfl⟩ := h
  by_cases hzero : 0 < k
  · -- the timer runs: what was held is given up
    have hidle : TermReader.idle (scanner k (escapeAfter seen) passed pending inbox) =
        scanner 0 (escapeAfter seen) (passed ++ [pending ++ kMarkerPrefix.take k]) [] inbox := by
      have hsome : (pending ++ kMarkerPrefix.take k).isEmpty = false := by
        have hlen : (kMarkerPrefix.take k).length = k := by
          rw [List.length_take]
          omega
        cases hcase : pending ++ kMarkerPrefix.take k with
        | nil =>
          have hnil := congrArg List.length hcase
          simp only [List.length_append, hlen, List.length_nil] at hnil
          omega
        | cons => rfl
      unfold TermReader.idle
      rw [if_pos (show (scanner k (escapeAfter seen) passed pending inbox).timerArmed = true from
        decide_eq_true hzero)]
      show (if (pending ++ kMarkerPrefix.take k).isEmpty then _ else _) = _
      rw [hsome]
      rfl
    rw [hidle]
    exact ⟨0, _, _, rfl, by decide, fun _ => rfl, List.nil_suffix, by simp⟩
  · have hnone : k = 0 := by omega
    subst hnone
    exact ⟨0, passed, pending, rfl, hk, he, hheld, rfl⟩

/-- A segment passes through. -/
theorem Scanning.segment {ticks : List Tick} {s : TermReader} {seen text : List UInt8}
    {inbox : Inbox} (h : Scanning s seen text inbox)
    (hordinary : ¬ kMarkerPrefix <:+: seen ++ bytesOf ticks) :
    Scanning (ticks.foldl (TermReader.tick marker) s) (seen ++ bytesOf ticks)
      (text ++ bytesOf ticks) inbox := by
  induction ticks generalizing s seen text with
  | nil => simpa [bytesOf] using h
  | cons t rest ih =>
    cases t with
    | idle => exact ih h.pause hordinary
    | byte b =>
      have hbytes : bytesOf (.byte b :: rest) = b :: bytesOf rest := rfl
      have hsplit : ∀ xs, xs ++ bytesOf (.byte b :: rest) = xs ++ [b] ++ bytesOf rest := by
        intro xs
        rw [hbytes]
        simp
      rw [hsplit] at hordinary
      rw [hsplit, hsplit]
      refine ih (h.byte fun hend => hordinary ?_) hordinary
      exact hend.isInfix.trans (List.prefix_append _ _).isInfix

/-! ## A marker -/

/-- The first byte of a marker, wherever ordinary bytes left off outside a CSI sequence. -/
theorem feedByte_first {k : Nat} (hk : k < kMarkerPrefix.length) {e : Escape}
    (he : e ≠ .none → k = 0) (hcsi : e ≠ .csi)
    (passed : List (List UInt8)) (pending : List UInt8) (inbox : Inbox) :
    TermReader.feedByte marker (scanner k e passed pending inbox) 66 =
      scanner 1 .none passed (pending ++ kMarkerPrefix.take k) inbox := by
  have hlt : k < 6 := hk
  cases e with
  | csi => exact absurd rfl hcsi
  | esc =>
    rw [he (by decide)]
    simp only [List.take_zero, List.append_nil]
    rfl
  | none =>
    interval_cases k
    · simp only [List.take_zero, List.append_nil]
      rfl
    all_goals rfl

/-- The body of a marker is kept as it comes, at any length. -/
theorem feedByte_body {body : List UInt8} (hplain : ∀ c ∈ body, c ≠ kMarkerSuffix)
    (passed : List (List UInt8)) (pending : List UInt8) (inbox : Inbox) (seen : List UInt8) :
    body.foldl (TermReader.feedByte marker)
        { inSeq := true, capture := seen, passed := passed, pendingPassthrough := pending
          inbox := inbox } =
      { inSeq := true, capture := seen ++ body, passed := passed, pendingPassthrough := pending
        inbox := inbox } := by
  induction body generalizing seen with
  | nil => simp
  | cons c rest ih =>
    have hc : c ≠ kMarkerSuffix := hplain c (List.mem_cons_self ..)
    have hbyte : TermReader.feedByte marker
        { inSeq := true, capture := seen, passed := passed, pendingPassthrough := pending
          inbox := inbox } c =
        { inSeq := true, capture := seen ++ [c], passed := passed, pendingPassthrough := pending
          inbox := inbox } := by
      show (if c = kMarkerSuffix then _ else _) = _
      rw [if_neg hc]
      exact if_neg fun h => Bool.noConfusion h.1
    rw [List.foldl_cons, hbyte, ih fun x hx => hplain x (List.mem_cons_of_mem _ hx)]
    simp

/-- Base64 text does not hold the suffix of a marker. -/
theorem base64Encode_ne_suffix (bytes : List UInt8) :
    ∀ c ∈ base64Encode bytes, c ≠ kMarkerSuffix := by
  have halphabet : kBase64Chars.all (fun c => c != kMarkerSuffix) = true := rfl
  intro c hc
  rcases base64Encode_chars bytes c hc with rfl | hc
  · decide
  · simpa using List.all_eq_true.1 halphabet c hc

/-- A marker is recognised and its frame queued; nothing ordinary is lost or added. -/
theorem Scanning.frame {s : TermReader} {seen text : List UInt8} {inbox : Inbox}
    (h : Scanning s seen text inbox) (hcsi : escapeAfter seen ≠ .csi) (frame : List UInt8) :
    Scanning (((sendFrame .server frame).map Tick.byte).foldl (TermReader.tick marker) s) [] text
      (inbox.push frame) := by
  obtain ⟨k, passed, pending, rfl, hk, he, hheld, rfl⟩ := h
  have hsend : sendFrame .server frame =
      66 :: ([73, 83, 79, 78, 60] ++ base64Encode frame ++ [kMarkerSuffix]) := rfl
  rw [List.foldl_map]
  show Scanning ((sendFrame .server frame).foldl (TermReader.feedByte marker) _) _ _ _
  rw [hsend, List.foldl_cons, feedByte_first hk he hcsi]
  generalize hgiven : pending ++ kMarkerPrefix.take k = given
  have hbegin : [73, 83, 79, 78, 60].foldl (TermReader.feedByte marker)
      (scanner 1 .none passed given inbox) =
      { inSeq := true, passed := passed, pendingPassthrough := given, inbox := inbox } := rfl
  rw [List.foldl_append, List.foldl_append, hbegin,
    feedByte_body (base64Encode_ne_suffix frame), List.nil_append, List.foldl_cons, List.foldl_nil]
  have hend : TermReader.feedByte marker
      { inSeq := true, capture := base64Encode frame, passed := passed
        pendingPassthrough := given, inbox := inbox } kMarkerSuffix =
      scanner 0 .none passed given (inbox.push frame) := by
    show ({ inbox := Inbox.completeMarker _ _, passed := _, pendingPassthrough := _ } :
      TermReader) = _
    unfold Inbox.completeMarker
    rw [base64Decode_encode]
    rfl
  rw [hend]
  refine ⟨0, passed, given, rfl, by decide, fun _ => rfl, List.nil_suffix, ?_⟩
  rw [← hgiven]
  simp

/-! ## A line of segments and markers -/

/-- Ordinary bytes with markers among them: each frame with the segment in front of it, and
what comes after the last. No segment holds a whole marker prefix, and none in front of a
frame leaves a CSI sequence unfinished. -/
structure MarkerLine where
  before : List (List Tick × List UInt8)
  after : List Tick
  ordinary : ∀ part ∈ before, ¬ kMarkerPrefix <:+: bytesOf part.1
  ordinary_after : ¬ kMarkerPrefix <:+: bytesOf after
  finished : ∀ part ∈ before, escapeAfter (bytesOf part.1) ≠ .csi

namespace MarkerLine

/-- What is on the line for one frame and its segment. There is no pause inside a frame. -/
def partTicks (part : List Tick × List UInt8) : List Tick :=
  part.1 ++ (sendFrame .server part.2).map .byte

/-- The line as it arrives. -/
def ticks (line : MarkerLine) : List Tick := line.before.flatMap partTicks ++ line.after

/-- The frames sent. -/
def frames (line : MarkerLine) : List (List UInt8) := line.before.map Prod.snd

/-- The ordinary bytes sent. -/
def ordinaryBytes (line : MarkerLine) : List UInt8 :=
  line.before.flatMap (fun part => bytesOf part.1) ++ bytesOf line.after

end MarkerLine

/-- All the frames with their segments. -/
theorem Scanning.parts {parts : List (List Tick × List UInt8)}
    (hordinary : ∀ part ∈ parts, ¬ kMarkerPrefix <:+: bytesOf part.1)
    (hfinished : ∀ part ∈ parts, escapeAfter (bytesOf part.1) ≠ .csi)
    {s : TermReader} {text : List UInt8} {inbox : Inbox} (h : Scanning s [] text inbox) :
    Scanning ((parts.flatMap MarkerLine.partTicks).foldl (TermReader.tick marker) s) []
      (text ++ parts.flatMap fun part => bytesOf part.1)
      { inbox with recvQueue := inbox.recvQueue ++ parts.map Prod.snd } := by
  induction parts generalizing s text inbox with
  | nil => simpa using h
  | cons part rest ih =>
    have hsegment : Scanning (part.1.foldl (TermReader.tick marker) s) ([] ++ bytesOf part.1)
        (text ++ bytesOf part.1) inbox := h.segment (hordinary part (List.mem_cons_self ..))
    have hframe := hsegment.frame (hfinished part (List.mem_cons_self ..)) part.2
    have hrest := ih (fun p hp => hordinary p (List.mem_cons_of_mem _ hp))
      (fun p hp => hfinished p (List.mem_cons_of_mem _ hp)) hframe
    rw [List.flatMap_cons, MarkerLine.partTicks, List.foldl_append, List.foldl_append]
    simpa [Inbox.push] using hrest

/-- **Main result.** However the line is cut into reads, exactly the frames are delivered, once
each and in order, and exactly the ordinary bytes passed through, but for a proper prefix of the
marker that is still held. -/
theorem marker_delivers (line : MarkerLine) (events : List LineEvent)
    (h : events.flatMap LineEvent.ticks = line.ticks) :
    (TermReader.run marker {} events).inbox.recvQueue = line.frames ∧
      (TermReader.run marker {} events).passed.flatten ++
        (TermReader.run marker {} events).speculative = line.ordinaryBytes ∧
      ∃ k < kMarkerPrefix.length,
        (TermReader.run marker {} events).speculative = kMarkerPrefix.take k := by
  have hfresh : Scanning {} [] [] {} :=
    ⟨0, [], [], rfl, by decide, fun _ => rfl, List.nil_suffix, rfl⟩
  have hparts := hfresh.parts line.ordinary line.finished
  have hline : Scanning _ ([] ++ bytesOf line.after) _ _ := hparts.segment line.ordinary_after
  rw [← List.foldl_append, ← MarkerLine.ticks, ← h] at hline
  -- the scanner of the run and that of the line differ in how bytes were passed on
  obtain ⟨hgiven, hstate⟩ := run_same marker (Same.refl {}) events
  have hpending : (TermReader.run marker {} events).pendingPassthrough = [] :=
    run_pending marker rfl events
  obtain ⟨k, passed, pending, hscanner, hk, -, -, htext⟩ := hline
  rw [hscanner] at hgiven hstate
  have hspeculative : (TermReader.run marker {} events).speculative = kMarkerPrefix.take k := by
    rw [hstate]
    rfl
  refine ⟨?_, ?_, k, hk, hspeculative⟩
  · rw [hstate]
    simp [scanner, MarkerLine.frames]
  · have hpassed : (TermReader.run marker {} events).passed.flatten =
        passed.flatten ++ pending := by
      have := hgiven
      rw [TermReader.given, hpending, List.append_nil] at this
      exact this
    rw [hpassed, hspeculative, htext]
    simp [MarkerLine.ordinaryBytes]

/-- The Down key, the first letters of a marker, a frame, and the beginning of another marker. -/
def keysLine : MarkerLine where
  before := [([.byte escByte, .byte 91, .byte 66, .idle, .byte 66, .byte 73], [42])]
  after := [.byte 66, .byte 73, .byte 83]
  ordinary := by
    intro part hpart
    rw [List.mem_singleton.1 hpart]
    exact fun h => absurd h.length_le (by decide)
  ordinary_after := fun h => absurd h.length_le (by decide)
  finished := by
    intro part hpart
    rw [List.mem_singleton.1 hpart]
    decide

theorem marker_delivers_keys :
    (TermReader.run marker {}
      [.read [escByte, 91], .read [66], .idle, .read (66 :: 73 :: (sendFrame .server [42]).take 4),
        .read ((sendFrame .server [42]).drop 4 ++ [66, 73, 83])]).inbox.recvQueue = [[42]] :=
  (marker_delivers keysLine _ (by decide)).1

end Bison
