import Mathlib.Data.List.Basic
import Mathlib.Data.List.Chain

/-!
# The line discipline of the terminal

In raw mode the terminal does not edit lines, so `on_passthrough` (term/scoped_terminal_config) does
it: what is typed is echoed and kept back until Enter, and Backspace takes back the last of it.

- `processPassthroughChunk`: the editing, byte by byte. `onPassthrough`: one chunk.
- `Typing`: the editing of what the bytes stand for, character by character.
- `onPassthrough_chunks`: where the chunks are cut does not matter.
- `line_discipline_iff`: **main result**, the two agree if and only if no Enter, and no Backspace on
  an empty line, comes in a line from which a character of several bytes has been erased: Backspace
  takes back one byte.
-/

namespace Bison

namespace LineDiscipline

/-- What `process_passthrough_chunk` reads and writes (scoped_terminal_config.cpp:13). -/
structure Passthrough where
  lastWasCr : Bool := false
  lineBuffer : List UInt8 := []
  toEcho : List UInt8 := []
  toDeliver : List UInt8 := []

/-- Move back, erase, move back. -/
def eraseSequence : List UInt8 := [0x08, 0x20, 0x08]

/-- One turn of the loop. -/
def processByte (s : Passthrough) (c : UInt8) : Passthrough :=
  if s.lastWasCr ∧ c = 0x0a then
    { s with lastWasCr := false }
  else
    let s := { s with lastWasCr := decide (c = 0x0d) }
    let c := if c = 0x0d then 0x0a else c
    if c = 0x0a then
      { s with
        lineBuffer := []
        toDeliver := s.toDeliver ++ (s.lineBuffer ++ [0x0a])
        toEcho := s.toEcho ++ [0x0a] }
    else if c = 0x08 ∨ c = 0x7f then
      if s.lineBuffer = [] then s
      else { s with
        lineBuffer := s.lineBuffer.dropLast
        toEcho := s.toEcho ++ eraseSequence }
    else { s with
      lineBuffer := s.lineBuffer ++ [c]
      toEcho := s.toEcho ++ [c] }

/-- `process_passthrough_chunk` (scoped_terminal_config.cpp:13). -/
def processPassthroughChunk (s : Passthrough) (chunk : List UInt8) : Passthrough :=
  chunk.foldl processByte s

/-- The input side of the terminal, and what has been written to the two pipes. -/
structure TerminalInput where
  passthroughLastWasCr : Bool := false
  passthroughLineBuffer : List UInt8 := []
  inputPipeWriteClosed : Bool := false
  echoed : List UInt8 := []
  delivered : List UInt8 := []

/-- `on_passthrough` without a sink (scoped_terminal_config_posix.cpp:179). Nothing can be written
to the pipe once it is closed. -/
def onPassthrough (t : TerminalInput) (chunk : List UInt8) : TerminalInput :=
  if chunk = [] then
    { t with inputPipeWriteClosed := true }
  else
    let s := processPassthroughChunk
      { lastWasCr := t.passthroughLastWasCr, lineBuffer := t.passthroughLineBuffer } chunk
    { t with
      passthroughLastWasCr := s.lastWasCr
      passthroughLineBuffer := s.lineBuffer
      echoed := t.echoed ++ s.toEcho
      delivered := if t.inputPipeWriteClosed then t.delivered else t.delivered ++ s.toDeliver }

/-! ## The chunks -/

/-- The output goes after what is there. -/
def Passthrough.behind (s : Passthrough) (echo deliver : List UInt8) : Passthrough :=
  { s with toEcho := echo ++ s.toEcho, toDeliver := deliver ++ s.toDeliver }

theorem processByte_behind (s : Passthrough) (echo deliver : List UInt8) (c : UInt8) :
    processByte (s.behind echo deliver) c =
      (processByte s c).behind echo deliver := by
  unfold processByte Passthrough.behind
  simp only []
  split_ifs <;> simp

theorem processPassthroughChunk_behind (s : Passthrough) (echo deliver chunk : List UInt8) :
    processPassthroughChunk (s.behind echo deliver) chunk =
      (processPassthroughChunk s chunk).behind echo deliver := by
  unfold processPassthroughChunk
  induction chunk generalizing s with
  | nil => rfl
  | cons c chunk ih => rw [List.foldl_cons, List.foldl_cons, processByte_behind, ih]

theorem processPassthroughChunk_append (s : Passthrough) (chunk rest : List UInt8) :
    processPassthroughChunk s (chunk ++ rest) =
      processPassthroughChunk (processPassthroughChunk s chunk) rest :=
  List.foldl_append

/-- The terminal after bytes that have been processed. -/
def TerminalInput.after (s : Passthrough) : TerminalInput where
  passthroughLastWasCr := s.lastWasCr
  passthroughLineBuffer := s.lineBuffer
  echoed := s.toEcho
  delivered := s.toDeliver

theorem onPassthrough_after (s : Passthrough) {chunk : List UInt8} (h : chunk ≠ []) :
    onPassthrough (TerminalInput.after s) chunk =
      TerminalInput.after (processPassthroughChunk s chunk) := by
  have hbehind := processPassthroughChunk_behind
    { lastWasCr := s.lastWasCr, lineBuffer := s.lineBuffer } s.toEcho s.toDeliver chunk
  have hstart : Passthrough.behind { lastWasCr := s.lastWasCr, lineBuffer := s.lineBuffer }
      s.toEcho s.toDeliver = s := by
    simp only [Passthrough.behind, List.append_nil]
  rw [hstart] at hbehind
  rw [hbehind, onPassthrough, if_neg h]
  rfl

/-- Chunks come to the same as their bytes. -/
theorem onPassthrough_chunks (s : Passthrough) (chunks : List (List UInt8))
    (h : ∀ chunk ∈ chunks, chunk ≠ []) :
    chunks.foldl onPassthrough (TerminalInput.after s) =
      TerminalInput.after (processPassthroughChunk s chunks.flatten) := by
  induction chunks generalizing s with
  | nil => rfl
  | cons chunk chunks ih =>
    rw [List.foldl_cons, onPassthrough_after s (h chunk List.mem_cons_self),
      ih _ fun c hc => h c (List.mem_cons_of_mem _ hc), List.flatten_cons,
      processPassthroughChunk_append]

/-! ## What is typed -/

/-- The bytes of Enter. -/
inductive Enter where
  | cr
  | lf
  | crlf
deriving DecidableEq

def Enter.bytes : Enter → List UInt8
  | .cr => [0x0d]
  | .lf => [0x0a]
  | .crlf => [0x0d, 0x0a]

/-- What a key sends: a character that is not one of the control codes of ASCII, Enter, Backspace
or Delete. -/
inductive Symbol where
  | char (c : Char) (typed : 0x20 ≤ c.toNat ∧ c.toNat ≠ 0x7f)
  | enter (sent : Enter)
  | backspace
  | delete

def Symbol.bytes : Symbol → List UInt8
  | .char c _ => String.utf8EncodeChar c
  | .enter sent => sent.bytes
  | .backspace => [0x08]
  | .delete => [0x7f]

/-- What can come after a symbol: the LF directly after a CR belongs to it. -/
def Symbol.Follows (before next : Symbol) : Prop :=
  before = .enter .cr → next ≠ .enter .lf

/-- A sequence of symbols, as their bytes are read. -/
structure Typed where
  symbols : List Symbol
  follows : symbols.IsChain Symbol.Follows

def Typed.bytes (typed : Typed) : List UInt8 := typed.symbols.flatMap Symbol.bytes

/-- The line as it is typed, and what comes of it. -/
structure Typing where
  line : List Char := []
  /-- A character of several bytes has been erased from the line. -/
  torn : Bool := false
  echoed : List UInt8 := []
  delivered : List UInt8 := []

/-- The UTF-8 bytes of a line. -/
def lineBytes (line : List Char) : List UInt8 := line.flatMap String.utf8EncodeChar

/-- The last character goes, if there is one, and one erase sequence is echoed for it. -/
def Typing.erase (t : Typing) : Typing :=
  match t.line.getLast? with
  | none => t
  | some c => { t with
      line := t.line.dropLast
      torn := t.torn || decide (1 < c.utf8Size)
      echoed := t.echoed ++ eraseSequence }

/-- What a symbol is for. -/
def Typing.type (t : Typing) : Symbol → Typing
  | .char c _ => { t with
      line := t.line ++ [c]
      echoed := t.echoed ++ String.utf8EncodeChar c }
  | .enter _ => { t with
      line := []
      torn := false
      echoed := t.echoed ++ [0x0a]
      delivered := t.delivered ++ (lineBytes t.line ++ [0x0a]) }
  | .backspace => t.erase
  | .delete => t.erase

/-- The result of the whole sequence. -/
def Typed.result (typed : Typed) : Typing := typed.symbols.foldl Typing.type {}

/-- That a symbol finds nothing left of an erased character that would show. -/
def Typing.Whole (t : Typing) : Symbol → Prop
  | .char _ _ => True
  | .enter _ => t.torn = false
  | .backspace => t.line = [] → t.torn = false
  | .delete => t.line = [] → t.torn = false

/-- The same for all symbols. -/
def Typing.AllWhole : Typing → List Symbol → Prop
  | _, [] => True
  | t, a :: symbols => t.Whole a ∧ (t.type a).AllWhole symbols

/-- No Enter, and no Backspace on an empty line, comes in a line from which a character of several
bytes has been erased. -/
def Typed.Whole (typed : Typed) : Prop := Typing.AllWhole {} typed.symbols

/-! ## The bytes of a symbol -/

/-- A byte that is neither a line end nor an erasure. -/
def Plain (b : UInt8) : Prop := b ≠ 0x0a ∧ b ≠ 0x0d ∧ b ≠ 0x08 ∧ b ≠ 0x7f

theorem plain_of_le {b : UInt8} (h : 0x80 ≤ b.toNat) : Plain b := by
  refine ⟨?_, ?_, ?_, ?_⟩ <;> rintro rfl <;> revert h <;> decide

theorem plain_utf8EncodeChar {c : Char} (h : 0x20 ≤ c.toNat ∧ c.toNat ≠ 0x7f) :
    ∀ b ∈ String.utf8EncodeChar c, Plain b := by
  have hlead {n k : Nat} (hk : 0x80 ≤ k) (hn : n + k < 0x100) : Plain (UInt8.ofNat (n + k)) := by
    apply plain_of_le
    rw [UInt8.toNat_ofNat', Nat.mod_eq_of_lt hn]
    omega
  intro b hb
  simp only [String.utf8EncodeChar] at hb
  split_ifs at hb with hone htwo hthree <;>
    simp only [List.mem_cons, List.not_mem_nil, or_false] at hb
  · have hval : b.toNat = c.toNat := by
      rw [hb, UInt8.toNat_ofNat']
      exact Nat.mod_eq_of_lt (hone.trans_lt (by decide))
    refine ⟨?_, ?_, ?_, ?_⟩ <;> rintro rfl <;> revert h <;> rw [← hval] <;> decide
  · rcases hb with rfl | rfl <;> exact hlead (by decide) (by omega)
  · rcases hb with rfl | rfl | rfl <;> exact hlead (by decide) (by omega)
  · rcases hb with rfl | rfl | rfl | rfl <;> exact hlead (by decide) (by omega)

theorem processByte_plain (s : Passthrough) {b : UInt8} (h : Plain b) :
    processByte s b = { s with
      lastWasCr := false
      lineBuffer := s.lineBuffer ++ [b]
      toEcho := s.toEcho ++ [b] } := by
  obtain ⟨hlf, hcr, hbackspace, hdelete⟩ := h
  simp only [processByte, hlf, hcr, hbackspace, hdelete, and_false, or_self, if_false,
    decide_false]

theorem processPassthroughChunk_plain (s : Passthrough) {bytes : List UInt8} (hne : bytes ≠ [])
    (h : ∀ b ∈ bytes, Plain b) :
    processPassthroughChunk s bytes = { s with
      lastWasCr := false
      lineBuffer := s.lineBuffer ++ bytes
      toEcho := s.toEcho ++ bytes } := by
  induction bytes generalizing s with
  | nil => exact absurd rfl hne
  | cons b bytes ih =>
    have hfirst := processByte_plain s (h b List.mem_cons_self)
    rw [processPassthroughChunk, List.foldl_cons, hfirst]
    cases bytes with
    | nil => rfl
    | cons b' bytes =>
      have hrest := ih { s with
        lastWasCr := false
        lineBuffer := s.lineBuffer ++ [b]
        toEcho := s.toEcho ++ [b] } (List.cons_ne_nil _ _)
        fun c hc => h c (List.mem_cons_of_mem _ hc)
      rw [processPassthroughChunk] at hrest
      rw [hrest]
      simp only [List.append_assoc, List.singleton_append]

/-- The end of the line. -/
def Passthrough.enter (s : Passthrough) (lastWasCr : Bool) : Passthrough where
  lastWasCr := lastWasCr
  lineBuffer := []
  toEcho := s.toEcho ++ [0x0a]
  toDeliver := s.toDeliver ++ (s.lineBuffer ++ [0x0a])

/-- The end of its last byte. -/
def Passthrough.erase (s : Passthrough) : Passthrough :=
  if s.lineBuffer = [] then { s with lastWasCr := false }
  else { s with
    lastWasCr := false
    lineBuffer := s.lineBuffer.dropLast
    toEcho := s.toEcho ++ eraseSequence }

/-- What the bytes of a symbol do. -/
def Passthrough.symbol (s : Passthrough) : Symbol → Passthrough
  | .char c _ => { s with
      lastWasCr := false
      lineBuffer := s.lineBuffer ++ String.utf8EncodeChar c
      toEcho := s.toEcho ++ String.utf8EncodeChar c }
  | .enter sent => s.enter (decide (sent = .cr))
  | .backspace => s.erase
  | .delete => s.erase

theorem processPassthroughChunk_symbol {s : Passthrough} {a : Symbol}
    (h : s.lastWasCr = true → a ≠ .enter .lf) :
    processPassthroughChunk s a.bytes = s.symbol a := by
  cases a with
  | char c typed =>
    exact processPassthroughChunk_plain s String.utf8EncodeChar_ne_nil
      (plain_utf8EncodeChar typed)
  | enter sent =>
    cases sent with
    | cr => simp [processPassthroughChunk, processByte, Symbol.bytes, Enter.bytes,
        Passthrough.symbol, Passthrough.enter]
    | lf =>
      have hcr : s.lastWasCr = false := Bool.eq_false_iff.2 fun hcr => h hcr rfl
      simp [processPassthroughChunk, processByte, Symbol.bytes, Enter.bytes,
        Passthrough.symbol, Passthrough.enter, hcr]
    | crlf => simp [processPassthroughChunk, processByte, Symbol.bytes, Enter.bytes,
        Passthrough.symbol, Passthrough.enter]
  | backspace =>
    simp [processPassthroughChunk, processByte, Symbol.bytes, Passthrough.symbol,
      Passthrough.erase]
  | delete =>
    simp [processPassthroughChunk, processByte, Symbol.bytes, Passthrough.symbol,
      Passthrough.erase]

/-! ## The two of them -/

variable {t : Typing} {s : Passthrough} {a : Symbol} {symbols : List Symbol}

/-- The bytes are those of the line, or there are more of them. -/
structure Tracks (t : Typing) (s : Passthrough) : Prop where
  echoed : s.toEcho = t.echoed
  delivered : s.toDeliver = t.delivered
  whole : t.torn = false → s.lineBuffer = lineBytes t.line
  torn : t.torn = true → (lineBytes t.line).length < s.lineBuffer.length

/-- More has been echoed or delivered, which nothing takes back. -/
structure Ahead (t : Typing) (s : Passthrough) : Prop where
  line : (lineBytes t.line).length ≤ s.lineBuffer.length
  echoed : t.echoed.length ≤ s.toEcho.length
  delivered : t.delivered.length ≤ s.toDeliver.length
  more : t.echoed.length < s.toEcho.length ∨ t.delivered.length < s.toDeliver.length

theorem lineBytes_append (line : List Char) (c : Char) :
    lineBytes (line ++ [c]) = lineBytes line ++ String.utf8EncodeChar c := by
  rw [lineBytes, List.flatMap_append, List.flatMap_singleton]
  rfl

theorem Tracks.line_le (h : Tracks t s) : (lineBytes t.line).length ≤ s.lineBuffer.length := by
  cases htorn : t.torn with
  | false => exact (congrArg List.length (h.whole htorn)).ge
  | true => exact (h.torn htorn).le

/-- An erased line, seen from its last character. -/
theorem Typing.erase_append {line : List Char} {c : Char} (hline : t.line = line ++ [c]) :
    t.erase = { t with
      line := line
      torn := t.torn || decide (1 < c.utf8Size)
      echoed := t.echoed ++ eraseSequence } := by
  unfold Typing.erase
  rw [hline, List.getLast?_concat, List.dropLast_concat]

theorem Typing.erase_nil (hline : t.line = []) : t.erase = t := by
  unfold Typing.erase
  rw [hline]
  rfl

theorem Passthrough.erase_ne_nil (h : s.lineBuffer ≠ []) :
    s.erase = { s with
      lastWasCr := false
      lineBuffer := s.lineBuffer.dropLast
      toEcho := s.toEcho ++ eraseSequence } :=
  if_neg h

theorem Passthrough.erase_nil (h : s.lineBuffer = []) : s.erase = { s with lastWasCr := false } :=
  if_pos h

theorem ne_nil_of_length {line : List Char} {c : Char} {buffer : List UInt8}
    (h : (lineBytes (line ++ [c])).length ≤ buffer.length) : buffer ≠ [] := by
  rintro rfl
  rw [lineBytes_append, List.length_append, String.length_utf8EncodeChar] at h
  have hpos := c.utf8Size_pos
  simp at h
  omega

theorem Tracks.erase (h : Tracks t s) (hwhole : t.line = [] → t.torn = false) :
    Tracks t.erase s.erase := by
  rcases List.eq_nil_or_concat' t.line with hline | ⟨line, c, hline⟩
  · have hbuffer : s.lineBuffer = [] := by
      rw [h.whole (hwhole hline), hline]
      rfl
    rw [Typing.erase_nil hline, Passthrough.erase_nil hbuffer]
    exact ⟨h.echoed, h.delivered, h.whole, h.torn⟩
  · have hle := h.line_le
    rw [hline] at hle
    rw [Typing.erase_append hline, Passthrough.erase_ne_nil (ne_nil_of_length hle)]
    refine ⟨congrArg (· ++ eraseSequence) h.echoed, h.delivered, ?_, ?_⟩
    · intro hnow
      obtain ⟨htorn, hsize⟩ := Bool.or_eq_false_iff.1 hnow
      have hone : c.utf8Size = 1 := by
        have hpos := c.utf8Size_pos
        have hle := of_decide_eq_false hsize
        omega
      show s.lineBuffer.dropLast = lineBytes line
      rw [h.whole htorn, hline, lineBytes_append, String.utf8EncodeChar_eq_singleton hone,
        List.dropLast_concat]
    · intro hnow
      have hpos := c.utf8Size_pos
      show (lineBytes line).length < s.lineBuffer.dropLast.length
      rw [lineBytes_append, List.length_append, String.length_utf8EncodeChar] at hle
      rw [List.length_dropLast]
      rcases Bool.or_eq_true_iff.1 hnow with htorn | hsize
      · have hlt := h.torn htorn
        rw [hline, lineBytes_append, List.length_append, String.length_utf8EncodeChar] at hlt
        omega
      · have hmore := of_decide_eq_true hsize
        omega

theorem Tracks.type (h : Tracks t s) (hwhole : t.Whole a) : Tracks (t.type a) (s.symbol a) := by
  cases a with
  | char c typed =>
    refine ⟨congrArg (· ++ _) h.echoed, h.delivered, ?_, ?_⟩
    · intro htorn
      exact (congrArg (· ++ _) (h.whole htorn)).trans (lineBytes_append t.line c).symm
    · intro htorn
      have hlt := h.torn htorn
      show (lineBytes (t.line ++ [c])).length < (s.lineBuffer ++ _).length
      rw [lineBytes_append, List.length_append, List.length_append]
      omega
  | enter sent =>
    refine ⟨congrArg (· ++ _) h.echoed, ?_, fun _ => rfl, fun htorn => nomatch htorn⟩
    show s.toDeliver ++ (s.lineBuffer ++ _) = t.delivered ++ (lineBytes t.line ++ _)
    rw [h.delivered, h.whole hwhole]
  | backspace => exact h.erase hwhole
  | delete => exact h.erase hwhole

theorem Ahead.erase (h : Ahead t s) : Ahead t.erase s.erase := by
  have hline := h.line
  have hechoed := h.echoed
  have hmore := h.more
  rcases List.eq_nil_or_concat' t.line with hnil | ⟨line, c, hconcat⟩
  · rw [Typing.erase_nil hnil]
    by_cases hbuffer : s.lineBuffer = []
    · rw [Passthrough.erase_nil hbuffer]
      exact ⟨hline, hechoed, h.delivered, hmore⟩
    · rw [Passthrough.erase_ne_nil hbuffer]
      refine ⟨?_, ?_, h.delivered, ?_⟩
      · rw [hnil]
        exact Nat.zero_le _
      · rw [List.length_append]
        omega
      · refine hmore.imp (fun hlt => ?_) id
        rw [List.length_append]
        exact hlt.trans_le (Nat.le_add_right _ _)
  · rw [hconcat] at hline
    rw [Typing.erase_append hconcat, Passthrough.erase_ne_nil (ne_nil_of_length hline)]
    have hpos := c.utf8Size_pos
    rw [lineBytes_append, List.length_append, String.length_utf8EncodeChar] at hline
    refine ⟨?_, ?_, h.delivered, ?_⟩
    · rw [List.length_dropLast]
      show (lineBytes line).length ≤ _
      omega
    · rw [List.length_append, List.length_append]
      omega
    · refine hmore.imp (fun hlt => ?_) id
      rw [List.length_append, List.length_append]
      exact Nat.add_lt_add_right hlt _

theorem Ahead.type (h : Ahead t s) : Ahead (t.type a) (s.symbol a) := by
  have hline := h.line
  have hechoed := h.echoed
  have hdelivered := h.delivered
  have hmore := h.more
  cases a with
  | char c typed =>
    constructor <;> simp only [Typing.type, Passthrough.symbol, lineBytes_append,
      List.length_append] <;> omega
  | enter sent =>
    constructor <;> simp only [Typing.type, Passthrough.symbol, Passthrough.enter,
      List.length_append]
    · exact Nat.zero_le _
    all_goals omega
  | backspace => exact h.erase
  | delete => exact h.erase

/-- Backspace on an empty line that is not empty as bytes. -/
theorem Tracks.ahead_erase (h : Tracks t s) (hline : t.line = []) (htorn : t.torn = true) :
    Ahead t.erase s.erase := by
  have hlt := h.torn htorn
  have hne : s.lineBuffer ≠ [] := List.ne_nil_of_length_pos (Nat.zero_lt_of_lt hlt)
  rw [Typing.erase_nil hline, Passthrough.erase_ne_nil hne]
  refine ⟨?_, ?_, (congrArg List.length h.delivered).ge, .inl ?_⟩
  · rw [hline]
    exact Nat.zero_le _
  · rw [List.length_append, h.echoed]
    exact Nat.le_add_right _ _
  · rw [List.length_append, h.echoed]
    exact Nat.lt_add_of_pos_right (by decide)

/-- A symbol that finds more of the line than there is. -/
theorem Tracks.ahead (h : Tracks t s) (hwhole : ¬ t.Whole a) : Ahead (t.type a) (s.symbol a) := by
  cases a with
  | char c typed => exact absurd trivial hwhole
  | enter sent =>
    have hlt := h.torn (Bool.of_not_eq_false hwhole)
    constructor <;> simp only [Typing.type, Passthrough.symbol, Passthrough.enter,
      List.length_append, h.echoed, h.delivered]
    · exact Nat.zero_le _
    · exact Nat.le_refl _
    all_goals omega
  | backspace =>
    obtain ⟨hline, htorn⟩ := Classical.not_imp.1 hwhole
    exact h.ahead_erase hline (Bool.of_not_eq_false htorn)
  | delete =>
    obtain ⟨hline, htorn⟩ := Classical.not_imp.1 hwhole
    exact h.ahead_erase hline (Bool.of_not_eq_false htorn)

/-! ## Whole sequences -/

theorem Passthrough.symbol_lastWasCr (s : Passthrough) (a : Symbol) :
    (s.symbol a).lastWasCr = true → a = .enter .cr := by
  cases a with
  | char c typed => exact fun h => nomatch h
  | enter sent =>
    intro h
    rw [of_decide_eq_true h]
  | backspace =>
    show s.erase.lastWasCr = true → _
    unfold Passthrough.erase
    split_ifs <;> exact fun h => nomatch h
  | delete =>
    show s.erase.lastWasCr = true → _
    unfold Passthrough.erase
    split_ifs <;> exact fun h => nomatch h

/-- The bytes of a sequence do what its symbols do. -/
theorem processPassthroughChunk_symbols (hfollows : symbols.IsChain Symbol.Follows)
    (hhead : s.lastWasCr = true → ∀ a ∈ symbols.head?, a ≠ .enter .lf) :
    processPassthroughChunk s (symbols.flatMap Symbol.bytes) =
      symbols.foldl Passthrough.symbol s := by
  induction symbols generalizing s with
  | nil => rfl
  | cons a symbols ih =>
    have hfirst := processPassthroughChunk_symbol fun hcr => hhead hcr a rfl
    rw [List.flatMap_cons, processPassthroughChunk_append, hfirst, List.foldl_cons]
    refine ih hfollows.tail fun hcr next hnext => ?_
    cases symbols with
    | nil => cases hnext
    | cons b symbols =>
      cases hnext
      exact (List.isChain_cons_cons.1 hfollows).1 (s.symbol_lastWasCr a hcr)

theorem Ahead.run (h : Ahead t s) :
    Ahead (symbols.foldl Typing.type t) (symbols.foldl Passthrough.symbol s) := by
  induction symbols generalizing t s with
  | nil => exact h
  | cons a symbols ih => exact ih h.type

/-- What is echoed and delivered is right for whole lines, and for no others. -/
theorem Tracks.run_iff (h : Tracks t s) :
    ((symbols.foldl Passthrough.symbol s).toEcho = (symbols.foldl Typing.type t).echoed ∧
      (symbols.foldl Passthrough.symbol s).toDeliver =
        (symbols.foldl Typing.type t).delivered) ↔ t.AllWhole symbols := by
  induction symbols generalizing t s with
  | nil => exact iff_of_true ⟨h.echoed, h.delivered⟩ trivial
  | cons a symbols ih =>
    by_cases hwhole : t.Whole a
    · exact (ih (h.type hwhole)).trans (and_iff_right hwhole).symm
    · refine iff_of_false ?_ fun hall => hwhole hall.1
      rintro ⟨hechoed, hdelivered⟩
      have hahead : Ahead (symbols.foldl Typing.type (t.type a))
          (symbols.foldl Passthrough.symbol (s.symbol a)) := (h.ahead hwhole).run
      rcases hahead.more with hlt | hlt
      · exact hlt.ne (congrArg List.length hechoed).symm
      · exact hlt.ne (congrArg List.length hdelivered).symm

/-- **Main result**: what the terminal echoes and delivers is what the symbols are for, for every
way to cut their bytes into chunks, if and only if no Enter, and no Backspace on an empty line,
comes in a line from which a character of several bytes has been erased. -/
theorem line_discipline_iff (typed : Typed) :
    (∀ chunks : List (List UInt8), (∀ chunk ∈ chunks, chunk ≠ []) →
      chunks.flatten = typed.bytes →
        (chunks.foldl onPassthrough {}).delivered = typed.result.delivered ∧
        (chunks.foldl onPassthrough {}).echoed = typed.result.echoed) ↔ typed.Whole := by
  have htracks : Tracks {} {} := ⟨rfl, rfl, fun _ => rfl, fun htorn => nomatch htorn⟩
  have hrun {chunks : List (List UInt8)} (hne : ∀ chunk ∈ chunks, chunk ≠ [])
      (hbytes : chunks.flatten = typed.bytes) :
      chunks.foldl onPassthrough {} =
        TerminalInput.after (typed.symbols.foldl Passthrough.symbol {}) := by
    have hsymbols : processPassthroughChunk {} typed.bytes =
        typed.symbols.foldl Passthrough.symbol {} :=
      processPassthroughChunk_symbols typed.follows fun hcr => nomatch hcr
    have hchunks := onPassthrough_chunks {} chunks hne
    rw [hbytes, hsymbols] at hchunks
    exact hchunks
  refine Iff.trans ⟨fun h => ?_, fun h chunks hne hbytes => ?_⟩ htracks.run_iff
  · -- one chunk for each byte
    have hne : ∀ chunk ∈ typed.bytes.map (fun b => [b]), chunk ≠ [] := by
      rintro chunk hchunk rfl
      obtain ⟨b, -, hb⟩ := List.mem_map.1 hchunk
      exact List.cons_ne_nil b [] hb
    have hbytes : (typed.bytes.map fun b => [b]).flatten = typed.bytes := by
      rw [← List.flatMap_def, List.flatMap_singleton']
    have hresult := h _ hne hbytes
    rw [hrun hne hbytes] at hresult
    exact hresult.symm
  · rw [hrun hne hbytes]
    exact h.symm

/-- `é`, Backspace and Enter deliver the first byte of it. -/
theorem torn_character : ¬ ∀ (typed : Typed) (chunks : List (List UInt8)),
    (∀ chunk ∈ chunks, chunk ≠ []) → chunks.flatten = typed.bytes →
      (chunks.foldl onPassthrough {}).delivered = typed.result.delivered ∧
        (chunks.foldl onPassthrough {}).echoed = typed.result.echoed := by
  intro h
  have hresult := h ⟨[.char (Char.ofNat 0xe9) (by decide), .delete, .enter .cr],
    by simp [Symbol.Follows]⟩ [[0xc3, 0xa9, 0x7f, 0x0d]] (by decide) rfl
  exact absurd hresult.1 (by decide)

end LineDiscipline

end Bison
