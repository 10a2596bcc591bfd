import Mathlib.Data.List.GetD
import Bison.App.LineEditor

/-!
# Keystrokes

`decode_byte_stream` of line_editor.cpp reads three bytes of an escape sequence, and a fourth one
after a digit that stands for Home, End or Delete. Terminals send sequences of any length.

- `Token`: printable characters, control keys, and the two kinds of escape sequences.
- `decodeAll`: the stream is decoded until it is used up, with what each event has consumed.
- `ConsumesTokens`: each event consumes one token, and the characters put into the line are the
  printable ones. `Fit`: no sequence is longer than what is read of it, or shorter.
- `consumesTokens_iff`: **main result**, the first holds exactly of the streams of the second.
- `ctrl_right_typed`: the sequence for Ctrl and Right leaves two characters in the line.
-/

namespace Bison.App

/-- The codes after which `decode_byte_stream` takes one byte more. -/
def tildeCodes : List UInt8 := ascii "13478"

/-- What the byte after the introducer stands for. -/
def escapeKey (code : UInt8) : EditorKey :=
  if code = 65 then .arrowUp
  else if code = 66 then .arrowDown
  else if code = 67 then .arrowRight
  else if code = 68 then .arrowLeft
  else if code = 72 then .home
  else if code = 70 then .end
  else if code = 51 then .deleteForward
  else if code = 49 ∨ code = 55 then .home
  else if code = 52 ∨ code = 56 then .end
  else .ignored

/-- The bytes behind an escape. A stream that ends before the tilde ends the sequence as well. -/
def decodeEscape : List UInt8 → KeyEvent × List UInt8
  | [] => (⟨.ignored, 0⟩, [])
  | [_] => (⟨.ignored, 0⟩, [])
  | introducer :: code :: stream =>
    if introducer ≠ 91 ∧ introducer ≠ 79 then (⟨.ignored, 0⟩, code :: stream)
    else (⟨escapeKey code, 0⟩, if code ∈ tildeCodes then stream.tail else stream)

/-- `line_editor::decode_byte_stream` (line_editor.cpp:124): the event, and the stream behind it. -/
def decodeByteStream : List UInt8 → KeyEvent × List UInt8
  | [] => (⟨.eof, 0⟩, [])
  | c :: stream =>
    if c = 13 ∨ c = 10 then (⟨.enter, 0⟩, stream)
    else if c = 0x7f ∨ c = 0x08 then (⟨.backspace, 0⟩, stream)
    else if c = 0x04 then (⟨.eof, 0⟩, stream)
    else if c = 0x03 then (⟨.interrupt, 0⟩, stream)
    else if c = 0x1b then decodeEscape stream
    else if c < 0x20 then (⟨.ignored, 0⟩, stream)
    else (⟨.charInput, c⟩, stream)

/-- At most `n` events, each with the bytes it has consumed. -/
def decodeLoop : Nat → List UInt8 → List (List UInt8 × KeyEvent)
  | 0, _ => []
  | n + 1, stream =>
    if stream = [] then []
    else
      let (ev, rest) := decodeByteStream stream
      (stream.take (stream.length - rest.length), ev) :: decodeLoop n rest

/-- The events of a stream that is decoded until it is used up. -/
def decodeAll (stream : List UInt8) : List (List UInt8 × KeyEvent) :=
  decodeLoop stream.length stream

/-- The character that `LineEditState.apply` puts into the buffer. -/
def KeyEvent.typed (ev : KeyEvent) : Option UInt8 :=
  if ev.key = .charInput then some ev.ch else none

theorem apply_of_typed {ev : KeyEvent} {ch : UInt8} (h : ev.typed = some ch) (history : History)
    (s : LineEditState) : (s.apply history ev).2.buffer = s.buffer.insertIdx s.cursor ch := by
  unfold KeyEvent.typed at h
  split_ifs at h with hkey
  cases h
  rw [LineEditState.apply, hkey]

/-- A line of the history, or none. -/
theorem showEntry_buffer (history : History) (s : LineEditState) (i : Nat) :
    (s.showEntry history i).buffer ∈ [] :: history := by
  by_cases h : i < history.length
  · rw [LineEditState.showEntry, List.getD_eq_getElem history [] h]
    exact List.mem_cons_of_mem _ (List.getElem_mem h)
  · rw [LineEditState.showEntry, List.getD_eq_default history [] (Nat.not_lt.1 h)]
    exact List.mem_cons_self

/-- The line stays, or another one is shown. -/
theorem navigateHistory_buffer (history : History) (s : LineEditState) (delta : Int) :
    (s.navigateHistory history delta).buffer.Sublist s.buffer ∨
      (s.navigateHistory history delta).buffer ∈ s.draft :: [] :: history := by
  unfold LineEditState.navigateHistory
  split
  next => exact .inl (List.Sublist.refl _)
  next =>
    split
    next =>
      split_ifs
      · exact .inl (List.Sublist.refl _)
      · exact .inr (List.mem_cons_of_mem _ (showEntry_buffer ..))
    next =>
      dsimp only
      split_ifs
      · exact .inl (List.Sublist.refl _)
      · exact .inr List.mem_cons_self
      · exact .inr (List.mem_cons_of_mem _ (showEntry_buffer ..))

theorem eraseForward_sublist (s : LineEditState) : s.eraseForward.buffer.Sublist s.buffer := by
  unfold LineEditState.eraseForward
  split_ifs
  · exact List.eraseIdx_sublist ..
  · exact List.Sublist.refl _

/-- A key that is no character puts none in: the buffer loses one at most, or another line is
shown. -/
theorem apply_of_not_typed {ev : KeyEvent} (h : ev.typed = none) (history : History)
    (s : LineEditState) : (s.apply history ev).2.buffer.Sublist s.buffer ∨
      (s.apply history ev).2.buffer ∈ s.draft :: [] :: history := by
  obtain ⟨key, ch⟩ := ev
  cases key with
  | charInput => cases h
  | backspace =>
    simp only [LineEditState.apply]
    split_ifs
    · exact .inl (List.eraseIdx_sublist ..)
    · exact .inl (List.Sublist.refl _)
  | deleteForward => exact .inl (eraseForward_sublist s)
  | arrowLeft =>
    simp only [LineEditState.apply]
    split_ifs <;> exact .inl (List.Sublist.refl _)
  | arrowRight =>
    simp only [LineEditState.apply]
    split_ifs <;> exact .inl (List.Sublist.refl _)
  | arrowUp => exact navigateHistory_buffer history s (-1)
  | arrowDown => exact navigateHistory_buffer history s 1
  | eof =>
    simp only [LineEditState.apply]
    split_ifs
    · exact .inl (List.Sublist.refl _)
    · exact .inl (eraseForward_sublist s)
  | home => exact .inl (List.Sublist.refl _)
  | «end» => exact .inl (List.Sublist.refl _)
  | enter => exact .inl (List.Sublist.refl _)
  | interrupt => exact .inl (List.Sublist.refl _)
  | ignored => exact .inl (List.Sublist.refl _)

/-- What a stream is made of. -/
inductive Token where
  /-- A printable character, or a byte of one. -/
  | printable (c : UInt8) (h : 0x20 ≤ c ∧ c ≠ 0x7f)
  | control (c : UInt8) (h : (c < 0x20 ∨ c = 0x7f) ∧ c ≠ 0x1b)
  /-- `ESC [`, parameter and intermediate bytes, and a final byte. -/
  | csi (params : List UInt8) (final : UInt8) (hparams : ∀ p ∈ params, 0x20 ≤ p ∧ p ≤ 0x3f)
    (hfinal : 0x40 ≤ final ∧ final ≤ 0x7e)
  /-- `ESC O` and one byte. -/
  | ss3 (code : UInt8)

namespace Token

def bytes : Token → List UInt8
  | printable c _ => [c]
  | control c _ => [c]
  | csi params final _ _ => 0x1b :: 91 :: (params ++ [final])
  | ss3 code => [0x1b, 79, code]

/-- The character of a token that is no key and no escape sequence. -/
def typed : Token → Option UInt8
  | printable c _ => some c
  | _ => none

end Token

/-- The bytes of a stream of tokens. -/
def streamOf (tokens : List Token) : List UInt8 := tokens.flatMap Token.bytes

/-- Each event consumes one token, and the printable characters are put into the line. -/
def ConsumesTokens (tokens : List Token) : Prop :=
  (decodeAll (streamOf tokens)).map Prod.fst = tokens.map Token.bytes ∧
    (decodeAll (streamOf tokens)).filterMap (fun step => step.2.typed) =
      tokens.filterMap Token.typed

/-- The escape sequences are as long as what is read of them: after `ESC [` comes the final byte, or
one of the digits before it, and after `ESC O` comes none of these digits except at the end. -/
structure Fit (tokens : List Token) : Prop where
  csi : ∀ params final hparams hfinal, Token.csi params final hparams hfinal ∈ tokens →
    params = [] ∨ ∃ code ∈ tildeCodes, params = [code]
  ss3 : ∀ code, Token.ss3 code ∈ tokens.dropLast → code ∉ tildeCodes

/-! ## One event -/

theorem decodeEscape_suffix (stream : List UInt8) : (decodeEscape stream).2 <:+ stream := by
  fun_cases decodeEscape stream with
  | case1 => exact List.suffix_refl []
  | case2 => exact List.nil_suffix
  | case3 introducer code stream => exact List.suffix_cons introducer _
  | case4 introducer code stream =>
    have hself : stream <:+ introducer :: code :: stream := ⟨[introducer, code], rfl⟩
    dsimp only
    split_ifs
    · exact (List.tail_suffix stream).trans hself
    · exact hself

/-- One event takes at least a byte, and leaves the rest as it is. -/
theorem decodeByteStream_suffix (c : UInt8) (stream : List UInt8) :
    (decodeByteStream (c :: stream)).2 <:+ stream := by
  rw [decodeByteStream]
  split_ifs
  any_goals exact List.suffix_refl stream
  exact decodeEscape_suffix stream

theorem decodeByteStream_length {stream : List UInt8} (h : stream ≠ []) :
    (decodeByteStream stream).2.length < stream.length := by
  obtain ⟨c, stream, rfl⟩ := List.exists_cons_of_ne_nil h
  exact Nat.lt_succ_of_le (decodeByteStream_suffix c stream).length_le

theorem decodeByteStream_printable {c : UInt8} (h : 0x20 ≤ c ∧ c ≠ 0x7f) (stream : List UInt8) :
    decodeByteStream (c :: stream) = (⟨.charInput, c⟩, stream) := by
  have hkey {d : UInt8} (hd : d < 0x20) : c ≠ d :=
    fun hc => UInt8.not_lt.2 h.1 (hc ▸ hd)
  rw [decodeByteStream, if_neg, if_neg, if_neg (hkey (by decide)), if_neg (hkey (by decide)),
    if_neg (hkey (by decide)), if_neg (UInt8.not_lt.2 h.1)]
  · exact not_or.2 ⟨h.2, hkey (by decide)⟩
  · exact not_or.2 ⟨hkey (by decide), hkey (by decide)⟩

theorem decodeByteStream_control {c : UInt8} (h : (c < 0x20 ∨ c = 0x7f) ∧ c ≠ 0x1b)
    (stream : List UInt8) : ∃ key, key ≠ .charInput ∧
      decodeByteStream (c :: stream) = (⟨key, 0⟩, stream) := by
  rw [decodeByteStream]
  split_ifs with henter hback heof hint hescape hlow
  · exact ⟨.enter, EditorKey.noConfusion, rfl⟩
  · exact ⟨.backspace, EditorKey.noConfusion, rfl⟩
  · exact ⟨.eof, EditorKey.noConfusion, rfl⟩
  · exact ⟨.interrupt, EditorKey.noConfusion, rfl⟩
  · exact absurd hescape h.2
  · exact ⟨.ignored, EditorKey.noConfusion, rfl⟩
  · exact absurd (h.1.resolve_left hlow) (not_or.1 hback).1

theorem escapeKey_ne (code : UInt8) : escapeKey code ≠ .charInput := by
  unfold escapeKey
  split_ifs <;> exact EditorKey.noConfusion

theorem decodeByteStream_escape {introducer : UInt8} (h : introducer = 91 ∨ introducer = 79)
    (code : UInt8) (stream : List UInt8) :
    decodeByteStream (0x1b :: introducer :: code :: stream) =
      (⟨escapeKey code, 0⟩, if code ∈ tildeCodes then stream.tail else stream) := by
  rw [decodeByteStream, if_neg (by decide), if_neg (by decide), if_neg (by decide),
    if_neg (by decide), if_pos rfl, decodeEscape, if_neg]
  rintro ⟨hcsi, hss3⟩
  exact h.elim hcsi hss3

/-! ## The whole stream -/

/-- The decoding of a stream that has a first event. -/
theorem decodeLoop_succ {stream : List UInt8} (h : stream ≠ []) (n : Nat) :
    decodeLoop (n + 1) stream =
      (stream.take (stream.length - (decodeByteStream stream).2.length),
        (decodeByteStream stream).1) :: decodeLoop n (decodeByteStream stream).2 := by
  rw [decodeLoop, if_neg h]

/-- What the events have consumed is the stream. -/
theorem decodeLoop_flatten {n : Nat} {stream : List UInt8} (h : stream.length ≤ n) :
    ((decodeLoop n stream).map Prod.fst).flatten = stream := by
  induction n generalizing stream with
  | zero => rw [List.eq_nil_of_length_eq_zero (Nat.le_zero.1 h), decodeLoop]; rfl
  | succ n ih =>
    by_cases hnil : stream = []
    · rw [hnil, decodeLoop, if_pos rfl]
      rfl
    · have hlt := decodeByteStream_length hnil
      obtain ⟨c, stream, rfl⟩ := List.exists_cons_of_ne_nil hnil
      have hsuffix := (decodeByteStream_suffix c stream).trans (List.suffix_cons c stream)
      rw [decodeLoop_succ hnil, List.map_cons, List.flatten_cons, ih (by omega)]
      exact List.suffix_iff_eq_append.1 hsuffix

theorem decodeAll_flatten (stream : List UInt8) :
    ((decodeAll stream).map Prod.fst).flatten = stream :=
  decodeLoop_flatten (Nat.le_refl _)

/-! ## One token -/

namespace Token

/-- The event of a token leaves the bytes behind it, and no others. -/
def FitsBefore (rest : List UInt8) : Token → Prop
  | printable _ _ => True
  | control _ _ => True
  | csi params _ _ _ => params = [] ∨ ∃ code ∈ tildeCodes, params = [code]
  | ss3 code => code ∉ tildeCodes ∨ rest = []

theorem bytes_ne_nil (t : Token) : t.bytes ≠ [] := by
  cases t <;> exact List.cons_ne_nil _ _

/-- No final byte is one of the digits. -/
theorem not_mem_tildeCodes {final : UInt8} (h : 0x40 ≤ final) : final ∉ tildeCodes := by
  have hall : ∀ code ∈ tildeCodes, code < 0x40 := by decide +kernel
  exact fun hmem => UInt8.not_lt.2 h (hall final hmem)

theorem tail_eq_self {l : List UInt8} : l.tail = l ↔ l = [] := by
  constructor
  · intro h
    have hlength := congrArg List.length h
    rw [List.length_tail] at hlength
    exact List.eq_nil_of_length_eq_zero (by omega)
  · rintro rfl
    rfl

theorem decode_rest_iff (t : Token) (rest : List UInt8) :
    (decodeByteStream (t.bytes ++ rest)).2 = rest ↔ t.FitsBefore rest := by
  cases t with
  | printable c h =>
    exact iff_of_true (congrArg Prod.snd (decodeByteStream_printable h rest)) trivial
  | control c h =>
    obtain ⟨key, -, hdecode⟩ := decodeByteStream_control h rest
    exact iff_of_true (congrArg Prod.snd hdecode) trivial
  | csi params final hparams hfinal =>
    cases params with
    | nil =>
      -- the byte that is read is the final one, which is no digit
      refine iff_of_true ?_ (.inl rfl)
      exact (congrArg Prod.snd (decodeByteStream_escape (.inl rfl) final rest)).trans
        (if_neg (not_mem_tildeCodes hfinal.1))
    | cons code params =>
      have hdecode := congrArg Prod.snd
        (decodeByteStream_escape (.inl rfl) code (params ++ [final] ++ rest))
      -- what is left is the rest only if no parameter follows the digit
      have hlength : (params ++ [final] ++ rest).length = params.length + 1 + rest.length := by
        rw [List.length_append, List.length_append]
        rfl
      constructor
      · intro hrest
        have hleft := congrArg List.length (hdecode.symm.trans hrest)
        dsimp only at hleft
        split_ifs at hleft with hcode
        · rw [List.length_tail] at hleft
          have hparams : params.length = 0 := by omega
          exact .inr ⟨code, hcode, congrArg _ (List.eq_nil_of_length_eq_zero hparams)⟩
        · omega
      · rintro (h | ⟨code', hcode, h⟩)
        · cases h
        · cases h
          exact hdecode.trans (if_pos hcode)
  | ss3 code =>
    have hdecode := congrArg Prod.snd (decodeByteStream_escape (.inr rfl) code rest)
    refine (Eq.congr_left hdecode).trans ?_
    dsimp only [FitsBefore]
    split_ifs with hcode
    · -- a digit takes the byte behind it, unless there is none
      rw [tail_eq_self, or_iff_right (not_not.2 hcode)]
    · exact iff_of_true rfl (.inl hcode)

/-- The first event of a token is what the token puts into the line. -/
theorem decode_typed (t : Token) (rest : List UInt8) :
    (decodeByteStream (t.bytes ++ rest)).1.typed = t.typed := by
  cases t with
  | printable c h => exact congrArg (·.1.typed) (decodeByteStream_printable h rest)
  | control c h =>
    obtain ⟨key, hkey, hdecode⟩ := decodeByteStream_control h rest
    exact (congrArg (·.1.typed) hdecode).trans (if_neg hkey)
  | csi params final hparams hfinal =>
    cases params with
    | nil =>
      exact (congrArg (·.1.typed) (decodeByteStream_escape (.inl rfl) final rest)).trans
        (if_neg (escapeKey_ne final))
    | cons code params =>
      exact (congrArg (·.1.typed) (decodeByteStream_escape (.inl rfl) code _)).trans
        (if_neg (escapeKey_ne code))
  | ss3 code =>
    exact (congrArg (·.1.typed) (decodeByteStream_escape (.inr rfl) code rest)).trans
      (if_neg (escapeKey_ne code))

end Token

/-! ## A stream of tokens -/

/-- Each token fits before the ones behind it. -/
def FitEach : List Token → Prop
  | [] => True
  | t :: tokens => t.FitsBefore (streamOf tokens) ∧ FitEach tokens

theorem streamOf_cons (t : Token) (tokens : List Token) :
    streamOf (t :: tokens) = t.bytes ++ streamOf tokens :=
  List.flatMap_cons

theorem streamOf_eq_nil {tokens : List Token} : streamOf tokens = [] ↔ tokens = [] := by
  cases tokens with
  | nil => exact iff_of_true rfl rfl
  | cons t tokens =>
    refine iff_of_false ?_ (List.cons_ne_nil t tokens)
    rw [streamOf_cons]
    exact fun h => t.bytes_ne_nil (List.append_eq_nil_iff.1 h).1

/-- The first event has consumed the token if it leaves the rest. -/
theorem take_eq_bytes_iff (t : Token) (rest : List UInt8) :
    (t.bytes ++ rest).take ((t.bytes ++ rest).length -
      (decodeByteStream (t.bytes ++ rest)).2.length) = t.bytes ↔ t.FitsBefore rest := by
  rw [← t.decode_rest_iff rest]
  obtain ⟨c, stream, hstream⟩ := List.exists_cons_of_ne_nil
    (List.append_ne_nil_of_left_ne_nil t.bytes_ne_nil rest)
  have hsuffix : (decodeByteStream (t.bytes ++ rest)).2 <:+ t.bytes ++ rest := by
    rw [hstream]
    exact (decodeByteStream_suffix c stream).trans (List.suffix_cons c stream)
  have happend := List.suffix_iff_eq_append.1 hsuffix
  constructor
  · intro htake
    rw [htake] at happend
    exact List.append_cancel_left happend
  · intro hrest
    rw [hrest] at happend ⊢
    exact List.append_cancel_right happend

theorem decodeLoop_cons {t : Token} {tokens : List Token} {n : Nat}
    (h : (streamOf (t :: tokens)).length ≤ n) : ∃ n', n = n' + 1 ∧
      (streamOf tokens).length ≤ n' ∧ decodeLoop n (streamOf (t :: tokens)) =
        ((t.bytes ++ streamOf tokens).take ((t.bytes ++ streamOf tokens).length -
            (decodeByteStream (t.bytes ++ streamOf tokens)).2.length),
          (decodeByteStream (t.bytes ++ streamOf tokens)).1) ::
            decodeLoop n' (decodeByteStream (t.bytes ++ streamOf tokens)).2 := by
  have hpos := List.length_pos_of_ne_nil t.bytes_ne_nil
  rw [streamOf_cons, List.length_append] at h
  obtain ⟨n, rfl⟩ : ∃ n', n = n' + 1 := ⟨n - 1, by omega⟩
  refine ⟨n, rfl, by omega, ?_⟩
  rw [streamOf_cons, decodeLoop_succ (List.append_ne_nil_of_left_ne_nil t.bytes_ne_nil _)]

/-- Event after event, token after token. -/
theorem decodeLoop_bytes_iff {tokens : List Token} {n : Nat}
    (h : (streamOf tokens).length ≤ n) :
    (decodeLoop n (streamOf tokens)).map Prod.fst = tokens.map Token.bytes ↔ FitEach tokens := by
  induction tokens generalizing n with
  | nil => cases n <;> exact iff_of_true rfl trivial
  | cons t tokens ih =>
    obtain ⟨n, rfl, hn, hloop⟩ := decodeLoop_cons h
    rw [hloop, List.map_cons, List.map_cons, List.cons.injEq, take_eq_bytes_iff]
    -- an event that does not leave the rest has not consumed its token either
    refine and_congr_right fun hfits => ?_
    rw [(t.decode_rest_iff _).2 hfits]
    exact ih hn

theorem decodeLoop_typed {tokens : List Token} {n : Nat} (h : (streamOf tokens).length ≤ n)
    (hfit : FitEach tokens) :
    (decodeLoop n (streamOf tokens)).filterMap (fun step => step.2.typed) =
      tokens.filterMap Token.typed := by
  induction tokens generalizing n with
  | nil => cases n <;> rfl
  | cons t tokens ih =>
    obtain ⟨n, rfl, hn, hloop⟩ := decodeLoop_cons h
    rw [hloop, (t.decode_rest_iff _).2 hfit.1, List.filterMap_cons, List.filterMap_cons,
      t.decode_typed, ih hn hfit.2]

theorem mem_dropLast_cons {t u : Token} {tokens : List Token} :
    u ∈ (t :: tokens).dropLast ↔ (u = t ∧ tokens ≠ []) ∨ u ∈ tokens.dropLast := by
  cases tokens with
  | nil => simp
  | cons v tokens => simp [List.dropLast_cons_cons]

theorem fit_cons {t : Token} {tokens : List Token} :
    Fit (t :: tokens) ↔ t.FitsBefore (streamOf tokens) ∧ Fit tokens := by
  constructor
  · intro h
    refine ⟨?_, fun params final hparams hfinal hmem =>
      h.csi params final hparams hfinal (List.mem_cons_of_mem t hmem),
      fun code hmem => h.ss3 code (mem_dropLast_cons.2 (.inr hmem))⟩
    cases t with
    | printable => exact trivial
    | control => exact trivial
    | csi params final hparams hfinal =>
      exact h.csi params final hparams hfinal List.mem_cons_self
    | ss3 code =>
      by_cases hlast : tokens = []
      · exact .inr (streamOf_eq_nil.2 hlast)
      · exact .inl (h.ss3 code (mem_dropLast_cons.2 (.inl ⟨rfl, hlast⟩)))
  · rintro ⟨hfits, h⟩
    refine ⟨fun params final hparams hfinal hmem => ?_, fun code hmem => ?_⟩
    · rcases List.mem_cons.1 hmem with rfl | hmem
      · exact hfits
      · exact h.csi params final hparams hfinal hmem
    · rcases mem_dropLast_cons.1 hmem with ⟨rfl, hlast⟩ | hmem
      · exact hfits.resolve_right fun hnil => hlast (streamOf_eq_nil.1 hnil)
      · exact h.ss3 code hmem

theorem fitEach_iff {tokens : List Token} : FitEach tokens ↔ Fit tokens := by
  induction tokens with
  | nil => exact iff_of_true trivial ⟨by simp, by simp⟩
  | cons t tokens ih => rw [FitEach, fit_cons, ih]

/-- **Main result**: a stream of tokens is decoded token by token exactly if its escape sequences
fit. -/
theorem consumesTokens_iff (tokens : List Token) : ConsumesTokens tokens ↔ Fit tokens := by
  have hbytes := @decodeLoop_bytes_iff tokens _ (Nat.le_refl _)
  rw [← fitEach_iff]
  exact ⟨fun h => hbytes.1 h.1, fun h => ⟨hbytes.2 h, decodeLoop_typed (Nat.le_refl _) h⟩⟩

/-- The sequence `ESC [ 1 ; 5 C`, which terminals send for Ctrl and Right, is read as Home, and the
digit 5 and the letter C as typed. -/
theorem ctrl_right_typed :
    (decodeAll (streamOf [.csi (ascii "1;5") 67 (by decide +kernel) (by decide)])).filterMap
        (fun step => step.2.typed) = ascii "5C" ∧
      ¬ ConsumesTokens [.csi (ascii "1;5") 67 (by decide +kernel) (by decide)] :=
  ⟨by decide +kernel, fun h => absurd h.2 (by decide +kernel)⟩

end Bison.App
