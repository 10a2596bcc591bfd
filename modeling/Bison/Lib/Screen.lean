import Mathlib.Data.List.Basic

/-!
# A line on a terminal

What a terminal shows of the bytes that a line editor writes: printable ASCII, CR, LF, and the
sequences that clear the rest of the line (`ESC [ K`) and move the cursor back (`ESC [ n D`). The
line is as wide as it needs to be.

- `Screen.byte`, `Screen.write`: the bytes one after the other.
- `Screen.write_text`: a text is written over what stands at the cursor.
- `Screen.write_clear`, `Screen.write_back`: the two sequences.
-/

/-- Whether the terminal is inside of an escape sequence, and the digits of its parameter. -/
inductive ScreenMode where
  | text
  | escape
  | csi (digits : List UInt8)
  deriving DecidableEq

/-- The lines that are finished, and the one with the cursor. -/
structure Screen where
  above : List (List UInt8) := []
  line : List UInt8 := []
  column : Nat := 0
  mode : ScreenMode := .text
  deriving DecidableEq

namespace Screen

/-- A text written over a line at a column. What is not there yet is blank. -/
def overwrite (line : List UInt8) (column : Nat) (text : List UInt8) : List UInt8 :=
  line.take column ++ List.replicate (column - line.length) 0x20 ++ text ++
    line.drop (column + text.length)

def Printable (b : UInt8) : Prop := 0x20 ≤ b ∧ b < 0x7f

instance (b : UInt8) : Decidable (Printable b) := by unfold Printable; infer_instance

/-- The value of a parameter. -/
def paramValue (digits : List UInt8) : Nat :=
  digits.foldl (fun n c => 10 * n + (c.toNat - 48)) 0

/-- One byte. -/
def byte (s : Screen) (b : UInt8) : Screen :=
  match s.mode with
  | .text =>
    if b = 0x0d then { s with column := 0 }
    else if b = 0x0a then { s with above := s.above ++ [s.line], line := [] }
    else if b = 0x1b then { s with mode := .escape }
    else if Printable b then
      { s with line := overwrite s.line s.column [b], column := s.column + 1 }
    else s
  | .escape => if b = 0x5b then { s with mode := .csi [] } else { s with mode := .text }
  | .csi digits =>
    if 0x30 ≤ b ∧ b ≤ 0x39 then { s with mode := .csi (digits ++ [b]) }
    else if b = 0x4b then { s with line := s.line.take s.column, mode := .text }
    else if b = 0x44 then { s with column := s.column - max 1 (paramValue digits), mode := .text }
    else { s with mode := .text }

def write (s : Screen) (bytes : List UInt8) : Screen := bytes.foldl byte s

variable {s : Screen}

theorem write_append (s : Screen) (bytes bytes' : List UInt8) :
    s.write (bytes ++ bytes') = (s.write bytes).write bytes' :=
  List.foldl_append

theorem length_overwrite (line : List UInt8) (column : Nat) (text : List UInt8) :
    (overwrite line column text).length = max line.length (column + text.length) := by
  simp only [overwrite, List.length_append, List.length_take, List.length_replicate,
    List.length_drop]
  omega

/-- At the end of the line a text is appended. -/
theorem overwrite_end (line text : List UInt8) :
    overwrite line line.length text = line ++ text := by
  rw [overwrite, List.take_length, Nat.sub_self, List.drop_eq_nil_of_le (Nat.le_add_right _ _)]
  simp only [List.replicate_zero, List.append_nil]

theorem overwrite_cons (line : List UInt8) (column : Nat) (b : UInt8) (text : List UInt8) :
    overwrite (overwrite line column [b]) (column + 1) text =
      overwrite line column (b :: text) := by
  have hlength : (line.take column ++ List.replicate (column - line.length) 0x20 ++ [b]).length =
      column + 1 := by
    simp only [List.length_append, List.length_take, List.length_replicate, List.length_singleton]
    omega
  have hpad : column + 1 - (overwrite line column [b]).length = 0 := by
    rw [length_overwrite, List.length_singleton]
    omega
  have htake : (overwrite line column [b]).take (column + 1) =
      line.take column ++ List.replicate (column - line.length) 0x20 ++ [b] := by
    rw [overwrite, ← hlength, List.take_left]
  have hdrop : (overwrite line column [b]).drop (column + 1 + text.length) =
      line.drop (column + (b :: text).length) := by
    rw [overwrite, ← hlength, List.drop_append, List.drop_eq_nil_of_le (Nat.le_add_right _ _),
      List.nil_append, List.drop_drop, List.length_singleton, List.length_cons]
    congr 1
    omega
  rw [overwrite, hpad, htake, hdrop]
  simp only [overwrite, List.replicate_zero, List.append_nil, List.append_assoc, List.cons_append,
    List.nil_append]

theorem overwrite_nil (line : List UInt8) {column : Nat} (h : column ≤ line.length) :
    overwrite line column [] = line := by
  rw [overwrite, Nat.sub_eq_zero_of_le h]
  simp only [List.replicate_zero, List.append_nil, List.length_nil, Nat.add_zero,
    List.take_append_drop]

theorem byte_printable (hmode : s.mode = .text) {b : UInt8} (hb : Printable b) :
    s.byte b = { s with line := overwrite s.line s.column [b], column := s.column + 1 } := by
  have hcr : b ≠ 0x0d := fun h => absurd hb (by rw [h]; decide)
  have hlf : b ≠ 0x0a := fun h => absurd hb (by rw [h]; decide)
  have hesc : b ≠ 0x1b := fun h => absurd hb (by rw [h]; decide)
  simp only [byte, hmode, if_neg hcr, if_neg hlf, if_neg hesc, if_pos hb]

/-- A text is written over what stands at the cursor, by induction on the text. -/
theorem write_text {text : List UInt8} (hmode : s.mode = .text) (hcolumn : s.column ≤ s.line.length)
    (htext : ∀ b ∈ text, Printable b) :
    s.write text =
      { s with line := overwrite s.line s.column text, column := s.column + text.length } := by
  induction text generalizing s with
  | nil =>
    rw [overwrite_nil _ hcolumn]
    rfl
  | cons b text ih =>
    have hb := byte_printable hmode (htext b List.mem_cons_self)
    have hnext : s.column + 1 ≤ (overwrite s.line s.column [b]).length := by
      rw [length_overwrite]
      exact Nat.le_max_right _ _
    have hrest := ih (s := { s with line := overwrite s.line s.column [b], column := s.column + 1 })
      hmode hnext fun c hc => htext c (List.mem_cons_of_mem _ hc)
    show (s.byte b).write text = _
    rw [hb, hrest]
    simp only [overwrite_cons, List.length_cons, Nat.add_assoc, Nat.add_comm 1]

/-- `ESC [ K` -/
theorem write_clear (hmode : s.mode = .text) :
    s.write [0x1b, 0x5b, 0x4b] = { s with line := s.line.take s.column } := by
  obtain ⟨above, line, column, mode⟩ := s
  subst hmode
  rfl

theorem write_digits {digits seen : List UInt8} (hmode : s.mode = .csi seen)
    (hdigits : ∀ b ∈ digits, 0x30 ≤ b ∧ b ≤ 0x39) :
    s.write digits = { s with mode := .csi (seen ++ digits) } := by
  induction digits generalizing s seen with
  | nil =>
    rw [List.append_nil, ← hmode]
    rfl
  | cons b digits ih =>
    have hb : s.byte b = { s with mode := .csi (seen ++ [b]) } := by
      simp only [byte, hmode, if_pos (hdigits b List.mem_cons_self)]
    show (s.byte b).write digits = _
    rw [hb, ih rfl fun c hc => hdigits c (List.mem_cons_of_mem _ hc), List.append_assoc]
    rfl

/-- `ESC [ n D` -/
theorem write_back (hmode : s.mode = .text) {digits : List UInt8}
    (hdigits : ∀ b ∈ digits, 0x30 ≤ b ∧ b ≤ 0x39) (hpos : 0 < paramValue digits) :
    s.write ([0x1b, 0x5b] ++ digits ++ [0x44]) =
      { s with column := s.column - paramValue digits } := by
  have hopen : s.write [0x1b, 0x5b] = { s with mode := .csi [] } := by
    obtain ⟨above, line, column, mode⟩ := s
    subst hmode
    rfl
  rw [write_append, write_append, hopen, write_digits rfl hdigits]
  show { s with column := s.column - max 1 (paramValue ([] ++ digits)), mode := .text } = _
  rw [List.nil_append, Nat.max_eq_right hpos, ← hmode]

/-- A new line. -/
theorem write_newline (hmode : s.mode = .text) :
    s.write [0x0d, 0x0a] = { s with above := s.above ++ [s.line], line := [], column := 0 } := by
  obtain ⟨above, line, column, mode⟩ := s
  subst hmode
  rfl

end Screen
