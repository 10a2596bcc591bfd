import Bison.Lib.TwoPart
import Bison.Core.Value

/-!
# The line editor's state

`line_edit_state` of line_editor.cpp: a buffer with a cursor, and a walk through the history.

- `LineEditState.apply`: one key event. `Reached`: what calls of the class's functions lead to.
- `Editor`: what the state is for, as a line in two parts and the number of lines gone back; going
  back and coming forward again shows the draft (`downs_ups_text`).
- `view_apply`: each key event is the same edit of the two parts.
- `line_edit_state_reached`: **main result**, cursor and history index stay in range, every edit is
  that of the two parts, and as many Downs as Ups give back what was typed.
-/

namespace Bison.App

/-- `editor_key`. -/
inductive EditorKey where
  | charInput
  | backspace
  | deleteForward
  | arrowLeft
  | arrowRight
  | arrowUp
  | arrowDown
  | home
  | «end»
  | enter
  | eof
  | interrupt
  | ignored
  deriving DecidableEq, Repr

/-- `key_event`. -/
structure KeyEvent where
  key : EditorKey
  ch : UInt8
  deriving DecidableEq, Repr

/-- `line_edit_state::outcome`. -/
inductive Outcome where
  | editing
  | submitted
  | cancelled
  | eof
  deriving DecidableEq, Repr

/-- `line_edit_state`, less the history that it refers to. -/
structure LineEditState where
  buffer : List UInt8 := []
  cursor : Nat := 0
  /-- Unset while no line of the history is shown. -/
  historyIndex : Option Nat := none
  draft : List UInt8 := []
  deriving DecidableEq, Repr

/-- The lines submitted so far, the oldest first. -/
abbrev History := List (List UInt8)

namespace LineEditState

variable (history : History)

/-- The end of `navigate_history`: the line at the index is shown. -/
def showEntry (s : LineEditState) (i : Nat) : LineEditState :=
  { s with
    historyIndex := some i, buffer := history.getD i [], cursor := (history.getD i []).length }

/-- `navigate_history` (line_editor.cpp:95). A `long` holds the index of every line in memory. -/
def navigateHistory (s : LineEditState) (delta : Int) : LineEditState :=
  if history.isEmpty then s
  else match s.historyIndex with
    | none =>
      if delta > 0 then s
      else { s with draft := s.buffer }.showEntry history (history.length - 1)
    | some i =>
      let next : Int := i + delta
      if next < 0 then s
      else if next.toNat ≥ history.length then
        { s with historyIndex := none, buffer := s.draft, cursor := s.draft.length }
      else s.showEntry history next.toNat

/-- What Delete does, and Ctrl+D on a line that is not empty. -/
def eraseForward (s : LineEditState) : LineEditState :=
  if s.cursor < s.buffer.length then
    { s with buffer := s.buffer.eraseIdx s.cursor, historyIndex := none }
  else s

/-- `line_edit_state::apply` (line_editor.cpp:19). -/
def apply (s : LineEditState) (ev : KeyEvent) : Outcome × LineEditState :=
  match ev.key with
  | .charInput =>
    (.editing, { s with
      buffer := s.buffer.insertIdx s.cursor ev.ch, cursor := s.cursor + 1, historyIndex := none })
  | .backspace =>
    if s.cursor > 0 then
      (.editing, { s with
        buffer := s.buffer.eraseIdx (s.cursor - 1), cursor := s.cursor - 1, historyIndex := none })
    else (.editing, s)
  | .deleteForward => (.editing, s.eraseForward)
  | .arrowLeft => (.editing, if s.cursor > 0 then { s with cursor := s.cursor - 1 } else s)
  | .arrowRight =>
    (.editing, if s.cursor < s.buffer.length then { s with cursor := s.cursor + 1 } else s)
  | .home => (.editing, { s with cursor := 0 })
  | .end => (.editing, { s with cursor := s.buffer.length })
  | .arrowUp => (.editing, s.navigateHistory history (-1))
  | .arrowDown => (.editing, s.navigateHistory history 1)
  | .enter => (.submitted, s)
  | .interrupt => (.cancelled, s)
  | .eof => if s.buffer.isEmpty then (.eof, s) else (.editing, s.eraseForward)
  | .ignored => (.editing, s)

/-- `line_edit_state::reset` (line_editor.cpp:88). -/
def reset (_ : LineEditState) : LineEditState :=
  { buffer := [], cursor := 0, historyIndex := none, draft := [] }

/-- The key events one after the other. -/
def applyAll (s : LineEditState) (events : List KeyEvent) : LineEditState :=
  events.foldl (fun s ev => (s.apply history ev).2) s

/-- The states that the functions of the class lead to. -/
inductive Reached : LineEditState → Prop where
  | start : Reached {}
  | apply {s} (h : Reached s) (ev : KeyEvent) : Reached (s.apply history ev).2
  | reset {s} (h : Reached s) : Reached s.reset

/-- What holds in every state. -/
structure Valid (s : LineEditState) : Prop where
  cursor_le : s.cursor ≤ s.buffer.length
  index_lt : ∀ i, s.historyIndex = some i → i < history.length

end LineEditState

/-! ## The editor as a line in two parts -/

/-- A line with its cursor, the number of lines gone back in the history, and what was typed before
going back. -/
structure Editor where
  line : TwoPart UInt8
  back : Nat
  draft : List UInt8

namespace Editor

variable (history : History)

/-- The line so many lines back, with the cursor at its end. -/
def go (draft : List UInt8) : Nat → Editor
  | 0 => ⟨⟨draft, []⟩, 0, draft⟩
  | back + 1 => ⟨⟨history.reverse.getD back [], []⟩, back + 1, draft⟩

/-- One line back, up to the oldest one. -/
def up (e : Editor) : Editor :=
  if e.back < history.length then
    go history (if e.back = 0 then e.line.text else e.draft) (e.back + 1)
  else e

/-- One line forward, up to the draft. -/
def down (e : Editor) : Editor := if e.back = 0 then e else go history e.draft (e.back - 1)

/-- Delete, and Ctrl+D. -/
def eraseForward (e : Editor) : Editor :=
  if e.line.after = [] then e else { e with line := e.line.eraseAfter, back := 0 }

/-- What each key is for. -/
def press (e : Editor) (ev : KeyEvent) : Editor :=
  match ev.key with
  | .charInput => { e with line := e.line.insert ev.ch, back := 0 }
  | .backspace =>
    if e.line.before = [] then e else { e with line := e.line.eraseBefore, back := 0 }
  | .deleteForward => e.eraseForward
  | .arrowLeft => { e with line := e.line.left }
  | .arrowRight => { e with line := e.line.right }
  | .home => { e with line := e.line.toStart }
  | .end => { e with line := e.line.toEnd }
  | .arrowUp => e.up history
  | .arrowDown => e.down history
  | .eof => e.eraseForward
  | .enter => e
  | .interrupt => e
  | .ignored => e

variable {history}

@[simp] theorem go_back (draft : List UInt8) (back : Nat) :
    (go history draft back).back = back := by
  cases back <;> rfl

@[simp] theorem go_draft (draft : List UInt8) (back : Nat) :
    (go history draft back).draft = draft := by
  cases back <;> rfl

theorem up_go {draft : List UInt8} {back : Nat} (h : back < history.length) :
    (go history draft back).up history = go history draft (back + 1) := by
  rw [up, go_back, if_pos h]
  cases back with
  | zero => rw [if_pos rfl, go, TwoPart.text, List.append_nil]
  | succ back => rw [if_neg (Nat.succ_ne_zero back), go_draft]

theorem down_go (draft : List UInt8) (back : Nat) :
    (go history draft (back + 1)).down history = go history draft back := by
  rw [down, go_back, if_neg (Nat.succ_ne_zero back), go_draft, Nat.add_sub_cancel]

/-- Going back from what is typed. -/
theorem up_typed {e : Editor} (h : e.back = 0) (hpos : 0 < history.length) :
    e.up history = go history e.line.text 1 := by
  rw [up, h, if_pos hpos, if_pos rfl]

theorem ups_go {draft : List UInt8} {back k : Nat} (h : back + k ≤ history.length) :
    (up history)^[k] (go history draft back) = go history draft (back + k) := by
  induction k generalizing back with
  | zero => rfl
  | succ k ih =>
    rw [Function.iterate_succ_apply, up_go (by omega), ih (by omega)]
    congr 1
    omega

theorem downs_go (draft : List UInt8) (k : Nat) :
    (down history)^[k] (go history draft k) = go history draft 0 := by
  induction k with
  | zero => rfl
  | succ k ih => rw [Function.iterate_succ_apply, down_go, ih]

/-- As many lines forward as back give the text that was typed. -/
theorem downs_ups_text {e : Editor} (h : e.back = 0) {k : Nat} (hk : k ≤ history.length) :
    ((down history)^[k] ((up history)^[k] e)).line.text = e.line.text := by
  cases k with
  | zero => rfl
  | succ k =>
    rw [Function.iterate_succ_apply (up history), up_typed h (by omega), ups_go (by omega),
      Nat.add_comm 1 k, downs_go]
    exact List.append_nil _

end Editor

/-! ## The state of the source is such an editor -/

namespace LineEditState

/-- The editor that a state stands for. -/
def view (history : History) (s : LineEditState) : Editor where
  line := .split s.buffer s.cursor
  back := s.historyIndex.elim 0 (history.length - ·)
  draft := s.draft

variable {history : History} {s : LineEditState}

theorem view_showEntry {i : Nat} (h : i < history.length) :
    (s.showEntry history i).view history = .go history s.draft (history.length - i) := by
  obtain ⟨back, hback⟩ : ∃ back, history.length - i = back + 1 := ⟨history.length - i - 1, by omega⟩
  have hentry : history.reverse.getD back [] = history.getD i [] := by
    rw [List.getD_eq_getElem?_getD, List.getElem?_reverse (by omega), List.getD_eq_getElem?_getD]
    congr 2
    omega
  rw [hback, Editor.go, hentry, view, showEntry, TwoPart.split_of_length_le (Nat.le_refl _)]
  exact congrArg (Editor.mk _ · _) hback

theorem view_up (hs : s.Valid history) :
    (s.navigateHistory history (-1)).view history = (s.view history).up history := by
  unfold navigateHistory
  split
  next hempty =>
    rw [List.isEmpty_iff] at hempty
    rw [Editor.up, if_neg (by simp [hempty])]
  next hempty =>
    rw [List.isEmpty_iff] at hempty
    have hpos : 0 < history.length := List.length_pos_of_ne_nil hempty
    split
    next hindex =>
      -- what is typed is kept, and the newest line shown
      have hback : (s.view history).back = 0 := by simp [view, hindex]
      rw [if_neg (by decide), view_showEntry (by omega), Editor.up_typed hback hpos, view,
        TwoPart.text_split, Nat.sub_sub_self hpos]
    next i hindex =>
      have hlt := hs.index_lt i hindex
      have hback : (s.view history).back = history.length - i := by simp [view, hindex]
      dsimp only
      split_ifs with holdest hnewest
      · -- at the oldest line
        rw [Editor.up, hback, if_neg (by omega)]
      · omega
      · rw [view_showEntry (by omega), Editor.up, hback, if_pos (by omega), if_neg (by omega)]
        congr 1
        omega

theorem view_down (hs : s.Valid history) :
    (s.navigateHistory history 1).view history = (s.view history).down history := by
  unfold navigateHistory
  split
  next hempty =>
    -- without lines none is shown
    have hindex : s.historyIndex = none := by
      cases hindex : s.historyIndex with
      | none => rfl
      | some i =>
        have hlt := hs.index_lt i hindex
        rw [List.isEmpty_iff.1 hempty] at hlt
        exact absurd hlt (Nat.not_lt_zero i)
    rw [Editor.down, if_pos (by simp [view, hindex])]
  next hempty =>
    split
    next hindex => rw [if_pos (by decide), Editor.down, if_pos (by simp [view, hindex])]
    next i hindex =>
      have hlt := hs.index_lt i hindex
      have hback : (s.view history).back = history.length - i := by simp [view, hindex]
      dsimp only
      split_ifs with holdest hnewest
      · omega
      · -- past the newest line
        have hone : history.length - i = 1 := by omega
        rw [Editor.down, hback, hone, if_neg Nat.one_ne_zero, Nat.sub_self, view, Editor.go,
          TwoPart.split_of_length_le (Nat.le_refl _)]
        rfl
      · rw [view_showEntry (by omega), Editor.down, hback, if_neg (by omega)]
        congr 1

theorem view_before_eq_nil (hs : s.Valid history) :
    (s.view history).line.before = [] ↔ s.cursor = 0 := by
  rw [view, TwoPart.split, ← List.length_eq_zero_iff, List.length_take_of_le hs.cursor_le]

theorem view_after_eq_nil : (s.view history).line.after = [] ↔ s.buffer.length ≤ s.cursor :=
  List.drop_eq_nil_iff

theorem view_eraseForward (hs : s.Valid history) :
    (s.eraseForward).view history = (s.view history).eraseForward := by
  unfold eraseForward Editor.eraseForward
  split_ifs with hlt hnil hnil
  · exact absurd (view_after_eq_nil.1 hnil) (by omega)
  · rw [view, TwoPart.split_eraseIdx _ hs.cursor_le]
    rfl
  · rfl
  · exact absurd (view_after_eq_nil.2 (by omega)) hnil

/-- Each key event edits the two parts. -/
theorem view_apply (hs : s.Valid history) (ev : KeyEvent) :
    (s.apply history ev).2.view history = (s.view history).press history ev := by
  obtain ⟨key, ch⟩ := ev
  have hcursor := hs.cursor_le
  cases key with
  | charInput =>
    simp only [apply, Editor.press, view]
    rw [TwoPart.split_insertIdx hcursor]
    rfl
  | backspace =>
    simp only [apply, Editor.press]
    by_cases hpos : s.cursor > 0
    · rw [if_pos hpos, if_neg fun h => Nat.ne_of_gt hpos ((view_before_eq_nil hs).1 h)]
      simp only [view]
      rw [TwoPart.split_eraseIdx_pred hpos hcursor]
      rfl
    · rw [if_neg hpos, if_pos ((view_before_eq_nil hs).2 (Nat.eq_zero_of_not_pos hpos))]
  | deleteForward => exact view_eraseForward hs
  | arrowLeft =>
    -- at the beginning there is nothing to subtract from
    have hleft : (if s.cursor > 0 then { s with cursor := s.cursor - 1 } else s) =
        { s with cursor := s.cursor - 1 } := by
      split_ifs with hpos
      · rfl
      · rw [Nat.sub_eq_zero_of_le (by omega), ← Nat.eq_zero_of_not_pos hpos]
    simp only [apply, Editor.press, hleft, view]
    rw [TwoPart.split_pred hcursor]
  | arrowRight =>
    simp only [apply, Editor.press]
    split_ifs with hlt
    · simp only [view]
      rw [TwoPart.split_succ hlt]
    · -- the cursor is at the end
      have hafter : (s.view history).line.after = [] :=
        view_after_eq_nil.2 (Nat.not_lt.1 hlt)
      rw [TwoPart.right_of_after_eq_nil hafter]
  | home =>
    simp only [apply, Editor.press, view]
    rw [TwoPart.split_zero]
  | «end» =>
    simp only [apply, Editor.press, view]
    rw [TwoPart.split_length]
  | arrowUp => exact view_up hs
  | arrowDown => exact view_down hs
  | eof =>
    simp only [apply, Editor.press]
    split
    next hempty =>
      rw [List.isEmpty_iff] at hempty
      have hafter : (s.view history).line.after = [] := view_after_eq_nil.2 (by simp [hempty])
      rw [Editor.eraseForward, if_pos hafter]
    next => exact view_eraseForward hs
  | enter => rfl
  | interrupt => rfl
  | ignored => rfl

/-! ## Every state -/

theorem valid_empty : ({} : LineEditState).Valid history := ⟨Nat.le_refl _, fun _ h => by cases h⟩

theorem Valid.showEntry {i : Nat} (h : i < history.length) :
    (s.showEntry history i).Valid history := by
  refine ⟨Nat.le_refl _, fun j hj => ?_⟩
  cases hj
  exact h

theorem Valid.navigateHistory (hs : s.Valid history) (delta : Int) :
    (s.navigateHistory history delta).Valid history := by
  unfold LineEditState.navigateHistory
  split
  next => exact hs
  next hempty =>
    rw [List.isEmpty_iff] at hempty
    have hpos : 0 < history.length := List.length_pos_of_ne_nil hempty
    split
    next =>
      split_ifs
      · exact hs
      · exact Valid.showEntry (Nat.sub_lt hpos Nat.one_pos)
    next =>
      dsimp only
      split_ifs with _ hnewest
      · exact hs
      · exact ⟨Nat.le_refl _, fun _ h => by cases h⟩
      · exact Valid.showEntry (Nat.not_le.1 hnewest)

theorem Valid.eraseForward (hs : s.Valid history) : s.eraseForward.Valid history := by
  unfold LineEditState.eraseForward
  split_ifs with hlt
  · refine ⟨?_, fun _ h => by cases h⟩
    rw [List.length_eraseIdx_of_lt hlt]
    exact Nat.le_sub_one_of_lt hlt
  · exact hs

/-- One key event. -/
theorem Valid.apply (hs : s.Valid history) (ev : KeyEvent) :
    (s.apply history ev).2.Valid history := by
  obtain ⟨key, ch⟩ := ev
  have hcursor := hs.cursor_le
  have hindex := hs.index_lt
  cases key with
  | charInput =>
    refine ⟨?_, fun _ h => by cases h⟩
    simp only [LineEditState.apply]
    rw [List.length_insertIdx_of_le_length hcursor]
    omega
  | backspace =>
    simp only [LineEditState.apply]
    split_ifs with hpos
    · refine ⟨?_, fun _ h => by cases h⟩
      simp only
      rw [List.length_eraseIdx_of_lt (by omega)]
      omega
    · exact hs
  | deleteForward => exact hs.eraseForward
  | arrowLeft =>
    simp only [LineEditState.apply]
    split_ifs with hpos
    · exact ⟨(Nat.sub_le _ _).trans hcursor, hindex⟩
    · exact hs
  | arrowRight =>
    simp only [LineEditState.apply]
    split_ifs with hlt
    · exact ⟨hlt, hindex⟩
    · exact hs
  | home => exact ⟨Nat.zero_le _, hindex⟩
  | «end» => exact ⟨Nat.le_refl _, hindex⟩
  | arrowUp => exact hs.navigateHistory (-1)
  | arrowDown => exact hs.navigateHistory 1
  | eof =>
    simp only [LineEditState.apply]
    split_ifs
    · exact hs
    · exact hs.eraseForward
  | enter => exact hs
  | interrupt => exact hs
  | ignored => exact hs

theorem Reached.valid (h : Reached history s) : s.Valid history := by
  induction h with
  | start => exact valid_empty
  | apply _ ev ih => exact ih.apply ev
  | reset _ _ => exact valid_empty

/-- A run of key events is a run of edits. -/
theorem view_applyAll (hs : s.Valid history) (events : List KeyEvent) :
    (s.applyAll history events).view history =
      events.foldl (Editor.press history) (s.view history) := by
  induction events generalizing s with
  | nil => rfl
  | cons ev events ih =>
    rw [List.foldl_cons, ← view_apply hs ev]
    exact ih (hs.apply ev)

theorem press_replicate (e : Editor) (ev : KeyEvent) (k : Nat) :
    (List.replicate k ev).foldl (Editor.press history) e =
      (fun e => Editor.press history e ev)^[k] e := by
  induction k generalizing e with
  | zero => rfl
  | succ k ih => rw [List.replicate_succ, List.foldl_cons, ih, Function.iterate_succ_apply]

theorem view_text : (s.view history).line.text = s.buffer := TwoPart.text_split _ _

/-- As many Downs as Ups give back what was typed. -/
theorem buffer_downs_ups (hs : s.Valid history) (htyped : s.historyIndex = none) {k : Nat}
    (hk : k ≤ history.length) :
    (s.applyAll history
      (List.replicate k ⟨.arrowUp, 0⟩ ++ List.replicate k ⟨.arrowDown, 0⟩)).buffer = s.buffer := by
  have hback : (s.view history).back = 0 := by simp [view, htyped]
  rw [← @view_text history, view_applyAll hs, List.foldl_append, press_replicate,
    press_replicate]
  exact (Editor.downs_ups_text hback hk).trans view_text

/-- **Main result**: in every state that the functions of the class lead to, cursor and history
index are in range, each key event is the edit of the two parts, and, unless a line of the history
is shown, as many Downs as Ups give back the buffer. -/
theorem line_edit_state_reached (history : History) {s : LineEditState} (h : Reached history s) :
    s.cursor ≤ s.buffer.length ∧ (∀ i, s.historyIndex = some i → i < history.length) ∧
    (∀ ev, (s.apply history ev).2.view history = (s.view history).press history ev) ∧
    (s.historyIndex = none → ∀ k ≤ history.length,
      (s.applyAll history
        (List.replicate k ⟨.arrowUp, 0⟩ ++ List.replicate k ⟨.arrowDown, 0⟩)).buffer = s.buffer) :=
  have hs := h.valid
  ⟨hs.cursor_le, hs.index_lt, view_apply hs, fun htyped _ hk => buffer_downs_ups hs htyped hk⟩

theorem line_edit_state_reached_typed :
    ((({} : LineEditState).apply [[120]] ⟨.charInput, 97⟩).2.applyAll [[120]]
      (List.replicate 1 ⟨.arrowUp, 0⟩ ++ List.replicate 1 ⟨.arrowDown, 0⟩)).buffer = [97] :=
  (line_edit_state_reached [[120]] (.apply .start ⟨.charInput, 97⟩)).2.2.2 rfl 1 (Nat.le_refl 1)

end LineEditState

end Bison.App
