import Mathlib.Data.List.InsertIdx

/-!
# Two-part lists

A list with a place in it is the part before the place and the part after it. An edit at the place
takes an element from the near end of a part, or puts one there.

- `TwoPart.split`: the two parts of a list at an index.
- `split_insertIdx`, `split_eraseIdx_pred`, `split_eraseIdx`, `split_pred`, `split_succ`: an edit of
  the list at the index is the edit between the parts.
-/

universe u

/-- The elements before a place and the ones after it. -/
structure TwoPart (α : Type u) where
  before : List α
  after : List α

namespace TwoPart

variable {α : Type u}

/-- The whole list. -/
def text (z : TwoPart α) : List α := z.before ++ z.after

def insert (z : TwoPart α) (a : α) : TwoPart α := ⟨z.before ++ [a], z.after⟩

def eraseBefore (z : TwoPart α) : TwoPart α := ⟨z.before.dropLast, z.after⟩

def eraseAfter (z : TwoPart α) : TwoPart α := ⟨z.before, z.after.tail⟩

/-- One element back, if there is one. -/
def left (z : TwoPart α) : TwoPart α := ⟨z.before.dropLast, z.before.getLast?.toList ++ z.after⟩

/-- One element on, if there is one. -/
def right (z : TwoPart α) : TwoPart α := ⟨z.before ++ z.after.head?.toList, z.after.tail⟩

def toStart (z : TwoPart α) : TwoPart α := ⟨[], z.text⟩

def toEnd (z : TwoPart α) : TwoPart α := ⟨z.text, []⟩

/-- The parts of a list at an index. -/
def split (l : List α) (i : Nat) : TwoPart α := ⟨l.take i, l.drop i⟩

@[simp] theorem text_split (l : List α) (i : Nat) : (split l i).text = l :=
  List.take_append_drop i l

/-- A two-part list is its text, split where the first part ends. -/
@[simp] theorem split_text (z : TwoPart α) : split z.text z.before.length = z := by
  simp [split, text]

theorem exists_split {l : List α} {i : Nat} (h : i ≤ l.length) :
    ∃ z : TwoPart α, z.text = l ∧ z.before.length = i :=
  ⟨split l i, text_split l i, List.length_take_of_le h⟩

theorem split_zero (l : List α) (i : Nat) : split l 0 = (split l i).toStart := by
  rw [toStart, text_split]
  rfl

theorem split_length (l : List α) (i : Nat) : split l l.length = (split l i).toEnd := by
  rw [toEnd, text_split, split, List.take_length, List.drop_length]

/-- An edit whose text and place are known. -/
theorem split_eq {z : TwoPart α} {l : List α} {i : Nat} (htext : l = z.text)
    (hplace : i = z.before.length) : split l i = z := by
  rw [htext, hplace, split_text]

theorem insertIdx_append (l r : List α) (a : α) : (l ++ r).insertIdx l.length a = l ++ a :: r := by
  induction l with
  | nil => rfl
  | cons b l ih => rw [List.cons_append, List.length_cons, List.insertIdx_succ_cons, ih]; rfl

theorem split_insertIdx {l : List α} {i : Nat} (h : i ≤ l.length) (a : α) :
    split (l.insertIdx i a) (i + 1) = (split l i).insert a := by
  obtain ⟨z, rfl, rfl⟩ := exists_split h
  rw [split_text]
  refine split_eq ?_ ?_
  · rw [text, insertIdx_append, text, insert, List.append_assoc]
    rfl
  · rw [insert, List.length_append]
    rfl

theorem split_eraseIdx (l : List α) {i : Nat} (h : i ≤ l.length) :
    split (l.eraseIdx i) i = (split l i).eraseAfter := by
  obtain ⟨z, rfl, rfl⟩ := exists_split h
  rw [split_text]
  refine split_eq ?_ rfl
  rw [text, List.eraseIdx_append_of_length_le (Nat.le_refl _), Nat.sub_self, List.eraseIdx_zero]
  rfl

theorem split_eraseIdx_pred {l : List α} {i : Nat} (hpos : 0 < i) (h : i ≤ l.length) :
    split (l.eraseIdx (i - 1)) (i - 1) = (split l i).eraseBefore := by
  obtain ⟨⟨before, after⟩, rfl, rfl⟩ := exists_split h
  rw [split_text]
  rcases List.eq_nil_or_concat before with rfl | ⟨before, a, rfl⟩
  · exact absurd hpos (Nat.lt_irrefl 0)
  · refine split_eq ?_ ?_
    · simp [text, eraseBefore, List.eraseIdx_append_of_length_le]
    · simp [eraseBefore]

/-- Going back from the first place changes nothing. -/
theorem split_pred {l : List α} {i : Nat} (h : i ≤ l.length) :
    split l (i - 1) = (split l i).left := by
  obtain ⟨⟨before, after⟩, rfl, rfl⟩ := exists_split h
  rw [split_text]
  rcases List.eq_nil_or_concat before with rfl | ⟨before, a, rfl⟩
  · rfl
  · refine split_eq ?_ ?_
    · simp [text, left]
    · simp [left]

theorem split_succ {l : List α} {i : Nat} (h : i < l.length) :
    split l (i + 1) = (split l i).right := by
  obtain ⟨⟨before, after⟩, rfl, rfl⟩ := exists_split (Nat.le_of_lt h)
  rw [split_text]
  cases after with
  | nil =>
    rw [text, List.append_nil] at h
    exact absurd h (Nat.lt_irrefl _)
  | cons a after =>
    refine split_eq ?_ ?_
    · simp [text, right]
    · simp [right]

/-- At the end there is nothing to go on to. -/
theorem right_of_after_eq_nil {z : TwoPart α} (h : z.after = []) : z.right = z := by
  obtain ⟨before, after⟩ := z
  cases h
  exact congrArg (TwoPart.mk · []) (List.append_nil before)

theorem split_of_length_le {l : List α} {i : Nat} (h : l.length ≤ i) : split l i = ⟨l, []⟩ := by
  rw [split, List.take_of_length_le h, List.drop_of_length_le h]

end TwoPart
