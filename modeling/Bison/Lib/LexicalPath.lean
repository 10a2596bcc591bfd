import Mathlib.Data.List.Basic

/-!
# Lexical paths

A path is split at its separators; what is left of its components when `.` goes and `..` takes the
name in front of it is its lexical normal form.

- `normal`: the names of the normal form.
- `DirectChild`: a file that is in a directory, and not in one below or beside it.
- `directChild_join`: a name without a separator, joined to any directory, is a direct child of it.
-/

namespace LexicalPath

universe u

variable {α : Type u} [DecidableEq α] (sep dot : α)

/-- A component that names a file. -/
def IsName (c : List α) : Prop := c ≠ [] ∧ c ≠ [dot] ∧ c ≠ [dot, dot]

/-- The path begins at the root. -/
def rooted (path : List α) : Bool := path.head? = some sep

/-- One component, after what is left of those before it. Above the root is the root. -/
def step (rooted : Bool) (names : List (List α)) (c : List α) : List (List α) :=
  if c = [] ∨ c = [dot] then names
  else if c = [dot, dot] then
    match names.getLast? with
    | none => if rooted then [] else [c]
    | some last => if last = [dot, dot] then names ++ [c] else names.dropLast
  else names ++ [c]

/-- The names of the normal form. -/
def normal (path : List α) : List (List α) :=
  (path.splitOn sep).foldl (step dot (rooted sep path)) []

/-- `dir / name`. -/
def join (dir name : List α) : List α :=
  if dir = [] then name
  else if dir.getLast? = some sep then dir ++ name
  else dir ++ sep :: name

/-- The file has the names of the directory, and one more that ends the path. -/
def DirectChild (dir file : List α) : Prop :=
  rooted sep file = rooted sep dir ∧ ∃ name, IsName dot name ∧
    (file.splitOn sep).getLast? = some name ∧ normal sep dot file = normal sep dot dir ++ [name]

variable {sep dot} {dir name name' : List α}

theorem step_name (h : IsName dot name) (rooted : Bool) (names : List (List α)) :
    step dot rooted names name = names ++ [name] := by
  rw [step, if_neg (not_or.2 ⟨h.1, h.2.1⟩), if_neg h.2.2]

theorem step_nil (rooted : Bool) (names : List (List α)) : step dot rooted names [] = names := by
  rw [step, if_pos (.inl rfl)]

theorem rooted_join (hsep : sep ∉ name) : rooted sep (join sep dir name) = rooted sep dir := by
  unfold rooted join
  cases dir with
  | nil =>
    cases name with
    | nil => rfl
    | cons c name =>
      have hc : c ≠ sep := fun h => hsep (h ▸ List.mem_cons_self)
      simp [hc]
  | cons c dir =>
    rw [if_neg (List.cons_ne_nil c dir)]
    split_ifs <;> rfl

/-- The components of the directory, but for an empty one at its end, and the name. -/
theorem splitOn_join (hsep : sep ∉ name) : ∃ front, (join sep dir name).splitOn sep =
    front ++ [name] ∧ (dir.splitOn sep = front ∨ dir.splitOn sep = front ++ [[]]) := by
  unfold join
  split_ifs with hnil hlast
  · refine ⟨[], ?_, .inr ?_⟩
    · rw [List.splitOn_eq_singleton hsep, List.nil_append]
    · rw [hnil]
      rfl
  · obtain ⟨front, rfl⟩ := List.getLast?_eq_some_iff.1 hlast
    refine ⟨front.splitOn sep, ?_, .inr ?_⟩
    · rw [List.append_assoc, List.singleton_append, List.splitOn_append_cons_self,
        List.splitOn_eq_singleton hsep]
    · rw [List.splitOn_append_cons_self]
      rfl
  · refine ⟨dir.splitOn sep, ?_, .inl rfl⟩
    rw [List.splitOn_append_cons_self, List.splitOn_eq_singleton hsep]

theorem normal_join (hname : IsName dot name) (hsep : sep ∉ name) :
    normal sep dot (join sep dir name) = normal sep dot dir ++ [name] := by
  obtain ⟨front, hjoin, hdir⟩ := @splitOn_join _ _ sep dir name hsep
  rw [normal, hjoin, rooted_join hsep, List.foldl_append, List.foldl_cons, List.foldl_nil,
    step_name hname, normal]
  rcases hdir with hdir | hdir
  · rw [hdir]
  · rw [hdir, List.foldl_append, List.foldl_cons, List.foldl_nil, step_nil]

/-- A name without a separator stays in the directory. -/
theorem directChild_join (hname : IsName dot name) (hsep : sep ∉ name) :
    DirectChild sep dot dir (join sep dir name) := by
  obtain ⟨front, hjoin, -⟩ := @splitOn_join _ _ sep dir name hsep
  refine ⟨rooted_join hsep, name, hname, ?_, normal_join hname hsep⟩
  rw [hjoin, List.getLast?_append_of_ne_nil _ (List.cons_ne_nil name [])]
  rfl

/-- Different names are different files. -/
theorem normal_join_injective (hname : IsName dot name) (hsep : sep ∉ name)
    (hname' : IsName dot name') (hsep' : sep ∉ name')
    (h : normal sep dot (join sep dir name) = normal sep dot (join sep dir name')) :
    name = name' := by
  rw [normal_join hname hsep, normal_join hname' hsep'] at h
  exact List.singleton_inj.1 (List.append_cancel_left h)

end LexicalPath
