import Mathlib.Data.List.DropRight
import Bison.Lib.JsonText

/-!
# The arguments of a call

A line of the command line calls with arguments in parentheses, which are JSON texts with commas
between them (cli_app.cpp). One scanner finds the parenthesis that closes, the other the commas.

- `extractParens`, `splitArgs`: the two scanners, which begin with the same handling of strings.
- `Argument`: a JSON text and the blanks around it. `joined`: arguments as they are written.
- `splitArgs_extractParens`: **main result**, the arguments come back, whatever text is around them.
-/

namespace Bison.App

open JsonText

def isBlank (b : UInt8) : Bool := decide (Blank b)

/-- `trim` (cli_app.cpp:85). -/
def trim (s : List UInt8) : List UInt8 := (s.dropWhile isBlank).rdropWhile isBlank

/-- The loop of `extract_parens` (cli_app.cpp:97), with what it has seen since the parenthesis. The
depth is an `int` of the source, without its bound. -/
def extractLoop (q : Quoting) (depth : Nat) (seen : List UInt8) : List UInt8 → List UInt8
  | [] => []
  | c :: rest =>
    match q.skip c with
    | some q => extractLoop q depth (seen ++ [c]) rest
    | none =>
      if Opens c then extractLoop q (depth + 1) (seen ++ [c]) rest
      else if Closes c then
        if depth - 1 = 0 then seen else extractLoop q (depth - 1) (seen ++ [c]) rest
      else extractLoop q depth (seen ++ [c]) rest

/-- `extract_parens` (cli_app.cpp:93). -/
def extractParens (s : List UInt8) (openPos : Nat) : List UInt8 :=
  extractLoop {} 1 [] (s.drop (openPos + 1))

/-- An argument is kept unless it is empty (cli_app.cpp:152). -/
def pushArg (result : List (List UInt8)) (s : List UInt8) : List (List UInt8) :=
  if trim s = [] then result else result ++ [trim s]

/-- The loop of `split_args` (cli_app.cpp:129), with what it has seen since the last comma. -/
def splitLoop (result : List (List UInt8)) (q : Quoting) (depth : Nat) (seen : List UInt8) :
    List UInt8 → List (List UInt8)
  | [] => pushArg result seen
  | c :: rest =>
    match q.skip c with
    | some q => splitLoop result q depth (seen ++ [c]) rest
    | none =>
      if Opens c then splitLoop result q (depth + 1) (seen ++ [c]) rest
      else if Closes c then
        splitLoop result q (if depth > 0 then depth - 1 else depth) (seen ++ [c]) rest
      else if c = 0x2c ∧ depth = 0 then splitLoop (pushArg result seen) q depth [] rest
      else splitLoop result q depth (seen ++ [c]) rest

/-- `split_args` (cli_app.cpp:124). -/
def splitArgs (s : List UInt8) : List (List UInt8) := splitLoop [] {} 0 [] s

/-! ## What is written -/

/-- A JSON text, with the blanks around it. -/
structure Argument where
  before : List UInt8
  text : List UInt8
  after : List UInt8
  blanksBefore : Blanks before
  json : Json .value text
  blanksAfter : Blanks after

def Argument.written (a : Argument) : List UInt8 := a.before ++ a.text ++ a.after

/-- The arguments, with commas between them. -/
def joined : List Argument → List UInt8
  | [] => []
  | [a] => a.written
  | a :: a' :: args => a.written ++ [0x2c] ++ joined (a' :: args)

/-! ## The scanners -/

theorem skip_start {c : UInt8} (h : c ≠ 0x22) : Quoting.skip {} c = none := by
  simp only [Quoting.skip, h, Bool.false_eq_true, if_false]

theorem Opens.ne_quote {c : UInt8} (h : Opens c) : c ≠ 0x22 := by
  rcases h with rfl | rfl | rfl <;> decide

theorem Closes.ne_quote {c : UInt8} (h : Closes c) : c ≠ 0x22 := by
  rcases h with rfl | rfl | rfl <;> decide

theorem Closes.not_opens {c : UInt8} (h : Closes c) : ¬ Opens c := by
  rcases h with rfl | rfl | rfl <;> decide

/-- Inside the parentheses. -/
theorem scanner_extractLoop : Scanner fun q d => extractLoop q (d + 1) where
  skip h := by
    rw [extractLoop, h]
  opens h := by
    rw [extractLoop, skip_start (Opens.ne_quote h)]
    exact if_pos h
  closes {c d seen rest} h := by
    rw [extractLoop, skip_start (Closes.ne_quote h)]
    simp only [if_neg (Closes.not_opens h), if_pos h]
    rfl
  comma := rfl
  plain h := by
    rw [extractLoop, skip_start h.1]
    simp only [if_neg h.2.2.1, if_neg h.2.2.2]

theorem scanner_splitLoop (result : List (List UInt8)) : Scanner (splitLoop result) where
  skip h := by
    rw [splitLoop, h]
  opens h := by
    rw [splitLoop, skip_start (Opens.ne_quote h)]
    exact if_pos h
  closes {c d seen rest} h := by
    rw [splitLoop, skip_start (Closes.ne_quote h)]
    simp only [if_neg (Closes.not_opens h), if_pos h]
    rfl
  comma := rfl
  plain h := by
    rw [splitLoop, skip_start h.1]
    simp only [if_neg h.2.2.1, if_neg h.2.2.2, h.2.1, false_and, if_false]

/-! ## Blanks -/

theorem trim_blanks {w : List UInt8} (h : Blanks w) : trim w = [] := by
  have hdrop : w.dropWhile isBlank = [] :=
    List.dropWhile_eq_nil_iff.2 fun b hb => decide_eq_true (h b hb)
  rw [trim, hdrop]
  rfl

theorem dropWhile_blanks {w s : List UInt8} {a : UInt8} (h : Blanks w) (ha : ¬ Blank a) :
    (w ++ a :: s).dropWhile isBlank = a :: s := by
  have hneg : ¬ isBlank a = true := fun hblank => ha (of_decide_eq_true hblank)
  have hpos : ∀ b ∈ w, isBlank b = true := fun b hb => decide_eq_true (h b hb)
  rw [List.dropWhile_append_of_pos hpos, List.dropWhile_cons_of_neg hneg]

theorem rdropWhile_blanks {s w : List UInt8} {b : UInt8} (hb : ¬ Blank b) (h : Blanks w) :
    (s ++ [b] ++ w).rdropWhile isBlank = s ++ [b] := by
  induction w using List.reverseRecOn with
  | nil =>
    have hneg : ¬ isBlank b = true := fun hblank => hb (of_decide_eq_true hblank)
    rw [List.append_nil, List.rdropWhile_concat_neg _ _ _ hneg]
  | append_singleton w c ih =>
    have hc : isBlank c = true :=
      decide_eq_true (h c (List.mem_append_right _ (List.mem_singleton_self c)))
    rw [← List.append_assoc, List.rdropWhile_concat_pos _ _ _ hc]
    exact ih fun b hb => h b (List.mem_append_left _ hb)

/-- What is trimmed of a text are the blanks around it. -/
theorem trim_firm {w s w' : List UInt8} (hw : Blanks w) (hs : Firm s) (hw' : Blanks w') :
    trim (w ++ s ++ w') = s := by
  obtain ⟨a, rest, ha, hhead⟩ := hs.head
  obtain ⟨init, b, hb, hlast⟩ := hs.last
  have hdrop : (w ++ s ++ w').dropWhile isBlank = s ++ w' := by
    rw [hhead, List.append_assoc, List.cons_append, dropWhile_blanks hw ha]
  rw [trim, hdrop, hlast, rdropWhile_blanks hb hw']

theorem pushArg_written (result : List (List UInt8)) {w : List UInt8} (hw : Blanks w)
    (a : Argument) : pushArg result (w ++ a.written) = result ++ [a.text] := by
  have hbefore : Blanks (w ++ a.before) := List.forall_mem_append.2 ⟨hw, a.blanksBefore⟩
  have htrim : trim (w ++ a.written) = a.text := by
    have hfirm := trim_firm hbefore a.json.firm a.blanksAfter
    rwa [List.append_assoc, List.append_assoc, ← List.append_assoc a.before] at hfirm
  obtain ⟨c, rest, -, hne⟩ := a.json.firm.head
  rw [pushArg, htrim, if_neg]
  rw [hne]
  exact List.cons_ne_nil c rest

/-! ## Splitting what has been extracted -/

variable {R : Type} {scan : Quoting → Nat → List UInt8 → List UInt8 → R} {d : Nat}

theorem passes_written (h : Scanner scan) (a : Argument) : Passes scan d a.written :=
  ((h.passes_blanks a.blanksBefore).append (h.json a.json d)).append (h.passes_blanks a.blanksAfter)

/-- Where a comma means nothing, arguments are taken in together. -/
theorem passes_joined (h : Scanner scan) (hcomma : Passes scan d [0x2c]) (args : List Argument) :
    Passes scan d (joined args) := by
  induction args using joined.induct with
  | case1 => exact .nil d
  | case2 a => exact passes_written h a
  | case3 a a' args ih => exact ((passes_written h a).append hcomma).append ih

/-- The closing parenthesis is found behind the arguments. -/
theorem extractParens_joined (before after : List UInt8) {w : List UInt8} (hw : Blanks w)
    (args : List Argument) :
    extractParens (before ++ [0x28] ++ (w ++ joined args) ++ [0x29] ++ after) before.length =
      w ++ joined args := by
  have hcomma : Passes (fun q d => extractLoop q (d + 1)) 0 [0x2c] := fun _ _ => rfl
  have hpasses := (scanner_extractLoop.passes_blanks hw).append
    (passes_joined scanner_extractLoop hcomma args) [] ([0x29] ++ after)
  have hdrop : (before ++ [0x28] ++ (w ++ joined args) ++ [0x29] ++ after).drop
      (before.length + 1) = w ++ joined args ++ ([0x29] ++ after) := by
    have hlength : (before ++ [0x28]).length = before.length + 1 := List.length_append
    rw [List.append_assoc, List.append_assoc (before ++ [0x28]), ← hlength, List.drop_left]
  rw [extractParens, hdrop]
  exact hpasses

/-- The commas between the arguments are found, and no others. -/
theorem splitLoop_joined (result : List (List UInt8)) {w : List UInt8} (hw : Blanks w)
    (args : List Argument) :
    splitLoop result {} 0 w (joined args) = result ++ args.map Argument.text := by
  induction args using joined.induct generalizing result w with
  | case1 =>
    show pushArg result w = _
    rw [pushArg, if_pos (trim_blanks hw)]
    exact (List.append_nil result).symm
  | case2 a =>
    have hpasses := passes_written (scanner_splitLoop result) a (d := 0) w []
    rw [List.append_nil] at hpasses
    rw [joined, hpasses]
    exact pushArg_written result hw a
  | case3 a a' args ih =>
    have hpasses := passes_written (scanner_splitLoop result) a (d := 0) w
      ([0x2c] ++ joined (a' :: args))
    have hcomma : splitLoop result {} 0 (w ++ a.written) ([0x2c] ++ joined (a' :: args)) =
        splitLoop (pushArg result (w ++ a.written)) {} 0 [] (joined (a' :: args)) := rfl
    rw [joined, List.append_assoc, hpasses, hcomma, pushArg_written result hw,
      ih _ (List.forall_mem_nil _), List.append_assoc]
    rfl

/-- **Main result**: whatever is in front of the opening parenthesis and behind the closing one, the
arguments that stand between them come back. -/
theorem splitArgs_extractParens (before after : List UInt8) (args : List Argument)
    (w : { w : List UInt8 // Blanks w }) :
    splitArgs (extractParens (before ++ [0x28] ++ (w.1 ++ joined args) ++ [0x29] ++ after)
      before.length) = args.map Argument.text := by
  have hpasses := (scanner_splitLoop []).passes_blanks w.2 (d := 0) [] (joined args)
  rw [extractParens_joined before after w.2 args, splitArgs, hpasses]
  exact splitLoop_joined [] w.2 args

end Bison.App
