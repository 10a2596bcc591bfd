import Bison.App.ArgumentSplitting
import Bison.Core.Numbers

/-!
# Commands

What the command line takes a line for (cli_app.cpp). The words of a line are found by the first
parenthesis outside a string, by the first `=` and by the first `.`, whatever comes behind them.

- `dispatch`: what a line asks for, given which names are defined.
- `Statement`: what the help text lists, with blanks wherever they may stand. A `Name` has none of
  the characters that `dispatch` looks for.
- `dispatch_written`: **main result**, a line in which a statement is written asks for what the
  statement says.

The keys of `register_key`, by which replies are printed, are left out.
-/

namespace Bison.App

open JsonText

/-! ## What the source does -/

/-- What a line asks for. The names of classes and methods are hashed already. -/
inductive Command where
  /-- An empty line or a comment. -/
  | nothing
  | quit
  | help
  | list
  | info
  | describe (ns klass : Key)
  | del (name : List UInt8)
  | instantiate (var : List UInt8) (ns klass : Key) (params : Option (List UInt8))
  | get (name : List UInt8) (projection : Option (List UInt8))
  | set (name fields : List UInt8)
  | call (name : List UInt8) (method : Key) (params : Option (List UInt8))
  /-- What is written to `stderr`. -/
  | error (message : List UInt8)
  deriving DecidableEq

section Dispatch

-- `json::parse(s).get<std::string>()`, of a library, and the names in the table of handles
variable (parse : List UInt8 → Option (List UInt8)) (defined : List UInt8 → Bool)

/-- `unquote` (cli_app.cpp:160). -/
def unquote (s : List UInt8) : List UInt8 :=
  if s.length < 2 ∨ s.head? ≠ some 0x22 ∨ s.getLast? ≠ some 0x22 then s
  else (parse s).getD ((s.drop 1).take (s.length - 2))

/-- `key_t{name}` of a `std::string` (bison_common.hpp:150). -/
def nameKey (name : List UInt8) : Key := hash true (cString name)

def undefinedName (name : List UInt8) : Command :=
  .error (ascii "error: '" ++ name ++ ascii "' is not defined")

/-- `cmd_del` (cli_app.cpp:216). -/
def cmdDel (var : List UInt8) : Command :=
  let name := trim var
  if defined name then .del name else undefinedName name

/-- `cmd_instantiate` (cli_app.cpp:227). -/
def cmdInstantiate (var argsStr : List UInt8) : Command :=
  match splitArgs argsStr with
  | ns :: klass :: rest =>
    let ns := unquote parse (trim ns)
    let klass := unquote parse (trim klass)
    .instantiate var (if ns = [] then 0 else nameKey ns) (nameKey klass) (rest.head?.map trim)
  | _ => .error (ascii "error: instantiate requires namespace and class name")

/-- `cmd_get` (cli_app.cpp:255). -/
def cmdGet (name : List UInt8) (args : List (List UInt8)) : Command :=
  .get name (args.head?.map trim)

/-- `cmd_set` (cli_app.cpp:265). -/
def cmdSet (name : List UInt8) : List (List UInt8) → Command
  | [] => .error (ascii "error: set requires a JSON object argument")
  | fields :: _ => .set name (trim fields)

/-- `cmd_call` (cli_app.cpp:277). -/
def cmdCall (name : List UInt8) : List (List UInt8) → Command
  | [] => .error (ascii "error: call requires a method name")
  | method :: rest => .call name (nameKey (unquote parse (trim method))) (rest.head?.map trim)

/-- `cmd_describe` (cli_app.cpp:299). -/
def cmdDescribe (args : List (List UInt8)) : Command :=
  let keyOf (arg : Option (List UInt8)) : Key :=
    (arg.map fun s => nameKey (unquote parse (trim s))).getD 0
  .describe (keyOf args[0]?) (keyOf args[1]?)

/-- The loop of `find_first_paren` (cli_app.cpp:338), at position `i`. -/
def firstParenLoop (q : Quoting) (i : Nat) : List UInt8 → Option Nat
  | [] => none
  | c :: rest =>
    match q.skip c with
    | some q => firstParenLoop q (i + 1) rest
    | none => if c = 0x28 then some i else firstParenLoop q (i + 1) rest

/-- `find_first_paren`. -/
def findFirstParen (s : List UInt8) : Option Nat := firstParenLoop {} 0 s

/-- `dispatch_assignment` (cli_app.cpp:361). -/
def dispatchAssignment (s : List UInt8) (eqPos : Nat) : Command :=
  let var := trim (s.take eqPos)
  let rhs := trim (s.drop (eqPos + 1))
  match rhs.idxOf? 0x28 with
  | none => .error (ascii "error: expected function call on right-hand side")
  | some rhsParen =>
    if trim (rhs.take rhsParen) ≠ ascii "instantiate" then
      .error (ascii "error: only 'instantiate(...)' is supported here")
    else cmdInstantiate parse var (extractParens rhs rhsParen)

/-- `dispatch_proxy_op` (cli_app.cpp:377). -/
def dispatchProxyOp (s : List UInt8) (dotPos firstParen : Nat) : Command :=
  let objName := trim (s.take dotPos)
  let op := trim ((s.drop (dotPos + 1)).take (firstParen - dotPos - 1))
  let args := splitArgs (extractParens s firstParen)
  if defined objName = false then undefinedName objName
  else if op = ascii "get" then cmdGet objName args
  else if op = ascii "set" then cmdSet objName args
  else if op = ascii "call" then cmdCall parse objName args
  else .error (ascii "error: unknown operation '" ++ op ++ ascii "' (available: get, set, call)")

def unknownCommand (cmd : List UInt8) : Command :=
  .error (ascii "error: unknown command '" ++ cmd ++ ascii "' (type 'help' for available commands)")

/-- `dispatch_paren_cmd` (cli_app.cpp:398). -/
def dispatchParenCmd (s : List UInt8) (firstParen : Nat) : Command :=
  let cmd := trim (s.take firstParen)
  let args := splitArgs (extractParens s firstParen)
  if cmd = ascii "describe" then cmdDescribe parse args else unknownCommand cmd

/-- The end of `dispatch`, for a line that is no word and no `del`. -/
def dispatchCall (s : List UInt8) : Command :=
  let firstParen := findFirstParen s
  match (s.take (firstParen.getD s.length)).idxOf? 0x3d with
  | some i => dispatchAssignment parse s i
  | none =>
    match firstParen with
    | none => unknownCommand s
    | some firstParen =>
      match s.idxOf? 0x2e with
      | some dotPos =>
        if dotPos < firstParen then dispatchProxyOp parse defined s dotPos firstParen
        else dispatchParenCmd parse s firstParen
      | none => dispatchParenCmd parse s firstParen

/-- `dispatch` (cli_app.cpp:407), up to the calls of the client. -/
def dispatch (line : List UInt8) : Command :=
  let s := trim line
  if s = [] ∨ s.head? = some 0x23 then .nothing
  else if s = ascii "exit" ∨ s = ascii "quit" then .quit
  else if s = ascii "help" then .help
  else if s = ascii "list" then .list
  else if s = ascii "describe" then cmdDescribe parse []
  else if s = ascii "info" then .info
  else if s.length > 4 ∧ s.take 4 = ascii "del " then cmdDel defined (s.drop 4)
  else dispatchCall parse defined s

end Dispatch

/-! ## What is written -/

/-- The characters that `dispatch` looks for: `"`, `(`, `.` and `=`. -/
def Marks (c : UInt8) : Prop := c = 0x22 ∨ c = 0x28 ∨ c = 0x2e ∨ c = 0x3d

instance (c : UInt8) : Decidable (Marks c) := by unfold Marks; infer_instance

/-- A name that can be given to an object and used afterwards. -/
structure Name where
  text : List UInt8
  firm : Firm text
  clear : ∀ c ∈ text, ¬ Marks c
  comment : text.head? ≠ some 0x23
  del : ¬ ascii "del " <+: text ++ [0x20]

/-- What stands behind a word: the arguments in parentheses, and anything. -/
structure Parenthesised where
  gap : List UInt8
  first : List UInt8
  args : List Argument
  after : List UInt8
  blanksGap : Blanks gap
  blanksFirst : Blanks first

def Parenthesised.written (p : Parenthesised) : List UInt8 :=
  p.gap ++ [0x28] ++ (p.first ++ joined p.args) ++ [0x29] ++ p.after

def Parenthesised.texts (p : Parenthesised) : List (List UInt8) := p.args.map Argument.text

inductive Method where
  | get
  | set
  | call

def Method.name : Method → List UInt8
  | .get => ascii "get"
  | .set => ascii "set"
  | .call => ascii "call"

/-- The lines that the help text lists. -/
inductive Statement where
  | word (text : List UInt8) (command : Command) (hword : (text, command) ∈ [
      (ascii "exit", Command.quit), (ascii "quit", .quit), (ascii "help", .help),
      (ascii "list", .list), (ascii "info", .info), (ascii "describe", .describe 0 0)])
  | del (gap name : List UInt8) (hgap : Blanks gap) (hname : Firm name)
  | describe (call : Parenthesised)
  | instantiate (var : Name) (before behind : List UInt8) (hbefore : Blanks before)
      (hbehind : Blanks behind) (call : Parenthesised)
  | method (obj : Name) (before behind : List UInt8) (hbefore : Blanks before)
      (hbehind : Blanks behind) (op : Method) (call : Parenthesised)

/-- The text of a statement, from its first character on. -/
def Statement.written : Statement → List UInt8
  | .word text _ _ => text
  | .del gap name _ _ => ascii "del " ++ gap ++ name
  | .describe call => ascii "describe" ++ call.written
  | .instantiate var before behind _ _ call =>
    var.text ++ before ++ [0x3d] ++ behind ++ ascii "instantiate" ++ call.written
  | .method obj before behind _ _ op call =>
    obj.text ++ before ++ [0x2e] ++ behind ++ op.name ++ call.written

section Says

variable (parse : List UInt8 → Option (List UInt8)) (defined : List UInt8 → Bool)

/-- What a statement says. -/
def Statement.command : Statement → Command
  | .word _ command _ => command
  | .del _ name _ _ => if defined name then .del name else undefinedName name
  | .describe call =>
    .describe ((call.texts[0]?.map fun ns => nameKey (unquote parse ns)).getD 0)
      ((call.texts[1]?.map fun klass => nameKey (unquote parse klass)).getD 0)
  | .instantiate var _ _ _ _ call =>
    match call.texts with
    | ns :: klass :: rest =>
      .instantiate var.text (if unquote parse ns = [] then 0 else nameKey (unquote parse ns))
        (nameKey (unquote parse klass)) rest.head?
    | _ => .error (ascii "error: instantiate requires namespace and class name")
  | .method obj _ _ _ _ op call =>
    if defined obj.text = false then undefinedName obj.text
    else
      match op, call.texts with
      | .get, args => .get obj.text args.head?
      | .set, [] => .error (ascii "error: set requires a JSON object argument")
      | .set, fields :: _ => .set obj.text fields
      | .call, [] => .error (ascii "error: call requires a method name")
      | .call, name :: rest => .call obj.text (nameKey (unquote parse name)) rest.head?

end Says

/-! ## Finding the words -/

theorem firstParenLoop_clear {l : List UInt8} (h : ∀ c ∈ l, c ≠ 0x22 ∧ c ≠ 0x28) (i : Nat)
    (rest : List UInt8) : firstParenLoop {} i (l ++ 0x28 :: rest) = some (i + l.length) := by
  induction l generalizing i with
  | nil => rfl
  | cons c l ih =>
    obtain ⟨hquote, hparen⟩ := h c List.mem_cons_self
    rw [List.cons_append, firstParenLoop, skip_start hquote]
    show (if c = 0x28 then some i else firstParenLoop {} (i + 1) (l ++ 0x28 :: rest)) = _
    rw [if_neg hparen, ih (fun b hb => h b (List.mem_cons_of_mem _ hb)), List.length_cons]
    congr 1
    omega

theorem findFirstParen_clear {l : List UInt8} (h : ∀ c ∈ l, c ≠ 0x22 ∧ c ≠ 0x28)
    (rest : List UInt8) : findFirstParen (l ++ 0x28 :: rest) = some l.length := by
  rw [findFirstParen, firstParenLoop_clear h, Nat.zero_add]

theorem idxOf?_clear {a : UInt8} {l : List UInt8} (h : a ∉ l) (rest : List UInt8) :
    (l ++ a :: rest).idxOf? a = some l.length := by
  induction l with
  | nil => simp [List.idxOf?_cons]
  | cons c l ih =>
    have hne : (c == a) = false := beq_eq_false_iff_ne.2 fun heq => h (heq ▸ List.mem_cons_self)
    rw [List.cons_append, List.idxOf?_cons, hne, ih fun hmem => h (List.mem_cons_of_mem _ hmem)]
    rfl

/-- Where the first one is behind a part without any. -/
theorem length_le_of_idxOf? {a : UInt8} {l rest : List UInt8} (h : a ∉ l) {i : Nat}
    (hi : (l ++ rest).idxOf? a = some i) : l.length ≤ i := by
  obtain ⟨hlt, heq, -⟩ := List.idxOf?_eq_some_iff.1 hi
  by_contra hle
  have hlt' : i < l.length := by omega
  rw [List.getElem_append_left hlt'] at heq
  exact h (heq ▸ List.getElem_mem hlt')

theorem blank_not_marks {c : UInt8} (h : Blank c) : ¬ Marks c := by
  rcases h with rfl | rfl | rfl | rfl <;> decide

theorem Name.ne_nil (name : Name) : name.text ≠ [] := by
  obtain ⟨a, rest, -, heq⟩ := name.firm.head
  rw [heq]
  exact List.cons_ne_nil a rest

/-- The blanks at the end of a line, when something else is in front of them. -/
theorem rdropWhile_behind {l : List UInt8} {b : UInt8} (hb : ¬ Blank b) (after : List UInt8) :
    (l ++ [b] ++ after).rdropWhile isBlank = l ++ [b] ++ after.rdropWhile isBlank := by
  induction after using List.reverseRecOn with
  | nil =>
    have hneg : ¬ isBlank b = true := fun hblank => hb (of_decide_eq_true hblank)
    rw [List.append_nil, List.rdropWhile_concat_neg _ _ _ hneg]
    exact (List.append_nil _).symm
  | append_singleton after c ih =>
    rw [← List.append_assoc]
    by_cases hc : isBlank c = true
    · rw [List.rdropWhile_concat_pos _ _ _ hc, List.rdropWhile_concat_pos _ _ _ hc, ih]
    · rw [List.rdropWhile_concat_neg _ _ _ hc, List.rdropWhile_concat_neg _ _ _ hc,
        List.append_assoc]

/-! ## The parentheses of a line -/

namespace Parenthesised

/-- What stands behind the parentheses loses the blanks at its end. -/
def trimmed (p : Parenthesised) : Parenthesised :=
  { p with after := p.after.rdropWhile isBlank }

/-- More stands behind the parentheses. -/
def followed (p : Parenthesised) (w : List UInt8) : Parenthesised :=
  { p with after := p.after ++ w }

theorem written_followed (p : Parenthesised) (w : List UInt8) :
    (p.followed w).written = p.written ++ w := by
  simp only [written, followed, List.append_assoc]

theorem trim_call {w head : List UInt8} {a : UInt8} (hw : Blanks w) (ha : ¬ Blank a)
    (p : Parenthesised) :
    trim (w ++ (a :: head ++ p.written)) = a :: head ++ p.trimmed.written := by
  have hclose : ¬ Blank 0x29 := by decide
  rw [trim, List.cons_append, dropWhile_blanks hw ha, written, ← List.cons_append,
    ← List.append_assoc, ← List.append_assoc, rdropWhile_behind hclose]
  simp only [written, trimmed, List.append_assoc, List.cons_append]

/-- The arguments that are read where the line has these parentheses. -/
theorem splitArgs_written (before : List UInt8) (p : Parenthesised) :
    splitArgs (extractParens (before ++ p.written) (before ++ p.gap).length) = p.texts := by
  have hextract := extractParens_joined (before ++ p.gap) p.after p.blanksFirst p.args
  have hpasses := (scanner_splitLoop []).passes_blanks p.blanksFirst (d := 0) [] (joined p.args)
  have hwritten : before ++ p.written =
      before ++ p.gap ++ [0x28] ++ (p.first ++ joined p.args) ++ [0x29] ++ p.after := by
    simp only [written, List.append_assoc]
  rw [hwritten, hextract, splitArgs, hpasses]
  exact splitLoop_joined [] p.blanksFirst p.args

/-- They have no blanks around them. -/
theorem trim_texts (p : Parenthesised) : ∀ s ∈ p.texts, trim s = s := by
  intro s hs
  obtain ⟨a, -, rfl⟩ := List.mem_map.1 hs
  have hnone : Blanks [] := List.forall_mem_nil _
  have htrim := trim_firm hnone a.json.firm hnone
  rwa [List.nil_append, List.append_nil] at htrim

end Parenthesised

variable {parse : List UInt8 → Option (List UInt8)} {defined : List UInt8 → Bool}

/-- A line that is no word and no `del`. -/
theorem dispatch_eq_dispatchCall {line s : List UInt8} (hs : trim line = s)
    (hcomment : s.head? ≠ some 0x23) (hparen : 0x28 ∈ s) (hdel : ¬ ascii "del " <+: s) :
    dispatch parse defined line = dispatchCall parse defined s := by
  have hword : ∀ word : List UInt8, 0x28 ∉ word → s ≠ word := fun word hnot heq =>
    hnot (heq ▸ hparen)
  have hnil : ¬ (s = [] ∨ s.head? = some 0x23) :=
    not_or.2 ⟨hword [] (by decide), hcomment⟩
  have hquit : ¬ (s = ascii "exit" ∨ s = ascii "quit") :=
    not_or.2 ⟨hword _ (by decide), hword _ (by decide)⟩
  have hno : ¬ (s.length > 4 ∧ s.take 4 = ascii "del ") := fun h =>
    hdel (h.2 ▸ List.take_prefix 4 s)
  rw [dispatch]
  simp only [hs]
  rw [if_neg hnil, if_neg hquit, if_neg (hword _ (by decide)), if_neg (hword _ (by decide)),
    if_neg (hword _ (by decide)), if_neg (hword _ (by decide)), if_neg hno]

/-! ## One statement after the other -/

section Calls

variable {head : List UInt8} (p : Parenthesised)

theorem Parenthesised.written_split (head : List UInt8) :
    head ++ p.written =
      head ++ p.gap ++ 0x28 :: (p.first ++ joined p.args ++ [0x29] ++ p.after) := by
  simp only [Parenthesised.written, List.append_assoc, List.cons_append, List.nil_append]

theorem Parenthesised.gap_not_marks : ∀ c ∈ p.gap, ¬ Marks c := fun c hc =>
  blank_not_marks (p.blanksGap c hc)

/-- Up to the first parenthesis. -/
theorem findFirstParen_call (hhead : ∀ c ∈ head, c ≠ 0x22 ∧ c ≠ 0x28) :
    findFirstParen (head ++ p.written) = some (head ++ p.gap).length := by
  rw [p.written_split]
  refine findFirstParen_clear (fun c hc => ?_) _
  rcases List.mem_append.1 hc with hc | hc
  · exact hhead c hc
  · have hno := p.gap_not_marks c hc
    exact ⟨fun h => hno (.inl h), fun h => hno (.inr (.inl h))⟩

theorem take_call (head : List UInt8) :
    (head ++ p.written).take (head ++ p.gap).length = head ++ p.gap := by
  rw [p.written_split, List.take_left]

/-- The first `=` stands in front of the parenthesis. -/
theorem dispatchCall_assignment (hhead : ∀ c ∈ head, c ≠ 0x22 ∧ c ≠ 0x28) {i : Nat}
    (hi : (head ++ p.gap).idxOf? 0x3d = some i) :
    dispatchCall parse defined (head ++ p.written) =
      dispatchAssignment parse (head ++ p.written) i := by
  rw [dispatchCall, findFirstParen_call p hhead, Option.getD_some, take_call, hi]

/-- No `=` does, but the first `.`. -/
theorem dispatchCall_proxyOp (hhead : ∀ c ∈ head, c ≠ 0x22 ∧ c ≠ 0x28) (heq : 0x3d ∉ head)
    {d : Nat} (hd : (head ++ p.written).idxOf? 0x2e = some d) (hlt : d < (head ++ p.gap).length) :
    dispatchCall parse defined (head ++ p.written) =
      dispatchProxyOp parse defined (head ++ p.written) d (head ++ p.gap).length := by
  have hnone : (head ++ p.gap).idxOf? 0x3d = none := by
    refine List.idxOf?_eq_none_iff.2 fun hmem => ?_
    exact (List.mem_append.1 hmem).elim heq fun hgap =>
      p.gap_not_marks _ hgap (.inr (.inr (.inr rfl)))
  rw [dispatchCall, findFirstParen_call p hhead, Option.getD_some, take_call, hnone]
  simp only [hd, if_pos hlt]

/-- Neither does. -/
theorem dispatchCall_parenCmd (hhead : ∀ c ∈ head, ¬ Marks c) :
    dispatchCall parse defined (head ++ p.written) =
      dispatchParenCmd parse (head ++ p.written) (head ++ p.gap).length := by
  have hboth : ∀ c ∈ head ++ p.gap, ¬ Marks c := fun c hc =>
    (List.mem_append.1 hc).elim (hhead c) (p.gap_not_marks c)
  have hclear : ∀ c ∈ head, c ≠ 0x22 ∧ c ≠ 0x28 := fun c hc =>
    ⟨fun h => hhead c hc (.inl h), fun h => hhead c hc (.inr (.inl h))⟩
  have hnone : (head ++ p.gap).idxOf? 0x3d = none :=
    List.idxOf?_eq_none_iff.2 fun hmem => hboth _ hmem (.inr (.inr (.inr rfl)))
  rw [dispatchCall, findFirstParen_call p hclear, Option.getD_some, take_call, hnone]
  cases hd : (head ++ p.written).idxOf? 0x2e with
  | none => rfl
  | some d =>
    have hle : (head ++ p.gap).length ≤ d := by
      rw [p.written_split] at hd
      exact length_le_of_idxOf? (fun hmem => hboth _ hmem (.inr (.inr (.inl rfl)))) hd
    exact if_neg (Nat.not_lt.2 hle)

end Calls

/-- A text with blanks behind it. -/
theorem trim_before {s w : List UInt8} (hs : Firm s) (hw : Blanks w) : trim (s ++ w) = s :=
  trim_firm (List.forall_mem_nil _) hs hw

theorem firm_instantiate : Firm (ascii "instantiate") :=
  .of_not_blank (by decide) (List.all_iff_forall_prop.1 (by decide))

/-- An instance is made of its namespace, its class and its parameters. -/
theorem cmdInstantiate_texts (st : Name) {w w' : List UInt8} (hw : Blanks w) (hw' : Blanks w')
    (p : Parenthesised) {argsStr : List UInt8} (hargs : splitArgs argsStr = p.texts) :
    cmdInstantiate parse st.text argsStr =
      (Statement.instantiate st w w' hw hw' p).command parse defined := by
  have htrim := p.trim_texts
  simp only [cmdInstantiate, Statement.command, hargs]
  cases htexts : p.texts with
  | nil => rfl
  | cons ns rest =>
    cases rest with
    | nil => rfl
    | cons klass rest =>
      rw [htexts] at htrim
      have hns : trim ns = ns := htrim ns (by simp)
      have hklass : trim klass = klass := htrim klass (by simp)
      have hparams : rest.head?.map trim = rest.head? := by
        cases rest with
        | nil => rfl
        | cons params _ => exact congrArg some (htrim params (by simp))
      simp only [hns, hklass, hparams]

/-- `var = instantiate(…)`. -/
theorem dispatchAssignment_written (var : Name) {w w' : List UInt8} (hw : Blanks w)
    (hw' : Blanks w') (p : Parenthesised) :
    dispatchAssignment parse
        (var.text ++ w ++ [0x3d] ++ w' ++ ascii "instantiate" ++ p.written) (var.text ++ w).length =
      (Statement.instantiate var w w' hw hw' p).command parse defined := by
  have hrhs : (var.text ++ w ++ [0x3d] ++ w' ++ ascii "instantiate" ++ p.written).drop
      ((var.text ++ w).length + 1) = w' ++ (ascii "instantiate" ++ p.written) := by
    have hlength : (var.text ++ w ++ [0x3d]).length = (var.text ++ w).length + 1 :=
      List.length_append
    rw [List.append_assoc, List.append_assoc (var.text ++ w ++ [0x3d]), ← hlength, List.drop_left]
  have hvar : (var.text ++ w ++ [0x3d] ++ w' ++ ascii "instantiate" ++ p.written).take
      (var.text ++ w).length = var.text ++ w := by
    simp only [List.append_assoc]
    rw [← List.append_assoc, List.take_left]
  have htrim : trim (w' ++ (ascii "instantiate" ++ p.written)) =
      ascii "instantiate" ++ p.trimmed.written :=
    Parenthesised.trim_call (a := 0x69) hw' (by decide) p
  have hparen : (ascii "instantiate" ++ p.trimmed.written).idxOf? 0x28 =
      some (ascii "instantiate" ++ p.gap).length := by
    rw [p.trimmed.written_split]
    refine idxOf?_clear (fun hmem => ?_) _
    rcases List.mem_append.1 hmem with hmem | hmem
    · exact absurd hmem (by decide)
    · exact p.gap_not_marks _ hmem (.inr (.inl rfl))
  have hfn : trim ((ascii "instantiate" ++ p.trimmed.written).take
      (ascii "instantiate" ++ p.gap).length) = ascii "instantiate" := by
    have htake := take_call p.trimmed (ascii "instantiate")
    rw [show p.trimmed.gap = p.gap from rfl] at htake
    rw [htake, trim_before firm_instantiate p.blanksGap]
  rw [dispatchAssignment]
  simp only [hrhs, hvar, htrim, hparen, hfn, trim_before var.firm hw, ne_eq, not_true, if_false]
  exact cmdInstantiate_texts var hw hw' p (p.trimmed.splitArgs_written _)

/-- What a method is called with. -/
theorem head?_trim {texts : List (List UInt8)} (h : ∀ s ∈ texts, trim s = s) :
    texts.head?.map trim = texts.head? := by
  cases texts with
  | nil => rfl
  | cons s _ => exact congrArg some (h s List.mem_cons_self)

theorem Method.firm_name (op : Method) : Firm op.name := by
  cases op <;> exact .of_not_blank (by decide) (List.all_iff_forall_prop.1 (by decide))

theorem Method.name_not_marks (op : Method) : ∀ c ∈ op.name, ¬ Marks c := by
  cases op <;> exact List.all_iff_forall_prop.1 (by decide)

/-- `obj.get(…)`, `obj.set(…)` and `obj.call(…)`. -/
theorem dispatchProxyOp_written (obj : Name) {w w' : List UInt8} (hw : Blanks w) (hw' : Blanks w')
    (op : Method) (p : Parenthesised) :
    dispatchProxyOp parse defined (obj.text ++ w ++ [0x2e] ++ w' ++ op.name ++ p.written)
        (obj.text ++ w).length (obj.text ++ w ++ [0x2e] ++ w' ++ op.name ++ p.gap).length =
      (Statement.method obj w w' hw hw' op p).command parse defined := by
  have htrim := p.trim_texts
  have hobj : (obj.text ++ w ++ [0x2e] ++ w' ++ op.name ++ p.written).take
      (obj.text ++ w).length = obj.text ++ w := by
    simp only [List.append_assoc]
    rw [← List.append_assoc, List.take_left]
  have hlength : (obj.text ++ w ++ [0x2e]).length = (obj.text ++ w).length + 1 :=
    List.length_append
  have hdrop : (obj.text ++ w ++ [0x2e] ++ w' ++ op.name ++ p.written).drop
      ((obj.text ++ w).length + 1) = w' ++ op.name ++ p.written := by
    have hsplit : obj.text ++ w ++ [0x2e] ++ w' ++ op.name ++ p.written =
        obj.text ++ w ++ [0x2e] ++ (w' ++ op.name ++ p.written) := by
      simp only [List.append_assoc]
    rw [← hlength, hsplit, List.drop_left]
  have hcount : (obj.text ++ w ++ [0x2e] ++ w' ++ op.name ++ p.gap).length -
      (obj.text ++ w).length - 1 = (w' ++ op.name ++ p.gap).length := by
    simp only [List.length_append, List.length_singleton]
    omega
  have hop : trim ((w' ++ op.name ++ p.written).take (w' ++ op.name ++ p.gap).length) =
      op.name := by
    rw [take_call, trim_firm hw' op.firm_name p.blanksGap]
  rw [dispatchProxyOp]
  simp only [hobj, hdrop, hcount, hop, trim_before obj.firm hw, p.splitArgs_written,
    Statement.command]
  by_cases hdefined : defined obj.text = false
  · simp only [if_pos hdefined]
  · simp only [if_neg hdefined]
    cases op with
    | get =>
      have hname : Method.get.name = ascii "get" := rfl
      simp only [hname, if_true]
      rw [cmdGet, head?_trim htrim]
    | set =>
      have hname : Method.set.name = ascii "set" := rfl
      have hget : ¬ ascii "set" = ascii "get" := by decide
      simp only [hname, if_neg hget, if_true]
      cases htexts : p.texts with
      | nil => rfl
      | cons fields rest =>
        have hfields : trim fields = fields := htrim fields (by simp [htexts])
        rw [cmdSet, hfields]
    | call =>
      have hname : Method.call.name = ascii "call" := rfl
      have hget : ¬ ascii "call" = ascii "get" := by decide
      have hset : ¬ ascii "call" = ascii "set" := by decide
      simp only [hname, if_neg hget, if_neg hset, if_true]
      cases htexts : p.texts with
      | nil => rfl
      | cons method rest =>
        rw [htexts] at htrim
        have hmethod : trim method = method := htrim method List.mem_cons_self
        rw [cmdCall, hmethod, head?_trim fun s hs => htrim s (List.mem_cons_of_mem _ hs)]

theorem firm_describe : Firm (ascii "describe") :=
  .of_not_blank (by decide) (List.all_iff_forall_prop.1 (by decide))

/-- `describe(…)`. -/
theorem dispatchParenCmd_written (p : Parenthesised) :
    dispatchParenCmd parse (ascii "describe" ++ p.written) (ascii "describe" ++ p.gap).length =
      (Statement.describe p).command parse defined := by
  have htrim := p.trim_texts
  have hkey : ∀ i : Nat, p.texts[i]?.map (fun s => nameKey (unquote parse (trim s))) =
      p.texts[i]?.map fun s => nameKey (unquote parse s) := by
    intro i
    cases hi : p.texts[i]? with
    | none => rfl
    | some s =>
      have hs : trim s = s := htrim s (List.mem_of_getElem? hi)
      rw [Option.map_some, Option.map_some, hs]
  rw [dispatchParenCmd]
  simp only [take_call, trim_before firm_describe p.blanksGap, p.splitArgs_written, if_true,
    cmdDescribe, Statement.command, hkey]

/-! ## Every statement -/

/-- A name with something else behind it is no `del`. -/
theorem Name.not_del (name : Name) {c : UInt8} (he : c ≠ 0x65) (hl : c ≠ 0x6c)
    (rest : List UInt8) : ¬ ascii "del " <+: name.text ++ c :: rest := by
  have hdel := name.del
  have hne := name.ne_nil
  rw [show ascii "del " = [0x64, 0x65, 0x6c, 0x20] from rfl] at hdel ⊢
  generalize name.text = text at hdel hne
  intro h
  match text with
  | [] => exact hne rfl
  | [_] =>
    simp only [List.cons_append, List.nil_append, List.cons_prefix_cons] at h
    exact he h.2.1.symm
  | [_, _] =>
    simp only [List.cons_append, List.nil_append, List.cons_prefix_cons] at h
    exact hl h.2.2.1.symm
  | [a, b, d] =>
    simp only [List.cons_append, List.nil_append, List.cons_prefix_cons] at h hdel
    exact hdel ⟨h.1, h.2.1, h.2.2.1, trivial, List.nil_prefix⟩
  | a :: b :: d :: e :: text =>
    simp only [List.cons_append, List.cons_prefix_cons] at h hdel
    exact hdel ⟨h.1, h.2.1, h.2.2.1, h.2.2.2.1, List.nil_prefix⟩

/-- With blanks between the name and the mark behind it. -/
theorem Name.not_del_blanks (name : Name) {w : List UInt8} (hw : Blanks w) {mark : UInt8}
    (hmark : Marks mark) (rest : List UInt8) :
    ¬ ascii "del " <+: name.text ++ w ++ mark :: rest := by
  cases w with
  | nil =>
    rw [List.append_nil]
    rcases hmark with rfl | rfl | rfl | rfl <;> exact name.not_del (by decide) (by decide) rest
  | cons c w =>
    rw [List.append_assoc]
    have hc : c ≠ 0x65 ∧ c ≠ 0x6c := by
      rcases hw c List.mem_cons_self with rfl | rfl | rfl | rfl <;> decide
    exact name.not_del hc.1 hc.2 _

/-- In front of the parenthesis of a line that begins with a name. -/
theorem Name.head_clear (name : Name) {w w' word : List UInt8} (hw : Blanks w) (hw' : Blanks w')
    {mark : UInt8} (hmark : mark = 0x2e ∨ mark = 0x3d) (hword : ∀ c ∈ word, ¬ Marks c) :
    ∀ c ∈ name.text ++ w ++ [mark] ++ w' ++ word, c ≠ 0x22 ∧ c ≠ 0x28 := by
  have hclear : ∀ {c : UInt8}, ¬ Marks c → c ≠ 0x22 ∧ c ≠ 0x28 := fun hno =>
    ⟨fun h => hno (.inl h), fun h => hno (.inr (.inl h))⟩
  intro c hc
  simp only [List.mem_append, List.mem_singleton] at hc
  rcases hc with (((hc | hc) | rfl) | hc) | hc
  · exact hclear (name.clear c hc)
  · exact hclear (blank_not_marks (hw c hc))
  · rcases hmark with rfl | rfl <;> decide
  · exact hclear (blank_not_marks (hw' c hc))
  · exact hclear (hword c hc)

/-- The line of a statement that begins with a name, without the blanks around it. -/
theorem Name.dispatch_line (name : Name) {line w w' word : List UInt8} (hw : Blanks w)
    {mark : UInt8} (hmark : Marks mark) (p : Parenthesised)
    (hline : trim line = name.text ++ w ++ [mark] ++ w' ++ word ++ p.written) :
    dispatch parse defined line = dispatchCall parse defined (trim line) := by
  refine dispatch_eq_dispatchCall rfl ?_ ?_ ?_
  · obtain ⟨a, rest, -, htext⟩ := name.firm.head
    have hcomment := name.comment
    rw [htext] at hcomment
    rw [hline, htext]
    exact hcomment
  · rw [hline, p.written_split]
    simp
  · have hdel := name.not_del_blanks hw hmark (w' ++ word ++ p.written)
    rw [hline]
    simpa only [List.append_assoc, List.cons_append, List.nil_append] using hdel

theorem dispatch_instantiate (var : Name) {w w' : List UInt8} (hw : Blanks w) (hw' : Blanks w')
    (p : Parenthesised) {line : List UInt8}
    (hline : trim line = var.text ++ w ++ [0x3d] ++ w' ++ ascii "instantiate" ++ p.written) :
    dispatch parse defined line =
      (Statement.instantiate var w w' hw hw' p).command parse defined := by
  have hword : ∀ c ∈ ascii "instantiate", ¬ Marks c := List.all_iff_forall_prop.1 (by decide)
  have hindex : (var.text ++ w ++ [0x3d] ++ w' ++ ascii "instantiate" ++ p.gap).idxOf? 0x3d =
      some (var.text ++ w).length := by
    have hfirst := idxOf?_clear (a := 0x3d) (l := var.text ++ w) (fun hmem => ?_)
      (w' ++ ascii "instantiate" ++ p.gap)
    · simpa only [List.append_assoc, List.cons_append, List.nil_append] using hfirst
    · rcases List.mem_append.1 hmem with hmem | hmem
      · exact var.clear _ hmem (.inr (.inr (.inr rfl)))
      · exact blank_not_marks (hw _ hmem) (.inr (.inr (.inr rfl)))
  rw [var.dispatch_line hw (by decide) p hline, hline,
    dispatchCall_assignment p (var.head_clear hw hw' (.inr rfl) hword) hindex]
  exact dispatchAssignment_written var hw hw' p

theorem dispatch_method (obj : Name) {w w' : List UInt8} (hw : Blanks w) (hw' : Blanks w')
    (op : Method) (p : Parenthesised) {line : List UInt8}
    (hline : trim line = obj.text ++ w ++ [0x2e] ++ w' ++ op.name ++ p.written) :
    dispatch parse defined line =
      (Statement.method obj w w' hw hw' op p).command parse defined := by
  have hbefore : ∀ mark ∈ [(0x2e : UInt8), 0x3d], mark ∉ obj.text ++ w := by
    intro mark hmark hmem
    have hmarks : Marks mark := by
      rcases List.mem_pair.1 hmark with rfl | rfl <;> decide
    rcases List.mem_append.1 hmem with hmem | hmem
    · exact obj.clear _ hmem hmarks
    · exact blank_not_marks (hw _ hmem) hmarks
  have hindex : (obj.text ++ w ++ [0x2e] ++ w' ++ op.name ++ p.written).idxOf? 0x2e =
      some (obj.text ++ w).length := by
    have hfirst := idxOf?_clear (hbefore 0x2e (by simp)) (w' ++ op.name ++ p.written)
    simpa only [List.append_assoc, List.cons_append, List.nil_append] using hfirst
  have hnone : 0x3d ∉ obj.text ++ w ++ [0x2e] ++ w' ++ op.name := by
    intro hmem
    simp only [List.mem_append, List.mem_singleton] at hmem
    rcases hmem with ((hmem | hmem) | hmem) | hmem
    · exact hbefore 0x3d (by simp) (List.mem_append.2 hmem)
    · exact absurd hmem (by decide)
    · exact blank_not_marks (hw' _ hmem) (.inr (.inr (.inr rfl)))
    · exact op.name_not_marks _ hmem (.inr (.inr (.inr rfl)))
  have hlt : (obj.text ++ w).length <
      (obj.text ++ w ++ [0x2e] ++ w' ++ op.name ++ p.gap).length := by
    simp only [List.length_append, List.length_singleton]
    omega
  rw [obj.dispatch_line hw (by decide) p hline, hline,
    dispatchCall_proxyOp p (obj.head_clear hw hw' (.inl rfl) op.name_not_marks) hnone hindex hlt]
  exact dispatchProxyOp_written obj hw hw' op p

theorem dispatch_describe (p : Parenthesised) {line : List UInt8}
    (hline : trim line = ascii "describe" ++ p.written) :
    dispatch parse defined line = (Statement.describe p).command parse defined := by
  have hword : ∀ c ∈ ascii "describe", ¬ Marks c := List.all_iff_forall_prop.1 (by decide)
  have hcall : dispatch parse defined line = dispatchCall parse defined (trim line) := by
    refine dispatch_eq_dispatchCall rfl ?_ ?_ ?_
    · rw [hline]
      exact fun h => absurd (Option.some.inj h) (by decide)
    · rw [hline, p.written_split]
      simp
    · rw [hline]
      intro h
      have hbehind := (List.cons_prefix_cons.1 (List.cons_prefix_cons.1 h).2).2
      exact absurd (List.cons_prefix_cons.1 hbehind).1 (by decide)
  rw [hcall, hline, dispatchCall_parenCmd p hword]
  exact dispatchParenCmd_written p

theorem dispatch_del {gap name : List UInt8} (hgap : Blanks gap) (hname : Firm name)
    {line : List UInt8} (hline : trim line = ascii "del " ++ gap ++ name) :
    dispatch parse defined line = (Statement.del gap name hgap hname).command parse defined := by
  have htake : (ascii "del " ++ gap ++ name).take 4 = ascii "del " := by
    rw [List.append_assoc]
    rfl
  have hword : ∀ word : List UInt8, word.take 4 ≠ ascii "del " →
      ascii "del " ++ gap ++ name ≠ word := fun word hne heq => hne (heq ▸ htake)
  have hlength : (ascii "del " ++ gap ++ name).length > 4 := by
    obtain ⟨a, rest, -, rfl⟩ := hname.head
    rw [List.length_append, List.length_append, List.length_cons, show (ascii "del ").length = 4
      from rfl]
    omega
  have hdrop : (ascii "del " ++ gap ++ name).drop 4 = gap ++ name := by
    rw [List.append_assoc]
    rfl
  have htrim : trim (gap ++ name) = name := by
    have hfirm := trim_firm hgap hname (List.forall_mem_nil _)
    rwa [List.append_nil] at hfirm
  have hnil : ¬ (ascii "del " ++ gap ++ name = [] ∨
      (ascii "del " ++ gap ++ name).head? = some 0x23) :=
    not_or.2 ⟨hword [] (by decide), fun h => absurd (Option.some.inj h) (by decide)⟩
  have hquit : ¬ (ascii "del " ++ gap ++ name = ascii "exit" ∨
      ascii "del " ++ gap ++ name = ascii "quit") :=
    not_or.2 ⟨hword _ (by decide), hword _ (by decide)⟩
  rw [dispatch]
  simp only [hline]
  rw [if_neg hnil, if_neg hquit, if_neg (hword _ (by decide)), if_neg (hword _ (by decide)),
    if_neg (hword _ (by decide)), if_neg (hword _ (by decide)), if_pos ⟨hlength, htake⟩, hdrop]
  simp only [cmdDel, htrim, Statement.command]

/-- **Main result**: a statement is taken for what it says, wherever it has blanks, whatever its
arguments are, and whatever stands behind the closing parenthesis. -/
theorem dispatch_written (parse : List UInt8 → Option (List UInt8)) (defined : List UInt8 → Bool)
    (st : Statement) (w w' : { w : List UInt8 // Blanks w }) :
    dispatch parse defined (w.1 ++ st.written ++ w'.1) = st.command parse defined := by
  cases st with
  | word text command hword =>
    have hfirm : Firm text ∧ ∀ line, trim line = text → dispatch parse defined line = command := by
      simp only [List.mem_cons, Prod.mk.injEq, List.not_mem_nil, or_false] at hword
      rcases hword with ⟨rfl, rfl⟩ | ⟨rfl, rfl⟩ | ⟨rfl, rfl⟩ | ⟨rfl, rfl⟩ | ⟨rfl, rfl⟩ |
        ⟨rfl, rfl⟩ <;>
        refine ⟨.of_not_blank (by decide) (List.all_iff_forall_prop.1 (by decide)),
          fun line hline => ?_⟩ <;>
        simp only [dispatch, hline] <;> rfl
    exact hfirm.2 _ (trim_firm w.2 hfirm.1 w'.2)
  | del gap name hgap hname =>
    refine dispatch_del hgap hname (trim_firm w.2 ?_ w'.2)
    obtain ⟨init, b, hb, hlast⟩ := hname.last
    have hwritten : ascii "del " ++ gap ++ name = ascii "del " ++ gap ++ init ++ [b] := by
      rw [hlast, List.append_assoc _ init]
    exact ⟨⟨0x64, _, by decide, rfl⟩, ⟨_, b, hb, hwritten⟩⟩
  | describe call =>
    refine dispatch_describe (call.followed w'.1).trimmed ?_
    rw [List.append_assoc, Statement.written, List.append_assoc, ← call.written_followed]
    exact Parenthesised.trim_call (a := 0x64) w.2 (by decide) _
  | instantiate var before behind hbefore hbehind call =>
    refine dispatch_instantiate var hbefore hbehind (call.followed w'.1).trimmed ?_
    obtain ⟨a, rest, ha, htext⟩ := var.firm.head
    rw [List.append_assoc, Statement.written, List.append_assoc, ← call.written_followed, htext]
    exact Parenthesised.trim_call w.2 ha _
  | method obj before behind hbefore hbehind op call =>
    refine dispatch_method obj hbefore hbehind op (call.followed w'.1).trimmed ?_
    obtain ⟨a, rest, ha, htext⟩ := obj.firm.head
    rw [List.append_assoc, Statement.written, List.append_assoc, ← call.written_followed, htext]
    exact Parenthesised.trim_call w.2 ha _

/-- A variable must not be called `del`. -/
example : dispatch (fun _ => none) (fun _ => true) (ascii "del = instantiate(\"ns\", \"Class\")") =
    .del (ascii "= instantiate(\"ns\", \"Class\")") := by decide

/-- An empty text is the default namespace to `instantiate`, and a name to `describe`. -/
theorem namespaceKey_iff (ns : List UInt8) :
    (if ns = [] then 0 else nameKey ns) = nameKey ns ↔ ns ≠ [] := by
  constructor
  · rintro h rfl
    exact absurd h (by decide)
  · exact fun h => if_neg h

end Bison.App
