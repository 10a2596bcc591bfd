import Mathlib.Data.List.DropRight
import Bison.Core.Numbers

/-!
# Flags as text

`EnumFlags::parse` and `EnumFlags::format`: names of bit masks, joined by `|`.

- `format` takes masks out of a remainder as long as they are in it, in the order of the table, and
  prints what is left as a number.
- `Readable`: no name of the table can be taken for another one, for two, or for a number.
- `parse_format`: **main result**, with such a table every number is read back.
-/

namespace Bison

/-- `EnumFlags::table`: names with their values, in the order of declaration. -/
abbrev FlagTable := List (List UInt8 × Int32)

namespace EnumFlags

/-- One of `" \t"`. -/
def isBlank (c : UInt8) : Bool := c == 32 || c == 9

/-- What `find_first_not_of` and `find_last_not_of` leave of a token. -/
def trim (tok : List UInt8) : List UInt8 := (tok.dropWhile isBlank).rdropWhile isBlank

/-- One token of `parse`. A token that is neither a name nor a number is passed over. -/
def parseToken (values : FlagTable) (result : Int32) (tok : List UInt8) : Int32 :=
  if trim tok = [] then result
  else
    match values.find? (·.1 == trim tok) with
    | some (_, val) => result ||| val
    | none =>
      match stoi (trim tok) with
      | .ok n => result ||| n
      | .error _ => result

/-- `EnumFlags::parse` (bison_object.hpp:182). -/
def parse (values : FlagTable) (s : List UInt8) : Int32 :=
  (s.splitOn 124).foldl (parseToken values) 0

/-- Another name behind the ones printed so far. -/
def addToken (out tok : List UInt8) : List UInt8 :=
  (if out ≠ [] then out ++ ascii " | " else out) ++ tok

/-- One entry of `format`: what is printed, and what remains. -/
def formatEntry (state : List UInt8 × Int32) (entry : List UInt8 × Int32) : List UInt8 × Int32 :=
  if entry.2 ≠ 0 ∧ state.2 &&& entry.2 = entry.2 then
    (addToken state.1 entry.1, state.2 &&& ~~~entry.2)
  else state

/-- `EnumFlags::format` (bison_object.hpp:215). -/
def format (values : FlagTable) (v : Int32) : List UInt8 :=
  let (out, remaining) := values.foldl formatEntry ([], v)
  let out := if remaining ≠ 0 then addToken out (signedDecimal remaining.toInt) else out
  if out = [] then signedDecimal v.toInt else out

/-- A text that is one token, and nothing but the token. -/
structure Plain (tok : List UInt8) : Prop where
  ne_nil : tok ≠ []
  trimmed : trim tok = tok
  no_bar : 124 ∉ tok

/-- The names of a table can be told from each other and from numbers. -/
structure Readable (values : FlagTable) : Prop where
  distinct : (values.map Prod.fst).Nodup
  plain : ∀ name ∈ values.map Prod.fst, Plain name
  no_number : ∀ name ∈ values.map Prod.fst, ∀ n : Int32, name ≠ signedDecimal n.toInt

/-! ## One token -/

/-- The bits of a token. -/
def bits (values : FlagTable) (tok : List UInt8) : Int32 := parseToken values 0 tok

theorem parseToken_eq (values : FlagTable) (result : Int32) (tok : List UInt8) :
    parseToken values result tok = result ||| bits values tok := by
  unfold bits parseToken
  split
  next => exact Int32.or_zero.symm
  next =>
    split
    next => rw [Int32.zero_or]
    next =>
      split
      next => rw [Int32.zero_or]
      next => exact Int32.or_zero.symm

/-- Tokens are read one after the other. -/
theorem foldl_parseToken (values : FlagTable) (result : Int32) (toks : List (List UInt8)) :
    toks.foldl (parseToken values) result =
      result ||| toks.foldl (parseToken values) 0 := by
  induction toks generalizing result with
  | nil => exact Int32.or_zero.symm
  | cons tok toks ih =>
    rw [List.foldl_cons, List.foldl_cons, ih, ih (parseToken values 0 tok), parseToken_eq,
      parseToken_eq values 0, Int32.zero_or, Int32.or_assoc]

/-- A bar separates two texts. -/
theorem parse_append (values : FlagTable) (a b : List UInt8) :
    parse values (a ++ 124 :: b) = parse values a ||| parse values b := by
  rw [parse, List.splitOn_append_cons_self, List.foldl_append, foldl_parseToken]
  rfl

theorem trim_of_blanks {blanks : List UInt8} (h : ∀ c ∈ blanks, isBlank c) : trim blanks = [] := by
  rw [trim, List.dropWhile_eq_nil_iff.2 h, List.rdropWhile_nil]

/-- What is trimmed at both ends is trimmed at each. -/
theorem dropWhile_of_trimmed {tok : List UInt8} (h : trim tok = tok) :
    tok.dropWhile isBlank = tok := by
  have hsuffix : tok.dropWhile isBlank <:+ tok := List.dropWhile_suffix isBlank
  have hprefix : trim tok <+: tok.dropWhile isBlank := List.rdropWhile_prefix isBlank _
  rw [h] at hprefix
  exact hsuffix.eq_of_length_le hprefix.length_le

theorem rdropWhile_of_trimmed {tok : List UInt8} (h : trim tok = tok) :
    tok.rdropWhile isBlank = tok := by
  have htrim := h
  rwa [trim, dropWhile_of_trimmed h] at htrim

theorem Plain.head_not_blank {c : UInt8} {tok : List UInt8} (h : Plain (c :: tok)) :
    ¬ isBlank c := by
  intro hc
  have hdrop := congrArg List.length (dropWhile_of_trimmed h.trimmed)
  rw [List.dropWhile_cons_of_pos hc, List.length_cons] at hdrop
  have hle := (List.dropWhile_suffix isBlank (l := tok)).length_le
  omega

/-- Blanks around a token. -/
theorem trim_blanks {tok before after : List UInt8} (h : Plain tok)
    (hbefore : ∀ c ∈ before, isBlank c) (hafter : ∀ c ∈ after, isBlank c) :
    trim (before ++ (tok ++ after)) = tok := by
  obtain ⟨c, rest, rfl⟩ := List.exists_cons_of_ne_nil h.ne_nil
  have hfront : (c :: rest ++ after).dropWhile isBlank = c :: rest ++ after :=
    List.dropWhile_cons_of_neg h.head_not_blank
  have hback : (c :: rest ++ after).rdropWhile isBlank = (c :: rest).rdropWhile isBlank := by
    rw [List.rdropWhile, List.reverse_append, List.dropWhile_append_of_pos]
    · rfl
    · exact fun a ha => hafter a (List.mem_reverse.1 ha)
  rw [trim, List.dropWhile_append_of_pos hbefore, hfront, hback, rdropWhile_of_trimmed h.trimmed]

theorem not_isBlank_bar : ¬ isBlank 124 := by decide

/-- A token with blanks around it is read as the token. -/
theorem parse_token (values : FlagTable) {tok before after : List UInt8} (h : Plain tok)
    (hbefore : ∀ c ∈ before, isBlank c) (hafter : ∀ c ∈ after, isBlank c) :
    parse values (before ++ (tok ++ after)) = bits values tok := by
  have hbar : 124 ∉ before ++ (tok ++ after) := by
    simp only [List.mem_append, not_or]
    exact ⟨fun hmem => not_isBlank_bar (hbefore _ hmem), h.no_bar,
      fun hmem => not_isBlank_bar (hafter _ hmem)⟩
  rw [parse, List.splitOn_eq_singleton hbar, List.foldl_cons, List.foldl_nil, bits, parseToken,
    parseToken, trim_blanks h hbefore hafter, h.trimmed]

theorem parse_blanks (values : FlagTable) {blanks : List UInt8} (h : ∀ c ∈ blanks, isBlank c) :
    parse values blanks = 0 := by
  have hbar : 124 ∉ blanks := fun hmem => not_isBlank_bar (h _ hmem)
  rw [parse, List.splitOn_eq_singleton hbar, List.foldl_cons, List.foldl_nil, parseToken,
    if_pos (trim_of_blanks h)]

/-! ## Printed text -/

/-- A text is read as a number, with any blanks behind it. -/
def Reads (values : FlagTable) (out : List UInt8) (m : Int32) : Prop :=
  ∀ blanks, (∀ c ∈ blanks, isBlank c) → parse values (out ++ blanks) = m

theorem Reads.parse_eq {values : FlagTable} {out : List UInt8} {m : Int32}
    (h : Reads values out m) : parse values out = m := by
  rw [← List.append_nil out]
  exact h [] (by simp)

theorem reads_nil (values : FlagTable) : Reads values [] 0 := fun _ h => parse_blanks values h

theorem reads_token (values : FlagTable) {tok : List UInt8} (h : Plain tok) :
    Reads values tok (bits values tok) :=
  fun _ hblanks => @parse_token values tok [] _ h (by simp) hblanks

/-- Each name adds its bits. -/
theorem Reads.addToken {values : FlagTable} {out tok : List UInt8} {m : Int32}
    (h : Reads values out m) (htok : Plain tok) :
    Reads values (addToken out tok) (m ||| bits values tok) := by
  unfold EnumFlags.addToken
  split_ifs with hne
  · intro blanks hblanks
    have hsplit : out ++ ascii " | " ++ tok ++ blanks =
        (out ++ [32]) ++ 124 :: ([32] ++ (tok ++ blanks)) := by simp [ascii]
    have hspace : ∀ c ∈ [(32 : UInt8)], isBlank c := by decide +kernel
    rw [hsplit, parse_append, h [32] hspace, parse_token values htok hspace hblanks]
  · -- there is nothing in front, and so no separator
    rw [not_not] at hne
    have hout : m = 0 := by
      rw [← h.parse_eq, hne]
      exact parse_blanks values (by simp)
    rw [hout, Int32.zero_or, hne]
    exact reads_token values htok

theorem addToken_ne_nil {out tok : List UInt8} (h : tok ≠ []) : addToken out tok ≠ [] :=
  List.append_ne_nil_of_right_ne_nil _ h

/-- A mask that is in a number: what remains of the number makes it up with the mask. -/
theorem or_remaining {remaining val : Int32} (h : remaining &&& val = val) :
    val ||| (remaining &&& ~~~val) = remaining := by
  apply Int32.toBitVec_inj.1
  have hbits := congrArg Int32.toBitVec h
  rw [Int32.toBitVec_and] at hbits
  rw [Int32.toBitVec_or, Int32.toBitVec_and, Int32.toBitVec_not]
  ext i hi
  have hbit : (remaining.toBitVec[i] && val.toBitVec[i]) = val.toBitVec[i] := by
    rw [← BitVec.getElem_and, hbits]
  rw [BitVec.getElem_or, BitVec.getElem_and, BitVec.getElem_not]
  generalize remaining.toBitVec[i] = r at hbit ⊢
  generalize val.toBitVec[i] = b at hbit ⊢
  revert hbit
  cases r <;> cases b <;> decide

theorem bits_eq {values : FlagTable} {tok : List UInt8} (h : Plain tok) :
    bits values tok =
      match values.find? (·.1 == tok) with
      | some (_, val) => val
      | none =>
        match stoi tok with
        | .ok n => n
        | .error _ => 0 := by
  rw [bits, parseToken, h.trimmed, if_neg h.ne_nil]
  split
  next => exact Int32.zero_or
  next =>
    split
    next => exact Int32.zero_or
    next => rfl

/-- The entry of a name is the first one that has it. -/
theorem Readable.find?_name {values : FlagTable} (h : (values.map Prod.fst).Nodup)
    {name : List UInt8} {val : Int32} (hmem : (name, val) ∈ values) :
    values.find? (·.1 == name) = some (name, val) := by
  induction values with
  | nil => cases hmem
  | cons entry values ih =>
    rw [List.map_cons, List.nodup_cons] at h
    rcases List.mem_cons.1 hmem with rfl | hmem
    · exact List.find?_cons_of_pos (by simp)
    · have hne : entry.1 ≠ name := fun heq => h.1 (heq ▸ List.mem_map_of_mem hmem)
      rw [List.find?_cons_of_neg (by simpa using hne), ih h.2 hmem]

/-- A name of the table stands for its value. -/
theorem Readable.bits_name {values : FlagTable} (h : Readable values) {name : List UInt8}
    {val : Int32} (hmem : (name, val) ∈ values) : bits values name = val := by
  rw [bits_eq (h.plain name (List.mem_map_of_mem hmem)), find?_name h.distinct hmem]

theorem trim_of_no_blank {tok : List UInt8} (h : ∀ c ∈ tok, ¬ isBlank c) : trim tok = tok := by
  have hdrop : tok.dropWhile isBlank = tok :=
    List.dropWhile_eq_self_iff.2 fun hpos => h _ (List.getElem_mem hpos)
  rw [trim, hdrop, List.rdropWhile_eq_self_iff]
  exact fun hne => h _ (List.getLast_mem hne)

theorem plain_signedDecimal (n : Int) : Plain (signedDecimal n) := by
  have hchars := signedDecimal_chars n
  refine ⟨signedDecimal_ne_nil n, trim_of_no_blank fun c hc => ?_, fun hbar => ?_⟩
  · intro hblank
    rcases Bool.or_eq_true_iff.1 hblank with hblank | hblank <;>
      exact absurd (eq_of_beq hblank ▸ hchars c hc) (by decide)
  · exact absurd (hchars _ hbar) (by decide)

/-- A printed number stands for itself. -/
theorem Readable.bits_number {values : FlagTable} (h : Readable values) (n : Int32) :
    bits values (signedDecimal n.toInt) = n := by
  have hfind : values.find? (·.1 == signedDecimal n.toInt) = none := by
    rw [List.find?_eq_none]
    intro entry hentry heq
    exact h.no_number entry.1 (List.mem_map_of_mem hentry) n (beq_iff_eq.1 heq)
  rw [bits_eq (plain_signedDecimal _), hfind, stoi_signedDecimal]

/-! ## The whole table -/

/-- What is printed and what remains make up the number, name after name. -/
theorem Readable.foldl_formatEntry {values : FlagTable} (h : Readable values)
    {entries : FlagTable} (hentries : ∀ entry ∈ entries, entry ∈ values)
    {out : List UInt8} {remaining m v : Int32} (hreads : Reads values out m)
    (hv : m ||| remaining = v) :
    ∃ m', Reads values (entries.foldl formatEntry (out, remaining)).1 m' ∧
      m' ||| (entries.foldl formatEntry (out, remaining)).2 = v := by
  -- the loop moves the bits of a name from what remains to what is printed
  induction entries generalizing out remaining m with
  | nil => exact ⟨m, hreads, hv⟩
  | cons entry entries ih =>
    have hentry := hentries entry List.mem_cons_self
    have hrest := fun e he => hentries e (List.mem_cons_of_mem _ he)
    rw [List.foldl_cons, formatEntry]
    split_ifs with hmask
    · have hplain := h.plain entry.1 (List.mem_map_of_mem hentry)
      have hbits : bits values entry.1 = entry.2 := h.bits_name hentry
      refine ih hrest (hreads.addToken hplain) ?_
      rw [hbits, Int32.or_assoc, or_remaining hmask.2, hv]
    · exact ih hrest hreads hv

/-- **Main result**: what is printed for a number is read back as the number. -/
theorem parse_format {values : FlagTable} (h : Readable values) (v : Int32) :
    parse values (format values v) = v := by
  obtain ⟨m, hreads, hv⟩ :=
    h.foldl_formatEntry (fun _ he => he) (reads_nil values) (Int32.zero_or (a := v))
  unfold format
  generalize values.foldl formatEntry ([], v) = state at hreads hv
  obtain ⟨out, remaining⟩ := state
  dsimp only at hreads hv ⊢
  have hnumber (n : Int32) : parse values (signedDecimal n.toInt) = n :=
    (reads_token values (plain_signedDecimal _)).parse_eq.trans (h.bits_number n)
  by_cases hzero : remaining = 0
  · rw [if_neg (not_not.2 hzero)]
    split_ifs
    · -- nothing is printed, for which the source prints the number
      exact hnumber v
    · rw [hreads.parse_eq, ← hv, hzero, Int32.or_zero]
  · have hplain := plain_signedDecimal remaining.toInt
    rw [if_pos hzero, if_neg (addToken_ne_nil hplain.ne_nil), (hreads.addToken hplain).parse_eq,
      h.bits_number, hv]

/-- A composite mask behind its parts, and the sign bit. -/
def sampleFlags : FlagTable :=
  [(ascii "A", 1), (ascii "B", 2), (ascii "AB", 3), (ascii "Top", -2147483648)]

theorem sampleFlags_readable : Readable sampleFlags where
  distinct := by decide +kernel
  plain := by
    have hplain : ∀ name ∈ sampleFlags.map Prod.fst,
        name ≠ [] ∧ trim name = name ∧ 124 ∉ name := by decide +kernel
    intro name hname
    obtain ⟨hne, htrim, hbar⟩ := hplain name hname
    exact ⟨hne, htrim, hbar⟩
  no_number := by
    have hletter : ∀ name ∈ sampleFlags.map Prod.fst, ∃ c ∈ name, ¬ (c = 45 ∨ 48 ≤ c ∧ c ≤ 57) := by
      decide +kernel
    rintro name hname n rfl
    obtain ⟨c, hc, hnot⟩ := hletter _ hname
    exact hnot (signedDecimal_chars _ c hc)

theorem parse_format_sample : format sampleFlags (-2147483633) = ascii "A | B | Top | 12" ∧
    parse sampleFlags (format sampleFlags (-2147483633)) = -2147483633 :=
  ⟨by decide +kernel, parse_format sampleFlags_readable _⟩

end EnumFlags

end Bison
