import Mathlib.Data.Bool.AllAny
import Mathlib.Data.List.Basic

/-!
# The texts of JSON

The grammar of JSON, over bytes, and what a scanner needs that counts brackets and knows strings to
pass over a text of it.

- `Json`: the grammar. `Value`: a value without blanks around it.
- `Quoting`: whether a scanner is inside a string, and behind a backslash.
- `Scanner`: the rules of a scanner with a depth, of which `Scanner.json` is the consequence: it
  takes in every value, at every depth, and is where it was before.
-/

namespace JsonText

/-! ## The grammar -/

def Blank (b : UInt8) : Prop := b = 0x20 ∨ b = 0x09 ∨ b = 0x0a ∨ b = 0x0d

instance (b : UInt8) : Decidable (Blank b) := by unfold Blank; infer_instance

def Blanks (s : List UInt8) : Prop := ∀ b ∈ s, Blank b

def Digits (s : List UInt8) : Prop := s ≠ [] ∧ ∀ b ∈ s, 0x30 ≤ b ∧ b ≤ 0x39

/-- The parts of a number. No zero stands in front of another digit. -/
structure Number (sign int frac exp : List UInt8) : Prop where
  sign : sign = [] ∨ sign = [0x2d]
  int : Digits int ∧ (int.head? = some 0x30 → int = [0x30])
  frac : frac = [] ∨ ∃ digits, Digits digits ∧ frac = 0x2e :: digits
  exp : exp = [] ∨ ∃ e plus digits, (e = 0x65 ∨ e = 0x45) ∧
    (plus = [] ∨ plus = [0x2b] ∨ plus = [0x2d]) ∧ Digits digits ∧ exp = e :: (plus ++ digits)

/-- A number is of digits, signs, points and exponents. -/
theorem Number.forall_mem {P : UInt8 → Prop} {sign int frac exp : List UInt8}
    (h : Number sign int frac exp) (hdigit : ∀ b, 0x30 ≤ b → b ≤ 0x39 → P b)
    (hother : ∀ b ∈ [0x2b, 0x2d, 0x2e, 0x45, 0x65], P b) :
    ∀ b ∈ sign ++ int ++ frac ++ exp, P b := by
  simp only [List.forall_mem_cons, List.not_mem_nil, false_imp_iff, implies_true, and_true]
    at hother
  obtain ⟨hplus, hminus, hpoint, hupper, hlower⟩ := hother
  have hdigits {s : List UInt8} (hs : Digits s) : ∀ b ∈ s, P b := fun b hb =>
    hdigit b (hs.2 b hb).1 (hs.2 b hb).2
  have hsign : ∀ b ∈ sign, P b := by
    rcases h.sign with rfl | rfl
    · exact List.forall_mem_nil P
    · exact List.forall_mem_singleton.2 hminus
  have hfrac : ∀ b ∈ frac, P b := by
    rcases h.frac with rfl | ⟨digits, hs, rfl⟩
    · exact List.forall_mem_nil P
    · exact List.forall_mem_cons.2 ⟨hpoint, hdigits hs⟩
  have hexp : ∀ b ∈ exp, P b := by
    rcases h.exp with rfl | ⟨e, plus, digits, he, hsigned, hs, rfl⟩
    · exact List.forall_mem_nil P
    · refine List.forall_mem_cons.2 ⟨?_, List.forall_mem_append.2 ⟨?_, hdigits hs⟩⟩
      · rcases he with rfl | rfl
        · exact hlower
        · exact hupper
      · rcases hsigned with rfl | rfl | rfl
        · exact List.forall_mem_nil P
        · exact List.forall_mem_singleton.2 hplus
        · exact List.forall_mem_singleton.2 hminus
  simp only [List.forall_mem_append]
  exact ⟨⟨⟨hsign, hdigits h.int.1⟩, hfrac⟩, hexp⟩

def HexDigit (b : UInt8) : Prop :=
  0x30 ≤ b ∧ b ≤ 0x39 ∨ 0x41 ≤ b ∧ b ≤ 0x46 ∨ 0x61 ≤ b ∧ b ≤ 0x66

/-- What stands between the quotes of a string. -/
inductive Chars : List UInt8 → Prop where
  | nil : Chars []
  | unescaped {b s} (hcontrol : 0x20 ≤ b) (hquote : b ≠ 0x22) (hbackslash : b ≠ 0x5c) :
      Chars s → Chars (b :: s)
  /-- A backslash and one of `"`, `\`, `/`, `b`, `f`, `n`, `r` and `t`. -/
  | escaped {b s} (hb : b ∈ [0x22, 0x5c, 0x2f, 0x62, 0x66, 0x6e, 0x72, 0x74]) :
      Chars s → Chars (0x5c :: b :: s)
  | unicode {a b c d s} (ha : HexDigit a) (hb : HexDigit b) (hc : HexDigit c) (hd : HexDigit d) :
      Chars s → Chars (0x5c :: 0x75 :: a :: b :: c :: d :: s)

/-- What a text can be. -/
inductive Part where
  | value
  | elements
  | members

/-- The grammar of the values, of what stands in an array, and of what stands in an object. -/
inductive Json : Part → List UInt8 → Prop where
  | null : Json .value [0x6e, 0x75, 0x6c, 0x6c]
  | true : Json .value [0x74, 0x72, 0x75, 0x65]
  | false : Json .value [0x66, 0x61, 0x6c, 0x73, 0x65]
  | number {sign int frac exp} :
      Number sign int frac exp → Json .value (sign ++ int ++ frac ++ exp)
  | string {s} : Chars s → Json .value (0x22 :: s ++ [0x22])
  | emptyArray {w} : Blanks w → Json .value (0x5b :: w ++ [0x5d])
  | array {s} : Json .elements s → Json .value (0x5b :: s ++ [0x5d])
  | emptyObject {w} : Blanks w → Json .value (0x7b :: w ++ [0x7d])
  | object {s} : Json .members s → Json .value (0x7b :: s ++ [0x7d])
  | element {w s w'} : Blanks w → Json .value s → Blanks w' → Json .elements (w ++ s ++ w')
  | elements {s s'} :
      Json .elements s → Json .elements s' → Json .elements (s ++ [0x2c] ++ s')
  | member {w name w' v s v'} : Blanks w → Chars name → Blanks w' →
      Blanks v → Json .value s → Blanks v' →
      Json .members (w ++ (0x22 :: name ++ [0x22]) ++ w' ++ [0x3a] ++ v ++ s ++ v')
  | members {s s'} :
      Json .members s → Json .members s' → Json .members (s ++ [0x2c] ++ s')

/-! ## The ends of a value -/

/-- That blanks in front of a text and behind it are not its own. -/
structure Firm (s : List UInt8) : Prop where
  head : ∃ a rest, ¬ Blank a ∧ s = a :: rest
  last : ∃ init b, ¬ Blank b ∧ s = init ++ [b]

theorem not_blank_of_digit (b : UInt8) (hlow : 0x30 ≤ b) (_ : b ≤ 0x39) : ¬ Blank b := by
  rintro (rfl | rfl | rfl | rfl) <;> exact absurd hlow (by decide)

theorem Firm.of_not_blank {s : List UInt8} (hne : s ≠ []) (h : ∀ b ∈ s, ¬ Blank b) : Firm s where
  head := by
    obtain ⟨a, rest, rfl⟩ := List.exists_cons_of_ne_nil hne
    exact ⟨a, rest, h a List.mem_cons_self, rfl⟩
  last := ⟨s.dropLast, s.getLast hne, h _ (List.getLast_mem hne),
    (List.dropLast_concat_getLast hne).symm⟩

theorem Firm.enclosed {a b : UInt8} (ha : ¬ Blank a) (hb : ¬ Blank b) (s : List UInt8) :
    Firm (a :: s ++ [b]) where
  head := ⟨a, s ++ [b], ha, rfl⟩
  last := ⟨a :: s, b, hb, rfl⟩

/-! ## Scanners -/

/-- Whether a scanner is inside a string, and behind a backslash in it. -/
structure Quoting where
  inStr : Bool := false
  escape : Bool := false

/-- What becomes of it with a byte that belongs to a string. -/
def Quoting.skip (q : Quoting) (c : UInt8) : Option Quoting :=
  if q.escape then some { q with escape := false }
  else if q.inStr then
    if c = 0x5c then some { q with escape := true }
    else if c = 0x22 then some { q with inStr := false }
    else some q
  else if c = 0x22 then some { q with inStr := true }
  else none

theorem skip_unescaped {b : UInt8} (hquote : b ≠ 0x22) (hbackslash : b ≠ 0x5c) :
    Quoting.skip { inStr := true } b = some { inStr := true } := by
  simp only [Quoting.skip, hquote, hbackslash, Bool.false_eq_true, if_false, if_true]

theorem HexDigit.skip {b : UInt8} (h : HexDigit b) :
    Quoting.skip { inStr := true } b = some { inStr := true } := by
  apply skip_unescaped
  · rintro rfl
    exact absurd h (by unfold HexDigit; decide)
  · rintro rfl
    exact absurd h (by unfold HexDigit; decide)

def Opens (c : UInt8) : Prop := c = 0x28 ∨ c = 0x5b ∨ c = 0x7b

def Closes (c : UInt8) : Prop := c = 0x29 ∨ c = 0x5d ∨ c = 0x7d

instance (c : UInt8) : Decidable (Opens c) := by unfold Opens; infer_instance

instance (c : UInt8) : Decidable (Closes c) := by unfold Closes; infer_instance

/-- A byte that means nothing to a scanner. -/
def Plain (c : UInt8) : Prop := c ≠ 0x22 ∧ c ≠ 0x2c ∧ ¬ Opens c ∧ ¬ Closes c

instance (c : UInt8) : Decidable (Plain c) := by unfold Plain; infer_instance

theorem plain_of_digit (b : UInt8) (hlow : 0x30 ≤ b) (hhigh : b ≤ 0x39) : Plain b := by
  refine ⟨?_, ?_, ?_, ?_⟩
  · rintro rfl
    exact absurd hlow (by decide)
  · rintro rfl
    exact absurd hlow (by decide)
  · rintro (rfl | rfl | rfl)
    · exact absurd hlow (by decide)
    · exact absurd hhigh (by decide)
    · exact absurd hhigh (by decide)
  · rintro (rfl | rfl | rfl)
    · exact absurd hlow (by decide)
    · exact absurd hhigh (by decide)
    · exact absurd hhigh (by decide)

variable {R : Type} {scan : Quoting → Nat → List UInt8 → List UInt8 → R}

/-- A scanner with a depth, which collects what it has seen. What it does with a comma at depth 0,
and with a bracket that closes there, is its own affair. -/
structure Scanner (scan : Quoting → Nat → List UInt8 → List UInt8 → R) : Prop where
  skip : ∀ {q q' c d seen rest}, Quoting.skip q c = some q' →
    scan q d seen (c :: rest) = scan q' d (seen ++ [c]) rest
  opens : ∀ {c d seen rest}, Opens c →
    scan {} d seen (c :: rest) = scan {} (d + 1) (seen ++ [c]) rest
  closes : ∀ {c d seen rest}, Closes c →
    scan {} (d + 1) seen (c :: rest) = scan {} d (seen ++ [c]) rest
  comma : ∀ {d seen rest},
    scan {} (d + 1) seen (0x2c :: rest) = scan {} (d + 1) (seen ++ [0x2c]) rest
  plain : ∀ {c d seen rest}, Plain c →
    scan {} d seen (c :: rest) = scan {} d (seen ++ [c]) rest

/-- A text that the scanner takes in, and is where it was. -/
def Passes (scan : Quoting → Nat → List UInt8 → List UInt8 → R) (d : Nat) (s : List UInt8) : Prop :=
  ∀ seen rest, scan {} d seen (s ++ rest) = scan {} d (seen ++ s) rest

theorem Passes.nil (d : Nat) : Passes scan d [] := by
  intro seen rest
  rw [List.nil_append, List.append_nil]

theorem Passes.append {d : Nat} {s s' : List UInt8} (h : Passes scan d s) (h' : Passes scan d s') :
    Passes scan d (s ++ s') := by
  intro seen rest
  rw [List.append_assoc, h, h', List.append_assoc]

theorem Passes.singleton {d : Nat} {c : UInt8}
    (h : ∀ seen rest, scan {} d seen (c :: rest) = scan {} d (seen ++ [c]) rest) :
    Passes scan d [c] := h

namespace Scanner

variable (h : Scanner scan) {d : Nat}
include h

theorem passes_plain {s : List UInt8} (hs : ∀ c ∈ s, Plain c) : Passes scan d s := by
  induction s with
  | nil => exact .nil d
  | cons c s ih =>
    have hfirst : Passes scan d [c] := fun seen rest => h.plain (hs c List.mem_cons_self)
    exact hfirst.append (ih fun b hb => hs b (List.mem_cons_of_mem _ hb))

theorem passes_blanks {s : List UInt8} (hs : Blanks s) : Passes scan d s := by
  refine h.passes_plain fun c hc => ?_
  rcases hs c hc with rfl | rfl | rfl | rfl <;> decide

theorem passes_enclosed {a b : UInt8} {s : List UInt8} (ha : Opens a) (hb : Closes b)
    (hs : Passes scan (d + 1) s) : Passes scan d (a :: s ++ [b]) := by
  intro seen rest
  rw [List.cons_append, List.cons_append, h.opens ha, List.append_assoc, hs, List.singleton_append,
    h.closes hb]
  simp only [List.append_assoc, List.cons_append, List.nil_append]

/-- Inside a string every character of it is skipped. -/
theorem chars {s : List UInt8} (hs : Chars s) (seen rest : List UInt8) :
    scan { inStr := true } d seen (s ++ rest) = scan { inStr := true } d (seen ++ s) rest := by
  have hbackslash : Quoting.skip { inStr := true } 0x5c = some { inStr := true, escape := true } :=
    rfl
  have hescaped (b : UInt8) : Quoting.skip { inStr := true, escape := true } b =
      some { inStr := true } := rfl
  induction hs generalizing seen with
  | nil => rw [List.nil_append, List.append_nil]
  | unescaped _ hq hb _ ih =>
    rw [List.cons_append, h.skip (skip_unescaped hq hb), ih, List.append_assoc,
      List.singleton_append]
  | escaped _ _ ih =>
    rw [List.cons_append, List.cons_append, h.skip hbackslash, h.skip (hescaped _), ih]
    simp only [List.append_assoc, List.cons_append, List.nil_append]
  | unicode ha hb hc hd _ ih =>
    rw [List.cons_append, List.cons_append, List.cons_append, List.cons_append, List.cons_append,
      List.cons_append, h.skip hbackslash, h.skip (hescaped _), h.skip ha.skip, h.skip hb.skip,
      h.skip hc.skip, h.skip hd.skip, ih]
    simp only [List.append_assoc, List.cons_append, List.nil_append]

theorem passes_string {s : List UInt8} (hs : Chars s) : Passes scan d (0x22 :: s ++ [0x22]) := by
  intro seen rest
  have hopen : Quoting.skip {} 0x22 = some { inStr := true } := rfl
  have hclose : Quoting.skip { inStr := true } 0x22 = some {} := rfl
  rw [List.cons_append, List.cons_append, h.skip hopen, List.append_assoc, h.chars hs,
    List.singleton_append, h.skip hclose]
  simp only [List.append_assoc, List.cons_append, List.nil_append]

end Scanner

/-- The depth that a part has at least where it stands. -/
def Part.depth : Part → Nat
  | .value => 0
  | .elements => 1
  | .members => 1

/-- **Main result**: a scanner passes over values at every depth, and over what brackets enclose
inside them. -/
theorem Scanner.json (h : Scanner scan) {part : Part} {s : List UInt8} (hs : Json part s)
    (d : Nat) : Passes scan (d + part.depth) s := by
  induction hs generalizing d with
  | null => exact h.passes_plain (List.all_iff_forall_prop.1 (by decide))
  | true => exact h.passes_plain (List.all_iff_forall_prop.1 (by decide))
  | false => exact h.passes_plain (List.all_iff_forall_prop.1 (by decide))
  | number hnumber =>
    exact h.passes_plain (hnumber.forall_mem plain_of_digit
      (List.all_iff_forall_prop.1 (by decide)))
  | string hchars => exact h.passes_string hchars
  | emptyArray hw => exact h.passes_enclosed (by decide) (by decide) (h.passes_blanks hw)
  | array _ ih => exact h.passes_enclosed (by decide) (by decide) (ih d)
  | emptyObject hw => exact h.passes_enclosed (by decide) (by decide) (h.passes_blanks hw)
  | object _ ih => exact h.passes_enclosed (by decide) (by decide) (ih d)
  | element hw _ hw' ih =>
    exact ((h.passes_blanks hw).append (ih (d + 1))).append (h.passes_blanks hw')
  | elements _ _ ih ih' => exact ((ih d).append fun _ _ => h.comma).append (ih' d)
  | member hw hname hw' hv _ hv' ih =>
    have hcolon : Passes scan (d + 1) [0x3a] :=
      h.passes_plain (List.all_iff_forall_prop.1 (by decide))
    have hbefore : Passes scan (d + 1) _ :=
      ((h.passes_blanks hw).append (h.passes_string hname)).append (h.passes_blanks hw')
    exact (((hbefore.append hcolon).append (h.passes_blanks hv)).append (ih (d + 1))).append
      (h.passes_blanks hv')
  | members _ _ ih ih' => exact ((ih d).append fun _ _ => h.comma).append (ih' d)

/-- The blanks around a value are not its own. -/
theorem Json.firm {s : List UInt8} (hs : Json .value s) : Firm s := by
  cases hs with
  | null => exact .of_not_blank (by decide) (List.all_iff_forall_prop.1 (by decide))
  | true => exact .of_not_blank (by decide) (List.all_iff_forall_prop.1 (by decide))
  | false => exact .of_not_blank (by decide) (List.all_iff_forall_prop.1 (by decide))
  | number hnumber =>
    have hne := hnumber.int.1.1
    refine .of_not_blank ?_ (hnumber.forall_mem not_blank_of_digit
      (List.all_iff_forall_prop.1 (by decide)))
    simp [hne]
  | string => exact .enclosed (by decide) (by decide) _
  | emptyArray => exact .enclosed (by decide) (by decide) _
  | array => exact .enclosed (by decide) (by decide) _
  | emptyObject => exact .enclosed (by decide) (by decide) _
  | object => exact .enclosed (by decide) (by decide) _

end JsonText
