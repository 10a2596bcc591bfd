import Mathlib.Data.List.TakeWhile
import Mathlib.Order.MinMax
import Bison.Core.Value

/-!
# Numbers as text

`std::to_string`, `std::strtol` and `std::stoi`.

- `strtol_signedDecimal`, `stoi_signedDecimal`: a printed number is read back, to its end.
-/

namespace Bison

/-- `std::to_string`. -/
def decimal (n : Nat) : List UInt8 :=
  (Nat.toDigits 10 n).map fun c => UInt8.ofNat c.toNat

/-- `std::to_string` of a signed number. -/
def signedDecimal (i : Int) : List UInt8 :=
  if i < 0 then 45 :: decimal i.natAbs else decimal i.natAbs

/-- What a `const char*` to the text stands for: it ends at the first NUL. -/
def cString (text : List UInt8) : List UInt8 := text.takeWhile (· != 0)

def isSpace (c : UInt8) : Bool := c == 32 || (9 ≤ c && c ≤ 13)

def isDigit (c : UInt8) : Bool := 48 ≤ c && c ≤ 57

def digitsValue (digits : List UInt8) : Nat :=
  digits.foldl (fun n c => 10 * n + (c.toNat - 48)) 0

/-- The sign in front of a number, whether it is a minus, and what follows it. -/
def takeSign : List UInt8 → Bool × List UInt8
  | 45 :: rest => (true, rest)
  | 43 :: rest => (false, rest)
  | text => (false, text)

/-- `std::strtol(text, &end, 10)` for a 64-bit `long`: the number and the text from `end` on. A
number out of range becomes the nearest one; without a digit there is none, and `end` is `text`. -/
def strtol (text : List UInt8) : Option (Int × List UInt8) :=
  let (negative, text) := takeSign (text.dropWhile isSpace)
  let digits := text.takeWhile isDigit
  if digits.isEmpty then none
  else
    let n : Int := digitsValue digits
    some (if negative then max (-n) (-0x8000000000000000) else min n 0x7FFFFFFFFFFFFFFF,
      text.dropWhile isDigit)

/-- `std::stoi`. `std::invalid_argument` and `std::out_of_range` have the same text. -/
def stoi (text : List UInt8) : Except Exn Int32 :=
  match strtol (cString text) with
  | none => .error (.runtimeError "stoi")
  | some (v, _) =>
    if -0x80000000 ≤ v ∧ v ≤ 0x7FFFFFFF then .ok (Int32.ofInt v)
    else .error (.runtimeError "stoi")

/-! ## C strings -/

theorem cString_append {front rest : List UInt8} (h : 0 ∉ front) :
    cString (front ++ rest) = front ++ cString rest := by
  refine List.takeWhile_append_of_pos fun c hc => ?_
  rw [bne_iff_ne]
  rintro rfl
  exact h hc

theorem cString_of_no_nul {text : List UInt8} (h : 0 ∉ text) : cString text = text := by
  calc cString text = cString (text ++ []) := by rw [List.append_nil]
    _ = text ++ cString [] := cString_append h
    _ = text := List.append_nil text

/-- Behind a NUL nothing counts. -/
theorem cString_append_of_nul {front rest : List UInt8} (h : 0 ∈ front) :
    cString (front ++ rest) = cString front := by
  induction front with
  | nil => cases h
  | cons c front ih =>
    unfold cString at ih ⊢
    rw [List.cons_append, List.takeWhile_cons, List.takeWhile_cons]
    cases hc : (c != 0) with
    | true =>
      rw [if_pos rfl, if_pos rfl, ih ?_]
      refine (List.mem_cons.1 h).resolve_left fun hzero => ?_
      rw [← hzero] at hc
      cases hc
    | false => rfl

/-! ## Digits -/

/-- `std::to_string` in front of the last digit. -/
theorem decimal_eq (n : Nat) :
    decimal n = if n < 10 then [UInt8.ofNat (48 + n)]
      else decimal (n / 10) ++ [UInt8.ofNat (48 + n % 10)] := by
  have hdigit : ∀ d < 10, (Nat.digitChar d).toNat = 48 + d := by decide
  unfold decimal
  rw [Nat.toDigits_eq_if (by decide)]
  by_cases hn : n < 10
  · rw [if_pos hn, if_pos hn, List.map_singleton, hdigit n hn]
  · rw [if_neg hn, if_neg hn, List.map_append, List.map_singleton,
      hdigit _ (Nat.mod_lt _ (by decide))]

/-- Every character of a number is a digit. -/
theorem decimal_digits (n : Nat) : ∀ c ∈ decimal n, 48 ≤ c ∧ c ≤ 57 := by
  have hdigit : ∀ d < 10, 48 ≤ UInt8.ofNat (48 + d) ∧ UInt8.ofNat (48 + d) ≤ 57 := by decide
  induction n using Nat.strongRecOn with
  | ind n ih =>
    intro c hc
    rw [decimal_eq] at hc
    by_cases hn : n < 10
    · rw [if_pos hn, List.mem_singleton] at hc
      exact hc ▸ hdigit n hn
    · rw [if_neg hn, List.mem_append, List.mem_singleton] at hc
      rcases hc with hc | rfl
      · exact ih (n / 10) (by omega) c hc
      · exact hdigit _ (Nat.mod_lt _ (by decide))

theorem decimal_ne_nil (n : Nat) : decimal n ≠ [] := by
  simp [decimal, Nat.toDigits_ne_nil]

theorem decimal_length {n k : Nat} (hk : 0 < k) (h : n < 10 ^ k) : (decimal n).length ≤ k := by
  rw [decimal, List.length_map]
  exact (Nat.length_toDigits_le_iff (by decide) hk).2 h

/-! ## Reading a number back -/

theorem cString_cString (s : List UInt8) : cString (cString s) = cString s := by
  unfold cString
  rw [List.takeWhile_eq_self_iff]
  intro c hc
  exact List.mem_takeWhile_imp (p := fun c => c != 0) hc

theorem cString_eq_self_iff {s : List UInt8} : cString s = s ↔ 0 ∉ s := by
  unfold cString
  rw [List.takeWhile_eq_self_iff]
  constructor
  · intro h hzero
    exact absurd (h 0 hzero) (by decide)
  · intro h c hc
    rw [bne_iff_ne]
    rintro rfl
    exact h hc

theorem decimal_isDigit (n : Nat) : ∀ c ∈ decimal n, isDigit c = true := by
  intro c hc
  obtain ⟨hlow, hhigh⟩ := decimal_digits n c hc
  simp only [isDigit, Bool.and_eq_true, decide_eq_true_eq]
  exact ⟨hlow, hhigh⟩

theorem digitsValue_decimal (n : Nat) : digitsValue (decimal n) = n := by
  have hdigit : ∀ d < 10, (UInt8.ofNat (48 + d)).toNat - 48 = d := by decide
  unfold digitsValue
  induction n using Nat.strongRecOn with
  | ind n ih =>
    rw [decimal_eq]
    by_cases hn : n < 10
    · rw [if_pos hn, List.foldl_cons, List.foldl_nil, hdigit n hn]
      omega
    · rw [if_neg hn, List.foldl_append, ih (n / 10) (by omega), List.foldl_cons, List.foldl_nil,
        hdigit _ (Nat.mod_lt _ (by decide))]
      omega

theorem takeWhile_decimal (n : Nat) : (decimal n).takeWhile isDigit = decimal n :=
  List.takeWhile_eq_self_iff.mpr (decimal_isDigit n)

theorem dropWhile_decimal (n : Nat) : (decimal n).dropWhile isDigit = [] :=
  List.dropWhile_eq_nil_iff.mpr (decimal_isDigit n)

/-- A number starts with neither a blank nor a sign. -/
theorem decimal_head (n : Nat) :
    (decimal n).dropWhile isSpace = decimal n ∧ takeSign (decimal n) = (false, decimal n) := by
  cases hd : decimal n with
  | nil => exact absurd hd (decimal_ne_nil n)
  | cons c rest =>
    have hc := decimal_digits n c (by rw [hd]; exact List.mem_cons_self)
    have hlow : 48 ≤ c.toNat := UInt8.le_iff_toNat_le.mp hc.1
    constructor
    · have hspace : isSpace c = false := by
        simp only [isSpace, Bool.or_eq_false_iff, Bool.and_eq_false_iff, beq_eq_false_iff_ne,
          decide_eq_false_iff_not, UInt8.le_iff_toNat_le]
        constructor
        · rintro rfl
          exact absurd hlow (by decide)
        · right
          show ¬ c.toNat ≤ 13
          omega
      rw [List.dropWhile_cons_of_neg (by rw [hspace]; decide)]
    · unfold takeSign
      split
      · next h =>
        cases h
        exact absurd hlow (by decide)
      · next h =>
        cases h
        exact absurd hlow (by decide)
      · rfl

theorem signedDecimal_ne_nil (i : Int) : signedDecimal i ≠ [] := by
  unfold signedDecimal
  split
  · exact List.cons_ne_nil _ _
  · exact decimal_ne_nil _

/-- A printed number has digits, and perhaps a minus. -/
theorem signedDecimal_chars (i : Int) : ∀ c ∈ signedDecimal i, c = 45 ∨ 48 ≤ c ∧ c ≤ 57 := by
  intro c hc
  unfold signedDecimal at hc
  split at hc
  · rcases List.mem_cons.mp hc with rfl | hc
    · exact .inl rfl
    · exact .inr (decimal_digits _ c hc)
  · exact .inr (decimal_digits _ c hc)

theorem strtol_signedDecimal {i : Int} (hmin : -0x8000000000000000 ≤ i)
    (hmax : i ≤ 0x7FFFFFFFFFFFFFFF) : strtol (signedDecimal i) = some (i, []) := by
  have hne : ¬ (decimal i.natAbs).isEmpty = true := by
    rw [List.isEmpty_iff]
    exact decimal_ne_nil _
  unfold strtol signedDecimal
  by_cases hneg : i < 0
  · have hspace : (45 :: decimal i.natAbs).dropWhile isSpace = 45 :: decimal i.natAbs :=
      List.dropWhile_cons_of_neg (by decide)
    rw [if_pos hneg, hspace]
    simp only [takeSign, takeWhile_decimal, dropWhile_decimal, digitsValue_decimal, if_neg hne,
      if_true]
    rw [Int.ofNat_natAbs_of_nonpos (by omega), Int.neg_neg, max_eq_left hmin]
  · rw [if_neg hneg, (decimal_head _).1, (decimal_head _).2]
    simp only [takeWhile_decimal, dropWhile_decimal, digitsValue_decimal, if_neg hne,
      Bool.false_eq_true, if_false]
    rw [Int.natAbs_of_nonneg (by omega), min_eq_left hmax]

theorem stoi_signedDecimal (n : Int32) : stoi (signedDecimal n.toInt) = .ok n := by
  have hself : cString (signedDecimal n.toInt) = signedDecimal n.toInt :=
    cString_eq_self_iff.2 fun hzero => absurd (signedDecimal_chars _ 0 hzero) (by decide)
  have hlow := n.le_toInt
  have hhigh := n.toInt_lt
  rw [stoi, hself, strtol_signedDecimal (by omega) (by omega)]
  dsimp only
  rw [if_pos (by omega), Int32.ofInt_toInt]

end Bison
