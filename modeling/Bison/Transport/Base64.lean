import Mathlib.Tactic.NormNum
import Bison.Core.Value

/-!
# Base64

`base64_encode` and `base64_decode` of term_transport.cpp, on the alphabet of the source.

- `base64Decode_encode`: decoding gives back what was encoded.
- `base64Encode_chars`: encoded text is made of the alphabet and `=`.
-/

namespace Bison

/-- `kBase64Chars`. -/
def kBase64Chars : List UInt8 :=
  ascii "ABCDEFGHIJKLMNOPQRSTUVWXYZabcdefghijklmnopqrstuvwxyz0123456789+/"

/-- The character `=`. -/
def padChar : UInt8 := 61

/-- `kBase64Chars[(n >> shift) & 0x3F]`. -/
def base64Char (n shift : Nat) : UInt8 := kBase64Chars.getD ((n >>> shift) &&& 0x3f) 0

/-- `base64_encode` (term_transport.cpp:55). -/
def base64Encode : List UInt8 → List UInt8
  | [] => []
  | [a] =>
    let n := a.toNat <<< 16
    [base64Char n 18, base64Char n 12, padChar, padChar]
  | [a, b] =>
    let n := (a.toNat <<< 16) ||| (b.toNat <<< 8)
    [base64Char n 18, base64Char n 12, base64Char n 6, padChar]
  | a :: b :: c :: rest =>
    let n := (a.toNat <<< 16) ||| (b.toNat <<< 8) ||| c.toNat
    base64Char n 18 :: base64Char n 12 :: base64Char n 6 :: base64Char n 0 :: base64Encode rest

/-- `make_decode_table`: the value of each character from `+` to `z`, -1 for none. -/
def decodeTable : List Int :=
  (List.range 64).foldl (fun table i => table.set ((kBase64Chars.getD i 0).toNat - 43) i)
    (List.replicate 80 (-1))

/-- The value of one character of a group, after the values and the padding seen so far. -/
def decodeChar (seen : List Nat × Nat) (c : UInt8) : Option (List Nat × Nat) :=
  if c = padChar then some (seen.1 ++ [0], seen.2 + 1)
  else if c.toNat < 43 ∨ c.toNat ≥ 43 + 80 ∨ decodeTable.getD (c.toNat - 43) (-1) < 0 then none
  else if seen.2 > 0 then none
  else some (seen.1 ++ [(decodeTable.getD (c.toNat - 43) (-1)).toNat], seen.2)

/-- The one to three bytes of a group with `pad` characters of padding. -/
def groupBytes (vals : List Nat) (pad : Nat) : List UInt8 :=
  let n := (vals.getD 0 0 <<< 18) ||| (vals.getD 1 0 <<< 12) ||| (vals.getD 2 0 <<< 6) |||
    vals.getD 3 0
  [UInt8.ofNat ((n >>> 16) &&& 0xff)] ++
    (if pad < 2 then [UInt8.ofNat ((n >>> 8) &&& 0xff)] else []) ++
    (if pad < 1 then [UInt8.ofNat (n &&& 0xff)] else [])

/-- The loop of `base64_decode`, four characters at a time. -/
def decodeGroups : List UInt8 → Option (List UInt8)
  | c₀ :: c₁ :: c₂ :: c₃ :: rest => do
    let (vals, pad) ← [c₀, c₁, c₂, c₃].foldlM decodeChar ([], 0)
    if pad > 2 ∨ (pad > 0 ∧ rest ≠ []) then none
    else
      let bytes ← decodeGroups rest
      return groupBytes vals pad ++ bytes
  | _ => some []

/-- `base64_decode` (term_transport.cpp:94). -/
def base64Decode (text : List UInt8) : Option (List UInt8) :=
  if text.isEmpty then some []
  else if text.length % 4 ≠ 0 then none
  else decodeGroups text

/-! ## The bits of a group -/

/-- Fields that do not overlap add up. -/
theorem shiftLeft_or_eq_add {a b i : Nat} (h : b < 2 ^ i) : (a <<< i) ||| b = a * 2 ^ i + b := by
  rw [← Nat.shiftLeft_add_eq_or_of_lt h, Nat.shiftLeft_eq]

theorem threeBytes {a b c : Nat} (hb : b < 256) (hc : c < 256) :
    (a <<< 16) ||| (b <<< 8) ||| c = a * 65536 + b * 256 + c := by
  have h₁ : (a <<< 16) ||| (b <<< 8) = (a * 256 + b) <<< 8 := by
    rw [shiftLeft_or_eq_add (by rw [Nat.shiftLeft_eq]; omega), Nat.shiftLeft_eq, Nat.shiftLeft_eq]
    omega
  rw [h₁, shiftLeft_or_eq_add hc]
  omega

theorem fourSextets {a b c d : Nat} (hb : b < 64) (hc : c < 64) (hd : d < 64) :
    (a <<< 18) ||| (b <<< 12) ||| (c <<< 6) ||| d =
      a * 262144 + b * 4096 + c * 64 + d := by
  have h₁ : (a <<< 18) ||| (b <<< 12) = (a * 64 + b) <<< 12 := by
    rw [shiftLeft_or_eq_add (by rw [Nat.shiftLeft_eq]; omega), Nat.shiftLeft_eq, Nat.shiftLeft_eq]
    omega
  have h₂ : ((a * 64 + b) <<< 12) ||| (c <<< 6) = ((a * 64 + b) * 64 + c) <<< 6 := by
    rw [shiftLeft_or_eq_add (by rw [Nat.shiftLeft_eq]; omega), Nat.shiftLeft_eq, Nat.shiftLeft_eq]
    omega
  rw [h₁, h₂, shiftLeft_or_eq_add hd]
  omega

/-- The six bits at `shift`. -/
theorem sextet_eq (n shift : Nat) : (n >>> shift) &&& 0x3f = n / 2 ^ shift % 64 := by
  rw [Nat.shiftRight_eq_div_pow]
  exact Nat.and_two_pow_sub_one_eq_mod _ 6

theorem octet_eq (n shift : Nat) : (n >>> shift) &&& 0xff = n / 2 ^ shift % 256 := by
  rw [Nat.shiftRight_eq_div_pow]
  exact Nat.and_two_pow_sub_one_eq_mod _ 8

/-- The characters of the alphabet are within the table, which gives their values back. -/
theorem decodeTable_char : ∀ v < 64,
    kBase64Chars.getD v 0 ≠ padChar ∧ 43 ≤ (kBase64Chars.getD v 0).toNat ∧
      (kBase64Chars.getD v 0).toNat < 43 + 80 ∧
      decodeTable.getD ((kBase64Chars.getD v 0).toNat - 43) (-1) = v := by
  decide +kernel

/-- A character of the alphabet decodes to its value. -/
theorem decodeChar_value {v : Nat} (hv : v < 64) (vals : List Nat) :
    decodeChar (vals, 0) (kBase64Chars.getD v 0) = some (vals ++ [v], 0) := by
  obtain ⟨hpad, hlow, hhigh, hval⟩ := decodeTable_char v hv
  unfold decodeChar
  rw [if_neg hpad, if_neg (by omega), hval]
  simp

theorem decodeChar_pad (vals : List Nat) (pad : Nat) :
    decodeChar (vals, pad) padChar = some (vals ++ [0], pad + 1) := by
  simp [decodeChar]

/-! ## The round trip -/

/-- The character a group of 24 bits has at `shift`. -/
theorem base64Char_eq (n shift : Nat) :
    base64Char n shift = kBase64Chars.getD (n / 2 ^ shift % 64) 0 := by
  rw [base64Char, sextet_eq]

/-- A character of the encoder decodes to its sextet. -/
theorem decodeChar_char (n shift : Nat) (vals : List Nat) :
    decodeChar (vals, 0) (base64Char n shift) = some (vals ++ [n / 2 ^ shift % 64], 0) := by
  rw [base64Char_eq, decodeChar_value (Nat.mod_lt _ (by decide))]

/-- The four sextets of a group of 24 bits make it up. -/
theorem sextets_sum {n : Nat} (h : n < 16777216) :
    n / 2 ^ 18 % 64 * 262144 + n / 2 ^ 12 % 64 * 4096 + n / 2 ^ 6 % 64 * 64 + n / 2 ^ 0 % 64 =
      n := by
  omega

theorem ofNat_eq_of_toNat {a : UInt8} {n : Nat} (h : n = a.toNat) : UInt8.ofNat n = a := by
  rw [h, UInt8.ofNat_toNat]

/-- A group decodes to the bytes its four values add up to. -/
theorem groupBytes_eq {v₀ v₁ v₂ v₃ : Nat} {a b c : UInt8}
    (h₁ : v₁ < 64) (h₂ : v₂ < 64) (h₃ : v₃ < 64)
    (h : v₀ * 262144 + v₁ * 4096 + v₂ * 64 + v₃ = a.toNat * 65536 + b.toNat * 256 + c.toNat)
    (pad : Nat) :
    groupBytes [v₀, v₁, v₂, v₃] pad =
      a :: ((if pad < 2 then [b] else []) ++ (if pad < 1 then [c] else [])) := by
  have hn : (v₀ <<< 18) ||| (v₁ <<< 12) ||| (v₂ <<< 6) ||| v₃ =
      a.toNat * 65536 + b.toNat * 256 + c.toNat := by rw [fourSextets h₁ h₂ h₃, h]
  have ha := a.toNat_lt
  have hb := b.toNat_lt
  have hc := c.toNat_lt
  have hlast : ∀ n : Nat, n &&& 0xff = n % 256 := fun n => Nat.and_two_pow_sub_one_eq_mod n 8
  simp only [groupBytes, List.getD_cons_zero, List.getD_cons_succ, hn]
  rw [octet_eq, octet_eq, hlast, ofNat_eq_of_toNat (a := a) (by omega),
    ofNat_eq_of_toNat (a := b) (by omega), ofNat_eq_of_toNat (a := c) (by omega)]
  rfl

/-- One group in front of the rest, where its four characters decode. -/
theorem decodeGroups_cons {c₀ c₁ c₂ c₃ : UInt8} {rest : List UInt8} {vals : List Nat} {pad : Nat}
    (h : [c₀, c₁, c₂, c₃].foldlM decodeChar ([], 0) = some (vals, pad))
    (hpad : ¬ (pad > 2 ∨ (pad > 0 ∧ rest ≠ []))) :
    decodeGroups (c₀ :: c₁ :: c₂ :: c₃ :: rest) =
      (decodeGroups rest).map (groupBytes vals pad ++ ·) := by
  rw [decodeGroups, h, Option.bind_eq_bind, Option.bind_some]
  show (if _ then _ else _) = _
  rw [if_neg hpad]
  cases decodeGroups rest <;> rfl

/-- Decoding gives back what was encoded, group by group. -/
theorem decodeGroups_encode (bytes : List UInt8) :
    decodeGroups (base64Encode bytes) = some bytes := by
  fun_induction base64Encode bytes with
  | case1 => rfl
  | case2 a n =>
    have hn : n = a.toNat * 65536 := Nat.shiftLeft_eq _ _
    have ha := a.toNat_lt
    have hchars : [base64Char n 18, base64Char n 12, padChar, padChar].foldlM decodeChar ([], 0) =
        some ([n / 2 ^ 18 % 64, n / 2 ^ 12 % 64, 0, 0], 2) := by
      simp only [List.foldlM_cons, decodeChar_char, decodeChar_pad, Option.bind_eq_bind,
        Option.bind_some]
      rfl
    rw [decodeGroups_cons hchars (by simp), groupBytes_eq (a := a) (b := 0) (c := 0)
      (Nat.mod_lt _ (by decide)) (by decide) (by decide) (by simp; omega)]
    rfl
  | case3 a b n =>
    have hn : n = a.toNat * 65536 + b.toNat * 256 + 0 := by
      rw [← threeBytes b.toNat_lt (by decide : (0 : Nat) < 256), Nat.or_zero]
    have ha := a.toNat_lt
    have hb := b.toNat_lt
    have hchars : [base64Char n 18, base64Char n 12, base64Char n 6, padChar].foldlM
        decodeChar ([], 0) = some ([n / 2 ^ 18 % 64, n / 2 ^ 12 % 64, n / 2 ^ 6 % 64, 0], 1) := by
      simp only [List.foldlM_cons, decodeChar_char, decodeChar_pad, Option.bind_eq_bind,
        Option.bind_some]
      rfl
    rw [decodeGroups_cons hchars (by simp), groupBytes_eq (a := a) (b := b) (c := 0)
      (Nat.mod_lt _ (by decide)) (Nat.mod_lt _ (by decide)) (by decide) (by simp; omega)]
    rfl
  | case4 a b c rest n ih =>
    have hn : n = a.toNat * 65536 + b.toNat * 256 + c.toNat := threeBytes b.toNat_lt c.toNat_lt
    have ha := a.toNat_lt
    have hb := b.toNat_lt
    have hc := c.toNat_lt
    have hchars : [base64Char n 18, base64Char n 12, base64Char n 6, base64Char n 0].foldlM
        decodeChar ([], 0) =
        some ([n / 2 ^ 18 % 64, n / 2 ^ 12 % 64, n / 2 ^ 6 % 64, n / 2 ^ 0 % 64], 0) := by
      simp only [List.foldlM_cons, decodeChar_char, Option.bind_eq_bind, Option.bind_some]
      rfl
    rw [decodeGroups_cons hchars (by simp), groupBytes_eq (a := a) (b := b) (c := c)
      (Nat.mod_lt _ (by decide)) (Nat.mod_lt _ (by decide)) (Nat.mod_lt _ (by decide))
      (by rw [sextets_sum (by omega), hn]), ih]
    rfl

/-- Encoded text is a whole number of groups. -/
theorem base64Encode_length (bytes : List UInt8) :
    (base64Encode bytes).length = (bytes.length + 2) / 3 * 4 := by
  fun_induction base64Encode bytes with
  | case1 => rfl
  | case2 a n => simp
  | case3 a b n => simp
  | case4 a b c rest n ih =>
    simp only [List.length_cons, ih]
    omega

/-- Decoding gives back what was encoded. -/
theorem base64Decode_encode (bytes : List UInt8) :
    base64Decode (base64Encode bytes) = some bytes := by
  have hlen := base64Encode_length bytes
  unfold base64Decode
  by_cases hempty : (base64Encode bytes).isEmpty
  · -- only the empty input has no text
    rw [if_pos hempty]
    rw [List.isEmpty_iff_length_eq_zero] at hempty
    cases bytes with
    | nil => rfl
    | cons a rest =>
      simp only [List.length_cons] at hlen
      omega
  · rw [if_neg hempty, if_neg (by omega), decodeGroups_encode]

/-! ## The characters of an encoded text -/

theorem base64Char_mem (n shift : Nat) : base64Char n shift ∈ kBase64Chars := by
  have hlen : kBase64Chars.length = 64 := by decide
  have hlt : n / 2 ^ shift % 64 < kBase64Chars.length := by
    rw [hlen]
    exact Nat.mod_lt _ (by decide)
  rw [base64Char_eq, List.getD_eq_getElem?_getD, List.getElem?_eq_getElem hlt]
  exact List.getElem_mem hlt

/-- Encoded text is made of the alphabet and `=`. -/
theorem base64Encode_chars (bytes : List UInt8) :
    ∀ c ∈ base64Encode bytes, c = padChar ∨ c ∈ kBase64Chars := by
  fun_induction base64Encode bytes with
  | case1 => simp
  | case2 a n => simp [base64Char_mem]
  | case3 a b n => simp [base64Char_mem]
  | case4 a b c rest n ih =>
    intro ch hch
    simp only [List.mem_cons] at hch
    rcases hch with rfl | rfl | rfl | rfl | hrest
    · exact .inr (base64Char_mem n 18)
    · exact .inr (base64Char_mem n 12)
    · exact .inr (base64Char_mem n 6)
    · exact .inr (base64Char_mem n 0)
    · exact ih ch hrest

end Bison
