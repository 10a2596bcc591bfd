import Mathlib.Data.Nat.Basic
import Mathlib.Tactic.Ring
import Bison.Lib.Decoder

/-!
# Fixed-width and variable-length integers on the wire

Two byte-level integer codecs, independent of what is encoded with them.

- `BigEndian`: `n`-byte big-endian words. `BigEndian.decode_encode` is the round
  trip modulo `256 ^ n`.
- `Leb128`: the unsigned base-128 encoding of a 64-bit word, low group first, bit 7
  set on every byte but the last. `Leb128.decode` is parameterized over how the next
  byte is obtained, so readers over different inputs share it;
  `Leb128.decode_encode` is the round trip over any byte source.
-/

namespace BigEndian

/-- The low `width` bytes of `n`, most significant first. -/
def encode : Nat → Nat → List UInt8
  | 0, _ => []
  | width + 1, n => encode width (n / 256) ++ [UInt8.ofNat n]

/-- The number a big-endian byte string denotes. -/
def decode (bs : List UInt8) : Nat :=
  bs.foldl (fun acc b => acc * 256 + b.toNat) 0

@[simp] theorem encode_length : ∀ width n, (encode width n).length = width
  | 0, _ => rfl
  | width + 1, n => by simp [encode, encode_length width]

theorem decode_snoc (bs : List UInt8) (b : UInt8) :
    decode (bs ++ [b]) = decode bs * 256 + b.toNat := by
  simp [decode, List.foldl_append]

theorem decode_encode : ∀ width n, decode (encode width n) = n % 256 ^ width
  | 0, n => by simp [encode, decode, Nat.mod_one]
  | width + 1, n => by
    have hbyte : (UInt8.ofNat n).toNat = n % 256 := by simp
    rw [encode, decode_snoc, decode_encode width, hbyte, pow_succ, Nat.mul_comm (256 ^ width),
      Nat.mod_mul]
    ring

/-- A word that fits its width survives the round trip. -/
theorem decode_encode_of_lt {width n : Nat} (h : n < 256 ^ width) :
    decode (encode width n) = n := by
  rw [decode_encode, Nat.mod_eq_of_lt h]

end BigEndian

namespace Leb128

/-- Groups of seven bits in a 64-bit word. -/
def maxGroups : Nat := 10

/-- The encoding loop; `fuel` bounds the number of groups still to write. -/
def encodeLoop : Nat → UInt64 → List UInt8
  | 0, _ => []
  | fuel + 1, value =>
    let byte := (value &&& 0x7f).toUInt8
    let value := value >>> 7
    if value = 0 then [byte] else (byte ||| 0x80) :: encodeLoop fuel value

/-- The shortest encoding of a 64-bit word. -/
def encode (value : UInt64) : List UInt8 :=
  encodeLoop maxGroups value

/-- Put the seven payload bits of `byte` at bit `shift`; bits shifted out are dropped, as
64-bit arithmetic does. -/
def addGroup (result shift : UInt64) (byte : UInt8) : UInt64 :=
  result ||| ((byte &&& 0x7f).toUInt64 <<< shift)

section Decode

variable {ε σ : Type}

/-- The decoding loop: `result` holds the groups read so far, `shift` their width in
bits. -/
def decodeLoop (next : Decoder ε σ UInt8) (tooLong : ε) : Nat → UInt64 → UInt64 →
    Decoder ε σ UInt64
  | 0, _, _ => throw tooLong
  | fuel + 1, shift, result => do
    let byte ← next
    let result := addGroup result shift byte
    if byte &&& 0x80 = 0 then pure result
    else
      let shift := shift + 7
      if shift ≥ 64 then throw tooLong
      else decodeLoop next tooLong fuel shift result

/-- Read one encoded word, byte by byte from `next`. -/
def decode (next : Decoder ε σ UInt8) (tooLong : ε) : Decoder ε σ UInt64 :=
  decodeLoop next tooLong maxGroups 0 0

end Decode

/-! ## The bit arithmetic of one group -/

theorem toNat_low7 (v : UInt64) : (v &&& 0x7f).toUInt8.toNat = v.toNat % 128 := by
  have h : v.toNat &&& 127 = v.toNat % 128 := Nat.and_two_pow_sub_one_eq_mod v.toNat 7
  simp only [UInt64.toNat_toUInt8, UInt64.toNat_and]
  show (v.toNat &&& 127) % 2 ^ 8 = _
  rw [h]
  omega

theorem toNat_shiftRight7 (v : UInt64) : (v >>> 7).toNat = v.toNat / 128 := by
  rw [UInt64.toNat_shiftRight]
  simp [Nat.shiftRight_eq_div_pow]

theorem toNat_payload (b : UInt8) : (b &&& 0x7f).toNat = b.toNat % 128 := by
  rw [UInt8.toNat_and]
  exact Nat.and_two_pow_sub_one_eq_mod b.toNat 7

/-- The continuation bit is the bit worth 128. -/
theorem and_80_eq_zero_iff (b : UInt8) : b &&& 0x80 = 0 ↔ b.toNat < 128 := by
  have hnat : ∀ n < 256, n &&& 128 = 0 ↔ n < 128 := by decide +kernel
  rw [← UInt8.toNat_inj, UInt8.toNat_and]
  exact hnat b.toNat b.toNat_lt

theorem toNat_or80 (b : UInt8) (h : b.toNat < 128) : (b ||| 0x80).toNat = b.toNat + 128 := by
  have hor := Nat.two_pow_add_eq_or_of_lt (i := 7) h 1
  rw [UInt8.toNat_or, Nat.or_comm]
  show 128 ||| b.toNat = _
  rw [← hor, Nat.add_comm]

theorem toNat_shiftLeft_lt {v s : UInt64} (hs : s.toNat < 64) (h : v.toNat * 2 ^ s.toNat < 2 ^ 64) :
    (v <<< s).toNat = v.toNat * 2 ^ s.toNat := by
  rw [UInt64.toNat_shiftLeft, Nat.mod_eq_of_lt hs, Nat.shiftLeft_eq, Nat.mod_eq_of_lt h]

/-- Adding one group above the bits read so far. -/
theorem toNat_addGroup {acc shift : UInt64} {b : UInt8} (hs : shift.toNat < 64)
    (hacc : acc.toNat < 2 ^ shift.toNat) (hb : b.toNat % 128 * 2 ^ shift.toNat < 2 ^ 64) :
    (addGroup acc shift b).toNat = acc.toNat + b.toNat % 128 * 2 ^ shift.toNat := by
  have hpay : (b &&& 0x7f).toUInt64.toNat = b.toNat % 128 := by
    rw [UInt8.toNat_toUInt64, toNat_payload]
  have hshift : ((b &&& 0x7f).toUInt64 <<< shift).toNat = b.toNat % 128 * 2 ^ shift.toNat := by
    rw [toNat_shiftLeft_lt hs (by rw [hpay]; exact hb), hpay]
  rw [addGroup, UInt64.toNat_or, hshift, Nat.or_comm, Nat.mul_comm (b.toNat % 128),
    ← Nat.two_pow_add_eq_or_of_lt hacc, Nat.add_comm]

/-- A 64-bit word with a further group still has room for it. -/
theorem shift_lt_of_continued {value shift : Nat} (hge : 128 ≤ value)
    (hval : value * 2 ^ shift < 2 ^ 64) : shift + 7 < 64 := by
  by_contra hs
  have h1 : 2 ^ 57 ≤ 2 ^ shift := Nat.pow_le_pow_right (by omega) (by omega)
  have h2 : 128 * 2 ^ 57 ≤ value * 2 ^ shift := Nat.mul_le_mul hge h1
  omega

theorem toNat_add7 {shift : UInt64} (h : shift.toNat + 7 < 64) :
    (shift + 7).toNat = shift.toNat + 7 := by
  rw [UInt64.toNat_add]
  show (shift.toNat + 7) % 2 ^ 64 = _
  omega

/-! ## One iteration of each loop -/

theorem encodeLoop_last (fuel : Nat) {value : UInt64} (h : value.toNat < 128) :
    encodeLoop (fuel + 1) value = [UInt8.ofNat value.toNat] := by
  have h0 : value >>> 7 = 0 := by
    rw [← UInt64.toNat_inj, toNat_shiftRight7]
    exact Nat.div_eq_of_lt h
  have hbyte : (value &&& 0x7f).toUInt8 = UInt8.ofNat value.toNat := by
    rw [← UInt8.toNat_inj, toNat_low7, UInt8.toNat_ofNat']
    omega
  rw [encodeLoop]
  simp only [if_pos h0, hbyte]

theorem encodeLoop_more (fuel : Nat) {value : UInt64} (h : 128 ≤ value.toNat) :
    encodeLoop (fuel + 1) value =
      UInt8.ofNat (value.toNat % 128 + 128) :: encodeLoop fuel (value >>> 7) := by
  have h0 : ¬ value >>> 7 = 0 := by
    rw [← UInt64.toNat_inj, toNat_shiftRight7]
    show ¬ value.toNat / 128 = 0
    omega
  have hbyte : (value &&& 0x7f).toUInt8 ||| 0x80 = UInt8.ofNat (value.toNat % 128 + 128) := by
    rw [← UInt8.toNat_inj, toNat_or80 _ (by rw [toNat_low7]; omega), toNat_low7,
      UInt8.toNat_ofNat']
    omega
  rw [encodeLoop]
  simp only [if_neg h0, hbyte]

section Iteration

variable {ε σ : Type} {next : Decoder ε σ UInt8} {tooLong : ε} {s s' : σ} {b : UInt8}

/-- A byte without the continuation bit ends the loop. -/
theorem decodeLoop_last (hnext : next s = .ok (b, s')) (hb : b.toNat < 128)
    (fuel : Nat) (shift acc : UInt64) :
    decodeLoop next tooLong (fuel + 1) shift acc s = .ok (addGroup acc shift b, s') := by
  rw [decodeLoop, Decoder.bind_ok hnext]
  simp only [if_pos ((and_80_eq_zero_iff b).mpr hb)]
  rfl

/-- A continued group: the loop goes on seven bits further up. -/
theorem decodeLoop_more (hnext : next s = .ok (b, s')) (hb : 128 ≤ b.toNat)
    (fuel : Nat) {shift : UInt64} (hs : shift.toNat + 7 < 64) (acc : UInt64) :
    decodeLoop next tooLong (fuel + 1) shift acc s =
      decodeLoop next tooLong fuel (shift + 7) (addGroup acc shift b) s' := by
  have hcont : ¬ b &&& 0x80 = 0 := by
    rw [and_80_eq_zero_iff]
    omega
  have hlong : ¬ shift + 7 ≥ 64 := by
    show ¬ 64 ≤ (shift + 7).toNat
    rw [toNat_add7 hs]
    omega
  rw [decodeLoop, Decoder.bind_ok hnext]
  simp only [if_neg hcont, if_neg hlong]

end Iteration

/-! ## Decoding over related inputs -/

/-- A relation between the two sources of bytes carries over to the words read from
them. -/
theorem decode_rel {ε σ τ : Type} (C : Decoder.Congruence ε σ τ) {next : Decoder ε σ UInt8}
    {next' : Decoder ε τ UInt8} {tooLong tooLong' : ε} (hnext : C.Rel next next')
    (hlong : C.Rel (throw tooLong : Decoder ε σ UInt64) (throw tooLong')) :
    C.Rel (decode next tooLong) (decode next' tooLong') := by
  have hloop : ∀ fuel shift result, C.Rel (decodeLoop next tooLong fuel shift result)
      (decodeLoop next' tooLong' fuel shift result) := by
    intro fuel
    induction fuel with
    | zero =>
      intro _ _
      exact hlong
    | succ fuel ih =>
      intro shift result
      refine C.bind hnext fun byte => ?_
      by_cases hend : byte &&& 0x80 = 0
      · simp only [if_pos hend]
        exact C.pure _
      · simp only [if_neg hend]
        by_cases hfull : shift + 7 ≥ 64
        · simp only [if_pos hfull]
          exact hlong
        · simp only [if_neg hfull]
          exact ih _ _
  exact hloop _ _ _

/-- Reading a word fails where its source of bytes does, or on a word that is too long. -/
theorem decode_error {ε σ : Type} {next : Decoder ε σ UInt8} {tooLong e : ε} {s : σ}
    (h : decode next tooLong s = .error e) : e = tooLong ∨ ∃ s', next s' = .error e := by
  have hloop : ∀ fuel shift result s, decodeLoop next tooLong fuel shift result s = .error e →
      e = tooLong ∨ ∃ s', next s' = .error e := by
    intro fuel
    induction fuel with
    | zero =>
      intro _ _ s h
      exact Or.inl (Except.error.inj h).symm
    | succ fuel ih =>
      intro shift result s h
      rcases Decoder.bind_eq_error.mp h with h | ⟨byte, s', -, h⟩
      · exact Or.inr ⟨s, h⟩
      · by_cases hend : byte &&& 0x80 = 0
        · simp only [if_pos hend] at h
          cases h
        · simp only [if_neg hend] at h
          by_cases hfull : shift + 7 ≥ 64
          · simp only [if_pos hfull] at h
            exact Or.inl (Except.error.inj h).symm
          · simp only [if_neg hfull] at h
            exact ih _ _ s' h
  exact hloop _ _ _ s h

/-! ## Round trip -/

/-- **Loop invariant of the round trip.** With `shift` bits already in `acc`, reading
the remaining groups of `value` adds `value * 2 ^ shift`. -/
theorem decodeLoop_encodeLoop {ε : Type} {next : Decoder ε (List UInt8) UInt8} (tooLong : ε)
    (hnext : ∀ b rest, next (b :: rest) = .ok (b, rest)) (rest : List UInt8) :
    ∀ (fuel : Nat) (value shift acc : UInt64),
      acc.toNat < 2 ^ shift.toNat → value.toNat * 2 ^ shift.toNat < 2 ^ 64 →
      shift.toNat < 64 → value.toNat < 128 ^ (fuel + 1) →
      ∃ r : UInt64, r.toNat = acc.toNat + value.toNat * 2 ^ shift.toNat ∧
        decodeLoop next tooLong (fuel + 1) shift acc (encodeLoop (fuel + 1) value ++ rest) =
          .ok (r, rest) := by
  intro fuel
  induction fuel with
  | zero =>
    intro value shift acc hacc hval hshift hfuel
    have hlt : value.toNat < 128 := by simpa using hfuel
    have hb : (UInt8.ofNat value.toNat).toNat = value.toNat := by
      rw [UInt8.toNat_ofNat']
      omega
    refine ⟨addGroup acc shift (UInt8.ofNat value.toNat), ?_, ?_⟩
    · rw [toNat_addGroup hshift hacc (by rw [hb, Nat.mod_eq_of_lt hlt]; exact hval), hb,
        Nat.mod_eq_of_lt hlt]
    · rw [encodeLoop_last 0 hlt]
      exact decodeLoop_last (hnext _ rest) (by rw [hb]; exact hlt) 0 shift acc
  | succ fuel ih =>
    intro value shift acc hacc hval hshift hfuel
    rcases Nat.lt_or_ge value.toNat 128 with hlt | hge
    · -- the last group
      have hb : (UInt8.ofNat value.toNat).toNat = value.toNat := by
        rw [UInt8.toNat_ofNat']
        omega
      refine ⟨addGroup acc shift (UInt8.ofNat value.toNat), ?_, ?_⟩
      · rw [toNat_addGroup hshift hacc (by rw [hb, Nat.mod_eq_of_lt hlt]; exact hval), hb,
          Nat.mod_eq_of_lt hlt]
      · rw [encodeLoop_last _ hlt]
        exact decodeLoop_last (hnext _ rest) (by rw [hb]; exact hlt) _ shift acc
    · -- a continued group: the rest of `value` sits seven bits further up
      generalize hbdef : UInt8.ofNat (value.toNat % 128 + 128) = b
      have hb : b.toNat = value.toNat % 128 + 128 := by
        rw [← hbdef, UInt8.toNat_ofNat']
        omega
      have hbmod : b.toNat % 128 = value.toNat % 128 := by omega
      have hs7 : shift.toNat + 7 < 64 := shift_lt_of_continued hge hval
      have hpow : 2 ^ (shift.toNat + 7) = 2 ^ shift.toNat * 128 := pow_add 2 shift.toNat 7
      have hsplit : value.toNat * 2 ^ shift.toNat =
          value.toNat % 128 * 2 ^ shift.toNat +
            value.toNat / 128 * 2 ^ (shift.toNat + 7) := by
        have hdiv := Nat.div_add_mod value.toNat 128
        rw [hpow]
        nth_rewrite 1 [← hdiv]
        ring
      have hgroup := toNat_addGroup (b := b) hshift hacc (by rw [hbmod]; omega)
      rw [hbmod] at hgroup
      have hlow : value.toNat % 128 * 2 ^ shift.toNat ≤ 127 * 2 ^ shift.toNat :=
        Nat.mul_le_mul_right _ (by omega)
      have hadd := toNat_add7 hs7
      have hrest := toNat_shiftRight7 value
      obtain ⟨r, hr, hdec⟩ := ih (value >>> 7) (shift + 7) (addGroup acc shift b)
        (by rw [hgroup, hadd, hpow]; omega) (by rw [hrest, hadd]; omega)
        (by rw [hadd]; exact hs7)
        (by rw [hrest, Nat.div_lt_iff_lt_mul (by decide), ← pow_succ]; exact hfuel)
      refine ⟨r, ?_, ?_⟩
      · rw [hr, hgroup, hrest, hadd, hsplit, Nat.add_assoc]
      · rw [encodeLoop_more _ hge, hbdef, List.cons_append,
          decodeLoop_more (hnext _ _) (by rw [hb]; omega) _ hs7 acc]
        exact hdec

/-- **Round trip.** -/
theorem decode_encode {ε : Type} {next : Decoder ε (List UInt8) UInt8} (tooLong : ε)
    (hnext : ∀ b rest, next (b :: rest) = .ok (b, rest)) (value : UInt64) :
    Decoder.Reads (decode next tooLong) (encode value) (.ok value) := by
  intro rest
  have hlt := value.toNat_lt
  obtain ⟨r, hr, hdec⟩ := decodeLoop_encodeLoop tooLong hnext rest 9 value 0 0
    (by simp) (by simpa using hlt) (by simp) (lt_of_lt_of_le hlt (by decide))
  have hval : r = value := by
    rw [← UInt64.toNat_inj, hr]
    simp
  rw [← hval] at hdec ⊢
  exact hdec

end Leb128
