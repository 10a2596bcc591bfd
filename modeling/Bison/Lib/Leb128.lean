import Bison.Lib.Wire

/-!
# Unsigned base-128 encodings

What a list of groups of seven bits denotes as a number, without a width, and how the reader of
64-bit words compares with it.

- `Encodes`: the bytes are one encoding of the number, padded or not.
- `decode_encodes`, `decode_refuses`: what `decode` makes of an input, over any source of bytes.
- `conforms_iff`: it reads exactly the encodings of 64-bit words in ten bytes, but for those inputs
  whose tenth group does not fit.
- `encode_shortest`: no encoding of the word is shorter than the one that `encode` writes.
-/

namespace Leb128

/-- The bytes are an encoding of the number: low group first, and every byte but the last has
bit 7 set. -/
inductive Encodes : List UInt8 → Nat → Prop where
  | last {b : UInt8} (hb : b.toNat < 128) : Encodes [b] b.toNat
  | more {b : UInt8} {bytes : List UInt8} {n : Nat} (hb : 128 ≤ b.toNat) (h : Encodes bytes n) :
    Encodes (b :: bytes) (b.toNat % 128 + 128 * n)

namespace Encodes

variable {bytes bytes' rest rest' : List UInt8} {n n' : Nat}

theorem length_pos (h : Encodes bytes n) : 0 < bytes.length := by
  cases h <;> exact Nat.succ_pos _

theorem lt (h : Encodes bytes n) : n < 128 ^ bytes.length := by
  induction h with
  | last hb => simpa using hb
  | @more b bytes n hb h ih =>
    rw [List.length_cons, pow_succ]
    omega

/-- Bytes begin with at most one encoding. -/
theorem unique (h : Encodes bytes n) (h' : Encodes bytes' n')
    (heq : bytes ++ rest = bytes' ++ rest') : bytes = bytes' ∧ n = n' ∧ rest = rest' := by
  induction h generalizing bytes' n' with
  | last hb =>
    cases h' with
    | last hb' =>
      obtain ⟨rfl, rfl⟩ := List.cons.inj heq
      exact ⟨rfl, rfl, rfl⟩
    | more hb' =>
      obtain ⟨rfl, -⟩ := List.cons.inj heq
      omega
  | more hb h ih =>
    cases h' with
    | last hb' =>
      obtain ⟨rfl, -⟩ := List.cons.inj heq
      omega
    | more hb' h' =>
      obtain ⟨rfl, hrest⟩ := List.cons.inj heq
      obtain ⟨rfl, rfl, rfl⟩ := ih h' hrest
      exact ⟨rfl, rfl, rfl⟩

/-- The last group stands above the others. -/
theorem split_last (h : Encodes bytes n) : ∃ init b low, bytes = init ++ [b] ∧
    (∀ c ∈ init, 128 ≤ c.toNat) ∧ b.toNat < 128 ∧ low < 128 ^ init.length ∧
      n = low + b.toNat * 128 ^ init.length := by
  induction h with
  | @last b hb => exact ⟨[], b, 0, rfl, by simp, hb, by simp, by simp⟩
  | @more c bytes n hc h ih =>
    obtain ⟨init, b, low, rfl, hinit, hb, hlow, rfl⟩ := ih
    refine ⟨c :: init, b, c.toNat % 128 + 128 * low, rfl, ?_, hb, ?_, ?_⟩
    · intro x hx
      rcases List.mem_cons.1 hx with rfl | hx
      · exact hc
      · exact hinit x hx
    · rw [List.length_cons, pow_succ]
      omega
    · rw [List.length_cons, pow_succ]
      ring

/-- The bytes with bit 7 set, and one without. -/
theorem of_groups {init : List UInt8} {b : UInt8} (hinit : ∀ c ∈ init, 128 ≤ c.toNat)
    (hb : b.toNat < 128) : ∃ n, Encodes (init ++ [b]) n := by
  induction init with
  | nil => exact ⟨_, .last hb⟩
  | cons c init ih =>
    obtain ⟨n, hn⟩ := ih fun x hx => hinit x (List.mem_cons_of_mem _ hx)
    exact ⟨_, .more (hinit c (List.mem_cons_self ..)) hn⟩

end Encodes

/-! ## Reading -/

section Reading

variable {ε σ : Type} {next : Decoder ε σ UInt8} {rep : List UInt8 → σ} (tooLong : ε)

/-- `rep` is the state in which these bytes are still to come from `next`. -/
structure Source (next : Decoder ε σ UInt8) (rep : List UInt8 → σ) : Prop where
  cons : ∀ b rest, next (rep (b :: rest)) = .ok (b, rep rest)
  nil : ∃ e, next (rep []) = .error e

/-- Adding one group above the bits read so far, of which those that do not fit are lost. -/
theorem toNat_addGroup_mod {acc shift : UInt64} {b : UInt8} (hs : shift.toNat < 64)
    (hacc : acc.toNat < 2 ^ shift.toNat) :
    (addGroup acc shift b).toNat = (acc.toNat + b.toNat % 128 * 2 ^ shift.toNat) % 2 ^ 64 := by
  have hpow : (2 : Nat) ^ 64 = 2 ^ shift.toNat * 2 ^ (64 - shift.toNat) := by
    rw [← pow_add]
    congr 1
    omega
  have hpay : ((b &&& 0x7f).toUInt64 <<< shift).toNat =
      b.toNat % 128 % 2 ^ (64 - shift.toNat) * 2 ^ shift.toNat := by
    rw [UInt64.toNat_shiftLeft, Nat.mod_eq_of_lt hs, Nat.shiftLeft_eq, UInt8.toNat_toUInt64,
      toNat_payload, hpow, Nat.mul_comm (b.toNat % 128), Nat.mul_mod_mul_left, Nat.mul_comm]
  have hfits : acc.toNat + b.toNat % 128 % 2 ^ (64 - shift.toNat) * 2 ^ shift.toNat < 2 ^ 64 := by
    have hlt : b.toNat % 128 % 2 ^ (64 - shift.toNat) < 2 ^ (64 - shift.toNat) :=
      Nat.mod_lt _ (Nat.two_pow_pos _)
    calc _ < (b.toNat % 128 % 2 ^ (64 - shift.toNat) + 1) * 2 ^ shift.toNat := by
          rw [Nat.succ_mul]
          omega
      _ ≤ 2 ^ (64 - shift.toNat) * 2 ^ shift.toNat := Nat.mul_le_mul_right _ hlt
      _ = 2 ^ 64 := by rw [hpow, Nat.mul_comm]
  have hsum : (acc.toNat + b.toNat % 128 * 2 ^ shift.toNat) % 2 ^ 64 =
      acc.toNat + b.toNat % 128 % 2 ^ (64 - shift.toNat) * 2 ^ shift.toNat := by
    have hdiv := Nat.div_add_mod (b.toNat % 128) (2 ^ (64 - shift.toNat))
    have hmore : b.toNat % 128 * 2 ^ shift.toNat =
        b.toNat % 128 % 2 ^ (64 - shift.toNat) * 2 ^ shift.toNat +
          2 ^ 64 * (b.toNat % 128 / 2 ^ (64 - shift.toNat)) := by
      nth_rewrite 1 [← hdiv]
      rw [hpow]
      ring
    rw [hmore, ← Nat.add_assoc, Nat.add_mul_mod_self_left, Nat.mod_eq_of_lt hfits]
  rw [hsum, addGroup, UInt64.toNat_or, hpay, Nat.or_comm,
    Nat.mul_comm _ (2 ^ shift.toNat), ← Nat.two_pow_add_eq_or_of_lt hacc, Nat.add_comm]

/-- A byte with bit 7 set where no further group has room. -/
theorem decodeLoop_tooLong {s s' : σ} {b : UInt8} (hnext : next s = .ok (b, s'))
    (hb : 128 ≤ b.toNat) (fuel : Nat) {shift : UInt64} (hs : shift.toNat = 63) (acc : UInt64) :
    decodeLoop next tooLong (fuel + 1) shift acc s = .error tooLong := by
  have hcont : ¬ b &&& 0x80 = 0 := by
    rw [and_80_eq_zero_iff]
    omega
  have hlong : shift + 7 ≥ 64 := by
    show 64 ≤ (shift + 7).toNat
    rw [UInt64.toNat_add, hs]
    decide
  rw [decodeLoop, Decoder.bind_ok hnext]
  simp only [if_neg hcont, if_pos hlong]
  rfl

/-- The groups of an encoding add up, modulo 2^64, above the bits read so far. `fuel` groups have
room. -/
theorem decodeLoop_encodes (hsource : Source next rep) (rest : List UInt8) {bytes : List UInt8}
    {n : Nat} (h : Encodes bytes n) {fuel : Nat} (hfuel : bytes.length ≤ fuel) {shift acc : UInt64}
    (hshift : shift.toNat + 7 * fuel = 70) (hacc : acc.toNat < 2 ^ shift.toNat) :
    ∃ v : UInt64, v.toNat = (acc.toNat + n * 2 ^ shift.toNat) % 2 ^ 64 ∧
      decodeLoop next tooLong fuel shift acc (rep (bytes ++ rest)) = .ok (v, rep rest) := by
  induction h generalizing fuel shift acc with
  | @last b hb =>
    obtain ⟨fuel, rfl⟩ : ∃ k, fuel = k + 1 := Nat.exists_eq_add_of_le' hfuel
    refine ⟨addGroup acc shift b, ?_, decodeLoop_last (hsource.cons b rest) hb fuel shift acc⟩
    rw [toNat_addGroup_mod (by omega) hacc, Nat.mod_eq_of_lt hb]
  | @more b bytes n hb h ih =>
    obtain ⟨fuel, rfl⟩ : ∃ k, fuel = k + 1 :=
      Nat.exists_eq_add_of_le' ((Nat.succ_le_succ (Nat.zero_le _)).trans hfuel)
    have hrest : bytes.length ≤ fuel := Nat.le_of_succ_le_succ hfuel
    have hpos := h.length_pos
    have hs : shift.toNat + 7 < 64 := by omega
    have hadd := toNat_add7 hs
    have hpow : 2 ^ (shift.toNat + 7) = 2 ^ shift.toNat * 128 := pow_add 2 shift.toNat 7
    have hsmall : b.toNat % 128 * 2 ^ shift.toNat ≤ 127 * 2 ^ shift.toNat :=
      Nat.mul_le_mul_right _ (by omega)
    have hroom : 2 ^ (shift.toNat + 7) ≤ 2 ^ 64 := Nat.pow_le_pow_right (by decide) (by omega)
    have hgroup := toNat_addGroup (b := b) (by omega) hacc (by omega)
    have hacc' : (addGroup acc shift b).toNat < 2 ^ (shift + 7).toNat := by
      rw [hgroup, hadd, hpow]
      omega
    obtain ⟨v, hv, hdec⟩ := ih hrest (by omega) hacc'
    refine ⟨v, ?_, ?_⟩
    · rw [hv, hgroup, hadd, hpow]
      congr 1
      ring
    · rw [List.cons_append, decodeLoop_more (hsource.cons b _) hb fuel hs acc]
      exact hdec

/-- Without an encoding in the groups that have room the loop ends in an error. -/
theorem decodeLoop_refuses (hsource : Source next rep) {fuel : Nat} {bytes : List UInt8}
    (h : ∀ init rest n, bytes = init ++ rest → Encodes init n → fuel < init.length)
    {shift acc : UInt64} (hshift : shift.toNat + 7 * fuel = 70) :
    ∃ e, decodeLoop next tooLong fuel shift acc (rep bytes) = .error e := by
  induction fuel generalizing bytes shift acc with
  | zero => exact ⟨tooLong, rfl⟩
  | succ fuel ih =>
    cases bytes with
    | nil =>
      obtain ⟨e, he⟩ := hsource.nil
      exact ⟨e, Decoder.bind_error he _⟩
    | cons b bytes =>
      rcases Nat.lt_or_ge b.toNat 128 with hb | hb
      · have := h [b] bytes _ rfl (.last hb)
        simp at this
      · rcases Nat.eq_zero_or_pos fuel with rfl | hpos
        · exact ⟨tooLong, decodeLoop_tooLong tooLong (hsource.cons b bytes) hb 0 (by omega) acc⟩
        · have hs : shift.toNat + 7 < 64 := by omega
          rw [decodeLoop_more (hsource.cons b bytes) hb fuel hs acc]
          refine ih (fun init rest n heq hinit => ?_) (by rw [toNat_add7 hs]; omega)
          have := h (b :: init) rest _ (by rw [heq, List.cons_append]) (.more hb hinit)
          simpa using this

/-- An encoding in ten bytes is read as its number modulo 2^64. -/
theorem decode_encodes (hsource : Source next rep) (rest : List UInt8) {bytes : List UInt8}
    {n : Nat} (h : Encodes bytes n) (hlength : bytes.length ≤ maxGroups) :
    ∃ v : UInt64, v.toNat = n % 2 ^ 64 ∧
      decode next tooLong (rep (bytes ++ rest)) = .ok (v, rep rest) := by
  have hstart : (0 : UInt64).toNat < 2 ^ (0 : UInt64).toNat := by decide
  obtain ⟨v, hv, hdec⟩ := decodeLoop_encodes tooLong hsource rest h hlength rfl hstart
  exact ⟨v, by simpa using hv, hdec⟩

theorem decode_refuses (hsource : Source next rep) {bytes : List UInt8}
    (h : ∀ init rest n, bytes = init ++ rest → Encodes init n → maxGroups < init.length) :
    ∃ e, decode next tooLong (rep bytes) = .error e :=
  decodeLoop_refuses tooLong hsource h rfl

/-- The reader reads exactly the encodings of 64-bit words in ten bytes, and consumes just these
bytes. -/
def Conforms (read : Decoder ε σ UInt64) (rep : List UInt8 → σ) (bytes : List UInt8) : Prop :=
  ∀ v s, read (rep bytes) = .ok (v, s) ↔
    ∃ init rest, bytes = init ++ rest ∧ s = rep rest ∧ Encodes init v.toNat ∧
      init.length ≤ maxGroups

/-- Nine groups go on, and the tenth and last one has more than the one bit that has room. -/
def Overfull (bytes : List UInt8) : Prop :=
  ∃ init b rest, bytes = init ++ b :: rest ∧ init.length = 9 ∧ (∀ c ∈ init, 128 ≤ c.toNat) ∧
    2 ≤ b.toNat ∧ b.toNat < 128

/-- What does not fit 64 bits is overfull. -/
theorem Encodes.overfull {bytes : List UInt8} {n : Nat} (h : Encodes bytes n)
    (hlength : bytes.length ≤ maxGroups) (hn : 2 ^ 64 ≤ n) (rest : List UInt8) :
    Overfull (bytes ++ rest) := by
  have hmax : maxGroups = 10 := rfl
  have hlt := h.lt
  have hten : bytes.length = 10 := by
    by_contra hne
    have hle : 128 ^ bytes.length ≤ 128 ^ 9 := Nat.pow_le_pow_right (by decide) (by omega)
    omega
  obtain ⟨init, b, low, rfl, hinit, hb, hlow, rfl⟩ := h.split_last
  have hnine : init.length = 9 := by simpa using hten
  rw [hnine] at hlow hn
  exact ⟨init, b, rest, by simp, hnine, hinit, by omega, hb⟩

/-- What is overfull begins with the encoding of a number that does not fit 64 bits. -/
theorem Overfull.encodes {bytes : List UInt8} (h : Overfull bytes) : ∃ init rest n,
    bytes = init ++ rest ∧ Encodes init n ∧ init.length ≤ maxGroups ∧ 2 ^ 64 ≤ n := by
  obtain ⟨init, b, rest, rfl, hnine, hinit, hlow, hb⟩ := h
  obtain ⟨n, hn⟩ := Encodes.of_groups hinit hb
  refine ⟨init ++ [b], rest, n, by simp, hn, by simp [hnine, maxGroups], ?_⟩
  obtain ⟨init', b', low, heq, -, -, -, rfl⟩ := hn.split_last
  obtain ⟨rfl, hlast⟩ := List.append_inj' heq rfl
  obtain rfl : b = b' := List.singleton_inj.1 hlast
  rw [hnine]
  omega

/-- **The reader conforms exactly where the tenth group fits.** -/
theorem conforms_iff (hsource : Source next rep) (bytes : List UInt8) :
    Conforms (decode next tooLong) rep bytes ↔ ¬ Overfull bytes := by
  constructor
  · intro h hfull
    obtain ⟨init, rest, n, rfl, hn, hlength, hlarge⟩ := hfull.encodes
    obtain ⟨v, -, hdec⟩ := decode_encodes tooLong hsource rest hn hlength
    obtain ⟨init', rest', heq, -, hv, -⟩ := (h v (rep rest)).1 hdec
    obtain ⟨-, rfl, -⟩ := hn.unique hv heq
    have := v.toNat_lt
    omega
  · intro hfit v s
    constructor
    · intro hdec
      by_cases hsome : ∃ init rest n, bytes = init ++ rest ∧ Encodes init n ∧
          init.length ≤ maxGroups
      · obtain ⟨init, rest, n, rfl, hn, hlength⟩ := hsome
        obtain ⟨w, hw, hdec'⟩ := decode_encodes tooLong hsource rest hn hlength
        rw [hdec] at hdec'
        cases hdec'
        have hsmall : n < 2 ^ 64 := by
          by_contra hlarge
          exact hfit (hn.overfull hlength (by omega) rest)
        rw [Nat.mod_eq_of_lt hsmall] at hw
        exact ⟨init, rest, rfl, rfl, hw ▸ hn, hlength⟩
      · obtain ⟨e, he⟩ := decode_refuses tooLong hsource
          fun init rest n heq hn => Nat.lt_of_not_le fun hle => hsome ⟨init, rest, n, heq, hn, hle⟩
        rw [hdec] at he
        cases he
    · rintro ⟨init, rest, rfl, rfl, hv, hlength⟩
      obtain ⟨w, hw, hdec⟩ := decode_encodes tooLong hsource rest hv hlength
      rw [Nat.mod_eq_of_lt v.toNat_lt, UInt64.toNat_inj] at hw
      rwa [hw] at hdec

end Reading

/-! ## Writing -/

theorem encodeLoop_encodes : ∀ (fuel : Nat) (value : UInt64), value.toNat < 128 ^ (fuel + 1) →
    Encodes (encodeLoop (fuel + 1) value) value.toNat := by
  intro fuel
  induction fuel with
  | zero =>
    intro value hvalue
    have hlt : value.toNat < 128 := by simpa using hvalue
    have hb : (UInt8.ofNat value.toNat).toNat = value.toNat := by
      rw [UInt8.toNat_ofNat']
      omega
    rw [encodeLoop_last 0 hlt]
    have hlast := Encodes.last (b := UInt8.ofNat value.toNat) (by omega)
    rwa [hb] at hlast
  | succ fuel ih =>
    intro value hvalue
    rcases Nat.lt_or_ge value.toNat 128 with hlt | hge
    · have hb : (UInt8.ofNat value.toNat).toNat = value.toNat := by
        rw [UInt8.toNat_ofNat']
        omega
      rw [encodeLoop_last _ hlt]
      have hlast := Encodes.last (b := UInt8.ofNat value.toNat) (by omega)
      rwa [hb] at hlast
    · have hrest := toNat_shiftRight7 value
      have hb : (UInt8.ofNat (value.toNat % 128 + 128)).toNat = value.toNat % 128 + 128 := by
        rw [UInt8.toNat_ofNat']
        omega
      have hsmall : (value >>> 7).toNat < 128 ^ (fuel + 1) := by
        rw [hrest, Nat.div_lt_iff_lt_mul (by decide), ← pow_succ]
        exact hvalue
      have hmore := Encodes.more (b := UInt8.ofNat (value.toNat % 128 + 128)) (by omega)
        (ih (value >>> 7) hsmall)
      rw [encodeLoop_more _ hge]
      rw [hb, hrest] at hmore
      have hvalue' : (value.toNat % 128 + 128) % 128 + 128 * (value.toNat / 128) = value.toNat := by
        omega
      rwa [hvalue'] at hmore

/-- What `encode` writes is an encoding of the word. -/
theorem encode_encodes (value : UInt64) : Encodes (encode value) value.toNat :=
  encodeLoop_encodes 9 value (value.toNat_lt.trans (by decide))

theorem encodeLoop_shortest {bytes : List UInt8} {n : Nat} (h : Encodes bytes n) :
    ∀ (fuel : Nat) (value : UInt64), value.toNat = n →
      (encodeLoop fuel value).length ≤ bytes.length := by
  induction h with
  | @last b hb =>
    intro fuel value hvalue
    cases fuel with
    | zero => exact Nat.zero_le _
    | succ fuel =>
      rw [encodeLoop_last fuel (by omega)]
      exact Nat.le_refl _
  | @more b bytes n hb h ih =>
    intro fuel value hvalue
    cases fuel with
    | zero => exact Nat.zero_le _
    | succ fuel =>
      rcases Nat.lt_or_ge value.toNat 128 with hlt | hge
      · rw [encodeLoop_last fuel hlt]
        exact Nat.succ_le_succ (Nat.zero_le _)
      · rw [encodeLoop_more fuel hge]
        refine Nat.succ_le_succ (ih fuel (value >>> 7) ?_)
        rw [toNat_shiftRight7]
        omega

/-- No encoding of the word is shorter. -/
theorem encode_shortest {value : UInt64} {bytes : List UInt8} (h : Encodes bytes value.toNat) :
    (encode value).length ≤ bytes.length :=
  encodeLoop_shortest h maxGroups value rfl

theorem encode_length_le (value : UInt64) : (encode value).length ≤ maxGroups := by
  have hloop : ∀ fuel value, (encodeLoop fuel value).length ≤ fuel := by
    intro fuel
    induction fuel with
    | zero => exact fun _ => Nat.zero_le _
    | succ fuel ih =>
      intro value
      unfold encodeLoop
      dsimp only
      split
      · exact Nat.succ_le_succ (Nat.zero_le _)
      · exact Nat.succ_le_succ (ih _)
  exact hloop maxGroups value

end Leb128
