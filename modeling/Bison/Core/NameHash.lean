import Mathlib.Data.Int.ModEq
import Mathlib.Tactic.Ring
import Bison.Core.Value

/-!
# The hash of a name

`hash` of bison_common.hpp against the one that FORMAT.md describes: 32-bit FNV-1a over the bytes of
the name, each a number below 256, with the top bit set.

`static_cast<hash_t>(*input)` takes a byte from 128 on as a negative number where `char` is signed,
so that it flips the upper 24 bits of the running hash too. `Drift` says what that does to the hash.

- `Tracks`: how far the running hash is from the documented one, a byte at a time.
- `hash_documented_iff`: **main result**, the hash is the documented one exactly if `char` is
  unsigned or the flips cancel. They do in a name of ASCII, and never if their number is odd.
-/

namespace Bison

/-- 32-bit FNV-1a over bytes that are taken as the numbers `value` gives them. -/
def fnv1a (value : UInt8 → Nat) (name : List UInt8) : Nat :=
  name.foldl (fun h b => (h ^^^ value b) * 0x01000193 % 2 ^ 32) 0x811c9dc5

/-- FORMAT.md 1.3. -/
def documentedHash (name : List UInt8) : Nat := fnv1a UInt8.toNat name ||| 0x80000000

/-! ## One byte -/

/-- The bits of a number on either side of bit 8. -/
theorem xor_byte (h : Nat) {b : Nat} (hb : b < 256) :
    h ^^^ b = h / 256 * 256 + (h % 256 ^^^ b) ∧ h % 256 ^^^ b < 256 := by
  have hlt : h % 256 ^^^ b < 2 ^ 8 := Nat.xor_lt_two_pow (Nat.mod_lt _ (by decide)) hb
  refine ⟨?_, hlt⟩
  have hlow : (h ^^^ b) % 256 = h % 256 ^^^ b := by
    have hmod := Nat.xor_mod_two_pow (a := h) (b := b) (n := 8)
    rwa [Nat.mod_eq_of_lt (a := b) hb] at hmod
  have hhigh : (h ^^^ b) / 256 = h / 256 := by
    have hdiv := Nat.xor_div_two_pow (a := h) (b := b) (n := 8)
    rwa [Nat.div_eq_of_lt (a := b) hb, Nat.xor_zero] at hdiv
  rw [← hlow, ← hhigh]
  omega

/-- The same where all the bits above bit 8 are flipped. -/
theorem xor_extended {h : Nat} (hh : h < 2 ^ 32) {b : Nat} (hb : b < 256) :
    h ^^^ (0xffffff00 + b) = (2 ^ 24 - 1 - h / 256) * 256 + (h % 256 ^^^ b) := by
  have hlow : (h ^^^ (0xffffff00 + b)) % 256 = h % 256 ^^^ b := by
    have hmod := Nat.xor_mod_two_pow (a := h) (b := 0xffffff00 + b) (n := 8)
    have hext : (0xffffff00 + b) % 2 ^ 8 = b := by omega
    rwa [hext] at hmod
  have hhigh : (h ^^^ (0xffffff00 + b)) / 256 = 2 ^ 24 - 1 - h / 256 := by
    have hdiv := Nat.xor_div_two_pow (a := h) (b := 0xffffff00 + b) (n := 8)
    have hext : (0xffffff00 + b) / 2 ^ 8 = 2 ^ 24 - 1 := by omega
    rw [hext] at hdiv
    have hflip : h / 2 ^ 8 ^^^ (2 ^ 24 - 1) = 2 ^ 24 - 1 - h / 2 ^ 8 := by
      have hlt : h / 2 ^ 8 < 2 ^ 24 := by omega
      have hnot := congrArg BitVec.toNat (BitVec.xor_allOnes (x := BitVec.ofNat 24 (h / 2 ^ 8)))
      rw [BitVec.toNat_xor, BitVec.toNat_allOnes, BitVec.toNat_not, BitVec.toNat_ofNat,
        Nat.mod_eq_of_lt hlt] at hnot
      exact hnot
    exact hdiv.trans hflip
  rw [← hlow, ← hhigh]
  omega

/-! ## How far the hashes are apart -/

/-- The running hash of a signed `char` in terms of the documented one `h`: both end in the byte
`low`, and it is `h + offset`, or `offset - h` if the upper bits of one are those of the other
flipped. -/
structure Drift where
  low : UInt8
  crossed : Bool
  offset : Int
  deriving Repr, DecidableEq

namespace Drift

/-- Both start with the offset basis. -/
def start : Drift := ⟨0xc5, false, 0⟩

/-- One more byte. -/
def next (d : Drift) (b : UInt8) : Drift :=
  let low := d.low ^^^ b
  -- what the byte adds to both
  let added : Int := (low.toNat : Int) - d.low.toNat
  let offset := if d.crossed then d.offset + 2 * added else d.offset
  if b < 128 then ⟨low * 0x93, d.crossed, offset * 0x01000193⟩
  else ⟨low * 0x93, !d.crossed, (2 * low.toNat - 256 - offset) * 0x01000193⟩

def of (name : List UInt8) : Drift := name.foldl next start

end Drift

/-- The flips undo each other, but for the top bit. -/
def FlipsCancel (name : List UInt8) : Prop :=
  (Drift.of name).crossed = false ∧ (Drift.of name).offset % 2 ^ 31 = 0

instance (name : List UInt8) : Decidable (FlipsCancel name) := inferInstanceAs (Decidable (_ ∧ _))

/-- The drift describes the hashes `h` and `s`, which differ in bit 8 where it is crossed. -/
structure Tracks (d : Drift) (h s : Nat) : Prop where
  bound : h < 2 ^ 32 ∧ s < 2 ^ 32
  low : h % 256 = d.low.toNat ∧ s % 256 = d.low.toNat
  apart : (s : Int) ≡ (if d.crossed then -(h : Int) else h) + d.offset [ZMOD 2 ^ 32]
  bit : (s : Int) ≡ h + (if d.crossed then 256 else 0) [ZMOD 512]

/-- What a signed `char` is as a 32-bit number. -/
def extended (b : UInt8) : Nat := if b < 128 then b.toNat else 0xffffff00 + b.toNat

theorem toNat_extended (b : UInt8) : b.toInt8.toInt32.toUInt32.toNat = extended b := by
  have hall : ∀ n < 256, (UInt8.ofNat n).toInt8.toInt32.toUInt32.toNat =
      extended (UInt8.ofNat n) := by
    decide +kernel
  simpa using hall b.toNat b.toNat_lt

/-- What is left of a product in 32 bits. -/
theorem product_modEq (n : Nat) :
    ((n * 0x01000193 % 2 ^ 32 : Nat) : Int) ≡ n * 0x01000193 [ZMOD 2 ^ 32] := by
  rw [Int.natCast_mod, Nat.cast_mul]
  exact Int.mod_modEq _ _

/-- Both are multiplied by the prime. -/
theorem tracks_scaled {low : UInt8} {crossed : Bool} {offset : Int} {h s : Nat}
    (hlow : h % 256 = low.toNat ∧ s % 256 = low.toNat)
    (hapart : (s : Int) ≡ (if crossed then -(h : Int) else h) + offset [ZMOD 2 ^ 32])
    (hbit : (s : Int) ≡ h + (if crossed then 256 else 0) [ZMOD 512]) :
    Tracks ⟨low * 0x93, crossed, offset * 0x01000193⟩ (h * 0x01000193 % 2 ^ 32)
      (s * 0x01000193 % 2 ^ 32) := by
  have hnext : (low * 0x93).toNat = low.toNat * 147 % 256 := UInt8.toNat_mul ..
  have hs := product_modEq s
  have hh := (product_modEq h).symm
  have hwide : (512 : Int) ∣ 2 ^ 32 := by decide
  have hbyte (n : Nat) : n * 0x01000193 % 2 ^ 32 % 256 = n % 256 * 147 % 256 := by
    rw [Nat.mod_mod_of_dvd _ (by decide : 256 ∣ 2 ^ 32), Nat.mul_mod]
  refine ⟨⟨Nat.mod_lt _ (by decide), Nat.mod_lt _ (by decide)⟩, ⟨?_, ?_⟩, ?_, ?_⟩
  · rw [hnext, hbyte, hlow.1]
  · rw [hnext, hbyte, hlow.2]
  · refine hs.trans ((hapart.mul_right _).trans ?_)
    rw [add_mul]
    refine Int.ModEq.add_right _ ?_
    cases crossed with
    | false => exact hh
    | true =>
      rw [if_pos rfl, if_pos rfl, neg_mul]
      exact hh.neg
  · refine (hs.of_dvd hwide).trans ((hbit.mul_right _).trans ?_)
    rw [add_mul]
    refine (hh.of_dvd hwide).add ?_
    cases crossed with
    | false => exact Int.ModEq.refl _
    | true => rfl

theorem Tracks.next {d : Drift} {h s : Nat} (ht : Tracks d h s) (b : UInt8) :
    Tracks (d.next b) ((h ^^^ b.toNat) * 0x01000193 % 2 ^ 32)
      ((s ^^^ extended b) * 0x01000193 % 2 ^ 32) := by
  obtain ⟨low, crossed, offset⟩ := d
  obtain ⟨hh, hs⟩ := ht.bound
  obtain ⟨hlow, slow⟩ := ht.low
  obtain ⟨hxor, hbyte⟩ := xor_byte h b.toNat_lt
  have hx : (low ^^^ b).toNat = low.toNat ^^^ b.toNat := UInt8.toNat_xor ..
  dsimp only at hlow slow
  rw [hlow, ← hx] at hxor hbyte
  -- the lowest byte of both, before and after, and what is above it
  generalize hl' : (low ^^^ b).toNat = l' at hx hxor hbyte
  generalize hl : low.toNat = l at hlow slow hx
  obtain ⟨u, rfl⟩ : ∃ u, h = u * 256 + l := ⟨h / 256, by omega⟩
  obtain ⟨v, rfl⟩ : ∃ v, s = v * 256 + l := ⟨s / 256, by omega⟩
  have hdiv (w : Nat) : (w * 256 + l) / 256 = w := by
    clear hxor hx hh hs
    omega
  have hle : v ≤ 2 ^ 24 - 1 := by omega
  have hmod (w : Nat) : (w * 256 + l') % 256 = l' :=
    (Nat.mul_add_mod_self_right w 256 l').trans (Nat.mod_eq_of_lt hbyte)
  rw [hdiv] at hxor
  unfold Drift.next
  dsimp only
  rw [hl, hl']
  have hapart := ht.apart
  have hbit := ht.bit
  push_cast at hapart hbit
  by_cases hb : b < 128
  · have hext : extended b = b.toNat := if_pos hb
    obtain ⟨sxor, -⟩ := xor_byte (v * 256 + l) b.toNat_lt
    rw [slow, ← hx, hdiv] at sxor
    rw [if_pos hb, hext, hxor, sxor]
    refine tracks_scaled ⟨(hmod _).trans hl'.symm, (hmod _).trans hl'.symm⟩ ?_ ?_
    · push_cast
      have hadd := hapart.add_right ((l' : Int) - l)
      cases crossed with
      | false =>
        simp only [Bool.false_eq_true, if_false] at hadd ⊢
        calc (v : Int) * 256 + l' = v * 256 + l + (l' - l) := by ring
          _ ≡ u * 256 + l + offset + (l' - l) [ZMOD 2 ^ 32] := hadd
          _ = u * 256 + l' + offset := by ring
      | true =>
        simp only [if_true] at hadd ⊢
        calc (v : Int) * 256 + l' = v * 256 + l + (l' - l) := by ring
          _ ≡ -(u * 256 + l) + offset + (l' - l) [ZMOD 2 ^ 32] := hadd
          _ = -(u * 256 + l') + (offset + 2 * (l' - l)) := by ring
    · push_cast
      calc (v : Int) * 256 + l' = v * 256 + l + (l' - l) := by ring
        _ ≡ u * 256 + l + (if crossed then 256 else 0) + (l' - l) [ZMOD 512] := hbit.add_right _
        _ = u * 256 + l' + if crossed then 256 else 0 := by ring
  · -- the upper bits of the signed hash are flipped
    have hext : extended b = 0xffffff00 + b.toNat := if_neg hb
    have sxor := xor_extended hs b.toNat_lt
    rw [slow, ← hx, hdiv] at sxor
    rw [if_neg hb, hext, hxor, sxor]
    have hflip : ((((2 ^ 24 - 1 - v) * 256 + l' : Nat)) : Int) = 2 ^ 32 - 256 - v * 256 + l' := by
      rw [Nat.cast_add, Nat.cast_mul, Nat.cast_sub hle]
      push_cast
      ring
    have hzero : (2 ^ 32 : Int) ≡ 0 [ZMOD 2 ^ 32] := by decide
    refine tracks_scaled ⟨(hmod _).trans hl'.symm, (hmod _).trans hl'.symm⟩ ?_ ?_
    · rw [hflip]
      have hneg := hzero.add (hapart.neg.add_right ((l' : Int) + l - 256))
      push_cast
      cases crossed with
      | false =>
        simp only [Bool.false_eq_true, if_false, Bool.not_false, if_true] at hneg ⊢
        calc (2 : Int) ^ 32 - 256 - v * 256 + l' =
              2 ^ 32 + (-(v * 256 + l) + (l' + l - 256)) := by ring
          _ ≡ 0 + (-(u * 256 + l + offset) + (l' + l - 256)) [ZMOD 2 ^ 32] := hneg
          _ = -(u * 256 + l') + (2 * l' - 256 - offset) := by ring
      | true =>
        simp only [if_true, Bool.not_true, Bool.false_eq_true, if_false] at hneg ⊢
        calc (2 : Int) ^ 32 - 256 - v * 256 + l' =
              2 ^ 32 + (-(v * 256 + l) + (l' + l - 256)) := by ring
          _ ≡ 0 + (-(-(u * 256 + l) + offset) + (l' + l - 256)) [ZMOD 2 ^ 32] := hneg
          _ = u * 256 + l' + (2 * l' - 256 - (offset + 2 * (l' - l))) := by ring
    · rw [hflip]
      have hwide : (2 ^ 32 : Int) ≡ 0 [ZMOD 512] := by decide
      have hcross : -(if crossed then (256 : Int) else 0) - 256 ≡
          (if !crossed then 256 else 0) [ZMOD 512] := by
        cases crossed <;> decide
      have heven : (512 : Int) * u ≡ 0 [ZMOD 512] := Int.modEq_zero_iff_dvd.2 (dvd_mul_right _ _)
      have hneg := hwide.add (hbit.neg.add_right ((l' : Int) + l - 256))
      push_cast
      calc (2 : Int) ^ 32 - 256 - v * 256 + l' =
            2 ^ 32 + (-(v * 256 + l) + (l' + l - 256)) := by ring
        _ ≡ 0 + (-(u * 256 + l + if crossed then 256 else 0) + (l' + l - 256)) [ZMOD 512] := hneg
        _ = u * 256 + l' + (-(if crossed then 256 else 0) - 256) - 512 * u := by ring
        _ ≡ u * 256 + l' + (if !crossed then 256 else 0) - 0 [ZMOD 512] :=
          (hcross.add_left _).sub heven
        _ = u * 256 + l' + if !crossed then 256 else 0 := sub_zero _

/-- The running hashes of a name. -/
theorem tracks_of (name : List UInt8) :
    Tracks (.of name) (fnv1a UInt8.toNat name) (fnv1a extended name) := by
  have hloop : ∀ (rest : List UInt8) (d : Drift) (h s : Nat), Tracks d h s →
      Tracks (rest.foldl Drift.next d)
        (rest.foldl (fun h b => (h ^^^ b.toNat) * 0x01000193 % 2 ^ 32) h)
        (rest.foldl (fun s b => (s ^^^ extended b) * 0x01000193 % 2 ^ 32) s) := by
    intro rest
    induction rest with
    | nil => exact fun _ _ _ ht => ht
    | cons b rest ih => exact fun d h s ht => ih _ _ _ (ht.next b)
  refine hloop name .start _ _ ⟨⟨by decide, by decide⟩, ⟨by decide, by decide⟩, ?_, ?_⟩
  · exact Int.ModEq.refl _
  · exact Int.ModEq.refl _

/-! ## The hash -/

theorem toNat_hash (charSigned : Bool) (name : List UInt8) : (hash charSigned name).toNat =
    fnv1a (if charSigned then extended else UInt8.toNat) name ||| 0x80000000 := by
  have hloop : ∀ (rest : List UInt8) (h : UInt32), (rest.foldl (fun value c =>
        (value ^^^ if charSigned then c.toInt8.toInt32.toUInt32 else c.toUInt32) * 0x01000193)
        h).toNat =
      rest.foldl (fun h b =>
        (h ^^^ (if charSigned then extended else UInt8.toNat) b) * 0x01000193 % 2 ^ 32)
        h.toNat := by
    intro rest
    induction rest with
    | nil => exact fun _ => rfl
    | cons b rest ih =>
      intro h
      rw [List.foldl_cons, List.foldl_cons, ih, UInt32.toNat_mul, UInt32.toNat_xor]
      cases charSigned with
      | false => rfl
      | true =>
        rw [if_pos rfl, if_pos rfl, toNat_extended]
        rfl
  unfold hash
  rw [UInt32.toNat_or, hloop]
  rfl

/-- Setting the top bit forgets it. -/
theorem or_top_eq_iff {h s : Nat} (hh : h < 2 ^ 32) (hs : s < 2 ^ 32) :
    s ||| 0x80000000 = h ||| 0x80000000 ↔ s % 2 ^ 31 = h % 2 ^ 31 := by
  have hor {n : Nat} (hn : n < 2 ^ 32) : n ||| 0x80000000 = 2 ^ 31 + n % 2 ^ 31 := by
    have htop : n % 2 ^ 31 ||| 0x80000000 = 2 ^ 31 + n % 2 ^ 31 := by
      rw [Nat.or_comm]
      exact (Nat.two_pow_add_eq_or_of_lt (Nat.mod_lt n (Nat.two_pow_pos 31)) 1).symm
    rcases Nat.lt_or_ge n (2 ^ 31) with hlt | hge
    · rw [Nat.mod_eq_of_lt hlt] at htop ⊢
      exact htop
    · obtain ⟨m, rfl⟩ := Nat.exists_eq_add_of_le hge
      have hm : m < 2 ^ 31 := by omega
      have hsplit : 2 ^ 31 + m = 2 ^ 31 ||| m := by
        simpa using Nat.two_pow_add_eq_or_of_lt hm 1
      have hmod : (2 ^ 31 + m) % 2 ^ 31 = m := by omega
      rw [hmod, hsplit, Nat.or_comm (2 ^ 31) m, Nat.or_assoc]
      rfl
  rw [hor hh, hor hs]
  exact ⟨Nat.add_left_cancel, fun h => congrArg _ h⟩

/-- The documented hash is the one of an unsigned `char`. -/
theorem toNat_hash_unsigned (name : List UInt8) :
    (hash false name).toNat = documentedHash name := by
  rw [toNat_hash]
  rfl

theorem toNat_hash_signed_iff (name : List UInt8) :
    (hash true name).toNat = documentedHash name ↔ FlipsCancel name := by
  obtain ⟨⟨hh, hs⟩, -, hapart, hbit⟩ := tracks_of name
  rw [toNat_hash, documentedHash]
  show fnv1a extended name ||| _ = _ ↔ _
  rw [or_top_eq_iff hh hs]
  unfold FlipsCancel
  generalize fnv1a extended name = s at *
  generalize fnv1a UInt8.toNat name = h at *
  have hcast : s % 2 ^ 31 = h % 2 ^ 31 ↔ (s : Int) ≡ h [ZMOD (2 ^ 31 : Nat)] :=
    (Int.natCast_modEq_iff (n := 2 ^ 31)).symm
  rw [hcast]
  cases hcrossed : (Drift.of name).crossed with
  | false =>
    simp only [hcrossed, Bool.false_eq_true, if_false] at hapart
    have hsmall : (s : Int) ≡ h + (Drift.of name).offset [ZMOD (2 ^ 31 : Nat)] :=
      hapart.of_dvd (by decide)
    rw [and_iff_right rfl]
    constructor
    · intro heq
      exact Int.ModEq.add_left_cancel' (h : Int) (hsmall.symm.trans (heq.trans (by rw [add_zero])))
    · intro hzero
      have hzero : (Drift.of name).offset ≡ 0 [ZMOD (2 ^ 31 : Nat)] := hzero
      exact hsmall.trans ((Int.ModEq.add_left (h : Int) hzero).trans (by rw [add_zero]))
  | true =>
    -- they differ in bit 8
    simp only [hcrossed, if_true] at hbit
    refine ⟨fun heq => ?_, fun h => by cases h.1⟩
    have hlow : (s : Int) ≡ h [ZMOD 512] := heq.of_dvd (by decide)
    have hzero : (256 : Int) ≡ 0 [ZMOD 512] :=
      Int.ModEq.add_left_cancel' (h : Int) (hbit.symm.trans (hlow.trans (by rw [add_zero])))
    exact absurd hzero (by decide)

/-! ## Names in which the flips cancel -/

theorem Drift.next_crossed (d : Drift) (b : UInt8) :
    (d.next b).crossed = if b < 128 then d.crossed else !d.crossed := by
  unfold Drift.next
  dsimp only
  split <;> rfl

/-- The drift is crossed after an odd number of bytes from 128 on. -/
theorem crossed_iff (name : List UInt8) :
    (Drift.of name).crossed = true ↔ Odd (name.countP (128 ≤ ·)) := by
  have hloop : ∀ (rest : List UInt8) (d : Drift), (rest.foldl Drift.next d).crossed = true ↔
      ¬ (d.crossed = true ↔ Odd (rest.countP (128 ≤ ·))) := by
    intro rest
    induction rest with
    | nil => simp
    | cons b rest ih =>
      intro d
      rw [List.foldl_cons, ih, Drift.next_crossed, List.countP_cons]
      by_cases hb : b < 128
      · have hle : ¬ 128 ≤ b := UInt8.not_le.2 hb
        rw [if_pos hb, if_neg (by simpa using hle), add_zero]
      · have hle : 128 ≤ b := UInt8.not_lt.1 hb
        rw [if_neg hb, if_pos (by simpa using hle), Nat.odd_add_one]
        cases d.crossed <;> simp
  have hstart := hloop name .start
  unfold Drift.of
  rw [hstart]
  simp [Drift.start]

theorem flipsCancel_of_ascii {name : List UInt8} (h : ∀ b ∈ name, b < 128) : FlipsCancel name := by
  have hloop : ∀ (rest : List UInt8) (d : Drift), (∀ b ∈ rest, b < 128) → d.crossed = false →
      d.offset = 0 →
      (rest.foldl Drift.next d).crossed = false ∧ (rest.foldl Drift.next d).offset = 0 := by
    intro rest
    induction rest with
    | nil => exact fun _ _ hcrossed hoffset => ⟨hcrossed, hoffset⟩
    | cons b rest ih =>
      intro d hascii hcrossed hoffset
      have hb : b < 128 := hascii b (List.mem_cons_self ..)
      refine ih _ (fun c hc => hascii c (List.mem_cons_of_mem _ hc)) ?_ ?_
      · rw [Drift.next_crossed, if_pos hb, hcrossed]
      · simp [Drift.next, if_pos hb, hcrossed, hoffset]
  obtain ⟨hcrossed, hoffset⟩ := hloop name .start h rfl rfl
  refine ⟨hcrossed, ?_⟩
  show (name.foldl Drift.next .start).offset % _ = 0
  rw [hoffset]
  rfl

theorem not_flipsCancel_of_odd {name : List UInt8} (h : Odd (name.countP (128 ≤ ·))) :
    ¬ FlipsCancel name := by
  intro hcancel
  have hcrossed := (crossed_iff name).2 h
  rw [hcancel.1] at hcrossed
  cases hcrossed

/-- **Main result**: the hash is the documented one exactly if `char` is unsigned or the flips
cancel, which they do if every byte is below 128, and not if the number of the others is odd. -/
theorem hash_documented_iff (name : List UInt8) :
    (∀ charSigned, (hash charSigned name).toNat = documentedHash name ↔
      charSigned = false ∨ FlipsCancel name) ∧
    ((∀ b ∈ name, b < 128) → FlipsCancel name) ∧
    (Odd (name.countP (128 ≤ ·)) → ¬ FlipsCancel name) := by
  refine ⟨fun charSigned => ?_, flipsCancel_of_ascii, not_flipsCancel_of_odd⟩
  cases charSigned with
  | false => exact iff_of_true (toNat_hash_unsigned name) (.inl rfl)
  | true =>
    rw [toNat_hash_signed_iff]
    exact ⟨.inr, fun h => h.resolve_left (by decide)⟩

theorem hash_documented_ascii : (hash true (ascii "name")).toNat = documentedHash (ascii "name") :=
  ((hash_documented_iff _).1 true).2 (.inr ((hash_documented_iff _).2.1 (by decide +kernel)))

/-- The name é in UTF-8 has another hash where `char` is signed. -/
theorem hash_signed_differs :
    ¬ ∀ charSigned, (hash charSigned [0xc3, 0xa9]).toNat = documentedHash [0xc3, 0xa9] := by
  intro h
  exact absurd (h true) (by decide +kernel)

/-- In yeé the flips cancel. -/
example : FlipsCancel [121, 101, 0xc3, 0xa9] := by decide +kernel

end Bison
