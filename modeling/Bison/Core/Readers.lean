import Bison.Core.Decoding

/-!
# Three readers

The two deserializers of the library and one that only the proofs use:

- `rangeReader` and `streamReader` never give input back, fail only by throwing and take a
  byte where they read a tag other than zero (`Reader.Measured`), so decoding over either
  ends (`Dynamic.deserialize_thrown`).
- `paddedReader` reads the input followed by endless zeros. A buffer of the input and
  enough zeros decodes to the same tree: `paddedReader_zeroFilling` gives the zeros,
  `rangeReader_zeroSeen` is the converse.
-/

namespace Bison

open SortedMap Decoder

/-! ## Both readers take input and fail by throwing -/

section Measured

variable {σ : Type} {size : σ → Nat} {n : Nat}

theorem Within.varint {next : Decoder Exn σ UInt8} {what : String} (h : Within size n next) :
    Within size n (Leb128.decode next (.runtimeError what)) := by
  have hloop : ∀ fuel shift result,
      Within size n (Leb128.decodeLoop next (.runtimeError what) fuel shift result) := by
    intro fuel
    induction fuel with
    | zero =>
      intro _ _ _ _
      trivial
    | succ fuel ih =>
      intro shift result
      refine h.bind' fun byte => ?_
      by_cases hend : byte &&& 0x80 = 0
      · simp only [if_pos hend]
        exact Within.pure _
      · simp only [if_neg hend]
        by_cases hfull : shift + 7 ≥ 64
        · simp only [if_pos hfull]
          exact fun _ _ => trivial
        · simp only [if_neg hfull]
          exact ih _ _
  exact hloop _ _ _

theorem Within.resize (max : Nat) (count : UInt64) : Within size n (Bison.resize max count) := by
  unfold Bison.resize
  split
  · exact Within.pure _
  · exact fun _ _ => trivial

theorem bufferScalar_within {short : Exn} (hs : short.Thrown) (k : Nat) :
    Within List.length n (bufferScalar short k) := by
  intro s _
  unfold bufferScalar
  by_cases h : s.length < k
  · rw [if_pos h]
    exact hs
  · rw [if_neg h]
    show (s.drop k).length ≤ s.length
    rw [List.length_drop]
    exact Nat.sub_le _ _

theorem bufferVarint_within : Within List.length n bufferVarint :=
  Within.varint fun s _ => by
    cases s with
    | nil => trivial
    | cons b rest => exact Nat.le_succ _

theorem bufferWords_within {short : Exn} (hs : short.Thrown) (max : Nat) :
    Within List.length n (bufferWords short max) :=
  bufferVarint_within.bind' fun count => (Within.resize max count).bind' fun _ =>
    ((bufferScalar_within hs 4).map _).count _

theorem rangeReader_measured {short : Exn} (hs : short.Thrown) (lim : Limits) :
    (rangeReader short lim).Measured List.length where
  scalar _ k := bufferScalar_within hs k
  varint _ := bufferVarint_within
  string _ := bufferVarint_within.bind' fun count => (bufferScalar_within hs _).bind' fun raw =>
    (Within.resize _ count).bind' fun _ => Within.pure raw
  bools _ := bufferVarint_within.bind' fun count => (Within.resize _ count).bind' fun _ =>
    ((bufferScalar_within hs 1).map _).count _
  int32s _ := bufferWords_within hs _
  floats _ := bufferWords_within hs _
  bytes _ := bufferVarint_within.bind' fun count => (Within.resize _ count).bind' fun _ =>
    bufferScalar_within hs _
  tag {s s' b} h _ := by
    cases s with
    | nil => cases h
    | cons c s =>
      obtain ⟨-, rfl⟩ := Prod.mk.inj (Except.ok.inj h)
      exact Nat.lt_succ_self _

theorem bufferReader_measured (lim : Limits) : (bufferReader lim).Measured List.length :=
  have hthrown : bufferUnderflow.Thrown := trivial
  rangeReader_measured hthrown lim

theorem streamScalar_within (k : Nat) :
    Within (fun s : Stream => s.rest.length) n (streamScalar k) := by
  rintro ⟨rest, good⟩ _
  unfold streamScalar
  cases good with
  | false => exact le_rfl
  | true =>
    simp only [Bool.not_true, Bool.false_eq_true, if_false]
    by_cases h : rest.length < k
    · rw [if_pos h]
      exact Nat.zero_le _
    · rw [if_neg h]
      show (rest.drop k).length ≤ rest.length
      rw [List.length_drop]
      exact Nat.sub_le _ _

theorem streamVarint_within : Within (fun s : Stream => s.rest.length) n streamVarint :=
  Within.varint fun s _ => by
    obtain ⟨rest, good⟩ := s
    cases good with
    | false => trivial
    | true =>
      cases rest with
      | nil => trivial
      | cons b rest => exact Nat.le_succ _

theorem streamBulk_within (k : Nat) :
    Within (fun s : Stream => s.rest.length) n (streamBulk k) := by
  unfold streamBulk
  split
  · exact streamScalar_within k
  · exact Within.pure _

theorem streamWords_within (max : Nat) :
    Within (fun s : Stream => s.rest.length) n (streamWords max) :=
  streamVarint_within.bind' fun count => (Within.resize max count).bind' fun _ =>
    ((streamScalar_within 4).map _).count _

theorem streamReader_measured (lim : Limits) :
    (streamReader lim).Measured fun s : Stream => s.rest.length where
  scalar _ k := streamScalar_within k
  varint _ := streamVarint_within
  string _ := streamVarint_within.bind' fun count => (Within.resize _ count).bind' fun _ =>
    streamBulk_within _
  bools _ := streamVarint_within.bind' fun count => (Within.resize _ count).bind' fun _ =>
    ((streamScalar_within 1).map _).count _
  int32s _ := streamWords_within _
  floats _ := streamWords_within _
  bytes _ := streamVarint_within.bind' fun count => (Within.resize _ count).bind' fun _ =>
    streamBulk_within _
  tag {s s' b} h hb := by
    obtain ⟨rest, good⟩ := s
    cases good with
    | false =>
      obtain ⟨rfl, -⟩ := Prod.mk.inj (Except.ok.inj h)
      exact absurd rfl hb
    | true =>
      cases rest with
      | nil =>
        obtain ⟨rfl, -⟩ := Prod.mk.inj (Except.ok.inj h)
        exact absurd rfl hb
      | cons c rest =>
        obtain ⟨-, rfl⟩ := Prod.mk.inj (Except.ok.inj h)
        exact Nat.lt_succ_self _

end Measured

/-! ## A reader that sees zeros past the end -/

section Padded

/-- `n` bytes of the input followed by zeros. -/
def paddedScalar (n : Nat) : Decoder Exn (List UInt8) (List UInt8) := fun s =>
  .ok (s.take n ++ List.replicate (n - s.length) 0, s.drop n)

def paddedNext : Decoder Exn (List UInt8) UInt8
  | [] => .ok (0, [])
  | b :: rest => .ok (b, rest)

def paddedVarint : Decoder Exn (List UInt8) UInt64 :=
  Leb128.decode paddedNext (.runtimeError "buffer_deserializer: varint too long")

def paddedWords (max : Nat) : Decoder Exn (List UInt8) (List UInt32) := do
  let count ← paddedVarint
  resize max count
  Decoder.count (wordOf <$> paddedScalar 4) count.toNat

/-- The reads of a deserializer over the input followed by endless zeros. -/
def paddedReader (lim : Limits) : Reader (List UInt8) where
  scalar := paddedScalar
  varint := paddedVarint
  string := do
    let count ← paddedVarint
    resize lim.maxString count
    paddedScalar count.toNat
  bools := do
    let count ← paddedVarint
    resize lim.maxBools count
    Decoder.count ((fun raw => byteOf raw != 0) <$> paddedScalar 1) count.toNat
  int32s := paddedWords lim.maxInt32s
  floats := paddedWords lim.maxFloats
  bytes := do
    let count ← paddedVarint
    resize lim.maxBytes count
    paddedScalar count.toNat

theorem paddedScalar_within {n : Nat} (k : Nat) : Within List.length n (paddedScalar k) := by
  intro s _
  show (s.drop k).length ≤ s.length
  rw [List.length_drop]
  exact Nat.sub_le _ _

theorem paddedVarint_within {n : Nat} : Within List.length n paddedVarint :=
  Within.varint fun s _ => by
    cases s with
    | nil => exact le_rfl
    | cons b rest => exact Nat.le_succ _

theorem paddedReader_measured (lim : Limits) : (paddedReader lim).Measured List.length where
  scalar _ k := paddedScalar_within k
  varint _ := paddedVarint_within
  string _ := paddedVarint_within.bind' fun count => (Within.resize _ count).bind' fun _ =>
    paddedScalar_within _
  bools _ := paddedVarint_within.bind' fun count => (Within.resize _ count).bind' fun _ =>
    ((paddedScalar_within 1).map _).count _
  int32s _ := paddedVarint_within.bind' fun count => (Within.resize _ count).bind' fun _ =>
    ((paddedScalar_within 4).map _).count _
  floats _ := paddedVarint_within.bind' fun count => (Within.resize _ count).bind' fun _ =>
    ((paddedScalar_within 4).map _).count _
  bytes _ := paddedVarint_within.bind' fun count => (Within.resize _ count).bind' fun _ =>
    paddedScalar_within _
  tag {s s' b} h hb := by
    cases s with
    | nil =>
      obtain ⟨rfl, -⟩ := Prod.mk.inj (Except.ok.inj h)
      exact absurd rfl hb
    | cons c s =>
      obtain ⟨-, rfl⟩ := Prod.mk.inj (Except.ok.inj h)
      exact Nat.lt_succ_self _

/-! ### Zeros enough for the buffer -/

/-- The input followed by `n` zeros. -/
def withZeros (s : List UInt8) (n : Nat) : List UInt8 := s ++ List.replicate n 0

theorem withZeros_nil_succ (n : Nat) : withZeros [] (n + 1) = 0 :: withZeros [] n := rfl

theorem withZeros_cons (b : UInt8) (s : List UInt8) (n : Nat) :
    withZeros (b :: s) n = b :: withZeros s n := rfl

theorem withZeros_length (s : List UInt8) (n : Nat) : (withZeros s n).length = s.length + n := by
  simp [withZeros]

theorem take_withZeros {s : List UInt8} {n k : Nat} (h : k ≤ s.length + n) :
    (withZeros s n).take k = s.take k ++ List.replicate (k - s.length) 0 := by
  rw [withZeros, List.take_append, List.take_replicate, Nat.min_eq_left (by omega)]

theorem drop_withZeros (s : List UInt8) (n k : Nat) :
    (withZeros s n).drop k = withZeros (s.drop k) (n - (k - s.length)) := by
  rw [withZeros, List.drop_append, List.drop_replicate, withZeros]

/-- Where the padded reader succeeds, the buffer decoder does, given enough zeros, and any
further zeros are left over. -/
def zeroFilling : Congruence Exn (List UInt8) (List UInt8) where
  Rel p q := ∀ s a s', p s = .ok (a, s') →
    ∃ n, ∀ m, q (withZeros s (n + m)) = .ok (a, withZeros s' m)
  lift r s a s' h := by
    cases r with
    | error e => cases h
    | ok b =>
      obtain ⟨rfl, rfl⟩ := Prod.mk.inj (Except.ok.inj h)
      exact ⟨0, fun m => by rw [Nat.zero_add]; rfl⟩
  bind {_ _ p q f g} hp hf s b s'' h := by
    obtain ⟨a, s', hps, hfs⟩ := bind_eq_ok.mp h
    obtain ⟨n, hn⟩ := hp s a s' hps
    obtain ⟨n', hn'⟩ := hf a s' b s'' hfs
    refine ⟨n + n', fun m => ?_⟩
    rw [Nat.add_assoc, bind_ok (hn (n' + m))]
    exact hn' m

/-- Input followed by zeros, seen by the buffer decoder, against the same input seen by the
padded reader. -/
def zeroSeen : Congruence Exn (List UInt8) (List UInt8) :=
  refinement fun t s => ∃ n, t = withZeros s n

theorem scalar_zeroFilling (short : Exn) (k : Nat) :
    zeroFilling.Rel (paddedScalar k) (bufferScalar short k) := by
  intro s a s' h
  obtain ⟨rfl, rfl⟩ := Prod.mk.inj (Except.ok.inj h)
  refine ⟨k - s.length, fun m => ?_⟩
  unfold bufferScalar
  rw [if_neg (by rw [withZeros_length]; omega), take_withZeros (by omega), drop_withZeros]
  congr 3
  omega

theorem scalar_zeroSeen (short : Exn) (k : Nat) :
    zeroSeen.Rel (bufferScalar short k) (paddedScalar k) := by
  rintro _ s ⟨n, rfl⟩
  unfold bufferScalar
  by_cases h : (withZeros s n).length < k
  · rw [if_pos h]
    trivial
  · rw [if_neg h]
    rw [withZeros_length] at h
    rw [take_withZeros (by omega), drop_withZeros]
    exact ⟨_, rfl, _, rfl⟩

theorem varint_zeroFilling : zeroFilling.Rel paddedVarint bufferVarint := by
  refine Leb128.decode_rel zeroFilling ?_ (zeroFilling.throw _)
  rintro (_ | ⟨b, s⟩) a s' h
  · obtain ⟨rfl, rfl⟩ := Prod.mk.inj (Except.ok.inj h)
    refine ⟨1, fun m => ?_⟩
    rw [Nat.add_comm, withZeros_nil_succ]
    rfl
  · obtain ⟨rfl, rfl⟩ := Prod.mk.inj (Except.ok.inj h)
    refine ⟨0, fun m => ?_⟩
    rw [Nat.zero_add, withZeros_cons]
    rfl

theorem varint_zeroSeen : zeroSeen.Rel bufferVarint paddedVarint := by
  refine Leb128.decode_rel zeroSeen ?_ (zeroSeen.throw _)
  rintro _ (_ | ⟨b, s⟩) ⟨n, rfl⟩
  · cases n with
    | zero => trivial
    | succ n => exact ⟨[], rfl, n, rfl⟩
  · exact ⟨s, rfl, n, rfl⟩

theorem resize_rel {σ τ : Type} (C : Congruence Exn σ τ) (max : Nat) (count : UInt64) :
    C.Rel (resize max count) (resize max count) := by
  unfold resize
  split
  · exact C.pure ()
  · exact C.throw _

theorem paddedReader_zeroFilling (short : Exn) (lim : Limits) :
    (paddedReader lim).Related zeroFilling (rangeReader short lim) where
  scalar := scalar_zeroFilling short
  varint := varint_zeroFilling
  string := zeroFilling.bind varint_zeroFilling fun count => by
    unfold resize
    by_cases h : count.toNat ≤ lim.maxString
    · rw [if_pos h]
      exact zeroFilling.bind (scalar_zeroFilling short count.toNat) fun raw => zeroFilling.pure raw
    · rw [if_neg h]
      intro s a s' hr
      cases hr
  bools := zeroFilling.bind varint_zeroFilling fun count =>
    zeroFilling.bind (resize_rel _ _ count) fun _ =>
      zeroFilling.count (zeroFilling.map _ (scalar_zeroFilling short 1)) _
  int32s := zeroFilling.bind varint_zeroFilling fun count =>
    zeroFilling.bind (resize_rel _ _ count) fun _ =>
      zeroFilling.count (zeroFilling.map _ (scalar_zeroFilling short 4)) _
  floats := zeroFilling.bind varint_zeroFilling fun count =>
    zeroFilling.bind (resize_rel _ _ count) fun _ =>
      zeroFilling.count (zeroFilling.map _ (scalar_zeroFilling short 4)) _
  bytes := zeroFilling.bind varint_zeroFilling fun count =>
    zeroFilling.bind (resize_rel _ _ count) fun _ => scalar_zeroFilling short _

theorem rangeReader_zeroSeen (short : Exn) (lim : Limits) :
    (rangeReader short lim).Related zeroSeen (paddedReader lim) where
  scalar := scalar_zeroSeen short
  varint := varint_zeroSeen
  string := zeroSeen.bind varint_zeroSeen fun count => by
    unfold resize
    by_cases h : count.toNat ≤ lim.maxString
    · rw [if_pos h]
      exact zeroSeen.bind (scalar_zeroSeen short count.toNat) fun raw => zeroSeen.pure raw
    · rw [if_neg h]
      intro t s _
      split
      · next a s' hr =>
        obtain ⟨raw, t', -, hr⟩ := bind_eq_ok.mp hr
        cases hr
      · trivial
  bools := zeroSeen.bind varint_zeroSeen fun count =>
    zeroSeen.bind (resize_rel _ _ count) fun _ =>
      zeroSeen.count (zeroSeen.map _ (scalar_zeroSeen short 1)) _
  int32s := zeroSeen.bind varint_zeroSeen fun count =>
    zeroSeen.bind (resize_rel _ _ count) fun _ =>
      zeroSeen.count (zeroSeen.map _ (scalar_zeroSeen short 4)) _
  floats := zeroSeen.bind varint_zeroSeen fun count =>
    zeroSeen.bind (resize_rel _ _ count) fun _ =>
      zeroSeen.count (zeroSeen.map _ (scalar_zeroSeen short 4)) _
  bytes := zeroSeen.bind varint_zeroSeen fun count =>
    zeroSeen.bind (resize_rel _ _ count) fun _ => scalar_zeroSeen short _

end Padded

end Bison
