import Bison.Core.Readers

/-!
# The stream decoder against the buffer decoder

`dynamic::deserialize(stream_deserializer&)` is the same text as the buffer overload over
reads that fail differently. `read_varint` throws at the end of the input in both; a
scalar, a string and an array body throw in the buffer decoder, but the stream decoder
takes whatever `std::istream::read` left in the target, which past the end is zeros.

So the two part exactly on inputs that end inside such a value, and only where what
follows as zeros still makes a tree:

- `CutShort`: the bytes end inside a fixed-width value, a string or an array.
- `ZeroFilled`: the bytes followed by some number of zeros are an encoding.
- `decodersAgree_iff`: **main result**, the decoders agree on every input but those that
  are both.

The proof follows three readers in step (`Follows`): the buffer's, which says where the
input is cut; the stream's; and `paddedReader`, which sees zeros past the end. Before the
cut all three do the same. After it the stream reads what the padded reader reads
(`Trails`), because no varint is read any more: a field whose tag is read past the end has
tag 0 and no payload.
-/

namespace Bison

open SortedMap Decoder

variable {μ : Type}

/-- `dynamic::deserialize(stream_deserializer&)` over a stream. -/
def streamDeserialize (lim : Limits) (reg : Registry μ) : Decoder Exn Stream Fields :=
  fun s => Dynamic.deserialize (streamReader lim) reg (s.rest.length + 1) s

/-- Both decoders reject the bytes by throwing, or both return the same object. -/
def DecodersAgree (lim : Limits) (reg : Registry μ) (bytes : List UInt8) : Prop :=
  match bufferDeserialize lim reg bytes, streamDeserialize lim reg ⟨bytes, true⟩ with
  | .ok (a, _), .ok (b, _) => a = b
  | .error e, .error e' => e.Thrown ∧ e'.Thrown
  | _, _ => False

/-! ## Where the bytes end

A pass over the layout alone: what each tag is followed by, with no class looked up and no
object made. -/

section Layout

variable {σ : Type} (rd : Reader σ)

/-- The payload behind a tag. -/
def Field.skipTagged (nested : Decoder Exn σ Unit) : Nat → Decoder Exn σ Unit
  | 0 => pure ()
  | 1 | 2 | 4 | 5 => (fun _ => ()) <$> rd.word
  | 3 => (fun _ => ()) <$> rd.bool
  | 6 => do
    let present ← rd.bool
    if present then nested else pure ()
  | 7 => (fun _ => ()) <$> rd.string
  | 8 => (fun _ => ()) <$> rd.bools
  | 9 => (fun _ => ()) <$> rd.int32s
  | 10 => (fun _ => ()) <$> rd.floats
  | 11 => (fun _ => ()) <$> rd.bytes
  | _ => throw (.runtimeError "Not implemented")

def Field.skip (nested : Decoder Exn σ Unit) : Decoder Exn σ Unit := do
  let type ← rd.byte
  Field.skipTagged rd nested type.toNat

def Dynamic.skipLoop (skipField : Decoder Exn σ Unit) : Nat → Decoder Exn σ Unit
  | 0 => pure ()
  | n + 1 => do
    let _ ← rd.word
    let _ ← skipField
    Dynamic.skipLoop skipField n

/-- An object: a field count, then a key and a field each. -/
def Dynamic.skipWith (skipField : Decoder Exn σ Unit) : Decoder Exn σ Unit := do
  let count ← rd.varint
  Dynamic.skipLoop rd skipField count.toNat

/-- An object whose nested objects are at most `fuel` deep. -/
def Dynamic.skip : Nat → Decoder Exn σ Unit
  | 0 => throw .outOfFuel
  | fuel + 1 => Dynamic.skipWith rd (Field.skip rd (Dynamic.skip fuel))

end Layout

/-- Marks a fixed-width value, string or array body that the input does not hold whole. -/
def payloadCut : Exn := .runtimeError "payload cut short"

/-- The bytes end inside a fixed-width value, a string body or an array body (and not, say,
inside a count). -/
def CutShort (lim : Limits) (bytes : List UInt8) : Prop :=
  Dynamic.skip (rangeReader payloadCut lim) (bytes.length + 2) bytes = .error payloadCut

/-- The bytes become the encoding of an object once enough zeros follow them. -/
def ZeroFilled (lim : Limits) (reg : Registry μ) (bytes : List UInt8) : Prop :=
  ∃ n r, bufferDeserialize lim reg (withZeros bytes n) = .ok r

/-! ## Past the end -/

section Matched

variable {α β : Type}

/-- Both succeed past the end of their input with the same value, or both fail. -/
def Matched (x : Except Exn (α × Stream)) (y : Except Exn (α × List UInt8)) : Prop :=
  (∃ a, x = .ok (a, ⟨[], false⟩) ∧ y = .ok (a, [])) ∨ (Fails x ∧ Fails y)

/-- Past the end, the stream decoder does what the decoder over zeros does. -/
def Trails (t : Decoder Exn Stream α) (d : Decoder Exn (List UInt8) α) : Prop :=
  Matched (t ⟨[], false⟩) (d [])

theorem Matched.ok (a : α) : Matched (.ok (a, ⟨[], false⟩)) (.ok (a, [])) :=
  Or.inl ⟨a, rfl, rfl⟩

theorem Matched.bind {t : Decoder Exn Stream α} {d : Decoder Exn (List UInt8) α} {s : Stream}
    {s' : List UInt8} {g : α → Decoder Exn Stream β} {h : α → Decoder Exn (List UInt8) β}
    (hm : Matched (t s) (d s')) (hgh : ∀ a, d s' = .ok (a, []) → Trails (g a) (h a)) :
    Matched ((t >>= g) s) ((d >>= h) s') := by
  rcases hm with ⟨a, ht, hd⟩ | ⟨ht, hd⟩
  · rw [bind_ok ht, bind_ok hd]
    exact hgh a hd
  · exact Or.inr ⟨ht.bind g, hd.bind h⟩

theorem Trails.pure (a : α) : Trails (pure a) (pure a) := Matched.ok a

theorem Trails.lift (r : Except Exn α) : Trails (Decoder.lift r) (Decoder.lift r) := by
  cases r with
  | ok a => exact Matched.ok a
  | error e => exact Or.inr ⟨Fails.error e, Fails.error e⟩

theorem Trails.map {t : Decoder Exn Stream α} {d : Decoder Exn (List UInt8) α} (g : α → β)
    (h : Trails t d) : Trails (g <$> t) (g <$> d) :=
  h.bind fun a _ => Trails.pure (g a)

theorem Trails.count {t : Decoder Exn Stream α} {d : Decoder Exn (List UInt8) α}
    (h : Trails t d) : ∀ n, Trails (Decoder.count t n) (Decoder.count d n) := by
  intro n
  induction n with
  | zero => exact Trails.pure []
  | succ n ih => exact h.bind fun a _ => Matched.bind ih fun as _ => Trails.pure (a :: as)

theorem scalar_trails (n : Nat) : Trails (streamScalar n) (paddedScalar n) := by
  refine Or.inl ⟨List.replicate n 0, rfl, ?_⟩
  show Except.ok (List.take n [] ++ List.replicate (n - 0) 0, List.drop n []) = _
  rw [List.take_nil, List.drop_nil, List.nil_append, Nat.sub_zero]

/-- A field past the end: its tag is 0, and a monostate has no payload. -/
theorem field_trails (lim : Limits) (nested : Decoder Exn Stream Fields)
    (nested' : Decoder Exn (List UInt8) Fields) :
    Trails (Field.deserialize (streamReader lim) nested)
      (Field.deserialize (paddedReader lim) nested') := by
  refine Matched.bind ((scalar_trails 1).map byteOf) fun type htype => ?_
  obtain ⟨rfl, -⟩ := Prod.mk.inj (Except.ok.inj htype)
  exact Trails.pure Value.monostate

theorem loop_trails (lim : Limits) {readField : Decoder Exn Stream Value}
    {readField' : Decoder Exn (List UInt8) Value} (hf : Trails readField readField') :
    ∀ n dyn, Trails (Dynamic.deserializeLoop (streamReader lim) readField n dyn)
      (Dynamic.deserializeLoop (paddedReader lim) readField' n dyn) := by
  intro n
  induction n with
  | zero => exact fun dyn => Trails.pure dyn
  | succ n ih => exact fun dyn => Matched.bind ((scalar_trails 4).map wordOf) fun key _ =>
      Matched.bind hf fun f _ => ih (insert key f dyn)

end Matched

/-! ## Up to the end -/

section Follows

variable {α β : Type}

/-- `c` says where the input is cut. As long as it is not, the stream decoder `t` and the
decoder over zeros `d` do what `c` does; from there on they go together. -/
structure Follows (c : Decoder Exn (List UInt8) α) (t : Decoder Exn Stream α)
    (d : Decoder Exn (List UInt8) α) : Prop where
  ok : ∀ {s a s'}, c s = .ok (a, s') → t ⟨s, true⟩ = .ok (a, ⟨s', true⟩) ∧ d s = .ok (a, s')
  cut : ∀ {s}, c s = .error payloadCut → Matched (t ⟨s, true⟩) (d s)
  error : ∀ {s e}, c s = .error e → e ≠ payloadCut → Fails (t ⟨s, true⟩)

theorem Follows.lift (r : Except Exn α) :
    Follows (Decoder.lift r) (Decoder.lift r) (Decoder.lift r) := by
  cases r with
  | ok a =>
    refine ⟨fun h => ?_, fun h => ?_, fun h _ => ?_⟩
    · obtain ⟨rfl, rfl⟩ := Prod.mk.inj (Except.ok.inj h)
      exact ⟨rfl, rfl⟩
    · cases h
    · cases h
  | error e =>
    refine ⟨fun h => ?_, fun _ => ?_, fun _ _ => ?_⟩
    · cases h
    · exact Or.inr ⟨Fails.error e, Fails.error e⟩
    · exact Fails.error e

theorem Follows.pure (a : α) : Follows (Pure.pure a) (Pure.pure a) (Pure.pure a) :=
  Follows.lift (.ok a)

/-- Sequencing. What follows a cut need only go together on the values a cut read gives. -/
theorem Follows.bind {c : Decoder Exn (List UInt8) α} {t : Decoder Exn Stream α}
    {d : Decoder Exn (List UInt8) α} {f : α → Decoder Exn (List UInt8) β}
    {g : α → Decoder Exn Stream β} {h : α → Decoder Exn (List UInt8) β} (hp : Follows c t d)
    (hf : ∀ a, Follows (f a) (g a) (h a))
    (htrail : ∀ s a, c s = .error payloadCut → d s = .ok (a, []) → Trails (g a) (h a)) :
    Follows (c >>= f) (t >>= g) (d >>= h) := by
  constructor
  · intro s b s'' hc
    obtain ⟨a, s', hcs, hfs⟩ := bind_eq_ok.mp hc
    obtain ⟨ht, hd⟩ := hp.ok hcs
    rw [bind_ok ht, bind_ok hd]
    exact (hf a).ok hfs
  · intro s hc
    rcases bind_eq_error.mp hc with hcs | ⟨a, s', hcs, hfs⟩
    · exact (hp.cut hcs).bind fun a ha => htrail s a hcs ha
    · obtain ⟨ht, hd⟩ := hp.ok hcs
      rw [bind_ok ht, bind_ok hd]
      exact (hf a).cut hfs
  · intro s e hc he
    rcases bind_eq_error.mp hc with hcs | ⟨a, s', hcs, hfs⟩
    · exact (hp.error hcs he).bind g
    · rw [bind_ok (hp.ok hcs).1]
      exact (hf a).error hfs he

/-- Sequencing where what follows goes together past the end on every value. -/
theorem Follows.bind' {c : Decoder Exn (List UInt8) α} {t : Decoder Exn Stream α}
    {d : Decoder Exn (List UInt8) α} {f : α → Decoder Exn (List UInt8) β}
    {g : α → Decoder Exn Stream β} {h : α → Decoder Exn (List UInt8) β} (hp : Follows c t d)
    (hf : ∀ a, Follows (f a) (g a) (h a)) (htrail : ∀ a, Trails (g a) (h a)) :
    Follows (c >>= f) (t >>= g) (d >>= h) :=
  hp.bind hf fun _ a _ _ => htrail a

theorem Follows.map {c : Decoder Exn (List UInt8) α} {t : Decoder Exn Stream α}
    {d : Decoder Exn (List UInt8) α} (g : α → β) (hp : Follows c t d) :
    Follows (g <$> c) (g <$> t) (g <$> d) :=
  hp.bind' (fun a => Follows.pure (g a)) fun a => Trails.pure (g a)

theorem Follows.count {c : Decoder Exn (List UInt8) α} {t : Decoder Exn Stream α}
    {d : Decoder Exn (List UInt8) α} (hp : Follows c t d) (ht : Trails t d) :
    ∀ n, Follows (Decoder.count c n) (Decoder.count t n) (Decoder.count d n) := by
  intro n
  induction n with
  | zero => exact Follows.pure []
  | succ n ih =>
    refine hp.bind' (fun a => ih.bind' (fun as => Follows.pure (a :: as)) ?_) fun a => ?_
    · exact fun as => Trails.pure (a :: as)
    · exact Matched.bind (ht.count n) fun as _ => Trails.pure (a :: as)

/-! ### The reads -/

theorem scalar_follows (n : Nat) :
    Follows (bufferScalar payloadCut n) (streamScalar n) (paddedScalar n) := by
  have hshort : ∀ {s : List UInt8}, s.length < n →
      bufferScalar payloadCut n s = .error payloadCut := fun h => if_pos h
  have hlong : ∀ {s : List UInt8}, ¬ s.length < n →
      bufferScalar payloadCut n s = .ok (s.take n, s.drop n) := fun h => if_neg h
  constructor
  · intro s a s' hc
    by_cases h : s.length < n
    · rw [hshort h] at hc
      cases hc
    · rw [hlong h] at hc
      obtain ⟨rfl, rfl⟩ := Prod.mk.inj (Except.ok.inj hc)
      constructor
      · show (if s.length < n then _ else _) = _
        rw [if_neg h]
      · show Except.ok (s.take n ++ List.replicate (n - s.length) 0, s.drop n) = _
        rw [Nat.sub_eq_zero_of_le (Nat.le_of_not_lt h), List.replicate_zero, List.append_nil]
  · intro s hc
    by_cases h : s.length < n
    · refine Or.inl ⟨s ++ List.replicate (n - s.length) 0, if_pos h, ?_⟩
      show Except.ok (s.take n ++ List.replicate (n - s.length) 0, s.drop n) = _
      rw [List.take_of_length_le h.le, List.drop_of_length_le h.le]
    · rw [hlong h] at hc
      cases hc
  · intro s e hc he
    by_cases h : s.length < n
    · rw [hshort h] at hc
      exact absurd (Except.error.inj hc).symm he
    · rw [hlong h] at hc
      cases hc

/-- A count is never what the input is cut in: all three readers check it. -/
theorem bufferVarint_not_cut (s : List UInt8) : bufferVarint s ≠ .error payloadCut := by
  intro h
  rcases Leb128.decode_error h with h | ⟨s', h⟩
  · exact absurd h (by decide)
  · cases s' with
    | nil => exact absurd (Except.error.inj h) (by decide)
    | cons b s => cases h

theorem varint_follows : Follows bufferVarint streamVarint paddedVarint := by
  have hstream : (equivalence fun s t => t = (⟨s, true⟩ : Stream)).Rel bufferVarint
      streamVarint := by
    refine Leb128.decode_rel _ ?_ fun s t _ => Fails.error _
    rintro (_ | ⟨b, s⟩) _ rfl
    · exact Fails.error _
    · exact ⟨_, rfl, rfl⟩
  have hpadded : (refinement Eq).Rel bufferVarint paddedVarint := by
    refine Leb128.decode_rel _ ?_ ((refinement Eq).throw _)
    rintro (_ | ⟨b, s⟩) _ rfl
    · trivial
    · exact ⟨_, rfl, rfl⟩
  constructor
  · intro s a s' hc
    have ht := hstream s _ rfl
    have hd := hpadded s _ rfl
    rw [hc] at ht hd
    obtain ⟨_, ht, rfl⟩ := ht
    obtain ⟨_, hd, rfl⟩ := hd
    exact ⟨ht, hd⟩
  · exact fun {s} hc => absurd hc (bufferVarint_not_cut s)
  · intro s e hc _
    have ht := hstream s _ rfl
    rw [hc] at ht
    exact ht

theorem varint_bind_follows {f : UInt64 → Decoder Exn (List UInt8) β}
    {g : UInt64 → Decoder Exn Stream β} {h : UInt64 → Decoder Exn (List UInt8) β}
    (hf : ∀ count, Follows (f count) (g count) (h count)) :
    Follows (bufferVarint >>= f) (streamVarint >>= g) (paddedVarint >>= h) :=
  varint_follows.bind hf fun s _ hc => absurd hc (bufferVarint_not_cut s)

/-- `resize` consumes nothing: the three do the same, and `lengthError` is not a cut. -/
theorem resize_bind_follows {max : Nat} {count : UInt64} {f : Decoder Exn (List UInt8) β}
    {g : Decoder Exn Stream β} {h : Decoder Exn (List UInt8) β} (hf : Follows f g h) :
    Follows (resize max count >>= fun _ => f) (resize max count >>= fun _ => g)
      (resize max count >>= fun _ => h) := by
  unfold resize
  split
  · exact hf
  · exact Follows.lift (.error .lengthError)

theorem streamBulk_eq (n : Nat) : streamBulk n = streamScalar n := by
  unfold streamBulk
  split
  · rfl
  · next h =>
    obtain rfl : n = 0 := by omega
    funext ⟨rest, good⟩
    cases good <;> rfl

theorem string_follows (lim : Limits) :
    Follows (rangeReader payloadCut lim).string (streamReader lim).string
      (paddedReader lim).string := by
  refine varint_bind_follows fun count => ?_
  rw [streamBulk_eq]
  unfold resize
  by_cases h : count.toNat ≤ lim.maxString
  · rw [if_pos h, if_pos h]
    simp only [pure_bind, bind_pure]
    exact scalar_follows count.toNat
  · -- too long to be a string: the buffer decoder looks for the bytes first
    rw [if_neg h, if_neg h]
    refine ⟨fun hc => ?_, fun _ => Or.inr ⟨Fails.error _, Fails.error _⟩, fun _ _ => Fails.error _⟩
    obtain ⟨raw, s', -, hc⟩ := bind_eq_ok.mp hc
    cases hc

theorem words_follows (max : Nat) :
    Follows (bufferWords payloadCut max) (streamWords max) (paddedWords max) :=
  varint_bind_follows fun _ => resize_bind_follows
    (((scalar_follows 4).map wordOf).count ((scalar_trails 4).map wordOf) _)

theorem bools_follows (lim : Limits) :
    Follows (rangeReader payloadCut lim).bools (streamReader lim).bools (paddedReader lim).bools :=
  varint_bind_follows fun _ => resize_bind_follows
    (((scalar_follows 1).map _).count ((scalar_trails 1).map _) _)

theorem bytes_follows (lim : Limits) :
    Follows (rangeReader payloadCut lim).bytes (streamReader lim).bytes
      (paddedReader lim).bytes := by
  refine varint_bind_follows fun count => ?_
  rw [streamBulk_eq]
  exact resize_bind_follows (scalar_follows count.toNat)

/-- A value read from one byte is cut only at the very end, where the byte is zero. -/
theorem byte_cut {γ : Type} {g : List UInt8 → γ} {s : List UInt8} {a : γ} {s' : List UInt8}
    (hc : (g <$> bufferScalar payloadCut 1) s = .error payloadCut)
    (hd : (g <$> paddedScalar 1) s = .ok (a, s')) : a = g [0] := by
  cases s with
  | nil => exact (Prod.mk.inj (Except.ok.inj hd)).1.symm
  | cons b s => cases hc

/-! ### Fields and objects -/

variable {lim : Limits} {c : Decoder Exn (List UInt8) Fields} {t : Decoder Exn Stream Fields}
  {d : Decoder Exn (List UInt8) Fields}

theorem tagged_follows (hn : Follows c t d) : ∀ tag,
    Follows (Field.deserializeTagged (rangeReader payloadCut lim) c tag)
      (Field.deserializeTagged (streamReader lim) t tag)
      (Field.deserializeTagged (paddedReader lim) d tag)
  | 0 => Follows.pure _
  | 1 => ((scalar_follows 4).map _).map _
  | 2 => ((scalar_follows 4).map _).map _
  | 3 => ((scalar_follows 1).map _).map _
  | 4 => ((scalar_follows 4).map _).map _
  | 5 => ((scalar_follows 4).map _).map _
  | 6 => by
    refine Follows.bind ((scalar_follows 1).map _) (fun present => ?_) fun s present hc hd => ?_
    · cases present with
      | true => exact hn.map _
      | false => exact Follows.pure _
    · -- the presence byte is cut: it is read as absent, and the field is null
      obtain rfl : present = false := byte_cut hc hd
      exact Trails.pure _
  | 7 => (string_follows lim).map _
  | 8 => (bools_follows lim).map _
  | 9 => (words_follows _).map _
  | 10 => (words_follows _).map _
  | 11 => (bytes_follows lim).map _
  | _ + 12 => Follows.lift (.error _)

theorem field_follows (hn : Follows c t d) :
    Follows (Field.deserialize (rangeReader payloadCut lim) c)
      (Field.deserialize (streamReader lim) t) (Field.deserialize (paddedReader lim) d) := by
  refine Follows.bind ((scalar_follows 1).map byteOf) (fun type => tagged_follows hn _)
    fun s type hc hd => ?_
  obtain rfl : type = 0 := byte_cut hc hd
  exact Trails.pure Value.monostate

theorem loop_follows (hn : Follows c t d) : ∀ n dyn,
    Follows
      (Dynamic.deserializeLoop (rangeReader payloadCut lim)
        (Field.deserialize (rangeReader payloadCut lim) c) n dyn)
      (Dynamic.deserializeLoop (streamReader lim) (Field.deserialize (streamReader lim) t) n dyn)
      (Dynamic.deserializeLoop (paddedReader lim)
        (Field.deserialize (paddedReader lim) d) n dyn) := by
  intro n
  induction n with
  | zero => exact fun dyn => Follows.pure dyn
  | succ n ih =>
    intro dyn
    have hloop : ∀ dyn', Trails
        (Dynamic.deserializeLoop (streamReader lim) (Field.deserialize (streamReader lim) t) n dyn')
        (Dynamic.deserializeLoop (paddedReader lim)
          (Field.deserialize (paddedReader lim) d) n dyn') :=
      loop_trails lim (field_trails lim t d) n
    refine Follows.bind' ((scalar_follows 4).map wordOf) (fun key => ?_) fun key => ?_
    · exact (field_follows hn).bind' (fun f => ih _) fun f => hloop _
    · exact Matched.bind (field_trails lim t d) fun f _ => hloop _

theorem deserializeWith_follows (hn : Follows c t d) :
    Follows
      (Dynamic.deserializeWith (rangeReader payloadCut lim)
        (Field.deserialize (rangeReader payloadCut lim) c))
      (Dynamic.deserializeWith (streamReader lim) (Field.deserialize (streamReader lim) t))
      (Dynamic.deserializeWith (paddedReader lim) (Field.deserialize (paddedReader lim) d)) :=
  varint_bind_follows fun _ => loop_follows hn _ _

theorem deserializeInstance_follows (reg : Registry μ) : ∀ fuel,
    Follows (deserializeInstance (rangeReader payloadCut lim) reg fuel)
      (deserializeInstance (streamReader lim) reg fuel)
      (deserializeInstance (paddedReader lim) reg fuel) := by
  intro fuel
  induction fuel with
  | zero => exact Follows.lift (.error .outOfFuel)
  | succ fuel ih =>
    exact (deserializeWith_follows ih).bind' (fun dyn => Follows.lift (finishInstance reg dyn))
      fun dyn => Trails.lift (finishInstance reg dyn)

theorem Dynamic.deserialize_follows (lim : Limits) (reg : Registry μ) (fuel : Nat) :
    Follows (Dynamic.deserialize (rangeReader payloadCut lim) reg fuel)
      (Dynamic.deserialize (streamReader lim) reg fuel)
      (Dynamic.deserialize (paddedReader lim) reg fuel) :=
  deserializeWith_follows (deserializeInstance_follows reg fuel)

end Follows

/-! ## The layout pass fails as the decoder does -/

section Skims

variable {α β γ δ : Type}

/-- The layout pass `k` takes the bytes `c` takes. It fails as `c` does, unless `c` failed
on a value it had read; then so does the decoder over zeros. -/
structure Skims (g : α → β) (c : Decoder Exn (List UInt8) α) (k : Decoder Exn (List UInt8) β)
    (d : Decoder Exn (List UInt8) α) : Prop where
  ok : ∀ {s a s'}, c s = .ok (a, s') → k s = .ok (g a, s') ∧ d s = .ok (a, s')
  error : ∀ {s e}, c s = .error e → k s = .error e ∨ Fails (d s)

theorem Skims.bind {g : α → β} {g' : γ → δ} {c : Decoder Exn (List UInt8) α}
    {k : Decoder Exn (List UInt8) β} {d : Decoder Exn (List UInt8) α}
    {f : α → Decoder Exn (List UInt8) γ} {k' : β → Decoder Exn (List UInt8) δ}
    {h : α → Decoder Exn (List UInt8) γ} (hp : Skims g c k d)
    (hf : ∀ a, Skims g' (f a) (k' (g a)) (h a)) : Skims g' (c >>= f) (k >>= k') (d >>= h) := by
  constructor
  · intro s b s'' hc
    obtain ⟨a, s', hcs, hfs⟩ := bind_eq_ok.mp hc
    obtain ⟨hk, hd⟩ := hp.ok hcs
    rw [bind_ok hk, bind_ok hd]
    exact (hf a).ok hfs
  · intro s e hc
    rcases bind_eq_error.mp hc with hcs | ⟨a, s', hcs, hfs⟩
    · rcases hp.error hcs with hk | hd
      · exact Or.inl (bind_error hk k')
      · exact Or.inr (hd.bind h)
    · obtain ⟨hk, hd⟩ := hp.ok hcs
      rw [bind_ok hk, bind_ok hd]
      exact (hf a).error hfs

theorem Skims.pure (g : α → β) (a : α) : Skims g (Pure.pure a) (Pure.pure (g a)) (Pure.pure a) := by
  constructor
  · intro s b s' hc
    obtain ⟨rfl, rfl⟩ := Prod.mk.inj (Except.ok.inj hc)
    exact ⟨rfl, rfl⟩
  · intro s e hc
    cases hc

theorem Skims.throw (g : α → β) (e : Exn) :
    Skims g (MonadExcept.throw e) (MonadExcept.throw e) (MonadExcept.throw e) := by
  constructor
  · intro s b s' hc
    cases hc
  · intro s e' hc
    exact Or.inr (Fails.error e)

variable {c : Decoder Exn (List UInt8) α} {t : Decoder Exn Stream α}
  {d : Decoder Exn (List UInt8) α}

/-- The pass makes the same reads. -/
theorem Follows.skims (h : Follows c t d) : Skims id c c d :=
  ⟨fun hc => ⟨hc, (h.ok hc).2⟩, Or.inl⟩

theorem Follows.skims_map (h : Follows c t d) (v : α → β) :
    Skims (fun _ => ()) (v <$> c) ((fun _ => ()) <$> c) (v <$> d) := by
  show Skims _ (c >>= fun a => Pure.pure (v a)) (c >>= fun _ => Pure.pure ())
    (d >>= fun a => Pure.pure (v a))
  exact h.skims.bind fun a => Skims.pure (fun _ => ()) (v a)

/-- A step that only computes fails without the pass noticing. -/
theorem Skims.finish {k : Decoder Exn (List UInt8) Unit} (h : Skims (fun _ => ()) c k d)
    (r : α → Except Exn β) :
    Skims (fun _ => ()) (c >>= fun a => Decoder.lift (r a)) k
      (d >>= fun a => Decoder.lift (r a)) := by
  constructor
  · intro s b s'' hc
    obtain ⟨a, s', hcs, hr⟩ := bind_eq_ok.mp hc
    obtain ⟨hk, hd⟩ := h.ok hcs
    rw [bind_ok hd]
    cases hra : r a with
    | error e =>
      rw [hra] at hr
      cases hr
    | ok b' =>
      rw [hra] at hr
      obtain ⟨rfl, rfl⟩ := Prod.mk.inj (Except.ok.inj hr)
      exact ⟨hk, rfl⟩
  · intro s e hc
    rcases bind_eq_error.mp hc with hcs | ⟨a, s', hcs, hr⟩
    · exact (h.error hcs).imp id fun hd => hd.bind _
    · right
      rw [bind_ok (h.ok hcs).2]
      cases hra : r a with
      | error e' => exact Fails.error e'
      | ok b' =>
        rw [hra] at hr
        cases hr

end Skims

section Layout

variable {lim : Limits} {c : Decoder Exn (List UInt8) Fields} {k : Decoder Exn (List UInt8) Unit}
  {d : Decoder Exn (List UInt8) Fields}

theorem tagged_skims (hn : Skims (fun _ => ()) c k d) : ∀ tag,
    Skims (fun _ => ()) (Field.deserializeTagged (rangeReader payloadCut lim) c tag)
      (Field.skipTagged (rangeReader payloadCut lim) k tag)
      (Field.deserializeTagged (paddedReader lim) d tag)
  | 0 => Skims.pure _ _
  | 1 => ((scalar_follows 4).map _).skims_map _
  | 2 => ((scalar_follows 4).map _).skims_map _
  | 3 => ((scalar_follows 1).map _).skims_map _
  | 4 => ((scalar_follows 4).map _).skims_map _
  | 5 => ((scalar_follows 4).map _).skims_map _
  | 6 => ((scalar_follows 1).map _).skims.bind fun present => by
    cases present with
    | true =>
      show Skims _ (c >>= fun a => Pure.pure (Value.object a)) k
        (d >>= fun a => Pure.pure (Value.object a))
      exact hn.finish fun a => .ok (Value.object a)
    | false => exact Skims.pure _ _
  | 7 => (string_follows lim).skims_map _
  | 8 => (bools_follows lim).skims_map _
  | 9 => (words_follows _).skims_map _
  | 10 => (words_follows _).skims_map _
  | 11 => (bytes_follows lim).skims_map _
  | _ + 12 => Skims.throw _ _

theorem field_skims (hn : Skims (fun _ => ()) c k d) :
    Skims (fun _ => ()) (Field.deserialize (rangeReader payloadCut lim) c)
      (Field.skip (rangeReader payloadCut lim) k) (Field.deserialize (paddedReader lim) d) :=
  ((scalar_follows 1).map byteOf).skims.bind fun _ => tagged_skims hn _

theorem loop_skims {readField : Decoder Exn (List UInt8) Value}
    {readField' : Decoder Exn (List UInt8) Value} {skipField : Decoder Exn (List UInt8) Unit}
    (hf : Skims (fun _ => ()) readField skipField readField') : ∀ n dyn,
    Skims (fun _ => ())
      (Dynamic.deserializeLoop (rangeReader payloadCut lim) readField n dyn)
      (Dynamic.skipLoop (rangeReader payloadCut lim) skipField n)
      (Dynamic.deserializeLoop (paddedReader lim) readField' n dyn) := by
  intro n
  induction n with
  | zero => exact fun dyn => Skims.pure _ dyn
  | succ n ih =>
    intro dyn
    refine ((scalar_follows 4).map wordOf).skims.bind fun key => ?_
    exact hf.bind fun f => ih (insert key f dyn)

theorem deserializeWith_skims {readField : Decoder Exn (List UInt8) Value}
    {readField' : Decoder Exn (List UInt8) Value} {skipField : Decoder Exn (List UInt8) Unit}
    (hf : Skims (fun _ => ()) readField skipField readField') :
    Skims (fun _ => ()) (Dynamic.deserializeWith (rangeReader payloadCut lim) readField)
      (Dynamic.skipWith (rangeReader payloadCut lim) skipField)
      (Dynamic.deserializeWith (paddedReader lim) readField') :=
  varint_follows.skims.bind fun _ => loop_skims hf _ _

theorem deserializeInstance_skims (reg : Registry μ) : ∀ fuel,
    Skims (fun _ => ()) (deserializeInstance (rangeReader payloadCut lim) reg fuel)
      (Dynamic.skip (rangeReader payloadCut lim) fuel)
      (deserializeInstance (paddedReader lim) reg fuel) := by
  intro fuel
  induction fuel with
  | zero => exact Skims.throw _ _
  | succ fuel ih => exact (deserializeWith_skims (field_skims ih)).finish (finishInstance reg)

theorem Dynamic.deserialize_skims (lim : Limits) (reg : Registry μ) (fuel : Nat) :
    Skims (fun _ => ()) (Dynamic.deserialize (rangeReader payloadCut lim) reg fuel)
      (Dynamic.skip (rangeReader payloadCut lim) (fuel + 1))
      (Dynamic.deserialize (paddedReader lim) reg fuel) :=
  deserializeWith_skims (field_skims (deserializeInstance_skims reg fuel))

end Layout

/-! ## When the decoders agree -/

section Agreement

variable {lim : Limits} {reg : Registry μ} {bytes : List UInt8}

/-- What a short read throws does not change where the buffer decoder fails. -/
theorem rangeReader_related (short short' : Exn) (lim : Limits) :
    (rangeReader short lim).Related (equivalence Eq) (rangeReader short' lim) := by
  have hsame : ∀ {α : Type} (p : Decoder Exn (List UInt8) α), (equivalence Eq).Rel p p := by
    rintro α p s _ rfl
    split
    · next a s' h => exact ⟨s', h, rfl⟩
    · next e h => exact ⟨e, h⟩
  have hscalar : ∀ n, (equivalence Eq).Rel (bufferScalar short n) (bufferScalar short' n) := by
    rintro n s _ rfl
    unfold bufferScalar
    by_cases h : s.length < n
    · rw [if_pos h, if_pos h]
      exact Fails.error _
    · rw [if_neg h, if_neg h]
      exact ⟨_, rfl, rfl⟩
  have hwords : ∀ max, (equivalence Eq).Rel (bufferWords short max) (bufferWords short' max) :=
    fun max => (equivalence Eq).bind (hsame _) fun count => (equivalence Eq).bind (hsame _)
      fun _ => (equivalence Eq).count ((equivalence Eq).map _ (hscalar 4)) _
  exact
    { scalar := hscalar
      varint := hsame _
      string := (equivalence Eq).bind (hsame _) fun count =>
        (equivalence Eq).bind (hscalar _) fun raw => hsame _
      bools := (equivalence Eq).bind (hsame _) fun count => (equivalence Eq).bind (hsame _)
        fun _ => (equivalence Eq).count ((equivalence Eq).map _ (hscalar 1)) _
      int32s := hwords _
      floats := hwords _
      bytes := (equivalence Eq).bind (hsame _) fun count => (equivalence Eq).bind (hsame _)
        fun _ => hscalar _ }

theorem bufferDeserialize_thrown {e : Exn} (h : bufferDeserialize lim reg bytes = .error e) :
    e.Thrown :=
  Dynamic.deserialize_thrown (bufferReader_measured lim) (Nat.le_succ _) h

theorem streamDeserialize_thrown {s : Stream} {e : Exn}
    (h : streamDeserialize lim reg s = .error e) : e.Thrown :=
  Dynamic.deserialize_thrown (streamReader_measured lim) (Nat.le_succ _) h

/-- The bytes can be completed by zeros exactly where the decoder over zeros succeeds. -/
theorem zeroFilled_iff : ZeroFilled lim reg bytes ↔
    ∃ r, Dynamic.deserialize (paddedReader lim) reg (bytes.length + 1) bytes = .ok r := by
  constructor
  · rintro ⟨n, ⟨a, s'⟩, h⟩
    have hseen := Dynamic.deserialize_related (rangeReader_zeroSeen bufferUnderflow lim) reg
      ((withZeros bytes n).length + 1) (withZeros bytes n) bytes ⟨n, rfl⟩
    have h' : Dynamic.deserialize (rangeReader bufferUnderflow lim) reg
        ((withZeros bytes n).length + 1) (withZeros bytes n) = .ok (a, s') := h
    rw [h'] at hseen
    obtain ⟨s, hs, -⟩ := hseen
    refine ⟨(a, s), ?_⟩
    have hle : bytes.length + 1 ≤ (withZeros bytes n).length + 1 := by
      rw [withZeros_length]
      omega
    rw [← hs]
    exact (Dynamic.deserialize_fuel (paddedReader_measured lim) reg hle (Nat.le_succ _)).symm
  · rintro ⟨⟨a, s'⟩, h⟩
    obtain ⟨n, hn⟩ := Dynamic.deserialize_related
      (paddedReader_zeroFilling bufferUnderflow lim) reg (bytes.length + 1) bytes a s' h
    refine ⟨n, _, Dynamic.deserialize_ok_mono ?_ (hn 0)⟩
    show bytes.length + 1 ≤ (withZeros bytes n).length + 1
    rw [withZeros_length]
    omega

/-- Where the buffer decoder fails, agreeing is failing too. -/
theorem decodersAgree_of_fails (hb : Fails (bufferDeserialize lim reg bytes)) :
    DecodersAgree lim reg bytes ↔ Fails (streamDeserialize lim reg ⟨bytes, true⟩) := by
  obtain ⟨e, hb⟩ := hb
  rw [DecodersAgree, hb]
  cases ht : streamDeserialize lim reg ⟨bytes, true⟩ with
  | ok r => exact ⟨False.elim, not_fails_ok r⟩
  | error e' =>
    constructor
    · intro _
      exact Fails.error e'
    · intro _
      exact ⟨bufferDeserialize_thrown hb, streamDeserialize_thrown ht⟩

/-- **Agreement**: the two decoders accept the same inputs with the same objects, except on
the inputs that end inside a value and that zeros complete. On those the buffer decoder
throws and the stream decoder returns the object with the zeros. -/
theorem decodersAgree_iff (lim : Limits) (reg : Registry μ) (bytes : List UInt8) :
    DecodersAgree lim reg bytes ↔ ¬ (CutShort lim bytes ∧ ZeroFilled lim reg bytes) := by
  have hfollows := Dynamic.deserialize_follows lim reg (bytes.length + 1)
  have hskims := Dynamic.deserialize_skims lim reg (bytes.length + 1)
  have hbuffer := Dynamic.deserialize_related (rangeReader_related payloadCut bufferUnderflow lim)
    reg (bytes.length + 1) bytes bytes rfl
  rw [zeroFilled_iff]
  cases hc : Dynamic.deserialize (rangeReader payloadCut lim) reg (bytes.length + 1) bytes with
  | ok r =>
    -- no read is short: both decoders return the object, and the layout is whole
    obtain ⟨a, s'⟩ := r
    rw [hc] at hbuffer
    obtain ⟨_, hb, rfl⟩ := hbuffer
    have hb' : bufferDeserialize lim reg bytes = .ok (a, s') := hb
    have ht : streamDeserialize lim reg ⟨bytes, true⟩ = .ok (a, ⟨s', true⟩) := (hfollows.ok hc).1
    have hk := (hskims.ok hc).1
    constructor
    · rintro - ⟨hcut, -⟩
      rw [CutShort, hk] at hcut
      cases hcut
    · intro _
      rw [DecodersAgree, hb', ht]
  | error e =>
    rw [hc] at hbuffer
    rw [decodersAgree_of_fails hbuffer]
    by_cases he : e = payloadCut
    · subst he
      rcases hfollows.cut hc with ⟨a, ht, hd⟩ | ⟨ht, hd⟩
      · -- a value is cut and zeros complete it: the stream decoder returns them
        have hk := (hskims.error hc).resolve_right (by rw [hd]; exact not_fails_ok _)
        have hs : streamDeserialize lim reg ⟨bytes, true⟩ = .ok (a, ⟨[], false⟩) := ht
        constructor
        · intro hf
          rw [hs] at hf
          exact absurd hf (not_fails_ok _)
        · exact fun h => absurd ⟨hk, _, hd⟩ h
      · constructor
        · rintro - ⟨-, r, hr⟩
          rw [hr] at hd
          exact not_fails_ok _ hd
        · exact fun _ => ht
    · constructor
      · rintro - ⟨hcut, r, hr⟩
        rcases hskims.error hc with hk | hd
        · rw [CutShort, hk] at hcut
          exact he (Except.error.inj hcut)
        · rw [hr] at hd
          exact not_fails_ok _ hd
      · exact fun _ => hfollows.error hc he

end Agreement

/-- An object with an integer field whose payload is cut after its tag: the buffer decoder
throws, the stream decoder returns the object with a zero. -/
theorem decodersAgree_cut :
    ¬ DecodersAgree Sample.limits ([] : Registry Unit) [1, 0, 0, 0, 7, 4] := by
  intro h
  cases h

end Bison
