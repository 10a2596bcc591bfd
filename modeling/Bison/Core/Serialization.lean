import Bison.Lib.Wire
import Bison.Core.Value

/-!
# Serializers and the two deserializers

The byte level of bison_serialization.hpp. What `buffer_serializer` appends for a value is
a byte list here; `stream_serializer` writes the same bytes through it.

The two deserializers are two instances of one interface, `Reader`:

- `bufferReader`: over the bytes left in a range, every read bounds-checked.
- `streamReader`: over a `std::istream`, whose scalar and bulk reads are not checked. The
  stream is the bytes left and whether it is still good; a short `read` stores what there
  is, sets eofbit and failbit, and leaves the rest of the target as it was.

Every `resize` is bounded by what the standard library's container can hold (`Limits`).
-/

namespace Bison

/-- The largest sizes the containers can be resized to (`max_size()` or what memory
allows). -/
structure Limits where
  maxString : Nat
  maxBools : Nat
  maxInt32s : Nat
  maxFloats : Nat
  maxBytes : Nat
  string_lt : maxString < 2 ^ 64 := by decide
  bools_lt : maxBools < 2 ^ 64 := by decide
  int32s_lt : maxInt32s < 2 ^ 64 := by decide
  floats_lt : maxFloats < 2 ^ 64 := by decide
  bytes_lt : maxBytes < 2 ^ 64 := by decide

/-! ## What the serializer appends -/

/-- `write(T)` of a 32-bit scalar: big-endian (bison_serialization.hpp:67). -/
def writeWord (w : UInt32) : List UInt8 :=
  BigEndian.encode 4 w.toNat

/-- `write(bool)`, and one element of a `std::vector<bool>`. -/
def writeBool (b : Bool) : UInt8 := if b then 1 else 0

/-- `write_varint` (bison_serialization.hpp:81). -/
def writeVarint (value : UInt64) : List UInt8 :=
  Leb128.encode value

/-- `write_varint(data.size())`. -/
def writeCount (n : Nat) : List UInt8 :=
  writeVarint (UInt64.ofNat n)

/-- `write(std::string)` and `write(std::vector<uint8_t>)`. -/
def writeBytes (data : List UInt8) : List UInt8 :=
  writeCount data.length ++ data

/-- `write(std::vector<bool>)`: one byte per element. -/
def writeBools (data : List Bool) : List UInt8 :=
  writeCount data.length ++ data.map writeBool

/-- `write(std::vector<T>)` for a 32-bit `T`. -/
def writeWords (data : List UInt32) : List UInt8 :=
  writeCount data.length ++ data.flatMap writeWord

/-! ## The reading interface -/

/-- The operations a deserializer offers to `field::deserialize`. `scalar n` is the raw
bytes of an `n`-byte `read<T>()`; vectors of 32-bit elements are read as words. -/
structure Reader (σ : Type) where
  scalar : Nat → Decoder Exn σ (List UInt8)
  varint : Decoder Exn σ UInt64
  string : Decoder Exn σ (List UInt8)
  bools : Decoder Exn σ (List Bool)
  int32s : Decoder Exn σ (List UInt32)
  floats : Decoder Exn σ (List UInt32)
  bytes : Decoder Exn σ (List UInt8)

/-- The value of a one-byte scalar. -/
def byteOf (raw : List UInt8) : UInt8 := raw.headD 0

/-- The value of a four-byte scalar, after the byte swap. -/
def wordOf (raw : List UInt8) : UInt32 := UInt32.ofNat (BigEndian.decode raw)

namespace Reader

variable {σ : Type} (rd : Reader σ)

/-- `read<unsigned char>()`. -/
def byte : Decoder Exn σ UInt8 := byteOf <$> rd.scalar 1

/-- `read<T>()` for a 32-bit `T`. -/
def word : Decoder Exn σ UInt32 := wordOf <$> rd.scalar 4

/-- `read<bool>()`. -/
def bool : Decoder Exn σ Bool := (fun raw => byteOf raw != 0) <$> rd.scalar 1

end Reader

/-- `data.resize(count)`. -/
def resize {σ : Type} (max : Nat) (count : UInt64) : Decoder Exn σ Unit :=
  if count.toNat ≤ max then pure () else throw .lengthError

/-! ## `buffer_deserializer` -/

section Buffer

def bufferUnderflow : Exn := .runtimeError "buffer_deserializer: buffer underflow"

/-- `read<T>()` of `n` bytes, and the checked bulk copies (bison_serialization.hpp:189);
`short` is thrown where the bytes do not fit the range. -/
def bufferScalar (short : Exn) (n : Nat) : Decoder Exn (List UInt8) (List UInt8) := fun s =>
  if s.length < n then .error short else .ok (s.take n, s.drop n)

/-- `*pos_++` after its bounds check. -/
def bufferNext : Decoder Exn (List UInt8) UInt8
  | [] => .error bufferUnderflow
  | b :: rest => .ok (b, rest)

/-- `read_varint` (bison_serialization.hpp:212). -/
def bufferVarint : Decoder Exn (List UInt8) UInt64 :=
  Leb128.decode bufferNext (.runtimeError "buffer_deserializer: varint too long")

/-- `read(std::vector<T>)` for a 32-bit `T` on a little-endian host. -/
def bufferWords (short : Exn) (max : Nat) : Decoder Exn (List UInt8) (List UInt32) := do
  let count ← bufferVarint
  resize max count
  Decoder.count (wordOf <$> bufferScalar short 4) count.toNat

/-- The reads of `buffer_deserializer`, throwing `short` where a fixed-width value, a string
or an array body does not fit the range. A string is checked against the range before it
is assigned, a vector is resized before its elements are read. -/
def rangeReader (short : Exn) (lim : Limits) : Reader (List UInt8) where
  scalar := bufferScalar short
  varint := bufferVarint
  string := do
    let count ← bufferVarint
    let raw ← bufferScalar short count.toNat
    resize lim.maxString count
    return raw
  bools := do
    let count ← bufferVarint
    resize lim.maxBools count
    Decoder.count ((fun raw => byteOf raw != 0) <$> bufferScalar short 1) count.toNat
  int32s := bufferWords short lim.maxInt32s
  floats := bufferWords short lim.maxFloats
  bytes := do
    let count ← bufferVarint
    resize lim.maxBytes count
    bufferScalar short count.toNat

/-- `buffer_deserializer` (bison_serialization.hpp:157). -/
def bufferReader (lim : Limits) : Reader (List UInt8) :=
  rangeReader bufferUnderflow lim

end Buffer

/-! ## `stream_deserializer` -/

/-- A `std::istream`: the bytes not yet extracted, and whether no error bit is set. -/
structure Stream where
  rest : List UInt8
  good : Bool

section Stream

/-- `in_.read(&data, n)` into zero-initialized storage. On a bad stream nothing is
extracted; a short read stores what is left. -/
def streamScalar (n : Nat) : Decoder Exn Stream (List UInt8) := fun s =>
  if !s.good then .ok (List.replicate n 0, s)
  else if s.rest.length < n then
    .ok (s.rest ++ List.replicate (n - s.rest.length) 0, ⟨[], false⟩)
  else .ok (s.rest.take n, ⟨s.rest.drop n, true⟩)

/-- `in_.get()`, with the throw on `eof` that follows it in `read_varint`. -/
def streamNext : Decoder Exn Stream UInt8 := fun s =>
  match s.good, s.rest with
  | true, b :: rest => .ok (b, ⟨rest, true⟩)
  | _, _ => .error (.runtimeError "stream_deserializer: buffer underflow")

/-- `read_varint` (bison_serialization.hpp:407). -/
def streamVarint : Decoder Exn Stream UInt64 :=
  Leb128.decode streamNext (.runtimeError "stream_deserializer: varint too long")

/-- `if (count > 0) in_.read(data.data(), count)`. -/
def streamBulk (count : Nat) : Decoder Exn Stream (List UInt8) :=
  if count > 0 then streamScalar count else pure []

/-- `read(std::vector<T>)` for a 32-bit `T`. -/
def streamWords (max : Nat) : Decoder Exn Stream (List UInt32) := do
  let count ← streamVarint
  resize max count
  Decoder.count (wordOf <$> streamScalar 4) count.toNat

/-- `stream_deserializer` (bison_serialization.hpp:359). -/
def streamReader (lim : Limits) : Reader Stream where
  scalar := streamScalar
  varint := streamVarint
  string := do
    let count ← streamVarint
    resize lim.maxString count
    streamBulk count.toNat
  bools := do
    let count ← streamVarint
    resize lim.maxBools count
    Decoder.count ((fun raw => byteOf raw != 0) <$> streamScalar 1) count.toNat
  int32s := streamWords lim.maxInt32s
  floats := streamWords lim.maxFloats
  bytes := do
    let count ← streamVarint
    resize lim.maxBytes count
    streamBulk count.toNat

end Stream

/-! ## Reading back what was written

Each buffer read consumes exactly what the matching write appended. -/

section RoundTrip

open Decoder

theorem bufferScalar_reads (short : Exn) (raw : List UInt8) :
    Reads (bufferScalar short raw.length) raw (.ok raw) := by
  intro rest
  show bufferScalar short raw.length (raw ++ rest) = .ok (raw, rest)
  rw [bufferScalar, if_neg (by simp), List.take_left, List.drop_left]

theorem bufferReader_byte (lim : Limits) (b : UInt8) :
    Reads (bufferReader lim).byte [b] (.ok b) :=
  (bufferScalar_reads bufferUnderflow [b]).map byteOf

theorem bufferReader_bool (lim : Limits) (b : Bool) :
    Reads (bufferReader lim).bool [writeBool b] (.ok b) := by
  have h := (bufferScalar_reads bufferUnderflow [writeBool b]).map fun raw => byteOf raw != 0
  cases b <;> exact h

theorem wordOf_writeWord (w : UInt32) : wordOf (writeWord w) = w := by
  have hlt : w.toNat < 256 ^ 4 := w.toNat_lt
  rw [wordOf, writeWord, BigEndian.decode_encode_of_lt hlt, UInt32.ofNat_toNat]

theorem bufferScalar_word (w : UInt32) :
    Reads (wordOf <$> bufferScalar bufferUnderflow 4) (writeWord w) (.ok w) := by
  have h := (bufferScalar_reads bufferUnderflow (writeWord w)).map wordOf
  rw [writeWord, BigEndian.encode_length] at h
  have hw := wordOf_writeWord w
  rw [writeWord] at hw
  rw [writeWord]
  simpa [Except.map, hw] using h

theorem bufferReader_word (lim : Limits) (w : UInt32) :
    Reads (bufferReader lim).word (writeWord w) (.ok w) :=
  bufferScalar_word w

theorem bufferVarint_reads (value : UInt64) :
    Reads bufferVarint (writeVarint value) (.ok value) :=
  Leb128.decode_encode _ (fun _ _ => rfl) value

/-- A count prefix is read back as the count. -/
theorem bufferVarint_count {n : Nat} (h : n < 2 ^ 64) :
    ∃ count : UInt64, count.toNat = n ∧ Reads bufferVarint (writeCount n) (.ok count) :=
  ⟨UInt64.ofNat n, by rw [UInt64.toNat_ofNat']; exact Nat.mod_eq_of_lt h, bufferVarint_reads _⟩

theorem resize_reads {max : Nat} {count : UInt64} (h : count.toNat ≤ max) :
    Reads (resize max count) ([] : List UInt8) (.ok ()) := by
  rw [resize, if_pos h]
  exact Reads.pure ()

/-- A count, a check that does not consume, and a body. -/
theorem counted_reads {α : Type} {n : Nat} (hn : n < 2 ^ 64) {body : List UInt8}
    {p : UInt64 → Decoder Exn (List UInt8) α} {r : Except Exn α}
    (h : ∀ count : UInt64, count.toNat = n → Reads (p count) body r) :
    Reads (bufferVarint >>= p) (writeCount n ++ body) r := by
  obtain ⟨count, hcount, hread⟩ := bufferVarint_count hn
  exact hread.bind_ok (h count hcount)

theorem bufferReader_string {lim : Limits} {s : List UInt8} (h : s.length ≤ lim.maxString) :
    Reads (bufferReader lim).string (writeBytes s) (.ok s) := by
  refine counted_reads (lt_of_le_of_lt h lim.string_lt) fun count hcount => ?_
  have hbody := bufferScalar_reads bufferUnderflow s
  rw [← hcount] at hbody
  have hres : Reads (resize lim.maxString count) ([] : List UInt8) (.ok ()) :=
    resize_reads (by rw [hcount]; exact h)
  have hread := hbody.bind_ok (f := fun raw => resize lim.maxString count >>= fun _ => pure raw)
    (hres.bind_ok (Reads.pure s))
  rwa [List.append_nil, List.append_nil] at hread

theorem bufferReader_bytes {lim : Limits} {v : List UInt8} (h : v.length ≤ lim.maxBytes) :
    Reads (bufferReader lim).bytes (writeBytes v) (.ok v) := by
  refine counted_reads (lt_of_le_of_lt h lim.bytes_lt) fun count hcount => ?_
  have hbody := bufferScalar_reads bufferUnderflow v
  rw [← hcount] at hbody
  exact (resize_reads (by rw [hcount]; exact h)).bind_ok hbody

theorem bufferReader_bools {lim : Limits} {v : List Bool} (h : v.length ≤ lim.maxBools) :
    Reads (bufferReader lim).bools (writeBools v) (.ok v) := by
  refine counted_reads (lt_of_le_of_lt h lim.bools_lt) fun count hcount => ?_
  have hbody := Reads.count (fun b => [writeBool b]) v fun b _ => bufferReader_bool lim b
  rw [← hcount, ← List.map_eq_flatMap] at hbody
  exact (resize_reads (by rw [hcount]; exact h)).bind_ok hbody

theorem bufferWords_reads {max : Nat} {v : List UInt32} (hmax : max < 2 ^ 64)
    (h : v.length ≤ max) : Reads (bufferWords bufferUnderflow max) (writeWords v) (.ok v) := by
  refine counted_reads (lt_of_le_of_lt h hmax) fun count hcount => ?_
  have hbody := Reads.count writeWord v fun w _ => bufferScalar_word w
  rw [← hcount] at hbody
  exact (resize_reads (by rw [hcount]; exact h)).bind_ok hbody

end RoundTrip

end Bison
