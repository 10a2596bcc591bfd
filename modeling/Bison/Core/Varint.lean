import Bison.Core.Serialization
import Bison.Lib.Leb128

/-!
# Varints

`write_varint` and the two `read_varint`s of bison_serialization.hpp against the encoding that
FORMAT.md describes: groups of seven bits, low group first, in at most ten bytes, of a number below
2^64.

- `bufferVarint_source`, `streamVarint_source`: where the bytes of either reader come from.
- `varint_codec_iff`: **main result**, both readers read exactly these encodings, and reject
  everything else, but for a tenth group of more than one bit, whose other bits they drop. What
  `write_varint` writes is the shortest encoding, and is read back whatever follows.
- `varint_drops_bits`: a number of 70 bits is read as one of 64.
-/

namespace Bison

open Leb128

/-- A stream in which the bytes are still to come. -/
def Stream.of (bytes : List UInt8) : Stream := ⟨bytes, true⟩

theorem bufferVarint_source : Source bufferNext id := ⟨fun _ _ => rfl, bufferUnderflow, rfl⟩

theorem streamVarint_source : Source streamNext Stream.of := ⟨fun _ _ => rfl, _, rfl⟩

/-- Both readers read exactly the encodings of 64-bit numbers. -/
def ReadsVarints (bytes : List UInt8) : Prop :=
  Conforms bufferVarint id bytes ∧ Conforms streamVarint Stream.of bytes

/-- The shortest encoding is written, and both readers read it back. -/
def WritesVarints (value : UInt64) : Prop :=
  (Encodes (writeVarint value) value.toNat ∧ (writeVarint value).length ≤ 10 ∧
    ∀ bytes, Encodes bytes value.toNat → (writeVarint value).length ≤ bytes.length) ∧
  ∀ rest, bufferVarint (writeVarint value ++ rest) = .ok (value, rest) ∧
    streamVarint (.of (writeVarint value ++ rest)) = .ok (value, .of rest)

/-- A written number has its last group in at most ten bytes, so it is never overfull. -/
theorem writeVarint_not_overfull (value : UInt64) (rest : List UInt8) :
    ¬ Overfull (writeVarint value ++ rest) := by
  intro hfull
  obtain ⟨init, rest', n, heq, hn, -, hlarge⟩ := hfull.encodes
  obtain ⟨-, rfl, -⟩ := (encode_encodes value).unique hn heq
  have := value.toNat_lt
  omega

theorem writesVarints (value : UInt64) : WritesVarints value := by
  refine ⟨⟨encode_encodes value, encode_length_le value, fun _ => encode_shortest⟩,
    fun rest => ⟨?_, ?_⟩⟩
  · exact ((conforms_iff _ bufferVarint_source _).2 (writeVarint_not_overfull value rest) _ _).2
      ⟨_, rest, rfl, rfl, encode_encodes value, encode_length_le value⟩
  · exact ((conforms_iff _ streamVarint_source _).2 (writeVarint_not_overfull value rest) _ _).2
      ⟨_, rest, rfl, rfl, encode_encodes value, encode_length_le value⟩

/-- **Main result**: writing is the shortest encoding and reading undoes it, and reading is exact
unless nine groups go on and the tenth and last one has more than one bit. -/
theorem varint_codec_iff (value : UInt64) (bytes : List UInt8) :
    WritesVarints value ∧ (ReadsVarints bytes ↔ ¬ Overfull bytes) := by
  refine ⟨writesVarints value, ?_⟩
  unfold ReadsVarints
  rw [bufferVarint, streamVarint, conforms_iff _ bufferVarint_source,
    conforms_iff _ streamVarint_source, and_self_iff]

/-- Ten groups of ones are seventy bits, of which six are dropped. -/
theorem varint_drops_bits :
    bufferVarint (List.replicate 9 0xff ++ [0x7f]) = .ok (0xffffffffffffffff, []) ∧
      ¬ ReadsVarints (List.replicate 9 0xff ++ [0x7f]) := by
  refine ⟨by decide +kernel, fun h => (conforms_iff _ bufferVarint_source _).1 h.1 ?_⟩
  exact ⟨List.replicate 9 0xff, 0x7f, [], rfl, rfl, by decide +kernel, by decide, by decide⟩

end Bison
