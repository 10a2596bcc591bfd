import Bison.Lib.Protobuf
import Bison.Core.Serialization

/-!
# Trace packets

The encoders of bison_perfetto.cpp, which build nested protobuf messages from the inside out,
against the fields that FORMAT.md documents.

- `Packet.encode`: the five encoders with their arguments.
- `Packet.node`: the fields of a packet, given which names are left out.
- `trace_walks`: **main result**, the bytes of any packets are walked as their fields, where the
  name of an event is left out for the end of a slice and where it is empty.
- `trace_empty_name`: the documented fields have an empty name, too.
-/

namespace Bison.Perfetto

open Protobuf

/-! ## Fields -/

def kWireVarint : UInt64 := 0
def kWireFixed64 : UInt64 := 1
def kWireLengthDelimited : UInt64 := 2

def kTracePacketTimestamp : UInt64 := 8
def kTracePacketTrustedSequenceId : UInt64 := 10
def kTracePacketTrackEvent : UInt64 := 11
def kTracePacketTrackDescriptor : UInt64 := 60

def kTrackEventType : UInt64 := 9
def kTrackEventTrackUuid : UInt64 := 11
def kTrackEventName : UInt64 := 23
def kTrackEventCounterValue : UInt64 := 30
def kTrackEventDoubleCounterValue : UInt64 := 44

def kTrackDescriptorUuid : UInt64 := 1
def kTrackDescriptorName : UInt64 := 2
def kTrackDescriptorCounter : UInt64 := 8

def kCounterDescriptorUnit : UInt64 := 3

/-- `tag` (bison_perfetto.cpp:44). -/
def tag (fieldNumber wireType : UInt64) : UInt64 := (fieldNumber <<< 3) ||| wireType

/-- `write_length_delimited` (bison_perfetto.cpp:55). -/
def writeLengthDelimited (fieldNumber : UInt64) (payload : List UInt8) : List UInt8 :=
  writeVarint (tag fieldNumber kWireLengthDelimited) ++ writeBytes payload

/-- `write_varint_field` (bison_perfetto.cpp:65). -/
def writeVarintField (fieldNumber value : UInt64) : List UInt8 :=
  writeVarint (tag fieldNumber kWireVarint) ++ writeVarint value

/-- `le_bytes`: the bytes of a word, the lowest one first. -/
def leBytes (bits : UInt64) : List UInt8 :=
  (List.range 8).map fun i => (bits >>> UInt64.ofNat (8 * i)).toUInt8

/-- `write_fixed64_field` (bison_perfetto.cpp:78), for the bits of the number. -/
def writeFixed64Field (fieldNumber bits : UInt64) : List UInt8 :=
  writeVarint (tag fieldNumber kWireFixed64) ++ leBytes bits

/-- `frame_trace_packet` (bison_perfetto.cpp:93). -/
def frameTracePacket (packetBody : List UInt8) : List UInt8 := writeLengthDelimited 1 packetBody

/-! ## Packets -/

/-- `event_type`. -/
inductive EventType where
  | unspecified
  | sliceBegin
  | sliceEnd
  | instant
  | counter
  deriving DecidableEq, Repr

def EventType.value : EventType → UInt64
  | unspecified => 0
  | sliceBegin => 1
  | sliceEnd => 2
  | instant => 3
  | counter => 4

/-- `counter_unit`. -/
inductive CounterUnit where
  | unspecified
  | timeNs
  | count
  | sizeBytes
  deriving DecidableEq, Repr

def CounterUnit.value : CounterUnit → UInt64
  | unspecified => 0
  | timeNs => 1
  | count => 2
  | sizeBytes => 3

/-- A `std::string_view`, which is in memory. -/
structure Name where
  text : List UInt8
  bounded : text.length < 2 ^ 63

/-- What the encoders share: the packet around an event or a descriptor. -/
def tracePacket (timestampNs : UInt64) (trustedPacketSequenceId : UInt32) (fieldNumber : UInt64)
    (content : List UInt8) : List UInt8 :=
  frameTracePacket <|
    writeVarintField kTracePacketTimestamp timestampNs ++
    (writeVarintField kTracePacketTrustedSequenceId trustedPacketSequenceId.toUInt64 ++
    writeLengthDelimited fieldNumber content)

/-- `encode_track_event_packet` (bison_perfetto.cpp:102). -/
def encodeTrackEventPacket (timestampNs : UInt64) (trustedPacketSequenceId : UInt32)
    (trackUuid : UInt64) (type : EventType) (name : Name) : List UInt8 :=
  tracePacket timestampNs trustedPacketSequenceId kTracePacketTrackEvent <|
    writeVarintField kTrackEventType type.value ++
    (writeVarintField kTrackEventTrackUuid trackUuid ++
    if type ≠ .sliceEnd ∧ name.text ≠ [] then writeLengthDelimited kTrackEventName name.text
    else [])

/-- `encode_track_descriptor_packet` (bison_perfetto.cpp:119). -/
def encodeTrackDescriptorPacket (timestampNs : UInt64) (trustedPacketSequenceId : UInt32)
    (trackUuid : UInt64) (trackName : Name) : List UInt8 :=
  tracePacket timestampNs trustedPacketSequenceId kTracePacketTrackDescriptor <|
    writeVarintField kTrackDescriptorUuid trackUuid ++
    writeLengthDelimited kTrackDescriptorName trackName.text

/-- `encode_counter_track_descriptor_packet` (bison_perfetto.cpp:133). -/
def encodeCounterTrackDescriptorPacket (timestampNs : UInt64) (trustedPacketSequenceId : UInt32)
    (trackUuid : UInt64) (trackName : Name) (unit : CounterUnit) : List UInt8 :=
  tracePacket timestampNs trustedPacketSequenceId kTracePacketTrackDescriptor <|
    writeVarintField kTrackDescriptorUuid trackUuid ++
    (writeLengthDelimited kTrackDescriptorName trackName.text ++
    if unit ≠ .unspecified then
      writeLengthDelimited kTrackDescriptorCounter
        (writeVarintField kCounterDescriptorUnit unit.value)
    else [])

/-- `encode_counter_event_packet` (bison_perfetto.cpp:153). -/
def encodeCounterEventPacket (timestampNs : UInt64) (trustedPacketSequenceId : UInt32)
    (trackUuid : UInt64) (value : Int64) : List UInt8 :=
  tracePacket timestampNs trustedPacketSequenceId kTracePacketTrackEvent <|
    writeVarintField kTrackEventType EventType.counter.value ++
    (writeVarintField kTrackEventTrackUuid trackUuid ++
    writeVarintField kTrackEventCounterValue value.toUInt64)

/-- `encode_double_counter_event_packet` (bison_perfetto.cpp:167), for the bits of the number. -/
def encodeDoubleCounterEventPacket (timestampNs : UInt64) (trustedPacketSequenceId : UInt32)
    (trackUuid bits : UInt64) : List UInt8 :=
  tracePacket timestampNs trustedPacketSequenceId kTracePacketTrackEvent <|
    writeVarintField kTrackEventType EventType.counter.value ++
    (writeVarintField kTrackEventTrackUuid trackUuid ++
    writeFixed64Field kTrackEventDoubleCounterValue bits)

/-- What a packet carries. -/
inductive Content where
  | trackEvent (type : EventType) (name : Name)
  | trackDescriptor (name : Name)
  | counterTrackDescriptor (name : Name) (unit : CounterUnit)
  | counterEvent (value : Int64)
  | doubleCounterEvent (bits : UInt64)

/-- A call of one of the encoders. -/
structure Packet where
  timestampNs : UInt64
  trustedPacketSequenceId : UInt32
  trackUuid : UInt64
  content : Content

def Packet.encode : Packet → List UInt8
  | ⟨ts, seq, uuid, .trackEvent type name⟩ => encodeTrackEventPacket ts seq uuid type name
  | ⟨ts, seq, uuid, .trackDescriptor name⟩ => encodeTrackDescriptorPacket ts seq uuid name
  | ⟨ts, seq, uuid, .counterTrackDescriptor name unit⟩ =>
    encodeCounterTrackDescriptorPacket ts seq uuid name unit
  | ⟨ts, seq, uuid, .counterEvent value⟩ => encodeCounterEventPacket ts seq uuid value
  | ⟨ts, seq, uuid, .doubleCounterEvent bits⟩ => encodeDoubleCounterEventPacket ts seq uuid bits

/-! ## The documented messages -/

/-- The messages of a trace, level by level (FORMAT.md 7.2). -/
def counterDescriptorSchema : Schema := .mk []
def trackDescriptorSchema : Schema := .mk [(8, counterDescriptorSchema)]
def trackEventSchema : Schema := .mk []
def tracePacketSchema : Schema := .mk [(11, trackEventSchema), (60, trackDescriptorSchema)]
def traceSchema : Schema := .mk [(1, tracePacketSchema)]

/-- The `TrackEvent` or the `TrackDescriptor` of a packet. An `int64` has the value of its two's
complement. `omits` says which names of events are left out. -/
def Content.node (omits : EventType → List UInt8 → Bool) (trackUuid : UInt64) :
    Content → Protobuf.Node
  | .trackEvent type name => .message 11
    ([.varint 9 type.value.toNat, .varint 11 trackUuid.toNat] ++
      if omits type name.text then [] else [.text 23 name.text])
  | .trackDescriptor name => .message 60 [.varint 1 trackUuid.toNat, .text 2 name.text]
  | .counterTrackDescriptor name unit => .message 60
    ([.varint 1 trackUuid.toNat, .text 2 name.text] ++
      if unit = .unspecified then [] else [.message 8 [.varint 3 unit.value.toNat]])
  | .counterEvent value => .message 11
    [.varint 9 4, .varint 11 trackUuid.toNat, .varint 30 (value.toInt % 2 ^ 64).toNat]
  | .doubleCounterEvent bits => .message 11
    [.varint 9 4, .varint 11 trackUuid.toNat, .fixed64 44 bits.toNat]

/-- The `TracePacket` as an occurrence of `Trace.packet`. -/
def Packet.node (omits : EventType → List UInt8 → Bool) (p : Packet) : Protobuf.Node :=
  .message 1 [.varint 8 p.timestampNs.toNat, .varint 10 p.trustedPacketSequenceId.toNat,
    p.content.node omits p.trackUuid]

/-- The names that FORMAT.md leaves out: those of the ends of slices. -/
def documentedOmits (type : EventType) (_ : List UInt8) : Bool := type = .sliceEnd

/-- The names that the encoder leaves out. -/
def encoderOmits (type : EventType) (name : List UInt8) : Bool := type = .sliceEnd ∨ name = []

/-! ## Fields are walked -/

section Fields

variable {schema sub : Schema} {nodes inner : List Protobuf.Node} {bytes : List UInt8}
  {number : UInt64}

theorem toNat_tag {wireType : UInt64} (hnumber : number.toNat < 2 ^ 32)
    (hwire : wireType.toNat < 8) :
    (tag number wireType).toNat = number.toNat * 8 + wireType.toNat := by
  have hshift : (number <<< 3).toNat = number.toNat <<< 3 := by
    rw [UInt64.toNat_shiftLeft, Nat.mod_eq_of_lt]
    · rfl
    · rw [Nat.shiftLeft_eq]
      exact (Nat.mul_lt_mul_of_pos_right hnumber (by decide)).trans (by decide)
  rw [tag, UInt64.toNat_or, hshift, ← Nat.shiftLeft_add_eq_or_of_lt hwire, Nat.shiftLeft_eq]

theorem encodes_tag {wireType : UInt64} (hnumber : number.toNat < 2 ^ 32)
    (hwire : wireType.toNat < 8) :
    Leb128.Encodes (writeVarint (tag number wireType)) (number.toNat * 8 + wireType.toNat) := by
  rw [← toNat_tag hnumber hwire]
  exact Leb128.encode_encodes _

theorem encodes_count {n : Nat} (h : n < 2 ^ 64) : Leb128.Encodes (writeCount n) n := by
  have hn : (UInt64.ofNat n).toNat = n := UInt64.toNat_ofNat_of_lt' h
  have hencodes := Leb128.encode_encodes (UInt64.ofNat n)
  rwa [hn] at hencodes

theorem walks_varintField (hnumber : number.toNat < 2 ^ 32) (value : UInt64)
    (h : Walks schema nodes bytes) :
    Walks schema (.varint number.toNat value.toNat :: nodes)
      (writeVarintField number value ++ bytes) :=
  .varint (encodes_tag hnumber (by decide)) (Leb128.encode_encodes value) h

theorem length_leBytes (bits : UInt64) : (leBytes bits).length = 8 := by
  rw [leBytes, List.length_map, List.length_range]

theorem littleEndian_leBytes (bits : UInt64) : littleEndian (leBytes bits) = bits.toNat := by
  have hbytes (i : Nat) (hi : i < (leBytes bits).length) :
      (leBytes bits)[i].toNat = bits.toNat / 256 ^ i % 256 := by
    rw [length_leBytes] at hi
    have hshift : (UInt64.ofNat (8 * i)).toNat = 8 * i :=
      UInt64.toNat_ofNat_of_lt' (show 8 * i < 2 ^ 64 by omega)
    have hpow : 256 ^ i = 2 ^ (8 * i) := by rw [Nat.pow_mul]
    simp only [leBytes, List.getElem_map, List.getElem_range]
    rw [UInt64.toNat_toUInt8, UInt64.toNat_shiftRight, hshift,
      Nat.mod_eq_of_lt (show 8 * i < 64 by omega), Nat.shiftRight_eq_div_pow, hpow]
  rw [littleEndian_eq hbytes, length_leBytes]
  exact Nat.mod_eq_of_lt bits.toNat_lt

theorem walks_fixed64Field (hnumber : number.toNat < 2 ^ 32) (bits : UInt64)
    (h : Walks schema nodes bytes) :
    Walks schema (.fixed64 number.toNat bits.toNat :: nodes)
      (writeFixed64Field number bits ++ bytes) := by
  have htag := @encodes_tag number kWireFixed64 hnumber (by decide)
  have hfield := Walks.fixed64 htag (length_leBytes bits) h
  rwa [littleEndian_leBytes] at hfield

theorem walks_text (hnumber : number.toNat < 2 ^ 32) (htext : schema.message? number.toNat = none)
    {payload : List UInt8} (hpayload : payload.length < 2 ^ 64) (h : Walks schema nodes bytes) :
    Walks schema (.text number.toNat payload :: nodes)
      (writeLengthDelimited number payload ++ bytes) :=
  .text htext (encodes_tag hnumber (by decide)) (encodes_count hpayload) h

theorem walks_message (hnumber : number.toNat < 2 ^ 32)
    (hsub : schema.message? number.toNat = some sub) {payload : List UInt8}
    (hpayload : payload.length < 2 ^ 64) (hinner : Walks sub inner payload)
    (h : Walks schema nodes bytes) :
    Walks schema (.message number.toNat inner :: nodes)
      (writeLengthDelimited number payload ++ bytes) :=
  .message hsub (encodes_tag hnumber (by decide)) (encodes_count hpayload) hinner h

end Fields

/-! ## Lengths -/

theorem length_varintField_le (number value : UInt64) :
    (writeVarintField number value).length ≤ 20 := by
  have htag := Leb128.encode_length_le (tag number kWireVarint)
  have hvalue := Leb128.encode_length_le value
  rw [writeVarintField, List.length_append]
  exact Nat.add_le_add htag hvalue

theorem length_fixed64Field_le (number bits : UInt64) :
    (writeFixed64Field number bits).length ≤ 18 := by
  have htag := Leb128.encode_length_le (tag number kWireFixed64)
  rw [writeFixed64Field, List.length_append, length_leBytes]
  exact Nat.add_le_add_right htag 8

theorem length_lengthDelimited_le (number : UInt64) (payload : List UInt8) :
    (writeLengthDelimited number payload).length ≤ 20 + payload.length := by
  have htag := Leb128.encode_length_le (tag number kWireLengthDelimited)
  have hcount := Leb128.encode_length_le (UInt64.ofNat payload.length)
  rw [writeLengthDelimited, writeBytes, List.length_append, List.length_append, ← Nat.add_assoc]
  exact Nat.add_le_add_right (Nat.add_le_add htag hcount) _

/-! ## Packets are walked -/

section Packets

variable {nodes inner : List Protobuf.Node} {sub : Schema} {bytes content : List UInt8}

/-- The packet around an event or a descriptor. -/
theorem walks_tracePacket {number : UInt64} (hnumber : number.toNat < 2 ^ 32)
    (hsub : tracePacketSchema.message? number.toNat = some sub)
    (hcontent : content.length < 2 ^ 63 + 2 ^ 62) (hinner : Walks sub inner content)
    (timestampNs : UInt64) (trustedPacketSequenceId : UInt32) (h : Walks traceSchema nodes bytes) :
    Walks traceSchema
      (.message 1 [.varint 8 timestampNs.toNat, .varint 10 trustedPacketSequenceId.toNat,
        .message number.toNat inner] :: nodes)
      (tracePacket timestampNs trustedPacketSequenceId number content ++ bytes) := by
  have hmessage := walks_message hnumber hsub (by omega) hinner Walks.nil
  rw [List.append_nil] at hmessage
  have hsequence := @walks_varintField _ _ _ kTracePacketTrustedSequenceId (by decide)
    trustedPacketSequenceId.toUInt64 hmessage
  have hbody := @walks_varintField _ _ _ kTracePacketTimestamp (by decide) timestampNs hsequence
  have htimestamp := length_varintField_le kTracePacketTimestamp timestampNs
  have hid := length_varintField_le kTracePacketTrustedSequenceId trustedPacketSequenceId.toUInt64
  have hlength := length_lengthDelimited_le number content
  refine @walks_message traceSchema _ _ _ _ 1 (by decide) rfl _ ?_ hbody h
  rw [List.length_append, List.length_append]
  omega

/-- The fields that every event has. -/
theorem walks_event {tail : List UInt8} (type : EventType) (trackUuid : UInt64)
    (h : Walks trackEventSchema nodes tail) :
    Walks trackEventSchema (.varint 9 type.value.toNat :: .varint 11 trackUuid.toNat :: nodes)
      (writeVarintField kTrackEventType type.value ++
        (writeVarintField kTrackEventTrackUuid trackUuid ++ tail)) := by
  have huuid := @walks_varintField _ _ _ kTrackEventTrackUuid (by decide) trackUuid h
  exact @walks_varintField _ _ _ kTrackEventType (by decide) type.value huuid

theorem length_event_le {tail : List UInt8} (type : EventType) (trackUuid : UInt64) :
    (writeVarintField kTrackEventType type.value ++
      (writeVarintField kTrackEventTrackUuid trackUuid ++ tail)).length ≤ 40 + tail.length := by
  have htype := length_varintField_le kTrackEventType type.value
  have huuid := length_varintField_le kTrackEventTrackUuid trackUuid
  rw [List.length_append, List.length_append]
  omega

/-- The fields that every descriptor has. -/
theorem walks_descriptor {tail : List UInt8} (trackUuid : UInt64) (name : Name)
    (h : Walks trackDescriptorSchema nodes tail) :
    Walks trackDescriptorSchema (.varint 1 trackUuid.toNat :: .text 2 name.text :: nodes)
      (writeVarintField kTrackDescriptorUuid trackUuid ++
        (writeLengthDelimited kTrackDescriptorName name.text ++ tail)) := by
  have hlength : name.text.length < 2 ^ 64 := name.bounded.trans (by decide)
  have hname := @walks_text _ _ _ kTrackDescriptorName (by decide) rfl _ hlength h
  exact @walks_varintField _ _ _ kTrackDescriptorUuid (by decide) trackUuid hname

theorem length_descriptor_le {tail : List UInt8} (trackUuid : UInt64) (name : Name) :
    (writeVarintField kTrackDescriptorUuid trackUuid ++
      (writeLengthDelimited kTrackDescriptorName name.text ++ tail)).length ≤
        40 + name.text.length + tail.length := by
  have huuid := length_varintField_le kTrackDescriptorUuid trackUuid
  have hname := length_lengthDelimited_le kTrackDescriptorName name.text
  rw [List.length_append, List.length_append]
  omega

/-- The name of an event, where it is written. -/
theorem walks_eventName (type : EventType) (name : Name) :
    Walks trackEventSchema (if encoderOmits type name.text then [] else [.text 23 name.text])
      (if type ≠ .sliceEnd ∧ name.text ≠ [] then writeLengthDelimited kTrackEventName name.text
        else []) := by
  have homits : encoderOmits type name.text = true ↔ ¬ (type ≠ .sliceEnd ∧ name.text ≠ []) := by
    rw [encoderOmits, decide_eq_true_iff, not_and_or, not_not, not_not]
  by_cases hwritten : type ≠ .sliceEnd ∧ name.text ≠ []
  · rw [if_pos hwritten, if_neg fun h => homits.1 h hwritten]
    have hlength : name.text.length < 2 ^ 64 := name.bounded.trans (by decide)
    have hname := @walks_text _ _ _ kTrackEventName (by decide) rfl _ hlength
      (@Walks.nil trackEventSchema)
    rwa [List.append_nil] at hname
  · rw [if_neg hwritten, if_pos (homits.2 hwritten)]
    exact Walks.nil

theorem length_eventName_le (type : EventType) (name : Name) :
    (if type ≠ .sliceEnd ∧ name.text ≠ [] then writeLengthDelimited kTrackEventName name.text
      else []).length ≤ 20 + name.text.length := by
  split_ifs
  · exact length_lengthDelimited_le kTrackEventName name.text
  · exact Nat.zero_le _

/-- The unit of a counter, unless it has none. -/
theorem walks_counterUnit (unit : CounterUnit) :
    Walks trackDescriptorSchema
      (if unit = .unspecified then [] else [.message 8 [.varint 3 unit.value.toNat]])
      (if unit ≠ .unspecified then
        writeLengthDelimited kTrackDescriptorCounter
          (writeVarintField kCounterDescriptorUnit unit.value)
      else []) := by
  by_cases hunit : unit = .unspecified
  · rw [if_pos hunit, if_neg (not_not.2 hunit)]
    exact Walks.nil
  · rw [if_neg hunit, if_pos hunit]
    have hvalue := @walks_varintField _ _ _ kCounterDescriptorUnit (by decide) unit.value
      (@Walks.nil counterDescriptorSchema)
    have hlength := length_varintField_le kCounterDescriptorUnit unit.value
    rw [List.append_nil] at hvalue
    have hcounter := @walks_message _ _ _ _ _ kTrackDescriptorCounter (by decide) rfl _
      (by omega) hvalue (@Walks.nil trackDescriptorSchema)
    rwa [List.append_nil] at hcounter

theorem length_counterUnit_le (unit : CounterUnit) :
    (if unit ≠ .unspecified then
      writeLengthDelimited kTrackDescriptorCounter
        (writeVarintField kCounterDescriptorUnit unit.value)
      else []).length ≤ 40 := by
  have hvalue := length_varintField_le kCounterDescriptorUnit unit.value
  have hcounter := length_lengthDelimited_le kTrackDescriptorCounter
    (writeVarintField kCounterDescriptorUnit unit.value)
  split_ifs
  · omega
  · exact Nat.zero_le _

/-- The value of a counter is its two's complement. -/
theorem toNat_toUInt64 (value : Int64) :
    value.toUInt64.toNat = (value.toInt % 2 ^ 64).toNat := by
  have hbits : BitVec.ofInt 64 value.toInt = value.toBitVec := BitVec.ofInt_toInt
  have hnat := congrArg BitVec.toNat hbits
  rw [BitVec.toNat_ofInt] at hnat
  exact hnat.symm

/-- One packet in front of others, whichever encoder has written it. -/
theorem walks_packet (p : Packet) (h : Walks traceSchema nodes bytes) :
    Walks traceSchema (p.node encoderOmits :: nodes) (p.encode ++ bytes) := by
  obtain ⟨ts, seq, uuid, content⟩ := p
  -- in each, the message inside is short enough for a length that a walk can read
  cases content with
  | trackEvent type name =>
    have hbounded := name.bounded
    have hlength := length_eventName_le type name
    refine @walks_tracePacket _ _ _ _ _ kTracePacketTrackEvent (by decide) rfl ?_
      (walks_event type uuid (walks_eventName type name)) ts seq h
    exact (length_event_le type uuid).trans_lt (by omega)
  | trackDescriptor name =>
    have hbounded := name.bounded
    have hdescriptor := walks_descriptor uuid name Walks.nil
    have hlength := @length_descriptor_le [] uuid name
    rw [List.append_nil] at hdescriptor hlength
    exact @walks_tracePacket _ _ _ _ _ kTracePacketTrackDescriptor (by decide) rfl
      (hlength.trans_lt (by rw [List.length_nil]; omega)) hdescriptor ts seq h
  | counterTrackDescriptor name unit =>
    have hbounded := name.bounded
    have hlength := length_counterUnit_le unit
    refine @walks_tracePacket _ _ _ _ _ kTracePacketTrackDescriptor (by decide) rfl ?_
      (walks_descriptor uuid name (walks_counterUnit unit)) ts seq h
    exact (length_descriptor_le uuid name).trans_lt (by omega)
  | counterEvent value =>
    have hvalue := @walks_varintField _ _ _ kTrackEventCounterValue (by decide) value.toUInt64
      (@Walks.nil trackEventSchema)
    have hlength := length_varintField_le kTrackEventCounterValue value.toUInt64
    rw [List.append_nil, toNat_toUInt64 value] at hvalue
    exact @walks_tracePacket _ _ _ _ _ kTracePacketTrackEvent (by decide) rfl
      ((length_event_le .counter uuid).trans_lt (by omega)) (walks_event .counter uuid hvalue)
      ts seq h
  | doubleCounterEvent bits =>
    have hvalue := @walks_fixed64Field _ _ _ kTrackEventDoubleCounterValue (by decide) bits
      (@Walks.nil trackEventSchema)
    have hlength := length_fixed64Field_le kTrackEventDoubleCounterValue bits
    rw [List.append_nil] at hvalue
    exact @walks_tracePacket _ _ _ _ _ kTracePacketTrackEvent (by decide) rfl
      ((length_event_le .counter uuid).trans_lt (by omega)) (walks_event .counter uuid hvalue)
      ts seq h

/-- **Main result**: the bytes of any packets, one after the other, are walked as the fields of the
packets, to their end. Names are left out for the ends of slices and where they are empty. -/
theorem trace_walks (packets : List Packet) :
    Walks traceSchema (packets.map (Packet.node encoderOmits)) (packets.flatMap Packet.encode) := by
  induction packets with
  | nil => exact Walks.nil
  | cons p packets ih => exact walks_packet p ih

/-- An empty name of an event, which is not among those that are documented to be left out. -/
theorem trace_empty_name : ¬ ∀ packets : List Packet,
    Walks traceSchema (packets.map (Packet.node documentedOmits))
      (packets.flatMap Packet.encode) := by
  intro h
  have hwalk := walks_packet ⟨1, 1, 1, .trackEvent .sliceBegin ⟨[], by decide⟩⟩
    (@Walks.nil traceSchema) _ (Nat.le_refl _)
  have hdocumented := h [⟨1, 1, 1, .trackEvent .sliceBegin ⟨[], by decide⟩⟩] _ (Nat.le_refl _)
  rw [List.flatMap_cons, List.flatMap_nil, hwalk] at hdocumented
  simp [Packet.node, Content.node, documentedOmits, encoderOmits] at hdocumented

end Packets

end Bison.Perfetto
