import Bison.Lib.Leb128

/-!
# Protobuf messages

A walk over the bytes of a message whose fields are varints, 64-bit words, texts and messages
within messages. Bytes and messages have the same wire type, so a schema says which fields are
messages.

- `walk`: the fields of a message, if the bytes are consumed exactly.
- `Walks`: what the bytes are walked as, however much fuel there is. `Walks.varint`,
  `Walks.fixed64`, `Walks.text` and `Walks.message` put a field in front of the others.
-/

namespace Protobuf

/-- A field with its number and its value. -/
inductive Node where
  | varint (number value : Nat)
  | fixed64 (number bits : Nat)
  | text (number : Nat) (content : List UInt8)
  | message (number : Nat) (fields : List Node)
  deriving Repr

/-- The fields that are messages, each with its own schema. -/
inductive Schema where
  | mk (messages : List (Nat × Schema))

/-- The schema of a field, if it is a message. -/
def Schema.message? : Schema → Nat → Option Schema
  | mk messages, number => (messages.find? (·.1 == number)).map Prod.snd

/-- What follows a tag, by the wire type. -/
inductive Payload where
  | varint (value : Nat)
  | fixed64 (bits : Nat)
  | delimited (content : List UInt8)
  deriving Repr, DecidableEq

/-- A base-128 number of any length, and the bytes behind it. -/
def readVarint : List UInt8 → Option (Nat × List UInt8)
  | [] => none
  | b :: rest =>
    if b.toNat < 128 then some (b.toNat, rest)
    else (readVarint rest).map fun (n, rest) => (b.toNat % 128 + 128 * n, rest)

/-- The first `n` bytes, if there are as many, and the bytes behind them. -/
def readBytes (n : Nat) (bytes : List UInt8) : Option (List UInt8 × List UInt8) :=
  if n ≤ bytes.length then some (bytes.take n, bytes.drop n) else none

/-- The number of some bytes, the lowest one first. -/
def littleEndian : List UInt8 → Nat
  | [] => 0
  | b :: bytes => b.toNat + 256 * littleEndian bytes

/-- The payload of a wire type. -/
def readPayload (wireType : Nat) (bytes : List UInt8) : Option (Payload × List UInt8) :=
  match wireType with
  | 0 => (readVarint bytes).map fun (n, rest) => (.varint n, rest)
  | 1 => (readBytes 8 bytes).map fun (word, rest) => (.fixed64 (littleEndian word), rest)
  | 2 => do
    let (n, rest) ← readVarint bytes
    let (content, rest) ← readBytes n rest
    return (.delimited content, rest)
  | _ => none

/-- A tag and its payload: the number of the field, the payload, and the bytes behind it. -/
def readField (bytes : List UInt8) : Option (Nat × Payload × List UInt8) := do
  let (tag, rest) ← readVarint bytes
  let (payload, rest) ← readPayload (tag % 8) rest
  return (tag / 8, payload, rest)

/-- A field of a message whose schema is known. `inner` walks the messages within it. -/
def nodeOf (inner : Schema → List UInt8 → Option (List Node)) (schema : Schema) (number : Nat) :
    Payload → Option Node
  | .varint value => some (.varint number value)
  | .fixed64 bits => some (.fixed64 number bits)
  | .delimited content =>
    match schema.message? number with
    | none => some (.text number content)
    | some sub => (inner sub content).map (.message number)

/-- The fields of a message. The walk fails where the bytes do not end with a field. -/
def walk : Nat → Schema → List UInt8 → Option (List Node)
  | 0, _, bytes => if bytes = [] then some [] else none
  | fuel + 1, schema, bytes =>
    if bytes = [] then some []
    else do
      let (number, payload, rest) ← readField bytes
      let node ← nodeOf (walk fuel) schema number payload
      let nodes ← walk fuel schema rest
      return node :: nodes

/-! ## Reading -/

section Reading

variable {bytes tag rest : List UInt8} {n number : Nat}

theorem readVarint_encodes (h : Leb128.Encodes bytes n) (rest : List UInt8) :
    readVarint (bytes ++ rest) = some (n, rest) := by
  induction h with
  | last hb => rw [List.singleton_append, readVarint, if_pos hb]
  | more hb _ ih => rw [List.cons_append, readVarint, if_neg (Nat.not_lt.2 hb), ih]; rfl

theorem readBytes_append (content rest : List UInt8) :
    readBytes content.length (content ++ rest) = some (content, rest) := by
  rw [readBytes, if_pos (by simp), List.take_left, List.drop_left]

/-- Bytes that are the base-256 digits of a number. -/
theorem littleEndian_eq {x : Nat} (h : ∀ i (hi : i < bytes.length), bytes[i].toNat =
    x / 256 ^ i % 256) : littleEndian bytes = x % 256 ^ bytes.length := by
  induction bytes generalizing x with
  | nil => rw [littleEndian, List.length_nil, Nat.pow_zero, Nat.mod_one]
  | cons b bytes ih =>
    have hlow : b.toNat = x % 256 := by simpa using h 0 (Nat.succ_pos _)
    have hhigh := ih (x := x / 256) fun i hi => by
      have hi := h (i + 1) (Nat.succ_lt_succ hi)
      rwa [List.getElem_cons_succ, Nat.pow_succ, Nat.mul_comm, ← Nat.div_div_eq_div_mul] at hi
    rw [littleEndian, hlow, hhigh, List.length_cons, Nat.pow_succ, Nat.mul_comm _ 256, Nat.mod_mul]

/-- A field whose payload is read. -/
theorem readField_of {payload : Payload} {wireType : Nat}
    (htag : Leb128.Encodes tag (number * 8 + wireType)) (hwire : wireType < 8)
    (hpayload : readPayload wireType bytes = some (payload, rest)) :
    readField (tag ++ bytes) = some (number, payload, rest) := by
  have hmod : (number * 8 + wireType) % 8 = wireType := by omega
  have hdiv : (number * 8 + wireType) / 8 = number := by omega
  rw [readField, readVarint_encodes htag]
  simp only [Option.bind_eq_bind, Option.bind_some]
  rw [hmod, hpayload, Option.bind_some, hdiv]
  rfl

theorem readPayload_varint {value : List UInt8} (h : Leb128.Encodes value n)
    (rest : List UInt8) : readPayload 0 (value ++ rest) = some (.varint n, rest) := by
  rw [readPayload, readVarint_encodes h]
  rfl

theorem readPayload_fixed64 {word : List UInt8} (h : word.length = 8) (rest : List UInt8) :
    readPayload 1 (word ++ rest) = some (.fixed64 (littleEndian word), rest) := by
  rw [readPayload, ← h, readBytes_append]
  rfl

theorem readPayload_delimited {size content : List UInt8}
    (h : Leb128.Encodes size content.length) (rest : List UInt8) :
    readPayload 2 (size ++ (content ++ rest)) = some (.delimited content, rest) := by
  rw [readPayload, readVarint_encodes h]
  simp only [Option.bind_eq_bind, Option.bind_some]
  rw [readBytes_append]
  rfl

end Reading

/-! ## Walking -/

/-- The bytes are walked as these fields. -/
def Walks (schema : Schema) (nodes : List Node) (bytes : List UInt8) : Prop :=
  ∀ fuel, bytes.length ≤ fuel → walk fuel schema bytes = some nodes

namespace Walks

variable {schema sub : Schema} {nodes inner : List Node} {tag bytes : List UInt8} {number : Nat}

theorem nil : Walks schema [] [] := by
  intro fuel _
  cases fuel <;> rfl

/-- One step of the walk, over a field that ends in front of the bytes. -/
theorem cons {field : List UInt8} {node : Node} (payload : Payload) (hne : field ≠ [])
    (hfield : readField (field ++ bytes) = some (number, payload, bytes))
    (hnode : ∀ fuel, field.length ≤ fuel + 1 →
      nodeOf (walk fuel) schema number payload = some node)
    (h : Walks schema nodes bytes) : Walks schema (node :: nodes) (field ++ bytes) := by
  intro fuel hfuel
  have hpos := List.length_pos_of_ne_nil hne
  rw [List.length_append] at hfuel
  obtain ⟨fuel, rfl⟩ : ∃ fuel', fuel = fuel' + 1 := ⟨fuel - 1, by omega⟩
  rw [walk, if_neg (List.append_ne_nil_of_left_ne_nil hne bytes), hfield]
  simp only [Option.bind_eq_bind, Option.bind_some]
  rw [hnode fuel (by omega), Option.bind_some, h fuel (by omega)]
  rfl

theorem encodes_append_ne_nil {n : Nat} (h : Leb128.Encodes tag n) (rest : List UInt8) :
    tag ++ rest ≠ [] :=
  List.append_ne_nil_of_left_ne_nil (List.ne_nil_of_length_pos h.length_pos) rest

theorem varint {value : List UInt8} {n : Nat} (htag : Leb128.Encodes tag (number * 8 + 0))
    (hvalue : Leb128.Encodes value n) (h : Walks schema nodes bytes) :
    Walks schema (.varint number n :: nodes) (tag ++ value ++ bytes) := by
  refine cons (.varint n) (encodes_append_ne_nil htag value) ?_ (fun _ _ => rfl) h
  rw [List.append_assoc]
  exact readField_of htag (by decide) (readPayload_varint hvalue bytes)

theorem fixed64 {word : List UInt8} (htag : Leb128.Encodes tag (number * 8 + 1))
    (hword : word.length = 8) (h : Walks schema nodes bytes) :
    Walks schema (.fixed64 number (littleEndian word) :: nodes) (tag ++ word ++ bytes) := by
  refine cons (.fixed64 _) (encodes_append_ne_nil htag word) ?_ (fun _ _ => rfl) h
  rw [List.append_assoc]
  exact readField_of htag (by decide) (readPayload_fixed64 hword bytes)

/-- The bytes of a text or of a message behind their tag and their number. -/
theorem readField_delimited {size content : List UInt8}
    (htag : Leb128.Encodes tag (number * 8 + 2)) (hsize : Leb128.Encodes size content.length) :
    readField (tag ++ (size ++ content) ++ bytes) = some (number, .delimited content, bytes) := by
  rw [List.append_assoc, List.append_assoc]
  exact readField_of htag (by decide) (readPayload_delimited hsize bytes)

theorem text {size content : List UInt8} (htext : schema.message? number = none)
    (htag : Leb128.Encodes tag (number * 8 + 2)) (hsize : Leb128.Encodes size content.length)
    (h : Walks schema nodes bytes) :
    Walks schema (.text number content :: nodes) (tag ++ (size ++ content) ++ bytes) := by
  refine cons (.delimited content) (encodes_append_ne_nil htag _)
    (readField_delimited htag hsize) (fun fuel _ => ?_) h
  rw [nodeOf, htext]

/-- A message within a message, walked by its own schema. -/
theorem message {size content : List UInt8} (hsub : schema.message? number = some sub)
    (htag : Leb128.Encodes tag (number * 8 + 2)) (hsize : Leb128.Encodes size content.length)
    (hinner : Walks sub inner content) (h : Walks schema nodes bytes) :
    Walks schema (.message number inner :: nodes) (tag ++ (size ++ content) ++ bytes) := by
  refine cons (.delimited content) (encodes_append_ne_nil htag _)
    (readField_delimited htag hsize) (fun fuel hfuel => ?_) h
  have htagpos := htag.length_pos
  have hsizepos := hsize.length_pos
  rw [List.length_append, List.length_append] at hfuel
  rw [nodeOf, hsub]
  exact congrArg (Option.map _) (hinner fuel (by omega))

end Walks

end Protobuf
