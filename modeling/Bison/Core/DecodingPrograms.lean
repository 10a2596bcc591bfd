import Bison.Core.Readers
import Bison.Core.RegistryLock

/-!
# Decoding by programs of any kind

`dynamic::deserialize` and `deserializeWithSchema` once more, over reads that are programs of any
kind: programs that report what they do, besides decoders, which forget it where they fail.

- `ReadsOf`: the reads, and where a container is resized or a loop over fields begins.
- `ReadsOf.decode`: decoding over them, in either format.
- `ReadsOf.Related`, `decode_related`: what relates the reads relates decoding.
- `decode_standard`, `decode_schema`: over the reads of a deserializer it is decoding.
- `bufferReads_thrown`: decoding a range returns or throws.
-/

namespace Leb128

variable {m m' : Type → Type} [Monad m] [Monad m'] {ε σ : Type}

/-- `decodeLoop` over programs of any kind. -/
def decodeLoopIn (next : m UInt8) (tooLong : m UInt64) : Nat → UInt64 → UInt64 → m UInt64
  | 0, _, _ => tooLong
  | fuel + 1, shift, result => do
    let byte ← next
    let result := addGroup result shift byte
    if byte &&& 0x80 = 0 then pure result
    else
      let shift := shift + 7
      if shift ≥ 64 then tooLong
      else decodeLoopIn next tooLong fuel shift result

def decodeIn (next : m UInt8) (tooLong : m UInt64) : m UInt64 :=
  decodeLoopIn next tooLong maxGroups 0 0

theorem decodeIn_related {R : MonadRelation m m'} {next : m UInt8} {next' : m' UInt8}
    {tooLong : m UInt64} {tooLong' : m' UInt64} (hnext : R.Rel next next')
    (hlong : R.Rel tooLong tooLong') : R.Rel (decodeIn next tooLong) (decodeIn next' tooLong') := by
  have hloop : ∀ fuel shift result, R.Rel (decodeLoopIn next tooLong fuel shift result)
      (decodeLoopIn next' tooLong' fuel shift result) := by
    intro fuel
    induction fuel with
    | zero => exact fun _ _ => hlong
    | succ fuel ih =>
      intro shift result
      refine R.bind hnext fun byte => ?_
      by_cases hend : byte &&& 0x80 = 0
      · simp only [if_pos hend]
        exact R.pure _
      · simp only [if_neg hend]
        by_cases hfull : shift + 7 ≥ 64
        · simp only [if_pos hfull]
          exact hlong
        · simp only [if_neg hfull]
          exact ih _ _
  exact hloop _ _ _

theorem decodeIn_decoder (next : Decoder ε σ UInt8) (tooLong : ε) :
    decodeIn next (Decoder.lift (.error tooLong)) = decode next tooLong := by
  have hloop : ∀ fuel shift result,
      decodeLoopIn next (Decoder.lift (.error tooLong)) fuel shift result =
        decodeLoop next tooLong fuel shift result := by
    intro fuel
    induction fuel with
    | zero => exact fun _ _ => rfl
    | succ fuel ih =>
      intro shift result
      unfold decodeLoopIn decodeLoop
      simp only [ih]
      rfl
  exact hloop _ _ _

end Leb128

namespace Bison

open SortedMap

variable {μ σ : Type} {m m' : Type → Type}

/-- The reads of a deserializer, as programs of any kind. -/
structure ReadsOf (m : Type → Type) where
  /-- `read<T>()` of so many bytes. -/
  scalar : Nat → m (List UInt8)
  /-- A byte of a varint. -/
  next : m UInt8
  /-- What is thrown where a varint does not end. -/
  tooLong : Exn
  /-- `data.resize(count)`, for elements of so many bytes, where the container holds `max`. -/
  resize (width max : Nat) (count : UInt64) : m Unit
  /-- What `read(std::string)` does with the count. -/
  text (max : Nat) (count : UInt64) : m (List UInt8)
  /-- The elements of a `std::vector<uint8_t>`. -/
  block : UInt64 → m (List UInt8)
  /-- The loop over so many fields begins. -/
  loop : UInt64 → m Unit
  /-- What reads nothing. -/
  lift : ∀ {β : Type}, Except Exn β → m β

/-- The two formats. -/
inductive WireFormat where
  | standard
  | schema

def countIn [Monad m] {α : Type} (p : m α) : Nat → m (List α)
  | 0 => pure []
  | n + 1 => do
    let a ← p
    let as ← countIn p n
    return a :: as

namespace ReadsOf

section Definitions

variable [Monad m] (rd : ReadsOf m) (lim : Limits)

def byte : m UInt8 := do return byteOf (← rd.scalar 1)

def word : m UInt32 := do return wordOf (← rd.scalar 4)

def bool : m Bool := do return byteOf (← rd.scalar 1) != 0

def varint : m UInt64 := Leb128.decodeIn rd.next (rd.lift (.error rd.tooLong))

/-- `read(std::string)`. -/
def string : m (List UInt8) := do
  let count ← rd.varint
  rd.text lim.maxString count

/-- `read(std::vector<T>)`, element by element. -/
def vector {α : Type} (width max : Nat) (element : m α) : m (List α) := do
  let count ← rd.varint
  rd.resize width max count
  countIn element count.toNat

/-- `read(std::vector<uint8_t>)`. -/
def bytes : m (List UInt8) := do
  let count ← rd.varint
  rd.resize 1 lim.maxBytes count
  rd.block count

/-- The switch of `field::deserialize` (bison_object.hpp:2044). -/
def tagged (nested : m Fields) : Nat → m Value
  | 0 => pure .monostate
  | 1 => do return .hash (← rd.word)
  | 2 => do return .key (← rd.word)
  | 3 => do return .bool (← rd.bool)
  | 4 => do return .int32 (← rd.word).toInt32
  | 5 => do return .float (← rd.word)
  | 6 => do
    let present ← rd.bool
    if present then return .object (← nested) else return .null
  | 7 => do return .string (← rd.string lim)
  | 8 => do return .bools (← rd.vector 1 lim.maxBools rd.bool)
  | 9 => do return .int32s ((← rd.vector 4 lim.maxInt32s rd.word).map UInt32.toInt32)
  | 10 => do return .floats (← rd.vector 4 lim.maxFloats rd.word)
  | 11 => do return .bytes (← rd.bytes lim)
  | _ => rd.lift (.error (.runtimeError "Not implemented"))

/-- `field::deserialize`. -/
def field (nested : m Fields) : m Value := do
  let type ← rd.byte
  rd.tagged lim nested type.toNat

/-- The loop of `dynamic::deserialize`. -/
def fieldsLoop (readField : m Value) : Nat → Fields → m Fields
  | 0, dyn => pure dyn
  | n + 1, dyn => do
    let key ← rd.word
    let f ← readField
    fieldsLoop readField n (insert key f dyn)

/-- `dynamic::deserialize`, given how a field is read. -/
def fields (readField : m Value) : m Fields := do
  let count ← rd.varint
  rd.loop count
  rd.fieldsLoop readField count.toNat Dynamic.empty

/-- `dynamic::deserialize_instance`; the fuel bounds the nesting depth. -/
def nestedInstance (reg : Registry μ) : Nat → m Fields
  | 0 => rd.lift (.error .outOfFuel)
  | fuel + 1 => do
    let dyn ← rd.fields (rd.field lim (nestedInstance reg fuel))
    rd.lift (finishInstance reg dyn)

/-- The fields of the classes of a chain, from `klass` on. -/
def chainLoop (readField : m Value) (col : Collection μ) : Nat → Key → Fields → m Fields
  | 0, _, _ => rd.lift (.error .outOfFuel)
  | fuel + 1, klass, dyn =>
    match Collection.find col klass with
    | none => pure dyn
    | some p => do
      let dyn ← readDeclaredIn readField p.fields dyn
      chainLoop readField col fuel p.parent dyn

/-- `dynamic::deserialize` (bison_object.hpp:2127) and `dynamic::deserializeWithSchema`
(bison_object.hpp:2151). -/
def decode (reg : Registry μ) (fuel : Nat) : WireFormat → m Fields
  | .standard => rd.fields (rd.field lim (rd.nestedInstance lim reg fuel))
  | .schema => do
    let ns ← rd.word
    let klass ← rd.word
    match reg.lookup ns with
    | none => pure Dynamic.empty
    | some col =>
      rd.chainLoop (rd.field lim (rd.nestedInstance lim reg fuel)) col fuel klass Dynamic.empty

end Definitions

/-! ## Related reads -/

/-- Every read of one deserializer is related to that of the other. The scalars have at most four
bytes. -/
structure Related [Monad m] [Monad m'] (R : MonadRelation m m') (lim : Limits) (rd : ReadsOf m)
    (rd' : ReadsOf m') : Prop where
  scalar : ∀ {n}, 1 ≤ n → n ≤ 4 → R.Rel (rd.scalar n) (rd'.scalar n)
  next : R.Rel rd.next rd'.next
  tooLong : R.Rel (rd.lift (.error rd.tooLong) : m UInt64) (rd'.lift (.error rd'.tooLong))
  resize : ∀ width max count, R.Rel (rd.resize width max count) (rd'.resize width max count)
  text : ∀ count, R.Rel (rd.text lim.maxString count) (rd'.text lim.maxString count)
  block : ∀ count, R.Rel (do rd.resize 1 lim.maxBytes count; rd.block count)
    (do rd'.resize 1 lim.maxBytes count; rd'.block count)
  loop : ∀ count, R.Rel (rd.loop count) (rd'.loop count)
  lift : ∀ {β : Type} (r : Except Exn β), R.Rel (rd.lift r) (rd'.lift r)

namespace Related

variable [Monad m] [Monad m'] {R : MonadRelation m m'} {lim : Limits} {rd : ReadsOf m}
  {rd' : ReadsOf m'}

/-- Reads whose values are used alike. -/
theorem after {α β : Type} {p : m α} {q : m' α} (hp : R.Rel p q) (f : α → β) :
    R.Rel (do return f (← p)) (do return f (← q)) :=
  R.bind hp fun a => R.pure (f a)

theorem count {α : Type} {p : m α} {q : m' α} (hp : R.Rel p q) :
    ∀ n, R.Rel (countIn p n) (countIn q n)
  | 0 => R.pure []
  | n + 1 => R.bind hp fun _ => after (count hp n) _

theorem byte (h : rd.Related R lim rd') : R.Rel rd.byte rd'.byte :=
  after (h.scalar (by decide) (by decide)) _

theorem word (h : rd.Related R lim rd') : R.Rel rd.word rd'.word :=
  after (h.scalar (by decide) (by decide)) _

theorem bool (h : rd.Related R lim rd') : R.Rel rd.bool rd'.bool :=
  after (h.scalar (by decide) (by decide)) _

theorem varint (h : rd.Related R lim rd') : R.Rel rd.varint rd'.varint :=
  Leb128.decodeIn_related h.next h.tooLong

theorem string (h : rd.Related R lim rd') : R.Rel (rd.string lim) (rd'.string lim) :=
  R.bind h.varint fun count => h.text count

theorem vector (h : rd.Related R lim rd') {α : Type} (width max : Nat) {p : m α} {q : m' α}
    (hp : R.Rel p q) : R.Rel (rd.vector width max p) (rd'.vector width max q) :=
  R.bind h.varint fun n => R.bind (h.resize width max n) fun _ => count hp n.toNat

theorem bytes (h : rd.Related R lim rd') : R.Rel (rd.bytes lim) (rd'.bytes lim) :=
  R.bind h.varint fun n => h.block n

theorem tagged (h : rd.Related R lim rd') {nested : m Fields} {nested' : m' Fields}
    (hn : R.Rel nested nested') :
    ∀ tag, R.Rel (rd.tagged lim nested tag) (rd'.tagged lim nested' tag)
  | 0 => R.pure _
  | 1 => after h.word _
  | 2 => after h.word _
  | 3 => after h.bool _
  | 4 => after h.word _
  | 5 => after h.word _
  | 6 => R.bind h.bool fun present => by
    cases present with
    | true => exact after hn _
    | false => exact R.pure _
  | 7 => after h.string _
  | 8 => after (h.vector 1 _ h.bool) _
  | 9 => after (h.vector 4 _ h.word) _
  | 10 => after (h.vector 4 _ h.word) _
  | 11 => after h.bytes _
  | _ + 12 => h.lift _

theorem field (h : rd.Related R lim rd') {nested : m Fields} {nested' : m' Fields}
    (hn : R.Rel nested nested') : R.Rel (rd.field lim nested) (rd'.field lim nested') :=
  R.bind h.byte fun type => h.tagged hn type.toNat

theorem fieldsLoop (h : rd.Related R lim rd') {readField : m Value} {readField' : m' Value}
    (hf : R.Rel readField readField') : ∀ (n : Nat) (dyn : Fields),
      R.Rel (rd.fieldsLoop readField n dyn) (rd'.fieldsLoop readField' n dyn)
  | 0, dyn => R.pure dyn
  | n + 1, _ => R.bind h.word fun _ => R.bind hf fun _ => h.fieldsLoop hf n _

theorem fields (h : rd.Related R lim rd') {readField : m Value} {readField' : m' Value}
    (hf : R.Rel readField readField') : R.Rel (rd.fields readField) (rd'.fields readField') :=
  R.bind h.varint fun count => R.bind (h.loop count) fun _ => h.fieldsLoop hf count.toNat _

theorem nestedInstance (h : rd.Related R lim rd') (reg : Registry μ) :
    ∀ fuel, R.Rel (rd.nestedInstance lim reg fuel) (rd'.nestedInstance lim reg fuel)
  | 0 => h.lift _
  | fuel + 1 => R.bind (h.fields (h.field (h.nestedInstance reg fuel))) fun _ => h.lift _

theorem chainLoop (h : rd.Related R lim rd') {readField : m Value} {readField' : m' Value}
    (hf : R.Rel readField readField') (col : Collection μ) (fuel : Nat) : ∀ (klass : Key)
      (dyn : Fields), R.Rel (rd.chainLoop readField col fuel klass dyn)
        (rd'.chainLoop readField' col fuel klass dyn) := by
  induction fuel with
  | zero => exact fun _ _ => h.lift _
  | succ fuel ih =>
    intro klass dyn
    unfold ReadsOf.chainLoop
    cases Collection.find col klass with
    | none => exact R.pure dyn
    | some p => exact R.bind (readDeclaredIn_related hf _ dyn) fun dyn => ih _ dyn

end Related

/-- **Lifting**: related reads decode related trees. -/
theorem decode_related [Monad m] [Monad m'] {R : MonadRelation m m'} {lim : Limits} {rd : ReadsOf m}
    {rd' : ReadsOf m'} (h : rd.Related R lim rd') (reg : Registry μ) (fuel : Nat) :
    ∀ format, R.Rel (rd.decode lim reg fuel format) (rd'.decode lim reg fuel format)
  | .standard => h.fields (h.field (h.nestedInstance reg fuel))
  | .schema => by
    refine R.bind h.word fun ns => R.bind h.word fun klass => ?_
    cases reg.lookup ns with
    | none => exact R.pure _
    | some col => exact h.chainLoop (h.field (h.nestedInstance reg fuel)) col fuel klass _

/-! ## Decoders -/

section Decoders

/-- The deserializer with these reads. -/
def reader (rd : ReadsOf (Decoder Exn σ)) (lim : Limits) : Reader σ where
  scalar := rd.scalar
  varint := rd.varint
  string := rd.string lim
  bools := rd.vector 1 lim.maxBools rd.bool
  int32s := rd.vector 4 lim.maxInt32s rd.word
  floats := rd.vector 4 lim.maxFloats rd.word
  bytes := rd.bytes lim

variable {rd : ReadsOf (Decoder Exn σ)} {lim : Limits}
  (hlift : ∀ {β : Type} (r : Except Exn β), rd.lift r = Decoder.lift r)

include hlift

theorem field_decoder (nested : Decoder Exn σ Fields) :
    rd.field lim nested = Field.deserialize (rd.reader lim) nested := by
  refine congrArg (rd.byte >>= ·) (funext fun type => ?_)
  have htagged : ∀ tag, rd.tagged lim nested tag =
      Field.deserializeTagged (rd.reader lim) nested tag := by
    intro tag
    match tag with
    | 0 | 1 | 2 | 3 | 4 | 5 | 7 | 8 | 9 | 10 | 11 => rfl
    | 6 =>
      refine congrArg (rd.bool >>= ·) (funext fun present => ?_)
      cases present <;> rfl
    | _ + 12 => exact hlift _
  exact htagged type.toNat

omit hlift in
theorem fields_decoder (lim : Limits) (hloop : ∀ count, rd.loop count = pure ())
    (readField : Decoder Exn σ Value) :
    rd.fields readField = Dynamic.deserializeWith (rd.reader lim) readField := by
  have hfields : ∀ n dyn, rd.fieldsLoop readField n dyn =
      Dynamic.deserializeLoop (rd.reader lim) readField n dyn := by
    intro n
    induction n with
    | zero => exact fun dyn => rfl
    | succ n ih =>
      intro dyn
      unfold ReadsOf.fieldsLoop Dynamic.deserializeLoop
      simp only [ih]
      rfl
  refine congrArg (rd.varint >>= ·) (funext fun count => ?_)
  rw [hloop, hfields]
  rfl

variable (hloop : ∀ count, rd.loop count = pure ())

include hloop

theorem nestedInstance_decoder (reg : Registry μ) (fuel : Nat) :
    rd.nestedInstance lim reg fuel = deserializeInstance (rd.reader lim) reg fuel := by
  induction fuel with
  | zero => exact hlift _
  | succ fuel ih =>
    unfold ReadsOf.nestedInstance deserializeInstance
    rw [ih, field_decoder hlift, fields_decoder lim hloop]
    exact congrArg _ (funext fun dyn => hlift _)

/-- Over the reads of a deserializer, this is how it decodes. -/
theorem decode_standard (reg : Registry μ) (fuel : Nat) :
    rd.decode lim reg fuel .standard = Dynamic.deserialize (rd.reader lim) reg fuel := by
  unfold ReadsOf.decode Dynamic.deserialize
  rw [nestedInstance_decoder hlift hloop, field_decoder hlift, fields_decoder lim hloop]

omit hloop in
theorem chainLoop_decoder (readField : Decoder Exn σ Value) (col : Collection μ) (fuel : Nat) :
    ∀ klass dyn, rd.chainLoop readField col fuel klass dyn =
      schemaLoop readField col fuel klass dyn := by
  induction fuel with
  | zero => exact fun klass dyn => hlift _
  | succ fuel ih =>
    intro klass dyn
    unfold ReadsOf.chainLoop schemaLoop
    cases Collection.find col klass with
    | none => rfl
    | some p => simp only [readDeclaredIn_decoder, ih]

theorem decode_schema (reg : Registry μ) (fuel : Nat) :
    rd.decode lim reg fuel .schema = Dynamic.deserializeWithSchema (rd.reader lim) reg fuel := by
  unfold ReadsOf.decode Dynamic.deserializeWithSchema
  refine congrArg (rd.word >>= ·) (funext fun ns => ?_)
  refine congrArg (rd.word >>= ·) (funext fun klass => ?_)
  cases reg.lookup ns with
  | none => rfl
  | some col =>
    show rd.chainLoop _ col fuel klass _ = schemaLoop _ col fuel klass _
    rw [nestedInstance_decoder hlift hloop, field_decoder hlift, chainLoop_decoder hlift]

end Decoders

end ReadsOf

/-! ## The two deserializers -/

section Deserializers

theorem countIn_decoder {ε α : Type} (p : Decoder ε σ α) : ∀ n, countIn p n = Decoder.count p n
  | 0 => rfl
  | n + 1 => by
    unfold countIn Decoder.count
    rw [countIn_decoder p n]

/-- The reads of `buffer_deserializer`. -/
def bufferReads : ReadsOf (Decoder Exn (List UInt8)) where
  scalar := bufferScalar bufferUnderflow
  next := bufferNext
  tooLong := .runtimeError "buffer_deserializer: varint too long"
  resize _ max count := resize max count
  text max count := do
    let raw ← bufferScalar bufferUnderflow count.toNat
    resize max count
    return raw
  block count := bufferScalar bufferUnderflow count.toNat
  loop _ := pure ()
  lift := Decoder.lift

/-- How `buffer_deserializer` reads a string, case by case. -/
theorem bufferText_run (max : Nat) (count : UInt64) (s : List UInt8) :
    bufferReads.text max count s =
      if s.length < count.toNat then .error bufferUnderflow
      else if count.toNat ≤ max then .ok (s.take count.toNat, s.drop count.toNat)
      else .error .lengthError := by
  show (bufferScalar bufferUnderflow count.toNat >>= fun raw => resize max count >>= fun _ => _) s
    = _
  rw [Decoder.bind_apply]
  unfold bufferScalar resize
  by_cases hshort : s.length < count.toNat
  · rw [if_pos hshort, if_pos hshort]
    rfl
  · rw [if_neg hshort, if_neg hshort]
    by_cases hmax : count.toNat ≤ max
    · rw [if_pos hmax, if_pos hmax]
      rfl
    · rw [if_neg hmax, if_neg hmax]
      rfl

/-- The reads of `stream_deserializer`. -/
def streamReads : ReadsOf (Decoder Exn Stream) where
  scalar := streamScalar
  next := streamNext
  tooLong := .runtimeError "stream_deserializer: varint too long"
  resize _ max count := resize max count
  text max count := do
    resize max count
    streamBulk count.toNat
  block count := streamBulk count.toNat
  loop _ := pure ()
  lift := Decoder.lift

theorem bufferReads_reader (lim : Limits) : bufferReads.reader lim = bufferReader lim := by
  have hvarint : bufferReads.varint = bufferVarint := Leb128.decodeIn_decoder _ _
  unfold ReadsOf.reader ReadsOf.string ReadsOf.vector ReadsOf.bytes
  simp only [countIn_decoder, hvarint]
  rfl

theorem streamReads_reader (lim : Limits) : streamReads.reader lim = streamReader lim := by
  have hvarint : streamReads.varint = streamVarint := Leb128.decodeIn_decoder _ _
  unfold ReadsOf.reader ReadsOf.string ReadsOf.vector ReadsOf.bytes
  simp only [countIn_decoder, hvarint]
  rfl

/-- Decoding a range. -/
def bufferDecode (lim : Limits) (reg : Registry μ) (bytes : List UInt8) :
    WireFormat → Except Exn (Fields × List UInt8)
  | .standard => bufferDeserialize lim reg bytes
  | .schema => bufferDeserializeWithSchema lim reg bytes

theorem bufferReads_decode (lim : Limits) (reg : Registry μ) (bytes : List UInt8) :
    ∀ format, bufferReads.decode lim reg (bytes.length + 1) format bytes =
      bufferDecode lim reg bytes format
  | .standard => by
    rw [ReadsOf.decode_standard (fun _ => rfl) fun _ => rfl, bufferReads_reader]
    rfl
  | .schema => by
    rw [ReadsOf.decode_schema (fun _ => rfl) fun _ => rfl, bufferReads_reader]
    rfl

theorem streamReads_standard (lim : Limits) (reg : Registry μ) (fuel : Nat) :
    streamReads.decode lim reg fuel .standard =
      Dynamic.deserialize (streamReader lim) reg fuel := by
  rw [ReadsOf.decode_standard (fun _ => rfl) fun _ => rfl, streamReads_reader]

theorem streamReads_schema (lim : Limits) (reg : Registry μ) (fuel : Nat) :
    streamReads.decode lim reg fuel .schema =
      Dynamic.deserializeWithSchema (streamReader lim) reg fuel := by
  rw [ReadsOf.decode_schema (fun _ => rfl) fun _ => rfl, streamReads_reader]

end Deserializers

/-! ## Decoding a range returns or throws -/

section Thrown

variable {size : σ → Nat} {n : Nat} {rd : Reader σ}

/-- From any state of at most `n`, a read that returns takes input. -/
def Consumes (size : σ → Nat) (n : Nat) {α : Type} (p : Decoder Exn σ α) : Prop :=
  ∀ s, size s ≤ n → ∀ a s', p s = .ok (a, s') → size s' < size s

theorem Consumes.bind {α β : Type} {p : Decoder Exn σ α} {f : α → Decoder Exn σ β}
    (hp : Consumes size n p) (hf : ∀ a m, m < n → Within size m (f a)) :
    Consumes size n (p >>= f) := by
  intro s hs b s' h
  obtain ⟨a, s₁, hrun, hrest⟩ := Decoder.bind_eq_ok.mp h
  have hlt := hp s hs a s₁ hrun
  have hle := hf a (size s₁) (by omega) s₁ le_rfl
  rw [hrest] at hle
  exact lt_of_le_of_lt hle hlt

theorem readDeclared_within {readField : Decoder Exn σ Value} (hf : Within size n readField) :
    ∀ declared dyn : Fields, Within size n (readDeclared readField declared dyn)
  | [], dyn => Within.pure dyn
  | e :: rest, dyn => hf.bind' fun f => readDeclared_within hf rest (insert e.1 f dyn)

/-- A class declares a field, so its fields take input. -/
theorem readDeclared_consumes {readField : Decoder Exn σ Value} (hf : Within size n readField)
    (hc : Consumes size n readField) {declared : Fields} (hne : declared ≠ []) (dyn : Fields) :
    Consumes size n (readDeclared readField declared dyn) := by
  cases declared with
  | nil => exact absurd rfl hne
  | cons e rest =>
    exact hc.bind fun f m hm => (readDeclared_within hf rest _).mono (le_of_lt hm)

theorem schemaLoop_within {readField : Decoder Exn σ Value} (hf : Within size n readField)
    (hc : Consumes size n readField) (col : Collection μ) (fuel : Nat) : ∀ {m : Nat}, m ≤ n →
      m < fuel → ∀ klass dyn, Within size m (schemaLoop readField col fuel klass dyn) := by
  induction fuel with
  | zero => exact fun _ h => absurd h (Nat.not_lt_zero _)
  | succ fuel ih =>
    intro m hm hfuel klass dyn
    unfold schemaLoop
    cases Collection.find col klass with
    | none => exact Within.pure dyn
    | some p =>
      have hne : p.fields ≠ [] := by
        intro hnil
        have := p.class_isSome
        rw [hnil] at this
        cases this
      refine ((readDeclared_within hf p.fields dyn).mono hm).bind fun dyn s s' hs hrun => ?_
      have hlt := readDeclared_consumes hf hc hne _ s (le_trans hs hm) _ _ hrun
      exact ih (by omega) (by omega) p.parent dyn

theorem bufferByte_consumes (lim : Limits) : Consumes List.length n (bufferReader lim).byte := by
  intro s _ b s' h
  cases s with
  | nil => cases h
  | cons c s =>
    obtain ⟨-, rfl⟩ := Prod.mk.inj (Except.ok.inj h)
    exact Nat.lt_succ_self _

theorem bufferField_consumes (lim : Limits) {nested : Decoder Exn (List UInt8) Fields}
    (hn : ∀ m, m < n → Within List.length m nested) :
    Consumes List.length n (Field.deserialize (bufferReader lim) nested) :=
  (bufferByte_consumes lim).bind fun _ m hm =>
    Field.deserializeTagged_within (bufferReader_measured lim) fun _ => hn m hm

/-- Every class of a chain takes input, so that a chain without an end is not followed for ever. -/
theorem bufferSchema_within (lim : Limits) (reg : Registry μ) {fuel : Nat} (hfuel : n < fuel) :
    Within List.length n (Dynamic.deserializeWithSchema (bufferReader lim) reg fuel) := by
  have hrd := bufferReader_measured lim
  have hn : ∀ m, m < n → Within List.length m (deserializeInstance (bufferReader lim) reg fuel) :=
    fun m hm => deserializeInstance_within hrd (by omega)
  refine ((hrd.scalar _ 4).map _).bind' fun ns => ((hrd.scalar _ 4).map _).bind' fun klass => ?_
  cases reg.lookup ns with
  | none => exact Within.pure _
  | some col =>
    exact schemaLoop_within (Field.deserialize_within hrd hn) (bufferField_consumes lim hn) col _
      le_rfl hfuel _ _

variable {lim : Limits} {reg : Registry μ} {bytes : List UInt8} {e : Exn}

theorem bufferReads_thrown {fuel : Nat} (hfuel : bytes.length < fuel) :
    ∀ {format}, bufferReads.decode lim reg fuel format bytes = .error e → e.Thrown
  | .standard, h => by
    rw [ReadsOf.decode_standard (fun _ => rfl) fun _ => rfl, bufferReads_reader] at h
    exact Dynamic.deserialize_thrown (bufferReader_measured lim) (le_of_lt hfuel) h
  | .schema, h => by
    rw [ReadsOf.decode_schema (fun _ => rfl) fun _ => rfl, bufferReads_reader] at h
    have hw := bufferSchema_within lim reg hfuel bytes le_rfl
    rw [h] at hw
    exact hw

theorem bufferDecode_thrown {format : WireFormat}
    (h : bufferDecode lim reg bytes format = .error e) : e.Thrown := by
  rw [← bufferReads_decode] at h
  exact bufferReads_thrown (Nat.lt_succ_self _) h

end Thrown

end Bison
