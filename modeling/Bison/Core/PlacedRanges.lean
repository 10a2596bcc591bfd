import Bison.Core.DecodingPrograms

/-!
# A range anywhere in the address space

`buffer_deserializer` reads between two addresses. Whether `size` bytes are left it decides by
`pos_ + size > end_`, in arithmetic modulo 2^64: where the sum wraps, too few are enough.

- `placedReads`: its reads, over an address space; each reports where it reads and where the
  position is then (`Move`).
- `spanReads`: the same reads over the bytes of the range, that stop with `short` where bytes are
  missing. `Stays`: what an outcome of the former has to do with one of the latter.
- `staysInside_iff`: **main result**, decoding stays inside the range exactly if the sum does not
  wrap where bytes are missing.
- `staysInside_of_low`: so it does in every range that ends low enough.
-/

namespace Bison

variable {μ : Type}

/-- The bytes at the addresses. -/
def AddressSpace := UInt64 → UInt8

namespace AddressSpace

variable (mem : AddressSpace)

/-- `n` bytes from `start` on. -/
def bytes (start : UInt64) : Nat → List UInt8
  | 0 => []
  | n + 1 => mem start :: bytes (start + 1) n

@[simp] theorem bytes_length (n : Nat) : ∀ start, (mem.bytes start n).length = n := by
  induction n with
  | zero => exact fun _ => rfl
  | succ n ih =>
    intro start
    show (mem.bytes (start + 1) n).length + 1 = n + 1
    rw [ih]

theorem bytes_take {k n : Nat} (h : k ≤ n) : ∀ start, (mem.bytes start n).take k =
    mem.bytes start k := by
  induction k generalizing n with
  | zero => exact fun _ => List.take_zero
  | succ k ih =>
    intro start
    obtain ⟨n, rfl⟩ : ∃ m, n = m + 1 := ⟨n - 1, by omega⟩
    show mem start :: (mem.bytes (start + 1) n).take k = _
    rw [ih (by omega)]
    rfl

theorem bytes_drop (k n : Nat) : ∀ start, (mem.bytes start (k + n)).drop k =
    mem.bytes (start + UInt64.ofNat k) n := by
  induction k with
  | zero =>
    intro start
    rw [Nat.zero_add, List.drop_zero]
    exact congrArg (mem.bytes · n) (UInt64.add_zero start).symm
  | succ k ih =>
    intro start
    rw [Nat.succ_add_eq_add_succ, Nat.add_succ]
    show (mem.bytes (start + 1) (k + n)).drop k = _
    rw [ih, UInt64.add_assoc, UInt64.add_comm 1, Nat.add_zero, Nat.succ_eq_add_one,
      UInt64.ofNat_add]
    rfl

end AddressSpace

/-- A range of addresses, from `first` up to `last`. -/
structure Range where
  first : UInt64
  last : UInt64
  ordered : first.toNat ≤ last.toNat

/-- A read of `size` bytes from `start` on, after which the position is `after`. -/
structure Move where
  start : UInt64
  size : UInt64
  after : UInt64

/-- The read lies inside the range, and so does the position, which does not move backwards. -/
structure Move.Inside (range : Range) (m : Move) : Prop where
  first_le : range.first.toNat ≤ m.start.toNat
  le_last : m.start.toNat + m.size.toNat ≤ range.last.toNat
  forward : m.start.toNat ≤ m.after.toNat
  after_le : m.after.toNat ≤ range.last.toNat

def Range.size (range : Range) : Nat := range.last.toNat - range.first.toNat

/-- The bytes of the range. -/
def Range.bytes (mem : AddressSpace) (range : Range) : List UInt8 :=
  mem.bytes range.first range.size

/-! ## `buffer_deserializer` -/

section Reads

variable (mem : AddressSpace) (last : UInt64)

/-- `if (pos_ + size > end_) throw`. -/
def checkRange (size : UInt64) : Program Exn Move UInt64 Unit := fun pos =>
  if pos + size > last then ⟨.error bufferUnderflow, [], pos⟩ else ⟨.ok (), [], pos⟩

/-- `std::memcpy(data, pos_, size)`, and `pos_ += size`. -/
def takeBytes (size : UInt64) : Program Exn Move UInt64 (List UInt8) := fun pos =>
  ⟨.ok (mem.bytes pos size.toNat), [⟨pos, size, pos + size⟩], pos + size⟩

/-- `*pos_++` after its check. -/
def placedNext : Program Exn Move UInt64 UInt8 := fun pos =>
  if pos ≥ last then ⟨.error bufferUnderflow, [], pos⟩
  else ⟨.ok (mem pos), [⟨pos, 1, pos + 1⟩], pos + 1⟩

def checkedBytes (size : UInt64) : Program Exn Move UInt64 (List UInt8) := do
  checkRange last size
  takeBytes mem size

/-- `data.assign(pos_, count)` throws before it copies where the string cannot hold as much. -/
def placedText (max : Nat) (count : UInt64) : Program Exn Move UInt64 (List UInt8) := do
  checkRange last count
  if count.toNat ≤ max then takeBytes mem count else Program.throw .lengthError

/-- The reads of `buffer_deserializer` (bison_serialization.hpp:167). -/
def placedReads : ReadsOf (Program Exn Move UInt64) where
  scalar n := checkedBytes mem last (UInt64.ofNat n)
  next := placedNext mem last
  tooLong := .runtimeError "buffer_deserializer: varint too long"
  resize _ max count := if count.toNat ≤ max then pure () else Program.throw .lengthError
  text := placedText mem last
  block := checkedBytes mem last
  loop _ := pure ()
  lift := Program.lift

end Reads

/-- Decoding the bytes of a range. -/
def placedDecode (lim : Limits) (reg : Registry μ) (mem : AddressSpace) (range : Range)
    (format : WireFormat) : Program.Outcome Exn Move UInt64 Fields :=
  (placedReads mem range.last).decode lim reg (range.size + 1) format range.first

/-- Every read lies inside the range, the position moves neither backwards nor past its end, and
what is malformed ends in an exception. -/
structure StaysInside (lim : Limits) (reg : Registry μ) (mem : AddressSpace) (range : Range)
    (format : WireFormat) : Prop where
  inside : ∀ m ∈ (placedDecode lim reg mem range format).trace, m.Inside range
  throws : Decoder.Fails (bufferDecode lim reg (range.bytes mem) format) →
    ∃ e, (placedDecode lim reg mem range format).result = .error e ∧ e.Thrown

/-! ## The bytes of a range -/

/-- Why decoding stops. -/
inductive Stop where
  | thrown (e : Exn)
  /-- `size` bytes are needed where `left` are left. -/
  | short (left size : Nat)

def spanScalar (n : Nat) : Decoder Stop (List UInt8) (List UInt8) := fun s =>
  if s.length < n then .error (.short s.length n) else .ok (s.take n, s.drop n)

def spanNext : Decoder Stop (List UInt8) UInt8
  | [] => .error (.thrown bufferUnderflow)
  | b :: rest => .ok (b, rest)

/-- The reads over bytes; where they are missing for what can be held, they stop with `short`. -/
def spanReads : ReadsOf (Decoder Stop (List UInt8)) where
  scalar := spanScalar
  next := spanNext
  tooLong := .runtimeError "buffer_deserializer: varint too long"
  resize _ max count := if count.toNat ≤ max then pure () else throw (.thrown .lengthError)
  text max count :=
    if count.toNat ≤ max then spanScalar count.toNat else throw (.thrown .lengthError)
  block count := spanScalar count.toNat
  loop _ := pure ()
  lift r := Decoder.lift (r.mapError .thrown)

/-- Where decoding the bytes stops. -/
def Range.decode (lim : Limits) (reg : Registry μ) (mem : AddressSpace) (range : Range)
    (format : WireFormat) : Except Stop (Fields × List UInt8) :=
  spanReads.decode lim reg (range.size + 1) format (range.bytes mem)

/-- Where bytes are missing, the sum of the address and of the size is below 2^64. -/
def Range.NoWrap (lim : Limits) (reg : Registry μ) (mem : AddressSpace) (range : Range)
    (format : WireFormat) : Prop :=
  ∀ left size, range.decode lim reg mem format = .error (.short left size) →
    range.last.toNat - left + size < 2 ^ 64

/-! ### The two agree about what is malformed -/

/-- The decoder fails where the first stops; an exception is one in both. -/
inductive Stops {α : Type} : Except Stop (α × List UInt8) → Except Exn (α × List UInt8) → Prop
  | returns (r : α × List UInt8) : Stops (.ok r) (.ok r)
  | throws {e e' : Exn} (h : e'.Thrown → e.Thrown) : Stops (.error (.thrown e)) (.error e')
  | short (left size : Nat) (e : Exn) : Stops (.error (.short left size)) (.error e)

def stops : MonadRelation (Decoder Stop (List UInt8)) (Decoder Exn (List UInt8)) where
  Rel p q := ∀ s, Stops (p s) (q s)
  pure a := fun s => .returns (a, s)
  bind := by
    intro α β p q f g hp hf s
    have hs := hp s
    rw [Decoder.bind_apply, Decoder.bind_apply]
    generalize p s = r, q s = r' at hs
    cases hs with
    | returns r => exact hf r.1 r.2
    | throws h => exact .throws h
    | short left size e => exact .short left size e

theorem stops_resize (max : Nat) (count : UInt64) :
    stops.Rel (spanReads.resize 0 max count) (bufferReads.resize 0 max count) := by
  intro s
  show Stops ((if count.toNat ≤ max then pure () else throw _ : Decoder Stop _ Unit) s)
    ((if count.toNat ≤ max then pure () else throw _ : Decoder Exn _ Unit) s)
  split
  · exact .returns ((), s)
  · exact .throws id

theorem stops_scalar (n : Nat) : stops.Rel (spanScalar n) (bufferScalar bufferUnderflow n) := by
  intro s
  unfold spanScalar bufferScalar
  split
  · exact .short _ _ _
  · exact .returns _

/-- A string that nothing can hold is not read, whatever is left of the range. -/
theorem stops_text (max : Nat) (count : UInt64) :
    stops.Rel (spanReads.text max count) (bufferReads.text max count) := by
  intro s
  rw [bufferText_run]
  show Stops ((if count.toNat ≤ max then spanScalar count.toNat else throw _ : Decoder Stop _ _) s)
    (if _ then _ else _)
  by_cases hmax : count.toNat ≤ max
  · rw [if_pos hmax, if_pos hmax]
    exact stops_scalar count.toNat s
  · have hthrown : bufferUnderflow.Thrown → Exn.lengthError.Thrown := fun h => h
    rw [if_neg hmax, if_neg hmax]
    split
    · exact .throws hthrown
    · exact .throws id

theorem spanReads_related (lim : Limits) : spanReads.Related stops lim bufferReads where
  scalar _ _ := stops_scalar _
  next s := by
    cases s with
    | nil => exact .throws id
    | cons b rest => exact .returns (b, rest)
  tooLong _ := .throws id
  resize _ := stops_resize
  text := stops_text _
  block _ := stops.bind (stops_resize _ _) fun _ => stops_scalar _
  loop _ := stops.pure ()
  lift r s := by
    cases r with
    | error e => exact .throws id
    | ok a => exact .returns (a, s)

/-! ### What they do to the address space -/

section Stays

variable (mem : AddressSpace) (range : Range)

/-- The position is inside the range, and the bytes are those from there to its end. -/
structure Positioned (pos : UInt64) (rest : List UInt8) : Prop where
  first_le : range.first.toNat ≤ pos.toNat
  total : pos.toNat + rest.length = range.last.toNat
  eq : rest = mem.bytes pos rest.length

/-- What an outcome has to do with where decoding the bytes stops. -/
inductive Stays {α : Type} : Except Stop (α × List UInt8) → Program.Outcome Exn Move UInt64 α → Prop
  | returns {a : α} {rest : List UInt8} {trace : List Move} {pos : UInt64}
      (placed : Positioned mem range pos rest) (inside : ∀ m ∈ trace, m.Inside range) :
      Stays (.ok (a, rest)) ⟨.ok a, trace, pos⟩
  | throws {e e' : Exn} {trace : List Move} {pos : UInt64} (thrown : e.Thrown → e'.Thrown)
      (inside : ∀ m ∈ trace, m.Inside range) : Stays (.error (.thrown e)) ⟨.error e', trace, pos⟩
  | underflow {left size : Nat} {trace : List Move} {pos : UInt64}
      (noWrap : range.last.toNat - left + size < 2 ^ 64) (inside : ∀ m ∈ trace, m.Inside range) :
      Stays (.error (.short left size)) ⟨.error bufferUnderflow, trace, pos⟩
  | strays {left size : Nat} {result : Except Exn α} {trace : List Move} {pos : UInt64}
      (wraps : 2 ^ 64 ≤ range.last.toNat - left + size) (outside : ∃ m ∈ trace, ¬ m.Inside range) :
      Stays (.error (.short left size)) ⟨result, trace, pos⟩

variable {mem range}

theorem Stays.prepend {α : Type} {r : Except Stop (α × List UInt8)}
    {o : Program.Outcome Exn Move UInt64 α} {before : List Move} (h : Stays mem range r o)
    (hbefore : ∀ m ∈ before, m.Inside range) :
    Stays mem range r ⟨o.result, before ++ o.trace, o.state⟩ := by
  have happend : ∀ {trace : List Move}, (∀ m ∈ trace, m.Inside range) →
      ∀ m ∈ before ++ trace, m.Inside range := by
    intro trace htrace m hm
    rcases List.mem_append.mp hm with hm | hm
    · exact hbefore m hm
    · exact htrace m hm
  cases h with
  | returns placed inside => exact .returns placed (happend inside)
  | throws thrown inside => exact .throws thrown (happend inside)
  | underflow noWrap inside => exact .underflow noWrap (happend inside)
  | strays wraps outside =>
    obtain ⟨m, hm, hout⟩ := outside
    exact .strays wraps ⟨m, List.mem_append_right _ hm, hout⟩

variable (mem range)

def stays : MonadRelation (Program Exn Move UInt64) (Decoder Stop (List UInt8)) where
  Rel p q := ∀ pos rest, Positioned mem range pos rest → Stays mem range (q rest) (p pos)
  pure a := fun _ _ h => .returns h (List.forall_mem_nil _)
  bind := by
    intro α β p q f g hp hf pos rest h
    have hs := hp pos rest h
    rw [Decoder.bind_apply, Program.bind_run]
    generalize q rest = r, p pos = o at hs
    cases hs with
    | returns placed inside => exact (hf _ _ _ placed).prepend inside
    | throws thrown inside => exact .throws thrown inside
    | underflow noWrap inside => exact .underflow noWrap inside
    | @strays _ _ result _ _ wraps outside =>
      -- whatever is read from there on, the move has been made
      cases result with
      | error e => exact .strays wraps outside
      | ok a =>
        obtain ⟨m, hm, hout⟩ := outside
        exact .strays wraps ⟨m, List.mem_append_left _ hm, hout⟩

variable {mem range} {pos : UInt64} {rest : List UInt8} {size : UInt64}

/-- What is left behind a read that fits. -/
theorem Positioned.after (h : Positioned mem range pos rest) (hfits : size.toNat ≤ rest.length) :
    Positioned mem range (pos + size) (rest.drop size.toNat) := by
  have htotal := h.total
  have hlast := range.last.toNat_lt
  have hadd : (pos + size).toNat = pos.toNat + size.toNat := by
    rw [UInt64.toNat_add, Nat.mod_eq_of_lt (by omega)]
  refine ⟨by rw [hadd]; exact Nat.le_add_right_of_le h.first_le, ?_, ?_⟩
  · rw [hadd, List.length_drop]
    omega
  · have hsplit : rest.length = size.toNat + (rest.length - size.toNat) := by omega
    have hdrop := mem.bytes_drop size.toNat (rest.length - size.toNat) pos
    rw [← hsplit, ← h.eq, UInt64.ofNat_toNat] at hdrop
    rw [List.length_drop]
    exact hdrop

theorem Positioned.inside (h : Positioned mem range pos rest) (hfits : size.toNat ≤ rest.length) :
    Move.Inside range ⟨pos, size, pos + size⟩ := by
  have htotal := h.total
  have hafter := (h.after hfits).total
  rw [List.length_drop] at hafter
  constructor
  · exact h.first_le
  · show pos.toNat + size.toNat ≤ _
    omega
  · show pos.toNat ≤ (pos + size).toNat
    omega
  · show (pos + size).toNat ≤ _
    omega

/-- The check passes where the bytes are left, and where the sum wraps. -/
theorem Positioned.check_passes (h : Positioned mem range pos rest)
    (hpasses : size.toNat ≤ rest.length ∨ 2 ^ 64 ≤ pos.toNat + size.toNat) :
    checkRange range.last size pos = ⟨.ok (), [], pos⟩ := by
  have htotal := h.total
  have hlast := range.last.toNat_lt
  have hsize := size.toNat_lt
  refine if_neg (UInt64.not_lt.mpr (UInt64.le_iff_toNat_le.mpr ?_))
  rw [UInt64.toNat_add]
  omega

theorem Positioned.check_fails (h : Positioned mem range pos rest)
    (hshort : rest.length < size.toNat) (hwrap : pos.toNat + size.toNat < 2 ^ 64) :
    checkRange range.last size pos = ⟨.error bufferUnderflow, [], pos⟩ := by
  have htotal := h.total
  refine if_pos (UInt64.lt_iff_toNat_lt.mpr ?_)
  rw [UInt64.toNat_add, Nat.mod_eq_of_lt hwrap]
  omega

theorem stays_checkedBytes (mem : AddressSpace) (range : Range) (size : UInt64) :
    (stays mem range).Rel (checkedBytes mem range.last size) (spanScalar size.toNat) := by
  intro pos rest h
  have htotal := h.total
  unfold spanScalar checkedBytes
  by_cases hshort : rest.length < size.toNat
  · rw [if_pos hshort]
    have hleft : range.last.toNat - rest.length = pos.toNat := by omega
    by_cases hwrap : pos.toNat + size.toNat < 2 ^ 64
    · rw [Program.bind_error (h.check_fails hshort hwrap)]
      exact .underflow (by rwa [hleft]) (List.forall_mem_nil _)
    · -- the sum wraps, so the check lets the read pass
      rw [Program.bind_ok (h.check_passes (.inr (by omega)))]
      refine .strays (by omega) ⟨_, List.mem_singleton_self _, fun hin => ?_⟩
      have := hin.le_last
      dsimp only at this
      omega
  · rw [if_neg hshort, Program.bind_ok (h.check_passes (.inl (by omega)))]
    have hbytes : rest.take size.toNat = mem.bytes pos size.toNat := by
      conv_lhs => rw [h.eq]
      exact mem.bytes_take (by omega) pos
    rw [hbytes]
    exact .returns (h.after (by omega)) (List.forall_mem_singleton.mpr (h.inside (by omega)))

/-- A string that nothing can hold is not copied, even if the sum wraps. -/
theorem stays_text (mem : AddressSpace) (range : Range) (max : Nat) (count : UInt64) :
    (stays mem range).Rel (placedText mem range.last max count) (spanReads.text max count) := by
  by_cases hmax : count.toNat ≤ max
  · have hspan : spanReads.text max count = spanScalar count.toNat := if_pos hmax
    have hplaced : placedText mem range.last max count = checkedBytes mem range.last count := by
      unfold placedText checkedBytes
      rw [if_pos hmax]
    rw [hspan, hplaced]
    exact stays_checkedBytes mem range count
  · have hspan : spanReads.text max count = throw (.thrown .lengthError) := if_neg hmax
    have hthrown : Exn.lengthError.Thrown → bufferUnderflow.Thrown := fun h => h
    rw [hspan]
    intro pos rest h
    unfold placedText
    rw [if_neg hmax, Program.bind_run]
    unfold checkRange
    split
    · exact .throws hthrown (List.forall_mem_nil _)
    · exact .throws id (List.forall_mem_nil _)

theorem stays_next (mem : AddressSpace) (range : Range) :
    (stays mem range).Rel (placedNext mem range.last) spanNext := by
  intro pos rest h
  have htotal := h.total
  unfold placedNext
  cases rest with
  | nil =>
    rw [List.length_nil] at htotal
    rw [if_pos (UInt64.le_iff_toNat_le.mpr (by omega))]
    exact .throws id (List.forall_mem_nil _)
  | cons b rest =>
    rw [List.length_cons] at htotal
    have hfits : (1 : UInt64).toNat ≤ (b :: rest).length := Nat.succ_le_succ (Nat.zero_le _)
    obtain ⟨rfl, -⟩ := List.cons.inj h.eq
    rw [if_neg (UInt64.not_le.mpr (UInt64.lt_iff_toNat_lt.mpr (by omega)))]
    exact .returns (h.after hfits) (List.forall_mem_singleton.mpr (h.inside hfits))

theorem stays_resize (mem : AddressSpace) (range : Range) (max : Nat) (count : UInt64) :
    (stays mem range).Rel ((placedReads mem range.last).resize 0 max count)
      (spanReads.resize 0 max count) := by
  show (stays mem range).Rel (if count.toNat ≤ max then _ else _)
    (if count.toNat ≤ max then _ else _)
  split
  · exact (stays mem range).pure ()
  · exact fun _ _ _ => .throws id (List.forall_mem_nil _)

theorem placedReads_related (mem : AddressSpace) (range : Range) (lim : Limits) :
    (placedReads mem range.last).Related (stays mem range) lim spanReads where
  scalar {n} _ hle := by
    have hn : (UInt64.ofNat n).toNat = n :=
      UInt64.toNat_ofNat_of_lt' (lt_of_le_of_lt hle (by decide))
    have h := stays_checkedBytes mem range (UInt64.ofNat n)
    rw [hn] at h
    exact h
  next := stays_next mem range
  tooLong := fun _ _ _ => .throws id (List.forall_mem_nil _)
  resize _ := stays_resize mem range
  text := stays_text mem range _
  block count := (stays mem range).bind (stays_resize mem range _ count) fun _ =>
    stays_checkedBytes mem range count
  loop _ := (stays mem range).pure ()
  lift r := by
    intro pos rest h
    cases r with
    | error e => exact .throws id (List.forall_mem_nil _)
    | ok a => exact .returns h (List.forall_mem_nil _)

end Stays

/-! ## Decoding a range -/

section Decode

variable (lim : Limits) (reg : Registry μ) (mem : AddressSpace) (range : Range)
  (format : WireFormat)

theorem Range.placed : Positioned mem range range.first (range.bytes mem) := by
  have hlength : (range.bytes mem).length = range.size := mem.bytes_length _ _
  have hordered := range.ordered
  refine ⟨le_rfl, ?_, by rw [hlength]; rfl⟩
  rw [hlength, Range.size]
  omega

theorem placedDecode_stays : Stays mem range (range.decode lim reg mem format)
    (placedDecode lim reg mem range format) :=
  ReadsOf.decode_related (placedReads_related mem range lim) reg _ format _ _ (range.placed mem)

theorem Range.decode_stops : Stops (range.decode lim reg mem format)
    (bufferDecode lim reg (range.bytes mem) format) := by
  rw [← bufferReads_decode, show (range.bytes mem).length = range.size from mem.bytes_length _ _]
  exact ReadsOf.decode_related (spanReads_related lim) reg _ format _

variable {lim reg mem range format}

theorem noWrap_of_staysInside (h : StaysInside lim reg mem range format) :
    range.NoWrap lim reg mem format := by
  intro left size hshort
  have hstays := placedDecode_stays lim reg mem range format
  rw [hshort] at hstays
  have hinside := h.inside
  generalize placedDecode lim reg mem range format = o at hstays hinside
  cases hstays with
  | underflow noWrap _ => exact noWrap
  | strays _ outside =>
    obtain ⟨m, hm, hout⟩ := outside
    exact absurd (hinside m hm) hout

theorem staysInside_of_noWrap (h : range.NoWrap lim reg mem format) :
    StaysInside lim reg mem range format := by
  have hstays := placedDecode_stays lim reg mem range format
  have hstops := range.decode_stops lim reg mem format
  have hthrown : ∀ e, bufferDecode lim reg (range.bytes mem) format = .error e → e.Thrown :=
    fun e he => bufferDecode_thrown he
  suffices hruns : (∀ m ∈ (placedDecode lim reg mem range format).trace, m.Inside range) ∧
      (Decoder.Fails (bufferDecode lim reg (range.bytes mem) format) →
        ∃ e, (placedDecode lim reg mem range format).result = .error e ∧ e.Thrown) from
    ⟨hruns.1, hruns.2⟩
  unfold Range.NoWrap at h
  generalize range.decode lim reg mem format = r at hstays hstops h
  generalize placedDecode lim reg mem range format = o at hstays ⊢
  generalize bufferDecode lim reg (range.bytes mem) format = r' at hstops hthrown ⊢
  cases hstays with
  | returns _ inside =>
    cases hstops
    exact ⟨inside, fun hfails => absurd hfails (Decoder.not_fails_ok _)⟩
  | throws thrown inside =>
    cases hstops with
    | throws hstop => exact ⟨inside, fun _ => ⟨_, rfl, thrown (hstop (hthrown _ rfl))⟩⟩
  | underflow _ inside => exact ⟨inside, fun _ => ⟨_, rfl, trivial⟩⟩
  | strays wraps _ => exact absurd (h _ _ rfl) (Nat.not_lt.mpr wraps)

variable (lim reg mem range format)

/-- **Main result**: decoding stays inside the range exactly if the sum of the address and of the
size does not wrap where bytes are missing. -/
theorem staysInside_iff :
    StaysInside lim reg mem range format ↔ range.NoWrap lim reg mem format :=
  ⟨noWrap_of_staysInside, staysInside_of_noWrap⟩

end Decode

/-! ## Ranges that end low enough -/

/-- Where bytes are missing, at most `bound` were needed. -/
def Stop.NeedsAtMost (bound : Nat) : Stop → Prop
  | .thrown _ => True
  | .short _ size => size ≤ bound

def needsAtMost (bound : Nat) :
    MonadRelation (Decoder Stop (List UInt8)) (Decoder Stop (List UInt8)) where
  Rel p _ := p.FailsOnly (Stop.NeedsAtMost bound)
  pure := .pure
  bind := .bind

theorem spanScalar_needsAtMost {n bound : Nat} (h : n ≤ bound) :
    (spanScalar n).FailsOnly (Stop.NeedsAtMost bound) := by
  intro s e he
  unfold spanScalar at he
  split at he
  · cases he
    exact h
  · cases he

/-- The most bytes that a read needs at once. -/
def Limits.bound (lim : Limits) : Nat := max 4 (max lim.maxString lim.maxBytes)

theorem spanReads_bounded (lim : Limits) :
    spanReads.Related (needsAtMost lim.bound) lim spanReads where
  scalar _ hle := spanScalar_needsAtMost (le_trans hle (le_max_left _ _))
  next s e he := by
    cases s with
    | nil =>
      cases he
      trivial
    | cons b rest => cases he
  tooLong := .throw trivial
  resize _ max count := by
    show Decoder.FailsOnly _ (if count.toNat ≤ max then _ else _)
    split
    · exact .pure ()
    · exact .throw trivial
  text count := by
    show Decoder.FailsOnly _ (if count.toNat ≤ lim.maxString then _ else _)
    split
    · next h => exact spanScalar_needsAtMost (le_max_of_le_right (le_max_of_le_left h))
    · exact .throw trivial
  block count := by
    show Decoder.FailsOnly _ ((if count.toNat ≤ lim.maxBytes then _ else _) >>= fun _ => _)
    split
    · next h =>
      exact .bind (.pure ()) fun _ =>
        spanScalar_needsAtMost (le_max_of_le_right (le_max_of_le_right h))
    · intro s e he
      cases he
      trivial
  loop _ := .pure ()
  lift r s e he := by
    cases r with
    | error e' =>
      cases he
      trivial
    | ok a => cases he

/-- Decoding stays inside every range that ends low enough. -/
theorem staysInside_of_low (lim : Limits) (reg : Registry μ) (mem : AddressSpace) {range : Range}
    (hlow : range.last.toNat + lim.bound < 2 ^ 64) (format : WireFormat) :
    StaysInside lim reg mem range format := by
  refine staysInside_of_noWrap fun left size hshort => ?_
  have hneeds : size ≤ lim.bound :=
    ReadsOf.decode_related (spanReads_bounded lim) reg _ format _ _ hshort
  omega

/-! ## A range that does not -/

/-- One byte, before the last address. -/
def lastByte : Range := ⟨0xfffffffffffffffe, 0xffffffffffffffff, by decide⟩

/-- The byte announces a field. -/
def oneField : AddressSpace := fun address => if address = 0xfffffffffffffffe then 1 else 0

/-- The key of the field is read from the first addresses. -/
theorem oneField_trace (lim : Limits) (reg : Registry μ) :
    (placedDecode lim reg oneField lastByte .standard).trace =
      [⟨0xfffffffffffffffe, 1, 0xffffffffffffffff⟩, ⟨0xffffffffffffffff, 4, 3⟩, ⟨3, 1, 4⟩] := rfl

/-- Decoding does not stay inside every range. -/
theorem oneField_strays : ¬ ∀ (lim : Limits) (reg : Registry Unit) (mem : AddressSpace)
    (range : Range) (format : WireFormat), StaysInside lim reg mem range format := by
  intro h
  have hinside := (h ⟨16, 16, 16, 16, 16, by decide, by decide, by decide, by decide, by decide⟩ []
    oneField lastByte .standard).inside
  rw [oneField_trace] at hinside
  have hkey := (hinside ⟨0xffffffffffffffff, 4, 3⟩ (by simp)).le_last
  exact absurd hkey (by decide)

end Bison
