import Bison.Core.DecodingPrograms

/-!
# The work of decoding

A count is a varint that precedes what it counts: the fields of an object, the elements of a vector,
the bytes of a string. `buffer_deserializer` compares the length of a string with what is left, and
no other count; `stream_deserializer` compares none, and its fixed-width reads go on behind the end
of the input.

- `bufferWork`, `streamWork`: the reads of the deserializers, which report what they do (`Work`).
- `WorkBounded`: there are no more reads than bytes, and what is counted can follow.
- `bufferWork_mirrors`, `streamWork_mirrors`: but for that, this is decoding.
- `bufferChecked`, `streamChecked`: decoding that stops at a count of more than can follow.
  `Spends`: what a run has to do with it.
- `workBounded_iff`: **main result**, the work is bounded exactly if no such count is met; for a
  stream, if none is, and no read comes to its end.
-/

namespace Bison

variable {μ σ : Type}

/-- What decoding does. -/
inductive Work where
  /-- A read of a value, or of a byte of a count. -/
  | read
  /-- A container is sized to `count` elements of `width` bytes, where `left` bytes are left. -/
  | sized (width count left : Nat)
  /-- The loop over `count` fields begins. -/
  | loops (count left : Nat)

namespace Work

/-- What is counted can follow. A field has a key of four bytes and a tag. -/
def Fits : Work → Prop
  | read => True
  | sized width count left => count ≤ left ∧ width * count ≤ left
  | loops count left => 5 * count ≤ left

def isRead : Work → Bool
  | read => true
  | sized _ _ _ => false
  | loops _ _ => false

def reads (trace : List Work) : Nat := trace.countP isRead

end Work

/-- Decoding ends, after no more reads than there are bytes, and one that fails; what is counted can
follow. -/
structure WorkBounded {α : Type} (n : Nat) (o : Program.Outcome Exn Work σ α) : Prop where
  ends : ∀ e, o.result = .error e → e.Thrown
  steps : Work.reads o.trace ≤ n + 1
  fits : ∀ w ∈ o.trace, w.Fits

/-! ## The deserializers -/

section Reads

def reading {α : Type} (p : Decoder Exn σ α) : Program Exn Work σ α := do
  Program.emit .read
  Program.ofDecoder p

/-- `data.resize(count)`. -/
def sizing (left : σ → Nat) (width max : Nat) (count : UInt64) : Program Exn Work σ Unit := fun s =>
  if count.toNat ≤ max then ⟨.ok (), [.sized width count.toNat (left s)], s⟩
  else ⟨.error .lengthError, [], s⟩

def looping (left : σ → Nat) (count : UInt64) : Program Exn Work σ Unit := fun s =>
  ⟨.ok (), [.loops count.toNat (left s)], s⟩

/-- `if (pos_ + count > end_) throw`, before a string is assigned. -/
def checkLength (count : UInt64) : Decoder Exn (List UInt8) Unit := fun s =>
  if s.length < count.toNat then .error bufferUnderflow else .ok ((), s)

/-- The reads of `buffer_deserializer`. -/
def bufferWork : ReadsOf (Program Exn Work (List UInt8)) where
  scalar n := reading (bufferScalar bufferUnderflow n)
  next := reading bufferNext
  tooLong := .runtimeError "buffer_deserializer: varint too long"
  resize := sizing List.length
  text max count := do
    Program.ofDecoder (checkLength count)
    sizing List.length 1 max count
    Program.ofDecoder (bufferScalar bufferUnderflow count.toNat)
  block count := Program.ofDecoder (bufferScalar bufferUnderflow count.toNat)
  loop := looping List.length
  lift := Program.lift

/-- The reads of `stream_deserializer`. -/
def streamWork : ReadsOf (Program Exn Work Stream) where
  scalar n := reading (streamScalar n)
  next := reading streamNext
  tooLong := .runtimeError "stream_deserializer: varint too long"
  resize := sizing fun s => s.rest.length
  text max count := do
    sizing (fun s => s.rest.length) 1 max count
    Program.ofDecoder (streamBulk count.toNat)
  block count := Program.ofDecoder (streamBulk count.toNat)
  loop := looping fun s => s.rest.length
  lift := Program.lift

/-- The number of classes. A chain of classes that ends is not longer. -/
def Registry.classes (reg : Registry μ) : Nat := (reg.map fun e => e.2.length).sum

variable (lim : Limits) (reg : Registry μ) (bytes : List UInt8)

/-- Enough for the depth of what is nested, and for the classes of a chain. -/
def decodingFuel : Nat := bytes.length + reg.classes + 1

/-- Decoding a buffer. -/
def bufferRun (format : WireFormat) : Program.Outcome Exn Work (List UInt8) Fields :=
  bufferWork.decode lim reg (decodingFuel reg bytes) format bytes

/-- Decoding a stream. -/
def streamRun (format : WireFormat) : Program.Outcome Exn Work Stream Fields :=
  streamWork.decode lim reg (decodingFuel reg bytes) format ⟨bytes, true⟩

end Reads

/-! ### But for what is reported, this is decoding -/

section Mirrors

open Program

def mirrors : MonadRelation (Program Exn Work σ) (Decoder Exn σ) where
  Rel := Mirrors
  pure _ := fun _ => rfl
  bind := Mirrors.bind

theorem reading_mirrors {α : Type} (p : Decoder Exn σ α) : Mirrors (reading p) p :=
  Mirrors.ofDecoder p

theorem sizing_mirrors (left : σ → Nat) (width max : Nat) (count : UInt64) :
    Mirrors (sizing left width max count) (resize max count) := by
  intro s
  unfold sizing resize
  split <;> rfl

theorem bufferText_mirrors (max : Nat) (count : UInt64) :
    Mirrors (bufferWork.text max count) (bufferReads.text max count) := by
  have htext : bufferReads.text max count = (do
      checkLength count
      resize max count
      bufferScalar bufferUnderflow count.toNat) := by
    funext s
    show bufferReads.text max count s = (checkLength count >>= fun _ => resize max count >>=
      fun _ => bufferScalar bufferUnderflow count.toNat) s
    rw [bufferText_run, Decoder.bind_apply]
    unfold checkLength
    by_cases hshort : s.length < count.toNat
    · rw [if_pos hshort, if_pos hshort]
      rfl
    · rw [if_neg hshort, if_neg hshort]
      show _ = (resize max count >>= fun _ => bufferScalar bufferUnderflow count.toNat) s
      rw [Decoder.bind_apply]
      unfold resize bufferScalar
      split
      · show _ = if s.length < count.toNat then _ else _
        rw [if_neg hshort]
      · rfl
  rw [htext]
  exact (Mirrors.ofDecoder _).bind fun _ => (sizing_mirrors _ _ _ _).bind fun _ =>
    Mirrors.ofDecoder _

theorem bufferWork_related (lim : Limits) : bufferWork.Related mirrors lim bufferReads where
  scalar _ _ := reading_mirrors _
  next := reading_mirrors _
  tooLong := fun _ => rfl
  resize := sizing_mirrors _
  text := bufferText_mirrors _
  block _ := (sizing_mirrors _ _ _ _).bind fun _ => Mirrors.ofDecoder _
  loop _ := fun _ => rfl
  lift _ := fun _ => rfl

theorem streamWork_related (lim : Limits) : streamWork.Related mirrors lim streamReads where
  scalar _ _ := reading_mirrors _
  next := reading_mirrors _
  tooLong := fun _ => rfl
  resize := sizing_mirrors _
  text _ := (sizing_mirrors _ _ _ _).bind fun _ => Mirrors.ofDecoder _
  block _ := (sizing_mirrors _ _ _ _).bind fun _ => Mirrors.ofDecoder _
  loop _ := fun _ => rfl
  lift _ := fun _ => rfl

variable (lim : Limits) (reg : Registry μ) (fuel : Nat) (format : WireFormat)

theorem bufferWork_mirrors : Mirrors (bufferWork.decode lim reg fuel format)
    (bufferReads.decode lim reg fuel format) :=
  ReadsOf.decode_related (bufferWork_related lim) reg fuel format

theorem streamWork_mirrors : Mirrors (streamWork.decode lim reg fuel format)
    (streamReads.decode lim reg fuel format) :=
  ReadsOf.decode_related (streamWork_related lim) reg fuel format

end Mirrors

/-! ## Decoding that checks counts -/

/-- Why decoding that checks counts stops. -/
inductive Verdict where
  | thrown (e : Exn)
  /-- At a count of more than can follow. -/
  | oversize
  /-- At a read that comes to the end of a stream. -/
  | cut

section Checked

def checkedScalar (short : Verdict) (n : Nat) : Decoder Verdict (List UInt8) (List UInt8) :=
  fun s => if s.length < n then .error short else .ok (s.take n, s.drop n)

def checkedNext (ended : Exn) : Decoder Verdict (List UInt8) UInt8
  | [] => .error (.thrown ended)
  | b :: rest => .ok (b, rest)

def checkedResize (width max : Nat) (count : UInt64) : Decoder Verdict (List UInt8) Unit := fun s =>
  if count.toNat ≤ max then
    if count.toNat ≤ s.length ∧ width * count.toNat ≤ s.length then .ok ((), s)
    else .error .oversize
  else .error (.thrown .lengthError)

def checkedLoop (count : UInt64) : Decoder Verdict (List UInt8) Unit := fun s =>
  if 5 * count.toNat ≤ s.length then .ok ((), s) else .error .oversize

/-- The reads of `buffer_deserializer` over bytes, with every count checked. -/
def bufferChecked : ReadsOf (Decoder Verdict (List UInt8)) where
  scalar := checkedScalar (.thrown bufferUnderflow)
  next := checkedNext bufferUnderflow
  tooLong := .runtimeError "buffer_deserializer: varint too long"
  resize := checkedResize
  text max count := fun s =>
    if s.length < count.toNat then .error (.thrown bufferUnderflow)
    else if count.toNat ≤ max then .ok (s.take count.toNat, s.drop count.toNat)
    else .error (.thrown .lengthError)
  block count := checkedScalar (.thrown bufferUnderflow) count.toNat
  loop := checkedLoop
  lift r := Decoder.lift (r.mapError .thrown)

/-- The reads of `stream_deserializer` over bytes, with every count checked, up to the end. -/
def streamChecked : ReadsOf (Decoder Verdict (List UInt8)) where
  scalar := checkedScalar .cut
  next := checkedNext (.runtimeError "stream_deserializer: buffer underflow")
  tooLong := .runtimeError "stream_deserializer: varint too long"
  resize := checkedResize
  text max count := do
    checkedResize 1 max count
    checkedScalar .cut count.toNat
  block count := checkedScalar .cut count.toNat
  loop := checkedLoop
  lift r := Decoder.lift (r.mapError .thrown)

end Checked

/-! ### What they do alike -/

/-- Where nothing is checked that is not checked by `buffer_deserializer`, it ends alike. -/
inductive Agrees {α : Type} : Except Verdict (α × List UInt8) → Except Exn (α × List UInt8) → Prop
  | returns (r : α × List UInt8) : Agrees (.ok r) (.ok r)
  | throws {e e' : Exn} (h : e'.Thrown → e.Thrown) : Agrees (.error (.thrown e)) (.error e')
  | oversize (r : Except Exn (α × List UInt8)) : Agrees (.error .oversize) r
  | cut (r : Except Exn (α × List UInt8)) : Agrees (.error .cut) r

def agrees : MonadRelation (Decoder Verdict (List UInt8)) (Decoder Exn (List UInt8)) where
  Rel p q := ∀ s, Agrees (p s) (q s)
  pure a := fun s => .returns (a, s)
  bind := by
    intro α β p q f g hp hf s
    have hs := hp s
    rw [Decoder.bind_apply, Decoder.bind_apply]
    generalize p s = r, q s = r' at hs
    cases hs with
    | returns r => exact hf r.1 r.2
    | throws h => exact .throws h
    | oversize r => exact .oversize _
    | cut r => exact .cut _

theorem agrees_resize (width max : Nat) (count : UInt64) :
    agrees.Rel (checkedResize width max count) (resize max count) := by
  intro s
  show Agrees _ ((if count.toNat ≤ max then pure () else throw _ : Decoder Exn _ Unit) s)
  unfold checkedResize
  by_cases hmax : count.toNat ≤ max
  · rw [if_pos hmax, if_pos hmax]
    split
    · exact .returns ((), s)
    · exact .oversize _
  · rw [if_neg hmax, if_neg hmax]
    exact .throws id

theorem agrees_loop (count : UInt64) : agrees.Rel (checkedLoop count) (bufferReads.loop count) := by
  intro s
  unfold checkedLoop
  split
  · exact .returns ((), s)
  · exact .oversize _

theorem agrees_lift {β : Type} (r : Except Exn β) :
    agrees.Rel (Decoder.lift (r.mapError .thrown)) (Decoder.lift r) := by
  intro s
  cases r with
  | error e => exact .throws id
  | ok a => exact .returns (a, s)

theorem agrees_next {ended : Exn} (hended : ended.Thrown) :
    agrees.Rel (checkedNext ended) bufferNext := by
  intro s
  cases s with
  | nil => exact .throws fun _ => hended
  | cons b rest => exact .returns (b, rest)

theorem agrees_scalar {short : Verdict} (hshort : short = .cut ∨ short = .thrown bufferUnderflow)
    (n : Nat) : agrees.Rel (checkedScalar short n) (bufferScalar bufferUnderflow n) := by
  intro s
  unfold checkedScalar bufferScalar
  by_cases hlt : s.length < n
  · rw [if_pos hlt, if_pos hlt]
    rcases hshort with rfl | rfl
    · exact .cut _
    · exact .throws id
  · rw [if_neg hlt, if_neg hlt]
    exact .returns _

theorem bufferChecked_agrees (lim : Limits) : bufferChecked.Related agrees lim bufferReads where
  scalar _ _ := agrees_scalar (.inr rfl) _
  next := agrees_next trivial
  tooLong s := .throws id
  resize := agrees_resize
  text count s := by
    rw [bufferText_run]
    show Agrees (if _ then _ else _) _
    split
    · exact .throws id
    · split
      · exact .returns _
      · exact .throws id
  block _ := agrees.bind (agrees_resize _ _ _) fun _ => agrees_scalar (.inr rfl) _
  loop := agrees_loop
  lift := agrees_lift

theorem streamChecked_agrees (lim : Limits) : streamChecked.Related agrees lim bufferReads where
  scalar _ _ := agrees_scalar (.inl rfl) _
  next := agrees_next trivial
  tooLong s := .throws id
  resize := agrees_resize
  text count s := by
    rw [bufferText_run]
    show Agrees ((checkedResize 1 lim.maxString count >>= fun _ => _) s) _
    rw [Decoder.bind_apply]
    unfold checkedResize checkedScalar
    by_cases hmax : count.toNat ≤ lim.maxString
    · rw [if_pos hmax, if_pos hmax]
      by_cases hfits : count.toNat ≤ s.length
      · have hnot : ¬ s.length < count.toNat := Nat.not_lt.mpr hfits
        rw [if_pos ⟨hfits, by rwa [one_mul]⟩, if_neg hnot]
        show Agrees (if s.length < count.toNat then _ else _) _
        rw [if_neg hnot]
        exact .returns _
      · rw [if_neg fun h => hfits h.1]
        exact .oversize _
    · rw [if_neg hmax, if_neg hmax]
      split
      · exact .throws fun _ => trivial
      · exact .throws id
  block _ := agrees.bind (agrees_resize _ _ _) fun _ => agrees_scalar (.inl rfl) _
  loop := agrees_loop
  lift := agrees_lift

/-! ### What a run spends -/

section Spends

open Work

/-- What a run of a deserializer has to do with decoding that checks counts, from `n` bytes on. -/
inductive Spends (embed : List UInt8 → σ) (n : Nat) {α : Type} :
    Except Verdict (α × List UInt8) → Program.Outcome Exn Work σ α → Prop
  | returns {a : α} {rest : List UInt8} {trace : List Work} (fits : ∀ w ∈ trace, w.Fits)
      (steps : reads trace + rest.length ≤ n) :
      Spends embed n (.ok (a, rest)) ⟨.ok a, trace, embed rest⟩
  | throws {e : Exn} {trace : List Work} {s : σ} (fits : ∀ w ∈ trace, w.Fits)
      (steps : reads trace ≤ n + 1) : Spends embed n (.error (.thrown e)) ⟨.error e, trace, s⟩
  | oversize {result : Except Exn α} {trace : List Work} {s : σ}
      (exceeds : ∃ w ∈ trace, ¬ w.Fits) : Spends embed n (.error .oversize) ⟨result, trace, s⟩
  | cut (o : Program.Outcome Exn Work σ α) : Spends embed n (.error .cut) o

variable {embed : List UInt8 → σ} {n : Nat}

theorem Spends.prepend {α : Type} {r : Except Verdict (α × List UInt8)}
    {o : Program.Outcome Exn Work σ α} {before : List Work} {k : Nat} (h : Spends embed k r o)
    (hfits : ∀ w ∈ before, w.Fits) (hsteps : reads before + k ≤ n) :
    Spends embed n r ⟨o.result, before ++ o.trace, o.state⟩ := by
  have happend : ∀ {trace : List Work}, (∀ w ∈ trace, w.Fits) →
      ∀ w ∈ before ++ trace, w.Fits := by
    intro trace htrace w hw
    rcases List.mem_append.mp hw with hw | hw
    · exact hfits w hw
    · exact htrace w hw
  have hreads : ∀ trace, reads (before ++ trace) = reads before + reads trace :=
    fun trace => List.countP_append
  cases h with
  | @returns _ _ trace fits steps =>
    refine .returns (happend fits) ?_
    rw [hreads trace]
    omega
  | @throws _ trace _ fits steps =>
    refine .throws (happend fits) ?_
    rw [hreads trace]
    omega
  | oversize exceeds =>
    obtain ⟨w, hw, hnot⟩ := exceeds
    exact .oversize ⟨w, List.mem_append_right _ hw, hnot⟩
  | cut o => exact .cut _

def spends (embed : List UInt8 → σ) :
    MonadRelation (Program Exn Work σ) (Decoder Verdict (List UInt8)) where
  Rel p q := ∀ s, Spends embed s.length (q s) (p (embed s))
  pure a := fun s => .returns (List.forall_mem_nil _) (by simp [reads])
  bind := by
    intro α β p q f g hp hf s
    have hs := hp s
    rw [Decoder.bind_apply, Program.bind_run]
    generalize q s = r, p (embed s) = o at hs
    cases hs with
    | returns fits steps => exact (hf _ _).prepend fits steps
    | throws fits steps => exact .throws fits steps
    | @oversize result _ _ exceeds =>
      -- the run may go on, but what it has announced stays in its trace
      cases result with
      | error e => exact .oversize exceeds
      | ok a =>
        obtain ⟨w, hw, hnot⟩ := exceeds
        exact .oversize ⟨w, List.mem_append_left _ hw, hnot⟩
    | cut o => exact .cut _

theorem spends_sizing (embed : List UInt8 → σ) {left : σ → Nat}
    (hleft : ∀ s, left (embed s) = s.length) (width max : Nat) (count : UInt64) :
    (spends embed).Rel (sizing left width max count) (checkedResize width max count) := by
  intro s
  unfold sizing checkedResize
  by_cases hmax : count.toNat ≤ max
  · rw [if_pos hmax, if_pos hmax, hleft]
    split
    · next h => exact .returns (List.forall_mem_singleton.mpr h) (by simp [reads, isRead])
    · next h => exact .oversize ⟨_, List.mem_singleton_self _, h⟩
  · rw [if_neg hmax, if_neg hmax]
    exact .throws (List.forall_mem_nil _) (Nat.zero_le _)

theorem spends_looping (embed : List UInt8 → σ) {left : σ → Nat}
    (hleft : ∀ s, left (embed s) = s.length) (count : UInt64) :
    (spends embed).Rel (looping left count) (checkedLoop count) := by
  intro s
  unfold looping checkedLoop
  rw [hleft]
  split
  · next h => exact .returns (List.forall_mem_singleton.mpr h) (by simp [reads, isRead])
  · next h => exact .oversize ⟨_, List.mem_singleton_self _, h⟩

theorem spends_lift (embed : List UInt8 → σ) {β : Type} (r : Except Exn β) :
    (spends embed).Rel (Program.lift r) (Decoder.lift (r.mapError .thrown)) := by
  intro s
  cases r with
  | error e => exact .throws (List.forall_mem_nil _) (Nat.zero_le _)
  | ok a => exact .returns (List.forall_mem_nil _) (by simp [reads])

variable {α : Type} {p : Decoder Exn σ α} {s s' : σ}

theorem emit_read (s : σ) :
    (Program.emit .read : Program Exn Work σ Unit) s = ⟨.ok (), [.read], s⟩ := rfl

theorem reading_ok {a : α} (h : p s = .ok (a, s')) : reading p s = ⟨.ok a, [.read], s'⟩ := by
  have hp : (Program.ofDecoder p : Program Exn Work σ α) s = _ := Program.ofDecoder_ok h
  rw [reading, Program.bind_ok (emit_read s), hp]
  rfl

theorem reading_error {e : Exn} (h : p s = .error e) : reading p s = ⟨.error e, [.read], s⟩ := by
  have hp : (Program.ofDecoder p : Program Exn Work σ α) s = _ := Program.ofDecoder_error h
  rw [reading, Program.bind_ok (emit_read s), hp]
  rfl

theorem reads_one : reads [.read] = 1 := rfl

theorem reads_one_le (n : Nat) : reads [.read] ≤ n + 1 := Nat.succ_le_succ (Nat.zero_le n)

theorem read_fits : ∀ w ∈ [Work.read], w.Fits := List.forall_mem_singleton.mpr trivial

/-- A byte of a count that is taken, or is not there. -/
theorem spends_next {embed : List UInt8 → σ} {next : Decoder Exn σ UInt8} {ended : Exn}
    (hcons : ∀ b rest, next (embed (b :: rest)) = .ok (b, embed rest))
    (hnil : next (embed []) = .error ended) :
    (spends embed).Rel (reading next) (checkedNext ended) := by
  intro s
  cases s with
  | nil =>
    rw [reading_error hnil]
    exact .throws read_fits (reads_one_le _)
  | cons b rest =>
    rw [reading_ok (hcons b rest)]
    refine .returns read_fits ?_
    rw [reads_one, List.length_cons]
    omega

/-- A read that fits takes its bytes. -/
theorem spends_taken {embed : List UInt8 → σ} {p : Decoder Exn σ (List UInt8)} {s : List UInt8}
    {n : Nat} (hpos : 1 ≤ n) (hfits : ¬ s.length < n)
    (hp : p (embed s) = .ok (s.take n, embed (s.drop n))) :
    Spends embed s.length (.ok (s.take n, s.drop n)) (reading p (embed s)) := by
  rw [reading_ok hp]
  refine .returns read_fits ?_
  rw [reads_one, List.length_drop]
  omega

theorem spends_block {embed : List UInt8 → σ} {p : Decoder Exn σ (List UInt8)} {s : List UInt8}
    {n : Nat} (hp : p (embed s) = .ok (s.take n, embed (s.drop n))) :
    Spends embed s.length (.ok (s.take n, s.drop n)) (Program.ofDecoder p (embed s)) := by
  rw [Program.ofDecoder_ok hp]
  refine .returns (List.forall_mem_nil _) ?_
  rw [List.length_drop]
  show 0 + _ ≤ _
  omega

/-! #### A buffer -/

theorem bufferScalar_ok {n : Nat} {s : List UInt8} (h : ¬ s.length < n) :
    bufferScalar bufferUnderflow n s = .ok (s.take n, s.drop n) := if_neg h

theorem buffer_spends_scalar {n : Nat} (hpos : 1 ≤ n) : (spends id).Rel
    (reading (bufferScalar bufferUnderflow n)) (checkedScalar (.thrown bufferUnderflow) n) := by
  intro s
  unfold checkedScalar
  by_cases hshort : s.length < n
  · have hp : bufferScalar bufferUnderflow n s = .error bufferUnderflow := if_pos hshort
    rw [if_pos hshort, show reading _ (id s) = _ from reading_error hp]
    exact .throws read_fits (reads_one_le _)
  · rw [if_neg hshort]
    exact spends_taken hpos hshort (bufferScalar_ok hshort)

theorem buffer_spends_block (count : UInt64) : (spends id).Rel (bufferWork.block count)
    (bufferChecked.block count) := by
  intro s
  show Spends id s.length (checkedScalar (.thrown bufferUnderflow) count.toNat s)
    (Program.ofDecoder (bufferScalar bufferUnderflow count.toNat) (id s))
  unfold checkedScalar
  by_cases hshort : s.length < count.toNat
  · have hp : bufferScalar bufferUnderflow count.toNat s = .error bufferUnderflow := if_pos hshort
    rw [if_pos hshort, show Program.ofDecoder _ (id s) = _ from Program.ofDecoder_error hp]
    exact .throws (List.forall_mem_nil _) (Nat.zero_le _)
  · rw [if_neg hshort]
    exact spends_block (bufferScalar_ok hshort)

/-- The length of a string is checked before it is assigned. -/
theorem buffer_spends_text (max : Nat) (count : UInt64) : (spends id).Rel
    (bufferWork.text max count) (bufferChecked.text max count) := by
  intro s
  show Spends id s.length (if s.length < count.toNat then _ else if count.toNat ≤ max then _ else _)
    ((Program.ofDecoder (checkLength count) >>= fun _ => sizing List.length 1 max count >>= fun _ =>
      Program.ofDecoder (bufferScalar bufferUnderflow count.toNat)) s)
  by_cases hshort : s.length < count.toNat
  · have hcheck : checkLength count s = .error bufferUnderflow := if_pos hshort
    rw [if_pos hshort, Program.bind_error (Program.ofDecoder_error hcheck)]
    exact .throws (List.forall_mem_nil _) (Nat.zero_le _)
  · have hcheck : checkLength count s = .ok ((), s) := if_neg hshort
    rw [if_neg hshort, Program.bind_ok (Program.ofDecoder_ok hcheck)]
    by_cases hmax : count.toNat ≤ max
    · have hsizing : sizing List.length 1 max count s =
          ⟨.ok (), [.sized 1 count.toNat s.length], s⟩ := if_pos hmax
      have hfits : (sized 1 count.toNat s.length).Fits := ⟨by omega, by omega⟩
      have hblock : Spends id s.length _ _ := spends_block (bufferScalar_ok hshort)
      rw [if_pos hmax, Program.bind_ok hsizing]
      exact hblock.prepend (List.forall_mem_singleton.mpr hfits) (Nat.le_of_eq (Nat.zero_add _))
    · have hsizing : sizing List.length 1 max count s = ⟨.error .lengthError, [], s⟩ := if_neg hmax
      rw [if_neg hmax, Program.bind_error hsizing]
      exact .throws (List.forall_mem_nil _) (Nat.zero_le _)

theorem bufferWork_spends (lim : Limits) :
    bufferWork.Related (spends id) lim bufferChecked where
  scalar hpos _ := buffer_spends_scalar hpos
  next := spends_next (fun _ _ => rfl) rfl
  tooLong := spends_lift id (.error _)
  resize := spends_sizing id fun _ => rfl
  text := buffer_spends_text _
  block count := (spends id).bind (spends_sizing id (fun _ => rfl) _ _ _) fun _ =>
    buffer_spends_block count
  loop := spends_looping id fun _ => rfl
  lift := spends_lift id

/-! #### A stream -/

/-- A stream with these bytes left. -/
def streamOf (bytes : List UInt8) : Stream := ⟨bytes, true⟩

theorem streamScalar_ok {n : Nat} {s : List UInt8} (h : ¬ s.length < n) :
    streamScalar n (streamOf s) = .ok (s.take n, streamOf (s.drop n)) := if_neg h

theorem streamBulk_ok {n : Nat} {s : List UInt8} (h : ¬ s.length < n) :
    streamBulk n (streamOf s) = .ok (s.take n, streamOf (s.drop n)) := by
  unfold streamBulk
  by_cases hpos : n > 0
  · rw [if_pos hpos, streamScalar_ok h]
  · obtain rfl : n = 0 := by omega
    rfl

theorem stream_spends_scalar {n : Nat} (hpos : 1 ≤ n) :
    (spends streamOf).Rel (reading (streamScalar n)) (checkedScalar .cut n) := by
  intro s
  unfold checkedScalar
  by_cases hshort : s.length < n
  · rw [if_pos hshort]
    exact .cut _
  · rw [if_neg hshort]
    exact spends_taken hpos hshort (streamScalar_ok hshort)

theorem stream_spends_bulk (count : UInt64) : (spends streamOf).Rel
    (Program.ofDecoder (streamBulk count.toNat)) (checkedScalar .cut count.toNat) := by
  intro s
  unfold checkedScalar
  by_cases hshort : s.length < count.toNat
  · rw [if_pos hshort]
    exact .cut _
  · rw [if_neg hshort]
    exact spends_block (streamBulk_ok hshort)

theorem streamWork_spends (lim : Limits) :
    streamWork.Related (spends streamOf) lim streamChecked where
  scalar hpos _ := stream_spends_scalar hpos
  next := spends_next (fun _ _ => rfl) rfl
  tooLong := spends_lift streamOf (.error _)
  resize := spends_sizing streamOf fun _ => rfl
  text count := (spends streamOf).bind (spends_sizing streamOf (fun _ => rfl) _ _ _) fun _ =>
    stream_spends_bulk count
  block count := (spends streamOf).bind (spends_sizing streamOf (fun _ => rfl) _ _ _) fun _ =>
    stream_spends_bulk count
  loop := spends_looping streamOf fun _ => rfl
  lift := spends_lift streamOf

end Spends

/-! ## Where the work is bounded -/

section Bounded

variable (lim : Limits) (reg : Registry μ) (bytes : List UInt8) (format : WireFormat)

theorem bufferRun_spends : Spends id bytes.length
    (bufferChecked.decode lim reg (decodingFuel reg bytes) format bytes)
    (bufferRun lim reg bytes format) :=
  ReadsOf.decode_related (bufferWork_spends lim) reg _ format bytes

theorem streamRun_spends : Spends streamOf bytes.length
    (streamChecked.decode lim reg (decodingFuel reg bytes) format bytes)
    (streamRun lim reg bytes format) :=
  ReadsOf.decode_related (streamWork_spends lim) reg _ format bytes

variable {lim reg bytes format}

theorem not_workBounded {α : Type} {embed : List UInt8 → σ} {n m : Nat}
    {o : Program.Outcome Exn Work σ α} (h : Spends embed n (.error .oversize) o) :
    ¬ WorkBounded m o := by
  intro hbounded
  cases h with
  | oversize exceeds =>
    obtain ⟨w, hw, hnot⟩ := exceeds
    exact hnot (hbounded.fits w hw)

/-- Where no count is of more than can follow, and no read comes to the end of a stream, the work is
bounded. -/
theorem workBounded_of_spends {embed : List UInt8 → σ}
    {r : Except Verdict (Fields × List UInt8)} {o : Program.Outcome Exn Work σ Fields}
    (h : Spends embed bytes.length r o)
    (hagrees : Agrees r (bufferReads.decode lim reg (decodingFuel reg bytes) format bytes))
    (hfits : r ≠ .error .oversize) (hcut : r ≠ .error .cut) : WorkBounded bytes.length o := by
  have hfuel : bytes.length < decodingFuel reg bytes := by
    unfold decodingFuel
    omega
  cases h with
  | @returns _ _ trace fits steps =>
    have hsteps : Work.reads trace ≤ bytes.length + 1 := by omega
    exact ⟨fun e he => (by cases he), hsteps, fits⟩
  | throws fits steps =>
    refine ⟨fun e he => ?_, steps, fits⟩
    cases he
    have hthrows : ∀ e', bufferReads.decode lim reg (decodingFuel reg bytes) format bytes =
        .error e' → e'.Thrown := fun e' he => bufferReads_thrown hfuel he
    generalize bufferReads.decode lim reg _ format bytes = r' at hagrees hthrows
    cases hagrees with
    | throws hthrown => exact hthrown (hthrows _ rfl)
  | oversize _ => exact absurd rfl hfits
  | cut _ => exact absurd rfl hcut

/-- The reads of a buffer do not go on behind its end. -/
def neverCut : MonadRelation (Decoder Verdict (List UInt8)) (Decoder Verdict (List UInt8)) where
  Rel p _ := p.FailsOnly (· ≠ .cut)
  pure := .pure
  bind := .bind

theorem neverCut_scalar (n : Nat) :
    (checkedScalar (.thrown bufferUnderflow) n).FailsOnly (· ≠ .cut) := by
  intro s e h
  unfold checkedScalar at h
  split at h
  · cases h
    exact Verdict.noConfusion
  · cases h

theorem neverCut_resize (width max : Nat) (count : UInt64) :
    (checkedResize width max count).FailsOnly (· ≠ .cut) := by
  intro s e h
  unfold checkedResize at h
  split at h
  · split at h
    · cases h
    · cases h
      exact Verdict.noConfusion
  · cases h
    exact Verdict.noConfusion

theorem neverCut_lift {β : Type} (r : Except Exn β) :
    (Decoder.lift (σ := List UInt8) (r.mapError Verdict.thrown)).FailsOnly (· ≠ .cut) := by
  intro s e h
  cases r with
  | error e' =>
    cases h
    exact Verdict.noConfusion
  | ok a => cases h

theorem bufferChecked_neverCut (lim : Limits) :
    bufferChecked.Related neverCut lim bufferChecked where
  scalar _ _ := neverCut_scalar _
  next s e h := by
    cases s with
    | nil =>
      cases h
      exact Verdict.noConfusion
    | cons b rest => cases h
  tooLong := neverCut_lift (.error _)
  resize := neverCut_resize
  text count s e h := by
    replace h : (if s.length < count.toNat then .error (.thrown bufferUnderflow)
      else if count.toNat ≤ lim.maxString then .ok (s.take count.toNat, s.drop count.toNat)
      else .error (.thrown .lengthError) : Except Verdict (List UInt8 × List UInt8)) = .error e := h
    split at h
    · cases h
      exact Verdict.noConfusion
    · split at h
      · cases h
      · cases h
        exact Verdict.noConfusion
  block _ := .bind (neverCut_resize _ _ _) fun _ => neverCut_scalar _
  loop count s e h := by
    replace h : checkedLoop count s = .error e := h
    unfold checkedLoop at h
    split at h
    · cases h
    · cases h
      exact Verdict.noConfusion
  lift := neverCut_lift

variable (lim reg bytes format)

/-- Decoding a buffer comes to no count of more than can follow. -/
def BufferFits : Prop :=
  bufferChecked.decode lim reg (decodingFuel reg bytes) format bytes ≠ .error .oversize

/-- Nor does decoding a stream, and no read comes to its end. -/
structure StreamFits : Prop where
  counts : streamChecked.decode lim reg (decodingFuel reg bytes) format bytes ≠ .error .oversize
  ends : streamChecked.decode lim reg (decodingFuel reg bytes) format bytes ≠ .error .cut

/-- **Main result**: the work is bounded exactly if no count is of more than can follow. For a
stream it is if none is, and no read comes to its end; and it is not, where a count is of more than
can follow before any read comes to the end. -/
theorem workBounded_iff :
    (WorkBounded bytes.length (bufferRun lim reg bytes format) ↔
      BufferFits lim reg bytes format) ∧
    (StreamFits lim reg bytes format → WorkBounded bytes.length (streamRun lim reg bytes format)) ∧
    (WorkBounded bytes.length (streamRun lim reg bytes format) →
      streamChecked.decode lim reg (decodingFuel reg bytes) format bytes ≠ .error .oversize) := by
  have hbuffer := bufferRun_spends lim reg bytes format
  have hstream := streamRun_spends lim reg bytes format
  refine ⟨⟨fun h hover => ?_, fun h => ?_⟩, fun h => ?_, fun h hover => ?_⟩
  · -- the trace has the count that does not fit
    rw [hover] at hbuffer
    exact not_workBounded hbuffer h
  · have hagrees := ReadsOf.decode_related (bufferChecked_agrees lim) reg (decodingFuel reg bytes)
      format bytes
    refine workBounded_of_spends hbuffer hagrees h fun hcut => ?_
    exact ReadsOf.decode_related (bufferChecked_neverCut lim) reg _ format bytes _ hcut rfl
  · have hagrees := ReadsOf.decode_related (streamChecked_agrees lim) reg (decodingFuel reg bytes)
      format bytes
    exact workBounded_of_spends hstream hagrees h.counts h.ends
  · rw [hover] at hstream
    exact not_workBounded hstream h

end Bounded

/-! ## A count of more than can follow -/

/-- The largest containers of the standard library. -/
def largest : Limits := ⟨2 ^ 63 - 1, 2 ^ 63 - 1, 2 ^ 61 - 1, 2 ^ 61 - 1, 2 ^ 63 - 1, by decide,
  by decide, by decide, by decide, by decide⟩

/-- One field, an array of 2^40 bytes of which none follows. -/
def hugeArray : List UInt8 := [1, 0, 0, 0, 9, 11, 0x80, 0x80, 0x80, 0x80, 0x80, 0x20]

/-- The array is sized before its bytes are missed. -/
theorem hugeArray_sized :
    .sized 1 (2 ^ 40) 0 ∈ (bufferRun largest ([] : Registry Unit) hugeArray .standard).trace := by
  have htrace : (bufferRun largest ([] : Registry Unit) hugeArray .standard).trace =
      [.read, .loops 1 11] ++ List.replicate 8 .read ++ [.sized 1 (2 ^ 40) 0] := rfl
  rw [htrace]
  exact List.mem_append_right _ (List.mem_singleton_self _)

/-- The work of decoding is not bounded by every input. -/
theorem hugeArray_unbounded : ¬ ∀ (lim : Limits) (reg : Registry Unit) (bytes : List UInt8)
    (format : WireFormat), WorkBounded bytes.length (bufferRun lim reg bytes format) ∧
      WorkBounded bytes.length (streamRun lim reg bytes format) := by
  intro h
  have hfits := (h largest [] hugeArray .standard).1.fits _ hugeArray_sized
  exact absurd hfits.1 (by decide)

end Bison
