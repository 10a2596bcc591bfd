import Bison.Core.StandardFormat

/-!
# Decoding over any reader

Facts about `dynamic::deserialize` that hold for every implementation of the reads it is
written over.

- `Reader.Related`: two readers whose reads are related by a congruence;
  `Dynamic.deserialize_related` lifts the relation to whole trees.
- `Reader.Measured`: a reader whose reads never give input back, and take a byte wherever
  a tag that is not zero is read. `Dynamic.deserialize_thrown`: with fuel for the input
  size, decoding over such a reader returns or throws, so it neither exhausts the model's
  fuel nor walks a cyclic class chain.
- `Dynamic.deserialize_fuel`: more fuel changes nothing.
-/

namespace Bison

open SortedMap Decoder

variable {σ τ μ : Type}

/-! ## Related readers -/

/-- Every read of one reader is related to that of the other. -/
structure Reader.Related (C : Congruence Exn σ τ) (rd : Reader σ) (rd' : Reader τ) : Prop where
  scalar : ∀ n, C.Rel (rd.scalar n) (rd'.scalar n)
  varint : C.Rel rd.varint rd'.varint
  string : C.Rel rd.string rd'.string
  bools : C.Rel rd.bools rd'.bools
  int32s : C.Rel rd.int32s rd'.int32s
  floats : C.Rel rd.floats rd'.floats
  bytes : C.Rel rd.bytes rd'.bytes

section Related

variable {C : Congruence Exn σ τ} {rd : Reader σ} {rd' : Reader τ}

/-- The switch keeps the relation, one read or construction per tag. -/
theorem Field.deserializeTagged_related (h : rd.Related C rd') {nested : Decoder Exn σ Fields}
    {nested' : Decoder Exn τ Fields} (hn : C.Rel nested nested') : ∀ tag,
    C.Rel (Field.deserializeTagged rd nested tag) (Field.deserializeTagged rd' nested' tag)
  | 0 => C.pure _
  | 1 => C.map _ (C.map _ (h.scalar 4))
  | 2 => C.map _ (C.map _ (h.scalar 4))
  | 3 => C.map _ (C.map _ (h.scalar 1))
  | 4 => C.map _ (C.map _ (h.scalar 4))
  | 5 => C.map _ (C.map _ (h.scalar 4))
  | 6 => C.bind (C.map _ (h.scalar 1)) fun present => by
    cases present with
    | true => exact C.map _ hn
    | false => exact C.pure _
  | 7 => C.map _ h.string
  | 8 => C.map _ h.bools
  | 9 => C.map _ h.int32s
  | 10 => C.map _ h.floats
  | 11 => C.map _ h.bytes
  | _ + 12 => C.throw _

theorem Field.deserialize_related (h : rd.Related C rd') {nested : Decoder Exn σ Fields}
    {nested' : Decoder Exn τ Fields} (hn : C.Rel nested nested') :
    C.Rel (Field.deserialize rd nested) (Field.deserialize rd' nested') :=
  C.bind (C.map _ (h.scalar 1)) fun type => Field.deserializeTagged_related h hn type.toNat

theorem Dynamic.deserializeLoop_related (h : rd.Related C rd') {readField : Decoder Exn σ Value}
    {readField' : Decoder Exn τ Value} (hf : C.Rel readField readField') :
    ∀ (n : Nat) (dyn : Fields), C.Rel (Dynamic.deserializeLoop rd readField n dyn)
      (Dynamic.deserializeLoop rd' readField' n dyn)
  | 0, dyn => C.pure dyn
  | n + 1, dyn => C.bind (C.map _ (h.scalar 4)) fun key => C.bind hf fun f =>
    Dynamic.deserializeLoop_related h hf n (insert key f dyn)

theorem Dynamic.deserializeWith_related (h : rd.Related C rd') {readField : Decoder Exn σ Value}
    {readField' : Decoder Exn τ Value} (hf : C.Rel readField readField') :
    C.Rel (Dynamic.deserializeWith rd readField) (Dynamic.deserializeWith rd' readField') :=
  C.bind h.varint fun count => Dynamic.deserializeLoop_related h hf count.toNat Dynamic.empty

theorem deserializeInstance_related (h : rd.Related C rd') (reg : Registry μ) :
    ∀ fuel, C.Rel (deserializeInstance rd reg fuel) (deserializeInstance rd' reg fuel)
  | 0 => C.throw _
  | fuel + 1 => C.bind
    (Dynamic.deserializeWith_related h
      (Field.deserialize_related h (deserializeInstance_related h reg fuel)))
    fun dyn => C.lift (finishInstance reg dyn)

/-- **Lifting**: related readers decode related trees. -/
theorem Dynamic.deserialize_related (h : rd.Related C rd') (reg : Registry μ) (fuel : Nat) :
    C.Rel (Dynamic.deserialize rd reg fuel) (Dynamic.deserialize rd' reg fuel) :=
  Dynamic.deserializeWith_related h
    (Field.deserialize_related h (deserializeInstance_related h reg fuel))

end Related

/-! ## Decoding returns or throws -/

section Thrown

theorem castKey_thrown {v : Value} {e : Exn} (h : castKey v = .error e) : e.Thrown := by
  unfold castKey at h
  split at h <;> cases h <;> trivial

theorem getAsKey_thrown {reg : Registry μ} {name : Key}
    (hall : ∀ p : Prototype μ, (p.fields.lookup name).isSome) {d : Fields} {e : Exn}
    (h : getAsKey reg name d = .error e) : e.Thrown := by
  rcases bind_eq_error.mp h with h | ⟨v, d', -, h⟩
  · exact findField_thrown_of_held hall h
  · cases v with
    | none => cases h
    | some v =>
      have h' : (castKey v).map (fun k => (k, d')) = .error e := h
      cases hc : castKey v with
      | error e' =>
        rw [hc] at h'
        rw [← Except.error.inj h']
        exact castKey_thrown hc
      | ok k =>
        rw [hc] at h'
        cases h'

theorem createInstance_thrown {reg : Registry μ} {ns klass : Key} {e : Exn}
    (h : createInstance reg ns klass = .error e) : e.Thrown := by
  unfold createInstance at h
  split at h
  · cases h
  · split at h
    · cases h
    · next p _ =>
      split at h
      · next made hf => exact p.factoryThrows e (by rw [hf, h])
      · cases h

/-- `deserialize_instance` returns or throws once the object is decoded. -/
theorem finishInstance_thrown {reg : Registry μ} {dyn : Fields} {e : Exn}
    (h : finishInstance reg dyn = .error e) : e.Thrown := by
  unfold finishInstance at h
  cases hns : getAsKey reg NAMESPACE dyn with
  | error e' =>
    simp only [hns, error_bind] at h
    rw [← Except.error.inj h]
    exact getAsKey_thrown Prototype.namespace_isSome hns
  | ok r =>
    obtain ⟨ns, d⟩ := r
    cases hc : getAsKey reg CLASS d with
    | error e' =>
      simp only [hns, hc, ok_bind, error_bind] at h
      rw [← Except.error.inj h]
      exact getAsKey_thrown Prototype.class_isSome hc
    | ok r =>
      obtain ⟨c, d'⟩ := r
      cases hm : createInstance reg ns c with
      | error e' =>
        simp only [hns, hc, hm, ok_bind, error_bind] at h
        rw [← Except.error.inj h]
        exact createInstance_thrown hm
      | ok made =>
        simp only [hns, hc, hm, ok_bind] at h
        cases made <;> cases h

variable (size : σ → Nat)

/-- From any state of at most `n`, the decoder gives no input back and fails only by
throwing. -/
def Within (n : Nat) {α : Type} (p : Decoder Exn σ α) : Prop :=
  ∀ s, size s ≤ n →
    match p s with
    | .ok (_, s') => size s' ≤ size s
    | .error e => e.Thrown

variable {size} {n : Nat} {α β : Type}

theorem Within.pure (a : α) : Within size n (Pure.pure a) := fun _ _ => le_rfl

theorem Within.lift {r : Except Exn α} (h : ∀ e, r = .error e → e.Thrown) :
    Within size n (Decoder.lift r) := by
  intro s _
  cases r with
  | error e => exact h e rfl
  | ok a => exact le_rfl

theorem Within.bind {p : Decoder Exn σ α} {f : α → Decoder Exn σ β} (hp : Within size n p)
    (hf : ∀ a s s', size s ≤ n → p s = .ok (a, s') → Within size (size s') (f a)) :
    Within size n (p >>= f) := by
  intro s hs
  have hps := hp s hs
  cases hr : p s with
  | error e =>
    rw [hr] at hps
    rw [bind_error hr]
    exact hps
  | ok as =>
    obtain ⟨a, s'⟩ := as
    rw [hr] at hps
    have hfs := hf a s s' hs hr s' le_rfl
    rw [bind_ok hr]
    cases hr' : f a s' with
    | error e =>
      rw [hr'] at hfs
      exact hfs
    | ok bs =>
      rw [hr'] at hfs
      exact le_trans hfs hps

theorem Within.mono {p : Decoder Exn σ α} {m : Nat} (h : Within size n p) (hm : m ≤ n) :
    Within size m p :=
  fun s hs => h s (le_trans hs hm)

/-- `Within.bind` where the second part does not depend on how much the first read. -/
theorem Within.bind' {p : Decoder Exn σ α} {f : α → Decoder Exn σ β} (hp : Within size n p)
    (hf : ∀ a, Within size n (f a)) : Within size n (p >>= f) := by
  refine hp.bind fun a s s' hs hr => (hf a).mono ?_
  have hps := hp s hs
  rw [hr] at hps
  exact le_trans hps hs

theorem Within.map {p : Decoder Exn σ α} (g : α → β) (h : Within size n p) :
    Within size n (g <$> p) :=
  Within.bind' h fun a => Within.pure (g a)

theorem Within.count {p : Decoder Exn σ α} (h : Within size n p) :
    ∀ m, Within size n (Decoder.count p m)
  | 0 => Within.pure []
  | m + 1 => h.bind' fun a => (Within.count h m).bind' fun as => Within.pure (a :: as)

end Thrown

/-- A reader that never gives input back, fails only by throwing, and takes input wherever
it reads a byte that is not zero. -/
structure Reader.Measured (size : σ → Nat) (rd : Reader σ) : Prop where
  scalar : ∀ n k, Within size n (rd.scalar k)
  varint : ∀ n, Within size n rd.varint
  string : ∀ n, Within size n rd.string
  bools : ∀ n, Within size n rd.bools
  int32s : ∀ n, Within size n rd.int32s
  floats : ∀ n, Within size n rd.floats
  bytes : ∀ n, Within size n rd.bytes
  tag : ∀ {s s' b}, rd.byte s = .ok (b, s') → b ≠ 0 → size s' < size s

section Measured

variable {size : σ → Nat} {rd : Reader σ} {reg : Registry μ}

theorem Field.deserializeTagged_within (h : rd.Measured size) {nested : Decoder Exn σ Fields}
    {n : Nat} : ∀ {tag}, (tag = 6 → Within size n nested) →
      Within size n (Field.deserializeTagged rd nested tag)
  | 0, _ => Within.pure _
  | 1, _ | 2, _ | 4, _ | 5, _ => ((h.scalar _ 4).map _).map _
  | 3, _ => ((h.scalar _ 1).map _).map _
  | 6, hn => Within.bind' ((h.scalar _ 1).map _) fun present => by
    cases present with
    | true => exact (hn rfl).map _
    | false => exact Within.pure _
  | 7, _ => (h.string _).map _
  | 8, _ => (h.bools _).map _
  | 9, _ => (h.int32s _).map _
  | 10, _ => (h.floats _).map _
  | 11, _ => (h.bytes _).map _
  | _ + 12, _ => fun _ _ => trivial

/-- A field of an input of size `n`: a nested object starts behind a tag, so it has less. -/
theorem Field.deserialize_within (h : rd.Measured size) {nested : Decoder Exn σ Fields} {n : Nat}
    (hn : ∀ m, m < n → Within size m nested) : Within size n (Field.deserialize rd nested) := by
  refine ((h.scalar n 1).map byteOf).bind fun type s s' hs hr => ?_
  refine Field.deserializeTagged_within h fun htag => hn _ ?_
  have hne : type ≠ 0 := by
    rintro rfl
    cases htag
  exact lt_of_lt_of_le (h.tag hr hne) hs

theorem Dynamic.deserializeLoop_within (h : rd.Measured size) {readField : Decoder Exn σ Value}
    {n : Nat} (hf : Within size n readField) :
    ∀ (count : Nat) (dyn : Fields), Within size n (Dynamic.deserializeLoop rd readField count dyn)
  | 0, dyn => Within.pure dyn
  | count + 1, dyn => Within.bind' ((h.scalar n 4).map _) fun key => hf.bind' fun f =>
    Dynamic.deserializeLoop_within h hf count (insert key f dyn)

theorem Dynamic.deserializeWith_within (h : rd.Measured size) {readField : Decoder Exn σ Value}
    {n : Nat} (hf : Within size n readField) :
    Within size n (Dynamic.deserializeWith rd readField) :=
  (h.varint n).bind' fun count => Dynamic.deserializeLoop_within h hf count.toNat Dynamic.empty

theorem deserializeInstance_within (h : rd.Measured size) :
    ∀ {fuel n : Nat}, n < fuel → Within size n (deserializeInstance rd reg fuel)
  | fuel + 1, n, hlt => by
    refine Within.bind' ?_ fun dyn => Within.lift fun e he => finishInstance_thrown he
    refine Dynamic.deserializeWith_within h (Field.deserialize_within h fun m hm => ?_)
    exact deserializeInstance_within h (by omega)

/-- **Totality**: with fuel for the size of the input, decoding returns or throws. -/
theorem Dynamic.deserialize_thrown (h : rd.Measured size) {fuel : Nat} {s : σ} {e : Exn}
    (hfuel : size s ≤ fuel) (he : Dynamic.deserialize rd reg fuel s = .error e) : e.Thrown := by
  have hw : Within size fuel (Dynamic.deserialize rd reg fuel) :=
    Dynamic.deserializeWith_within h
      (Field.deserialize_within h fun m hm => deserializeInstance_within h hm)
  have := hw s hfuel
  rw [he] at this
  exact this

end Measured

/-! ## Fuel -/

/-- The second decoder does what the first does, unless the first runs out of fuel. -/
def upToFuel (σ : Type) : Congruence Exn σ σ :=
  simulation Eq (fun e r => e = .outOfFuel ∨ r = .error e) (fun _ => Or.inr rfl) fun f h => by
    rcases h with h | rfl
    · exact Or.inl h
    · exact Or.inr rfl

theorem upToFuel_refl {α : Type} (p : Decoder Exn σ α) : (upToFuel σ).Rel p p := by
  intro s t hst
  subst hst
  split
  · next a s' h => exact ⟨s', h, rfl⟩
  · next e h => exact Or.inr h

theorem Reader.related_refl (rd : Reader σ) : rd.Related (upToFuel σ) rd :=
  ⟨fun _ => upToFuel_refl _, upToFuel_refl _, upToFuel_refl _, upToFuel_refl _, upToFuel_refl _,
    upToFuel_refl _, upToFuel_refl _⟩

theorem deserializeInstance_fuel (rd : Reader σ) (reg : Registry μ) :
    ∀ {fuel fuel' : Nat}, fuel ≤ fuel' →
      (upToFuel σ).Rel (deserializeInstance rd reg fuel) (deserializeInstance rd reg fuel')
  | 0, _, _ => fun _ _ _ => Or.inl rfl
  | _ + 1, _ + 1, hle => (upToFuel σ).bind
    (Dynamic.deserializeWith_related rd.related_refl (Field.deserialize_related rd.related_refl
      (deserializeInstance_fuel rd reg (Nat.le_of_succ_le_succ hle))))
    fun dyn => (upToFuel σ).lift (finishInstance reg dyn)

theorem Dynamic.deserialize_upToFuel (rd : Reader σ) (reg : Registry μ) {fuel fuel' : Nat}
    (hle : fuel ≤ fuel') :
    (upToFuel σ).Rel (Dynamic.deserialize rd reg fuel) (Dynamic.deserialize rd reg fuel') :=
  Dynamic.deserializeWith_related rd.related_refl
    (Field.deserialize_related rd.related_refl (deserializeInstance_fuel rd reg hle))

/-- What was decoded is decoded with more fuel. -/
theorem Dynamic.deserialize_ok_mono {rd : Reader σ} {reg : Registry μ} {fuel fuel' : Nat}
    (hle : fuel ≤ fuel') {s : σ} {r : Fields × σ}
    (h : Dynamic.deserialize rd reg fuel s = .ok r) :
    Dynamic.deserialize rd reg fuel' s = .ok r := by
  have hsim := Dynamic.deserialize_upToFuel rd reg hle s s rfl
  rw [h] at hsim
  obtain ⟨t, ht, rfl⟩ := hsim
  exact ht

/-- **Fuel is immaterial**: where it suffices for the input, more of it changes nothing. -/
theorem Dynamic.deserialize_fuel {size : σ → Nat} {rd : Reader σ} (h : rd.Measured size)
    (reg : Registry μ) {fuel fuel' : Nat} (hle : fuel ≤ fuel') {s : σ} (hs : size s ≤ fuel) :
    Dynamic.deserialize rd reg fuel' s = Dynamic.deserialize rd reg fuel s := by
  cases hr : Dynamic.deserialize rd reg fuel s with
  | ok r => exact Dynamic.deserialize_ok_mono hle hr
  | error e =>
    have hsim := Dynamic.deserialize_upToFuel rd reg hle s s rfl
    rw [hr] at hsim
    rcases hsim with rfl | h'
    · exact absurd (Dynamic.deserialize_thrown h hs hr) id
    · exact h'

end Bison
