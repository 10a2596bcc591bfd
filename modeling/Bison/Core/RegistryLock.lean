import Bison.Lib.Holds
import Bison.Core.ClassRegistry
import Bison.Core.SchemaFormat

/-!
# The lock of the registry

`synchronized<namespace_map>` (bison_sync.hpp) guards the registry with a `std::shared_mutex`, which
a thread must not lock again while it holds it. Here are the functions of `dynamic` that take the
lock (bison_object.hpp), as programs that emit the scopes in which they hold it. What an override of
`clone_ptr`, a factory or a destructor does is left to the application.

- `Locked.findField` and the other lookups: the class chain is walked in a scope.
- `deserializeInstanceIn`: decoding, written for any kind of programs.
- `Locked.deserializeWithSchema`: the whole body is decoded in a scope, and an object in it is
  looked up and instantiated at its end, which opens another.
- `Locked.deserializeWithSchema_plain_iff`: **main result**, that happens exactly if the bytes hold
  a complete object.
-/

namespace Bison

open SortedMap Program

variable {μ α σ : Type}

/-- `rlock` and `wlock`. -/
inductive Access where
  | shared
  | exclusive
  deriving DecidableEq

/-- Programs that may take the lock of the registry. -/
abbrev Locked (σ α : Type) := Program Exn (Hold Access) σ α

def rlock (p : Locked σ α) : Locked σ α := hold .shared p

def wlock (p : Locked σ α) : Locked σ α := hold .exclusive p

namespace Locked

/-! ## Lookups -/

section Lookups

variable (reg : Registry μ)

/-- `findField` (bison_object.hpp:1581): a field of its own is found without the lock. -/
def findField (name : Key) : Locked Fields (Option Value) := fun d =>
  if (d.lookup name).isSome then ofDecoder (Bison.findField reg name) d
  else rlock (ofDecoder (Bison.findField reg name)) d

/-- `findMethod` (bison_object.hpp:1687). -/
def findMethod (name : Key) (methods : List (Key × μ)) :
    Locked Fields (Option μ × List (Key × μ)) :=
  if (methods.lookup name).isSome then ofDecoder (Bison.findMethod reg name methods)
  else rlock (ofDecoder (Bison.findMethod reg name methods))

/-- `findClass` (bison_object.hpp:1730). -/
def findClass (name : Key) : Locked Fields (Option (Prototype μ)) :=
  rlock (ofDecoder (Bison.findClass reg name))

/-- `operator[](key_t)` (bison_object.hpp:1102). -/
def subscript (name : Key) : Locked Fields Value := do
  match ← findField reg name with
  | some f => return f
  | none => ofDecoder fun d => .ok (.monostate, insert name .monostate d)

/-- `(*this)[name] = v`, for a `v` that is not itself a field. -/
def setField (name : Key) (v : Value) : Locked Fields Unit := do
  let old ← subscript reg name
  let new ← lift (old.assign v)
  ofDecoder fun d => .ok ((), insert name new d)

/-- `obj[name] = v` of one field to another. -/
def writeField (name : Key) (v : Value) : Locked Fields Unit := do
  let _ ← subscript reg name
  ofDecoder fun d => .ok ((), insert name v d)

/-- `get_as<key_t>(name)` (bison_object.hpp:1190). -/
def getAsKey (name : Key) : Locked Fields Key := do
  match ← findField reg name with
  | none => return 0
  | some v => lift (castKey v)

/-- `create_instance` (bison_object.hpp:1305): the factory is copied in the scope, and called after
it. -/
def createInstance (ns klass : Key) : Locked σ (Option Fields) := do
  rlock (pure ())
  lift (Bison.createInstance reg ns klass)

/-- The tail of `deserialize_instance` (bison_object.hpp:2139). -/
def finishInstance (dyn : Fields) : Locked σ Fields := do
  let (ns, dyn) ← within dyn (getAsKey reg NAMESPACE)
  let (klass, dyn) ← within dyn (getAsKey reg CLASS)
  match ← createInstance reg ns klass with
  | none => return dyn
  | some made => return insertAll made dyn

/-! Each of them is the function it is named after, in scopes of which none is inside another. -/

theorem findField_wraps (name : Key) : Wraps (findField reg name) (Bison.findField reg name) := by
  constructor
  · intro d
    unfold findField
    split
    · exact (Wraps.ofDecoder _).flat d
    · exact (Wraps.hold _ _).flat d
  · intro d
    unfold findField
    split
    · exact Mirrors.ofDecoder _ d
    · exact (Mirrors.ofDecoder (Bison.findField reg name)).hold d

theorem findMethod_wraps (name : Key) (methods : List (Key × μ)) :
    Wraps (findMethod reg name methods) (Bison.findMethod reg name methods) := by
  unfold findMethod
  split
  · exact .ofDecoder _
  · exact .hold _ _

theorem findClass_wraps (name : Key) : Wraps (findClass reg name) (Bison.findClass reg name) :=
  .hold _ _

theorem subscript_wraps (name : Key) : Wraps (subscript reg name) (Bison.subscript reg name) := by
  refine (findField_wraps reg name).bind fun found => ?_
  cases found with
  | none => exact .ofDecoder _
  | some f => exact .pure f

theorem setField_wraps (name : Key) (v : Value) :
    Wraps (setField reg name v) (Bison.setField reg name v) :=
  (subscript_wraps reg name).bind fun old => (Wraps.lift (old.assign v)).bind fun _ =>
    .ofDecoder _

theorem writeField_wraps (name : Key) (v : Value) :
    Wraps (writeField reg name v) (Bison.writeField reg name v) :=
  (subscript_wraps reg name).bind fun _ => .ofDecoder _

theorem getAsKey_wraps (name : Key) : Wraps (getAsKey reg name) (Bison.getAsKey reg name) := by
  refine (findField_wraps reg name).bind fun found => ?_
  cases found with
  | none => exact .pure 0
  | some v => exact .lift (castKey v)

theorem createInstance_wraps (ns klass : Key) :
    Wraps (createInstance reg ns klass : Locked σ _)
      (Decoder.lift (Bison.createInstance reg ns klass)) :=
  ⟨flat_composes.bind (Silent.hold fun _ => rfl) fun _ => flat_composes.lift _, fun _ => rfl⟩

theorem finishInstance_wraps (dyn : Fields) : Wraps (finishInstance reg dyn : Locked σ Fields)
    (Decoder.lift (Bison.finishInstance reg dyn)) := by
  refine ((getAsKey_wraps reg NAMESPACE).within dyn).bind_lift fun r => ?_
  refine ((getAsKey_wraps reg CLASS).within r.2).bind_lift fun r' => ?_
  refine (createInstance_wraps reg r.1 r'.1).bind_lift fun made => ?_
  cases made with
  | none => exact .pure r'.2
  | some made => exact .pure (insertAll made r'.2)

/-! Only a field that is not the object's own is looked up with the lock. -/

theorem findField_trace_nil_iff {name : Key} {d : Fields} :
    (findField reg name d).trace = [] ↔ (d.lookup name).isSome := by
  unfold findField
  split
  · next h => simp [h]
  · next h => simp [h, rlock, hold]

theorem subscript_trace_nil_iff {name : Key} {d : Fields} :
    (subscript reg name d).trace = [] ↔ (d.lookup name).isSome := by
  unfold subscript
  rw [bind_trace_nil_iff, findField_trace_nil_iff]
  refine and_iff_left fun found _ => ?_
  cases found <;> rfl

theorem getAsKey_trace_nil_iff {name : Key} {d : Fields} :
    (getAsKey reg name d).trace = [] ↔ (d.lookup name).isSome := by
  unfold getAsKey
  rw [bind_trace_nil_iff, findField_trace_nil_iff]
  refine and_iff_left fun found _ => ?_
  cases found <;> rfl

theorem findField_own {name : Key} {d : Fields} {v : Value} (h : d.lookup name = some v) :
    findField reg name d = ⟨.ok (some v), [], d⟩ := by
  have hfind : Bison.findField reg name d = .ok (some v, d) := by
    rw [Bison.findField, h]
  unfold findField
  rw [if_pos (h ▸ rfl)]
  exact ofDecoder_ok hfind

end Lookups

end Locked

/-! ## Registering a class -/

namespace Locked

/-- The first three statements of `addClass`. -/
def linkClass (reg : Registry μ) (ns parent : Key) : Locked Fields Key := do
  let name ← ofDecoder (asKey CLASS)
  setField reg PARENT (.key parent)
  setField reg NAMESPACE (.key ns)
  return name

/-- `addClass(ns, klass, parent)` (bison_object.hpp:1540), on the fields of the prototype. Past the
links, only fields of the prototypes themselves are read. -/
def addClass (s : Classes μ α) (ns : Key) (p : Ptr) (parent : Key) : Locked Fields Bool := do
  let _ ← linkClass s.registry ns parent
  wlock (lift (s.addClass ns p parent).1)

/-- What an overload does before it calls `addClass(ns, klass, parent)`. -/
def prepare (reg : Registry μ) : Overload α → Locked Fields Unit
  | .plain | .withFactory _ => pure ()
  | .withAttributes attributes =>
    if attributes.isEmpty then pure ()
    else do
      let _ ← subscript reg CLASS

/-- A call of `addClass`, in any of its overloads. -/
def registerClass (s : Classes μ α) (c : Call α) : Locked Fields Bool := do
  prepare s.registry c.overload
  addClass (s.prepare c.proto c.overload).2 c.ns c.proto c.parent

theorem linkClass_result (reg : Registry μ) (ns parent : Key) (d : Fields) :
    (linkClass reg ns parent d).result = (Bison.linkClass reg ns parent d).2 := by
  have hset := fun name k d => (setField_wraps reg name (.key k)).mirrors d
  simp only [setField_key] at hset
  unfold linkClass Bison.linkClass
  cases hclass : asKey CLASS d with
  | error e => rw [Program.bind_error (ofDecoder_error hclass)]
  | ok r =>
    obtain ⟨name, d₁⟩ := r
    rw [Program.bind_ok (ofDecoder_ok hclass)]
    simp only
    have hparent := hset PARENT parent d₁
    rcases hrun : setField reg PARENT (.key parent) d₁ with ⟨e | _, trace, d₂⟩
    · rw [hrun] at hparent
      rw [Program.bind_error hrun, ← hparent]
      rfl
    · rw [hrun] at hparent
      rw [Program.bind_ok hrun, ← hparent]
      simp only [Except.map]
      have hnamespace := hset NAMESPACE ns d₂
      rcases hrun' : setField reg NAMESPACE (.key ns) d₂ with ⟨e | _, trace', d₃⟩
      · rw [hrun'] at hnamespace
        rw [Program.bind_error hrun', ← hnamespace]
        rfl
      · rw [hrun'] at hnamespace
        rw [Program.bind_ok hrun', ← hnamespace]
        rfl

theorem addClass_result (s : Classes μ α) (ns : Key) (p : Ptr) (parent : Key) :
    (addClass s ns p parent (s.heap p).fields).result = (s.addClass ns p parent).1 := by
  have hlink := linkClass_result s.registry ns parent (s.heap p).fields
  unfold addClass
  rcases hrun : linkClass s.registry ns parent (s.heap p).fields with ⟨e | name, trace, d⟩
  · rw [hrun] at hlink
    rw [Program.bind_error hrun]
    unfold Classes.addClass
    split
    · next h =>
      rw [← hlink] at h
      cases h
      rfl
    · next h =>
      rw [← hlink] at h
      cases h
  · rw [Program.bind_ok hrun]
    rfl

theorem prepare_run (s : Classes μ α) (p : Ptr) (overload : Overload α) :
    (prepare s.registry overload (s.heap p).fields).result = (s.prepare p overload).1 ∧
      ((s.prepare p overload).1 = .ok () →
        (prepare s.registry overload (s.heap p).fields).state =
          ((s.prepare p overload).2.heap p).fields) := by
  cases overload with
  | plain => exact ⟨rfl, fun _ => rfl⟩
  | withFactory factory =>
    refine ⟨rfl, fun _ => ?_⟩
    show (s.heap p).fields = (if p = p then _ else _ : Object μ α).fields
    rw [if_pos rfl]
  | withAttributes attributes =>
    unfold prepare Classes.prepare Classes.addAttributes
    simp only
    split
    · exact ⟨rfl, fun _ => rfl⟩
    · have hsub := (subscript_wraps s.registry CLASS).mirrors (s.heap p).fields
      split
      · next e he =>
        rcases hrun : subscript s.registry CLASS (s.heap p).fields with ⟨e' | v, trace, d⟩
        · rw [hrun, he] at hsub
          cases hsub
          rw [Program.bind_error hrun]
          exact ⟨rfl, nofun⟩
        · rw [hrun, he] at hsub
          cases hsub
      · next v d hd =>
        rcases hrun : subscript s.registry CLASS (s.heap p).fields with ⟨e | v', trace, d'⟩
        · rw [hrun, hd] at hsub
          cases hsub
        · rw [hrun, hd] at hsub
          cases hsub
          rw [Program.bind_ok hrun]
          refine ⟨rfl, fun _ => ?_⟩
          show d' = (if p = p then _ else _ : Object μ α).fields
          rw [if_pos rfl]

/-- But for the scopes, registering ends as it does. -/
theorem registerClass_result (s : Classes μ α) (c : Call α) :
    (registerClass s c (s.heap c.proto).fields).result = (s.call c).1 := by
  obtain ⟨hresult, hstate⟩ := prepare_run s c.proto c.overload
  unfold registerClass Classes.call
  rcases hplain : s.prepare c.proto c.overload with ⟨e | _, s'⟩
  · rw [hplain] at hresult
    rcases hrun : prepare s.registry c.overload (s.heap c.proto).fields with ⟨result, trace, d⟩
    rw [hrun] at hresult
    cases hresult
    rw [Program.bind_error hrun]
  · rw [hplain] at hresult hstate
    rcases hrun : prepare s.registry c.overload (s.heap c.proto).fields with ⟨result, trace, d⟩
    rw [hrun] at hresult hstate
    cases hresult
    obtain rfl := hstate rfl
    rw [Program.bind_ok hrun]
    exact addClass_result s' c.ns c.proto c.parent

theorem registerClass_flat (s : Classes μ α) (c : Call α) : Flat (registerClass s c) := by
  have hprepare : Flat (prepare s.registry c.overload) := by
    unfold prepare
    split
    · exact flat_composes.pure ()
    · exact flat_composes.pure ()
    · split
      · exact flat_composes.pure ()
      · exact flat_composes.bind (subscript_wraps s.registry CLASS).flat fun _ =>
          flat_composes.pure ()
  have hlink : ∀ reg : Registry μ, Flat (linkClass reg c.ns c.parent) := fun reg =>
    flat_composes.bind (Wraps.ofDecoder _).flat fun _ =>
      flat_composes.bind (setField_wraps reg _ _).flat fun _ =>
        flat_composes.bind (setField_wraps reg _ _).flat fun _ => flat_composes.pure _
  exact flat_composes.bind hprepare fun _ =>
    flat_composes.bind (hlink _) fun _ => Silent.hold fun _ => rfl

end Locked

/-! ## Decoding, as programs of any kind -/

section Decoding

variable {m : Type → Type} [Monad m] (rd : Reader σ)
  (read : ∀ {β : Type}, Decoder Exn σ β → m β)

/-- `field::deserialize`: of all tags, only the sixth is that of an object. -/
def Field.deserializeIn (nested : m Fields) : m Value := do
  let type ← read rd.byte
  if type.toNat = 6 then
    if ← read rd.bool then
      let fields ← nested
      return .object fields
    else return .null
  else read (Field.deserializeTagged rd (throw .outOfFuel) type.toNat)

def Dynamic.deserializeLoopIn (readField : m Value) : Nat → Fields → m Fields
  | 0, dyn => pure dyn
  | n + 1, dyn => do
    let key ← read rd.word
    let f ← readField
    Dynamic.deserializeLoopIn readField n (insert key f dyn)

def Dynamic.deserializeWithIn (readField : m Value) : m Fields := do
  let count ← read rd.varint
  Dynamic.deserializeLoopIn rd read readField count.toNat Dynamic.empty

/-- `deserialize_instance`, given what is done at the end of an object. -/
def deserializeInstanceIn (finish : Fields → m Fields) : Nat → m Fields
  | 0 => read (throw .outOfFuel)
  | fuel + 1 => do
    let dyn ← Dynamic.deserializeWithIn rd read
      (Field.deserializeIn rd read (deserializeInstanceIn finish fuel))
    finish dyn

def readDeclaredIn (readField : m Value) : Fields → Fields → m Fields
  | [], dyn => pure dyn
  | (k, _) :: rest, dyn => do
    let f ← readField
    readDeclaredIn readField rest (insert k f dyn)

def schemaLoopIn (readField : m Value) (col : Collection μ) : Nat → Key → Fields → m Fields
  | 0, _, _ => read (throw .outOfFuel)
  | fuel + 1, klass, dyn =>
    match Collection.find col klass with
    | none => pure dyn
    | some p => do
      let dyn ← readDeclaredIn readField p.fields dyn
      schemaLoopIn readField col fuel p.parent dyn

end Decoding

/-! Decoding as programs of one kind is related to decoding as programs of another. -/

section Related

variable {m m' : Type → Type} [Monad m] [Monad m'] {R : MonadRelation m m'} {rd : Reader σ}
  {read : ∀ {β : Type}, Decoder Exn σ β → m β} {read' : ∀ {β : Type}, Decoder Exn σ β → m' β}
  (hread : ∀ {β : Type} (p : Decoder Exn σ β), R.Rel (read p) (read' p))

include hread

theorem Field.deserializeIn_related {nested : m Fields} {nested' : m' Fields}
    (hn : R.Rel nested nested') :
    R.Rel (Field.deserializeIn rd read nested) (Field.deserializeIn rd read' nested') := by
  refine R.bind (hread rd.byte) fun type => ?_
  split
  · refine R.bind (hread rd.bool) fun present => ?_
    cases present with
    | true => exact R.bind hn fun fields => R.pure _
    | false => exact R.pure _
  · exact hread _

theorem Dynamic.deserializeLoopIn_related {readField : m Value} {readField' : m' Value}
    (hf : R.Rel readField readField') (n : Nat) : ∀ dyn : Fields,
    R.Rel (Dynamic.deserializeLoopIn rd read readField n dyn)
      (Dynamic.deserializeLoopIn rd read' readField' n dyn) := by
  induction n with
  | zero => exact fun dyn => R.pure dyn
  | succ n ih => exact fun dyn => R.bind (hread rd.word) fun key => R.bind hf fun f => ih _

theorem Dynamic.deserializeWithIn_related {readField : m Value} {readField' : m' Value}
    (hf : R.Rel readField readField') : R.Rel (Dynamic.deserializeWithIn rd read readField)
      (Dynamic.deserializeWithIn rd read' readField') :=
  R.bind (hread rd.varint) fun count =>
    Dynamic.deserializeLoopIn_related hread hf count.toNat Dynamic.empty

theorem deserializeInstanceIn_related {finish : Fields → m Fields} {finish' : Fields → m' Fields}
    (hfinish : ∀ dyn, R.Rel (finish dyn) (finish' dyn)) (fuel : Nat) :
    R.Rel (deserializeInstanceIn rd read finish fuel)
      (deserializeInstanceIn rd read' finish' fuel) := by
  induction fuel with
  | zero => exact hread _
  | succ fuel ih =>
    exact R.bind (Dynamic.deserializeWithIn_related hread (Field.deserializeIn_related hread ih))
      hfinish

omit hread in
theorem readDeclaredIn_related {readField : m Value} {readField' : m' Value}
    (hf : R.Rel readField readField') (declared : Fields) : ∀ dyn : Fields,
    R.Rel (readDeclaredIn readField declared dyn) (readDeclaredIn readField' declared dyn) := by
  induction declared with
  | nil => exact fun dyn => R.pure dyn
  | cons e rest ih => exact fun dyn => R.bind hf fun f => ih _

theorem schemaLoopIn_related {readField : m Value} {readField' : m' Value}
    (hf : R.Rel readField readField') (col : Collection μ) (fuel : Nat) :
    ∀ (klass : Key) (dyn : Fields), R.Rel (schemaLoopIn read readField col fuel klass dyn)
      (schemaLoopIn read' readField' col fuel klass dyn) := by
  induction fuel with
  | zero => exact fun klass dyn => hread _
  | succ fuel ih =>
    intro klass dyn
    unfold schemaLoopIn
    split
    · exact R.pure dyn
    · exact R.bind (readDeclaredIn_related hf _ dyn) fun dyn => ih _ dyn

end Related

/-! Decoding as a decoder is decoding. -/

section AsDecoder

variable (rd : Reader σ)

theorem Field.deserializeTagged_congr (nested nested' : Decoder Exn σ Fields) {tag : Nat}
    (h : tag ≠ 6) :
    Field.deserializeTagged rd nested tag = Field.deserializeTagged rd nested' tag := by
  unfold Field.deserializeTagged
  split <;> first | rfl | exact absurd rfl h

theorem Field.deserializeIn_decoder (nested : Decoder Exn σ Fields) :
    Field.deserializeIn rd (fun p => p) nested = Field.deserialize rd nested := by
  unfold Field.deserializeIn Field.deserialize
  refine congrArg _ (funext fun type => ?_)
  split
  · next h =>
    rw [h]
    refine congrArg _ (funext fun present => ?_)
    cases present with
    | true => exact (map_eq_pure_bind Value.object nested).symm
    | false => rfl
  · next h => exact Field.deserializeTagged_congr rd _ _ h

theorem Dynamic.deserializeWithIn_decoder (readField : Decoder Exn σ Value) :
    Dynamic.deserializeWithIn rd (fun p => p) readField =
      Dynamic.deserializeWith rd readField := by
  have hloop : ∀ n dyn, Dynamic.deserializeLoopIn rd (fun p => p) readField n dyn =
      Dynamic.deserializeLoop rd readField n dyn := by
    intro n
    induction n with
    | zero => exact fun dyn => rfl
    | succ n ih =>
      intro dyn
      unfold Dynamic.deserializeLoopIn Dynamic.deserializeLoop
      simp only [ih]
  unfold Dynamic.deserializeWithIn Dynamic.deserializeWith
  simp only [hloop]

theorem deserializeInstanceIn_decoder (reg : Registry μ) (fuel : Nat) :
    deserializeInstanceIn rd (fun p => p) (fun dyn => Decoder.lift (finishInstance reg dyn)) fuel =
      deserializeInstance rd reg fuel := by
  induction fuel with
  | zero => rfl
  | succ fuel ih =>
    rw [deserializeInstanceIn, deserializeInstance, ih, Field.deserializeIn_decoder,
      Dynamic.deserializeWithIn_decoder]

omit rd in
theorem readDeclaredIn_decoder (readField : Decoder Exn σ Value) (declared : Fields) :
    ∀ dyn, readDeclaredIn readField declared dyn = readDeclared readField declared dyn := by
  induction declared with
  | nil => exact fun dyn => rfl
  | cons e rest ih =>
    intro dyn
    unfold readDeclaredIn readDeclared
    simp only [ih]

theorem schemaLoopIn_decoder (readField : Decoder Exn σ Value) (col : Collection μ) (fuel : Nat) :
    ∀ klass dyn, schemaLoopIn (fun p => p) readField col fuel klass dyn =
      schemaLoop readField col fuel klass dyn := by
  induction fuel with
  | zero => exact fun klass dyn => rfl
  | succ fuel ih =>
    intro klass dyn
    unfold schemaLoopIn schemaLoop
    cases Collection.find col klass with
    | none => rfl
    | some p => simp only [readDeclaredIn_decoder, ih]

end AsDecoder

/-! ## Decoding and encoding, with the lock -/

namespace Locked

variable (rd : Reader σ) (reg : Registry μ) (fuel : Nat)

/-- `dynamic::deserialize_instance`. -/
def deserializeInstance : Locked σ Fields :=
  deserializeInstanceIn rd ofDecoder (finishInstance reg) fuel

/-- `dynamic::deserialize` (bison_object.hpp:2127). -/
def deserialize : Locked σ Fields :=
  Dynamic.deserializeWithIn rd ofDecoder
    (Field.deserializeIn rd ofDecoder (deserializeInstance rd reg fuel))

/-- `dynamic::deserializeWithSchema` (bison_object.hpp:2151). -/
def deserializeWithSchema : Locked σ Fields := do
  let ns ← ofDecoder rd.word
  let klass ← ofDecoder rd.word
  rlock <|
    match reg.lookup ns with
    | none => pure Dynamic.empty
    | some col =>
      schemaLoopIn ofDecoder (Field.deserializeIn rd ofDecoder (deserializeInstance rd reg fuel))
        col fuel klass Dynamic.empty

/-- `dynamic::serializeWithSchema` (bison_object.hpp:2101). -/
def serializeWithSchema : Locked Fields (List UInt8) :=
  rlock (ofDecoder (Dynamic.serializeWithSchema reg))

theorem deserializeInstance_wraps :
    Wraps (deserializeInstance rd reg fuel) (Bison.deserializeInstance rd reg fuel) := by
  rw [← deserializeInstanceIn_decoder]
  exact deserializeInstanceIn_related (R := .wraps) Wraps.ofDecoder (finishInstance_wraps reg) fuel

theorem readField_wraps :
    Wraps (Field.deserializeIn rd ofDecoder (deserializeInstance rd reg fuel))
      (Field.deserialize rd (Bison.deserializeInstance rd reg fuel)) := by
  rw [← Field.deserializeIn_decoder]
  exact Field.deserializeIn_related (R := .wraps) Wraps.ofDecoder
    (deserializeInstance_wraps rd reg fuel)

/-- Decoding without a schema opens no scope inside another. -/
theorem deserialize_wraps :
    Wraps (deserialize rd reg fuel) (Dynamic.deserialize rd reg fuel) := by
  unfold Dynamic.deserialize
  rw [← Dynamic.deserializeWithIn_decoder]
  exact Dynamic.deserializeWithIn_related (R := .wraps) Wraps.ofDecoder
    (readField_wraps rd reg fuel)

theorem deserializeWithSchema_mirrors :
    Mirrors (deserializeWithSchema rd reg fuel) (Dynamic.deserializeWithSchema rd reg fuel) := by
  refine (Mirrors.ofDecoder rd.word).bind fun ns => (Mirrors.ofDecoder rd.word).bind fun klass => ?_
  refine Mirrors.hold ?_
  cases reg.lookup ns with
  | none => exact (Wraps.pure _).mirrors
  | some col =>
    have h := schemaLoopIn_related (R := .wraps) Wraps.ofDecoder (readField_wraps rd reg fuel)
      col fuel klass Dynamic.empty
    rw [schemaLoopIn_decoder] at h
    exact h.mirrors

theorem serializeWithSchema_wraps :
    Wraps (serializeWithSchema reg) (Dynamic.serializeWithSchema reg) := .hold _ _

end Locked

/-! ## Objects in a schema body -/

section Scanning

/-- `get_as<key_t>` of a field of the object itself; the lock is taken for any other. -/
def ownKey (name : Key) (dyn : Fields) : Except (Option Exn) (Key × Fields) :=
  match dyn.lookup name with
  | none => .error none
  | some v => ((castKey v).mapError some).map fun k => (k, dyn)

/-- The end of an object. The scan stops with `none` where the lock is taken: for its namespace or
its class, if that is not its own, or to instantiate it. -/
def endOfObject (dyn : Fields) : Decoder (Option Exn) σ Fields := do
  let (_, dyn) ← Decoder.lift (ownKey NAMESPACE dyn)
  let (_, _) ← Decoder.lift (ownKey CLASS dyn)
  throw none

/-- A read of the scan. -/
def scanned {β : Type} (p : Decoder Exn σ β) : Decoder (Option Exn) σ β :=
  fun s => (p s).mapError some

/-- A scan of what `deserializeWithSchema` reads, up to the end of the first object. -/
def scanSchema (rd : Reader σ) (reg : Registry μ) (fuel : Nat) :
    Decoder (Option Exn) σ Fields := do
  let ns ← scanned rd.word
  let klass ← scanned rd.word
  match reg.lookup ns with
  | none => pure Dynamic.empty
  | some col =>
    schemaLoopIn scanned
      (Field.deserializeIn rd scanned (deserializeInstanceIn rd scanned endOfObject fuel))
      col fuel klass Dynamic.empty

/-- In what is read for the fields of the schema, an object is complete. -/
def HoldsObject (rd : Reader σ) (reg : Registry μ) (fuel : Nat) (s : σ) : Prop :=
  scanSchema rd reg fuel s = .error none

variable (rd : Reader σ) (reg : Registry μ) (fuel : Nat)

theorem getAsKey_foresees (name : Key) (dyn : Fields) : MonadRelation.foresees.Rel
    (within dyn (Locked.getAsKey reg name) : Locked σ (Key × Fields))
    (Decoder.lift (ownKey name dyn)) := by
  intro s
  cases hown : dyn.lookup name with
  | none =>
    have hscan : (Decoder.lift (ownKey name dyn) : Decoder (Option Exn) σ _) s = .error none := by
      rw [ownKey, hown]
      rfl
    rw [hscan]
    show (Locked.getAsKey reg name dyn).trace ≠ []
    intro hnil
    rw [Locked.getAsKey_trace_nil_iff, hown] at hnil
    cases hnil
  | some v =>
    have hrun : (within dyn (Locked.getAsKey reg name) : Locked σ (Key × Fields)) s =
        ⟨(castKey v).map fun k => (k, dyn), [], s⟩ := by
      have hget : Locked.getAsKey reg name dyn = ⟨castKey v, [], dyn⟩ :=
        bind_ok (Locked.findField_own reg hown) _
      rw [within, hget]
    cases hcast : castKey v with
    | error e =>
      have hscan : (Decoder.lift (ownKey name dyn) : Decoder (Option Exn) σ _) s =
          .error (some e) := by
        rw [ownKey, hown]
        simp only [hcast]
        rfl
      rw [hscan, hrun, hcast]
      exact ⟨rfl, rfl⟩
    | ok k =>
      have hscan : (Decoder.lift (ownKey name dyn) : Decoder (Option Exn) σ _) s =
          .ok ((k, dyn), s) := by
        rw [ownKey, hown]
        simp only [hcast]
        rfl
      rw [hscan, hrun, hcast]
      rfl

theorem endOfObject_foresees (dyn : Fields) : MonadRelation.foresees.Rel
    (Locked.finishInstance reg dyn : Locked σ Fields) (endOfObject dyn) := by
  refine MonadRelation.foresees.bind (getAsKey_foresees reg NAMESPACE dyn) fun r => ?_
  refine MonadRelation.foresees.bind (getAsKey_foresees reg CLASS r.2) fun r' => ?_
  intro s
  -- `create_instance` looks the class up under the lock, whatever it is
  have hcreate : (Locked.createInstance reg r.1 r'.1 s).trace ≠ [] :=
    bind_trace_ne_nil (List.cons_ne_nil _ _) _
  exact bind_trace_ne_nil hcreate _

/-- **Main result**: decoding with a schema opens a scope inside another exactly if it reads a
complete object. -/
theorem Locked.deserializeWithSchema_plain_iff (s : σ) :
    (∀ h ∈ (Locked.deserializeWithSchema rd reg fuel s).trace, h.Plain) ↔
      ¬ HoldsObject rd reg fuel s := by
  have hread : ∀ {β : Type} (p : Decoder Exn σ β), MonadRelation.foresees.Rel
      (ofDecoder p : Locked σ β) (scanned p) := MonadRelation.foresees_ofDecoder
  have hinstance : MonadRelation.foresees.Rel (Locked.deserializeInstance rd reg fuel)
      (deserializeInstanceIn rd scanned endOfObject fuel) :=
    deserializeInstanceIn_related hread (endOfObject_foresees reg) fuel
  have hfield : MonadRelation.foresees.Rel
      (Field.deserializeIn rd ofDecoder (Locked.deserializeInstance rd reg fuel))
      (Field.deserializeIn rd scanned (deserializeInstanceIn rd scanned endOfObject fuel)) :=
    Field.deserializeIn_related hread hinstance
  unfold HoldsObject scanSchema Locked.deserializeWithSchema
  cases hns : rd.word s with
  | error e =>
    have hscan : scanned rd.word s = .error (some e) := by
      rw [scanned, hns]
      rfl
    rw [Program.bind_error (ofDecoder_error hns), Decoder.bind_error hscan]
    simp
  | ok r =>
    obtain ⟨ns, s'⟩ := r
    have hscan : scanned rd.word s = .ok (ns, s') := by
      rw [scanned, hns]
      rfl
    rw [Program.bind_ok (ofDecoder_ok hns), Decoder.bind_ok hscan, List.nil_append]
    cases hklass : rd.word s' with
    | error e =>
      have hscan : scanned rd.word s' = .error (some e) := by
        rw [scanned, hklass]
        rfl
      rw [Program.bind_error (ofDecoder_error hklass), Decoder.bind_error hscan]
      simp
    | ok r =>
      obtain ⟨klass, s''⟩ := r
      have hscan : scanned rd.word s' = .ok (klass, s'') := by
        rw [scanned, hklass]
        rfl
      rw [Program.bind_ok (ofDecoder_ok hklass), Decoder.bind_ok hscan, List.nil_append]
      refine hold_plain_iff.trans (MonadRelation.foresees_trace_iff ?_ s'')
      cases reg.lookup ns with
      | none => exact MonadRelation.foresees.pure _
      | some col => exact schemaLoopIn_related hread hfield col fuel klass Dynamic.empty

end Scanning

end Bison
