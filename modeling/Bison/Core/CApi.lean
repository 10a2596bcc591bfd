import Bison.Core.CacheHits
import Bison.Core.StandardFormat

/-!
# Functions of the C API

A function of bison_c.cpp calls member functions of `dynamic` and `field`, catches what they throw
and returns a code. What it does is a program of such calls here (`Api`): so are the C functions
that an application registers as methods, which call the C API in turn, and what is not told here
one by one (imports, exports and calls of methods).

- `Member`: the member functions.
- `Api`: the programs, which besides see methods, userdata and the state of the application.
- `bisonGet`, `bisonSet`, …: functions of the C API.
- `Api.run_indistinct`: **main result**, what the caches remember of fields that are there makes no
  difference to any program.

A handle is the address of its object. The attributes of fields are left out: they are those of
the field that is found.
-/

namespace Bison.CApi

variable {ρ α β : Type}

/-- `bison_error` (bison_c.h:107). -/
inductive BisonError where
  | ok
  | null
  | type
  | notFound
  | duplicate
  | exception
  | parse
  deriving DecidableEq

/-- What a function returns, and what it writes through its out parameter. -/
structure Returned (ε α : Type) where
  error : ε
  out : Option α := none

/-! ## Programs -/

/-- What is done to objects, by its result. -/
inductive Member : Type → Type where
  | construct (klass : Key) (fields : FinMap Key Content) : Member Ptr
  | instantiate (ns klass : Key) : Member Ptr
  | copyConstruct (src : Ptr) : Member Ptr
  | clone (src : Ptr) : Member Ptr
  | clonePtr (src : Ptr) : Member Ptr
  | cloneInto (src dst : Ptr) : Member Unit
  /-- A temporary is moved into a new object, and ends. -/
  | relocate (src : Ptr) : Member Ptr
  | destroy (p : Ptr) : Member Unit
  | index (p : Ptr) (pos : Nat) : Member Node
  | subscript (p : Ptr) (name : Key) : Member Node
  | as (T : Memory.FieldType) (p : Ptr) (name : Key) : Member Node
  /-- `field::as<T>()`. -/
  | asType (T : Memory.FieldType) (n : Node) : Member Unit
  | content (n : Node) : Member Content
  | put (n : Node) (c : Content) : Member Unit
  | addField (p : Ptr) (name : Key) (c : Content) : Member Bool
  | erase (p : Ptr) (pos : Nat) : Member Unit
  | clear (p : Ptr) : Member Unit
  | findField (p : Ptr) (name : Key) : Member (Option Node)
  | resolveNamespace (p : Ptr) : Member Key
  /-- An iteration over the fields. -/
  | fields (p : Ptr) : Member (FinMap Key Content)
  /-- The tree that the object shows. -/
  | read (p : Ptr) : Member (Option Fields)
  | decodeInto (p : Ptr) (fields : FinMap Key Content) : Member Unit
  | addClass (ns : Key) (klass : Ptr) (parent : Key) : Member Bool
  /-- The classes of a namespace. -/
  | collection (ns : Key) : Member (Option (List (Key × Ptr)))
  | clearRegistry : Member Unit

namespace Member

/-- The objects it is given. -/
def targets : Member α → List Ptr
  | construct _ _ | instantiate _ _ | asType _ _ | content _ | put _ _ | collection _
  | clearRegistry => []
  | cloneInto src dst => [src, dst]
  | copyConstruct p | clone p | clonePtr p | relocate p | destroy p | index p _ | subscript p _
  | as _ p _ | addField p _ _ | erase p _ | clear p | findField p _ | resolveNamespace p
  | fields p | read p | decodeInto p _ | addClass _ p _ => [p]

def run (depth : Nat) : Member α → MemoryM α
  | construct klass values => Memory.construct klass values
  | instantiate ns klass => Memory.instantiate ns klass
  | copyConstruct src => Memory.copyConstruct depth src
  | clone src => Memory.clone depth src
  | clonePtr src => Memory.clonePtr depth src
  | cloneInto src dst => Memory.cloneInto depth src dst
  | relocate src => do
    let p ← Memory.moveConstruct src
    Memory.destroy src
    return p
  | destroy p => Memory.destroy p
  | index p pos => Memory.index p pos
  | subscript p name => Memory.subscript depth p name
  | as T p name => Memory.as T p name
  | asType T n => Memory.asType T n
  | content n => Memory.getContent n
  | put n c => Memory.putContent n c
  | addField p name c => Memory.addField p name c
  | erase p pos => Memory.erase p pos
  | clear p => Memory.clear p
  | findField p name => Memory.findField depth p name
  | resolveNamespace p => Memory.resolveNamespace p
  | fields p => Memory.fieldsOf p
  | read p => do return (← Program.get).read depth p
  | decodeInto p values => Memory.decodeInto p values
  | addClass ns klass parent => Memory.addClass depth ns klass parent
  | collection ns => do return (← Program.get).classes.lookup ns
  | clearRegistry => Program.modify fun m => { m with classes := [] }

/-- The member functions of an object that is not there are not defined; here the program hangs. -/
def runLive (depth : Nat) (f : Member α) : MemoryM α := do
  let m ← Program.get
  if ∀ p ∈ f.targets, p < m.objects then f.run depth else Program.throw .diverges

end Member

/-- A program over the memory and whatever else there is, `ρ`. -/
inductive Api (ρ : Type) : Type → Type 1 where
  | pure {α : Type} (a : α) : Api ρ α
  | bind {α β : Type} (p : Api ρ α) (f : α → Api ρ β) : Api ρ β
  | throw {α : Type} (e : Exn) : Api ρ α
  /-- `try { … } catch (…)`. -/
  | attempt {α : Type} (p : Api ρ α) : Api ρ (Except Exn α)
  | member {α : Type} (f : Member α) : Api ρ α
  /-- What does not touch objects. -/
  | other {α : Type} (f : ρ → α × ρ) : Api ρ α

namespace Api

instance : Monad (Api ρ) where
  pure := .pure
  bind := .bind

/-- What is thrown can be caught. -/
def caught : Exn → Option Exn
  | .runtimeError what => some (.runtimeError what)
  | .lengthError => some .lengthError
  | .diverges => none
  | .outOfFuel => none

def run (depth : Nat) : {α : Type} → Api ρ α → Program Exn Empty (Memory × ρ) α
  | _, pure a => Pure.pure a
  | _, bind p f => p.run depth >>= fun a => (f a).run depth
  | _, throw e => Program.throw e
  | _, attempt p => Program.attempt caught (p.run depth)
  | _, member f => (f.runLive depth).onFirst
  | _, other f => Program.ofState fun s => (.ok (f s.2).1, s.1, (f s.2).2)

end Api

/-! ## What a program can see -/

/-- The states differ in what the caches say of fields that are there. -/
def Unseen (s t : Memory × ρ) : Prop := s.1.Indistinct (fun _ => False) t.1 ∧ s.2 = t.2

open Memory Program in
theorem Member.run_indistinct {L : Ptr → Prop} (depth : Nat) (f : Member α)
    (hlive : ∀ p ∈ f.targets, L p) : Coupled (Indistinct L) (f.run depth) (f.run depth) := by
  have hone {p : Ptr} (h : p ∈ f.targets) : L p := hlive p h
  -- Only lookups read a cache, and registering a class, which looks fields up.
  cases f with
  | construct klass values =>
    exact (construct_blind klass values).indistinct
      ((construct_sound klass values).imp (fun _ _ h => h.1.forget) fun _ _ h => h)
  | instantiate ns klass =>
    exact (instantiate_blind ns klass).indistinct
      ((instantiate_sound ns klass).imp (fun _ _ h => h.forget) fun _ _ h => h)
  | copyConstruct src =>
    exact (copyConstruct_blind depth src).indistinct
      ((copyConstruct_sound depth src).imp (fun _ _ h => h.1.forget) fun _ _ h => h)
  | clone src =>
    refine (clone_blind depth src).indistinct (.bind ((clonePtr_sound depth src).imp
      (fun _ _ h => h.1.forget) fun _ _ h => h) fun q => ?_)
    exact moveConstruct_destroy_sound q _ fun p => .pure fun _ h => h
  | clonePtr src =>
    exact (clonePtr_blind depth src).indistinct
      ((clonePtr_sound depth src).imp (fun _ _ h => h.1.forget) fun _ _ h => h)
  | cloneInto src dst =>
    refine (cloneInto_blind depth src dst).indistinct
      (.bind (copyFields_sound src (fun _ => ⟨id, id⟩) (hone ?_)) fun _ =>
        cloneChildren_sound (fun q => (clonePtr_sound depth q).imp
          (fun _ _ h => h.1.forget) fun _ _ h => h) dst)
    exact List.mem_cons_of_mem src (List.mem_singleton_self dst)
  | relocate src =>
    have hblind : Blind ((relocate src).run depth) :=
      .bind (moveConstruct_blind src) fun p => .bind (destroy_blind src) fun _ => .pure p
    exact hblind.indistinct (moveConstruct_destroy_sound src _ fun p => .pure fun _ h => h)
  | destroy p => exact (destroy_blind p).indistinct (destroy_sound p)
  | index p pos =>
    exact (index_blind p pos).indistinct (touch_sound fun n => .pure fun _ h => h.1)
  | subscript p name => exact subscript_indistinct depth name (hone (List.mem_singleton_self p))
  | as T p name => exact (as_blind T p name).indistinct (as_sound T p name)
  | asType T n => exact (asType_blind T n).indistinct (asType_sound T n)
  | content n => exact (getContent_blind n).indistinct fun _ h => h
  | put n c => exact (putContent_blind n c).indistinct (putContent_sound n c)
  | addField p name c => exact (addField_blind p name c).indistinct (addField_sound p name c)
  | erase p pos => exact (erase_blind p pos).indistinct (erase_sound p pos)
  | clear p => exact (clear_blind p).indistinct (clear_sound p)
  | findField p name => exact findField_indistinct depth name (hone (List.mem_singleton_self p))
  | resolveNamespace p =>
    refine (resolveNamespace_blind p).indistinct ((resolveNamespace_sound (hone
      (List.mem_singleton_self p))).imp (fun _ _ h => ?_) fun _ _ h => h)
    exact ⟨h.settled, h.live, h.unmissed, nofun⟩
  | fields p =>
    refine .get_bind fun m m' hm => ?_
    rw [(hm.same.object p).fields, hm.same.content]
    exact .pure _
  | read p =>
    refine .get_bind fun m m' hm => ?_
    rw [hm.same.read]
    exact .pure _
  | decodeInto p values => exact (decodeInto_blind p values).indistinct (decodeInto_sound p values)
  | addClass ns p parent =>
    exact addClass_indistinct depth ns parent (hone (List.mem_singleton_self p))
  | collection ns =>
    refine .get_bind fun m m' hm => ?_
    rw [hm.same.classes]
    exact .pure _
  | clearRegistry =>
    exact .modify fun m m' hm => ⟨hm.left.of_objects rfl rfl, hm.right.of_objects rfl rfl,
      hm.same.setClasses []⟩

/-- In a memory whose caches are settled, all objects that are there may be used. -/
theorem live_of_unseen {m m' : Memory} (h : m.Indistinct (fun _ => False) m') :
    m.Indistinct (· < m.objects) m' where
  left := ⟨h.left.settled, fun _ hp => hp, nofun, nofun⟩
  right := ⟨h.right.settled, fun _ hp => h.same.objects ▸ hp, nofun, nofun⟩
  same := h.same

theorem Member.runLive_eq (depth : Nat) (f : Member α) (m : Memory) : f.runLive depth m =
    (if ∀ p ∈ f.targets, p < m.objects then f.run depth else Program.throw .diverges) m := rfl

theorem Member.runLive_indistinct (depth : Nat) (f : Member α) :
    Program.Coupled (Memory.Indistinct fun _ => False) (f.runLive depth) (f.runLive depth) := by
  intro m m' hm
  rw [f.runLive_eq depth m, f.runLive_eq depth m', hm.same.objects]
  by_cases hlive : ∀ p ∈ f.targets, p < m.objects
  · rw [if_pos hlive]
    obtain ⟨hresult, htrace, hstate⟩ := f.run_indistinct depth hlive m m' (live_of_unseen hm)
    refine ⟨hresult, htrace, ⟨hstate.left.settled, nofun, nofun, nofun⟩,
      ⟨hstate.right.settled, nofun, nofun, nofun⟩, hstate.same⟩
  · rw [if_neg hlive]
    exact ⟨rfl, rfl, hm⟩

/-- **Main result.** A program answers the same whatever the caches say of fields that are
there. -/
theorem Api.run_indistinct (depth : Nat) {α : Type} (p : Api ρ α) :
    Program.Coupled Unseen (p.run depth) (p.run depth) := by
  induction p with
  | pure a => exact .pure a
  | bind p f ihp ihf => exact .bind ihp ihf
  | throw e => exact .throw e
  | attempt p ih => exact .attempt ih
  | member f => exact (f.runLive_indistinct depth).onFirst
  | other f =>
    refine .ofState fun s t hst => ?_
    rw [hst.2]
    exact ⟨rfl, hst.1, rfl⟩

/-! ## Functions -/

/-- `catch (const std::runtime_error&) { return BISON_ERR_TYPE; } catch (...) { … }`. -/
def catchType (p : Api ρ α) : Api ρ (Returned BisonError α) := do
  match ← Api.attempt p with
  | .ok a => return { error := .ok, out := some a }
  | .error (.runtimeError _) => return { error := .type }
  | .error _ => return { error := .exception }

/-- The getters (bison_c.cpp:743): `(*dyn(h))[name].as<T>()`. `out` says whether their out parameter
is not NULL. -/
def bisonGet (T : Memory.FieldType) (h : Option Ptr) (name : Key) (out : Bool) :
    Api ρ (Returned BisonError Content) :=
  match h, out with
  | some p, true => catchType do
    let n ← Api.member (.subscript p name)
    Api.member (.asType T n)
    Api.member (.content n)
  | _, _ => return { error := .null }

def bisonGetInt (h : Option Ptr) (name : Key) (out : Bool) : Api ρ (Returned BisonError Content) :=
  bisonGet .int32 h name out

def bisonGetFloat (h : Option Ptr) (name : Key) (out : Bool) :
    Api ρ (Returned BisonError Content) := bisonGet .float h name out

def bisonGetBool (h : Option Ptr) (name : Key) (out : Bool) : Api ρ (Returned BisonError Content) :=
  bisonGet .bool h name out

/-- The buffer and the length may be NULL. -/
def bisonGetString (h : Option Ptr) (name : Key) : Api ρ (Returned BisonError Content) :=
  bisonGet .string h name true

def bisonGetKey (h : Option Ptr) (name : Key) (out : Bool) : Api ρ (Returned BisonError Content) :=
  bisonGet .key h name out

def bisonGetObject (h : Option Ptr) (name : Key) (out : Bool) :
    Api ρ (Returned BisonError Content) := bisonGet .object h name out

/-- `field::operator=(const T&)` (bison_object.hpp:473). -/
def assign (n : Node) (c : Content) : Api ρ Unit := do
  let old ← Api.member (.content n)
  if old.index = 0 ∨ old.index = c.index then Api.member (.put n c)
  else Api.throw (.runtimeError "Invalid type")

/-- The setters (bison_c.cpp:637): `(*dyn(h))[name] = value`. -/
def bisonSet (h : Option Ptr) (name : Key) (c : Content) : Api ρ BisonError :=
  match h with
  | some p => do
    let r ← catchType do
      let n ← Api.member (.subscript p name)
      assign n c
    return r.error
  | none => return .null

def bisonSetInt (h : Option Ptr) (name : Key) (value : Int32) : Api ρ BisonError :=
  bisonSet h name (.plain (.int32 value))

def bisonSetString (h : Option Ptr) (name : Key) (value : List UInt8) : Api ρ BisonError :=
  bisonSet h name (.plain (.string value))

def bisonSetKey (h : Option Ptr) (name : Key) (value : Key) : Api ρ BisonError :=
  bisonSet h name (.plain (.key value))

/-- A NULL handle sets a null `dynamic_ptr`. -/
def bisonSetObject (h : Option Ptr) (name : Key) (value : Option Ptr) : Api ρ BisonError :=
  bisonSet h name (value.elim (.plain .null) .object)

/-- `size` (bison_object.hpp:1028). -/
def size (fields : FinMap Key Content) : Nat :=
  match (fields.entries.filter fun kv => kv.1 < 0x80000000).getLast? with
  | some kv => kv.1.toNat + 1
  | none => 0

/-- `bison_size` (bison_c.cpp:857). -/
def bisonSize (h : Option Ptr) : Api ρ Nat :=
  match h with
  | some p => do return size (← Api.member (.fields p))
  | none => return 0

/-- `bison_serialize` (bison_c.cpp:598). -/
def bisonSerialize (h : Option Ptr) (out : Bool) : Api ρ (Returned BisonError (List UInt8)) :=
  match h, out with
  | some p, true => do
    match ← Api.member (.read p) with
    | some tree => return { error := .ok, out := some (Dynamic.serialize tree) }
    | none => Api.throw .outOfFuel
  | _, _ => return { error := .null }

/-- `bison_create` (bison_c.cpp:62). -/
def bisonCreate (klass : Key) : Api ρ Ptr := Api.member (.construct klass ∅)

/-- `bison_instantiate` (bison_c.cpp:71), of a class without a factory. -/
def bisonInstantiate (ns klass : Key) : Api ρ Ptr := Api.member (.instantiate ns klass)

/-- `bison_clone` (bison_c.cpp:111). -/
def bisonClone (h : Option Ptr) : Api ρ (Option Ptr) :=
  match h with
  | some p => do
    let q ← Api.member (.clone p)
    return some (← Api.member (.relocate q))
  | none => return none

/-- `add_field_impl` (bison_c.cpp:337). -/
def bisonAddField (h : Option Ptr) (name : Key) (c : Content) : Api ρ BisonError :=
  match h with
  | some p => do
    match ← Api.attempt (Api.member (.addField p name c)) with
    | .ok added => return if added then .ok else .duplicate
    | .error _ => return .exception
  | none => return .null

/-- `bison_add_class` (bison_c.cpp:221). -/
def bisonAddClass (ns : Key) (klass : Option Ptr) (parent : Key) : Api ρ BisonError :=
  match klass with
  | some p => do
    match ← Api.attempt (Api.member (.addClass ns p parent)) with
    | .ok added => return if added then .ok else .duplicate
    | .error _ => return .exception
  | none => return .null

/-- `bison_find_class` (bison_c.cpp:235). -/
def bisonFindClass (ns klass : Key) : Api ρ (Option Ptr) := do
  return (← Api.member (.collection ns)).bind (·.lookup klass)

/-- `bison_clear_registry` (bison_c.cpp:251). -/
def bisonClearRegistry : Api ρ Unit := Api.member .clearRegistry

end Bison.CApi
