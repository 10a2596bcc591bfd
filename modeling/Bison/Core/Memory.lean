import Bison.Core.ClassRegistry
import Bison.Lib.FinMap
import Bison.Lib.Triple

/-!
# Objects in memory

A `dynamic` with its field map and the cache of pointers beside it (bison_object.hpp:886). A field
map consists of nodes, which have addresses of their own: the cache points to them, and they move
from one map to another when an object is moved. An object that is the value of a field is known by
its address.

- `Memory`: the objects, what the nodes hold, and the class registry.
- `findField`, `subscript`, …: the member functions, on the object at an address.
- `clonePtr`, `cloneInto`, `copyConstruct`, `moveConstruct`: the copies.
- `Memory.read`: the tree of values that an object shows.

`depth` is how deep clones may nest before the stack is exhausted. Methods, userdata and the
attributes of fields are not in the model: copies share them, and nothing changes them.
-/

namespace Bison

/-- Where a node of a field map is. -/
abbrev Node := Nat

/-- What a field holds: a `dynamic_ptr` that is not null, or any other value. -/
inductive Content where
  | plain (v : Value)
  | object (p : Ptr)

/-- Which alternative of `field_base` it is. -/
def Content.index : Content → Nat
  | plain v => v.index
  | object _ => 6

/-- The object that it points to. -/
def Content.pointers : Content → List Ptr
  | plain _ => []
  | object p => [p]

/-- A `dynamic`: `fields_` and `field_lookup_`, where null says that the field is absent. -/
structure Dyn where
  fields : FinMap Key Node := ∅
  lookup : FinMap Key (Option Node) := ∅

structure Memory where
  object : Ptr → Dyn := fun _ => {}
  content : Node → Content := fun _ => .plain .monostate
  /-- The addresses below these have been given out. -/
  objects : Ptr := 0
  nodes : Node := 0
  /-- The registry: the prototypes by namespace and name. -/
  classes : List (Key × List (Key × Ptr)) := []

/-- Programs on the memory; what was done before an exception stays done. -/
abbrev MemoryM := Program Exn Empty Memory

namespace Memory

/-! ## Objects and nodes -/

def setObject (m : Memory) (p : Ptr) (d : Dyn) : Memory :=
  { m with object := fun q => if q = p then d else m.object q }

def setContent (m : Memory) (n : Node) (c : Content) : Memory :=
  { m with content := fun n' => if n' = n then c else m.content n' }

/-- A new object. -/
def newObject (d : Dyn) : MemoryM Ptr := Program.ofState fun m =>
  (.ok m.objects, { m.setObject m.objects d with objects := m.objects + 1 })

/-- A new node. -/
def newNode (c : Content) : MemoryM Node := Program.ofState fun m =>
  (.ok m.nodes, { m.setContent m.nodes c with nodes := m.nodes + 1 })

def getObject (p : Ptr) : MemoryM Dyn := do return (← Program.get).object p

def modifyObject (p : Ptr) (f : Dyn → Dyn) : MemoryM Unit :=
  Program.modify fun m => m.setObject p (f (m.object p))

def getContent (n : Node) : MemoryM Content := do return (← Program.get).content n

/-- The contents of a field are replaced. -/
def putContent (n : Node) (c : Content) : MemoryM Unit := Program.modify fun m => m.setContent n c

/-- The end of the object. -/
def destroy (p : Ptr) : MemoryM Unit := modifyObject p fun _ => {}

/-- `fields_[key]`: the field, or a new empty one. -/
def nodeAt (p : Ptr) (key : Key) : MemoryM Node := do
  match (← getObject p).fields.lookup key with
  | some n => return n
  | none =>
    let n ← newNode (.plain .monostate)
    modifyObject p fun d => { d with fields := d.fields.insert key n }
    return n

/-- `field_lookup_[key] = found`. -/
def cache (p : Ptr) (key : Key) (found : Option Node) : MemoryM Unit :=
  modifyObject p fun d => { d with lookup := d.lookup.insert key found }

/-- `field_lookup_.emplace(key, &field)`: an entry that is there stays. -/
def cacheNew (p : Ptr) (key : Key) (n : Node) : MemoryM Unit := do
  if ((← getObject p).lookup.lookup key).isSome then return () else cache p key n

/-! ## Fields -/

/-- The types `as` is used with: what a field can hold (bison_common.hpp:280). -/
inductive FieldType where
  | hash
  | key
  | bool
  | int32
  | float
  | object
  | string
  | bools
  | int32s
  | floats
  | bytes
  deriving Repr, DecidableEq

/-- `field::operator=(const T&)`, of a key (bison_object.hpp:473). -/
def assignKey (n : Node) (k : Key) : MemoryM Unit := do
  if (← getContent n).index = 0 ∨ (← getContent n).index = 2 then putContent n (.plain (.key k))
  else Program.throw (.runtimeError "Invalid type")

/-- `dynamic(klass, fields)` (bison_object.hpp:892). -/
def construct (klass : Key) (fields : FinMap Key Content) : MemoryM Ptr := do
  let p ← newObject {}
  Program.forEach (fun kv => do
    let n ← newNode kv.2
    modifyObject p fun d => { d with fields := d.fields.insert kv.1 n }) fields.entries
  let n ← nodeAt p CLASS
  assignKey n klass
  return p

/-- `T{}`; a `dynamic_ptr` is not null then (bison_common.hpp:255). -/
def FieldType.init : FieldType → MemoryM Content
  | .hash => return .plain (.hash 0)
  | .key => return .plain (.key 0)
  | .bool => return .plain (.bool false)
  | .int32 => return .plain (.int32 0)
  | .float => return .plain (.float 0)
  | .object => do return .object (← construct 0 ∅)
  | .string => return .plain (.string [])
  | .bools => return .plain (.bools [])
  | .int32s => return .plain (.int32s [])
  | .floats => return .plain (.floats [])
  | .bytes => return .plain (.bytes [])

def FieldType.index : FieldType → Nat
  | .hash => 1
  | .key => 2
  | .bool => 3
  | .int32 => 4
  | .float => 5
  | .object => 6
  | .string => 7
  | .bools => 8
  | .int32s => 9
  | .floats => 10
  | .bytes => 11

/-- `field::as<T>()` (bison_object.hpp:560). -/
def asType (T : FieldType) (n : Node) : MemoryM Unit := do
  let c ← getContent n
  if c.index = 0 then putContent n (← T.init)
  else if c.index = T.index then return ()
  else Program.throw (.runtimeError "Invalid type")

/-- `operator[](size_t)` (bison_object.hpp:1065). -/
def index (p : Ptr) (pos : Nat) : MemoryM Node := do
  let n ← nodeAt p (UInt32.ofNat pos)
  cache p (UInt32.ofNat pos) n
  return n

/-- `as<T>(name)` (bison_object.hpp:1163). -/
def as (T : FieldType) (p : Ptr) (name : Key) : MemoryM Node := do
  let n ← nodeAt p name
  cache p name n
  asType T n
  return n

/-- `as<key_t>(name)`, and the key. -/
def asKey (p : Ptr) (name : Key) : MemoryM Key := do
  match ← getContent (← as .key p name) with
  | .plain (.key k) => return k
  | _ => return 0

/-- `erase` (bison_object.hpp:1040). -/
def erase (p : Ptr) (pos : Nat) : MemoryM Unit :=
  modifyObject p fun d =>
    { fields := d.fields.erase (UInt32.ofNat pos), lookup := d.lookup.erase (UInt32.ofNat pos) }

/-- `clear` (bison_object.hpp:1052). -/
def clear (p : Ptr) : MemoryM Unit :=
  modifyObject p fun d => { fields := d.fields.filter fun k => 0x80000000 ≤ k, lookup := ∅ }

/-- `addField` (bison_object.hpp:1330). -/
def addField (p : Ptr) (name : Key) (c : Content) : MemoryM Bool := do
  match (← getObject p).fields.lookup name with
  | some _ => return false
  | none =>
    let n ← newNode c
    modifyObject p fun d => { d with fields := d.fields.insert name n }
    cache p name n
    return true

/-- `resolveNamespace` (bison_object.hpp:1830). -/
def resolveNamespace (p : Ptr) : MemoryM Key := do
  match (← getObject p).fields.lookup NAMESPACE with
  | some n =>
    match ← getContent n with
    | .plain (.key ns) => return ns
    | _ =>
      assignKey n 0
      return 0
  | none =>
    assignKey (← nodeAt p NAMESPACE) 0
    return 0

/-! ## Copies -/

/-- `dst.fields_ = fields_` and `dst.field_lookup_.clear()`: the nodes are copied. -/
def copyFields (src dst : Ptr) : MemoryM Unit := do
  let fields := (← getObject src).fields
  modifyObject dst fun _ => {}
  Program.forEach (fun kv => do
    let n ← newNode (← getContent kv.2)
    modifyObject dst fun d => { d with fields := d.fields.insert kv.1 n }) fields.entries

/-- `ptr = ptr->clone_ptr()` for every field that holds an object. -/
def cloneChildren (cloneChild : Ptr → MemoryM Ptr) (dst : Ptr) : MemoryM Unit := do
  Program.forEach (fun kv => do
    match ← getContent kv.2 with
    | .object q => putContent kv.2 (.object (← cloneChild q))
    | .plain _ => return ()) (← getObject dst).fields.entries

/-- `clone_ptr` (bison_object.hpp:1000). -/
def clonePtr : Nat → Ptr → MemoryM Ptr
  | 0, _ => Program.throw .outOfFuel
  | depth + 1, src => do
    let dst ← construct 0 ∅
    copyFields src dst
    cloneChildren (clonePtr depth) dst
    return dst

/-- `clone_into` (bison_object.hpp:960). -/
def cloneInto (depth : Nat) (src dst : Ptr) : MemoryM Unit := do
  copyFields src dst
  cloneChildren (clonePtr depth) dst

/-- The copy constructor (bison_object.hpp:910). -/
def copyConstruct (depth : Nat) (src : Ptr) : MemoryM Ptr := do
  let dst ← newObject {}
  copyFields src dst
  cloneChildren (clonePtr depth) dst
  return dst

/-- The move constructor (bison_object.hpp:926): the nodes go over, the cache of the source
stays. -/
def moveConstruct (src : Ptr) : MemoryM Ptr := do
  let d ← getObject src
  let dst ← newObject { fields := d.fields }
  modifyObject src fun d => { d with fields := ∅ }
  return dst

/-- `operator=(dynamic&&)` (bison_object.hpp:936). -/
def moveAssign (dst src : Ptr) : MemoryM Unit := do
  if dst = src then return ()
  else
    let d ← getObject src
    modifyObject src fun d => { d with fields := ∅ }
    modifyObject dst fun _ => { fields := d.fields }

/-- `clone` (bison_object.hpp:1018): the object behind the pointer is moved from, and ends. -/
def clone (depth : Nat) (src : Ptr) : MemoryM Ptr := do
  let q ← clonePtr depth src
  let dst ← moveConstruct q
  destroy q
  return dst

/-! ## Lookups -/

/-- A copy of what a field holds, with an object of its own. -/
def copyContent (depth : Nat) : Content → MemoryM Content
  | .plain v => return .plain v
  | .object q => do return .object (← clonePtr depth q)

/-- An instance gets a copy of the default. -/
def inherit (depth : Nat) (p : Ptr) (name : Key) (proto : Node) : MemoryM Unit := do
  let inherited ← copyContent depth (← getContent proto)
  match (← getObject p).fields.lookup name with
  | some _ => return ()
  | none =>
    let n ← newNode inherited
    modifyObject p fun d => { d with fields := d.fields.insert name n }

/-- The loop of `findField` over the classes, which ends after as many as there are, or never. -/
def walkClasses (depth : Nat) (col : List (Key × Ptr)) (p : Ptr) (name : Key) :
    Nat → Key → MemoryM Unit
  | 0, _ => Program.throw .diverges
  | steps + 1, klass => do
    match col.lookup klass with
    | none => return ()
    | some proto =>
      match (← getObject proto).fields.lookup name with
      | some n => inherit depth p name n
      | none => walkClasses depth col p name steps (← asKey proto PARENT)

/-- The slow path of `findField`. -/
def searchClasses (depth : Nat) (p : Ptr) (name : Key) : MemoryM Unit := do
  let ns ← resolveNamespace p
  match (← Program.get).classes.lookup ns with
  | none => return ()
  | some col =>
    let klass ← asKey p CLASS
    walkClasses depth col p name (col.length + 1) klass

/-- `findField` (bison_object.hpp:1581). -/
def findField (depth : Nat) (p : Ptr) (name : Key) : MemoryM (Option Node) := do
  match (← getObject p).lookup.lookup name with
  | some found => return found
  | none =>
    match (← getObject p).fields.lookup name with
    | some n =>
      cacheNew p name n
      return some n
    | none =>
      searchClasses depth p name
      match (← getObject p).fields.lookup name with
      | some n =>
        cacheNew p name n
        return some n
      | none =>
        cache p name none
        return none

/-- `operator[](key_t)` (bison_object.hpp:1102). -/
def subscript (depth : Nat) (p : Ptr) (name : Key) : MemoryM Node := do
  match ← findField depth p name with
  | some n => return n
  | none =>
    let n ← nodeAt p name
    cache p name n
    return n

/-- `get_as<key_t>(k)` (bison_object.hpp:1217). -/
def getAsKey (depth : Nat) (p : Ptr) (k : Key) : MemoryM Key := do
  match ← findField depth p k with
  | none => return 0
  | some n =>
    match ← getContent n with
    | .plain v => Program.lift (castKey v)
    | .object _ => Program.throw (.runtimeError "Incompatible types")

/-! ## Classes and instances -/

/-- `instantiate(ns, klass)` (bison_object.hpp:1413). -/
def instantiate (ns klass : Key) : MemoryM Ptr := do
  let p ← construct klass ∅
  if ns = 0 then return p
  else
    assignKey (← nodeAt p NAMESPACE) ns
    return p

/-- The loop of `addClass` over the ancestors of the class. -/
def walkAncestors (col : List (Key × Ptr)) (name : Key) : Nat → Key → MemoryM Key
  | 0, _ => Program.throw .diverges
  | steps + 1, ancestor => do
    match col.lookup ancestor with
    | none => return ancestor
    | some proto =>
      if ancestor = name then return ancestor
      else walkAncestors col name steps (← asKey proto PARENT)

/-- `addClass(ns, klass, parent)` (bison_object.hpp:1540). -/
def addClass (depth : Nat) (ns : Key) (klass : Ptr) (parent : Key) : MemoryM Bool := do
  let name ← asKey klass CLASS
  assignKey (← subscript depth klass PARENT) parent
  assignKey (← subscript depth klass NAMESPACE) ns
  let col := ((← Program.get).classes.lookup ns).getD []
  Program.modify fun m => { m with classes := SortedMap.insert ns col m.classes }
  let ancestor ← walkAncestors col name (col.length + 1) parent
  if ancestor = name then return false
  else if (col.lookup name).isSome then return false
  else
    Program.modify fun m =>
      { m with classes := SortedMap.insert ns (SortedMap.insert name klass col) m.classes }
    return true

/-- `instance->fields_[kv.first] = std::move(kv.second)` for every field, after which the cache is
cleared (bison_object.hpp:1995). -/
def decodeInto (p : Ptr) (fields : FinMap Key Content) : MemoryM Unit := do
  Program.forEach (fun kv => do putContent (← nodeAt p kv.1) kv.2) fields.entries
  modifyObject p fun d => { d with lookup := ∅ }

/-- The fields of an object and what they hold. -/
def fieldsOf (p : Ptr) : MemoryM (FinMap Key Content) := do
  let m ← Program.get
  return (m.object p).fields.map m.content

/-- `create_instance` (bison_object.hpp:1305). `made` is what the factory of the class gives, if it
has one. -/
def createInstance (made : Option (Option Ptr)) (ns klass : Key) : MemoryM (Option Ptr) := do
  match ((← Program.get).classes.lookup ns).bind fun col => col.lookup klass with
  | none => return none
  | some _ =>
    match made with
    | some made => return made
    | none => return some (← instantiate ns klass)

/-- `deserialize_instance` (bison_object.hpp:1988), of fields that have been read. -/
def deserializeInstance (depth : Nat) (made : Option (Option Ptr)) (fields : FinMap Key Content) :
    MemoryM Ptr := do
  let dyn ← construct 0 ∅
  decodeInto dyn fields
  let ns ← getAsKey depth dyn NAMESPACE
  let klass ← getAsKey depth dyn CLASS
  match ← createInstance made ns klass with
  | none =>
    let p ← moveConstruct dyn
    destroy dyn
    return p
  | some p =>
    decodeInto p (← fieldsOf dyn)
    destroy dyn
    return p

/-! ## Trees -/

/-- The values that the object shows, objects in fields as trees. -/
def read (m : Memory) : Nat → Ptr → Option Fields
  | 0, _ => none
  | depth + 1, p => (m.object p).fields.entries.mapM fun kv =>
    match m.content kv.2 with
    | .plain v => some (kv.1, v)
    | .object q => (read m depth q).map fun fields => (kv.1, .object fields)

/-! ## Reading and writing -/

theorem object_setObject (m : Memory) (p q : Ptr) (d : Dyn) :
    (m.setObject p d).object q = if q = p then d else m.object q := rfl

/-- The object that a write leaves behind. -/
theorem object_self (m : Memory) (p : Ptr) (d : Dyn) : (m.setObject p d).object p = d := by
  rw [object_setObject, if_pos rfl]

theorem setObject_setObject (m : Memory) (p : Ptr) (d d' : Dyn) :
    (m.setObject p d).setObject p d' = m.setObject p d' := by
  have hobject : ((m.setObject p d).setObject p d').object = (m.setObject p d').object := by
    funext q
    rw [object_setObject, object_setObject, object_setObject]
    split_ifs <;> rfl
  exact congrArg (fun object => { m with object }) hobject

theorem content_setContent (m : Memory) (n n' : Node) (c : Content) :
    (m.setContent n c).content n' = if n' = n then c else m.content n' := rfl

theorem getObject_run (p : Ptr) (m : Memory) : getObject p m = ⟨.ok (m.object p), [], m⟩ := rfl

theorem getContent_run (n : Node) (m : Memory) : getContent n m = ⟨.ok (m.content n), [], m⟩ := rfl

/-- What is read of an object is what it is then. -/
theorem getObject_bind {α : Type} {P : Memory → Prop} {Q : α → Memory → Prop}
    {E : Exn → Memory → Prop} {p : Ptr} {f : Dyn → MemoryM α}
    (h : ∀ d, Program.Triple (fun m => P m ∧ m.object p = d) (f d) Q E) :
    Program.Triple P (getObject p >>= f) Q E :=
  Program.Triple.bind (Q := fun d m => P m ∧ m.object p = d) (fun _ hm => ⟨hm, rfl⟩) h

theorem getContent_bind {α : Type} {P : Memory → Prop} {Q : α → Memory → Prop}
    {E : Exn → Memory → Prop} {n : Node} {f : Content → MemoryM α}
    (h : ∀ c, Program.Triple P (f c) Q E) : Program.Triple P (getContent n >>= f) Q E :=
  Program.Triple.bind (Q := fun _ => P) (fun _ hm => hm) h

end Memory

end Bison
