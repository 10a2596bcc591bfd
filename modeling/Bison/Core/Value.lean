import Mathlib.Algebra.Group.Nat.Defs
import Mathlib.Data.Fintype.Card
import Bison.Lib.SortedMap

/-!
# Keys, field values and exceptions

The data a `dynamic` holds (bison_common.hpp, bison_object.hpp).

- `hash` / `key`: the 32-bit FNV-1a name hash with its top bit forced to one, and the
  reserved keys `CLASS`, `PARENT` and `NAMESPACE`.
- `Value`: the alternatives of `field_base`, in tag order. A `dynamic_ptr` is either
  `null` or the fields of the object it points to.
- `Fields`: the `std::map<key_t, field>` of a `dynamic`, as a sorted association list.
- `Exn`: how a C++ function of the model ends when it does not return.

Attributes are not part of a `Value`: neither wire format carries them.
-/

namespace Bison

/-! ## Names -/

/-- `hash_t`, and `key_t` which wraps one (bison_common.hpp:111, 147). -/
abbrev Key := UInt32

/-- The FNV-1a hash of a name with the top bit forced to one (bison_common.hpp:125).
`static_cast<hash_t>(*input)` sign-extends where the platform's `char` is signed. -/
def hash (charSigned : Bool) (name : List UInt8) : Key :=
  name.foldl
    (fun value c =>
      (value ^^^ if charSigned then c.toInt8.toInt32.toUInt32 else c.toUInt32) * 0x01000193)
    0x811c9dc5 ||| 0x80000000

/-- The bytes of an ASCII text. -/
def ascii (text : String) : List UInt8 :=
  text.toList.map fun c => UInt8.ofNat c.toNat

/-- `"name"_key` for an ASCII name. -/
def key (name : String) : Key := hash true (ascii name)

/-- Reserved: class name hash (bison_object.hpp:869). -/
def CLASS : Key := key "__class"

/-- Reserved: parent class hash. -/
def PARENT : Key := key "__parent"

/-- Reserved: namespace hash, 0 for the global namespace. -/
def NAMESPACE : Key := key "__namespace"

theorem CLASS_ne_PARENT : CLASS ≠ PARENT := by decide

theorem CLASS_ne_NAMESPACE : CLASS ≠ NAMESPACE := by decide

theorem PARENT_ne_NAMESPACE : PARENT ≠ NAMESPACE := by decide

/-! ## Values -/

/-- The alternatives of `field_base` (bison_common.hpp:280), in tag order. Floats are kept
as their bit pattern, strings as their bytes. -/
inductive Value where
  | monostate
  | hash (h : UInt32)
  | key (k : Key)
  | bool (b : Bool)
  | int32 (i : Int32)
  | float (bits : UInt32)
  | null
  | object (fields : List (Key × Value))
  | string (s : List UInt8)
  | bools (v : List Bool)
  | int32s (v : List Int32)
  | floats (v : List UInt32)
  | bytes (v : List UInt8)
  deriving Repr, BEq, Inhabited

/-- `fields_`: the field map of a `dynamic`, ascending by key. -/
abbrev Fields := List (Key × Value)

/-- A default-constructed `dynamic`: class 0 and nothing else (bison_object.hpp:892). -/
def Dynamic.empty : Fields := [(CLASS, .key 0)]

/-- A sorted field map has at most one entry per 32-bit key. -/
theorem Fields.length_le {d : Fields} (h : SortedMap.Sorted d) : d.length ≤ 2 ^ 32 := by
  have hnd : ((d.map Prod.fst).map UInt32.toFin).Nodup :=
    h.nodup_keys.map fun _ _ hab => UInt32.toFin_inj.mp hab
  have hcard := hnd.length_le_card
  rwa [List.length_map, List.length_map, Fintype.card_fin] at hcard

/-! ## Exceptions -/

/-- How a modelled C++ function ends when it does not return a value. -/
inductive Exn where
  /-- `std::runtime_error` with its text. -/
  | runtimeError (what : String)
  /-- `std::length_error` from a container asked to grow past what it can hold. -/
  | lengthError
  /-- The function does not return: a walk over a cyclic class chain. -/
  | diverges
  /-- The model's own bound on nesting was too small; excluded wherever it could show. -/
  | outOfFuel
  deriving Repr, DecidableEq, Inhabited

/-- The function ended by throwing. -/
def Exn.Thrown : Exn → Prop
  | .runtimeError _ => True
  | .lengthError => True
  | .diverges => False
  | .outOfFuel => False

end Bison
