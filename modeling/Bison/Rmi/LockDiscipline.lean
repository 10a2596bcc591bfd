import Bison.Rmi.LockedHandlers

/-!
# The lock of the registry is not taken twice

The registry is locked by the functions of `dynamic`, by scopes in the handlers of `server` and
`standalone`, and by those of bison_c.cpp. A thread that calls them one after the other, with
anything in between that does not lock the registry, takes the lock only while it does not hold it,
but for four of them.

- `RegistryCall`: a call of one of these functions, and `scopes`, in which the lock is held.
- `RegistryCall.Safe`: what the four need.
- `lock_taken_once_iff`: **main result**, a thread never takes the lock that it holds exactly if all
  its calls are safe.
-/

namespace Bison

open Program

variable {μ α : Type}

/-- The registry, and the attributes of what is in it. -/
structure Catalogue (μ : Type) where
  registry : Registry μ
  annotations : Annotations

/-- A call of a function that locks the registry, and what it is given. -/
inductive RegistryCall (μ α : Type) : Type 1 where
  /- dynamic -/
  | findField (name : Key) (d : Fields)
  | subscript (name : Key) (d : Fields)
  | setField (name : Key) (v : Value) (d : Fields)
  | writeField (name : Key) (v : Value) (d : Fields)
  | getAsKey (name : Key) (d : Fields)
  | findMethod (name : Key) (methods : List (Key × μ)) (d : Fields)
  | findClass (name : Key) (d : Fields)
  | createInstance (ns klass : Key)
  | addClass (s : Classes μ α) (c : Call α)
  | serializeWithSchema (d : Fields)
  | deserialize {σ : Type} (rd : Reader σ) (fuel : Nat) (input : σ)
  | deserializeInstance {σ : Type} (rd : Reader σ) (fuel : Nat) (input : σ)
  | deserializeWithSchema {σ : Type} (rd : Reader σ) (fuel : Nat) (input : σ)
  /- server and standalone -/
  | describe (payload : Fields)
  | describeIn (ns klass : Key)
  | dictionary
  | help (preamble : Text)
  | checkClass (ns klass : Key)
  | resetObject (d : Fields)
  /- bison_c.cpp -/
  | bisonFindClass (ns klass : Key)
  | bisonGetClassAttributes (ns klass : Key)
  | bisonClearRegistry

namespace RegistryCall

/-- The scopes in which the call holds the lock. -/
def scopes (cat : Catalogue μ) : RegistryCall μ α → List (Hold Access)
  | findField name d => (Locked.findField cat.registry name d).trace
  | subscript name d => (Locked.subscript cat.registry name d).trace
  | setField name v d => (Locked.setField cat.registry name v d).trace
  | writeField name v d => (Locked.writeField cat.registry name v d).trace
  | getAsKey name d => (Locked.getAsKey cat.registry name d).trace
  | findMethod name methods d => (Locked.findMethod cat.registry name methods d).trace
  | findClass name d => (Locked.findClass cat.registry name d).trace
  | createInstance ns klass => (Locked.createInstance cat.registry ns klass ()).trace
  | addClass s c => (Locked.registerClass s c (s.heap c.proto).fields).trace
  | serializeWithSchema d => (Locked.serializeWithSchema cat.registry d).trace
  | deserialize rd fuel input => (Locked.deserialize rd cat.registry fuel input).trace
  | deserializeInstance rd fuel input =>
    (Locked.deserializeInstance rd cat.registry fuel input).trace
  | deserializeWithSchema rd fuel input =>
    (Locked.deserializeWithSchema rd cat.registry fuel input).trace
  | describe payload => (Locked.handleDescribe cat.registry cat.annotations payload).trace
  | describeIn ns klass =>
    (Locked.describeIn cat.registry cat.annotations ns klass Dynamic.empty).trace
  | dictionary => (Locked.dictionary cat.registry cat.annotations Dynamic.empty).trace
  | help preamble => (Locked.help cat.registry cat.annotations preamble Dynamic.empty).trace
  | checkClass ns klass => (Locked.checkClass cat.registry ns klass ()).trace
  | resetObject d => (Locked.resetObject cat.registry d).trace
  | bisonFindClass ns klass => (Locked.bisonFindClass cat.registry ns klass ()).trace
  | bisonGetClassAttributes ns klass =>
    (Locked.bisonGetClassAttributes cat.registry cat.annotations ns klass ()).trace
  | bisonClearRegistry => (Locked.bisonClearRegistry cat.registry).trace

/-- Decoding with a schema must read no complete object. Describe must be asked for no class that is
registered, and list none that has attributes. The dictionary must have no display name to
write, unless it refuses the first. -/
def Safe (cat : Catalogue μ) : RegistryCall μ α → Prop
  | deserializeWithSchema rd fuel input => ¬ HoldsObject rd cat.registry fuel input
  | describe payload =>
    ∀ requested payload', asKey FIELD_KLASS payload = .ok (requested, payload') →
      Locked.DescribesPlainly cat.registry cat.annotations requested
  | describeIn ns klass => Locked.DescribesPlainlyIn cat.registry cat.annotations ns klass
  | dictionary => Locked.NamesPlainly
      (cat.registry.listed.flatMap fun e => Locked.namesOf cat.annotations e.1 e.2.1 e.2.2)
  | _ => True

/-- A call opens no scope inside another exactly if it is safe. -/
theorem scopes_plain_iff (cat : Catalogue μ) (c : RegistryCall μ α) :
    (∀ h ∈ c.scopes cat, h.Plain) ↔ c.Safe cat := by
  cases c with
  | findField name d => exact iff_of_true ((Locked.findField_wraps _ name).flat d) trivial
  | subscript name d => exact iff_of_true ((Locked.subscript_wraps _ name).flat d) trivial
  | setField name v d => exact iff_of_true ((Locked.setField_wraps _ name v).flat d) trivial
  | writeField name v d => exact iff_of_true ((Locked.writeField_wraps _ name v).flat d) trivial
  | getAsKey name d => exact iff_of_true ((Locked.getAsKey_wraps _ name).flat d) trivial
  | findMethod name methods d =>
    exact iff_of_true ((Locked.findMethod_wraps _ name methods).flat d) trivial
  | findClass name d => exact iff_of_true ((Locked.findClass_wraps _ name).flat d) trivial
  | createInstance ns klass =>
    exact iff_of_true ((Locked.createInstance_wraps _ ns klass).flat ()) trivial
  | addClass s c => exact iff_of_true (Locked.registerClass_flat s c _) trivial
  | serializeWithSchema d => exact iff_of_true ((Locked.serializeWithSchema_wraps _).flat d) trivial
  | deserialize rd fuel input =>
    exact iff_of_true ((Locked.deserialize_wraps rd _ fuel).flat input) trivial
  | deserializeInstance rd fuel input =>
    exact iff_of_true ((Locked.deserializeInstance_wraps rd _ fuel).flat input) trivial
  | deserializeWithSchema rd fuel input =>
    exact Locked.deserializeWithSchema_plain_iff rd _ fuel input
  | describe payload => exact Locked.handleDescribe_plain_iff payload
  | describeIn ns klass => exact Locked.describeIn_plain_iff ns klass
  | dictionary => exact Locked.dictionary_plain_iff
  | help preamble => exact iff_of_true (Locked.help_flat preamble _) trivial
  | checkClass ns klass => exact iff_of_true (Locked.checkClass_flat ns klass ()) trivial
  | resetObject d => exact iff_of_true (Locked.resetObject_flat d) trivial
  | bisonFindClass ns klass => exact iff_of_true (Locked.bisonFindClass_flat ns klass ()) trivial
  | bisonGetClassAttributes ns klass =>
    exact iff_of_true (Locked.bisonGetClassAttributes_flat ns klass ()) trivial
  | bisonClearRegistry => exact iff_of_true (Locked.bisonClearRegistry_flat _) trivial

end RegistryCall

/-- What happens to the lock in a thread that makes these calls, each with the registry and the
attributes that there are by then. -/
def lockEvents (calls : List (Catalogue μ × RegistryCall μ α)) : List (LockEvent Access) :=
  Hold.eventsOf (calls.flatMap fun c => c.2.scopes c.1)

/-- **Main result**: a thread never takes the lock that it holds exactly if all its calls are
safe. -/
theorem lock_taken_once_iff (calls : List (Catalogue μ × RegistryCall μ α)) :
    Hold.Orderly 0 (lockEvents calls) ↔ ∀ c ∈ calls, c.2.Safe c.1 := by
  have hcalls : (∀ h ∈ calls.flatMap fun c => c.2.scopes c.1, h.Plain) ↔
      ∀ c ∈ calls, ∀ h ∈ c.2.scopes c.1, h.Plain := by
    constructor
    · exact fun hplain c hc h hh => hplain h (List.mem_flatMap.mpr ⟨c, hc, hh⟩)
    · intro hplain h hh
      obtain ⟨c, hc, hh⟩ := List.mem_flatMap.mp hh
      exact hplain c hc h hh
  rw [lockEvents, Hold.orderly_eventsOf_iff, hcalls]
  exact forall₂_congr fun c _ => RegistryCall.scopes_plain_iff c.1 c.2

/-- The details of an error are instantiated while its frame is decoded, and a description that
names its class reads what it does not have. -/
theorem lock_taken_twice : ∃ bytes,
    encodeError SampleFrames.registry SampleFrames.error = .ok (some bytes) ∧
      ∀ annotations,
        ¬ Hold.Orderly 0 (lockEvents [(⟨SampleFrames.registry, annotations⟩,
          (.deserializeWithSchema (bufferReader SampleFrames.limits) (bytes.length + 1) bytes :
            RegistryCall Unit Unit))]) ∧
        ¬ Hold.Orderly 0 (lockEvents [(⟨SampleFrames.registry, annotations⟩,
          (.describe [(FIELD_KLASS, .key CLASS_ERROR)] : RegistryCall Unit Unit))]) := by
  refine ⟨_, rfl, fun annotations => ⟨?_, ?_⟩⟩
  · rw [lockEvents, List.flatMap_singleton, Hold.orderly_eventsOf_iff,
      RegistryCall.scopes_plain_iff]
    intro hsafe
    refine hsafe ?_
    unfold HoldsObject
    rfl
  · rw [lockEvents, List.flatMap_singleton, Hold.orderly_eventsOf_iff,
      RegistryCall.scopes_plain_iff]
    intro hsafe
    have hplain := hsafe CLASS_ERROR _ rfl
    cases hplain

end Bison
