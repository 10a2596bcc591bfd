import Bison.Core.FieldAttributes
import Bison.Lib.Triple
import Bison.Rmi.Server

/-!
# Set requests and what they do to fields

`handle_set` of both backends copies the fields of the patch: `obj[k] = v` for a `v` that is itself
a field, which `operator=` is not asked about. So the type of a field, and what is attached to it,
is what the patch says.

- `handleSet`: both backends, over fields with their attributes.
- `applyPatch_coupled`: but for the attributes, a patch is applied as a `Server` applies it.
- `SetKeeps`: what a set request should keep. `SetFits`: the patch has the types and the attributes
  of the fields it is for.
- `sets_keep`: **main result**, over any number of requests that fit, every field keeps its type and
  its attributes.
- `applyPatch_keeps_iff`: without a hook, a patch keeps the fields exactly if it fits.
-/

namespace Bison

open SortedMap Program

namespace Annotated

variable {μ : Type}

/-- An object that is served. -/
structure Object (μ : Type) where
  fields : Annotated
  methods : List (Key × μ)

abbrev ObjectM (μ α : Type) := Program Failure SessionEffect (Object μ) α

/-- The classes, what they attach to fields, and what methods do to an object. Methods throw nothing
but `std::exception`s. -/
structure Backend (μ : Type) where
  registry : Registry μ
  declared : Prototype μ → Key → List Attribute
  impl : μ → Annotated → Object μ → Except Text Annotated × Object μ

namespace Backend

section Handlers

variable (be : Backend μ)

/-- A lookup in the fields of the object. -/
def onFields {α : Type} (lookup : Decoder Exn Annotated α) : ObjectM μ α :=
  Program.ofState fun obj =>
    match lookup obj.fields with
    | .ok (a, fields) => (.ok a, { obj with fields })
    | .error e => (.error (.ofExn e), { obj with fields := afterThrow obj.fields })

/-- `obj->findMethod(name)`. -/
def findMethodM (name : Key) : ObjectM μ (Option μ) :=
  Program.ofState fun obj =>
    match findMethod be.registry name obj.methods obj.fields with
    | .ok ((m, methods), fields) => (.ok m, ⟨fields, methods⟩)
    | .error e => (.error (.ofExn e), { obj with fields := afterThrow obj.fields })

/-- `dynamic::call` (bison_object.hpp:1386) of a method that the object has. -/
def call (name : Key) (params : Annotated) : ObjectM μ Annotated := do
  match ← be.findMethodM name with
  | some m => external (be.impl m params)
  | none => Program.throw (.thrown (ascii "Method not found"))

/-- `apply_patch` (server.cpp:822), and the loop of standalone.cpp:569. -/
def applyPatch (patch : Annotated) : ObjectM μ Unit :=
  Program.forEach (fun entry => onFields (writeField be.registry be.declared entry.1 entry.2))
    (patch.filter fun entry => isPatchKey entry.1)

end Handlers

end Backend

/-- A set request. What comes over the wire has no attributes; a payload that is handed over in the
process may have some, and its clone has them too. -/
inductive SetRequest where
  | server (payload : Fields)
  | standalone (payload : Annotated)

def SetRequest.payload : SetRequest → Annotated
  | server payload => ofFields payload
  | standalone payload => payload

namespace Backend

section Handlers

variable (be : Backend μ)

/-- What is written: the payload, or what `__setter` makes of it. The server catches what it
throws. -/
def patchOf (r : SetRequest) : ObjectM μ (Except Text Annotated) := do
  match ← be.findMethodM HOOK_SETTER with
  | none => return .ok r.payload
  | some _ =>
    match r with
    | .server _ => tryCatch (be.call HOOK_SETTER r.payload)
    | .standalone _ => return .ok (← be.call HOOK_SETTER r.payload)

/-- `handle_set` (server.cpp:806, standalone.cpp:559), for an object that is there. What is sent if
`__setter` threw. -/
def handleSet (r : SetRequest) : ObjectM μ (Except Text Unit) := do
  match ← be.patchOf r with
  | .error what => return .error (ascii "__setter failed: " ++ what)
  | .ok patch =>
    be.applyPatch patch
    return .ok ()

/-- Every field keeps its type and its attributes. -/
abbrev Stable (o o' : Annotated) : Prop := Annotated.Stable be.registry be.declared o o'

abbrev resolve (o : Annotated) (name : Key) : Option Field :=
  Annotated.resolve be.registry be.declared o name

/-- A value of another type for a field that holds one. -/
def Mismatched (o patch : Annotated) : Prop :=
  ∃ e ∈ patch, isPatchKey e.1 = true ∧ ∃ f, be.resolve o e.1 = some f ∧
    f.value.index ≠ 0 ∧ f.value.index ≠ e.2.value.index

/-- Every field of the patch has the type and the attributes of the one it is for. -/
def Fits (o patch : Annotated) : Prop :=
  ∀ e ∈ patch, isPatchKey e.1 = true → ∀ f, be.resolve o e.1 = some f → f.Admits e.2

/-- What a set request should keep: every field has its type and its attributes; a patch with a
mismatched type is rejected, and every field is as it was. -/
structure SetKeeps (r : SetRequest) (obj : Object μ) : Prop where
  stable : be.Stable obj.fields (be.handleSet r obj).state.fields
  rejects : ∀ patch, (be.patchOf r obj).result = .ok (.ok patch) →
    be.Mismatched (be.patchOf r obj).state.fields patch →
      (be.handleSet r obj).result ≠ .ok (.ok ()) ∧
        ∀ name, be.resolve (be.handleSet r obj).state.fields name = be.resolve obj.fields name

/-- The hook, if there is one, keeps the fields of the object, and what is written fits them. -/
structure SetFits (r : SetRequest) (obj : Object μ) : Prop where
  hook : ∀ m obj', be.findMethodM HOOK_SETTER obj = ⟨.ok (some m), [], obj'⟩ →
    be.Stable obj'.fields (be.impl m r.payload obj').2.fields
  fits : ∀ patch, (be.patchOf r obj).result = .ok (.ok patch) →
    be.Fits (be.patchOf r obj).state.fields patch

/-- The object after requests. -/
def runSets (requests : List SetRequest) (obj : Object μ) : Object μ :=
  requests.foldl (fun obj r => (be.handleSet r obj).state) obj

/-- Every request fits the object it is for. -/
def AllFit : List SetRequest → Object μ → Prop
  | [], _ => True
  | r :: requests, obj => be.SetFits r obj ∧ AllFit requests (be.handleSet r obj).state

end Handlers

/-! ### But for the attributes, it is the request that is modelled elsewhere -/

section Values

variable {σ : Type}

/-- The object without its attributes. -/
def SameValues (obj : Object μ) (s : Instance μ × World μ σ) : Prop :=
  s.1 = ⟨obj.fields.values, obj.methods⟩

theorem afterThrow_values (o : Annotated) : (afterThrow o).values = Bison.afterThrow o.values := by
  unfold afterThrow Bison.afterThrow
  rw [← resolveNamespace_values]
  rcases resolveNamespace o with e | ⟨ns, o'⟩
  · rfl
  · rfl

theorem onFields_coupled {p : Decoder Exn Annotated Unit} {q : DynamicM Unit}
    (h : ∀ o, bare id (p o) = q o.values) :
    Coupled SameValues (onFields p : ObjectM μ Unit)
      (Bison.onFields q : Bison.ObjectM μ σ Unit) := by
  rintro obj ⟨inst, w⟩ hsame
  obtain rfl : inst = ⟨obj.fields.values, obj.methods⟩ := hsame
  have hrun := h obj.fields
  unfold onFields Bison.onFields Program.ofState
  rcases hp : p obj.fields with e | ⟨⟨⟩, fields⟩
  · rw [hp] at hrun
    have hq : q obj.fields.values = .error e := hrun.symm
    simp only [hp, hq]
    refine ⟨trivial, trivial, ?_⟩
    show Instance.mk _ _ = Instance.mk _ _
    rw [afterThrow_values]
  · rw [hp] at hrun
    have hq : q obj.fields.values = .ok ((), fields.values) := hrun.symm
    simp only [hp, hq]
    exact ⟨trivial, trivial, rfl⟩

/-- A patch is applied as a server applies it. -/
theorem applyPatch_coupled (be : Backend μ) (srv : Server μ σ) (hreg : srv.registry = be.registry)
    (patch : Annotated) :
    Coupled SameValues (be.applyPatch patch) (srv.applyPatch patch.values) := by
  have hforEach : ∀ entries : Annotated,
      Coupled SameValues
        (Program.forEach (fun e => onFields (writeField be.registry be.declared e.1 e.2)) entries)
        (Program.forEach (fun e => Bison.onFields (Bison.writeField srv.registry e.1 e.2))
          (values entries) : Bison.ObjectM μ σ Unit) := by
    intro entries
    induction entries with
    | nil => exact .pure ()
    | cons e rest ih =>
      refine .bind (onFields_coupled fun o => ?_) fun _ => ih
      rw [hreg]
      exact writeField_values be.registry be.declared e.1 e.2 o
  have hfilter : (patch.values.filter fun e => isPatchKey e.1) =
      values (patch.filter fun e => isPatchKey e.1) := List.filter_map
  unfold Server.applyPatch
  rw [hfilter]
  exact hforEach _

end Values

/-! ## What a request keeps -/

section Keeps

variable {be : Backend μ} {base : Annotated}

/-- The fields are still those of `base`, in their types and attributes. -/
def StillStable (be : Backend μ) (base : Annotated) (obj : Object μ) : Prop :=
  be.Stable base obj.fields

theorem isPatchKey_iff {k : Key} :
    isPatchKey k = true ↔ k ≠ CLASS ∧ k ≠ PARENT ∧ k ≠ NAMESPACE := by
  unfold isPatchKey
  rw [decide_eq_true_iff]

theorem findMethodM_maintains (name : Key) :
    Maintains (be.StillStable base) (be.findMethodM name) := by
  refine Triple.ofState fun obj hobj => ?_
  rcases hfind : findMethod be.registry name obj.methods obj.fields with e | ⟨⟨m, methods⟩, fields⟩
  · exact Annotated.Stable.trans hobj (afterThrow_settled obj.fields).stable
  · exact Annotated.Stable.trans hobj (findMethod_spec hfind).1.stable

/-- One field of a patch. -/
theorem write_maintains {name : Key} {g : Field} (hname : isPatchKey name = true)
    (hadmits : ∀ f, be.resolve base name = some f → f.Admits g) :
    Maintains (be.StillStable base) (onFields (writeField be.registry be.declared name g)) := by
  obtain ⟨hclass, -, hns⟩ := isPatchKey_iff.mp hname
  refine Triple.ofState fun obj hobj => ?_
  rcases hwrite : writeField be.registry be.declared name g obj.fields with e | ⟨⟨⟩, fields⟩
  · exact Annotated.Stable.trans hobj (afterThrow_settled obj.fields).stable
  · exact writeField_stable hobj hclass hns hadmits hwrite

/-- A patch that fits. -/
theorem applyPatch_maintains {patch : Annotated} (hfits : be.Fits base patch) :
    Maintains (be.StillStable base) (be.applyPatch patch) := by
  refine Maintains.forEach fun e he => ?_
  obtain ⟨hmem, hname⟩ := List.mem_filter.mp he
  exact write_maintains hname (hfits e hmem hname)

/-- A method that was found is found again. -/
theorem findMethodM_again {name : Key} {m : μ} {obj obj' : Object μ}
    (h : be.findMethodM name obj = ⟨.ok (some m), [], obj'⟩) :
    be.findMethodM name obj' = ⟨.ok (some m), [], obj'⟩ := by
  have hmethods : obj'.methods.lookup name = some m := by
    unfold findMethodM Program.ofState at h
    rcases hfind : findMethod be.registry name obj.methods obj.fields with
      e | ⟨⟨m', methods⟩, fields⟩
    · simp only [hfind] at h
      cases h
    · simp only [hfind] at h
      cases h
      exact (findMethod_spec hfind).2 m rfl
  have hfind : findMethod be.registry name obj'.methods obj'.fields =
      .ok ((some m, obj'.methods), obj'.fields) := by
    unfold findMethod
    rw [hmethods]
  simp only [findMethodM, Program.ofState, hfind]

/-- What the hook returns, and what it does to the object. -/
theorem call_run {name : Key} {m : μ} {obj : Object μ}
    (h : be.findMethodM name obj = ⟨.ok (some m), [], obj⟩) (params : Annotated) :
    be.call name params obj =
      ⟨(be.impl m params obj).1.mapError .thrown, [], (be.impl m params obj).2⟩ := by
  unfold call
  rw [Program.bind_ok h]
  exact external_run (f := be.impl m params) rfl

theorem findMethodM_run (name : Key) (obj : Object μ) : ∃ result obj',
    be.findMethodM name obj = ⟨result, [], obj'⟩ ∧ be.Stable obj.fields obj'.fields := by
  have hmaintains : Maintains (be.StillStable obj.fields) (be.findMethodM name) :=
    findMethodM_maintains name
  have hstable := hmaintains.state (Annotated.Stable.refl obj.fields)
  exact ⟨_, _, rfl, hstable⟩

/-- Up to what is written, the fields are kept, if the hook keeps them. -/
theorem patchOf_stable {r : SetRequest} {obj : Object μ}
    (hook : ∀ m obj', be.findMethodM HOOK_SETTER obj = ⟨.ok (some m), [], obj'⟩ →
      be.Stable obj'.fields (be.impl m r.payload obj').2.fields) :
    be.Stable obj.fields (be.patchOf r obj).state.fields := by
  obtain ⟨result, obj', hfind, hstable⟩ := be.findMethodM_run HOOK_SETTER obj
  unfold patchOf
  rcases result with e | _ | m
  · rw [Program.bind_error hfind]
    exact hstable
  · rw [Program.bind_ok hfind]
    exact hstable
  · rw [Program.bind_ok hfind]
    -- the call looks the hook up once more
    have hrun := call_run (findMethodM_again hfind) r.payload
    have hkept := hstable.trans (hook m obj' hfind)
    cases r with
    | server payload =>
      show be.Stable _ (tryCatch (be.call HOOK_SETTER _) obj').state.fields
      rw [tryCatch_mapError hrun]
      exact hkept
    | standalone payload =>
      show be.Stable _ ((be.call HOOK_SETTER _ >>= fun patch => _) obj').state.fields
      rw [Program.bind_run, hrun]
      cases (be.impl m (SetRequest.standalone payload).payload obj').1 with
      | error what => exact hkept
      | ok patch => exact hkept

/-- **One request** that fits keeps the fields. -/
theorem setKeeps_of_fits {r : SetRequest} {obj : Object μ} (h : be.SetFits r obj) :
    be.SetKeeps r obj := by
  have hstable := patchOf_stable h.hook
  have hfits := h.fits
  constructor
  · unfold handleSet
    rw [Program.bind_run]
    generalize be.patchOf r obj = o at hstable hfits
    rcases o with ⟨e | what | patch, trace, obj'⟩
    · exact hstable
    · exact hstable
    · have hkept := (applyPatch_maintains (hfits patch rfl)).state
        (Annotated.Stable.refl obj'.fields)
      refine hstable.trans ?_
      show be.Stable obj'.fields ((be.applyPatch patch >>= fun _ => _) obj').state.fields
      rw [Program.bind_run]
      generalize be.applyPatch patch obj' = o at hkept
      rcases o with ⟨_ | _, trace, obj''⟩
      · exact hkept
      · exact hkept
  · -- a patch that fits has no value of another type
    intro patch hpatch hmismatched
    obtain ⟨e, he, hname, f, hf, hnonempty, hother⟩ := hmismatched
    have hadmits := (hfits patch hpatch e he hname f hf).1
    exact absurd hadmits (not_or.mpr ⟨hnonempty, hother⟩)

/-! ## A patch that does not fit -/

theorem write_run {name : Key} {g : Field} {obj obj' : Object μ} {trace : List SessionEffect}
    (h : onFields (writeField be.registry be.declared name g) obj = ⟨.ok (), trace, obj'⟩) :
    writeField be.registry be.declared name g obj.fields = .ok ((), obj'.fields) := by
  unfold onFields Program.ofState at h
  rcases hwrite : writeField be.registry be.declared name g obj.fields with e | ⟨⟨⟩, fields⟩
  · simp only [hwrite] at h
    cases h
  · simp only [hwrite] at h
    cases h
    rfl

/-- A field that is not written stands for what it stood for. -/
theorem writes_resolve_other {name : Key} (hname : isPatchKey name = true) {entries : Annotated} :
    ∀ {obj obj' : Object μ} {trace : List SessionEffect}, (∀ e ∈ entries, isPatchKey e.1 = true) →
      (∀ e ∈ entries, name ≠ e.1) →
      Program.forEach (fun e => onFields (writeField be.registry be.declared e.1 e.2)) entries obj =
        ⟨.ok (), trace, obj'⟩ → be.resolve obj'.fields name = be.resolve obj.fields name := by
  induction entries with
  | nil =>
    intro obj obj' trace _ _ h
    cases h
    rfl
  | cons a as ih =>
    intro obj obj' trace hkeys hother h
    obtain ⟨⟨⟩, t, obj₁, t', hfirst, hrest, -⟩ := Program.bind_eq_ok h
    rw [ih (fun e he => hkeys e (List.mem_cons_of_mem _ he))
      (fun e he => hother e (List.mem_cons_of_mem _ he)) hrest]
    obtain ⟨o₁, hsettled, ho⟩ := writeField_spec (write_run hfirst)
    obtain ⟨hclass, -, hns⟩ := isPatchKey_iff.mp (hkeys a List.mem_cons_self)
    obtain ⟨hclass', -, hns'⟩ := isPatchKey_iff.mp hname
    rw [ho]
    exact (resolve_insert hclass hns _ _ (hother a List.mem_cons_self)).trans
      (hsettled.resolve hclass' hns')

/-- A field that is written is the one of the patch. -/
theorem writes_resolve {entries : Annotated} : ∀ {obj obj' : Object μ}
    {trace : List SessionEffect}, (∀ e ∈ entries, isPatchKey e.1 = true) →
      (entries.map Prod.fst).Nodup →
      Program.forEach (fun e => onFields (writeField be.registry be.declared e.1 e.2)) entries obj =
        ⟨.ok (), trace, obj'⟩ → ∀ e ∈ entries, be.resolve obj'.fields e.1 = some e.2 := by
  induction entries with
  | nil => exact fun _ _ _ e he => absurd he List.not_mem_nil
  | cons a as ih =>
    intro obj obj' trace hkeys hnodup h e he
    obtain ⟨⟨⟩, t, obj₁, t', hfirst, hrest, -⟩ := Program.bind_eq_ok h
    rw [List.map_cons, List.nodup_cons] at hnodup
    have hkeys' : ∀ e ∈ as, isPatchKey e.1 = true :=
      fun e he => hkeys e (List.mem_cons_of_mem _ he)
    rcases List.mem_cons.mp he with rfl | he
    · have hother : ∀ e' ∈ as, e.1 ≠ e'.1 := fun e' he' heq =>
        hnodup.1 (heq ▸ List.mem_map_of_mem he')
      obtain ⟨o₁, -, ho⟩ := writeField_spec (write_run hfirst)
      rw [writes_resolve_other (hkeys e List.mem_cons_self) hkeys' hother hrest, ho]
      exact resolve_own (lookup_insert_self _ _ _)
    · exact ih hkeys' hnodup.2 hrest e he

/-- **Exactness**: a patch that is applied keeps the fields if and only if it fits. -/
theorem applyPatch_keeps_iff {patch : Annotated} {obj obj' : Object μ} {trace : List SessionEffect}
    (hpatch : Sorted patch) (h : be.applyPatch patch obj = ⟨.ok (), trace, obj'⟩) :
    be.Stable obj.fields obj'.fields ↔ be.Fits obj.fields patch := by
  constructor
  · intro hstable e he hname f hf
    -- in the end the field is the one of the patch, whose keys are distinct
    obtain ⟨f', hf', hkeeps⟩ := hstable e.1 f hf
    have hnodup : ((patch.filter fun e => isPatchKey e.1).map Prod.fst).Nodup :=
      hpatch.nodup_keys.sublist (List.filter_sublist.map _)
    have hresolve := writes_resolve (fun e he => (List.mem_filter.mp he).2) hnodup h e
      (List.mem_filter.mpr ⟨he, hname⟩)
    obtain rfl : e.2 = f' := Option.some.inj (hresolve.symm.trans hf')
    exact (f.keeps_iff_admits e.2).mp hkeeps
  · intro hfits
    have hkept := (applyPatch_maintains hfits).state (Annotated.Stable.refl obj.fields)
    rw [h] at hkept
    exact hkept

/-! ## Runs -/

theorem runSets_append (be : Backend μ) (requests later : List SetRequest) (obj : Object μ) :
    be.runSets (requests ++ later) obj = be.runSets later (be.runSets requests obj) :=
  List.foldl_append

theorem AllFit.after {requests later : List SetRequest} : ∀ {obj : Object μ},
    be.AllFit (requests ++ later) obj → be.AllFit later (be.runSets requests obj) := by
  induction requests with
  | nil => exact fun h => h
  | cons r requests ih => exact fun h => ih h.2

theorem AllFit.stable {requests : List SetRequest} : ∀ {later : List SetRequest} {obj : Object μ},
    be.AllFit (requests ++ later) obj →
      be.Stable obj.fields (be.runSets requests obj).fields := by
  induction requests with
  | nil => exact fun _ => Annotated.Stable.refl _
  | cons r requests ih => exact fun h => (setKeeps_of_fits h.1).stable.trans (ih h.2)

end Keeps

/-- **Main result**: where every request fits the object it is for, each keeps what it should; and
from any object of the run to any later one, every field keeps its type and its attributes. -/
theorem sets_keep (be : Backend μ) (requests : List SetRequest) (obj : Object μ)
    (h : be.AllFit requests obj) :
    (∀ before r after, requests = before ++ r :: after →
      be.SetKeeps r (be.runSets before obj)) ∧
    ∀ before between after, requests = before ++ (between ++ after) →
      be.Stable (be.runSets before obj).fields (be.runSets (before ++ between) obj).fields := by
  constructor
  · rintro before r after rfl
    exact setKeeps_of_fits (AllFit.after h).1
  · rintro before between after rfl
    rw [runSets_append]
    exact AllFit.stable (AllFit.after h)

/-- No classes, and no methods. -/
def bareBackend : Backend Unit where
  registry := []
  declared _ _ := []
  impl _ params obj := (.ok params, obj)

/-- A number with flags, and a number. -/
def twoNumbers : Object Unit where
  fields := [(100, ⟨.int32 5, [.enumFlags [(ascii "on", 1)]]⟩), (101, ⟨.int32 5, []⟩)]
  methods := []

/-- The number is set remotely, and the flags in the process, with what is attached to them. -/
def fittingSets : List SetRequest :=
  [.server [(101, .int32 6)], .standalone [(100, ⟨.int32 0, [.enumFlags [(ascii "on", 1)]]⟩)]]

/-- One field for one that is of its type, and has its attributes. -/
theorem single_fits {r : SetRequest} {obj : Object Unit} {name : Key} {f g : Field}
    (hpatch : (bareBackend.patchOf r obj).result = .ok (.ok [(name, g)]))
    (hf : bareBackend.resolve (bareBackend.patchOf r obj).state.fields name = some f)
    (hadmits : f.Admits g) : bareBackend.SetFits r obj where
  hook _ _ _ := Annotated.Stable.refl _
  fits patch hpatch' := by
    obtain rfl := Except.ok.inj (Except.ok.inj (hpatch.symm.trans hpatch'))
    intro e he _ f' hf'
    obtain rfl := List.mem_singleton.mp he
    obtain rfl := Option.some.inj (hf.symm.trans hf')
    exact hadmits

theorem fittingSets_fit : bareBackend.AllFit fittingSets twoNumbers :=
  ⟨single_fits rfl rfl ⟨.inr rfl, fun _ h => h⟩, single_fits rfl rfl ⟨.inr rfl, fun _ h => h⟩,
    trivial⟩

theorem sets_keep_fitting : bareBackend.AllFit fittingSets twoNumbers ∧
    bareBackend.Stable twoNumbers.fields (bareBackend.runSets fittingSets twoNumbers).fields :=
  ⟨fittingSets_fit,
    (sets_keep bareBackend fittingSets twoNumbers fittingSets_fit).2 [] fittingSets [] rfl⟩

/-- A text for a number: it is stored, and nothing is reported. -/
theorem text_replaces_number : ¬ ∀ (be : Backend Unit) (r : SetRequest) (obj : Object Unit),
    be.SetKeeps r obj := by
  intro h
  have hstable := (h bareBackend (.server [(100, .string (ascii "x"))]) twoNumbers).stable
  obtain ⟨f, hf, hkeeps⟩ := hstable 100 _ rfl
  obtain rfl : ⟨.string (ascii "x"), []⟩ = f := Option.some.inj hf
  exact absurd (hkeeps.type (by decide)) (by decide)

end Backend

end Annotated

end Bison
